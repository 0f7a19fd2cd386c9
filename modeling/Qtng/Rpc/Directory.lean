import Qtng.General.Path

namespace Qtng.Rpc

open BigEndian Path List

/-- The files of the receiving host as the standard library sees them. The separator at the end of a
canonical path depends on what exists. -/
structure Host where
  present : Bytes → Bool
  fails : Bytes → Bool
  trailing : Bytes → Bool

/-- The root has been made absolute; it is the path of a directory and so has no NUL. -/
structure NativeRpcDirFileProvider where
  rootDir : Bytes
  absolute : rootDir.head? = some slash
  clean : (0 : UInt8) ∉ rootDir

/-- The operator `/` of std::filesystem::path for a relative path on the right. -/
def append (path sub : Bytes) : Bytes :=
  if path.getLast? = some slash then path ++ sub else path ++ slash :: sub

/-- If all of a path exists, the C library has been asked for it and has seen no more than the
bytes before a NUL. -/
def seen (host : Host) (path : Bytes) : Bytes := if host.present (Path.cString path) then Path.cString path else path

/-- Without symbolic links the canonical path is the lexical one. -/
def weaklyCanonical (host : Host) (path : Bytes) : Option Bytes :=
  if host.fails path then none
  else
    let names := locate (seen host path)
    some (if host.trailing path ∧ names ≠ [] then render names ++ [slash] else render names)

namespace NativeRpcDirFileProvider

def makePath (provider : NativeRpcDirFileProvider) (host : Host) (filePath : Bytes) : Option Bytes :=
  if filePath = [] ∨ filePath.head? = some slash then none
  else
    match weaklyCanonical host (append provider.rootDir filePath) with
    | none => none
    | some full => if provider.rootDir.isPrefixOf full then some full else none

def getFile (provider : NativeRpcDirFileProvider) (host : Host) (filePath : Bytes) : Option Bytes :=
  (provider.makePath host filePath).map Path.cString

/-- The paths of a directory and of its parents up to one that exists. -/
def missing (host : Host) (full : Bytes) : List Bytes :=
  (((locate full).inits.reverse.map render).map Path.cString).takeWhile (fun path => !host.present path)

def createDirectory (provider : NativeRpcDirFileProvider) (host : Host) (dirPath : Bytes) : List Bytes :=
  match provider.makePath host dirPath with
  | none => []
  | some full => missing host full

def Within (provider : NativeRpcDirFileProvider) (path : Bytes) : Prop := locate provider.rootDir <+: locate path

instance (provider : NativeRpcDirFileProvider) (path : Bytes) : Decidable (provider.Within path) :=
  inferInstanceAs (Decidable (_ <+: _))

def Rooted (provider : NativeRpcDirFileProvider) (host : Host) : Prop :=
  ∀ names, names <+: locate provider.rootDir → host.present (render names)

/-- What the provider opens or creates for an entry of any name stays in the root. -/
def Confined (provider : NativeRpcDirFileProvider) : Prop :=
  ∀ host entry, provider.Rooted host →
    (∀ path, provider.getFile host entry = some path → provider.Within path) ∧
    ∀ path ∈ provider.createDirectory host entry, provider.Within path

/-- The root is the root of the file system, or its own path is such that the comparison of texts
cannot go wrong: it ends in `..`, or no canonical path begins with it. -/
def Harmless (provider : NativeRpcDirFileProvider) : Prop :=
  locate provider.rootDir = [] ∨ (components provider.rootDir).getLast? = some [dot, dot] ∨
    ∃ name ∈ (components provider.rootDir).tail.dropLast, ¬ Plain name

variable {provider : NativeRpcDirFileProvider} {host : Host} {entry full : Bytes}

variable (accepted : provider.makePath host entry = some full)
include accepted

theorem makePath_some :
    provider.rootDir <+: full ∧ ∃ names, (∀ name ∈ names, Plain name ∧ slash ∉ name) ∧
      (full = render names ∨ full = render names ++ [slash] ∧ names ≠ []) := by
  simp only [makePath, weaklyCanonical] at accepted
  split at accepted
  · cases accepted
  · split at accepted
    · cases accepted
    case h_2 path canonical =>
      split_ifs at accepted with start
      cases accepted
      refine ⟨List.isPrefixOf_iff_prefix.mp start, locate (seen host (append provider.rootDir entry)),
        fun name member => (mem_locate member).2, ?_⟩
      split_ifs at canonical with fails separated
      · cases canonical
        exact .inr ⟨rfl, separated.2⟩
      · cases canonical
        exact .inl rfl

theorem regular_makePath : Regular full := by
  obtain ⟨-, names, named, rfl | ⟨rfl, filled⟩⟩ := makePath_some accepted
  · exact regular_render named
  · exact ⟨names, [], components_trailing (fun name member => (named name member).2) filled,
      fun name member => (named name member).1⟩

theorem locate_makePath :
    (∀ name ∈ locate full, Plain name ∧ slash ∉ name) ∧
      (full = render (locate full) ∨ full = render (locate full) ++ [slash] ∧ locate full ≠ []) := by
  obtain ⟨-, names, named, shape⟩ := makePath_some accepted
  have located : locate full = names := by
    rcases shape with rfl | ⟨rfl, filled⟩
    · exact locate_render named
    · rw [locate_regular (components_trailing (fun name member => (named name member).2) filled)
        (fun name member => (named name member).1)]
      rfl
  rw [located]
  exact ⟨named, shape⟩

omit accepted

section Climbing

-- the root's own path ends in `..`, and all other components are names
variable {front : List Bytes} (parts : components provider.rootDir = [] :: (front ++ [[dot, dot]]))
  (plain : ∀ name ∈ front, Plain name)

include parts plain

theorem within_of_prefix {path : Bytes} (start : provider.rootDir <+: path) (regular : Regular path) :
    provider.Within path := by
  obtain ⟨rest, rfl⟩ := start
  obtain ⟨next, more, after⟩ := exists_cons_of_ne_nil (components_ne_nil rest)
  obtain ⟨names, last, whole, named⟩ := regular
  have grown : components (provider.rootDir ++ rest) = ([] :: front) ++ ([dot, dot] ++ next) :: more :=
    components_append parts after
  have same : front ++ ([dot, dot] ++ next) :: more = names ++ [last] := by
    rw [whole, cons_append, cons.injEq] at grown
    exact grown.2.symm
  have below : front <+: names := by
    have left : front <+: names ++ [last] := ⟨_, same⟩
    have fits := congrArg length same
    simp only [length_append, length_cons, length_nil] at fits
    exact prefix_of_prefix_length_le left (prefix_append _ _) (by omega)
  rw [Within, locate_regular parts plain, locate_regular whole named]
  refine prefix_move ?_ _
  obtain ⟨others, rfl⟩ := below
  change front.dropLast <+: _
  by_cases none : others = []
  · simp [none]
  · rw [dropLast_append_of_ne_nil none]
    exact (List.dropLast_prefix front).trans (prefix_append _ _)

theorem within_cString {path : Bytes} (start : provider.rootDir <+: path) (regular : Regular path) :
    provider.Within (Path.cString path) := by
  obtain ⟨rest, rfl⟩ := start
  have shorter := cString_append provider.clean rest
  have head : (Path.cString (provider.rootDir ++ rest)).head? = some slash := by
    rw [shorter, head?_append, provider.absolute]
    rfl
  have beginning : Path.cString (provider.rootDir ++ rest) <+: provider.rootDir ++ rest := takeWhile_prefix _
  refine within_of_prefix parts plain ?_ (regular.of_prefix head beginning)
  rw [shorter]
  exact prefix_append _ _

theorem names_makePath (accepted : provider.makePath host entry = some full) :
    ∃ next more, locate full = front ++ ([dot, dot] ++ next) :: more := by
  obtain ⟨rest, rfl⟩ := (makePath_some accepted).1
  obtain ⟨next, more, after⟩ := exists_cons_of_ne_nil (components_ne_nil rest)
  obtain ⟨named, shape⟩ := locate_makePath accepted
  have clean : ∀ name ∈ locate (provider.rootDir ++ rest), slash ∉ name := fun name member => (named name member).2
  have grown : components (provider.rootDir ++ rest) = ([] :: front) ++ ([dot, dot] ++ next) :: more :=
    components_append parts after
  by_cases empty : locate (provider.rootDir ++ rest) = []
  · have bare : provider.rootDir ++ rest = render [] := by
      rcases shape with bare | ⟨-, filled⟩
      · rwa [empty] at bare
      · exact absurd empty filled
    have two : components (render []) = [[], []] := rfl
    rw [bare, two] at grown
    cases front <;> simp at grown
  · rcases shape with bare | ⟨trailing, filled⟩
    · rw [bare, components_render clean empty, cons_append, cons.injEq] at grown
      exact ⟨next, more, grown.2⟩
    · rw [trailing, components_trailing clean filled, cons_append, cons.injEq] at grown
      rcases eq_nil_or_concat' more with rfl | ⟨others, last, rfl⟩
      · obtain ⟨-, ends⟩ := append_inj' grown.2 rfl
        simp at ends
      · have same : locate (provider.rootDir ++ rest) ++ [[]] =
            (front ++ ([dot, dot] ++ next) :: others) ++ [last] := by
          rw [grown.2]
          simp
        exact ⟨next, others, (append_inj' same rfl).1⟩

theorem within_missing (accepted : provider.makePath host entry = some full) (rooted : provider.Rooted host)
    {path : Bytes} (created : path ∈ missing host full) : provider.Within path := by
  obtain ⟨next, more, names⟩ := names_makePath parts plain accepted
  have absent : host.present path = false := by
    unfold missing at created
    simpa using mem_takeWhile_imp created
  obtain ⟨part, start, rfl⟩ : ∃ part, part <+: locate full ∧ Path.cString (render part) = path := by
    have listed := (List.takeWhile_prefix _).subset created
    simp only [map_map, mem_map, mem_reverse, mem_inits, Function.comp_apply] at listed
    exact listed
  have root : provider.rootDir = render (front ++ [[dot, dot]]) := render_of_components parts (by simp)
  have named := (locate_makePath accepted).1
  have regular : Regular (render part) := regular_render (fun name member => named name (start.subset member))
  rw [names] at start
  by_cases long : front.length < part.length
  · -- the text of the root is a beginning of this one too
    obtain ⟨tail, rfl⟩ := prefix_of_prefix_length_le (prefix_append _ _) start long.le
    cases tail with
    | nil => simp at long
    | cons name others =>
    obtain ⟨rfl, -⟩ := cons_prefix_cons.mp ((prefix_append_right_inj front).mp start)
    refine within_cString parts plain ?_ regular
    rw [root]
    exact render_prefix_grown front others [dot, dot] next
  · have inside : part <+: front :=
      prefix_of_prefix_length_le start (prefix_append _ _) (by omega)
    have clean : (0 : UInt8) ∉ render part := by
      intro member
      refine provider.clean ?_
      rw [root]
      exact (render_start (inside.trans (prefix_append _ _))).subset member
    rw [cString_of_clean clean] at absent ⊢
    have above : locate provider.rootDir = front.dropLast := locate_regular parts plain
    rw [Within, above, locate_render (fun name member => named name (names ▸ start.subset member))]
    rcases Nat.lt_or_ge part.length front.length with short | full
    · have higher : part <+: front.dropLast :=
        prefix_of_prefix_length_le inside (List.dropLast_prefix front) (by simp; omega)
      have there := rooted part (above ▸ higher)
      simp [absent] at there
    · rw [inside.eq_of_length (Nat.le_antisymm inside.length_le full)]
      exact dropLast_prefix front

end Climbing

theorem confined_of_harmless (harmless : provider.Harmless) : provider.Confined := by
  intro host entry rooted
  by_cases top : locate provider.rootDir = []
  · have anywhere : ∀ path, provider.Within path := by
      intro path
      rw [Within, top]
      exact nil_prefix
    exact ⟨fun path _ => anywhere path, fun path _ => anywhere path⟩
  cases accepted : provider.makePath host entry with
  | none => simp [getFile, createDirectory, accepted]
  | some full =>
    obtain ⟨start, -⟩ := makePath_some accepted
    have regular := regular_makePath accepted
    obtain ⟨front, last, parts, plain⟩ := regular.of_prefix provider.absolute start
    obtain rfl : last = [dot, dot] := by
      rcases harmless with root | climbs | ⟨name, member, odd⟩
      · exact absurd root top
      · rw [parts, ← cons_append, getLast?_concat] at climbs
        exact Option.some.inj climbs
      · rw [parts, tail_cons, dropLast_concat] at member
        exact absurd (plain name member) odd
    constructor
    · intro path opened
      rw [getFile, accepted, Option.map_some, Option.some.injEq] at opened
      rw [← opened]
      exact within_cString parts plain start regular
    · intro path created
      rw [createDirectory, accepted] at created
      exact within_missing parts plain accepted rooted created

def emptyHost (provider : NativeRpcDirFileProvider) : Host where
  present path := (locate provider.rootDir).inits.any (fun names => render names = path)
  fails _ := false
  trailing _ := false

theorem rooted_emptyHost (provider : NativeRpcDirFileProvider) : provider.Rooted provider.emptyHost := by
  intro names above
  simp only [emptyHost, any_eq_true, mem_inits, decide_eq_true_eq]
  exact ⟨names, above, rfl⟩

theorem locate_append (path sub : Bytes) :
    locate (append path sub) = walk (locate path) ((components sub).map stepOf) := by
  rw [append]
  split
  case isTrue ends =>
    obtain ⟨front, rfl⟩ := getLast?_eq_some_iff.mp ends
    have same : locate (front ++ [slash]) = locate front := by
      rw [locate_join]
      rfl
    rw [append_assoc, same]
    exact locate_join front sub
  case isFalse _ => exact locate_join path sub

theorem mem_append_iff {path sub : Bytes} (byte : UInt8) (other : byte ≠ slash) :
    byte ∈ append path sub ↔ byte ∈ path ∨ byte ∈ sub := by
  unfold append
  split <;> simp [other]

theorem not_confined_of_entry (entry : Bytes) (names : List Bytes) (relative : entry ≠ [] ∧ entry.head? ≠ some slash)
    (located : locate (seen provider.emptyHost (append provider.rootDir entry)) = names)
    (start : provider.rootDir <+: render names) (outside : ¬ provider.Within (Path.cString (render names))) :
    ¬ provider.Confined := by
  intro confined
  have canonical : weaklyCanonical provider.emptyHost (append provider.rootDir entry) = some (render names) := by
    rw [weaklyCanonical, located]
    simp [emptyHost]
  have allowed : ¬ (entry = [] ∨ entry.head? = some slash) := by tauto
  have opened : provider.getFile provider.emptyHost entry = some (Path.cString (render names)) := by
    rw [getFile, makePath, if_neg allowed, canonical]
    simp [List.isPrefixOf_iff_prefix.mpr start]
  exact outside ((confined _ _ provider.rooted_emptyHost).1 _ opened)

section Escapes

variable {front : List Bytes} {last : Bytes} (parts : components provider.rootDir = [] :: (front ++ [last]))
  (plain : ∀ name ∈ front, Plain name)

include parts

theorem clean_components {name : Bytes} (member : name ∈ front ++ [last]) : slash ∉ name ∧ (0 : UInt8) ∉ name := by
  have listed : name ∈ components provider.rootDir := parts ▸ mem_cons_of_mem _ member
  exact ⟨not_mem_of_mem_splitOn listed, fun zero => provider.clean ((infix_of_mem_splitOn listed).subset zero)⟩

include plain

/-- Behind a root that is written as the path of a directory usually is, an entry leads to a
neighbour whose name begins with the name of the root. -/
theorem sibling_escapes (named : Plain last) : ¬ provider.Confined := by
  have root : provider.rootDir = render (front ++ [last]) := render_of_components parts (by simp)
  have located : locate provider.rootDir = front ++ [last] := by
    rw [locate_regular parts plain, stepOf_plain named]
    rfl
  obtain ⟨unbroken, clean⟩ := clean_components parts (show last ∈ front ++ [last] by simp)
  have longer : Plain (last ++ [120]) ∧ slash ∉ last ++ [120] := by
    refine ⟨⟨by simp, ?_, ?_⟩, by simpa [slash] using unbroken⟩
    · intro single
      have ends := congrArg getLast? single
      simp [dot] at ends
    · intro double
      have ends := congrArg getLast? double
      simp [dot] at ends
  have entries : components ([dot, dot] ++ slash :: (last ++ [120])) = [[dot, dot], last ++ [120]] := by
    rw [components_join, components_single longer.2, components_single (by decide)]
    rfl
  have whole : (0 : UInt8) ∉ append provider.rootDir ([dot, dot] ++ slash :: (last ++ [120])) := by
    rw [mem_append_iff 0 (by decide)]
    simp [provider.clean, clean, dot, slash]
  have leads : locate (append provider.rootDir ([dot, dot] ++ slash :: (last ++ [120]))) =
      front ++ [last ++ [120]] := by
    have up : stepOf [dot, dot] = .up := rfl
    rw [locate_append, located, entries, map_cons, map_cons, stepOf_plain longer.1, up]
    simp [move]
  have opened : render (front ++ [last ++ [120]]) = provider.rootDir ++ [120] := by rw [render_grown, root]
  have outside : locate (render (front ++ [last ++ [120]])) = front ++ [last ++ [120]] := by
    refine locate_render (fun name member => ?_)
    rcases mem_append.mp member with old | new
    · exact ⟨plain name old, (clean_components parts (mem_append_left [last] old)).1⟩
    · rw [mem_singleton.mp new]
      exact longer
  refine not_confined_of_entry ([dot, dot] ++ slash :: (last ++ [120])) (front ++ [last ++ [120]])
    ⟨by simp, by simp [dot, slash]⟩ ?_ ?_ ?_
  · rw [seen, cString_of_clean whole, ite_self, leads]
  · rw [opened]
    exact prefix_append _ _
  · rw [Within, located, cString_of_clean, outside, prefix_append_right_inj]
    · simp
    · rw [opened]
      simpa using provider.clean

omit parts plain

theorem absent_emptyHost (start : Bytes) :
    provider.emptyHost.present (start ++ slash :: [dot, dot]) = false := by
  rw [Bool.eq_false_iff]
  intro there
  simp only [emptyHost, any_eq_true, mem_inits, decide_eq_true_eq] at there
  obtain ⟨names, above, same⟩ := there
  have named : ∀ name ∈ names, Plain name ∧ slash ∉ name := fun name member => (mem_locate (above.subset member)).2
  have ends : (components (render names)).getLast? = some [dot, dot] := by
    have single : components [dot, dot] = [[dot, dot]] := rfl
    rw [same, components_join, single, getLast?_concat]
  by_cases empty : names = []
  · subst empty
    exact absurd ends (by decide)
  · rw [components_render (fun name member => (named name member).2) empty, getLast?_cons_of_ne_nil empty] at ends
    exact (named _ (mem_of_getLast? ends)).1.2.2 rfl

/-- An entry that climbs up twice from a name that does not exist, with a NUL at the end. -/
def climbing : Bytes := [120, slash, dot, dot, slash, dot, dot, 0]

theorem cString_climbing (provider : NativeRpcDirFileProvider) :
    ∃ start, Path.cString (append provider.rootDir climbing) = start ++ slash :: [dot, dot] := by
  unfold append
  split
  · refine ⟨provider.rootDir ++ [120, slash, dot, dot], ?_⟩
    rw [cString_append provider.clean, append_assoc]
    rfl
  · refine ⟨provider.rootDir ++ [slash, 120, slash, dot, dot], ?_⟩
    rw [cString_append provider.clean, append_assoc]
    rfl

include parts plain

/-- Behind a root that ends in a separator or in `.`, an entry with a NUL leads to the directory
above the root: the checked path goes on behind the NUL, the opened one does not. -/
theorem parent_escapes (ends : last = [] ∨ last = [dot]) (filled : front ≠ []) : ¬ provider.Confined := by
  have root : provider.rootDir = render front ++ slash :: last := by
    rw [← render_concat filled]
    exact render_of_components parts (by simp)
  have located : locate provider.rootDir = front := by
    rw [locate_regular parts plain]
    rcases ends with rfl | rfl <;> rfl
  have named : ∀ name ∈ front, Plain name ∧ slash ∉ name := fun name member =>
    ⟨plain name member, (clean_components parts (mem_append_left [last] member)).1⟩
  have above : (0 : UInt8) ∉ render front := fun zero => provider.clean (by simp [root, zero])
  have entries : components climbing = [[120], [dot, dot], [dot, dot, 0]] := by decide
  have leads : locate (append provider.rootDir climbing) = front ++ [[dot, dot, 0]] := by
    rw [locate_append, located, entries]
    simp [stepOf, move, dot]
  have unknown : provider.emptyHost.present (Path.cString (append provider.rootDir climbing)) = false := by
    obtain ⟨start, climbs⟩ := provider.cString_climbing
    rw [climbs]
    exact absent_emptyHost start
  have opened : Path.cString (render (front ++ [[dot, dot, 0]])) = render front ++ slash :: [dot, dot] := by
    rw [render_concat filled, cString_append above]
    rfl
  refine not_confined_of_entry climbing (front ++ [[dot, dot, 0]])
    ⟨by simp [climbing], by simp [climbing, slash]⟩ ?_ ?_ ?_
  · rw [seen, unknown, if_neg (by simp), leads]
  · rw [root, render_concat filled, prefix_append_right_inj]
    rcases ends with rfl | rfl <;> decide
  · rw [Within, located, opened, locate_join, locate_render named, components_single (by decide)]
    intro below
    have fits := below.length_le
    have some := length_pos_iff.mpr filled
    simp [stepOf, move] at fits
    omega

end Escapes

/-- The comparison of texts keeps all entries in the root for the roots that are `Harmless`, and
for no others. -/
theorem confined_iff (provider : NativeRpcDirFileProvider) : provider.Confined ↔ provider.Harmless := by
  refine ⟨fun confined => ?_, confined_of_harmless⟩
  obtain ⟨front, last, parts⟩ := components_absolute provider.absolute
  by_cases plain : ∀ name ∈ front, Plain name
  · by_cases named : Plain last
    · exact absurd confined (sibling_escapes parts plain named)
    · by_cases climbs : last = [dot, dot]
      · refine .inr (.inl ?_)
        rw [parts, ← cons_append, getLast?_concat, climbs]
      · have ends : last = [] ∨ last = [dot] := by
          by_contra other
          exact named ⟨fun empty => other (.inl empty), fun single => other (.inr single), climbs⟩
        by_cases top : front = []
        · refine .inl ?_
          rw [locate_regular parts plain, top]
          rcases ends with rfl | rfl <;> rfl
        · exact absurd confined (parent_escapes parts plain ends top)
  · push Not at plain
    obtain ⟨name, member, odd⟩ := plain
    refine .inr (.inr ⟨name, ?_, odd⟩)
    rwa [parts, tail_cons, dropLast_concat]

/-- `/srv/data` as the root and an entry `../data2/x`. -/
theorem neighbour_opened :
    let provider : NativeRpcDirFileProvider := ⟨[47, 115, 114, 118, 47, 100, 97, 116, 97], by decide, by decide⟩
    let entry : Bytes := [46, 46, 47, 100, 97, 116, 97, 50, 47, 120]
    provider.Rooted provider.emptyHost ∧
      provider.getFile provider.emptyHost entry = some [47, 115, 114, 118, 47, 100, 97, 116, 97, 50, 47, 120] ∧
      ¬ provider.Within [47, 115, 114, 118, 47, 100, 97, 116, 97, 50, 47, 120] := by
  intro provider entry
  refine ⟨provider.rooted_emptyHost, by decide, by decide⟩

end NativeRpcDirFileProvider
end Qtng.Rpc
