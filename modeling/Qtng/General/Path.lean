import Qtng.General.BigEndian

namespace Path

open List

variable {α : Type*}

/-- What one component of a path does to a location. -/
inductive Step (α : Type*)
  | stay
  | up
  | down (name : α)
deriving DecidableEq

/-- A location is the list of names below the root; there is nothing above the root. -/
def move (location : List α) : Step α → List α
  | .stay => location
  | .up => location.dropLast
  | .down name => location ++ [name]

/-- The lexical reading of a path that is followed from a location. -/
def walk (location : List α) (steps : List (Step α)) : List α := steps.foldl move location

@[simp]
theorem walk_nil (location : List α) : walk location [] = location := rfl

@[simp]
theorem walk_cons (location : List α) (s : Step α) (steps : List (Step α)) :
    walk location (s :: steps) = walk (move location s) steps := rfl

theorem walk_append (location : List α) (first second : List (Step α)) :
    walk location (first ++ second) = walk (walk location first) second := foldl_append

theorem walk_down (location names : List α) : walk location (names.map .down) = location ++ names := by
  induction names generalizing location with
  | nil => simp
  | cons name names ih => simp [move, ih]

theorem prefix_move {base location : List α} (below : base <+: location.dropLast) (s : Step α) :
    base <+: move location s := by
  cases s with
  | stay => exact below.trans (List.dropLast_prefix location)
  | up => exact below
  | down name => exact (below.trans (List.dropLast_prefix location)).trans (prefix_append location [name])

theorem mem_walk {location : List α} {steps : List (Step α)} {name : α}
    (member : name ∈ walk location steps) : name ∈ location ∨ .down name ∈ steps := by
  induction steps generalizing location with
  | nil => exact .inl member
  | cons s steps ih =>
    rcases ih member with here | later
    · cases s with
      | stay => exact .inl here
      | up => exact .inl (mem_of_mem_dropLast here)
      | down other =>
        rcases mem_append.mp here with old | new
        · exact .inl old
        · simp only [mem_singleton] at new
          exact .inr (by simp [new])
    · exact .inr (mem_cons_of_mem _ later)

/-- The effect of steps on a location that is not known: how many names they take away, and which
ones they add. -/
def shift (effect : Nat × List α) : Step α → Nat × List α
  | .stay => effect
  | .up => if effect.2 = [] then (effect.1 + 1, []) else (effect.1, effect.2.dropLast)
  | .down name => (effect.1, effect.2 ++ [name])

def offset (steps : List (Step α)) : Nat × List α := steps.foldl shift (0, [])

theorem move_apply (location : List α) (effect : Nat × List α) (s : Step α) :
    move (location.take (location.length - effect.1) ++ effect.2) s =
      location.take (location.length - (shift effect s).1) ++ (shift effect s).2 := by
  cases s with
  | stay => rfl
  | up =>
    by_cases none : effect.2 = []
    · simp only [move, shift, none, if_true, append_nil]
      rw [dropLast_eq_take, take_take, length_take]
      congr 1
      omega
    · simp only [move, shift, none, if_false]
      exact dropLast_append_of_ne_nil none
  | down name => simp [move, shift]

theorem walk_eq_offset (location : List α) (steps : List (Step α)) :
    walk location steps = location.take (location.length - (offset steps).1) ++ (offset steps).2 := by
  induction steps using reverseRecOn with
  | nil => simp [offset]
  | append_singleton steps s ih =>
    rw [walk_append, ih, walk_cons, walk_nil, move_apply]
    simp [offset]

theorem offset_names (steps : List (Step α)) : (offset steps).2 = walk [] steps := by
  simp [walk_eq_offset]

section Components

variable [BEq α] {separator : α}
variable {text part : List α}

/-- The components of a text that goes on: only the last one of its beginning grows. -/
theorem splitOn_append {first second : List α} {front more : List (List α)} {last next : List α}
    (before : first.splitOn separator = front ++ [last]) (after : second.splitOn separator = next :: more) :
    (first ++ second).splitOn separator = front ++ (last ++ next) :: more := by
  induction first generalizing front last with
  | nil =>
    obtain ⟨rfl, rfl⟩ : front = [] ∧ last = [] := by
      cases front <;> simp_all
    simpa using after
  | cons a first ih =>
    obtain ⟨earlier, final, parts⟩ : ∃ earlier final, first.splitOn separator = earlier ++ [final] :=
      ⟨_, _, (dropLast_append_getLast (splitOn_ne_nil separator first)).symm⟩
    rw [splitOn_cons_eq_if_modifyHead, parts] at before
    rw [cons_append, splitOn_cons_eq_if_modifyHead, ih parts]
    split at before
    case isTrue separating =>
      have same : ([] :: earlier) ++ [final] = front ++ [last] := before
      obtain ⟨rfl, ends⟩ := append_inj' same rfl
      cases ends
      rw [if_pos separating]
      rfl
    case isFalse inside =>
      rw [if_neg inside]
      cases earlier with
      | nil =>
        have same : [] ++ [a :: final] = front ++ [last] := before
        obtain ⟨rfl, ends⟩ := append_inj' same rfl
        cases ends
        rfl
      | cons e earlier =>
        have same : ((a :: e) :: earlier) ++ [final] = front ++ [last] := before
        obtain ⟨rfl, ends⟩ := append_inj' same rfl
        cases ends
        rfl

omit [BEq α] in
theorem infix_intercalate {parts : List (List α)} (between : List α) (member : part ∈ parts) :
    part <:+: between.intercalate parts := by
  obtain ⟨i, bound, rfl⟩ := getElem_of_mem member
  have placed := @getElem_eq_getElem_intersperse_two_mul _ parts between i bound
  exact placed ▸ infix_of_mem_flatten (getElem_mem _)

variable (member : part ∈ text.splitOn separator)
include member

theorem not_mem_of_mem_splitOn [LawfulBEq α] :
    separator ∉ part := by
  induction text generalizing part with
  | nil => simp_all
  | cons a text ih =>
    rw [splitOn_cons_eq_if_modifyHead] at member
    split at member
    case isTrue _ =>
      rcases mem_cons.mp member with rfl | later
      · simp
      · exact ih later
    case isFalse inside =>
      obtain ⟨next, more, parts⟩ := exists_cons_of_ne_nil (splitOn_ne_nil separator text)
      rw [parts, modifyHead_cons] at member
      rcases mem_cons.mp member with rfl | later
      · have absent := ih (parts ▸ mem_cons_self)
        simp only [beq_iff_eq] at inside
        simp [Ne.symm inside, absent]
      · exact ih (parts ▸ mem_cons_of_mem _ later)

theorem infix_of_mem_splitOn [LawfulBEq α] : part <:+: text := by
  have among := infix_intercalate [separator] member
  rwa [intercalate_splitOn] at among

omit member

end Components

section Posix

open BigEndian

variable {name path : Bytes} {front names : List Bytes}

def slash : UInt8 := 47

def dot : UInt8 := 46

def stepOf (name : Bytes) : Step Bytes :=
  if name = [] ∨ name = [dot] then .stay else if name = [dot, dot] then .up else .down name

def Plain (name : Bytes) : Prop := name ≠ [] ∧ name ≠ [dot] ∧ name ≠ [dot, dot]

instance (name : Bytes) : Decidable (Plain name) := inferInstanceAs (Decidable (_ ∧ _ ∧ _))

theorem stepOf_plain (plain : Plain name) : stepOf name = .down name := by
  obtain ⟨filled, single, double⟩ := plain
  simp [stepOf, filled, single, double]

theorem down_stepOf {component : Bytes} (down : stepOf component = .down name) :
    component = name ∧ Plain name := by
  unfold stepOf at down
  split_ifs at down with empty double
  cases down
  exact ⟨rfl, fun filled => empty (.inl filled), fun single => empty (.inr single), double⟩

def components (path : Bytes) : List Bytes := path.splitOn slash

theorem components_ne_nil (path : Bytes) : components path ≠ [] := splitOn_ne_nil slash path

theorem components_slash (path : Bytes) : components (slash :: path) = [] :: components path := by
  rw [components, splitOn_cons_eq_if_modifyHead, if_pos BEq.rfl]
  rfl

theorem components_join (path sub : Bytes) : components (path ++ slash :: sub) = components path ++ components sub :=
  splitOn_append_cons_self path sub

theorem components_single (clean : slash ∉ name) : components name = [name] :=
  splitOn_eq_singleton clean

theorem components_append {rest last next : Bytes} {more : List Bytes}
    (before : components path = front ++ [last]) (after : components rest = next :: more) :
    components (path ++ rest) = front ++ (last ++ next) :: more := splitOn_append before after

theorem components_absolute (absolute : path.head? = some slash) :
    ∃ front last, components path = [] :: (front ++ [last]) := by
  obtain ⟨rest, rfl⟩ : ∃ rest, path = slash :: rest := by
    cases path <;> simp_all
  refine ⟨(components rest).dropLast, (components rest).getLast (components_ne_nil rest), ?_⟩
  rw [dropLast_append_getLast, components_slash]

def locate (path : Bytes) : List Bytes := walk [] ((components path).map stepOf)

def render (names : List Bytes) : Bytes := slash :: [slash].intercalate names

/-- What the C library takes for a path: all bytes before the first NUL. -/
def cString (path : Bytes) : Bytes := path.takeWhile (fun byte => byte != 0)

theorem map_stepOf_plain (plain : ∀ name ∈ names, Plain name) :
    names.map stepOf = names.map .down := map_congr_left (fun name member => stepOf_plain (plain name member))

theorem mem_locate (member : name ∈ locate path) :
    name ∈ components path ∧ Plain name ∧ slash ∉ name := by
  rcases mem_walk member with start | down
  · simp at start
  · obtain ⟨component, listed, leads⟩ := mem_map.mp down
    obtain ⟨rfl, plain⟩ := down_stepOf leads
    exact ⟨listed, plain, not_mem_of_mem_splitOn listed⟩

theorem components_render (clean : ∀ name ∈ names, slash ∉ name) (filled : names ≠ []) :
    components (render names) = [] :: names := by
  rw [render, components_slash, components, splitOn_intercalate _ clean filled]

theorem intercalate_grown (front more : List (List α)) (last next separator : List α) :
    separator.intercalate (front ++ [last]) <+: separator.intercalate (front ++ (last ++ next) :: more) := by
  induction front with
  | nil =>
    cases more with
    | nil => simp
    | cons other more => simp [append_assoc]
  | cons head front ih =>
    rw [cons_append, cons_append, intercalate_cons_of_ne_nil (by simp),
      intercalate_cons_of_ne_nil (by simp)]
    exact (prefix_append_right_inj _).mpr ih

/-- A path from the root in which only the last component may be empty or made of dots. -/
def Regular (path : Bytes) : Prop :=
  ∃ front last, components path = [] :: (front ++ [last]) ∧ ∀ name ∈ front, Plain name

theorem locate_regular {last : Bytes} (parts : components path = [] :: (front ++ [last]))
    (plain : ∀ name ∈ front, Plain name) : locate path = move front (stepOf last) := by
  have root : stepOf [] = .stay := rfl
  have down := walk_down [] front
  rw [locate, parts, map_cons, root, walk_cons, map_append, map_stepOf_plain plain, walk_append]
  simp [move, down, walk_cons, walk_nil]

theorem Regular.of_prefix {whole : Bytes} (regular : Regular whole) (absolute : path.head? = some slash)
    (start : path <+: whole) : Regular path := by
  obtain ⟨front, last, parts⟩ := components_absolute absolute
  obtain ⟨rest, rfl⟩ := start
  obtain ⟨next, more, after⟩ := exists_cons_of_ne_nil (components_ne_nil rest)
  obtain ⟨names, final, whole, plain⟩ := regular
  have grown : components (path ++ rest) = ([] :: front) ++ (last ++ next) :: more := components_append parts after
  rw [grown, cons_append, cons.injEq] at whole
  have shorter : front <+: names := by
    have left : front <+: names ++ [final] := ⟨_, whole.2⟩
    have fits := congrArg length whole.2
    simp only [length_append, length_cons, length_nil] at fits
    exact prefix_of_prefix_length_le left (prefix_append _ _) (by omega)
  exact ⟨front, last, parts, fun name member => plain name (shorter.subset member)⟩

theorem regular_render (named : ∀ name ∈ names, Plain name ∧ slash ∉ name) :
    Regular (render names) := by
  by_cases empty : names = []
  · subst empty
    exact ⟨[], [], rfl, by simp⟩
  · refine ⟨names.dropLast, names.getLast empty, ?_, fun name member => (named name (mem_of_mem_dropLast member)).1⟩
    rw [components_render (fun name member => (named name member).2) empty, dropLast_append_getLast]

theorem components_trailing (clean : ∀ name ∈ names, slash ∉ name) (filled : names ≠ []) :
    components (render names ++ [slash]) = [] :: (names ++ [[]]) := by
  rw [components_join, components_render clean filled]
  rfl

theorem locate_render (named : ∀ name ∈ names, Plain name ∧ slash ∉ name) :
    locate (render names) = names := by
  by_cases empty : names = []
  · subst empty
    rfl
  · have root : stepOf [] = .stay := rfl
    rw [locate, components_render (fun name member => (named name member).2) empty, map_cons, root, walk_cons,
      map_stepOf_plain (fun name member => (named name member).1), walk_down]
    rfl

theorem render_of_components (parts : components path = [] :: names) (filled : names ≠ []) : path = render names := by
  have all : [slash].intercalate (components path) = path := intercalate_splitOn slash
  rw [← all, parts, intercalate_cons_of_ne_nil filled]
  rfl

theorem render_prefix_grown (front more : List Bytes) (last next : Bytes) :
    render (front ++ [last]) <+: render (front ++ (last ++ next) :: more) :=
  (prefix_cons_inj slash).mpr (intercalate_grown front more last next [slash])

theorem render_start {part : List Bytes} (start : part <+: names) : render part <+: render names := by
  obtain ⟨rest, rfl⟩ := start
  rcases eq_nil_or_concat' part with rfl | ⟨front, last, rfl⟩
  · exact ⟨[slash].intercalate rest, rfl⟩
  · cases rest with
    | nil => simp
    | cons next more =>
      have grown := render_prefix_grown front (next :: more) last []
      rw [append_nil] at grown
      simpa using grown

theorem intercalate_concat {front : List (List α)} (filled : front ≠ []) (last separator : List α) :
    separator.intercalate (front ++ [last]) = separator.intercalate front ++ separator ++ last := by
  induction front with
  | nil => exact absurd rfl filled
  | cons head front ih =>
    cases front with
    | nil => simp [append_assoc]
    | cons next front =>
      rw [cons_append, intercalate_cons_of_ne_nil (by simp), ih (by simp)]
      simp [append_assoc]

theorem render_concat (filled : front ≠ []) (last : Bytes) :
    render (front ++ [last]) = render front ++ slash :: last := by
  simp [render, intercalate_concat filled]

theorem render_grown (front : List Bytes) (last rest : Bytes) :
    render (front ++ [last ++ rest]) = render (front ++ [last]) ++ rest := by
  by_cases empty : front = []
  · simp [empty, render]
  · rw [render_concat empty, render_concat empty]
    simp

theorem locate_join (path sub : Bytes) :
    locate (path ++ slash :: sub) = walk (locate path) ((components sub).map stepOf) := by
  rw [locate, components_join, map_append, walk_append]
  rfl

/-- The location of a path that may begin at the working directory. -/
def locateAt (directory : List Bytes) (path : Bytes) : List Bytes :=
  walk (if path.head? = some slash then [] else directory) ((components path).map stepOf)

theorem locateAt_join {directory : List Bytes} (filled : path ≠ []) (sub : Bytes) :
    locateAt directory (path ++ slash :: sub) = walk (locateAt directory path) ((components sub).map stepOf) := by
  rw [locateAt, locateAt, components_join, map_append, walk_append, head?_append_of_ne_nil _ filled]

theorem walk_filter (location : List Bytes) (names : List Bytes) :
    walk location ((names.filter (fun name => !name.isEmpty)).map stepOf) = walk location (names.map stepOf) := by
  induction names generalizing location with
  | nil => rfl
  | cons name names ih =>
    by_cases empty : name = []
    · subst empty
      rw [filter_cons_of_neg (by simp), ih]
      rfl
    · rw [filter_cons_of_pos (by simp [empty]), map_cons, map_cons, walk_cons, walk_cons, ih]

theorem cString_append (clean : (0 : UInt8) ∉ path) (rest : Bytes) :
    cString (path ++ rest) = path ++ cString rest := by
  refine takeWhile_append_of_pos (fun byte member => ?_)
  have other : byte ≠ 0 := fun same => clean (same ▸ member)
  simpa using other

theorem cString_of_clean (clean : (0 : UInt8) ∉ path) : cString path = path := by
  simpa [cString] using cString_append clean []

end Posix

end Path
