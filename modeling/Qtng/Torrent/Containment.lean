import Qtng.Torrent.Arithmetic
import Qtng.Torrent.Storage

namespace Qtng.Torrent

open BigEndian Path List

section Safe

variable {directory : List Bytes} {downloadDir : Bytes}
variable {torrent : TorrentMeta} {host : Host}

theorem openStorage_files {access : Access} (listed : access ∈ openStorage host torrent downloadDir) :
    (∃ path, access = .root path) ∨ access ∈ openFiles host (rootOf downloadDir) torrent.files := by
  rcases mem_append.mp listed with root | files
  · obtain ⟨path, -, same⟩ := mem_map.mp root
    exact .inl ⟨path, same.symm⟩
  · refine .inr ?_
    split_ifs at files <;> simp_all

theorem prefix_dropLast_append {α : Type*} {front parts others : List α}
    (start : front <+: (parts ++ others).dropLast) :
    front <+: parts ∨ ∃ more, more ≠ [] ∧ more <+: others.dropLast ∧ front = parts ++ more := by
  by_cases empty : others = []
  · subst empty
    rw [append_nil] at start
    exact .inl (start.trans (List.dropLast_prefix parts))
  · rw [dropLast_append_of_ne_nil empty] at start
    rcases prefix_or_prefix_of_prefix start (prefix_append parts others.dropLast) with shorter | ⟨more, rfl⟩
    · exact .inl shorter
    · by_cases none : more = []
      · subst none
        exact .inl (by simp)
      · exact .inr ⟨more, none, (prefix_append_right_inj parts).mp start, rfl⟩

theorem made_of_safe {files : List TorrentFileInfo} {present : List Bytes → Prop} {path : Bytes}
    (tidy : Tidy downloadDir) (rooted : Rooted directory downloadDir present) (safe : Safe files)
    (made : .made path ∈ openFiles host (rootOf downloadDir) files) :
    present (location directory path) ∨ Below (location directory (rootOf downloadDir)) (location directory path) := by
  obtain ⟨filled, file, member, front, start, same⟩ := made_of_openFiles made
  rw [head?_append_of_ne_nil _ (rootOf_ne_nil downloadDir)] at same
  subst same
  rcases prefix_dropLast_append start with above | ⟨more, nonempty, inner, rfl⟩
  · rw [location_front tidy.1 above filled]
    exact .inl (rooted.2 front above)
  · rw [location_beyond tidy.1 (rootOf_ne_nil downloadDir) nonempty, tidy.2 directory, walk_reach]
    rcases safe.directories file member more inner with down | up
    · rw [down, Nat.sub_zero, take_length]
      by_cases none : (reach ([slash].intercalate more)).2 = []
      · rw [none, append_nil]
        exact .inl (rooted.1 _ (prefix_refl _))
      · exact .inr ⟨prefix_append _ _, by simpa using none⟩
    · rw [up, append_nil]
      exact .inl (rooted.1 _ (List.take_prefix _ _))

theorem contained_of_safe (tidy : Tidy downloadDir) (safe : Safe torrent.files) :
    Contained torrent downloadDir := by
  intro directory host present rooted
  refine ⟨fun path opened => ?_, fun path made => ?_, ?_⟩
  · obtain ⟨root, other⟩ | opened := openStorage_files opened
    · cases other
    · obtain ⟨file, member, rfl⟩ := opened_of_openFiles opened
      obtain ⟨inside, filled⟩ := safe.inside file member
      rw [location_file_of_inside tidy.1 inside]
      exact ⟨prefix_append _ _, by simpa using filled⟩
  · obtain ⟨root, other⟩ | made := openStorage_files made
    · cases other
    · exact made_of_safe tidy rooted safe made
  · refine safe.distinct.imp_of_mem (fun {f g} first second different => ?_)
    rw [location_file_of_inside tidy.1 (safe.inside f first).1, location_file_of_inside tidy.1 (safe.inside g second).1]
    exact fun same => different (append_cancel_left same)

end Safe

section Fresh

def longName (n : Nat) : Bytes := List.replicate (n + 3) 97

theorem exists_longer (texts : List Bytes) : ∃ n, ∀ text ∈ texts, text.length < n := by
  induction texts with
  | nil => exact ⟨0, by simp⟩
  | cons text texts ih =>
    obtain ⟨n, longer⟩ := ih
    refine ⟨n + text.length + 1, fun other member => ?_⟩
    rcases mem_cons.mp member with rfl | later
    · omega
    · have := longer other later
      omega

theorem length_longName (n : Nat) : (longName n).length = n + 3 := by simp [longName]

theorem isPart_longName (n : Nat) : IsPart (longName n) :=
  ⟨by simp [longName], fun member => absurd (eq_of_mem_replicate member) (by decide)⟩

theorem zero_not_mem_longName (n : Nat) : (0 : UInt8) ∉ longName n := fun member =>
  absurd (eq_of_mem_replicate member) (by decide)

theorem normalPart_longName (n : Nat) : normalPart (longName n) = longName n := by
  have solid : ∀ m, (replicate (m + 1) (97 : UInt8)).dropWhile isSpace = replicate (m + 1) 97 := fun m => by
    rw [replicate_succ, dropWhile_cons_of_neg (by decide)]
  have same : trimmed (longName n) = longName n := by
    rw [trimmed, longName, solid, reverse_replicate, solid, reverse_replicate]
  have long := length_longName n
  rw [normalPart, same, if_neg, if_neg]
  · intro short
    rw [short] at long
    simp only [length_cons, length_nil] at long
    omega
  · intro short
    rw [short] at long
    simp only [length_cons, length_nil] at long
    omega

theorem stepOf_longName (n : Nat) : stepOf (longName n) = .down (longName n) := by
  have long := length_longName n
  refine stepOf_plain ⟨(isPart_longName n).1, fun short => ?_, fun short => ?_⟩
  · rw [short] at long
    simp only [length_cons, length_nil] at long
    omega
  · rw [short] at long
    simp only [length_cons, length_nil] at long
    omega

theorem components_longName (n : Nat) : components (longName n) = [longName n] :=
  components_single (isPart_longName n).2

theorem posixParts_longName (n : Nat) : posixParts (longName n) = [longName n] := by
  have filled : (longName n).isEmpty = false := by simpa using (isPart_longName n).1
  simp [posixParts, components_longName, filled, normalPart_longName]

theorem length_cString_le (path : Bytes) : (Path.cString path).length ≤ path.length :=
  (List.takeWhile_prefix _).length_le

theorem length_le_of_mem_reach {path name : Bytes} (member : name ∈ (reach path).2) : name.length ≤ path.length := by
  rw [reach, offset_names] at member
  rcases mem_walk member with none | down
  · simp at none
  · obtain ⟨component, listed, leads⟩ := mem_map.mp down
    obtain ⟨rfl, -⟩ := down_stepOf leads
    exact (infix_of_mem_splitOn listed).length_le.trans (length_cString_le path)

theorem length_normalPart_le (part : Bytes) : (normalPart part).length ≤ part.length + 2 := by
  unfold normalPart
  split_ifs <;> simp

theorem length_le_of_mem_posixParts {path part : Bytes} (member : part ∈ posixParts path) :
    part.length ≤ path.length + 2 := by
  obtain ⟨component, listed, rfl⟩ := mem_map.mp member
  have short : component.length ≤ path.length := (infix_of_mem_splitOn (mem_of_mem_filter listed)).length_le
  have bound := length_normalPart_le component
  omega

end Fresh

section Logged

variable {host : Host} {root : Bytes}
variable {access : Access} {files : List TorrentFileInfo} {parts : List Bytes} {absolute : Bool}

theorem mem_openFiles {file : TorrentFileInfo} (opens : ∀ path, host.opens path = true) (member : file ∈ files)
    (listed : access ∈ (if host.found (Path.cString (parentDir (root ++ slash :: file.path))) then []
      else (mkdirParents host (parentDir (root ++ slash :: file.path))).1).map Access.made ++
        [.opened (root ++ slash :: file.path)]) : access ∈ openFiles host root files := by
  induction files with
  | nil => cases member
  | cons first files ih =>
    rw [openFiles]
    simp only [opens, if_true]
    rcases mem_cons.mp member with rfl | later
    · rcases mem_append.mp listed with made | opened
      · exact mem_append_left _ made
      · exact mem_append_right _ (by simpa using .inl (mem_singleton.mp opened))
    · exact mem_append_right _ (mem_cons_of_mem _ (ih later))

theorem opened_mem_openFiles {file : TorrentFileInfo} (opens : ∀ path, host.opens path = true) (member : file ∈ files) :
    .opened (root ++ slash :: file.path) ∈ openFiles host root files :=
  mem_openFiles opens member (mem_append_right _ (by simp))

theorem length_le_pathText (clean : ∀ part ∈ parts, IsPart part) :
    parts.length ≤ (pathText absolute parts).length := by
  induction parts using reverseRecOn with
  | nil => simp
  | append_singleton front part ih =>
    have before := ih (fun p member => clean p (mem_append_left _ member))
    by_cases empty : front = []
    · subst empty
      have filled : pathText absolute [part] ≠ [] := pathText_ne_nil clean (by simp)
      exact length_pos_iff.mpr filled
    · rw [pathText_concat absolute empty]
      simp only [length_append, length_cons, length_nil]
      omega

theorem mem_createDirectories {before : List Bytes} {fuel : Nat} (clean : ∀ part ∈ before ++ parts, IsPart part)
    (there : host.isDirectory (Path.cString (pathText absolute before)) = true)
    (absent : ∀ more, more ≠ [] → more <+: parts →
      host.isDirectory (Path.cString (pathText absolute (before ++ more))) = false)
    (makes : ∀ path, host.mkdir path = true) (filled : parts ≠ []) (enough : parts.length ≤ fuel) :
    (createDirectories host fuel (pathText absolute (before ++ parts))).2 = true ∧
      ∀ front, front ≠ [] → front <+: parts →
        pathText absolute (before ++ front) ∈
          (createDirectories host fuel (pathText absolute (before ++ parts))).1 := by
  induction parts using reverseRecOn generalizing fuel with
  | nil => exact absurd rfl filled
  | append_singleton upper part ih =>
    simp only [length_append, length_cons, length_nil] at enough
    obtain ⟨fuel, rfl⟩ : ∃ n, fuel = n + 1 := ⟨fuel - 1, by omega⟩
    have text : pathText absolute (before ++ (upper ++ [part])) ≠ [] := pathText_ne_nil clean (by simp)
    have missing := absent (upper ++ [part]) (by simp) (prefix_refl _)
    have parent : parentPath (pathText absolute (before ++ (upper ++ [part]))) =
        pathText absolute (before ++ upper) := by
      rw [← append_assoc]
      exact parentPath_pathText absolute (by simpa using clean)
    rw [createDirectories, if_neg text, parent]
    simp only [missing, Bool.false_eq_true, if_false, makes]
    by_cases empty : upper = []
    · subst empty
      simp only [append_nil, there, Bool.not_true, Bool.false_eq_true, and_false, if_false, true_and]
      intro front nonempty start
      rcases prefix_concat_iff.mp start with same | shorter
      · simp [same]
      · exact absurd (prefix_nil.mp shorter) nonempty
    · have longer : pathText absolute (before ++ (upper ++ [part])) =
          pathText absolute (before ++ upper) ++ slash :: part := by
        rw [← append_assoc, pathText_concat absolute (by simp [empty])]
      have further : pathText absolute (before ++ upper) ≠ pathText absolute (before ++ (upper ++ [part])) := by
        intro same
        rw [longer] at same
        simpa using congrArg length same
      have upperText : pathText absolute (before ++ upper) ≠ [] :=
        pathText_ne_nil (fun p member => clean p (by simp at member ⊢; tauto)) (by simp [empty])
      have upperMissing := absent upper empty (prefix_append upper [part])
      have room : upper.length ≤ fuel := by omega
      obtain ⟨done, made⟩ := ih (fun p member => clean p (by simp at member ⊢; tauto))
        (fun more nonempty start => absent more nonempty (start.trans (prefix_append upper [part]))) empty room
      simp only [upperText, further, upperMissing, done, ne_eq, not_false_eq_true, Bool.not_false, and_self, if_true,
        true_and]
      intro front nonempty start
      rcases prefix_concat_iff.mp start with same | shorter
      · simp [same]
      · exact mem_append_left _ (made front nonempty shorter)

theorem made_mem_openFiles {file : TorrentFileInfo} {front : List Bytes}
    (opens : ∀ path, host.opens path = true) (makes : ∀ path, host.mkdir path = true)
    (same : ∀ path, host.found path = host.isDirectory path) (given : root ≠ []) (member : file ∈ files)
    (there : host.isDirectory (Path.cString (pathText (root.head? = some slash) (posixParts root))) = true)
    (absent : ∀ more, more ≠ [] → more <+: (posixParts file.path).dropLast →
      host.isDirectory (Path.cString (pathText (root.head? = some slash) (posixParts root ++ more))) = false)
    (filled : front ≠ []) (start : front <+: (posixParts file.path).dropLast) :
    .made (pathText (root.head? = some slash) (posixParts root ++ front)) ∈ openFiles host root files := by
  have inner : (posixParts file.path).dropLast ≠ [] := fun none => filled (prefix_nil.mp (none ▸ start))
  have some : posixParts file.path ≠ [] := fun none => inner (by simp [none])
  have parent : parentDir (root ++ slash :: file.path) =
      pathText (root.head? = .some slash) (posixParts root ++ (posixParts file.path).dropLast) := by
    rw [parentDir, posixParts_join, dropLast_append_of_ne_nil some, head?_append_of_ne_nil _ given]
  have clean : ∀ part ∈ posixParts root ++ (posixParts file.path).dropLast, IsPart part := by
    intro part listed
    rcases mem_append.mp listed with early | late
    · exact isPart_of_mem_posixParts early
    · exact isPart_of_mem_posixParts (mem_of_mem_dropLast late)
  have missing := absent _ inner (prefix_refl _)
  refine mem_openFiles opens member (mem_append_left _ (mem_map_of_mem ?_))
  rw [parent]
  simp only [same, missing, mkdirParents, Bool.false_eq_true, if_false]
  have enough : (posixParts file.path).dropLast.length ≤
      (pathText (root.head? = .some slash) (posixParts root ++ (posixParts file.path).dropLast)).length + 1 := by
    have bound : _ ≤ (pathText (root.head? = .some slash) _).length := length_le_pathText clean
    rw [length_append] at bound
    omega
  exact (mem_createDirectories clean there absent makes inner enough).2 front filled start

theorem mem_openStorage {torrent : TorrentMeta} {downloadDir : Bytes}
    (found : host.found (Path.cString (rootOf downloadDir)) = true)
    (listed : access ∈ openFiles host (rootOf downloadDir) torrent.files) :
    access ∈ openStorage host torrent downloadDir := by
  simpa [openStorage, found] using listed

end Logged

section Exact

theorem eq_of_prefix_single {α : Type*} {front : List α} {a : α} (start : front <+: [a]) :
    front = [] ∨ front = [a] := by
  rcases prefix_cons_iff.mp start with empty | ⟨rest, rfl, none⟩
  · exact .inl empty
  · exact .inr (by rw [prefix_nil.mp none])

/-- The host of a download directory below the root where nothing else is. -/
def bareHost (downloadDir : Bytes) : Host :=
  { isDirectory := fun path => path = [slash] ∨ path = downloadDir
    found := fun path => path = [slash] ∨ path = downloadDir
    mkdir := fun _ => true
    opens := fun _ => true }

variable {torrent : TorrentMeta} {n : Nat}

theorem rootOf_long (n : Nat) : rootOf (slash :: longName n) = slash :: longName n := rfl

theorem posixParts_long (n : Nat) : posixParts (slash :: longName n) = [longName n] := by
  have join := posixParts_join [] (longName n)
  rw [posixParts_longName] at join
  exact join

theorem zero_not_mem_long (n : Nat) : (0 : UInt8) ∉ slash :: longName n := by
  simp [slash, zero_not_mem_longName]

theorem location_long (directory : List Bytes) (n : Nat) : location directory (slash :: longName n) = [longName n] := by
  rw [location, cString_of_clean (zero_not_mem_long n), locateAt, components_slash, components_longName]
  have stay : stepOf [] = .stay := rfl
  simp [stepOf_longName, stay, move]

theorem tidy_long (n : Nat) : Tidy (slash :: longName n) := by
  refine ⟨zero_not_mem_long n, fun directory => ?_⟩
  rw [rootOf_long, location_long, posixParts_long]
  simp [startOf, stepOf_longName, move]

def bare (n : Nat) (names : List Bytes) : Prop := names = [] ∨ names = [longName n]

theorem rooted_long (directory : List Bytes) (n : Nat) : Rooted directory (slash :: longName n) (bare n) := by
  refine ⟨fun names start => ?_, fun front start => ?_⟩
  · rw [rootOf_long, location_long] at start
    exact eq_of_prefix_single start
  · rw [rootOf_long, posixParts_long] at start
    rcases eq_of_prefix_single start with rfl | rfl
    · exact .inl (by simp [startOf, rootOf_long])
    · exact .inr (by simp [startOf, rootOf_long, stepOf_longName, move])

theorem openStorage_long {access : Access}
    (listed : access ∈ openFiles (bareHost (slash :: longName n)) (slash :: longName n) torrent.files) :
    access ∈ openStorage (bareHost (slash :: longName n)) torrent (slash :: longName n) :=
  mem_openStorage (by simp [rootOf_long, cString_of_clean (zero_not_mem_long n), bareHost]) listed

theorem location_outside {path : Bytes} (long : path.length < n) (climbs : (reach path).1 ≠ 0) :
    walk [longName n] ((components (Path.cString path)).map stepOf) = (reach path).2 ∧ longName n ∉ (reach path).2 := by
  refine ⟨?_, fun member => ?_⟩
  · rw [walk_reach]
    have none : [longName n].length - (reach path).1 = 0 := by
      simp only [length_singleton]
      omega
    rw [none, take_zero, nil_append]
  · have short := length_le_of_mem_reach member
    rw [length_longName] at short
    omega

theorem not_below_outside {names : List Bytes} (absent : longName n ∉ names) : ¬ Below [longName n] names :=
  fun below => absent (below.1.subset (by simp))

theorem inside_of_contained (contained : Contained torrent (slash :: longName n)) {file : TorrentFileInfo}
    (member : file ∈ torrent.files) (long : file.path.length < n) :
    (reach file.path).1 = 0 ∧ (reach file.path).2 ≠ [] := by
  have opened : .opened (slash :: longName n ++ slash :: file.path) ∈
      openStorage (bareHost (slash :: longName n)) torrent (slash :: longName n) :=
    openStorage_long (opened_mem_openFiles (fun _ => rfl) member)
  have below := (contained [] (bareHost (slash :: longName n)) (bare n) (rooted_long [] n)).1 _ opened
  have place := @location_file [] (slash :: longName n) (zero_not_mem_long n) file.path
  rw [rootOf_long, location_long] at below place
  rw [place] at below
  by_cases climbs : (reach file.path).1 = 0
  · refine ⟨climbs, fun none => below.2 ?_⟩
    rw [walk_reach, climbs, none]
    simp
  · obtain ⟨outside, absent⟩ := location_outside long climbs
    rw [outside] at below
    exact absurd below (not_below_outside absent)

theorem directories_of_contained (contained : Contained torrent (slash :: longName n)) {file : TorrentFileInfo}
    (member : file ∈ torrent.files) {front : List Bytes} (start : front <+: (posixParts file.path).dropLast)
    (long : ([slash].intercalate front).length < n) :
    (reach ([slash].intercalate front)).1 = 0 ∨ (reach ([slash].intercalate front)).2 = [] := by
  by_cases empty : front = []
  · subst empty
    exact .inr rfl
  refine Classical.or_iff_not_imp_left.mpr (fun climbs => ?_)
  have text : ∀ more, more ≠ [] → pathText true ([longName n] ++ more) =
      slash :: longName n ++ slash :: [slash].intercalate more := by
    intro more filled
    rw [pathText_append true filled (.inl rfl), if_neg (by simp)]
    simp [pathText, render]
  have absent : ∀ more, more ≠ [] → more <+: (posixParts file.path).dropLast →
      (bareHost (slash :: longName n)).isDirectory
      (Path.cString (pathText true ([longName n] ++ more))) = false := by
    intro more filled _
    rw [text more filled, cString_append (zero_not_mem_long n)]
    have cut : Path.cString (slash :: [slash].intercalate more) =
        slash :: Path.cString ([slash].intercalate more) := rfl
    simp [bareHost, cut, (isPart_longName n).1]
  have made : .made (pathText true ([longName n] ++ front)) ∈
      openStorage (bareHost (slash :: longName n)) torrent (slash :: longName n) := by
    refine openStorage_long ?_
    have listed := @made_mem_openFiles (bareHost (slash :: longName n)) (slash :: longName n) torrent.files file front
      (fun _ => rfl) (fun _ => rfl) (fun _ => rfl) (by simp) member
    simp only [posixParts_long, head?_cons, decide_true] at listed
    refine listed ?_ absent empty start
    have whole : pathText true [longName n] = slash :: longName n := by simp [pathText, render]
    rw [whole, cString_of_clean (zero_not_mem_long n)]
    simp [bareHost]
  have result := (contained [] (bareHost (slash :: longName n)) (bare n) (rooted_long [] n)).2.1 _ made
  have place := @location_beyond [] (slash :: longName n) (zero_not_mem_long n) (by simp) front empty
  simp only [posixParts_long, head?_cons, decide_true] at place
  have base := (tidy_long n).2 []
  rw [rootOf_long, location_long, posixParts_long] at base
  obtain ⟨outside, absent⟩ := location_outside long climbs
  rw [place, base, outside, rootOf_long, location_long] at result
  rcases result with (none | whole) | below
  · exact none
  · exact absurd (by simp [whole]) absent
  · exact absurd below (not_below_outside absent)

theorem safe_of_contained (contained : ∀ downloadDir, Tidy downloadDir → Contained torrent downloadDir) :
    Safe torrent.files := by
  obtain ⟨n, longer⟩ := exists_longer (torrent.files.flatMap (fun file =>
    file.path :: (posixParts file.path).dropLast.inits.map (fun front => [slash].intercalate front)))
  have here := contained (slash :: longName n) (tidy_long n)
  have inside : ∀ f ∈ torrent.files, (reach f.path).1 = 0 ∧ (reach f.path).2 ≠ [] := fun f member =>
    inside_of_contained here member (longer _ (mem_flatMap.mpr ⟨f, member, by simp⟩))
  refine ⟨inside, fun f member front start => ?_, ?_⟩
  · refine directories_of_contained here member start (longer _ (mem_flatMap.mpr ⟨f, member, ?_⟩))
    exact mem_cons_of_mem _ (mem_map.mpr ⟨front, (mem_inits _ _).mpr start, rfl⟩)
  · have distinct := (here [] (bareHost (slash :: longName n)) (bare n) (rooted_long [] n)).2.2
    refine distinct.imp_of_mem (fun {f g} first second different same => different ?_)
    have clean : (0 : UInt8) ∉ rootOf (slash :: longName n) := zero_not_mem_long n
    rw [location_file_of_inside clean (inside f first).1, location_file_of_inside clean (inside g second).1, same]

end Exact

section Directory

variable {downloadDir : Bytes}

theorem normalPart_cases (part : Bytes) :
    normalPart part = part ∨ Plain part ∧ (normalPart part = [dot] ∨ normalPart part = [dot, dot]) := by
  by_cases plain : Plain part
  · unfold normalPart
    split_ifs
    · exact .inr ⟨plain, .inl rfl⟩
    · exact .inr ⟨plain, .inr rfl⟩
    · exact .inl rfl
  · refine .inl ?_
    by_cases empty : part = []
    · subst empty
      decide
    by_cases single : part = [dot]
    · subst single
      decide
    by_cases double : part = [dot, dot]
    · subst double
      decide
    exact absurd ⟨empty, single, double⟩ plain

/-- PosixPath never gets deeper than the C library. -/
theorem length_move_normalPart {location other : List Bytes} (shorter : location.length ≤ other.length) (part : Bytes) :
    (move location (stepOf (normalPart part))).length ≤ (move other (stepOf part)).length := by
  rcases normalPart_cases part with same | ⟨plain, dots⟩
  · rw [same]
    cases stepOf part with
    | stay => exact shorter
    | up =>
      simp only [move, length_dropLast]
      omega
    | down name => simpa [move] using shorter
  · rw [stepOf_plain plain]
    rcases dots with single | double
    · have stay : stepOf [dot] = .stay := rfl
      simp only [single, stay, move, length_append, length_singleton]
      omega
    · have up : stepOf [dot, dot] = .up := rfl
      simp only [double, up, move, length_dropLast, length_append, length_singleton]
      omega

theorem length_walk_normalPart {location other : List Bytes} (shorter : location.length ≤ other.length)
    (parts : List Bytes) :
    (walk location ((parts.map normalPart).map stepOf)).length ≤ (walk other (parts.map stepOf)).length := by
  induction parts generalizing location other with
  | nil => exact shorter
  | cons part parts ih => exact ih (length_move_normalPart shorter part)

theorem length_walk_posixParts (start : List Bytes) (path : Bytes) :
    (walk start ((posixParts path).map stepOf)).length ≤ (walk start ((components path).map stepOf)).length := by
  rw [posixParts, ← walk_filter start (components path)]
  exact length_walk_normalPart le_rfl _

def nested (n : Nat) : TorrentMeta := ⟨[], 1, [], [⟨longName n ++ slash :: [120], 0⟩], 0, [], []⟩

theorem posixParts_nested (n : Nat) : posixParts (longName n ++ slash :: [120]) = [longName n, [120]] := by
  have last : posixParts [120] = [[120]] := by decide
  rw [posixParts_join, posixParts_longName, last]
  rfl

theorem reach_nested (n : Nat) : reach (longName n ++ slash :: [120]) = (0, [longName n, [120]]) := by
  have rest : Path.cString (slash :: [120]) = slash :: [120] := by decide
  have last : components [120] = [[120]] := by decide
  have down : stepOf [120] = .down [120] := by decide
  rw [reach, cString_append (zero_not_mem_longName n), rest, components_join, components_longName, last]
  simp [offset, stepOf_longName, down, shift]

theorem reach_longName (n : Nat) : reach (longName n) = (0, [longName n]) := by
  rw [reach, cString_of_clean (zero_not_mem_longName n), components_longName]
  simp [offset, stepOf_longName, shift]

theorem safe_nested (n : Nat) : Safe (nested n).files := by
  refine ⟨fun f member => ?_, fun f member front start => ?_, pairwise_singleton _ _⟩
  · obtain rfl := mem_singleton.mp member
    simp [reach_nested]
  · obtain rfl := mem_singleton.mp member
    rw [posixParts_nested] at start
    rcases eq_of_prefix_single start with rfl | rfl
    · exact .inr rfl
    · refine .inl ?_
      rw [intercalate_singleton, reach_longName]

theorem cString_append_of_mem {path : Bytes} (cut : (0 : UInt8) ∈ path) (rest : Bytes) :
    Path.cString (path ++ rest) = Path.cString path := by
  induction path with
  | nil => simp at cut
  | cons c path ih =>
    by_cases zero : c = 0
    · simp [Path.cString, zero]
    · have later := ih ((mem_cons.mp cut).resolve_left (Ne.symm zero))
      simpa [Path.cString, zero] using later

/-- A host where everything but one directory is there. -/
def hostWithout (missing : Bytes) : Host :=
  { isDirectory := fun path => path ≠ missing
    found := fun path => path ≠ missing
    mkdir := fun _ => true
    opens := fun _ => true }

theorem clean_of_contained (contained : Contained (nested 0) downloadDir) : (0 : UInt8) ∉ rootOf downloadDir := by
  intro cut
  have opened : .opened (rootOf downloadDir ++ slash :: (longName 0 ++ slash :: [120])) ∈
      openStorage (hostWithout [0]) (nested 0) downloadDir := by
    refine mem_openStorage ?_ (opened_mem_openFiles (fun _ => rfl) (mem_singleton_self _))
    have plain : Path.cString (rootOf downloadDir) ≠ [0] := by
      intro same
      have member : (0 : UInt8) ∈ Path.cString (rootOf downloadDir) := by simp [same]
      simpa using mem_takeWhile_imp member
    simp [hostWithout, plain]
  have everywhere : Rooted [] downloadDir (fun _ => True) := ⟨fun _ _ => trivial, fun _ _ => trivial⟩
  have below := (contained [] (hostWithout [0]) (fun _ => True) everywhere).1 _ opened
  refine below.2 ?_
  rw [location, cString_append_of_mem cut]
  rfl

theorem longName_not_mem_walk {start parts : List Bytes} {n : Nat} (above : ∀ name ∈ start, name.length < n + 3)
    (short : ∀ part ∈ parts, part.length < n + 3) : longName n ∉ walk start (parts.map stepOf) := by
  intro member
  have long := length_longName n
  rcases mem_walk member with early | down
  · have := above _ early
    omega
  · obtain ⟨part, listed, leads⟩ := mem_map.mp down
    obtain ⟨rfl, -⟩ := down_stepOf leads
    have := short _ listed
    omega

theorem pathText_root_ne_nil {root : Bytes} (given : root ≠ []) :
    pathText (root.head? = some slash) (posixParts root) ≠ [] := by
  by_cases none : posixParts root = []
  · simp [none, absolute_of_posixParts given none, pathText, render]
  · exact pathText_ne_nil (fun part => isPart_of_mem_posixParts) none

/-- The directory of the file is made where PosixPath takes the download directory to be. -/
theorem below_of_nested {directory : List Bytes} {n : Nat} (clean : (0 : UInt8) ∉ rootOf downloadDir)
    (contained : Contained (nested n) downloadDir) (short : (rootOf downloadDir).length < n)
    (above : ∀ name ∈ directory, name.length < n) :
    Below (location directory (rootOf downloadDir))
      (walk (startOf directory (rootOf downloadDir)) ((posixParts (rootOf downloadDir)).map stepOf) ++
        [longName n]) := by
  generalize given : rootOf downloadDir = root at *
  have filled : root ≠ [] := given ▸ rootOf_ne_nil downloadDir
  have start : ∀ name ∈ startOf directory root, name.length < n + 3 := by
    intro name member
    unfold startOf at member
    split_ifs at member
    · simp at member
    · exact (above name member).trans (by omega)
  have base : longName n ∉ location directory root := by
    rw [location, cString_of_clean clean]
    exact longName_not_mem_walk start (fun part member => by have := (infix_of_mem_splitOn member).length_le; omega)
  have fronts : ∀ front, front <+: posixParts root → longName n ∉ walk (startOf directory root) (front.map stepOf) := by
    intro front begins
    refine longName_not_mem_walk start (fun part member => ?_)
    have := length_le_of_mem_posixParts (begins.subset member)
    omega
  have place : location directory (pathText (root.head? = some slash) (posixParts root ++ [longName n])) =
      walk (startOf directory root) ((posixParts root).map stepOf) ++ [longName n] := by
    rw [location_beyond clean filled (by simp), intercalate_singleton, walk_reach, reach_longName]
    simp
  have plain : (0 : UInt8) ∉ pathText (root.head? = some slash) (posixParts root ++ [longName n]) := by
    refine zero_not_mem_pathText (fun part member => ?_)
    rcases mem_append.mp member with early | last
    · exact zero_not_mem_posixParts clean early
    · exact mem_singleton.mp last ▸ zero_not_mem_longName n
  have before : location directory (pathText (root.head? = some slash) (posixParts root)) = _ :=
    location_front clean (prefix_refl _) (pathText_root_ne_nil filled)
  generalize missing : pathText (root.head? = some slash) (posixParts root ++ [longName n]) = parent at place plain
  have made : .made parent ∈ openStorage (hostWithout parent) (nested n) downloadDir := by
    have other : root ≠ parent := by
      rintro rfl
      exact base (place ▸ by simp)
    refine mem_openStorage (by simp [given, cString_of_clean clean, hostWithout, other]) ?_
    have listed := @made_mem_openFiles (hostWithout parent) root (nested n).files _ [longName n]
      (fun _ => rfl) (fun _ => rfl) (fun _ => rfl) filled (mem_singleton_self _)
    rw [posixParts_nested, missing] at listed
    rw [given]
    refine listed ?_ ?_ (by simp) (prefix_refl _)
    · have upper : pathText (root.head? = some slash) (posixParts root) ≠ parent := by
        intro same
        rw [same, place] at before
        simpa using congrArg length before
      have text : (0 : UInt8) ∉ pathText (root.head? = some slash) (posixParts root) :=
        zero_not_mem_pathText (fun part => zero_not_mem_posixParts clean)
      simpa [hostWithout, cString_of_clean text] using upper
    · intro more nonempty begins
      obtain rfl := (eq_of_prefix_single begins).resolve_left nonempty
      simp [missing, hostWithout, cString_of_clean plain]
  have rooted : Rooted directory downloadDir (fun names => longName n ∉ names) := by
    rw [Rooted, given]
    exact ⟨fun names begins member => base (begins.subset member), fronts⟩
  have result := (contained directory (hostWithout parent) _ rooted).2.1 parent made
  rw [place, given] at result
  exact result.resolve_left (by simp)

theorem tidy_of_contained (contained : ∀ torrent : TorrentMeta, Safe torrent.files → Contained torrent downloadDir) :
    Tidy downloadDir := by
  have clean := clean_of_contained (contained (nested 0) (safe_nested 0))
  refine ⟨clean, fun directory => ?_⟩
  obtain ⟨n, longer⟩ := exists_longer (rootOf downloadDir :: directory)
  obtain ⟨begins, different⟩ := below_of_nested clean (contained (nested n) (safe_nested n)) (longer _ (by simp))
    (fun name member => longer name (mem_cons_of_mem _ member))
  have shorter : location directory (rootOf downloadDir) <+: _ :=
    (prefix_concat_iff.mp begins).resolve_left (Ne.symm different)
  have deep := length_walk_posixParts (startOf directory (rootOf downloadDir)) (rootOf downloadDir)
  refine (shorter.eq_of_length_le ?_).symm
  rw [location, cString_of_clean clean]
  exact deep

end Directory

/-- Every torrent stays inside every directory that PosixPath and the C library agree on exactly if
it is safe, and every safe torrent stays inside a directory exactly if they agree on it. -/
theorem contained_iff (torrent : TorrentMeta) (downloadDir : Bytes) :
    ((∀ other, Tidy other → Contained torrent other) ↔ Safe torrent.files) ∧
      ((∀ other : TorrentMeta, Safe other.files → Contained other downloadDir) ↔ Tidy downloadDir) :=
  ⟨⟨safe_of_contained, fun safe _ tidy => contained_of_safe tidy safe⟩,
    ⟨tidy_of_contained, fun tidy _ safe => contained_of_safe tidy safe⟩⟩

/-- `d4:infod6:lengthi1e4:name4:../x12:piece lengthi1e6:pieces20:aaaaaaaaaaaaaaaaaaaaee`: the name
leads out of the download directory. -/
def climbingName : Bytes :=
  [100, 52, 58, 105, 110, 102, 111, 100, 54, 58, 108, 101, 110, 103, 116, 104, 105, 49, 101, 52, 58, 110, 97, 109,
    101, 52, 58, 46, 46, 47, 120, 49, 50, 58, 112, 105, 101, 99, 101, 32, 108, 101, 110, 103, 116, 104, 105, 49,
    101, 54, 58, 112, 105, 101, 99, 101, 115, 50, 48, 58, 97, 97, 97, 97, 97, 97, 97, 97, 97, 97, 97, 97, 97, 97,
    97, 97, 97, 97, 97, 97, 101, 101]

/-- What it is parsed to, if the digest of its info dictionary is that dictionary itself. -/
def climbingTorrent : TorrentMeta :=
  { name := [dot, dot, slash, 120]
    pieceLength := 1
    pieceHashes := [List.replicate 20 97]
    files := [⟨[dot, dot, slash, 120], 1⟩]
    totalSize := 1
    infoHash := (climbingName.drop 7).dropLast
    infoDict := (climbingName.drop 7).dropLast }

theorem climbingName_escapes :
    fromBytes some climbingName = .valid climbingTorrent ∧ ¬ Contained climbingTorrent [slash, 100] := by
  refine ⟨by decide +kernel, fun contained => ?_⟩
  have everywhere : Rooted [] [slash, 100] (fun _ => True) := ⟨fun _ _ => trivial, fun _ _ => trivial⟩
  have opened := (contained [] (bareHost [slash, 100]) (fun _ => True) everywhere).1 _
    (mem_openStorage rfl (opened_mem_openFiles (fun _ => rfl) mem_cons_self))
  exact absurd opened.1 (by decide)

end Qtng.Torrent
