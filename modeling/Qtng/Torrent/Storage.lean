import Qtng.Torrent.Meta

namespace Qtng.Torrent

open BigEndian Path List

def isSpace (c : UInt8) : Bool := c = 32 || (9 ≤ c && c ≤ 13)

def trimmed (text : Bytes) : Bytes := ((text.dropWhile isSpace).reverse.dropWhile isSpace).reverse

/-- PosixPath reads a component as `.` or `..` if only space is around it. -/
def normalPart (part : Bytes) : Bytes :=
  if trimmed part = [dot] then [dot] else if trimmed part = [dot, dot] then [dot, dot] else part

def posixParts (path : Bytes) : List Bytes := ((components path).filter (fun part => !part.isEmpty)).map normalPart

/-- Parts with separators between them, and one before them in an absolute path. -/
def pathText (absolute : Bool) (parts : List Bytes) : Bytes :=
  if absolute then render parts else [slash].intercalate parts

def parentDir (path : Bytes) : Bytes := pathText (path.head? = some slash) (posixParts path).dropLast

def parentPath (path : Bytes) : Bytes :=
  let stripped := path.reverse.dropWhile (fun c => c == slash)
  if path = [] then []
  else if stripped = [] then [slash]
  else
    match stripped.dropWhile (fun c => c != slash) with
    | [] => []
    | _ :: front => if front = [] then [slash] else front.reverse

/-- What the file system answers. It is asked with C strings. -/
structure Host where
  isDirectory : Bytes → Bool
  found : Bytes → Bool
  mkdir : Bytes → Bool
  opens : Bytes → Bool

/-- PathFs::createDirectories: the paths that it makes, and whether it could. -/
def createDirectories (host : Host) : Nat → Bytes → List Bytes × Bool
  | 0, _ => ([], false)
  | fuel + 1, path =>
    if path = [] then ([], false)
    else if host.isDirectory (Path.cString path) then ([], true)
    else if parentPath path ≠ [] ∧ parentPath path ≠ path ∧ !host.isDirectory (Path.cString (parentPath path)) then
      let above := createDirectories host fuel (parentPath path)
      if above.2 then (above.1 ++ [path], host.mkdir (Path.cString path)) else (above.1, false)
    else ([path], host.mkdir (Path.cString path))

/-- PosixPath::mkdir with its parents. -/
def mkdirParents (host : Host) (path : Bytes) : List Bytes × Bool :=
  if host.isDirectory (Path.cString path) then ([], true)
  else if host.found (Path.cString path) then ([], false)
  else createDirectories host (path.length + 1) path

/-- What PieceStorage::open does to the file system: for the download directory itself, for the
directory of a file, and for the file. -/
inductive Access
  | root (path : Bytes)
  | made (path : Bytes)
  | opened (path : Bytes)

def openFiles (host : Host) (root : Bytes) : List TorrentFileInfo → List Access
  | [] => []
  | file :: files =>
    let path := root ++ slash :: file.path
    let parent := parentDir path
    let made := if host.found (Path.cString parent) then [] else (mkdirParents host parent).1
    made.map .made ++ .opened path :: if host.opens (Path.cString path) then openFiles host root files else []

def rootOf (downloadDir : Bytes) : Bytes := if downloadDir = [] then [dot] else downloadDir

def openStorage (host : Host) (torrent : TorrentMeta) (downloadDir : Bytes) : List Access :=
  let root := rootOf downloadDir
  let made := if host.found (Path.cString root) then ([], true) else mkdirParents host root
  made.1.map .root ++ if made.2 then openFiles host root torrent.files else []

section Locations

variable {directory : List Bytes} {downloadDir : Bytes}

/-- Where a path leads that is given to the C library in a working directory. -/
def location (directory : List Bytes) (path : Bytes) : List Bytes := locateAt directory (Path.cString path)

def Below (base place : List Bytes) : Prop := base <+: place ∧ place ≠ base

def startOf (directory : List Bytes) (path : Bytes) : List Bytes :=
  if path.head? = some slash then [] else directory

/-- The download directory is there, the directories above it are, and so are those that its path goes through. -/
def Rooted (directory : List Bytes) (downloadDir : Bytes) (present : List Bytes → Prop) : Prop :=
  (∀ names, names <+: location directory (rootOf downloadDir) → present names) ∧
    ∀ front, front <+: posixParts (rootOf downloadDir) →
      present (walk (startOf directory (rootOf downloadDir)) (front.map stepOf))

/-- Whatever is opened or newly made for the files of a torrent lies below the download directory,
and no two files are the same. -/
def Contained (torrent : TorrentMeta) (downloadDir : Bytes) : Prop :=
  ∀ (directory : List Bytes) (host : Host) (present : List Bytes → Prop), Rooted directory downloadDir present →
    let base := location directory (rootOf downloadDir)
    (∀ path, .opened path ∈ openStorage host torrent downloadDir → Below base (location directory path)) ∧
    (∀ path, .made path ∈ openStorage host torrent downloadDir →
      present (location directory path) ∨ Below base (location directory path)) ∧
    torrent.files.Pairwise (fun f g => location directory (rootOf downloadDir ++ slash :: f.path) ≠
      location directory (rootOf downloadDir ++ slash :: g.path))

/-- PosixPath and the C library read the directory in the same way. -/
def Tidy (downloadDir : Bytes) : Prop :=
  (0 : UInt8) ∉ rootOf downloadDir ∧ ∀ directory,
    walk (startOf directory (rootOf downloadDir)) ((posixParts (rootOf downloadDir)).map stepOf) =
      location directory (rootOf downloadDir)

/-- What the C library makes of a path below an unknown directory. -/
def reach (path : Bytes) : Nat × List Bytes := offset ((components (Path.cString path)).map stepOf)

/-- The files of a torrent never climb out, neither they nor the directories made for them, and are
different. -/
structure Safe (files : List TorrentFileInfo) : Prop where
  inside : ∀ f ∈ files, (reach f.path).1 = 0 ∧ (reach f.path).2 ≠ []
  directories : ∀ f ∈ files, ∀ front, front <+: (posixParts f.path).dropLast →
    (reach ([slash].intercalate front)).1 = 0 ∨ (reach ([slash].intercalate front)).2 = []
  distinct : files.Pairwise (fun f g => (reach f.path).2 ≠ (reach g.path).2)

end Locations

section Parts

variable {part path : Bytes}
variable {parts front : List Bytes} {absolute : Bool} {files : List TorrentFileInfo} {root : Bytes}

def IsPart (part : Bytes) : Prop := part ≠ [] ∧ slash ∉ part

theorem isPart_normalPart (given : IsPart part) : IsPart (normalPart part) := by
  unfold normalPart
  split_ifs
  · exact ⟨by simp, by decide⟩
  · exact ⟨by simp, by decide⟩
  · exact given

theorem isPart_of_mem_posixParts (member : part ∈ posixParts path) : IsPart part := by
  obtain ⟨component, listed, rfl⟩ := mem_map.mp member
  obtain ⟨listed, filled⟩ := mem_filter.mp listed
  exact isPart_normalPart ⟨by simpa using filled, not_mem_of_mem_splitOn listed⟩

theorem posixParts_join (path sub : Bytes) : posixParts (path ++ slash :: sub) = posixParts path ++ posixParts sub := by
  rw [posixParts, components_join, filter_append, map_append]
  rfl

theorem dropWhile_reverse_part (rest : Bytes) (given : IsPart part) :
    (part.reverse ++ rest).dropWhile (fun c => c == slash) = part.reverse ++ rest := by
  obtain ⟨c, more, turned⟩ := exists_cons_of_ne_nil (show part.reverse ≠ [] by simpa using given.1)
  have other : c ≠ slash := by
    rintro rfl
    exact given.2 (mem_reverse.mp (turned ▸ mem_cons_self))
  simp [turned, other]

theorem parentPath_single (given : IsPart part) : parentPath part = [] := by
  have stripped := dropWhile_reverse_part [] given
  have none : part.reverse.dropWhile (fun c => c != slash) = [] := by
    rw [dropWhile_eq_nil_iff]
    intro c member
    have other : c ≠ slash := fun same => given.2 (same ▸ mem_reverse.mp member)
    simpa using other
  simp only [append_nil] at stripped
  simp [parentPath, given.1, stripped, none]

theorem parentPath_join (front : Bytes) (given : IsPart part) :
    parentPath (front ++ slash :: part) = if front = [] then [slash] else front := by
  have turned : (front ++ slash :: part).reverse = part.reverse ++ slash :: front.reverse := by simp
  have stripped := dropWhile_reverse_part (slash :: front.reverse) given
  have cut : (part.reverse ++ slash :: front.reverse).dropWhile (fun c => c != slash) = slash :: front.reverse := by
    rw [dropWhile_append_of_pos (fun c member => by
      have other : c ≠ slash := fun same => given.2 (same ▸ mem_reverse.mp member)
      simpa using other)]
    simp
  simp [parentPath, turned, stripped, cut]

theorem pathText_ne_nil (clean : ∀ part ∈ parts, IsPart part) (filled : parts ≠ []) : pathText absolute parts ≠ [] := by
  cases absolute with
  | true => simp [pathText, render]
  | false =>
    obtain ⟨part, more, rfl⟩ := exists_cons_of_ne_nil filled
    have first := (clean part (by simp)).1
    cases more with
    | nil => simpa [pathText] using first
    | cons next more => simp [pathText, intercalate_cons_of_ne_nil]

theorem pathText_concat (absolute : Bool) (filled : front ≠ []) (part : Bytes) :
    pathText absolute (front ++ [part]) = pathText absolute front ++ slash :: part := by
  cases absolute with
  | true => simp [pathText, render_concat filled]
  | false => simp [pathText, intercalate_concat filled]

theorem parentPath_pathText (absolute : Bool)
    (clean : ∀ p ∈ front ++ [part], IsPart p) :
    parentPath (pathText absolute (front ++ [part])) = pathText absolute front := by
  have given := clean part (by simp)
  by_cases empty : front = []
  · subst empty
    cases absolute with
    | true => simpa [pathText, render] using parentPath_join [] given
    | false => simpa [pathText] using parentPath_single given
  · rw [pathText_concat absolute empty, parentPath_join _ given,
      if_neg (pathText_ne_nil (fun p member => clean p (by simp [member])) empty)]

variable {host : Host}

theorem made_of_createDirectories {fuel : Nat}
    (clean : ∀ part ∈ parts, IsPart part) (made : path ∈ (createDirectories host fuel (pathText absolute parts)).1) :
    path ≠ [] ∧ ∃ front, front <+: parts ∧ path = pathText absolute front := by
  induction fuel generalizing parts with
  | zero => simp [createDirectories] at made
  | succ fuel ih =>
    have whole : path = pathText absolute parts → pathText absolute parts ≠ [] →
        path ≠ [] ∧ ∃ front, front <+: parts ∧ path = pathText absolute front :=
      fun same filled => ⟨same ▸ filled, parts, prefix_refl _, same⟩
    rw [createDirectories] at made
    split_ifs at made with empty there above
    · simp at made
    · simp at made
    · rcases eq_nil_or_concat' parts with rfl | ⟨front, part, rfl⟩
      · cases absolute with
        | true => exact absurd rfl above.2.1
        | false => exact absurd rfl empty
      · rw [parentPath_pathText absolute clean] at made
        have upper : path ∈ (createDirectories host fuel (pathText absolute front)).1 →
            path ≠ [] ∧ ∃ start, start <+: front ++ [part] ∧ path = pathText absolute start := by
          intro listed
          have fronts : ∀ p ∈ front, IsPart p := fun p member => clean p (mem_append_left _ member)
          obtain ⟨filled, start, shorter, same⟩ := ih fronts listed
          exact ⟨filled, start, shorter.trans (prefix_append _ _), same⟩
        dsimp only at made
        split_ifs at made
        · rcases mem_append.mp made with old | new
          · exact upper old
          · exact whole (mem_singleton.mp new) empty
        · exact upper made
    · exact whole (mem_singleton.mp made) empty

theorem made_of_openFiles (made : .made path ∈ openFiles host root files) :
    path ≠ [] ∧ ∃ file ∈ files, ∃ front, front <+: (posixParts root ++ posixParts file.path).dropLast ∧
      path = pathText ((root ++ slash :: file.path).head? = some slash) front := by
  induction files with
  | nil => simp [openFiles] at made
  | cons file files ih =>
    rw [openFiles] at made
    rcases mem_append.mp made with here | later
    · obtain ⟨other, listed, same⟩ := mem_map.mp here
      cases same
      split at listed
      · cases listed
      · rw [mkdirParents] at listed
        split at listed
        · cases listed
        · have clean : ∀ part ∈ (posixParts (root ++ slash :: file.path)).dropLast, IsPart part :=
            fun part member => isPart_of_mem_posixParts (mem_of_mem_dropLast member)
          obtain ⟨filled, front, start, same⟩ := made_of_createDirectories clean listed
          rw [posixParts_join] at start
          exact ⟨filled, file, by simp, front, start, same⟩
    · rcases mem_cons.mp later with same | later
      · cases same
      · split_ifs at later
        · obtain ⟨filled, other, member, rest⟩ := ih later
          exact ⟨filled, other, by simp [member], rest⟩
        · simp at later

theorem opened_of_openFiles
    (opened : .opened path ∈ openFiles host root files) : ∃ file ∈ files, path = root ++ slash :: file.path := by
  induction files with
  | nil => simp [openFiles] at opened
  | cons file files ih =>
    rw [openFiles] at opened
    rcases mem_append.mp opened with here | later
    · obtain ⟨other, listed, same⟩ := mem_map.mp here
      cases same
    · rcases mem_cons.mp later with same | later
      · cases same
        exact ⟨file, by simp, rfl⟩
      · split_ifs at later
        · obtain ⟨other, member, same⟩ := ih later
          exact ⟨other, by simp [member], same⟩
        · simp at later

end Parts

section Contained

variable {directory : List Bytes} {downloadDir : Bytes}
variable {path : Bytes} {parts : List Bytes} {absolute : Bool}
variable {part : Bytes}

theorem rootOf_ne_nil (downloadDir : Bytes) : rootOf downloadDir ≠ [] := by
  unfold rootOf
  split_ifs with empty
  · simp
  · exact empty

theorem location_file (clean : (0 : UInt8) ∉ rootOf downloadDir) (path : Bytes) :
    location directory (rootOf downloadDir ++ slash :: path) =
      walk (location directory (rootOf downloadDir)) ((components (Path.cString path)).map stepOf) := by
  have cut : Path.cString (rootOf downloadDir ++ slash :: path) = rootOf downloadDir ++ slash :: Path.cString path := by
    rw [cString_append clean]
    rfl
  rw [location, cut, locateAt_join (rootOf_ne_nil downloadDir), location, cString_of_clean clean]

theorem location_file_of_inside (clean : (0 : UInt8) ∉ rootOf downloadDir) (inside : (reach path).1 = 0) :
    location directory (rootOf downloadDir ++ slash :: path) =
      location directory (rootOf downloadDir) ++ (reach path).2 := by
  rw [location_file clean, walk_eq_offset]
  change take (_ - (reach path).1) _ ++ (reach path).2 = _
  rw [inside, Nat.sub_zero, take_length]

variable (clean : ∀ part ∈ parts, IsPart part)
include clean

theorem components_pathText (filled : parts ≠ []) :
    components (pathText absolute parts) = if absolute then [] :: parts else parts := by
  cases absolute with
  | true =>
    simp only [pathText, if_true]
    exact components_render (fun part member => (clean part member).2) filled
  | false =>
    simp only [pathText, Bool.false_eq_true, if_false]
    exact splitOn_intercalate slash (fun part member => (clean part member).2) filled

theorem head_pathText :
    (pathText absolute parts).head? = some slash ↔ absolute = true := by
  cases absolute with
  | true => simp [pathText, render]
  | false =>
    cases parts with
    | nil => simp [pathText]
    | cons part parts =>
      obtain ⟨c, more, same⟩ := exists_cons_of_ne_nil (clean part (by simp)).1
      have other : c ≠ slash := fun equal => (clean part (by simp)).2 (by simp [same, equal])
      cases parts with
      | nil => simp [pathText, same, other]
      | cons next parts => simp [pathText, intercalate_cons_of_ne_nil, same, other]

theorem locateAt_pathText (filled : absolute = true ∨ parts ≠ []) :
    locateAt directory (pathText absolute parts) = walk (if absolute then [] else directory) (parts.map stepOf) := by
  by_cases empty : parts = []
  · obtain rfl : absolute = true := filled.resolve_right (not_not.mpr empty)
    subst empty
    rfl
  · rw [locateAt, components_pathText clean empty]
    cases absolute with
    | true =>
      rw [if_pos ((head_pathText clean).mpr rfl)]
      rfl
    | false => rw [if_neg (by simp [head_pathText clean])]; rfl

omit clean

theorem pathText_append (absolute : Bool) {more : List Bytes} (filled : more ≠ [])
    (rooted : absolute = true ∨ parts ≠ []) :
    pathText absolute (parts ++ more) = (if parts = [] then [] else pathText absolute parts) ++
      slash :: [slash].intercalate more := by
  induction more using reverseRecOn with
  | nil => exact absurd rfl filled
  | append_singleton more part ih =>
    by_cases single : more = []
    · subst single
      by_cases empty : parts = []
      · obtain rfl : absolute = true := rooted.resolve_right (not_not.mpr empty)
        simp [empty, pathText, render]
      · simp [empty, pathText_concat absolute empty]
    · rw [← append_assoc, pathText_concat absolute (by simp [single]), ih single, intercalate_concat single]
      simp

theorem mem_intercalate {α : Type*} {separator : List α} {parts : List (List α)} {a : α}
    (member : a ∈ separator.intercalate parts) : a ∈ separator ∨ ∃ part ∈ parts, a ∈ part := by
  induction parts using reverseRecOn with
  | nil => simp at member
  | append_singleton front part ih =>
    by_cases empty : front = []
    · subst empty
      exact .inr ⟨part, by simp, by simpa using member⟩
    · rw [intercalate_concat empty, mem_append, mem_append] at member
      rcases member with (early | between) | last
      · rcases ih early with between | ⟨other, listed, inside⟩
        · exact .inl between
        · exact .inr ⟨other, mem_append_left _ listed, inside⟩
      · exact .inl between
      · exact .inr ⟨part, by simp, last⟩

theorem zero_not_mem_normalPart (clean : (0 : UInt8) ∉ part) : (0 : UInt8) ∉ normalPart part := by
  unfold normalPart
  split_ifs
  · decide
  · decide
  · exact clean

theorem zero_not_mem_posixParts (clean : (0 : UInt8) ∉ path) (member : part ∈ posixParts path) :
    (0 : UInt8) ∉ part := by
  obtain ⟨component, listed, rfl⟩ := mem_map.mp member
  exact zero_not_mem_normalPart (fun inside => clean ((infix_of_mem_splitOn (mem_of_mem_filter listed)).subset inside))

theorem zero_not_mem_pathText (clean : ∀ part ∈ parts, (0 : UInt8) ∉ part) :
    (0 : UInt8) ∉ pathText absolute parts := by
  intro member
  have inner : (0 : UInt8) ∈ [slash].intercalate parts := by
    cases absolute with
    | true => simpa [pathText, render, slash] using member
    | false => simpa [pathText] using member
  rcases mem_intercalate inner with between | ⟨part, listed, inside⟩
  · exact absurd between (by decide)
  · exact clean part listed inside

theorem absolute_of_posixParts (filled : path ≠ []) (none : posixParts path = []) :
    path.head? = some slash := by
  obtain ⟨c, rest, rfl⟩ := exists_cons_of_ne_nil filled
  by_cases same : c = slash
  · simp [same]
  · obtain ⟨first, more, parts⟩ := exists_cons_of_ne_nil (components_ne_nil rest)
    have split : components (c :: rest) = (c :: first) :: more := by
      rw [components, splitOn_cons_eq_if_modifyHead, if_neg (by simpa using same)]
      exact congrArg _ parts
    simp [posixParts, split] at none

theorem startOf_eq (path : Bytes) :
    startOf directory path = if decide (path.head? = some slash) = true then [] else directory := by
  simp [startOf]

section Directories

variable {root : Bytes}

theorem location_front (clean : (0 : UInt8) ∉ root) {front : List Bytes} (start : front <+: posixParts root)
    (filled : pathText (root.head? = some slash) front ≠ []) :
    location directory (pathText (root.head? = some slash) front) =
      walk (startOf directory root) (front.map stepOf) := by
  have parts : ∀ part ∈ front, IsPart part := fun part member => isPart_of_mem_posixParts (start.subset member)
  have plain : (0 : UInt8) ∉ pathText (root.head? = some slash) front :=
    zero_not_mem_pathText (fun part member => zero_not_mem_posixParts clean (start.subset member))
  rw [location, cString_of_clean plain, locateAt_pathText parts, startOf_eq]
  by_cases empty : front = []
  · subst empty
    refine .inl ?_
    by_contra relative
    simp [pathText, relative] at filled
  · exact .inr empty

theorem location_beyond (clean : (0 : UInt8) ∉ root) (given : root ≠ []) {more : List Bytes} (filled : more ≠ []) :
    location directory (pathText (root.head? = some slash) (posixParts root ++ more)) =
      walk (walk (startOf directory root) ((posixParts root).map stepOf))
        ((components (Path.cString ([slash].intercalate more))).map stepOf) := by
  by_cases empty : posixParts root = []
  · have absolute := absolute_of_posixParts given empty
    rw [pathText_append _ filled (.inl (by simp [absolute])), if_pos empty, nil_append, location]
    simp only [startOf, absolute, empty, if_true, map_nil, walk_nil]
    change walk [] ((components (slash :: Path.cString ([slash].intercalate more))).map stepOf) = _
    rw [components_slash]
    rfl
  · have parts : ∀ part ∈ posixParts root, IsPart part := fun part => isPart_of_mem_posixParts
    have text : pathText (root.head? = some slash) (posixParts root) ≠ [] := pathText_ne_nil parts empty
    have plain : (0 : UInt8) ∉ pathText (root.head? = some slash) (posixParts root) :=
      zero_not_mem_pathText (fun part => zero_not_mem_posixParts clean)
    have before : location directory (pathText (root.head? = some slash) (posixParts root)) = _ :=
      location_front clean (prefix_refl _) text
    rw [location, cString_of_clean plain] at before
    rw [pathText_append _ filled (.inr empty), if_neg empty, location, cString_append plain, ← before]
    exact locateAt_join text _

end Directories

theorem walk_reach (base : List Bytes) (path : Bytes) :
    walk base ((components (Path.cString path)).map stepOf) =
      base.take (base.length - (reach path).1) ++ (reach path).2 :=
  walk_eq_offset base _

end Contained

end Qtng.Torrent
