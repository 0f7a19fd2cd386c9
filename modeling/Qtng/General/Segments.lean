import Qtng.General.Map

open Std (ExtTreeMap)

namespace Segments

variable {α : Type*}

theorem isGreatest_below_iff {p : Nat → Prop} {k : Nat} :
    IsGreatest {j | ∀ o < j, p o} k ↔ (∀ o < k, p o) ∧ ¬ p k := by
  constructor
  · intro greatest
    obtain ⟨below, largest⟩ := greatest
    refine ⟨below, fun holds => ?_⟩
    have next : k + 1 ≤ k := largest fun o less => by
      rcases Nat.lt_succ_iff_lt_or_eq.mp less with before | same
      · exact below o before
      · exact same ▸ holds
    omega
  · intro both
    obtain ⟨below, fails⟩ := both
    refine ⟨below, fun j all => ?_⟩
    by_contra more
    exact fails (all k (by omega))

def IsSegment (X : List α) (start : Nat) (data : List α) : Prop :=
  start + data.length ≤ X.length ∧ data = (X.drop start).take data.length

instance [DecidableEq α] (X : List α) (start : Nat) (data : List α) : Decidable (IsSegment X start data) :=
  inferInstanceAs (Decidable (_ ∧ _))

namespace IsSegment

variable {X data : List α} {start : Nat}

theorem drop (segment : IsSegment X start data) {n : Nat} (within : n ≤ data.length) :
    IsSegment X (start + n) (data.drop n) := by
  obtain ⟨bound, same⟩ := segment
  refine ⟨by rw [List.length_drop]; omega, ?_⟩
  rw [List.length_drop]
  conv_lhs => rw [same]
  rw [List.drop_take, List.drop_drop]

theorem take_append (segment : IsSegment X start data) : X.take start ++ data = X.take (start + data.length) := by
  rw [List.take_add, ← segment.2]

end IsSegment

/-- No fragment that starts below a position reaches beyond it. -/
def Clear (fragments : ExtTreeMap Nat (List α)) (position : Nat) : Prop :=
  ∀ start < position, ∀ data ∈ fragments[start]?, start + data.length ≤ position

instance (fragments : ExtTreeMap Nat (List α)) (position : Nat) : Decidable (Clear fragments position) :=
  inferInstanceAs (Decidable (∀ start < position, ∀ data ∈ fragments[start]?, _))

/-- A piece from first to last may join the fragments: it ends inside none of them, not
even inside the one that it replaces, and only the one that it replaces ends inside it. -/
def Fits (fragments : ExtTreeMap Nat (List α)) (first last : Nat) : Prop :=
  ∀ start < last, ∀ data ∈ fragments[start]?, start + data.length ≤ last ∧
    (start = first ∨ start + data.length ≤ first ∨ start + data.length = last)

instance (fragments : ExtTreeMap Nat (List α)) (first last : Nat) : Decidable (Fits fragments first last) :=
  inferInstanceAs (Decidable (∀ start < last, ∀ data ∈ fragments[start]?, _ ∧ _))

theorem Clear.mono {fragments fewer : ExtTreeMap Nat (List α)} {position : Nat} (clear : Clear fragments position)
    (less : ∀ (start : Nat) (data : List α), fewer[start]? = some data → fragments[start]? = some data) :
    Clear fewer position :=
  fun start below data present => clear start below data (less start data present)

/-- The beginning of a sequence, with fragments of it that were put aside. -/
structure Assembly (α : Type*) where
  bytes : List α := []
  offset : Nat := 0
  fragments : ExtTreeMap Nat (List α) := ∅

namespace Assembly

/-- Takes in the fragments that start at the offset and at the end of one another.
Each round takes one of them away, so that their number bounds the rounds. -/
def collect : Nat → Assembly α → Assembly α
  | 0, a => a
  | rounds + 1, a =>
    match a.fragments[a.offset]? with
    | none => a
    | some data =>
      collect rounds
        { bytes := a.bytes ++ data, offset := a.offset + data.length, fragments := a.fragments.erase a.offset }

theorem collect_of_absent (rounds : Nat) {a : Assembly α} (absent : a.fragments[a.offset]? = none) :
    a.collect rounds = a := by
  cases rounds with
  | zero => rfl
  | succ rounds => simp [collect, absent]

theorem collect_insert {a : Assembly α} (absent : a.fragments[a.offset]? = none) (data : List α) :
    collect (a.fragments.insert a.offset data).size { a with fragments := a.fragments.insert a.offset data } =
      collect a.fragments.size { a with bytes := a.bytes ++ data, offset := a.offset + data.length } := by
  rw [NatMap.size_insert_of_absent _ absent]
  simp [collect, NatMap.erase_insert_of_absent _ absent]

theorem le_collect_offset (rounds : Nat) (a : Assembly α) : a.offset ≤ (a.collect rounds).offset := by
  induction rounds generalizing a with
  | zero => exact le_rfl
  | succ rounds ih =>
    unfold collect
    split
    · exact le_rfl
    · refine le_trans ?_ (ih _)
      exact Nat.le_add_right _ _

theorem collect_stops (rounds : Nat) (a : Assembly α) (enough : a.fragments.size ≤ rounds) :
    (a.collect rounds).fragments[(a.collect rounds).offset]? = none := by
  induction rounds generalizing a with
  | zero =>
    have empty : a.fragments = ∅ := ExtTreeMap.eq_empty_iff_size_eq_zero.mpr (by omega)
    simp [collect, empty]
  | succ rounds ih =>
    unfold collect
    split
    · rename_i absent
      exact absent
    · rename_i data present
      have fewer := NatMap.size_erase_of_present present
      exact ih _ (by dsimp only; omega)

/-- What a piece does to an assembly in which no fragment starts at the offset: it brings
nothing new, it goes on from the offset and the fragments behind it follow, or it is put
aside. -/
inductive Takes (a : Assembly α) (first : Nat) (data : List α) : Assembly α → Prop
  | idle : first + data.length ≤ a.offset ∨ data = [] → Takes a first data a
  | meets : first ≤ a.offset → a.offset < first + data.length → Takes a first data (collect a.fragments.size
      { a with bytes := a.bytes ++ data.drop (a.offset - first), offset := first + data.length })
  | aside : a.offset < first → data ≠ [] → Takes a first data { a with fragments := a.fragments.insert first data }

namespace Takes

variable {a b : Assembly α} {first : Nat} {data : List α} (takes : a.Takes first data b)
include takes

theorem le_offset : a.offset ≤ b.offset := by
  cases takes with
  | idle | aside => exact le_rfl
  | meets _ fresh =>
    refine le_trans ?_ (le_collect_offset _ _)
    exact fresh.le

theorem drained (absent : a.fragments[a.offset]? = none) : b.fragments[b.offset]? = none := by
  cases takes with
  | idle => exact absent
  | meets => exact collect_stops _ _ le_rfl
  | aside beyond =>
    rw [NatMap.getElem?_insert, if_neg beyond.ne]
    exact absent

omit takes

end Takes

/-- All that is there comes from a sequence, and from what has arrived of it. -/
structure Sound (X : List α) (arrived : Nat → Prop) (a : Assembly α) : Prop where
  bytes : a.bytes = X.take a.offset
  within : a.offset ≤ X.length
  covered : ∀ o < a.offset, arrived o
  segment : ∀ (start : Nat) (data : List α), a.fragments[start]? = some data → IsSegment X start data
  source : ∀ (start : Nat) (data : List α), a.fragments[start]? = some data →
    ∀ o, start ≤ o → o < start + data.length → arrived o

namespace Sound

variable {X data : List α} {arrived later : Nat → Prop} {a b : Assembly α} {first : Nat}

variable (inv : a.Sound X arrived)
include inv

theorem mono (more : ∀ o, arrived o → later o) : a.Sound X later where
  bytes := inv.bytes
  within := inv.within
  covered o below := more o (inv.covered o below)
  segment := inv.segment
  source start data present o first last := more o (inv.source start data present o first last)

theorem insert (genuine : IsSegment X first data) (taken : ∀ o, first ≤ o → o < first + data.length → arrived o) :
    Sound X arrived { a with fragments := a.fragments.insert first data } where
  bytes := inv.bytes
  within := inv.within
  covered := inv.covered
  segment other found present := by
    rcases NatMap.of_insert present with ⟨rfl, rfl⟩ | ⟨-, old⟩
    · exact genuine
    · exact inv.segment other found old
  source other found present := by
    rcases NatMap.of_insert present with ⟨rfl, rfl⟩ | ⟨-, old⟩
    · exact taken
    · exact inv.source other found old

/-- Data that stand at the offset, beside a fragment that starts there or without one. -/
theorem append (genuine : IsSegment X a.offset data)
    (taken : ∀ o, a.offset ≤ o → o < a.offset + data.length → arrived o) {fragments : ExtTreeMap Nat (List α)}
    (fewer : ∀ (start : Nat) (data : List α), fragments[start]? = some data → a.fragments[start]? = some data) :
    Sound X arrived { bytes := a.bytes ++ data, offset := a.offset + data.length, fragments } where
  bytes := by
    rw [inv.bytes]
    exact genuine.take_append
  within := genuine.1
  covered := by
    intro o below
    by_cases old : o < a.offset
    · exact inv.covered o old
    · exact taken o (by omega) below
  segment start other found := inv.segment start other (fewer start other found)
  source start other found := inv.source start other (fewer start other found)

theorem collect (rounds : Nat) : (a.collect rounds).Sound X arrived := by
  induction rounds generalizing a with
  | zero => exact inv
  | succ rounds ih =>
    unfold Assembly.collect
    split
    · exact inv
    · rename_i data present
      exact ih (inv.append (inv.segment a.offset data present) (inv.source a.offset data present)
        fun _ _ found => NatMap.of_erase found)

theorem takes (piece : a.Takes first data b) (genuine : IsSegment X first data)
    (more : ∀ o, first ≤ o ∧ o < first + data.length ∨ arrived o → later o) : b.Sound X later := by
  have old : a.Sound X later := inv.mono fun o here => more o (.inr here)
  cases piece with
  | idle => exact old
  | meets reaches fresh =>
    have rest := genuine.drop (show a.offset - first ≤ data.length by omega)
    rw [Nat.add_sub_cancel' reaches] at rest
    have length : a.offset + (data.drop (a.offset - first)).length = first + data.length := by
      rw [List.length_drop]
      omega
    have joined := old.append rest (fun o low high => more o (.inl ⟨by omega, by omega⟩)) fun _ _ found => found
    rw [length] at joined
    exact joined.collect _
  | aside => exact old.insert genuine fun o low high => more o (.inl ⟨low, high⟩)

theorem clear_of_takes (piece : a.Takes first data b) (reaches : first ≤ a.offset)
    (fresh : a.offset < first + data.length) (gap : ¬ arrived b.offset)
    (absent : a.fragments[first + data.length]? = none) : Clear a.fragments (first + data.length) := by
  intro start below other present
  by_contra inside
  cases piece with
  | idle old =>
    have empty : first + data.length ≤ a.offset ∨ data.length = 0 := old.imp_right List.length_eq_zero_iff.mpr
    omega
  | meets =>
    rw [collect_of_absent _ absent] at gap
    exact gap (inv.source start other present (first + data.length) below.le (by omega))
  | aside beyond => omega

/-- The bytes end at the offset in any case, so only this one can be the first that
has not arrived. -/
theorem greatest_iff (bounded : ∀ o, arrived o → o < X.length) :
    (∃ k, IsGreatest {k | ∀ o < k, arrived o} k ∧ a.bytes = X.take k) ↔ ¬ arrived a.offset := by
  constructor
  · intro maximal
    obtain ⟨k, greatest, bytes⟩ := maximal
    obtain ⟨below, gap⟩ := isGreatest_below_iff.mp greatest
    have short : k ≤ X.length := by
      by_contra beyond
      exact absurd (bounded X.length (below X.length (by omega))) (lt_irrefl _)
    have lengths := congrArg List.length (bytes.symm.trans inv.bytes)
    rw [List.length_take, List.length_take, min_eq_left short, min_eq_left inv.within] at lengths
    subst lengths
    exact gap
  · intro gap
    exact ⟨a.offset, isGreatest_below_iff.mpr ⟨inv.covered, gap⟩, inv.bytes⟩

omit inv

end Sound

/-- The fragments do not end inside one another, and what has arrived beyond the offset
is in one of them. -/
structure Tidy (arrived : Nat → Prop) (a : Assembly α) : Prop where
  ends : ∀ (start : Nat) (data : List α), a.fragments[start]? = some data → Clear a.fragments (start + data.length)
  kept : ∀ o, a.offset ≤ o → arrived o →
    ∃ (start : Nat) (data : List α), a.fragments[start]? = some data ∧ start ≤ o ∧ o < start + data.length

namespace Tidy

variable {arrived later : Nat → Prop} {a b : Assembly α} {first : Nat} {data : List α}

variable (tidy : a.Tidy arrived)
include tidy

theorem not_arrived (absent : a.fragments[a.offset]? = none) (clear : Clear a.fragments a.offset) :
    ¬ arrived a.offset := by
  intro here
  obtain ⟨start, data, present, first, last⟩ := tidy.kept a.offset le_rfl here
  rcases Nat.lt_or_eq_of_le first with below | same
  · have short := clear start below data present
    omega
  · simp [same, absent] at present

theorem pass (bytes : List α) {offset : Nat} (behind : a.offset ≤ offset)
    (more : ∀ o, later o → o < offset ∨ arrived o) : Tidy later { a with bytes, offset } where
  ends := tidy.ends
  kept o beyond here := by
    dsimp only at beyond
    exact tidy.kept o (by omega) ((more o here).resolve_left (by omega))

/-- Where the loop starts at a fragment, it stops at the end of one. -/
theorem collect (rounds : Nat) (enough : a.fragments.size ≤ rounds)
    (clear : a.fragments[a.offset]? = none → Clear a.fragments a.offset) :
    (a.collect rounds).Tidy arrived ∧ Clear (a.collect rounds).fragments (a.collect rounds).offset := by
  induction rounds generalizing a with
  | zero =>
    have empty : a.fragments = ∅ := ExtTreeMap.eq_empty_iff_size_eq_zero.mpr (by omega)
    exact ⟨tidy, clear (by simp [empty])⟩
  | succ rounds ih =>
    unfold Assembly.collect
    split
    · rename_i absent
      exact ⟨tidy, clear absent⟩
    · rename_i data present
      have fewer := NatMap.size_erase_of_present present
      refine ih ⟨?_, ?_⟩ (by dsimp only; omega) fun _ =>
        (tidy.ends a.offset data present).mono fun _ _ found => NatMap.of_erase found
      · exact fun start other found =>
          (tidy.ends start other (NatMap.of_erase found)).mono fun _ _ found => NatMap.of_erase found
      · intro o beyond here
        dsimp only at beyond
        obtain ⟨start, other, found, first, last⟩ := tidy.kept o (by omega) here
        refine ⟨start, other, ?_, first, last⟩
        rw [NatMap.getElem?_erase, if_neg]
        · exact found
        · -- the fragment that was taken in ends at or below o
          rintro rfl
          cases present.symm.trans found
          omega

theorem insert (beyond : a.offset < first) (proper : data ≠ [])
    (fits : Fits a.fragments first (first + data.length)) (clear : Clear a.fragments a.offset)
    (more : ∀ o, later o → first ≤ o ∧ o < first + data.length ∨ arrived o) :
    Tidy later { a with fragments := a.fragments.insert first data } ∧
      Clear (a.fragments.insert first data) a.offset := by
  have long : 0 < data.length := List.length_pos_iff.mpr proper
  refine ⟨⟨?_, ?_⟩, ?_⟩
  · intro start other present place below found member
    rcases NatMap.of_insert present with ⟨rfl, rfl⟩ | ⟨different, there⟩
    · rcases NatMap.of_insert member with ⟨rfl, rfl⟩ | ⟨_, stored⟩
      · exact le_rfl
      · exact (fits place below found stored).1
    · rcases NatMap.of_insert member with ⟨rfl, rfl⟩ | ⟨_, stored⟩
      · -- the fragment does not end inside the piece
        by_contra longer
        have edge := (fits start (by omega) other there).2
        omega
      · exact tidy.ends start other there place below found stored
  · intro o from_ here
    by_cases within : first ≤ o ∧ o < first + data.length
    · exact ⟨first, data, by simp, within⟩
    · obtain ⟨start, other, present, low, high⟩ := tidy.kept o from_ ((more o here).resolve_left within)
      refine ⟨start, other, ?_, low, high⟩
      rw [NatMap.getElem?_insert, if_neg]
      · exact present
      · -- the fragment that the piece replaces is not longer than the piece
        rintro rfl
        have short := (fits start (by omega) other present).1
        omega
  · intro start below other present
    rcases NatMap.of_insert present with ⟨rfl, rfl⟩ | ⟨_, present⟩
    · omega
    · exact clear start below other present

theorem takes (piece : a.Takes first data b) (clear : Clear a.fragments a.offset)
    (apart : a.offset < first → data ≠ [] → Fits a.fragments first (first + data.length))
    (behind : first ≤ a.offset → a.offset < first + data.length → a.fragments[first + data.length]? = none →
      Clear a.fragments (first + data.length))
    (more : ∀ o, later o → first ≤ o ∧ o < first + data.length ∨ arrived o) :
    b.Tidy later ∧ Clear b.fragments b.offset := by
  cases piece with
  | idle old =>
    have empty : first + data.length ≤ a.offset ∨ data.length = 0 := old.imp_right List.length_eq_zero_iff.mpr
    refine ⟨⟨tidy.ends, fun o beyond here => tidy.kept o beyond ?_⟩, clear⟩
    exact (more o here).resolve_left fun inside => by omega
  | meets reaches fresh =>
    have passed := tidy.pass (a.bytes ++ data.drop (a.offset - first)) fresh.le
      fun o here => (more o here).imp_left And.right
    exact passed.collect _ le_rfl (behind reaches fresh)
  | aside beyond proper => exact tidy.insert beyond proper (apart beyond proper) clear more

omit tidy

end Tidy

end Assembly

end Segments
