import Qtng.General.Runs
import Qtng.Quic.Frame

namespace Qtng

open Runs Finset

variable {k prevLow : Nat} {R : Finset Nat}
variable {high largestSent : Nat} {ack : QuicFrame}

/-- The loop of quicBuildAckFrame over the ranges below the first. The first
argument is how many ranges may still be added. -/
def ackRangeLoop (received : Finset Nat) : Nat → Nat → List QuicAckRange
  | 0, _ => []
  | budget + 1, prevLow =>
    if prevLow = 0 then []
    else if prevLow - 1 ∈ received then []
    else
      let gapLow := descend (· ∉ received) (prevLow - 1)
      if gapLow = 0 then []
      else
        let rangeHigh := gapLow - 1
        let rangeLow := descend (· ∈ received) rangeHigh
        { gap := (prevLow - 1) - rangeHigh - 1, ackRangeLength := rangeHigh - rangeLow } ::
          ackRangeLoop received budget rangeLow

/-- The loop ends when it has brought the frame to 255 ranges, but only looks
after it has added one. -/
def quicBuildAckFrame (received : Finset Nat) (ack : QuicFrame) : QuicFrame :=
  if nonempty : received.Nonempty then
    let largest := received.max' nonempty
    let low := descend (· ∈ received) largest
    { ack with
      type := .ack, largestAcknowledged := largest, ackDelay := 0, firstAckRange := largest - low
      ackRanges := ack.ackRanges ++ ackRangeLoop received (max 1 (255 - ack.ackRanges.length)) low }
  else ack

/-- What onAckReceived makes of the ranges below the first: the second argument
is the lowest number acknowledged so far. -/
def expandRanges : List QuicAckRange → Nat → Finset Nat
  | [], _ => ∅
  | range :: rest, cursor =>
    if range.gap + 2 > cursor then ∅
    else
      let high := cursor - (range.gap + 2)
      let rangeLen := min range.ackRangeLength high
      let low := high - rangeLen
      let numbers := (Finset.range (rangeLen + 1)).image (high - ·)
      if low = 0 then numbers else numbers ∪ expandRanges rest low

/-- The numbers that a frame acknowledges, clamped to those that were sent. -/
def ackedNumbers (ack : QuicFrame) (largestSent : Nat) : Finset Nat :=
  let largest := min ack.largestAcknowledged largestSent
  let firstRange := min ack.firstAckRange largest
  (Finset.range (firstRange + 1)).image (largest - ·) ∪ expandRanges ack.ackRanges (largest - firstRange)

theorem mem_image_down {len : Nat} (inside : len ≤ high) :
    k ∈ (Finset.range (len + 1)).image (high - ·) ↔ high - len ≤ k ∧ k ≤ high := by
  simp only [mem_image, mem_range]
  constructor
  · intro ⟨i, bound, value⟩
    omega
  · intro ⟨lower, upper⟩
    exact ⟨high - k, by omega, by omega⟩

theorem expandRanges_le {ranges : List QuicAckRange} {cursor : Nat} (member : k ∈ expandRanges ranges cursor) :
    k ≤ cursor := by
  induction ranges generalizing cursor with
  | nil => simp [expandRanges] at member
  | cons range rest ih =>
    simp only [expandRanges] at member
    split at member
    · simp at member
    · have numbers : ∀ {high len : Nat}, k ∈ (Finset.range (len + 1)).image (high - ·) → k ≤ high := by
        intro high len inside
        obtain ⟨i, _, value⟩ := mem_image.mp inside
        omega
      split at member
      · have bound := numbers member
        omega
      · rcases mem_union.mp member with inside | below
        · have bound := numbers inside
          omega
        · have bound := ih below
          omega

theorem ackedNumbers_le (member : k ∈ ackedNumbers ack largestSent) :
    k ≤ min ack.largestAcknowledged largestSent := by
  rcases mem_union.mp member with first | below
  · obtain ⟨i, _, value⟩ := mem_image.mp first
    omega
  · have bound := expandRanges_le below
    omega

theorem next_run (untouched : prevLow - 1 ∉ R) (found : descend (· ∉ R) (prevLow - 1) ≠ 0) :
    IsRun R (descend (· ∈ R) (descend (· ∉ R) (prevLow - 1) - 1)) (descend (· ∉ R) (prevLow - 1) - 1) ∧
      descend (· ∉ R) (prevLow - 1) - 1 + 2 ≤ prevLow ∧
      ∀ k, descend (· ∉ R) (prevLow - 1) - 1 < k → k < prevLow → k ∉ R := by
  have bound := descend_le (· ∉ R) (prevLow - 1)
  have stopped := descend_stopped (· ∉ R) (Nat.pos_of_ne_zero found)
  have missing : ∀ k, descend (· ∉ R) (prevLow - 1) - 1 < k → k < prevLow → k ∉ R := by
    intro k above below
    by_cases last : k = prevLow - 1
    · exact last ▸ untouched
    · exact descend_passed (· ∉ R) (n := prevLow - 1) (by omega) (by omega)
  have member : descend (· ∉ R) (prevLow - 1) - 1 ∈ R := not_not.mp stopped
  refine ⟨isRun_descend member (missing _ (by omega) (by omega)), by omega, missing⟩

theorem no_next_run (untouched : prevLow - 1 ∉ R)
    (none : descend (· ∉ R) (prevLow - 1) = 0) (below : k < prevLow) : k ∉ R := by
  by_cases last : k = prevLow - 1
  · exact last ▸ untouched
  · exact descend_passed (· ∉ R) (n := prevLow - 1) (by omega) (by omega)

theorem mem_expandRanges_run {low : Nat} {rest : List QuicAckRange}
    (run : IsRun R low high) (room : high + 2 ≤ prevLow) :
    k ∈ expandRanges (⟨prevLow - 1 - high - 1, high - low⟩ :: rest) prevLow ↔
      low ≤ k ∧ k ≤ high ∨ 0 < low ∧ k ∈ expandRanges rest low := by
  have ordered := run.ordered
  have fits : ¬ prevLow - 1 - high - 1 + 2 > prevLow := by omega
  have top : prevLow - (prevLow - 1 - high - 1 + 2) = high := by omega
  have size : min (high - low) high = high - low := by omega
  have bottom : high - (high - low) = low := by omega
  have numbers : k ∈ (range (high - low + 1)).image (high - ·) ↔ low ≤ k ∧ k ≤ high := by
    rw [mem_image_down (by omega), bottom]
  simp only [expandRanges, fits, top, size, bottom, if_false]
  by_cases zero : low = 0
  · rw [if_pos zero, numbers]
    simp [zero]
  · rw [if_neg zero, mem_union, numbers]
    simp [Nat.pos_of_ne_zero zero]

/-- The ranges that are written below a run are read back as the runs there, as
many of them as fit. -/
theorem mem_expandRanges_ackRangeLoop {budget : Nat} (untouched : 0 < prevLow → prevLow - 1 ∉ R) :
    k ∈ expandRanges (ackRangeLoop R budget prevLow) prevLow ↔
      k ∈ R ∧ k < prevLow ∧ between R k prevLow ≤ budget := by
  induction budget generalizing prevLow with
  | zero =>
    simp only [ackRangeLoop, expandRanges, notMem_empty, false_iff, Nat.le_zero]
    intro ⟨member, below, exhausted⟩
    have some := between_pos member below (untouched (by omega))
    omega
  | succ budget ih =>
    by_cases bottom : prevLow = 0
    · simp [ackRangeLoop, expandRanges, bottom]
    have free := untouched (by omega)
    by_cases missing : descend (· ∉ R) (prevLow - 1) = 0
    · simp only [ackRangeLoop, bottom, free, missing, if_false, if_true, expandRanges, notMem_empty, false_iff]
      intro ⟨member, below, _⟩
      exact no_next_run free missing below member
    · obtain ⟨run, room, gap⟩ := next_run free missing
      simp only [ackRangeLoop, bottom, free, missing, if_false]
      generalize descend (· ∉ R) (prevLow - 1) - 1 = high at run room gap ⊢
      generalize descend (· ∈ R) high = low at run ⊢
      have ordered := run.ordered
      rw [mem_expandRanges_run run room, ih run.below]
      by_cases above : high < k
      · have absent : k < prevLow → k ∉ R := gap k above
        constructor
        · intro either
          omega
        · intro ⟨member, below, _⟩
          exact absurd member (absent below)
      · by_cases inside : low ≤ k
        · have one := run.between_inside inside (by omega) (by omega) gap
          have member := run.inside k inside (by omega)
          simp only [one, member, true_and]
          omega
        · have more := run.between_below (by omega) (by omega) gap (k := k)
          simp only [more]
          constructor
          · intro either
            rcases either with inRun | ⟨_, member, below, few⟩
            · omega
            · exact ⟨member, by omega, by omega⟩
          · intro ⟨member, _, few⟩
            exact Or.inr ⟨by omega, member, by omega, by omega⟩

/-- A frame that was built for a set acknowledges its 256 highest runs, and so
the whole set if there are no more. -/
theorem ackedNumbers_quicBuildAckFrame (nonempty : R.Nonempty) (sent : ∀ pn ∈ R, pn ≤ largestSent)
    (largest : ack.largestAcknowledged = (quicBuildAckFrame R {}).largestAcknowledged)
    (first : ack.firstAckRange = (quicBuildAckFrame R {}).firstAckRange)
    (ranges : ack.ackRanges = (quicBuildAckFrame R {}).ackRanges) :
    ackedNumbers ack largestSent = highest 256 R := by
  have top := R.max'_mem nonempty
  have bound : ∀ j ∈ R, j < R.max' nonempty + 1 := fun j member => Nat.lt_succ_of_le (R.le_max' j member)
  have run := isRun_descend top (fun next => absurd (bound _ next) (lt_irrefl _))
  have clamp := sent _ top
  simp only [quicBuildAckFrame, nonempty, dite_true, List.length_nil, List.nil_append] at largest first ranges
  ext k
  simp only [ackedNumbers, largest, first, ranges]
  rw [mem_highest_iff_between bound, min_eq_left clamp]
  generalize R.max' nonempty = high at run bound ⊢
  generalize descend (· ∈ R) high = low at run ⊢
  have ordered := run.ordered
  have bottom : high - (high - low) = low := by omega
  have gap : ∀ j, high < j → j < high + 1 → j ∉ R := by
    intro j above below
    omega
  rw [min_eq_left (by omega), mem_union, mem_image_down (by omega), bottom]
  change low ≤ k ∧ k ≤ high ∨ k ∈ expandRanges (ackRangeLoop R 255 low) low ↔ _
  rw [mem_expandRanges_ackRangeLoop run.below]
  by_cases inside : low ≤ k
  · by_cases under : k ≤ high
    · have one := run.between_inside inside under (Nat.lt_succ_self high) gap
      have member := run.inside k inside under
      simp only [one, member, true_and]
      omega
    · constructor
      · intro either
        omega
      · intro both
        have below := bound k both.1
        omega
  · have more := run.between_below (k := k) (by omega) (Nat.lt_succ_self high) gap
    rw [more]
    constructor
    · intro either
      rcases either with inRun | ⟨member, _, few⟩
      · omega
      · exact ⟨member, by omega⟩
    · intro both
      obtain ⟨member, few⟩ := both
      exact Or.inr ⟨member, by omega, by omega⟩

end Qtng
