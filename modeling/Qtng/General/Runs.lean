import Mathlib

namespace Runs

open Finset

variable {k m bound low high : Nat} {R : Finset Nat}

/-- Walks down from a number while the number below has the property. -/
def descend (p : Nat → Prop) [DecidablePred p] : Nat → Nat
  | 0 => 0
  | n + 1 => if p n then descend p n else n + 1

section Descend

variable (p : Nat → Prop) [DecidablePred p]

theorem descend_le (n : Nat) : descend p n ≤ n := by
  induction n with
  | zero => exact le_rfl
  | succ n ih =>
    simp only [descend]
    split <;> omega

theorem descend_passed {n k : Nat} (above : descend p n ≤ k) (below : k < n) : p k := by
  induction n with
  | zero => omega
  | succ n ih =>
    simp only [descend] at above
    split at above
    · rename_i holds
      by_cases last : k = n
      · exact last ▸ holds
      · exact ih above (by omega)
    · omega

theorem descend_stopped {n : Nat} (positive : 0 < descend p n) : ¬ p (descend p n - 1) := by
  induction n with
  | zero => simp [descend] at positive
  | succ n ih =>
    simp only [descend] at positive ⊢
    split
    · rename_i holds
      rw [if_pos holds] at positive
      exact ih positive
    · rename_i fails
      simpa using fails

end Descend

def tops (R : Finset Nat) : Finset Nat := R.filter fun k => k + 1 ∉ R

def count (R : Finset Nat) : Nat := (tops R).card

/-- How many runs end at or above a number and below a bound. -/
def between (R : Finset Nat) (k bound : Nat) : Nat := ((tops R).filter fun t => k ≤ t ∧ t < bound).card

def highest (m : Nat) (R : Finset Nat) : Finset Nat :=
  R.filter fun k => ((tops R).filter fun t => k ≤ t).card ≤ m

theorem mem_tops : k ∈ tops R ↔ k ∈ R ∧ k + 1 ∉ R := by
  simp [tops]

theorem mem_highest :
    k ∈ highest m R ↔ k ∈ R ∧ ((tops R).filter fun t => k ≤ t).card ≤ m := by
  simp [highest]

theorem highest_subset (m : Nat) (R : Finset Nat) : highest m R ⊆ R := Finset.filter_subset _ _

theorem highest_eq_self (few : count R ≤ m) : highest m R = R := by
  apply filter_true_of_mem
  intro k _
  exact (card_le_card (filter_subset _ _)).trans few

theorem mem_highest_iff_between (all : ∀ j ∈ R, j < bound) :
    k ∈ highest m R ↔ k ∈ R ∧ between R k bound ≤ m := by
  have same : (tops R).filter (fun t => k ≤ t) = (tops R).filter fun t => k ≤ t ∧ t < bound := by
    apply filter_congr
    intro t top
    have under := all t (mem_tops.mp top).1
    omega
  rw [mem_highest, same, between]

/-- One run of a set: all numbers from the first to the last belong to it, and
those next to it on either side do not. -/
structure IsRun (R : Finset Nat) (low high : Nat) : Prop where
  ordered : low ≤ high
  inside : ∀ k, low ≤ k → k ≤ high → k ∈ R
  above : high + 1 ∉ R
  below : 0 < low → low - 1 ∉ R

theorem IsRun.top_eq {t : Nat} (run : IsRun R low high) (top : t ∈ tops R) (lower : low ≤ t)
    (upper : t ≤ high) : t = high := by
  by_contra different
  exact (mem_tops.mp top).2 (run.inside (t + 1) (by omega) (by omega))

theorem IsRun.high_mem_tops (run : IsRun R low high) : high ∈ tops R :=
  mem_tops.mpr ⟨run.inside high run.ordered le_rfl, run.above⟩

/-- Below the bound, where nothing lies between the run and the bound, a number
of the run has one end above it. -/
theorem IsRun.between_inside (run : IsRun R low high) (lower : low ≤ k)
    (upper : k ≤ high) (under : high < bound) (gap : ∀ j, high < j → j < bound → j ∉ R) : between R k bound = 1 := by
  have only : (tops R).filter (fun t => k ≤ t ∧ t < bound) = {high} := by
    ext t
    simp only [mem_filter, mem_singleton]
    constructor
    · rintro ⟨top, above, below⟩
      by_cases past : high < t
      · exact absurd (mem_tops.mp top).1 (gap t past below)
      · exact run.top_eq top (by omega) (by omega)
    · intro same
      subst same
      exact ⟨run.high_mem_tops, upper, under⟩
  rw [between, only, card_singleton]

theorem IsRun.between_below (run : IsRun R low high) (lower : k < low)
    (under : high < bound) (gap : ∀ j, high < j → j < bound → j ∉ R) :
    between R k bound = between R k low + 1 := by
  have split : (tops R).filter (fun t => k ≤ t ∧ t < bound) =
      insert high ((tops R).filter fun t => k ≤ t ∧ t < low) := by
    ext t
    simp only [mem_filter, mem_insert]
    constructor
    · rintro ⟨top, above, below⟩
      by_cases past : high < t
      · exact absurd (mem_tops.mp top).1 (gap t past below)
      · by_cases inRun : low ≤ t
        · exact Or.inl (run.top_eq top inRun (by omega))
        · exact Or.inr ⟨top, above, by omega⟩
    · intro either
      have ordered := run.ordered
      rcases either with same | ⟨top, above, below⟩
      · subst same
        exact ⟨run.high_mem_tops, by omega, under⟩
      · exact ⟨top, above, by omega⟩
  have outside : high ∉ (tops R).filter fun t => k ≤ t ∧ t < low := by
    have ordered := run.ordered
    simp only [mem_filter, not_and]
    omega
  rw [between, split, card_insert_of_notMem outside, between]

theorem between_pos (member : k ∈ R) (below : k < bound) (free : bound - 1 ∉ R) :
    0 < between R k bound := by
  have some : k ∈ R.filter (· < bound) := mem_filter.mpr ⟨member, below⟩
  have last := mem_filter.mp (max'_mem _ ⟨k, some⟩)
  have above := le_max' _ k some
  apply card_pos.mpr
  refine ⟨(R.filter (· < bound)).max' ⟨k, some⟩, mem_filter.mpr ⟨mem_tops.mpr ⟨last.1, ?_⟩, above, last.2⟩⟩
  intro next
  by_cases inside : (R.filter (· < bound)).max' ⟨k, some⟩ + 1 < bound
  · have larger := le_max' (R.filter (· < bound)) _ (mem_filter.mpr ⟨next, inside⟩)
    omega
  · have edge : (R.filter (· < bound)).max' ⟨k, some⟩ = bound - 1 := by omega
    exact free (edge ▸ last.1)

theorem isRun_descend (member : high ∈ R) (above : high + 1 ∉ R) :
    IsRun R (descend (· ∈ R) high) high where
  ordered := descend_le _ _
  inside := by
    intro k lower upper
    by_cases last : k = high
    · exact last ▸ member
    · exact descend_passed (· ∈ R) lower (by omega)
  above := above
  below := descend_stopped (· ∈ R)

end Runs
