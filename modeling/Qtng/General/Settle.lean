import Mathlib.Logic.Function.Iterate
import Mathlib.Order.Nat

namespace Settle

open Function

variable {State : Type*} (f : State → State) (measure : State → Nat)

/-- Applies a function until nothing changes any more; the measure bounds the rounds. -/
def settle (a : State) : State := f^[measure a] a

variable {f measure} (descends : ∀ a, f a = a ∨ measure (f a) < measure a)

theorem iterate_of_fixed {a : State} (fixed : f a = a) (n : Nat) : f^[n] a = a := iterate_fixed fixed n

include descends

theorem iterate_fixed_of_le {a : State} {n : Nat} (enough : measure a ≤ n) : f (f^[n] a) = f^[n] a := by
  induction n generalizing a with
  | zero =>
    rcases descends a with fixed | less
    · exact fixed
    · omega
  | succ n ih =>
    rcases descends a with fixed | less
    · rw [iterate_of_fixed fixed]
      exact fixed
    · rw [iterate_succ_apply]
      exact ih (by omega)

theorem settle_fixed (a : State) : f (settle f measure a) = settle f measure a :=
  iterate_fixed_of_le descends (Nat.le_refl _)

theorem iterate_eq_settle {a : State} {n : Nat} (enough : measure a ≤ n) : f^[n] a = settle f measure a := by
  obtain ⟨more, rfl⟩ := Nat.exists_eq_add_of_le enough
  rw [Nat.add_comm, iterate_add_apply]
  exact iterate_of_fixed (settle_fixed descends a) more

/-- The first round makes no difference to where it ends. -/
theorem settle_apply (a : State) : settle f measure (f a) = settle f measure a := by
  have late : f^[max (measure (f a)) (measure a)] (f a) = f^[max (measure (f a)) (measure a) + 1] a :=
    (iterate_succ_apply f _ a).symm
  rw [← iterate_eq_settle descends (Nat.le_max_left (measure (f a)) (measure a)), late]
  exact iterate_eq_settle descends (by omega)

end Settle
