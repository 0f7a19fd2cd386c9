import Mathlib.Data.Int.ModEq
import Mathlib.Logic.Function.Basic

namespace RingMemory

open List Function

variable {α : Type*}

/-- The cell that a virtual offset stands for in a memory of the given number of cells. -/
def cell (size : Nat) (offset : Int) : Nat := (offset % size).toNat

/-- Copies the elements one after the other to the cells behind consecutive offsets. -/
def write (size : Nat) (cells : Nat → α) (offset : Int) : List α → Nat → α
  | [] => cells
  | a :: rest => write size (Function.update cells (cell size offset) a) (offset + 1) rest

def read (size : Nat) (cells : Nat → α) (offset : Int) (count : Nat) : List α :=
  (List.range count).map fun i : Nat => cells (cell size (offset + i))

variable {size : Nat} {cells : Nat → α} {offset : Int}

theorem cell_add_size (size : Nat) (offset : Int) : cell size (offset + size) = cell size offset := by
  rw [cell, Int.add_emod_right, cell]

theorem cell_ne {a b : Int} (after : a < b) (near : b - a < size) : cell size a ≠ cell size b := by
  intro same
  have low := Int.emod_nonneg a (b := size) (by omega)
  have high := Int.emod_nonneg b (b := size) (by omega)
  have congruent : a ≡ b [ZMOD size] := by
    unfold cell at same
    show a % size = b % size
    omega
  have round := Int.le_of_dvd (by omega) congruent.dvd
  omega

theorem write_of_ne {items : List α} {c : Nat} (apart : ∀ i < items.length, cell size (offset + i) ≠ c) :
    write size cells offset items c = cells c := by
  induction items generalizing cells offset with
  | nil => rfl
  | cons a rest ih =>
    have first : cell size offset ≠ c := by simpa using apart 0 (by simp)
    rw [write, ih, update_of_ne first.symm]
    intro i bound
    have next := apart (i + 1) (by simpa using bound)
    rwa [show offset + 1 + (i : Int) = offset + (i + 1 : Nat) by omega]

/-- A list of at most one round is found again where it was written. -/
theorem read_write {items : List α} (fits : items.length ≤ size) :
    read size (write size cells offset items) offset items.length = items := by
  induction items generalizing cells offset with
  | nil => rfl
  | cons a rest ih =>
    rw [length_cons] at fits
    rw [read, length_cons, range_succ_eq_map, map_cons, map_map, write]
    have first : write size (update cells (cell size offset) a) (offset + 1) rest
        (cell size (offset + (0 : Nat))) = a := by
      rw [write_of_ne, Int.natCast_zero, add_zero, update_self]
      intro i bound
      exact (cell_ne (by omega) (by omega)).symm
    have others : (fun i : Nat => write size (update cells (cell size offset) a) (offset + 1) rest
        (cell size (offset + i))) ∘ Nat.succ = fun i : Nat =>
          write size (update cells (cell size offset) a) (offset + 1) rest (cell size (offset + 1 + i)) := by
      funext i
      show write _ _ _ _ (cell size (offset + (i + 1 : Nat))) = _
      rw [show offset + 1 + (i : Int) = offset + (i + 1 : Nat) by omega]
    rw [first, others]
    exact congrArg (a :: ·) (ih (by omega))

theorem read_write_of_ne {items : List α} {start : Int} {count : Nat}
    (apart : ∀ i < items.length, ∀ j < count, cell size (offset + i) ≠ cell size (start + j)) :
    read size (write size cells offset items) start count = read size cells start count := by
  refine map_congr_left fun j member => write_of_ne fun i bound => ?_
  exact apart i bound j (mem_range.mp member)

theorem length_read (size : Nat) (cells : Nat → α) (offset : Int) (count : Nat) :
    (read size cells offset count).length = count := by
  simp [read]

theorem read_add (size : Nat) (cells : Nat → α) (offset : Int) (m n : Nat) :
    read size cells offset (m + n) = read size cells offset m ++ read size cells (offset + m) n := by
  rw [read, range_add, map_append, map_map]
  refine congrArg _ (map_congr_left fun i _ => ?_)
  simp [add_assoc]

end RingMemory
