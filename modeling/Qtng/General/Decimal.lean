import Qtng.General.BigEndian

namespace Decimal

open BigEndian List

variable {n d : Nat} {c : UInt8}

def isDigit (c : UInt8) : Bool := 48 ≤ c && c ≤ 57

def digit (d : Nat) : UInt8 := UInt8.ofNat (48 + d)

def decimal (n : Nat) : Bytes := (Nat.toDigits 10 n).map (fun c => UInt8.ofNat c.toNat)

def value (digits : Bytes) : Nat := digits.foldl (fun n c => 10 * n + (c.toNat - 48)) 0

theorem decimal_of_lt (small : n < 10) : decimal n = [digit n] := by
  simp [decimal, Nat.toDigits_of_lt_base small, digit, Nat.toNat_digitChar_of_lt_ten small]

theorem decimal_of_le (large : 10 ≤ n) : decimal n = decimal (n / 10) ++ [digit (n % 10)] := by
  have last : n % 10 < 10 := Nat.mod_lt n (by decide)
  simp [decimal, Nat.toDigits_of_base_le (by decide) large, digit, Nat.toNat_digitChar_of_lt_ten last]

theorem value_concat (front : Bytes) (c : UInt8) : value (front ++ [c]) = 10 * value front + (c.toNat - 48) := by
  simp [value]

theorem value_le_append (front more : Bytes) : value front ≤ value (front ++ more) := by
  induction more using List.reverseRecOn with
  | nil => simp
  | append_singleton more c ih =>
    rw [← append_assoc, value_concat]
    omega

theorem toNat_digit (small : d < 10) : (digit d).toNat = 48 + d :=
  UInt8.toNat_ofNat_of_lt' (by show 48 + d < 256; omega)

theorem value_digit (small : d < 10) : value [digit d] = d := by
  simp [value, toNat_digit small]

@[simp]
theorem value_decimal (n : Nat) : value (decimal n) = n := by
  induction n using Nat.strongRecOn with
  | ind n ih =>
    by_cases small : n < 10
    · rw [decimal_of_lt small, value_digit small]
    · rw [decimal_of_le (by omega), value_concat, ih (n / 10) (by omega), toNat_digit (Nat.mod_lt n (by decide))]
      omega

theorem isDigit_iff : isDigit c = true ↔ 48 ≤ c.toNat ∧ c.toNat ≤ 57 := by
  simp [isDigit, UInt8.le_iff_toNat_le]

theorem isDigit_digit (small : d < 10) : isDigit (digit d) = true := by
  rw [isDigit_iff, toNat_digit small]
  omega

theorem isDigit_of_mem_decimal (member : c ∈ decimal n) : isDigit c = true := by
  induction n using Nat.strongRecOn with
  | ind n ih =>
    by_cases small : n < 10
    · rw [decimal_of_lt small, mem_singleton] at member
      rw [member]
      exact isDigit_digit small
    · rw [decimal_of_le (by omega)] at member
      rcases mem_append.mp member with front | last
      · exact ih (n / 10) (by omega) front
      · rw [mem_singleton.mp last]
        exact isDigit_digit (Nat.mod_lt n (by decide))

theorem decimal_ne_nil (n : Nat) : decimal n ≠ [] := by
  simp [decimal]

theorem head_decimal (positive : n ≠ 0) : (decimal n).head? ≠ some 48 := by
  induction n using Nat.strongRecOn with
  | ind n ih =>
    by_cases small : n < 10
    · rw [decimal_of_lt small]
      intro zero
      have same := congrArg UInt8.toNat (Option.some.inj zero)
      rw [toNat_digit small] at same
      simp at same
      omega
    · rw [decimal_of_le (by omega), head?_append_of_ne_nil _ (decimal_ne_nil _)]
      exact ih (n / 10) (by omega) (by omega)

theorem length_decimal_le {k : Nat} (positive : 0 < k) : (decimal n).length ≤ k ↔ n < 10 ^ k := by
  rw [decimal, length_map]
  exact Nat.length_toDigits_le_iff (by decide) positive

/-- Digits without a needless zero at the front are those of their number. -/
theorem decimal_value {digits : Bytes} (filled : digits ≠ []) (all : ∀ c ∈ digits, isDigit c = true)
    (lead : digits.head? ≠ some 48 ∨ digits.length = 1) : decimal (value digits) = digits := by
  induction digits using reverseRecOn with
  | nil => exact absurd rfl filled
  | append_singleton front c ih =>
    have last := isDigit_iff.mp (all c (by simp))
    have byte : digit (c.toNat - 48) = c := by
      apply UInt8.toNat_inj.mp
      rw [toNat_digit (by omega)]
      omega
    by_cases empty : front = []
    · subst empty
      have single : value ([] ++ [c]) = c.toNat - 48 := by simp [value]
      rw [single, decimal_of_lt (by omega), byte]
      rfl
    · have head : front.head? ≠ some 48 := by
        rcases lead with lead | short
        · rwa [head?_append_of_ne_nil _ empty] at lead
        · simp at short
          exact absurd short empty
      have fronts := ih empty (fun d member => all d (by simp [member])) (.inl head)
      have positive : value front ≠ 0 := by
        intro zero
        rw [zero, decimal_of_lt (by decide)] at fronts
        rw [← fronts] at head
        exact head rfl
      rw [value_concat, decimal_of_le (by omega)]
      have quotient : (10 * value front + (c.toNat - 48)) / 10 = value front := by omega
      have remainder : (10 * value front + (c.toNat - 48)) % 10 = c.toNat - 48 := by omega
      rw [quotient, remainder, fronts, byte]

end Decimal
