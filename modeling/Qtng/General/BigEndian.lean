import Mathlib

namespace BigEndian

abbrev Bytes := List UInt8

def byteAt (value shift : Nat) : UInt8 := UInt8.ofNat ((value >>> shift) &&& 0xff)

def readOn (start : Nat) (bytes : Bytes) : Nat :=
  bytes.foldl (fun value byte => (value <<< 8) ||| byte.toNat) start

@[simp]
theorem readOn_nil (start : Nat) : readOn start [] = start := rfl

@[simp]
theorem readOn_cons (start : Nat) (byte : UInt8) (rest : Bytes) :
    readOn start (byte :: rest) = readOn ((start <<< 8) ||| byte.toNat) rest := rfl

theorem toNat_byteAt (value shift : Nat) : (byteAt value shift).toNat = value >>> shift % 256 := by
  have mask : (value >>> shift) &&& 0xff = value >>> shift % 256 := Nat.and_two_pow_sub_one_eq_mod _ 8
  have small : value >>> shift % 256 < 256 := Nat.mod_lt _ (by decide)
  rw [byteAt, mask, UInt8.toNat_ofNat_of_lt' small]

theorem join_byteAt (value shift : Nat) :
    (value >>> (shift + 8)) <<< 8 ||| (byteAt value shift).toNat = value >>> shift := by
  have small : (byteAt value shift).toNat < 2 ^ 8 := (byteAt value shift).toNat_lt
  rw [← Nat.shiftLeft_add_eq_or_of_lt small, toNat_byteAt, Nat.shiftRight_add, Nat.shiftLeft_eq,
    Nat.shiftRight_eq_div_pow (value >>> shift) 8]
  omega

theorem shiftRight_eq_zero {value width : Nat} (small : value < 2 ^ width) : value >>> width = 0 := by
  rw [Nat.shiftRight_eq_div_pow]
  exact Nat.div_eq_of_lt small

def word16 (value : UInt16) : Bytes := [byteAt value.toNat 8, byteAt value.toNat 0]

def readWord16 (bytes : Bytes) : UInt16 := UInt16.ofNat (readOn 0 bytes)

@[simp]
theorem length_word16 (value : UInt16) : (word16 value).length = 2 := rfl

@[simp]
theorem readWord16_word16 (value : UInt16) : readWord16 (word16 value) = value := by
  have whole : readOn 0 (word16 value) = value.toNat := by
    simp only [word16, readOn_cons, readOn_nil]
    nth_rewrite 1 [← shiftRight_eq_zero value.toNat_lt]
    simp [join_byteAt]
  rw [readWord16, whole, UInt16.ofNat_toNat]

def word32 (value : UInt32) : Bytes :=
  [byteAt value.toNat 24, byteAt value.toNat 16, byteAt value.toNat 8, byteAt value.toNat 0]

def readWord32 (bytes : Bytes) : UInt32 := UInt32.ofNat (readOn 0 bytes)

@[simp]
theorem length_word32 (value : UInt32) : (word32 value).length = 4 := rfl

@[simp]
theorem readWord32_word32 (value : UInt32) : readWord32 (word32 value) = value := by
  have whole : readOn 0 (word32 value) = value.toNat := by
    simp only [word32, readOn_cons, readOn_nil]
    nth_rewrite 1 [← shiftRight_eq_zero value.toNat_lt]
    simp [join_byteAt]
  rw [readWord32, whole, UInt32.ofNat_toNat]

def word64 (value : UInt64) : Bytes :=
  [byteAt value.toNat 56, byteAt value.toNat 48, byteAt value.toNat 40, byteAt value.toNat 32,
    byteAt value.toNat 24, byteAt value.toNat 16, byteAt value.toNat 8, byteAt value.toNat 0]

def readWord64 (bytes : Bytes) : UInt64 := UInt64.ofNat (readOn 0 bytes)

@[simp]
theorem length_word64 (value : UInt64) : (word64 value).length = 8 := rfl

@[simp]
theorem readWord64_word64 (value : UInt64) : readWord64 (word64 value) = value := by
  have whole : readOn 0 (word64 value) = value.toNat := by
    simp only [word64, readOn_cons, readOn_nil]
    nth_rewrite 1 [← shiftRight_eq_zero value.toNat_lt]
    simp [join_byteAt]
  rw [readWord64, whole, UInt64.ofNat_toNat]

def bytesOf : Nat → Nat → Bytes
  | 0, _ => []
  | width + 1, value => byteAt value (8 * width) :: bytesOf width value

@[simp]
theorem length_bytesOf (width value : Nat) : (bytesOf width value).length = width := by
  induction width with
  | zero => rfl
  | succ width ih => simp [bytesOf, ih]

theorem readOn_bytesOf (width value : Nat) : readOn (value >>> (8 * width)) (bytesOf width value) = value := by
  induction width with
  | zero => simp [bytesOf]
  | succ width ih =>
    rw [bytesOf, readOn_cons, Nat.mul_succ, join_byteAt]
    exact ih

theorem readOn_bytesOf_of_lt {width value : Nat} (small : value < 2 ^ (8 * width)) :
    readOn 0 (bytesOf width value) = value := by
  have whole := readOn_bytesOf width value
  rwa [shiftRight_eq_zero small] at whole

theorem readOn_lt (bytes : Bytes) (start : Nat) : readOn start bytes < (start + 1) * 2 ^ (8 * bytes.length) := by
  induction bytes generalizing start with
  | nil => simp
  | cons byte bytes ih =>
    have small : byte.toNat < 2 ^ 8 := byte.toNat_lt
    have joined : (start <<< 8) ||| byte.toNat = start * 2 ^ 8 + byte.toNat := by
      rw [← Nat.shiftLeft_add_eq_or_of_lt small, Nat.shiftLeft_eq]
    rw [readOn_cons, joined]
    calc readOn (start * 2 ^ 8 + byte.toNat) bytes
        < (start * 2 ^ 8 + byte.toNat + 1) * 2 ^ (8 * bytes.length) := ih _
      _ ≤ ((start + 1) * 2 ^ 8) * 2 ^ (8 * bytes.length) := Nat.mul_le_mul_right _ (by omega)
      _ = (start + 1) * 2 ^ (8 * (byte :: bytes).length) := by
        rw [List.length_cons, Nat.mul_succ, Nat.pow_add]
        ring

end BigEndian
