import Qtng.General.BigEndian

namespace Qtng

open BigEndian Option

def quicEncodeVarint (value : Nat) : Option Bytes :=
  if value ≤ 63 then some [UInt8.ofNat value]
  else if value ≤ 16383 then
    some [UInt8.ofNat (0x40 ||| ((value >>> 8) &&& 0x3f)), byteAt value 0]
  else if value ≤ 1073741823 then
    some [UInt8.ofNat (0x80 ||| ((value >>> 24) &&& 0x3f)), byteAt value 16, byteAt value 8, byteAt value 0]
  else if value > 4611686018427387903 then none
  else
    some [UInt8.ofNat (0xc0 ||| ((value >>> 56) &&& 0x3f)), byteAt value 48, byteAt value 40, byteAt value 32,
      byteAt value 24, byteAt value 16, byteAt value 8, byteAt value 0]

def quicDecodeVarint : Bytes → Option (Nat × Bytes)
  | [] => none
  | first :: rest =>
    let len := 1 <<< (first.toNat >>> 6)
    if rest.length + 1 < len then none
    else some (readOn (first.toNat &&& 0x3f) (rest.take (len - 1)), rest.drop (len - 1))

theorem leadByte_parts {kind top : Nat} (kindBound : kind < 4) (topBound : top < 64) :
    (UInt8.ofNat (64 * kind ||| top)).toNat >>> 6 = kind ∧ (UInt8.ofNat (64 * kind ||| top)).toNat &&& 0x3f = top := by
  have joined : 64 * kind ||| top = 64 * kind + top := (Nat.two_pow_add_eq_or_of_lt (i := 6) topBound kind).symm
  have whole : (UInt8.ofNat (64 * kind ||| top)).toNat = 64 * kind + top := by
    rw [joined, UInt8.toNat_ofNat_of_lt']
    simp only [UInt8.size]
    omega
  have mask : (64 * kind + top) &&& 0x3f = (64 * kind + top) % 64 := Nat.and_two_pow_sub_one_eq_mod _ 6
  rw [whole, mask, Nat.shiftRight_eq_div_pow]
  omega

theorem quicDecodeVarint_lead (kind : Nat) {top : Nat} (body rest : Bytes) (kindBound : kind < 4) (topBound : top < 64)
    (size : body.length + 1 = 1 <<< kind) :
    quicDecodeVarint (UInt8.ofNat (64 * kind ||| top) :: (body ++ rest)) = some (readOn top body, rest) := by
  obtain ⟨kindIs, topIs⟩ := leadByte_parts kindBound topBound
  have enough : ¬ (body ++ rest).length + 1 < 1 <<< kind := by
    rw [List.length_append]
    omega
  have count : 1 <<< kind - 1 = body.length := by omega
  simp only [quicDecodeVarint, kindIs, topIs, if_neg enough, count, List.take_left, List.drop_left]

theorem topBits {value shift : Nat} (bound : value >>> shift < 64) : (value >>> shift) &&& 0x3f = value >>> shift := by
  have mask : (value >>> shift) &&& 0x3f = value >>> shift % 64 := Nat.and_two_pow_sub_one_eq_mod _ 6
  rw [mask, Nat.mod_eq_of_lt bound]

theorem quicDecodeVarint_encode {value : Nat} {bytes : Bytes} (encoded : quicEncodeVarint value = some bytes)
    (rest : Bytes) : quicDecodeVarint (bytes ++ rest) = some (value, rest) := by
  have step := join_byteAt value
  unfold quicEncodeVarint at encoded
  split at encoded
  · rename_i small
    cases encoded
    have read := quicDecodeVarint_lead 0 [] rest (by decide) (show value < 64 by omega) rfl
    simpa using read
  split at encoded
  · rename_i small
    cases encoded
    have bound : value >>> 8 < 64 := by
      rw [Nat.shiftRight_eq_div_pow]
      omega
    have read := quicDecodeVarint_lead 1 [byteAt value 0] rest (by decide) bound rfl
    simpa [topBits bound, step 0] using read
  split at encoded
  · rename_i small
    cases encoded
    have bound : value >>> 24 < 64 := by
      rw [Nat.shiftRight_eq_div_pow]
      omega
    have read := quicDecodeVarint_lead 2 [byteAt value 16, byteAt value 8, byteAt value 0] rest (by decide) bound rfl
    simpa [topBits bound, step 0, step 8, step 16] using read
  split at encoded
  · simp at encoded
  · rename_i small
    cases encoded
    have bound : value >>> 56 < 64 := by
      rw [Nat.shiftRight_eq_div_pow]
      omega
    have read := quicDecodeVarint_lead 3
      [byteAt value 48, byteAt value 40, byteAt value 32, byteAt value 24, byteAt value 16, byteAt value 8,
        byteAt value 0] rest (by decide) bound rfl
    simpa [topBits bound, step 0, step 8, step 16, step 24, step 32, step 40, step 48] using read

theorem quicEncodeVarint_isSome_iff (value : Nat) : (quicEncodeVarint value).isSome ↔ value < 2 ^ 62 := by
  unfold quicEncodeVarint
  split
  · simp only [isSome_some, true_iff]
    omega
  split
  · simp only [isSome_some, true_iff]
    omega
  split
  · simp only [isSome_some, true_iff]
    omega
  split
  · simp only [isSome_none, Bool.false_eq_true, false_iff]
    omega
  · simp only [isSome_some, true_iff]
    omega

end Qtng
