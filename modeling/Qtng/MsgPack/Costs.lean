import Qtng.MsgPack.Scalars

namespace Qtng.MsgPack

open BigEndian Reader List

section Numbers

variable {byte : UInt8} {i : Int} {width : Nat}

theorem readByte_eq_ok {bytes rest : Bytes} :
    readByte bytes = .ok (byte, rest) ↔ bytes = byte :: rest := by
  cases bytes <;> simp [readByte]

theorem costs_code {α : Type} {next : UInt8 → Read α} {a : α} {n : Nat} (costs : ∀ p, Costs (next p) a (n - 1)) :
    Costs (readByte >>= next) a n := by
  intro text rest read
  obtain ⟨p, mid, first, body⟩ := bind_eq_ok.mp read
  obtain rfl := readByte_eq_ok.mp first
  have behind := costs p _ _ body
  rw [length_cons]
  omega

theorem load_range (bytes : Bytes) : 0 ≤ load bytes ∧ load bytes < 2 ^ (8 * bytes.length) := by
  have bound := readOn_lt bytes 0
  rw [Nat.zero_add, Nat.one_mul] at bound
  exact ⟨Int.natCast_nonneg _, by unfold load; exact_mod_cast bound⟩

theorem loadSigned_range (bytes : Bytes) :
    -(2 ^ (8 * bytes.length) / 2) ≤ loadSigned bytes ∧ loadSigned bytes < (2 ^ (8 * bytes.length) + 1) / 2 := by
  have positive : 0 < 2 ^ (8 * bytes.length) := by positivity
  have least := @Int.le_bmod (load bytes) _ positive
  have greatest := @Int.bmod_lt (load bytes) _ positive
  push_cast at least greatest
  exact ⟨least, greatest⟩

theorem length_packed_le (i : Int) : (packed i).length ≤ 9 := by
  unfold packed
  split_ifs <;> simp

variable (known : width ∈ [1, 2, 4, 8])
include known

theorem length_packed_of_width
    (least : -(2 ^ (8 * width) / 2) ≤ i) (small : i < 2 ^ (8 * width)) : (packed i).length - 1 ≤ width := by
  simp only [mem_cons, not_mem_nil, or_false] at known
  unfold packed
  rcases known with rfl | rfl | rfl | rfl <;> split_ifs <;> first | omega | simp

theorem costs_form {next : Bytes → Read Int}
    (value : ∀ bytes : Bytes, bytes.length = width → next bytes = corrupt ∨
      ∃ j, next bytes = pure j ∧ -(2 ^ (8 * width) / 2) ≤ j ∧ j < 2 ^ (8 * width)) (i : Int) :
    Costs (readRawBytes width >>= next) i ((packed i).length - 1) := by
  intro text rest read
  obtain ⟨front, mid, taken, done⟩ := bind_eq_ok.mp read
  obtain ⟨rfl, wide⟩ := take_eq_ok.mp taken
  rcases value front wide with refused | ⟨j, given, least, small⟩
  · rw [refused] at done
    cases done
  · rw [given] at done
    cases done
    have bound := length_packed_of_width known least small
    rw [length_append]
    omega

theorem costs_load (i : Int) :
    Costs (do return load (← readRawBytes width) : Read Int) i ((packed i).length - 1) := by
  refine costs_form known (fun bytes wide => .inr ⟨load bytes, rfl, ?_⟩) i
  obtain ⟨natural, small⟩ := load_range bytes
  rw [wide] at small
  exact ⟨by omega, small⟩

theorem costs_loadSigned (i : Int) :
    Costs (do return loadSigned (← readRawBytes width) : Read Int) i ((packed i).length - 1) := by
  refine costs_form known (fun bytes wide => .inr ⟨loadSigned bytes, rfl, ?_⟩) i
  obtain ⟨least, small⟩ := loadSigned_range bytes
  rw [wide] at least small
  exact ⟨least, by omega⟩

theorem costs_loadNatural (i : Int) :
    Costs (readRawBytes width >>= loadNatural) i ((packed i).length - 1) := by
  refine costs_form known (fun bytes wide => ?_) i
  obtain ⟨least, small⟩ := loadSigned_range bytes
  rw [wide] at least small
  unfold loadNatural
  split_ifs
  · exact .inl rfl
  · exact .inr ⟨loadSigned bytes, rfl, least, by omega⟩

omit known

theorem costs_single {j : Int} (least : -32 ≤ j) (small : j < 2 ^ 7) :
    Costs (pure j : Read Int) i ((packed i).length - 1) := by
  intro text rest read
  cases read
  have single : (packed i).length ≤ 1 := by
    unfold packed
    split_ifs <;> first | omega | simp
  omega

theorem load_single (byte : UInt8) : load [byte] = byte.toNat := by simp [load]

theorem load_low (low : byte ≤ 0x7f) : -32 ≤ load [byte] ∧ load [byte] < 2 ^ 7 := by
  have small : byte.toNat ≤ 127 := UInt8.le_iff_toNat_le.mp low
  rw [load_single]
  omega

theorem loadSigned_single (high : 0xe0 ≤ byte) : -32 ≤ loadSigned [byte] ∧ loadSigned [byte] < 2 ^ 7 := by
  have least : 224 ≤ byte.toNat := UInt8.le_iff_toNat_le.mp high
  have bound := byte.toNat_lt
  have value : loadSigned [byte] = (byte.toNat : Int) - 256 := by
    rw [loadSigned, load_single]
    change (byte.toNat : Int).bmod 256 = _
    rw [Int.bmod_def]
    split_ifs <;> omega
  omega

theorem costs_unpackLonglong (i : Int) : Costs unpackLonglong i (packed i).length := by
  refine costs_code fun p => .ite (fun low => costs_single (load_low low).1 (load_low low).2) fun _ => ?_
  refine .ite (fun high => costs_single (loadSigned_single high).1 (loadSigned_single high).2) fun _ => ?_
  refine .ite (fun _ => costs_load (by decide) i) fun _ => .ite (fun _ => costs_loadSigned (by decide) i) fun _ => ?_
  refine .ite (fun _ => costs_load (by decide) i) fun _ => .ite (fun _ => costs_loadSigned (by decide) i) fun _ => ?_
  refine .ite (fun _ => costs_load (by decide) i) fun _ => .ite (fun _ => costs_loadSigned (by decide) i) fun _ => ?_
  refine .ite (fun _ => costs_form (by decide) (fun bytes wide => ?_) i) fun _ => ?_
  · obtain ⟨natural, small⟩ := load_range bytes
    rw [wide] at small
    dsimp only
    split_ifs
    · exact .inl rfl
    · exact .inr ⟨load bytes, rfl, by omega, small⟩
  · exact .ite (fun _ => costs_loadSigned (by decide) i) fun _ => costs_fail _ i _

theorem costs_unpackUlonglong (i : Int) : Costs unpackUlonglong i (packed i).length := by
  refine costs_code fun p => .ite (fun low => costs_single (load_low low).1 (load_low low).2) fun _ => ?_
  refine .ite (fun _ => costs_fail _ i _) fun _ => ?_
  refine .ite (fun _ => costs_load (by decide) i) fun _ => .ite (fun _ => costs_loadNatural (by decide) i) fun _ => ?_
  refine .ite (fun _ => costs_load (by decide) i) fun _ => .ite (fun _ => costs_loadNatural (by decide) i) fun _ => ?_
  refine .ite (fun _ => costs_load (by decide) i) fun _ => .ite (fun _ => costs_loadNatural (by decide) i) fun _ => ?_
  refine .ite (fun _ => costs_load (by decide) i) fun _ => .ite (fun _ => costs_loadNatural (by decide) i) fun _ => ?_
  exact costs_fail _ i _

theorem costs_within {r : Read Int} {t : IntType} {n : Nat} (costs : Costs r i n) :
    Costs (r >>= within t) i n := by
  intro text rest read
  obtain ⟨j, mid, first, checked⟩ := bind_eq_ok.mp read
  unfold within at checked
  split_ifs at checked
  · cases checked
    exact costs text rest first
  · cases checked

theorem costs_readInt_packed (target : IntType) (i : Int) : Costs (readInt target) i (packed i).length := by
  cases target with
  | u64 => exact costs_unpackUlonglong i
  | i64 => exact costs_unpackLonglong i
  | u8 | u16 | u32 => exact costs_within (costs_unpackUlonglong i)
  | i8 | i16 | i32 => exact costs_within (costs_unpackLonglong i)

theorem costs_readInt {source : IntType} (target : IntType) (holds : source.Holds i) :
    Costs (readInt target) i (writeInt source i).length := by
  rw [writeInt_eq holds]
  exact costs_readInt_packed target i

theorem writeInt_ne_nil {source : IntType} (holds : source.Holds i) : writeInt source i ≠ [] := by
  rw [writeInt_eq holds, ← length_pos_iff]
  unfold packed
  split_ifs <;> simp

end Numbers

section Texts

variable {len : Nat} {text rest : Bytes}

theorem costs_readOn {width n : Nat} (bound : len < 2 ^ (8 * width) → n ≤ width) :
    Costs (do return readOn 0 (← readRawBytes width) : Read Nat) len n := by
  intro text rest read
  obtain ⟨front, mid, taken, done⟩ := bind_eq_ok.mp read
  obtain ⟨rfl, rfl⟩ := take_eq_ok.mp taken
  cases done
  have small := readOn_lt front 0
  rw [Nat.zero_add, Nat.one_mul] at small
  have enough := bound small
  rw [length_append]
  omega

theorem length_write_le (form : Lengths) (len : Nat) :
    0 < (form.write len).length ∧ (form.write len).length ≤ 5 ∧ (len < 2 ^ 16 → (form.write len).length ≤ 3) ∧
      (len < form.small → (form.write len).length = 1) := by
  unfold Lengths.write Lengths.writeLong
  cases form.one <;> dsimp only <;> split_ifs <;> simp <;> omega

theorem length_write_le_two {form : Lengths} {code : UInt8} (single : form.one = some code)
    (small : len < 2 ^ 8) : (form.write len).length ≤ 2 := by
  unfold Lengths.write
  rw [single]
  dsimp only
  split_ifs
  · simp
  · simp
  · omega

theorem write_ne_nil (form : Lengths) (len : Nat) : form.write len ≠ [] :=
  length_pos_iff.mp (length_write_le form len).1

theorem length_write_mono (form : Lengths) {shorter longer : Nat} (le : shorter ≤ longer) :
    (form.write shorter).length ≤ (form.write longer).length := by
  unfold Lengths.write Lengths.writeLong
  cases form.one <;> dsimp only <;> split_ifs <;> first | omega | simp

theorem costs_lengths (form : Lengths) (len : Nat) : Costs form.read len (form.write len).length := by
  obtain ⟨-, five, three, fixed⟩ := length_write_le form len
  refine costs_code fun p => .ite (fun fix => ?_) fun _ => .ite (fun one => costs_readOn fun small => ?_) fun _ => ?_
  · intro text rest read
    cases read
    have value := UInt8.toNat_sub_of_le p form.fix fix.1
    have above := UInt8.le_iff_toNat_le.mp fix.1
    have single := fixed (by omega)
    omega
  · have two := length_write_le_two one small
    omega
  refine .ite (fun _ => costs_readOn fun small => ?_) fun _ => .ite (fun _ => costs_readOn fun _ => ?_) fun _ => ?_
  · have bound := three small
    omega
  · omega
  · exact costs_fail _ len _

theorem checkLength_eq_ok :
    checkLength len text = .ok ((), rest) ↔ rest = text ∧ len < 2 ^ 31 ∧ len ≤ text.length := by
  unfold checkLength
  split_ifs with fits
  · constructor
    · intro same
      cases same
      exact ⟨rfl, fits⟩
    · rintro ⟨rfl, -⟩
      rfl
  · constructor
    · intro same
      cases same
    · rintro ⟨-, inside⟩
      exact absurd inside fits

theorem readPayload_eq_ok {payload : Bytes} :
    readPayload len text = .ok (payload, rest) ↔ text = payload ++ rest ∧ payload.length = len ∧ len < 2 ^ 31 := by
  constructor
  · intro read
    obtain ⟨⟨⟩, mid, checked, taken⟩ := bind_eq_ok.mp read
    obtain ⟨rfl, small, -⟩ := checkLength_eq_ok.mp checked
    obtain ⟨same, length⟩ := take_eq_ok.mp taken
    exact ⟨same, length, small⟩
  · rintro ⟨rfl, rfl, small⟩
    exact (meets_readPayload small).ok rest

theorem costs_payload {r : Read Nat} {form : Lengths} (costs : ∀ len, Costs r len (form.write len).length) (s : Bytes) :
    Costs (r >>= readPayload) s (form.write s.length ++ s).length := by
  intro text rest read
  obtain ⟨len, mid, header, payload⟩ := bind_eq_ok.mp read
  obtain ⟨rfl, rfl, -⟩ := readPayload_eq_ok.mp payload
  have before := costs _ _ _ header
  simp only [length_append] at before ⊢
  omega

theorem costs_readString {s : Bytes} (short : s.length < 2 ^ 31) : Costs readString s (writeString s).length := by
  have same : s.length % 2 ^ 32 = s.length := Nat.mod_eq_of_lt (by omega)
  rw [writeString, same, take_length]
  exact costs_payload (costs_lengths .str) s

theorem costs_readBytes (s : Bytes) : Costs readBytes s (Lengths.bin.write s.length ++ s).length :=
  costs_payload (costs_lengths .bin) s

theorem length_writeExtHeader_le (len : Nat) (type : UInt8) :
    (writeExtHeader len type).length ≤ 6 ∧ (len < 2 ^ 16 → (writeExtHeader len type).length ≤ 4) ∧
      (len < 2 ^ 8 → (writeExtHeader len type).length ≤ 3) := by
  unfold writeExtHeader
  split_ifs <;> simp <;> omega

theorem costs_readExtLength (p : UInt8) (len : Nat) (type : UInt8) :
    Costs (readExtLength p) len ((writeExtHeader len type).length - 2) := by
  obtain ⟨six, four, three⟩ := length_writeExtHeader_le len type
  refine .ite (fun fixed => ?_) fun _ => .ite (fun _ => costs_readOn fun small => ?_) fun _ => ?_
  · intro text rest read
    cases read
    have value := UInt8.toNat_sub_of_le p 0xd4 fixed.1
    have greatest : p.toNat ≤ 216 := UInt8.le_iff_toNat_le.mp fixed.2
    have five : ∀ k < 5, (writeExtHeader (1 <<< k) type).length = 2 := by
      intro k small
      interval_cases k <;> rfl
    have small : p.toNat - (0xd4 : UInt8).toNat < 5 := by
      change p.toNat - 212 < 5
      omega
    rw [value, five _ small]
    omega
  · have bound := three small
    omega
  refine .ite (fun _ => costs_readOn fun small => ?_) fun _ => .ite (fun _ => costs_readOn fun _ => ?_) fun _ => ?_
  · have bound := four small
    omega
  · omega
  · exact costs_fail _ len _

theorem readExt_eq_ok {ext : MsgPackExtData} (read : readExt text = .ok (ext, rest)) :
    ext.payload.length < 2 ^ 31 ∧
      (writeExtHeader ext.payload.length ext.type).length + ext.payload.length + rest.length ≤ text.length := by
  rw [readExt_eq] at read
  obtain ⟨p, afterCode, first, read⟩ := bind_eq_ok.mp read
  obtain ⟨len, afterLength, length, read⟩ := bind_eq_ok.mp read
  obtain ⟨type, afterType, second, read⟩ := bind_eq_ok.mp read
  obtain ⟨payload, afterPayload, body, done⟩ := bind_eq_ok.mp read
  cases done
  obtain rfl := readByte_eq_ok.mp first
  obtain rfl := readByte_eq_ok.mp second
  obtain ⟨rfl, rfl, small⟩ := readPayload_eq_ok.mp body
  have header := costs_readExtLength _ _ type _ _ length
  simp only [length_cons, length_append] at header ⊢
  exact ⟨small, by omega⟩

theorem costs_readExt (ext : MsgPackExtData) : Costs readExt ext (writeExt ext).length := by
  intro text rest read
  obtain ⟨small, costs⟩ := readExt_eq_ok read
  have same : ext.payload.length % 2 ^ 32 = ext.payload.length := Nat.mod_eq_of_lt (by omega)
  rwa [writeExt, same, length_append]

theorem costs_readBool (b : Bool) : Costs readBool b (writeBool b).length := by
  intro text rest read
  obtain ⟨p, mid, first, body⟩ := bind_eq_ok.mp read
  obtain rfl := readByte_eq_ok.mp first
  split_ifs at body <;> cases body <;> simp [writeBool] <;> omega

end Texts

end Qtng.MsgPack
