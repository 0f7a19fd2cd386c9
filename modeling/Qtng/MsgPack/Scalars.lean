import Qtng.MsgPack.Stream

namespace Qtng.MsgPack

open BigEndian Reader List IntType

section Raw

variable {text : Bytes}

theorem meets_readByte (byte : UInt8) : Meets readByte [byte] (.ok byte) := by
  refine ⟨fun _ => rfl, fun part start proper => ⟨.readPastEnd, ?_⟩⟩
  rcases prefix_cons_iff.mp start with rfl | ⟨rest, rfl, none⟩
  · rfl
  · exact absurd (by rw [prefix_nil.mp none]) proper

theorem meets_readRawBytes {len : Nat} (fits : text.length = len) :
    Meets (readRawBytes len) text (.ok text) := by
  subst fits
  exact meets_take Status.readPastEnd text

theorem meets_first {α : Type} {next : UInt8 → Read α} {code : UInt8} {outcome : Except Status α}
    (rest : Meets (next code) text outcome) : Meets (readByte >>= next) (code :: text) outcome :=
  (meets_readByte code).bind rest

theorem meets_readPayload (short : text.length < 2 ^ 31) :
    Meets (readPayload text.length) text (.ok text) := by
  refine ⟨fun rest => ?_, fun part start proper => ⟨.readCorruptData, ?_⟩⟩
  · have fits : checkLength text.length (text ++ rest) = .ok ((), text ++ rest) := if_pos ⟨short, by simp⟩
    rw [readPayload, bind_ok fits]
    exact (meets_readRawBytes rfl).whole rest
  · have short : ¬ text.length ≤ part.length := fun enough => proper (start.eq_of_length_le enough)
    exact bind_error (if_neg (fun fits => short fits.2))

end Raw

section Numbers

variable {i : Int} {width : Nat}

@[simp]
theorem length_store (width : Nat) (i : Int) : (store width i).length = width := length_bytesOf _ _

theorem load_store_mod (width : Nat) (i : Int) : load (store width i) = i % 2 ^ (8 * width) := by
  have positive : (0 : Int) < 2 ^ (8 * width) := by positivity
  have natural := Int.emod_nonneg i positive.ne'
  have small : (i % 2 ^ (8 * width)).toNat < 2 ^ (8 * width) := by
    have bound := Int.emod_lt_of_pos i positive
    zify
    rwa [Int.toNat_of_nonneg natural]
  rw [load, store, readOn_bytesOf_of_lt small, Int.toNat_of_nonneg natural]

theorem load_store (natural : 0 ≤ i) (small : i < 2 ^ (8 * width)) :
    load (store width i) = i := by
  rw [load_store_mod, Int.emod_eq_of_lt natural small]

theorem loadSigned_store (least : -2 ^ (8 * width - 1) ≤ i) (small : i < 2 ^ (8 * width - 1))
    (wide : 0 < width) : loadSigned (store width i) = i := by
  obtain ⟨bits, same⟩ : ∃ bits, 8 * width = bits + 1 := ⟨8 * width - 1, by omega⟩
  rw [same, Nat.add_sub_cancel] at least small
  rw [loadSigned, load_store_mod, length_store, same]
  have cast : ((2 ^ (bits + 1) : Nat) : Int) = 2 ^ (bits + 1) := by push_cast; rfl
  rw [← cast, Int.emod_bmod, Int.bmod_eq_of_le]
  · rw [cast, pow_succ]
    omega
  · rw [cast, pow_succ]
    omega

theorem store_one (i : Int) : ∃ byte : UInt8, store 1 i = [byte] ∧ (byte.toNat : Int) = i % 256 := by
  refine ⟨byteAt (i % 2 ^ 8).toNat 0, rfl, ?_⟩
  rw [toNat_byteAt, Nat.shiftRight_zero]
  omega

def packed (i : Int) : Bytes :=
  if 0 ≤ i then
    if i < 2 ^ 7 then store 1 i
    else if i < 2 ^ 8 then 0xcc :: store 1 i
    else if i < 2 ^ 16 then 0xcd :: store 2 i
    else if i < 2 ^ 32 then 0xce :: store 4 i
    else 0xcf :: store 8 i
  else if -32 ≤ i then store 1 i
  else if -2 ^ 7 ≤ i then 0xd0 :: store 1 i
  else if -2 ^ 15 ≤ i then 0xd1 :: store 2 i
  else if -2 ^ 31 ≤ i then 0xd2 :: store 4 i
  else 0xd3 :: store 8 i

theorem writeInt_eq {t : IntType} (holds : t.Holds i) : writeInt t i = packed i := by
  have u8 : 0 ≤ i → i ≤ 2 ^ 8 - 1 → writeU8 i = packed i := by
    intro natural small
    unfold writeU8 packed
    split_ifs <;> first | rfl | omega
  have u16 : 0 ≤ i → i ≤ 2 ^ 16 - 1 → writeU16 i = packed i := by
    intro natural small
    unfold writeU16
    split_ifs with smaller
    · exact u8 natural smaller
    · unfold packed
      split_ifs <;> first | rfl | omega
  have u32 : 0 ≤ i → i ≤ 2 ^ 32 - 1 → writeU32 i = packed i := by
    intro natural small
    unfold writeU32
    split_ifs with smaller
    · exact u16 natural smaller
    · unfold packed
      split_ifs <;> first | rfl | omega
  have u64 : 0 ≤ i → writeU64 i = packed i := by
    intro natural
    unfold writeU64
    split_ifs with smaller
    · exact u32 natural smaller
    · unfold packed
      split_ifs <;> first | rfl | omega
  have i8 : -2 ^ 7 ≤ i → i ≤ 2 ^ 7 - 1 → writeI8 i = packed i := by
    intro least small
    unfold writeI8 packed
    split_ifs <;> first | rfl | omega
  have i16 : -2 ^ 15 ≤ i → i ≤ 2 ^ 15 - 1 → writeI16 i = packed i := by
    intro least small
    unfold writeI16
    split_ifs with smaller
    · exact i8 smaller.1 smaller.2
    all_goals
      unfold packed
      split_ifs <;> first | rfl | omega
  have i32 : -2 ^ 31 ≤ i → i ≤ 2 ^ 31 - 1 → writeI32 i = packed i := by
    intro least small
    unfold writeI32
    split_ifs with smaller
    · exact i16 smaller.1 smaller.2
    all_goals
      unfold packed
      split_ifs <;> first | rfl | omega
  have i64 : writeI64 i = packed i := by
    unfold writeI64
    split_ifs with smaller
    · exact i32 smaller.1 smaller.2
    all_goals
      unfold packed
      split_ifs <;> first | rfl | omega
  cases t with
  | u8 => exact u8 holds.1 holds.2
  | u16 => exact u16 holds.1 holds.2
  | u32 => exact u32 holds.1 holds.2
  | u64 => exact u64 holds.1
  | i8 => exact i8 holds.1 holds.2
  | i16 => exact i16 holds.1 holds.2
  | i32 => exact i32 holds.1 holds.2
  | i64 => exact i64

theorem meets_load (natural : 0 ≤ i) (small : i < 2 ^ (8 * width)) :
    Meets (do return load (← readRawBytes width) : Read Int) (store width i) (.ok i) := by
  have read := (meets_readRawBytes (length_store width i)).map load
  rwa [load_store natural small] at read

theorem meets_loadSigned (least : -2 ^ (8 * width - 1) ≤ i) (small : i < 2 ^ (8 * width - 1))
    (wide : 0 < width) : Meets (do return loadSigned (← readRawBytes width) : Read Int) (store width i) (.ok i) := by
  have read := (meets_readRawBytes (length_store width i)).map loadSigned
  rwa [loadSigned_store least small wide] at read

theorem packed_small (natural : 0 ≤ i) (small : i < 2 ^ 7) :
    ∃ byte : UInt8, packed i = [byte] ∧ byte ≤ 0x7f ∧ load [byte] = i := by
  obtain ⟨byte, text, same⟩ := store_one i
  refine ⟨byte, by rw [packed, if_pos natural, if_pos small, text], ?_, text ▸ load_store natural (by omega)⟩
  rw [UInt8.le_iff_toNat_le]
  change byte.toNat ≤ 127
  omega

theorem packed_negative (least : -32 ≤ i) (negative : i < 0) :
    ∃ byte : UInt8, packed i = [byte] ∧ ¬ byte ≤ 0x7f ∧ 0xe0 ≤ byte ∧ loadSigned [byte] = i := by
  obtain ⟨byte, text, same⟩ := store_one i
  refine ⟨byte, by rw [packed, if_neg (by omega), if_pos least, text], ?_, ?_,
    text ▸ loadSigned_store (by omega) (by omega) Nat.one_pos⟩
  · rw [UInt8.le_iff_toNat_le]
    change ¬ byte.toNat ≤ 127
    omega
  · rw [UInt8.le_iff_toNat_le]
    change 224 ≤ byte.toNat
    omega

theorem meets_unpackLonglong (holds : IntType.i64.Holds i) : Meets unpackLonglong (packed i) (.ok i) := by
  obtain ⟨least, greatest⟩ := holds
  simp only [IntType.least, IntType.greatest] at least greatest
  by_cases small : 0 ≤ i ∧ i < 2 ^ 7
  · obtain ⟨byte, text, low, rfl⟩ := packed_small small.1 small.2
    rw [text]
    refine meets_first ?_
    rw [if_pos low]
    exact meets_pure _
  by_cases negative : -32 ≤ i ∧ i < 0
  · obtain ⟨byte, text, low, high, rfl⟩ := packed_negative negative.1 negative.2
    rw [text]
    refine meets_first ?_
    rw [if_neg low, if_pos high]
    exact meets_pure _
  unfold packed
  split_ifs
  · omega
  · exact meets_first (meets_load (by omega) (by omega))
  · exact meets_first (meets_load (by omega) (by omega))
  · exact meets_first (meets_load (by omega) (by omega))
  · have read : Meets (readRawBytes 8 >>= fun bytes => if load bytes > 2 ^ 63 - 1 then corrupt else pure (load bytes))
        (store 8 i ++ []) (.ok i) := by
      refine (meets_readRawBytes (length_store 8 i)).bind ?_
      rw [load_store (by omega) (by omega), if_neg (by omega)]
      exact meets_pure i
    rw [append_nil] at read
    exact meets_first read
  · omega
  · exact meets_first (meets_loadSigned (by omega) (by omega) (by decide))
  · exact meets_first (meets_loadSigned (by omega) (by omega) (by decide))
  · exact meets_first (meets_loadSigned (by omega) (by omega) (by decide))
  · exact meets_first (meets_loadSigned (by omega) (by omega) (by decide))

theorem meets_unpackLonglong_large (large : 2 ^ 63 ≤ i) (fits : i < 2 ^ 64) :
    Meets unpackLonglong (packed i) (.error .readCorruptData) := by
  have read : Meets (readRawBytes 8 >>= fun bytes => if load bytes > 2 ^ 63 - 1 then corrupt else pure (load bytes))
      (store 8 i ++ []) (.error .readCorruptData) := by
    refine (meets_readRawBytes (length_store 8 i)).bind ?_
    rw [load_store (by omega) (by omega), if_pos (by omega)]
    exact meets_fail _
  rw [append_nil] at read
  have text : packed i = 0xcf :: store 8 i := by
    unfold packed
    split_ifs <;> first | rfl | omega
  rw [text]
  exact meets_first read

theorem meets_unpackUlonglong (holds : IntType.u64.Holds i) : Meets unpackUlonglong (packed i) (.ok i) := by
  obtain ⟨natural, greatest⟩ := holds
  simp only [IntType.least, IntType.greatest] at natural greatest
  by_cases small : i < 2 ^ 7
  · obtain ⟨byte, text, low, rfl⟩ := packed_small natural small
    rw [text]
    refine meets_first ?_
    rw [if_pos low]
    exact meets_pure _
  unfold packed
  rw [if_pos natural, if_neg small]
  split_ifs
  · exact meets_first (meets_load natural (by omega))
  · exact meets_first (meets_load natural (by omega))
  · exact meets_first (meets_load natural (by omega))
  · exact meets_first (meets_load natural (by omega))

theorem meets_loadNatural (least : -2 ^ (8 * width - 1) ≤ i) (negative : i < 0) (wide : 0 < width) :
    Meets (readRawBytes width >>= loadNatural) (store width i) (.error .readCorruptData) := by
  have read : Meets (readRawBytes width >>= loadNatural) (store width i ++ []) (.error .readCorruptData) := by
    refine (meets_readRawBytes (length_store width i)).bind ?_
    have small : i < 2 ^ (8 * width - 1) := negative.trans (by positivity)
    rw [loadNatural, loadSigned_store least small wide, if_pos negative]
    exact meets_fail _
  rwa [append_nil] at read

theorem meets_unpackUlonglong_negative (least : -2 ^ 63 ≤ i) (negative : i < 0) :
    Meets unpackUlonglong (packed i) (.error .readCorruptData) := by
  by_cases small : -32 ≤ i
  · obtain ⟨byte, text, low, high, -⟩ := packed_negative small negative
    rw [text]
    refine meets_first ?_
    rw [if_neg low, if_pos high]
    exact meets_fail _
  unfold packed
  rw [if_neg (by omega), if_neg small]
  split_ifs
  · exact meets_first (meets_loadNatural (by omega) negative (by decide))
  · exact meets_first (meets_loadNatural (by omega) negative (by decide))
  · exact meets_first (meets_loadNatural (by omega) negative (by decide))
  · exact meets_first (meets_loadNatural (by omega) negative (by decide))

theorem meets_within {r : Read Int} {text : Bytes} (t : IntType) (meets : Meets r text (.ok i)) :
    Meets (r >>= within t) text (if t.Holds i then .ok i else .error .readCorruptData) := by
  have checked : Meets (within t i) [] (if t.Holds i then .ok i else .error .readCorruptData) := by
    unfold within
    split_ifs
    · exact meets_pure i
    · exact meets_fail _
  have both := meets.bind checked
  rwa [append_nil] at both

theorem meets_within_refused {r : Read Int} {text : Bytes} {t : IntType} (other : ¬ t.Holds i)
    (meets : Meets r text (.error .readCorruptData)) :
    Meets (r >>= within t) text (if t.Holds i then .ok i else .error .readCorruptData) := by
  rw [if_neg other]
  have both : Meets (r >>= within t) (text ++ []) _ := meets.bind_refused []
  rwa [append_nil] at both

/-- Whatever type an integer is written from, it is read as the same one if it fits. -/
theorem meets_readInt {source : IntType} (target : IntType) (holds : source.Holds i) :
    Meets (readInt target) (writeInt source i) (if target.Holds i then .ok i else .error .readCorruptData) := by
  rw [writeInt_eq holds]
  have range : -2 ^ 63 ≤ i ∧ i < 2 ^ 64 := by
    cases source <;> simp only [IntType.Holds, least, greatest] at holds <;> omega
  have signed : Meets unpackLonglong (packed i) (if i64.Holds i then .ok i else .error .readCorruptData) := by
    split_ifs with fits
    · exact meets_unpackLonglong fits
    · simp only [IntType.Holds, least, greatest] at fits
      exact meets_unpackLonglong_large (by omega) range.2
  have unsigned : Meets unpackUlonglong (packed i) (if u64.Holds i then .ok i else .error .readCorruptData) := by
    split_ifs with fits
    · exact meets_unpackUlonglong fits
    · simp only [IntType.Holds, least, greatest] at fits
      exact meets_unpackUlonglong_negative range.1 (by omega)
  have smaller : ∀ (t wide : IntType) (r : Read Int), (t.Holds i → wide.Holds i) →
      Meets r (packed i) (if wide.Holds i then .ok i else .error .readCorruptData) →
      Meets (r >>= within t) (packed i) (if t.Holds i then .ok i else .error .readCorruptData) := by
    intro t wide r sub meets
    by_cases fits : wide.Holds i
    · rw [if_pos fits] at meets
      exact meets_within t meets
    · rw [if_neg fits] at meets
      exact meets_within_refused (fun inner => fits (sub inner)) meets
  cases target with
  | u64 => exact unsigned
  | i64 => exact signed
  | u8 => exact smaller .u8 .u64 _ (fun h => ⟨h.1, h.2.trans (by decide)⟩) unsigned
  | u16 => exact smaller .u16 .u64 _ (fun h => ⟨h.1, h.2.trans (by decide)⟩) unsigned
  | u32 => exact smaller .u32 .u64 _ (fun h => ⟨h.1, h.2.trans (by decide)⟩) unsigned
  | i8 => exact smaller .i8 .i64 _ (fun h => ⟨le_trans (by decide) h.1, h.2.trans (by decide)⟩) signed
  | i16 => exact smaller .i16 .i64 _ (fun h => ⟨le_trans (by decide) h.1, h.2.trans (by decide)⟩) signed
  | i32 => exact smaller .i32 .i64 _ (fun h => ⟨le_trans (by decide) h.1, h.2.trans (by decide)⟩) signed

end Numbers

section Texts

variable {len : Nat} {s : Bytes}

theorem meets_readOn {width : Nat} (small : len < 2 ^ (8 * width)) :
    Meets (do return readOn 0 (← readRawBytes width) : Read Nat) (store width len) (.ok len) := by
  have read := (meets_readRawBytes (length_store width len)).map (readOn 0)
  have value : readOn 0 (store width len) = len := by
    have whole : load (store width len) = len := load_store (by omega) (by exact_mod_cast small)
    exact Int.ofNat_inj.mp whole
  rwa [value] at read

theorem meets_lengths (form : Lengths) (small : len < 2 ^ 32) :
    Meets form.read (form.write len) (.ok len) := by
  have coded : ∀ code ∈ form.one.toList ++ [form.two, form.four],
      ¬ (form.fix ≤ code ∧ code.toNat < form.fix.toNat + form.small) := by
    rintro code member ⟨above, below⟩
    rw [UInt8.le_iff_toNat_le] at above
    rcases form.apart code member with lower | higher <;> omega
  have distinct := form.distinct
  have longer : Meets form.read (form.writeLong len) (.ok len) := by
    have other : ∀ code ∈ [form.two, form.four], form.one ≠ some code := by
      intro code member same
      rw [same] at distinct
      simp only [Option.toList, cons_append, nil_append, nodup_cons] at distinct
      exact distinct.1 member
    unfold Lengths.writeLong
    split_ifs
    · refine meets_first ?_
      rw [if_neg (coded _ (by simp)), if_neg (other _ (by simp)), if_pos rfl]
      exact meets_readOn (by omega)
    · refine meets_first ?_
      have two : form.four ≠ form.two := by
        intro same
        have pair := (nodup_append.mp distinct).2.1
        simp [same] at pair
      rw [if_neg (coded _ (by simp)), if_neg (other _ (by simp)), if_neg two, if_pos rfl]
      exact meets_readOn (by omega)
  by_cases fixed : len < form.small
  · rw [Lengths.write, if_pos fixed]
    refine meets_first ?_
    have value := form.joined len fixed
    have above : form.fix ≤ form.fix ||| UInt8.ofNat len := by
      rw [UInt8.le_iff_toNat_le]
      omega
    have count : ((form.fix ||| UInt8.ofNat len) - form.fix).toNat = len := by
      rw [UInt8.toNat_sub_of_le _ _ above]
      omega
    rw [if_pos ⟨above, by omega⟩, count]
    exact meets_pure len
  · rw [Lengths.write, if_neg fixed]
    cases single : form.one with
    | none => exact longer
    | some code =>
      dsimp only
      split_ifs
      · refine meets_first ?_
        rw [if_neg (coded code (by simp [single])), if_pos single]
        exact meets_readOn (by omega)
      · exact longer

theorem meets_readString (short : s.length < 2 ^ 31) : Meets readString (writeString s) (.ok s) := by
  have same : s.length % 2 ^ 32 = s.length := Nat.mod_eq_of_lt (by omega)
  rw [writeString, same, take_length]
  exact (meets_lengths .str (by omega)).bind (meets_readPayload short)

theorem writeBytes_eq (short : s.length < 2 ^ 31) :
    writeBytes s = .ok (Lengths.bin.write s.length ++ s) := if_neg (by omega)

theorem meets_readBytes (short : s.length < 2 ^ 31) :
    Meets readBytes (Lengths.bin.write s.length ++ s) (.ok s) :=
  (meets_lengths .bin (by omega)).bind (meets_readPayload short)

theorem meets_readExtLength (small : len < 2 ^ 32) (type : UInt8) :
    ∃ code text, writeExtHeader len type = code :: (text ++ [type]) ∧ Meets (readExtLength code) text (.ok len) := by
  unfold writeExtHeader
  split_ifs with one two four eight sixteen
  · exact ⟨0xd4, [], rfl, one ▸ meets_pure 1⟩
  · exact ⟨0xd5, [], rfl, two ▸ meets_pure 2⟩
  · exact ⟨0xd6, [], rfl, four ▸ meets_pure 4⟩
  · exact ⟨0xd7, [], rfl, eight ▸ meets_pure 8⟩
  · exact ⟨0xd8, [], rfl, sixteen ▸ meets_pure 16⟩
  · exact ⟨0xc7, store 1 len, rfl, meets_readOn (by omega)⟩
  · exact ⟨0xc8, store 2 len, rfl, meets_readOn (by omega)⟩
  · exact ⟨0xc9, store 4 len, rfl, meets_readOn (by omega)⟩

theorem readExt_eq : readExt = readByte >>= fun p => readExtLength p >>= fun len => readByte >>= fun type =>
    readPayload len >>= fun payload => pure ⟨type, payload⟩ := by
  simp [readExt, readExtHeader, readPayload]

theorem meets_readExt {ext : MsgPackExtData} (short : ext.payload.length < 2 ^ 31) :
    Meets readExt (writeExt ext) (.ok ext) := by
  have same : ext.payload.length % 2 ^ 32 = ext.payload.length := Nat.mod_eq_of_lt (by omega)
  have small : ext.payload.length < 2 ^ 32 := by omega
  obtain ⟨code, text, header, length⟩ := meets_readExtLength small ext.type
  rw [writeExt, same, header, readExt_eq, cons_append, append_assoc]
  refine meets_first (length.bind (meets_first ?_))
  exact (meets_readPayload short).map (fun payload => (⟨ext.type, payload⟩ : MsgPackExtData))

theorem meets_readBool (b : Bool) : Meets readBool (writeBool b) (.ok b) := by
  cases b with
  | true => exact meets_first (meets_pure true)
  | false => exact meets_first (meets_pure false)

end Texts

end Qtng.MsgPack
