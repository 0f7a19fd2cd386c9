import Qtng.MsgPack.Stream

namespace Qtng.MsgPack

open BigEndian Reader

/-- An instant as the system clock counts it, in nanoseconds since 1970: from 1677 to 2262. -/
structure DateTime where
  tp : Int64
  valid : Bool
deriving DecidableEq

namespace DateTime

/-- The conversion to nanoseconds may overflow. -/
def fromMSecsSinceEpoch (msecs : Int64) : DateTime := ⟨msecs * 1000000, true⟩

def toMSecsSinceEpoch (dt : DateTime) : Int64 := if dt.valid then dt.tp / 1000000 else 0

end DateTime

def packDatetime (dt : DateTime) : Bytes :=
  if dt.valid then
    let msecs := dt.toMSecsSinceEpoch.toUInt64
    word64 ((msecs % 1000 * 1000000) <<< 34 ||| msecs / 1000)
  else []

def unpackDatetime (bs : Bytes) : DateTime :=
  let (seconds, nanoseconds) : UInt64 × UInt64 :=
    if bs.length = 4 then ((readWord32 bs).toUInt64, 0)
    else if bs.length = 8 then (readWord64 bs &&& 0x3ffffffff, readWord64 bs >>> 34)
    else (readWord64 (bs.drop 4), (readWord32 (bs.take 4)).toUInt64)
  .fromMSecsSinceEpoch (seconds * 1000 + nanoseconds / 1000000).toInt64

def writeDateTime (dt : DateTime) : Except Status Bytes :=
  let bs := packDatetime dt
  if bs = [] then .error .writeFailed else .ok (writeExtHeader bs.length 0xff ++ bs)

def readDateTime : Read DateTime := fun bytes =>
  match readExtHeader bytes with
  | .error _ => .error .readCorruptData
  | .ok ((len, type), rest) =>
    if type ≠ 0xff then .error .readCorruptData
    -- the stream is corrupt from here on, but a longer payload still goes into twelve bytes
    else if len ≠ 4 ∧ len ≠ 8 ∧ len ≠ 12 then .error .readCorruptData
    else (readRawBytes len >>= fun bs => return unpackDatetime bs) rest

/-- Both fields of the form in eight bytes; the seconds have more bits than theirs. -/
theorem toNat_packed (m : UInt64) : ((m % 1000 * 1000000) <<< 34 ||| m / 1000).toNat =
    (m.toNat % 1000 * 1000000) <<< 34 ||| m.toNat / 1000 := by
  have small : m.toNat % 1000 * 1000000 < 2 ^ 30 := by omega
  have shifted : (m.toNat % 1000 * 1000000) <<< 34 < 2 ^ 64 := by
    rw [Nat.shiftLeft_eq]
    exact (Nat.mul_lt_mul_of_pos_right small (by decide)).trans_eq (by norm_num)
  rw [UInt64.toNat_or, UInt64.toNat_div, UInt64.toNat_shiftLeft, UInt64.toNat_mul, UInt64.toNat_mod]
  simp only [UInt64.reduceToNat, Nat.reduceMod]
  rw [Nat.mod_eq_of_lt (by omega : m.toNat % 1000 * 1000000 < 2 ^ 64), Nat.mod_eq_of_lt shifted]

/-- The milliseconds that are read from the form in eight bytes. -/
def msecsPacked (m : Nat) : Nat := m / 1000 % 2 ^ 34 * 1000 + (m % 1000 * 1000000 ||| m / 1000 / 2 ^ 34) / 1000000

theorem msecsPacked_lt {m : Nat} (less : m < 2 ^ 64) : msecsPacked m < 2 ^ 34 * 1000 + 1074 := by
  have field : m % 1000 * 1000000 ||| m / 1000 / 2 ^ 34 < 2 ^ 30 := Nat.or_lt_two_pow (by omega) (by omega)
  unfold msecsPacked
  omega

theorem msecsPacked_of_small {m : Nat} (small : m < 2 ^ 34 * 1000) : msecsPacked m = m := by
  have none : m / 1000 / 2 ^ 34 = 0 := by omega
  rw [msecsPacked, none, Nat.or_zero, Nat.mul_div_cancel _ (by decide)]
  omega

theorem unpackDatetime_packed (m : UInt64) :
    unpackDatetime (word64 ((m % 1000 * 1000000) <<< 34 ||| m / 1000)) =
      .fromMSecsSinceEpoch (.ofNat (msecsPacked m.toNat)) := by
  have packed := toNat_packed m
  generalize (m % 1000 * 1000000) <<< 34 ||| m / 1000 = t at packed
  have seconds : (t &&& 0x3ffffffff).toNat = m.toNat / 1000 % 2 ^ 34 := by
    rw [UInt64.toNat_and, packed]
    change _ &&& (2 ^ 34 - 1) = _
    rw [Nat.and_two_pow_sub_one_eq_mod, Nat.or_mod_two_pow, Nat.shiftLeft_eq, Nat.mul_mod_left, Nat.zero_or]
  have nanoseconds : (t >>> 34).toNat = m.toNat % 1000 * 1000000 ||| m.toNat / 1000 / 2 ^ 34 := by
    rw [UInt64.toNat_shiftRight, packed]
    change _ >>> 34 = _
    rw [Nat.shiftRight_or_distrib, Nat.shiftLeft_shiftRight, Nat.shiftRight_eq_div_pow]
  have total {low high : UInt64} (first : low.toNat = m.toNat / 1000 % 2 ^ 34)
      (second : high.toNat = m.toNat % 1000 * 1000000 ||| m.toNat / 1000 / 2 ^ 34) :
      (low * 1000 + high / 1000000).toInt64 = .ofNat (msecsPacked m.toNat) := by
    have less := msecsPacked_lt m.toNat_lt
    have sum : (low * 1000 + high / 1000000).toNat = msecsPacked m.toNat := by
      rw [UInt64.toNat_add, UInt64.toNat_mul, UInt64.toNat_div, first, second]
      simp only [UInt64.reduceToNat]
      unfold msecsPacked at less ⊢
      omega
    rw [← sum]
    exact congrArg UInt64.toInt64 UInt64.ofNat_toNat.symm
  simp [unpackDatetime, length_word64, readWord64_word64, total seconds nanoseconds]

theorem readDateTime_written (t : UInt64) (rest : Bytes) :
    readDateTime (0xd7 :: 0xff :: word64 t ++ rest) = .ok (unpackDatetime (word64 t), rest) := by
  have enough : 8 ≤ (word64 t ++ rest).length := by simp
  have header : readExtHeader (0xd7 :: 0xff :: (word64 t ++ rest)) = .ok ((8, 0xff), word64 t ++ rest) := by
    change (checkLength 8 >>= fun _ => return (8, 0xff) : Read (Nat × UInt8)) (word64 t ++ rest) = _
    rw [bind_ok (if_pos ⟨by decide, enough⟩)]
    rfl
  have body : readRawBytes 8 (word64 t ++ rest) = .ok (word64 t, rest) := take_eq_ok.mpr ⟨rfl, by simp⟩
  rw [List.cons_append, List.cons_append, readDateTime, header]
  exact bind_ok body

theorem toInt_fromMSecs {k : Nat} (less : k < 2 ^ 63) :
    (DateTime.fromMSecsSinceEpoch (.ofNat k)).tp.toInt = (k * 1000000 : Int).bmod (2 ^ 64) := by
  have factor : (1000000 : Int64).toInt = 1000000 := by decide
  rw [DateTime.fromMSecsSinceEpoch, Int64.toInt_mul, Int64.toInt_ofNat_of_lt less, factor]

theorem toInt_toMSecs {tp : Int64} {msecs : Int} (whole : tp.toInt = msecs * 1000000) :
    (DateTime.toMSecsSinceEpoch ⟨tp, true⟩).toInt = msecs := by
  have factor : (1000000 : Int64).toInt = 1000000 := by decide
  have least := tp.le_toInt
  have most := tp.toInt_lt
  rw [DateTime.toMSecsSinceEpoch, if_pos rfl, Int64.toInt_div, factor, whole, Int.mul_tdiv_cancel _ (by decide)]
  rw [Int.bmod_def]
  split <;> omega

/-- An instant in whole milliseconds is read back exactly if it is not before 1970: the seconds of
any later one have at most 34 bits. -/
theorem timestamp_roundTrip_iff {dt : DateTime} (valid : dt.valid = true) (resolution : 1000000 ∣ dt.tp.toInt) :
    (∃ text, writeDateTime dt = .ok text ∧ ∀ rest, readDateTime (text ++ rest) = .ok (dt, rest)) ↔
      0 ≤ dt.tp.toInt := by
  obtain ⟨tp, _⟩ := dt
  subst valid
  obtain ⟨msecs, whole⟩ := exists_eq_mul_left_of_dvd resolution
  dsimp only at whole ⊢
  have least := tp.le_toInt
  have most := tp.toInt_lt
  generalize number : (DateTime.toMSecsSinceEpoch ⟨tp, true⟩).toUInt64 = m
  have written : writeDateTime ⟨tp, true⟩ = .ok (0xd7 :: 0xff :: word64 ((m % 1000 * 1000000) <<< 34 ||| m / 1000)) :=
    number ▸ rfl
  have unsigned : msecs = (m.toNat : Int).bmod (2 ^ 64) := by
    rw [← toInt_toMSecs whole, ← number]
    exact BitVec.toInt_eq_toNat_bmod _
  have less := m.toNat_lt
  have bound := msecsPacked_lt less
  have back := toInt_fromMSecs (k := msecsPacked m.toNat) (by omega)
  rw [Int.bmod_def] at unsigned
  constructor
  · rintro ⟨text, same, read⟩
    cases written.symm.trans same
    have read := (readDateTime_written _ []).symm.trans (read [])
    rw [unpackDatetime_packed] at read
    have again := congrArg (fun result => result.map fun r : DateTime × Bytes => r.1.tp.toInt) read
    simp only [Except.map, Except.ok.injEq] at again
    -- a multiple of 1000000 below twice 2 ^ 64 is not 2 ^ 64
    rw [back, whole, Int.bmod_def] at again
    split_ifs at unsigned again <;> omega
  · intro late
    have small : m.toNat < 2 ^ 34 * 1000 := by
      split_ifs at unsigned <;> omega
    refine ⟨_, written, fun rest => ?_⟩
    rw [readDateTime_written, unpackDatetime_packed]
    have same : (DateTime.fromMSecsSinceEpoch (.ofNat (msecsPacked m.toNat))).tp = tp := by
      rw [← Int64.toInt_inj, back, msecsPacked_of_small small, Int.bmod_def]
      split_ifs at unsigned ⊢ <;> omega
    exact congrArg (fun tp => Except.ok (DateTime.mk tp true, rest)) same

/-- A date of the year 2020. -/
theorem timestamp_roundTrip_recent : ∃ text, writeDateTime ⟨1577836800123000000, true⟩ = .ok text ∧
    ∀ rest, readDateTime (text ++ rest) = .ok (⟨1577836800123000000, true⟩, rest) :=
  (timestamp_roundTrip_iff rfl (by decide)).mpr (by decide)

/-- One second before 1970. -/
theorem timestamp_changed : (DateTime.fromMSecsSinceEpoch (-1000)).tp.toInt = -1000000000 ∧
    ∃ text, writeDateTime (.fromMSecsSinceEpoch (-1000)) = .ok text ∧
      readDateTime text ≠ .ok (.fromMSecsSinceEpoch (-1000), []) :=
  ⟨by decide, _, rfl, by decide⟩

end Qtng.MsgPack
