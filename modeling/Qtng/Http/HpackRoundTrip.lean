import Qtng.Http.Hpack

namespace Qtng

open BigEndian List HpackDecoder HpackEncoder

variable {n value index k : Nat} {nameIndex : Option Nat} {entries : List HpackHeader} {h : HpackHeader}
variable {v m rounds : Nat} {text : Bytes} {nameOnly : Bool}

theorem toNat_byte (small : n < 256) : (UInt8.ofNat n).toNat = n := UInt8.toNat_ofNat_of_lt' small

theorem and_127 (n : Nat) : n &&& 0x7f = n % 128 := Nat.and_two_pow_sub_one_eq_mod n 7

theorem low_or_128 {low : Nat} (small : low < 128) : low ||| 0x80 = low + 128 := by
  rw [Nat.or_comm, Nat.add_comm]
  exact (Nat.shiftLeft_add_eq_or_of_lt (i := 7) small 1).symm

theorem and_128_eq_zero_iff (small : n < 256) : n &&& 0x80 = 0 ↔ n < 128 := by
  have all : ∀ n < 256, (n &&& 0x80 = 0 ↔ n < 128) := by decide +kernel
  exact all n small

theorem and_192_eq_64_iff (small : n < 256) : n &&& 0xc0 = 0x40 ↔ n / 64 = 1 := by
  have all : ∀ n < 256, (n &&& 0xc0 = 0x40 ↔ n / 64 = 1) := by decide +kernel
  exact all n small

theorem decodeRest_last (rest : Bytes) (small : value < 128) (bound : v + value * 2 ^ m < 2 ^ 32) :
    decodeRest (UInt8.ofNat value :: rest) v m = some (v + value * 2 ^ m, rest) := by
  have high : value &&& 0x80 = 0 := (and_128_eq_zero_iff (by omega)).mpr small
  have group : value % 128 = value := Nat.mod_eq_of_lt small
  simp only [decodeRest, toNat_byte (show value < 256 by omega), high, if_true, and_127, group, Nat.shiftLeft_eq]
  rw [Nat.mod_eq_of_lt bound]

theorem decodeRest_encodeRest {j : Nat} (rest : Bytes) (enough : value < 2 ^ (7 * (rounds + 1)))
    (aligned : m = 7 * j) (bound : v + value * 2 ^ m < 2 ^ 32) :
    decodeRest (encodeRest rounds value ++ rest) v m = some (v + value * 2 ^ m, rest) := by
  induction rounds generalizing value v m j with
  | zero => exact decodeRest_last rest enough bound
  | succ rounds ih =>
    unfold encodeRest
    split_ifs with large
    · have low : value % 128 < 128 := Nat.mod_lt _ (by decide)
      have byte : (UInt8.ofNat ((value &&& 0x7f) ||| 0x80)).toNat = value % 128 + 128 := by
        rw [and_127, low_or_128 low]
        exact toNat_byte (by omega)
      have high : ¬ (value % 128 + 128) &&& 0x80 = 0 := by
        rw [and_128_eq_zero_iff (by omega)]
        omega
      have group : (value % 128 + 128) % 128 = value % 128 := by omega
      -- the lowest seven bits come first, the others are shifted by seven more
      have parts : value % 128 * 2 ^ m + value / 128 * 2 ^ (m + 7) = value * 2 ^ m := by
        calc value % 128 * 2 ^ m + value / 128 * 2 ^ (m + 7)
            = (value % 128 + 128 * (value / 128)) * 2 ^ m := by rw [pow_add]; ring
          _ = value * 2 ^ m := by rw [Nat.mod_add_div]
      have near : ¬ m + 7 > 28 := by
        intro far
        have power : 2 ^ 28 ≤ 2 ^ m := Nat.pow_le_pow_right (by decide) (by omega)
        have product : 128 * 2 ^ 28 ≤ value * 2 ^ m := Nat.mul_le_mul large power
        omega
      have fewer : value / 128 < 2 ^ (7 * (rounds + 1)) := by
        rw [Nat.div_lt_iff_lt_mul (by decide)]
        exact Nat.lt_of_lt_of_eq enough (pow_add 2 (7 * (rounds + 1)) 7)
      rw [cons_append, decodeRest]
      simp only [byte]
      simp only [high, if_false, near, and_127, group, Nat.shiftLeft_eq]
      have sum : v + value % 128 * 2 ^ m < 2 ^ 32 := by omega
      have later : v + value % 128 * 2 ^ m + value / 128 * 2 ^ (m + 7) < 2 ^ 32 := by omega
      rw [Nat.mod_eq_of_lt sum, Nat.shiftRight_eq_div_pow]
      rw [ih (j := j + 1) fewer (by omega) later, Nat.add_assoc, parts]
    · exact decodeRest_last rest (by omega) bound

/-- The first byte of a number has the pattern in its high bits, and the number is
read back, whatever follows. -/
theorem decodeInteger_encodeInteger {prefixBits : Nat} (pattern : Nat) (rest : Bytes) (positive : 0 < prefixBits)
    (fits : (pattern + 1) * 2 ^ prefixBits ≤ 256) (bound : value < 2 ^ 32) :
    ∃ first tail, encodeInteger value prefixBits (pattern <<< prefixBits) = first :: tail ∧
      first.toNat / 2 ^ prefixBits = pattern ∧
      decodeInteger (first :: tail ++ rest) prefixBits = some (value, rest) := by
  have power : 2 ≤ 2 ^ prefixBits := by
    calc 2 = 2 ^ 1 := rfl
      _ ≤ 2 ^ prefixBits := Nat.pow_le_pow_right (by decide) positive
  have room : (pattern + 1) * 2 ^ prefixBits = pattern * 2 ^ prefixBits + 2 ^ prefixBits := by ring
  have byte : ∀ low, low < 2 ^ prefixBits →
      (UInt8.ofNat (pattern <<< prefixBits ||| low)).toNat = 2 ^ prefixBits * pattern + low := by
    intro low small
    rw [← Nat.shiftLeft_add_eq_or_of_lt small, Nat.shiftLeft_eq, Nat.mul_comm]
    exact toNat_byte (by rw [Nat.mul_comm]; omega)
  have quotient : ∀ low, low < 2 ^ prefixBits → (2 ^ prefixBits * pattern + low) / 2 ^ prefixBits = pattern := by
    intro low small
    rw [Nat.mul_add_div (by omega), Nat.div_eq_of_lt small, Nat.add_zero]
  have remainder : ∀ low, low < 2 ^ prefixBits →
      (2 ^ prefixBits * pattern + low) &&& (2 ^ prefixBits - 1) = low := by
    intro low small
    rw [Nat.and_two_pow_sub_one_eq_mod, Nat.mul_add_mod, Nat.mod_eq_of_lt small]
  unfold encodeInteger
  dsimp only
  split_ifs with small
  · have within : value < 2 ^ prefixBits := by omega
    refine ⟨_, [], rfl, ?_, ?_⟩
    · rw [byte value within, quotient value within]
    · simp only [singleton_append, decodeInteger, byte value within, remainder value within, small, if_true]
  · have within : 2 ^ prefixBits - 1 < 2 ^ prefixBits := by omega
    refine ⟨_, _, rfl, ?_, ?_⟩
    · rw [byte _ within, quotient _ within]
    · simp only [cons_append, decodeInteger, byte _ within, remainder _ within, lt_irrefl, if_false]
      rw [decodeRest_encodeRest (j := 0) rest (by omega) rfl (by omega)]
      congr 2
      omega

theorem decodeString_encodeString {value : Bytes} (rest : Bytes) (short : value.length < 2 ^ 32) :
    decodeString (encodeString value false ++ rest) = some (value, rest) := by
  obtain ⟨first, tail, encoded, pattern, decoded⟩ :=
    decodeInteger_encodeInteger 0 (value ++ rest) (show 0 < 7 by decide) (by decide) short
  have plain : ¬ first.toNat &&& 0x80 ≠ 0 := by
    rw [ne_eq, not_not, and_128_eq_zero_iff first.toNat_lt]
    omega
  have whole : encodeString value false ++ rest = first :: tail ++ (value ++ rest) := by
    unfold encodeString
    simp only [Bool.false_eq_true, if_false, Nat.mod_eq_of_lt short]
    rw [← encoded, append_assoc]
    rfl
  rw [whole, decodeString.eq_def]
  simp only [cons_append] at decoded ⊢
  simp only [decoded, Option.bind_some, plain, if_false]
  simp

/-- A header without NUL bytes, which strcmp compares as a whole, and of which the
lengths are below 2^31. -/
structure HpackHeader.Plain (h : HpackHeader) : Prop where
  name : 0 ∉ h.name ∧ h.name.length < 2 ^ 31
  value : 0 ∉ h.value ∧ h.value.length < 2 ^ 31

theorem cString_of_not_mem (plain : 0 ∉ text) : cString text = text := by
  refine takeWhile_eq_self_iff.mpr ?_
  intro byte member
  simpa using fun zero : byte = 0 => plain (zero ▸ member)

theorem findStaticLoop_spec (found : findStaticLoop h entries index nameIndex = some (k, nameOnly)) :
    (nameIndex = some k ∧ nameOnly = true) ∨
      (index ≤ k ∧ ∃ entry, entries[k - index]? = some entry ∧ entry.name = cString h.name ∧
        (nameOnly = false → entry.value = cString h.value)) := by
  induction entries generalizing index nameIndex with
  | nil =>
    obtain ⟨known, same, isK⟩ := Option.map_eq_some_iff.mp found
    cases isK
    exact .inl ⟨same, rfl⟩
  | cons entry rest ih =>
    have later : ∀ {nameIndex'}, findStaticLoop h rest (index + 1) nameIndex' = some (k, nameOnly) →
        (nameIndex' = some k ∧ nameOnly = true) ∨
          (index ≤ k ∧ ∃ other, (entry :: rest)[k - index]? = some other ∧ other.name = cString h.name ∧
            (nameOnly = false → other.value = cString h.value)) := by
      intro nameIndex' more
      rcases ih more with known | ⟨beyond, other, atOther, name, value⟩
      · exact .inl known
      · refine .inr ⟨by omega, other, ?_, name, value⟩
        have next : k - index = k - (index + 1) + 1 := by omega
        rw [next, getElem?_cons_succ]
        exact atOther
    unfold findStaticLoop at found
    split at found
    · rename_i name
      split at found
      · rename_i value
        cases found
        exact .inr ⟨le_rfl, entry, by simp, name, fun _ => value⟩
      · rcases later found with ⟨known, only⟩ | other
        · cases nameIndex with
          | some old => exact .inl ⟨known, only⟩
          | none =>
            cases known
            exact .inr ⟨le_rfl, entry, by simp, name, fun no => absurd (only.symm.trans no) (by simp)⟩
        · exact .inr other
    · exact later found

theorem kStaticTableSize_eq : kStaticTableSize = 61 := by
  simp [kStaticTableSize, kStaticTable, staticEntries]

theorem findStaticIndex_spec (found : findStaticIndex h = some (k, nameOnly)) :
    0 < k ∧ k ≤ 61 ∧ ∃ entry, kStaticTable[k - 1]? = some entry ∧ entry.name = cString h.name ∧
      (nameOnly = false → entry.value = cString h.value) := by
  rcases findStaticLoop_spec found with ⟨none, _⟩ | ⟨positive, entry, atEntry, name, value⟩
  · simp at none
  · have within := (List.getElem?_eq_some_iff.mp atEntry).1
    have size := kStaticTableSize_eq
    unfold kStaticTableSize at size
    exact ⟨positive, by omega, entry, atEntry, name, value⟩

/-- The field that a decoder makes of what is written for a field. -/
def HpackHeader.received (h : HpackHeader) : HpackHeader :=
  match findStaticIndex h with
  | some (_, false) => ⟨cString h.name, cString h.value⟩
  | some (_, true) => ⟨cString h.name, h.value⟩
  | none => h

/-- The lengths of the strings fit into the numbers that precede them. -/
def HpackHeader.Short (h : HpackHeader) : Prop := h.name.length < 2 ^ 32 ∧ h.value.length < 2 ^ 32

theorem HpackHeader.Plain.short (plain : h.Plain) : h.Short := by
  have name := plain.name.2
  have value := plain.value.2
  exact ⟨by omega, by omega⟩

theorem HpackHeader.Plain.received (plain : h.Plain) : h.received = h := by
  unfold HpackHeader.received
  rw [cString_of_not_mem plain.name.1, cString_of_not_mem plain.value.1]
  split <;> rfl

theorem HpackDecoder.lookup_static (decoder : HpackDecoder) (positive : 0 < k) (static : k ≤ 61) :
    decoder.lookup k = kStaticTable[k - 1]? := by
  rw [lookup, if_neg (by omega), if_pos (by rw [kStaticTableSize_eq]; exact static)]

section Header

variable {h : HpackHeader} {decoder : HpackDecoder}
variable {tail rest : Bytes} {first : UInt8}

theorem decodeLoop_literal (rounds : Nat) (headers : List HpackHeader)
    (pattern : first.toNat / 64 = 1) (decoded : decoder.decodeLiteral (first :: tail) 6 = some (h, rest)) :
    decodeLoop (rounds + 1) decoder headers (first :: tail) =
      decodeLoop rounds (decoder.addToDynamicTable h) (headers ++ [h]) rest := by
  have plain : ¬ first.toNat &&& 0x80 ≠ 0 := by
    rw [ne_eq, not_not, and_128_eq_zero_iff first.toNat_lt]
    omega
  have literal : first.toNat &&& 0xc0 = 0x40 := (and_192_eq_64_iff first.toNat_lt).mpr pattern
  rw [decodeLoop]
  simp only [plain, if_false, literal, if_true, decoded]

theorem decodeLiteral_named {entry : HpackHeader} {k : Nat} (short : h.Short)
    (decoded : decodeInteger (first :: tail) 6 = some (k, encodeString h.value false ++ rest)) (nonzero : k ≠ 0)
    (found : decoder.lookup k = some entry) :
    decoder.decodeLiteral (first :: tail) 6 = some (⟨entry.name, h.value⟩, rest) := by
  unfold decodeLiteral
  simp only [decoded, Option.bind_some, nonzero, if_false, found, Option.map_some,
    decodeString_encodeString rest short.2]

theorem decodeLiteral_new (short : h.Short) (decoded : decodeInteger (first :: tail) 6 =
      some (0, encodeString h.name false ++ (encodeString h.value false ++ rest))) :
    decoder.decodeLiteral (first :: tail) 6 = some (h, rest) := by
  unfold decodeLiteral
  simp only [decoded, Option.bind_some, if_true, decodeString_encodeString _ short.1, Option.map_some,
    decodeString_encodeString _ short.2]

/-- One round of decode takes what one round of encode has written, in any state. If the field is
received as it is, equal tables stay equal. -/
theorem decodeLoop_encodeHeader (encoder : HpackEncoder) (decoder : HpackDecoder) (short : h.Short) (rounds : Nat)
    (headers : List HpackHeader) (rest : Bytes) :
    ∃ next : HpackDecoder,
      (h.received = h → decoder.table = encoder.table → next.table = (encoder.encodeHeader h).1.table) ∧
      HpackDecoder.decodeLoop (rounds + 1) decoder headers ((encoder.encodeHeader h).2 ++ rest) =
        HpackDecoder.decodeLoop rounds next (headers ++ [h.received]) rest := by
  have added (sound : h.received = h) (same : decoder.table = encoder.table) :
      (decoder.addToDynamicTable h.received).table = (encoder.addToDynamicTable h).table := by
    simp only [HpackDecoder.addToDynamicTable, HpackEncoder.addToDynamicTable, same, sound]
  cases found : findStaticIndex h with
  | none =>
    have written : encoder.encodeHeader h =
        (encoder.addToDynamicTable h, [0x40] ++ encodeString h.name false ++ encodeString h.value false) := by
      simp only [HpackEncoder.encodeHeader, found, List.singleton_append]
    have whole : h.received = h := by simp only [HpackHeader.received, found]
    obtain ⟨first, tail, encoded, pattern, decoded⟩ := decodeInteger_encodeInteger 1
      (encodeString h.name false ++ (encodeString h.value false ++ rest)) (show 0 < 6 by decide) (by decide)
      (show 0 < 2 ^ 32 by decide)
    have begins : [0x40] = first :: tail := encoded
    rw [written]
    refine ⟨_, added, ?_⟩
    rw [begins, List.append_assoc, List.append_assoc, List.cons_append, whole]
    exact decodeLoop_literal rounds headers pattern (decodeLiteral_new short decoded)
  | some index =>
    obtain ⟨k, nameOnly⟩ := index
    obtain ⟨positive, static, entry, atEntry, name, value⟩ := findStaticIndex_spec found
    have known := (decoder.lookup_static positive static).trans atEntry
    cases nameOnly with
    | true =>
      have written : encoder.encodeHeader h =
          (encoder.addToDynamicTable h, encodeInteger k 6 (1 <<< 6) ++ encodeString h.value false) := by
        simp only [HpackEncoder.encodeHeader, found]
        rfl
      have named : h.received = ⟨entry.name, h.value⟩ := by simp only [HpackHeader.received, found, name]
      obtain ⟨first, tail, encoded, pattern, decoded⟩ := decodeInteger_encodeInteger 1
        (encodeString h.value false ++ rest) (show 0 < 6 by decide) (by decide) (show k < 2 ^ 32 by omega)
      rw [written]
      refine ⟨_, added, ?_⟩
      rw [encoded, List.append_assoc, List.cons_append, named]
      exact decodeLoop_literal rounds headers pattern (decodeLiteral_named short decoded (by omega) known)
    | false =>
      have written : encoder.encodeHeader h = (encoder, encodeInteger k 7 (1 <<< 7)) := by
        simp only [HpackEncoder.encodeHeader, found]
        rfl
      have listed : h.received = entry := by simp only [HpackHeader.received, found, ← name, ← value rfl]
      obtain ⟨first, tail, encoded, pattern, decoded⟩ :=
        decodeInteger_encodeInteger 1 rest (show 0 < 7 by decide) (by decide) (show k < 2 ^ 32 by omega)
      have indexed : first.toNat &&& 0x80 ≠ 0 := by
        rw [ne_eq, and_128_eq_zero_iff first.toNat_lt]
        omega
      rw [written]
      refine ⟨decoder, fun _ same => same, ?_⟩
      rw [encoded, listed, List.cons_append, HpackDecoder.decodeLoop, if_pos indexed]
      rw [List.cons_append] at decoded
      simp only [decoded, Option.bind_some, known, Option.map_some]

end Header

theorem encodeInteger_ne_nil (value prefixBits firstByte : Nat) : encodeInteger value prefixBits firstByte ≠ [] := by
  unfold encodeInteger
  dsimp only
  split <;> simp

theorem encodeHeader_nonempty (encoder : HpackEncoder) (h : HpackHeader) : 0 < (encoder.encodeHeader h).2.length := by
  rw [length_pos_iff]
  unfold encodeHeader
  split
  · exact encodeInteger_ne_nil _ _ _
  · exact append_ne_nil_of_left_ne_nil (encodeInteger_ne_nil _ _ _) _
  · simp

theorem length_le_encode (encoder : HpackEncoder) (headers : List HpackHeader) :
    headers.length ≤ (encoder.encode headers).2.length := by
  induction headers generalizing encoder with
  | nil => exact Nat.zero_le _
  | cons h headers ih =>
    have first := encodeHeader_nonempty encoder h
    have others := ih (encoder.encodeHeader h).1
    simp only [encode, length_append, length_cons]
    omega

/-- A block is decoded field by field. If the fields are received as they are, equal tables are equal
behind it. -/
theorem decodeLoop_encode (encoder : HpackEncoder) (decoder : HpackDecoder) {headers : List HpackHeader}
    (short : ∀ h ∈ headers, h.Short) (enough : headers.length ≤ rounds) (before : List HpackHeader) :
    ∃ next : HpackDecoder,
      ((∀ h ∈ headers, h.received = h) → decoder.table = encoder.table →
        next.table = (encoder.encode headers).1.table) ∧
      decodeLoop rounds decoder before (encoder.encode headers).2 =
        (next, before ++ headers.map HpackHeader.received, true) := by
  induction headers generalizing encoder decoder rounds before with
  | nil =>
    refine ⟨decoder, fun _ same => same, ?_⟩
    cases rounds <;> simp [encode, decodeLoop]
  | cons h headers ih =>
    cases rounds with
    | zero => simp at enough
    | succ rounds =>
      obtain ⟨head, others⟩ := forall_mem_cons.mp short
      obtain ⟨next, agrees, first⟩ := decodeLoop_encodeHeader encoder decoder head rounds before
        ((encoder.encodeHeader h).1.encode headers).2
      obtain ⟨last, final, loop⟩ := ih (encoder.encodeHeader h).1 next others (Nat.le_of_succ_le_succ enough)
        (before ++ [h.received])
      refine ⟨last, fun sound same => ?_, ?_⟩
      · obtain ⟨here, later⟩ := forall_mem_cons.mp sound
        exact final later (agrees here same)
      · simp only [encode, map_cons]
        rw [first, loop, append_assoc, singleton_append]

/-- Each block is decoded to what was encoded, and then the two dynamic tables hold
the same entries and have the same size. -/
def BlocksAgree : HpackEncoder → HpackDecoder → List (List HpackHeader) → Prop
  | _, _, [] => True
  | encoder, decoder, headers :: blocks =>
    let (encoder, data) := encoder.encode headers
    let (decoder, decoded, ok) := decoder.decode data
    ok = true ∧ decoded = headers ∧ decoder.table.dynamicTable = encoder.table.dynamicTable ∧
      decoder.table.dynamicTableSize = encoder.table.dynamicTableSize ∧ BlocksAgree encoder decoder blocks

theorem blocksAgree_of_same_table {encoder : HpackEncoder} {decoder : HpackDecoder} {blocks : List (List HpackHeader)}
    (plain : ∀ headers ∈ blocks, ∀ h ∈ headers, h.Plain) (same : decoder.table = encoder.table) :
    BlocksAgree encoder decoder blocks := by
  induction blocks generalizing encoder decoder with
  | nil => trivial
  | cons headers blocks ih =>
    obtain ⟨first, others⟩ := forall_mem_cons.mp plain
    obtain ⟨next, agrees, decoded⟩ := decodeLoop_encode encoder decoder (fun h member => (first h member).short)
      (length_le_encode encoder headers) []
    have sound : ∀ h ∈ headers, h.received = h := fun h member => (first h member).received
    have table := agrees sound same
    have whole : headers.map HpackHeader.received = headers := (map_congr_left sound).trans (map_id' headers)
    unfold BlocksAgree
    simp only [decode, decoded, nil_append, whole, table, true_and]
    exact ih others table

/-- Blocks that one encoder writes are read back by one decoder with the same limit,
and the tables are equal after every block. -/
theorem hpack_blocks_agree (limit : Nat) {blocks : List (List HpackHeader)}
    (plain : ∀ headers ∈ blocks, ∀ h ∈ headers, h.Plain) :
    BlocksAgree (setMaxDynamicTableSize {} limit) (setMaxDynamicTableSize {} limit) blocks :=
  blocksAgree_of_same_table plain rfl

/-- A block with one header, and one with this header again and another one, for
tables that have room for a single entry. -/
theorem hpack_blocks_agree_twoBlocks :
    BlocksAgree (setMaxDynamicTableSize {} 40) (setMaxDynamicTableSize {} 40)
      [[⟨[120], [49]⟩], [⟨[120], [49]⟩, ⟨[58, 112, 97, 116, 104], [47, 120]⟩]] := by
  refine hpack_blocks_agree 40 ?_
  simp only [forall_mem_cons, not_mem_nil, false_implies, implies_true, and_true]
  exact ⟨⟨by decide, by decide⟩, ⟨by decide, by decide⟩, ⟨by decide, by decide⟩⟩

theorem cString_eq_self_iff : cString text = text ↔ 0 ∉ text := by
  constructor
  · intro whole zero
    rw [← whole] at zero
    simpa using mem_takeWhile_imp zero
  · exact cString_of_not_mem

theorem findStaticLoop_none (missing : findStaticLoop h entries index nameIndex = none) :
    nameIndex = none ∧ ∀ entry ∈ entries, entry.name ≠ cString h.name := by
  induction entries generalizing index nameIndex with
  | nil => exact ⟨Option.map_eq_none_iff.mp missing, by simp⟩
  | cons entry rest ih =>
    unfold findStaticLoop at missing
    split at missing
    · split at missing
      · simp at missing
      · have impossible := (ih missing).1
        cases nameIndex <;> simp at impossible
    · rename_i other
      obtain ⟨unset, later⟩ := ih missing
      exact ⟨unset, forall_mem_cons.mpr ⟨other, later⟩⟩

theorem findStaticLoop_nameOnly (found : findStaticLoop h entries index nameIndex = some (k, true)) :
    ∀ entry ∈ entries, entry.name = cString h.name → entry.value ≠ cString h.value := by
  induction entries generalizing index nameIndex with
  | nil => simp
  | cons entry rest ih =>
    unfold findStaticLoop at found
    split at found
    · split at found
      · simp at found
      · rename_i value
        exact forall_mem_cons.mpr ⟨fun _ => value, ih found⟩
    · rename_i other
      exact forall_mem_cons.mpr ⟨fun name => absurd name other, ih found⟩

/-- A field that does not just look like an entry of the static table up to its first NUL byte. -/
structure HpackHeader.Honest (h : HpackHeader) : Prop where
  name : ∀ entry ∈ kStaticTable, entry.name = cString h.name → 0 ∉ h.name
  value : ∀ entry ∈ kStaticTable, entry.name = cString h.name → entry.value = cString h.value → 0 ∉ h.value

theorem HpackHeader.received_eq_iff : h.received = h ↔ h.Honest := by
  cases found : findStaticIndex h with
  | none =>
    have absent := (findStaticLoop_none found).2
    have whole : h.received = h := by simp only [HpackHeader.received, found]
    refine iff_of_true whole ⟨fun entry member name => absurd name (absent entry member), ?_⟩
    exact fun entry member name => absurd name (absent entry member)
  | some index =>
    obtain ⟨k, nameOnly⟩ := index
    obtain ⟨_, _, entry, atEntry, name, value⟩ := findStaticIndex_spec found
    have listed := mem_of_getElem? atEntry
    cases nameOnly with
    | true =>
      have named : h.received = ⟨cString h.name, h.value⟩ := by simp only [HpackHeader.received, found]
      rw [named, HpackHeader.mk.injEq, cString_eq_self_iff]
      constructor
      · intro plain
        refine ⟨fun _ _ _ => plain.1, fun other member sameName sameValue => ?_⟩
        exact absurd sameValue (findStaticLoop_nameOnly found other member sameName)
      · exact fun honest => ⟨honest.name entry listed name, rfl⟩
    | false =>
      have both : h.received = ⟨cString h.name, cString h.value⟩ := by simp only [HpackHeader.received, found]
      rw [both, HpackHeader.mk.injEq, cString_eq_self_iff, cString_eq_self_iff]
      constructor
      · exact fun plain => ⟨fun _ _ _ => plain.1, fun _ _ _ _ => plain.2⟩
      · exact fun honest => ⟨honest.name entry listed name, honest.value entry listed name (value rfl)⟩

/-- In any states, a list is decoded to itself exactly if its fields are honest. So two different lists of
honest fields are never confused. -/
theorem hpack_never_confuses (encoder : HpackEncoder) (decoder : HpackDecoder) {headers others : List HpackHeader}
    (short : ∀ h ∈ headers, h.Short) (otherShort : ∀ h ∈ others, h.Short) :
    ((decoder.decode (encoder.encode headers).2).2 = (headers, true) ↔ ∀ h ∈ headers, h.Honest) ∧
      ((∀ h ∈ headers, h.Honest) → (∀ h ∈ others, h.Honest) → headers ≠ others →
        (decoder.decode (encoder.encode headers).2).2.1 ≠ (decoder.decode (encoder.encode others).2).2.1) := by
  have decoded {list : List HpackHeader} (small : ∀ h ∈ list, h.Short) :
      (decoder.decode (encoder.encode list).2).2 = (list.map HpackHeader.received, true) := by
    obtain ⟨next, _, loop⟩ := decodeLoop_encode encoder decoder small (length_le_encode encoder list) []
    rw [decode, loop, nil_append]
  have itself (list : List HpackHeader) : list.map HpackHeader.received = list ↔ ∀ h ∈ list, h.Honest := by
    have each := map_eq_map_iff (f := HpackHeader.received) (g := id) (l := list)
    rw [map_id] at each
    exact each.trans (forall₂_congr fun h _ => HpackHeader.received_eq_iff)
  constructor
  · rw [decoded short, Prod.mk.injEq, and_iff_left rfl, itself]
  · intro honest otherHonest different
    rw [decoded short, decoded otherShort, (itself headers).mpr honest, (itself others).mpr otherHonest]
    exact different

/-- A field with a NUL byte in its value that is not in the static table, and one that is in it. -/
theorem hpack_never_confuses_unlisted :
    (decode {} (encode {} [⟨[120], [0]⟩, ⟨ascii ":method", ascii "GET"⟩]).2).2 =
      ([⟨[120], [0]⟩, ⟨ascii ":method", ascii "GET"⟩], true) := by
  have honest : ∀ h ∈ [⟨[120], [0]⟩, (⟨ascii ":method", ascii "GET"⟩ : HpackHeader)], h.Honest := by
    simp only [forall_mem_cons, not_mem_nil, false_implies, implies_true, and_true]
    exact ⟨⟨by decide, by decide⟩, ⟨fun _ _ _ => by decide, fun _ _ _ _ => by decide⟩⟩
  refine (@hpack_never_confuses {} {} _ [] ?_ (by simp)).1.mpr honest
  simp only [forall_mem_cons, not_mem_nil, false_implies, implies_true, and_true]
  exact ⟨⟨by decide, by decide⟩, by decide, by decide⟩

/-- Two different fields are written alike, as an index into the static table. -/
theorem hpack_confuses_nul :
    (encode {} [⟨ascii ":method" ++ [0, 120], ascii "GET"⟩]).2 =
      (encode {} [⟨ascii ":method", ascii "GET"⟩]).2 ∧
    ascii ":method" ++ [0, 120] ≠ ascii ":method" := by
  decide

end Qtng
