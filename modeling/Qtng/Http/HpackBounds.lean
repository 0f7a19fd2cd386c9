import Qtng.Http.HpackRoundTrip

namespace Qtng

open BigEndian List

def fieldSize (h : HpackHeader) : Nat := h.name.length + h.value.length + 32

namespace HpackTable

def total (table : HpackTable) : Nat := (table.dynamicTable.map fieldSize).sum

/-- The table counts its entries, and keeps to its limit and to the one of the local side. -/
structure Bounded (allowed : Nat) (table : HpackTable) : Prop where
  exact : table.dynamicTableSize = table.total
  within : table.dynamicTableSize ≤ table.maxDynamicTableSize
  limit : table.maxDynamicTableSize ≤ allowed

variable {table : HpackTable} {allowed : Nat}

theorem entrySize_eq {h : HpackHeader} (small : fieldSize h < 2 ^ 32) : entrySize h = fieldSize h :=
  Nat.mod_eq_of_lt small

theorem Bounded.evictLoop {rounds : Nat} (enough : table.dynamicTable.length ≤ rounds)
    (exact : table.dynamicTableSize = table.total) (small : table.total < 2 ^ 32)
    (limit : table.maxDynamicTableSize ≤ allowed) : Bounded allowed (table.evictLoop rounds) := by
  induction rounds generalizing table with
  | zero =>
    have empty : table.dynamicTable = [] := eq_nil_of_length_eq_zero (by omega)
    have none : table.total = 0 := by rw [total, empty]; rfl
    exact ⟨exact, by unfold HpackTable.evictLoop; omega, limit⟩
  | succ rounds ih =>
    unfold HpackTable.evictLoop
    split_ifs with excess
    · split
      · rename_i last
        have none : table.total = 0 := by rw [total, getLast?_eq_none_iff.mp last]; rfl
        omega
      · rename_i oldest last
        obtain ⟨front, whole⟩ := getLast?_eq_some_iff.mp last
        have parts : table.total = (front.map fieldSize).sum + fieldSize oldest := by
          rw [total, whole, map_append, sum_append]
          simp
        have size := entrySize_eq (h := oldest) (by omega)
        have rest : table.dynamicTable.dropLast = front := by rw [whole, dropLast_concat]
        have fewer : front.length ≤ rounds := by
          rw [whole, length_append, length_singleton] at enough
          omega
        rw [rest, size]
        refine ih fewer ?_ ?_ limit
        · show (table.dynamicTableSize + 2 ^ 32 - fieldSize oldest) % 2 ^ 32 = (front.map fieldSize).sum
          omega
        · show (front.map fieldSize).sum < 2 ^ 32
          omega
    · exact ⟨exact, by omega, limit⟩

theorem Bounded.setMaxDynamicTableSize {size : Nat} (bounded : table.Bounded allowed) (small : allowed < 2 ^ 31)
    (permitted : size ≤ allowed) : (table.setMaxDynamicTableSize size).Bounded allowed := by
  obtain ⟨exact, within, limit⟩ := bounded
  exact Bounded.evictLoop le_rfl exact (show table.total < 2 ^ 32 by omega) permitted

theorem Bounded.addToDynamicTable {h : HpackHeader} (bounded : table.Bounded allowed) (small : allowed < 2 ^ 31)
    (sized : fieldSize h < 2 ^ 32) : (table.addToDynamicTable h).Bounded allowed := by
  obtain ⟨exact, within, limit⟩ := bounded
  unfold HpackTable.addToDynamicTable
  rw [entrySize_eq sized]
  dsimp only
  split_ifs
  · exact ⟨rfl, Nat.zero_le _, limit⟩
  · have more : total { table with
        dynamicTable := h :: table.dynamicTable
        dynamicTableSize := (table.dynamicTableSize + fieldSize h) % 2 ^ 32 } = fieldSize h + table.total := by
      simp [total]
    refine Bounded.evictLoop le_rfl ?_ ?_ limit
    · rw [more]
      dsimp only
      omega
    · rw [more]
      omega

end HpackTable

namespace HpackDecoder

/-- The size updates in a block stay within a limit, and the fields it adds to the table have sizes of
32 bits. -/
def harmless (allowed : Nat) : Nat → HpackDecoder → Bytes → Bool
  | 0, _, _ => true
  | rounds + 1, decoder, data =>
    match data with
    | [] => true
    | b :: _ =>
      if b.toNat &&& 0x80 ≠ 0 then
        match (decodeInteger data 7).bind fun (index, rest) => (decoder.lookup index).map fun h => (h, rest) with
        | none => true
        | some (_, rest) => harmless allowed rounds decoder rest
      else if b.toNat &&& 0xc0 = 0x40 then
        match decoder.decodeLiteral data 6 with
        | none => true
        | some (h, rest) => fieldSize h < 2 ^ 32 && harmless allowed rounds (decoder.addToDynamicTable h) rest
      else if b.toNat &&& 0xe0 = 0x20 then
        match decodeInteger data 5 with
        | none => true
        | some (size, rest) => size ≤ allowed && harmless allowed rounds (decoder.setMaxDynamicTableSize size) rest
      else
        match decoder.decodeLiteral data 4 with
        | none => true
        | some (_, rest) => harmless allowed rounds decoder rest

/-- The same for the blocks of a connection, each from the state that the one before it has left. -/
def harmlessBlocks (allowed : Nat) : HpackDecoder → List Bytes → Bool
  | _, [] => true
  | decoder, data :: blocks =>
    harmless allowed data.length decoder data && harmlessBlocks allowed (decoder.decode data).1 blocks

def afterBlocks (decoder : HpackDecoder) (blocks : List Bytes) : HpackDecoder :=
  blocks.foldl (fun decoder data => (decoder.decode data).1) decoder

variable {allowed : Nat} {decoder : HpackDecoder}

theorem bounded_decodeLoop {rounds : Nat} {headers : List HpackHeader} {data : Bytes} (small : allowed < 2 ^ 31)
    (bounded : decoder.table.Bounded allowed) (safe : harmless allowed rounds decoder data = true) :
    (decodeLoop rounds decoder headers data).1.table.Bounded allowed := by
  induction rounds generalizing decoder headers data with
  | zero => exact bounded
  | succ rounds ih =>
    cases data with
    | nil => exact bounded
    | cons b rest =>
      unfold decodeLoop
      unfold harmless at safe
      dsimp only at safe ⊢
      split
      · rename_i indexed
        rw [if_pos indexed] at safe
        split <;> rename_i read <;> rw [read] at safe
        · exact bounded
        · exact ih bounded safe
      rename_i plain
      rw [if_neg plain] at safe
      split
      · rename_i literal
        rw [if_pos literal] at safe
        split <;> rename_i read <;> rw [read] at safe
        · exact bounded
        · obtain ⟨sized, later⟩ := Bool.and_eq_true_iff.mp safe
          exact ih (bounded.addToDynamicTable small (of_decide_eq_true sized)) later
      rename_i other
      rw [if_neg other] at safe
      split
      · rename_i update
        rw [if_pos update] at safe
        split <;> rename_i read <;> rw [read] at safe
        · exact bounded
        · obtain ⟨permitted, later⟩ := Bool.and_eq_true_iff.mp safe
          exact ih (bounded.setMaxDynamicTableSize small (of_decide_eq_true permitted)) later
      · rename_i literal
        rw [if_neg literal] at safe
        split <;> rename_i read <;> rw [read] at safe
        · exact bounded
        · exact ih bounded safe

theorem bounded_afterBlocks {blocks : List Bytes} (small : allowed < 2 ^ 31) (bounded : decoder.table.Bounded allowed)
    (safe : harmlessBlocks allowed decoder blocks = true) : (decoder.afterBlocks blocks).table.Bounded allowed := by
  induction blocks generalizing decoder with
  | nil => exact bounded
  | cons data blocks ih =>
    obtain ⟨first, later⟩ := Bool.and_eq_true_iff.mp safe
    exact ih (bounded_decodeLoop small bounded first) later

end HpackDecoder

/-- The number that groups of seven bits stand for, the lowest first. -/
def groupsValue : Bytes → Nat
  | [] => 0
  | b :: rest => b.toNat % 128 + 128 * groupsValue rest

def integerValue (prefixBits : Nat) : Bytes → Nat
  | [] => 0
  | b :: groups => b.toNat % 2 ^ prefixBits + groupsValue groups

theorem decodeRest_value {data rest : Bytes} {v m w : Nat} (read : decodeRest data v m = some (w, rest)) :
    ∃ used, data = used ++ rest ∧ w = (v + groupsValue used * 2 ^ m) % 2 ^ 32 := by
  induction data generalizing v m with
  | nil => simp [decodeRest] at read
  | cons b tail ih =>
    simp only [decodeRest, and_127, Nat.shiftLeft_eq] at read
    split at read
    · cases read
      exact ⟨[b], rfl, by simp [groupsValue]⟩
    · split at read
      · simp at read
      · obtain ⟨used, rfl, value⟩ := ih read
        refine ⟨b :: used, rfl, ?_⟩
        rw [value, Nat.mod_add_mod, groupsValue, pow_add]
        congr 1
        ring

theorem decodeInteger_value {data rest : Bytes} {prefixBits v : Nat}
    (read : decodeInteger data prefixBits = some (v, rest)) :
    ∃ used, data = used ++ rest ∧ v = integerValue prefixBits used % 2 ^ 32 := by
  cases data with
  | nil => simp [decodeInteger] at read
  | cons b tail =>
    simp only [decodeInteger, Nat.and_two_pow_sub_one_eq_mod] at read
    split at read
    · cases read
      have low : b.toNat % 2 ^ prefixBits ≤ b.toNat := Nat.mod_le _ _
      have byte := b.toNat_lt
      refine ⟨[b], rfl, (Nat.mod_eq_of_lt ?_).symm⟩
      show b.toNat % 2 ^ prefixBits + 0 < 2 ^ 32
      omega
    · obtain ⟨used, rfl, value⟩ := decodeRest_value read
      exact ⟨b :: used, rfl, by rw [value, integerValue, pow_zero, Nat.mul_one]⟩

/-- The table is in order after every sequence of harmless blocks. A number that is accepted is the one
encoded, exactly if that has 32 bits. -/
theorem hpack_decoder_bounded {allowed : Nat} (small : allowed < 2 ^ 31) {blocks : List Bytes}
    (safe : HpackDecoder.harmlessBlocks allowed (HpackDecoder.setMaxDynamicTableSize {} allowed) blocks = true) :
    ((HpackDecoder.setMaxDynamicTableSize {} allowed).afterBlocks blocks).table.Bounded allowed ∧
      ∀ (data rest : Bytes) (prefixBits v : Nat), decodeInteger data prefixBits = some (v, rest) →
        ∃ used, data = used ++ rest ∧
          (v = integerValue prefixBits used ↔ integerValue prefixBits used < 2 ^ 32) := by
  refine ⟨HpackDecoder.bounded_afterBlocks small ⟨rfl, Nat.zero_le _, le_rfl⟩ safe, ?_⟩
  intro data rest prefixBits v read
  obtain ⟨used, parts, rfl⟩ := decodeInteger_value read
  refine ⟨used, parts, fun same => ?_, fun fits => Nat.mod_eq_of_lt fits⟩
  rw [← same]
  exact Nat.mod_lt _ (by decide)

/-- A table with room for one entry, into which two are put. -/
theorem hpack_decoder_bounded_full :
    ((HpackDecoder.setMaxDynamicTableSize {} 40).afterBlocks
      [[0x40, 1, 120, 1, 49], [0x40, 1, 121, 1, 50]]).table.Bounded
      40 :=
  (hpack_decoder_bounded (by decide) (by decide)).1

/-- A size update lifts the limit from 4096 to 8192, and an integer of six bytes is taken for 126. -/
theorem hpack_decoder_unbounded :
    (HpackDecoder.decode {} [0x3f, 0xe1, 0x3f]).1.table.maxDynamicTableSize = 8192 ∧
      decodeInteger [0xff, 0xff, 0xff, 0xff, 0xff, 0x7f] 7 = some (126, []) ∧
      integerValue 7 [0xff, 0xff, 0xff, 0xff, 0xff, 0x7f] = 2 ^ 35 + 126 := by
  decide

end Qtng
