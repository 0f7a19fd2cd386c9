import Qtng.Http.HpackTables

namespace Qtng

open BigEndian List Option

section Bits

theorem bitsBelow_congr {a b n : Nat} (same : ∀ i < n, a.testBit i = b.testBit i) : bitsBelow a n = bitsBelow b n := by
  induction n with
  | zero => rfl
  | succ n ih =>
    rw [bitsBelow, bitsBelow, same n n.lt_succ_self, ih fun i below => same i (by omega)]

theorem bitsBelow_add (value m n : Nat) : bitsBelow value (m + n) = bitsBelow (value >>> n) m ++ bitsBelow value n := by
  induction m with
  | zero => simp [bitsBelow]
  | succ m ih =>
    rw [show m + 1 + n = m + n + 1 by omega, bitsBelow, ih, bitsBelow, Nat.testBit_shiftRight, Nat.add_comm n m]
    rfl

theorem bitsBelow_mod (value : Nat) {m n : Nat} (below : n ≤ m) : bitsBelow (value % 2 ^ m) n = bitsBelow value n := by
  refine bitsBelow_congr fun i inside => ?_
  rw [Nat.testBit_mod_two_pow]
  simp [show i < m by omega]

theorem length_bitsBelow (value n : Nat) : (bitsBelow value n).length = n := by
  induction n with
  | zero => rfl
  | succ n ih => simp [bitsBelow, ih]

theorem bitsBelow_shiftLeft_or (buffer code bits : Nat) {length : Nat} (small : code < 2 ^ length) :
    bitsBelow ((buffer <<< length) ||| code) (bits + length) = bitsBelow buffer bits ++ bitsBelow code length := by
  rw [bitsBelow_add]
  have high : ((buffer <<< length) ||| code) >>> length = buffer := by
    rw [Nat.shiftRight_or_distrib, Nat.shiftLeft_shiftRight, Nat.shiftRight_eq_div_pow, Nat.div_eq_of_lt small,
      Nat.or_zero]
  have low : bitsBelow ((buffer <<< length) ||| code) length = bitsBelow code length := by
    refine bitsBelow_congr fun i below => ?_
    simp [Nat.testBit_or, Nat.testBit_shiftLeft, below]
  rw [high, low]

theorem bitsBelow_inj {a b n : Nat} (smallA : a < 2 ^ n) (smallB : b < 2 ^ n) (same : bitsBelow a n = bitsBelow b n) :
    a = b := by
  have bits : ∀ m ≤ n, bitsBelow a m = bitsBelow b m := by
    intro m below
    obtain ⟨k, rfl⟩ := Nat.exists_eq_add_of_le' below
    rw [bitsBelow_add, bitsBelow_add] at same
    exact (append_inj same (by simp [length_bitsBelow])).2
  refine Nat.eq_of_testBit_eq fun i => ?_
  by_cases inside : i < n
  · exact (cons.inj (bits (i + 1) inside)).1
  · rw [Nat.testBit_lt_two_pow (smallA.trans_le (Nat.pow_le_pow_right (by omega) (by omega))),
      Nat.testBit_lt_two_pow (smallB.trans_le (Nat.pow_le_pow_right (by omega) (by omega)))]

end Bits

section Encoding

def bitsOf (bytes : Bytes) : List Bool := bytes.flatMap fun byte => bitsBelow byte.toNat 8

def codeOf (ch : UInt8) : Nat × Nat := kHuffmanTable[ch.toNat]?.getD (0, 0)

def codeBits (entry : Nat × Nat) : List Bool := bitsBelow entry.1 entry.2

def codedLength (input : Bytes) : Nat := (input.map fun ch => (codeOf ch).2).sum

def padding (bits : Nat) : Nat := (8 - bits % 8) % 8

theorem table_small : ∀ entry ∈ kHuffmanTable, entry.1 < 2 ^ entry.2 ∧ entry.2 ≤ 30 := by decide +kernel

theorem table_positive : ∀ entry ∈ kHuffmanTable, 0 < entry.2 := by decide +kernel

theorem table_length : kHuffmanTable.length = 257 := by decide +kernel

theorem codeOf_mem (ch : UInt8) : codeOf ch ∈ kHuffmanTable := by
  have inside : ch.toNat < kHuffmanTable.length := by
    rw [table_length]
    exact ch.toNat_lt.trans (by omega)
  rw [codeOf, getElem?_eq_getElem inside]
  exact getElem_mem inside

theorem bitsBelow_ofNat (value : Nat) : bitsBelow (UInt8.ofNat value).toNat 8 = bitsBelow value 8 := by
  rw [UInt8.toNat_ofNat']
  exact bitsBelow_mod value le_rfl

theorem bitsOf_append (front back : Bytes) : bitsOf (front ++ back) = bitsOf front ++ bitsOf back :=
  flatMap_append

theorem bitsOf_ofNat_cons (value : Nat) (rest : Bytes) :
    bitsOf (UInt8.ofNat value :: rest) = bitsBelow value 8 ++ bitsOf rest := by
  rw [bitsOf, flatMap_cons, bitsBelow_ofNat, bitsOf]

theorem bitsOf_flushBytes (buffer : Nat) {rounds bits : Nat} (enough : bits ≤ rounds) :
    bitsOf (flushBytes buffer rounds bits).1 ++ bitsBelow buffer (flushBytes buffer rounds bits).2 =
      bitsBelow buffer bits ∧ (flushBytes buffer rounds bits).2 = bits % 8 := by
  induction rounds generalizing bits with
  | zero =>
    obtain rfl := Nat.le_zero.mp enough
    exact ⟨rfl, rfl⟩
  | succ rounds ih =>
    by_cases whole : bits ≥ 8
    · obtain ⟨rest, rfl⟩ := Nat.exists_eq_add_of_le whole
      obtain ⟨same, left⟩ := @ih rest (by omega)
      simp only [flushBytes, if_pos whole, Nat.add_sub_cancel_left]
      rw [bitsOf_ofNat_cons, append_assoc, same, left, bitsBelow_add buffer 8 rest, Nat.add_mod_left]
      exact ⟨rfl, rfl⟩
    · rw [flushBytes, if_neg whole]
      exact ⟨rfl, by omega⟩

theorem padding_bits {bits : Nat} (some : 0 < bits) (few : bits < 8) : (0xff >>> bits) < 2 ^ (8 - bits) ∧
    bitsBelow (0xff >>> bits) (8 - bits) = replicate (padding bits) true := by
  interval_cases bits <;> decide

/-- The buffer of huffmanEncode once the code of a byte is in it. -/
def pack (buffer : Nat) (ch : UInt8) : Nat := ((buffer <<< (codeOf ch).2) ||| (codeOf ch).1) % 2 ^ 64

theorem huffmanEncodeLoop_cons (ch : UInt8) (rest : Bytes) (buffer bits : Nat) :
    huffmanEncodeLoop (ch :: rest) buffer bits =
      (flushBytes (pack buffer ch) (bits + (codeOf ch).2) (bits + (codeOf ch).2)).1 ++
        huffmanEncodeLoop rest (pack buffer ch)
          (flushBytes (pack buffer ch) (bits + (codeOf ch).2) (bits + (codeOf ch).2)).2 := rfl

theorem bitsBelow_pack (buffer : Nat) (ch : UInt8) {bits : Nat} (few : bits < 8) :
    bitsBelow (pack buffer ch) (bits + (codeOf ch).2) = bitsBelow buffer bits ++ codeBits (codeOf ch) := by
  obtain ⟨small, short⟩ := table_small _ (codeOf_mem ch)
  rw [pack, bitsBelow_mod _ (by omega), bitsBelow_shiftLeft_or buffer _ bits small, codeBits]

theorem bitsOf_huffmanEncodeLoop (input : Bytes) {buffer bits : Nat} (few : bits < 8) :
    bitsOf (huffmanEncodeLoop input buffer bits) = bitsBelow buffer bits ++
      (input.flatMap (fun ch => codeBits (codeOf ch)) ++ replicate (padding (bits + codedLength input)) true) := by
  induction input generalizing buffer bits with
  | nil =>
    rw [huffmanEncodeLoop]
    split
    · rename_i some
      obtain ⟨small, ones⟩ := padding_bits some few
      have packed := bitsBelow_shiftLeft_or buffer (0xff >>> bits) bits small
      rw [Nat.add_sub_cancel' few.le, ones] at packed
      rw [bitsOf_ofNat_cons, packed]
      exact append_nil _
    · obtain rfl : bits = 0 := by omega
      rfl
  | cons ch rest ih =>
    obtain ⟨flushed, left⟩ := bitsOf_flushBytes (pack buffer ch) (le_refl (bits + (codeOf ch).2))
    rw [bitsBelow_pack buffer ch few] at flushed
    have total : padding ((flushBytes (pack buffer ch) (bits + (codeOf ch).2) (bits + (codeOf ch).2)).2 +
        codedLength rest) = padding (bits + codedLength (ch :: rest)) := by
      simp only [left, padding, codedLength, map_cons, sum_cons]
      omega
    rw [huffmanEncodeLoop_cons, bitsOf_append, ih (by omega), total, ← append_assoc, flushed, flatMap_cons,
      append_assoc, append_assoc]

theorem bitsOf_huffmanEncode (input : Bytes) : bitsOf (huffmanEncode input) =
    input.flatMap (fun ch => codeBits (codeOf ch)) ++ replicate (padding (codedLength input)) true := by
  have whole := @bitsOf_huffmanEncodeLoop input 0 0 (by omega)
  rwa [Nat.zero_add] at whole

end Encoding

section Tree

variable {nodes : Array HuffmanNode}
variable {entries : List ((Nat × Nat) × Nat)}

def follow (nodes : Array HuffmanNode) (bit : Bool) (idx : Nat) : Option Nat :=
  if (nodes.getD idx {}).child bit < 0 then none else some ((nodes.getD idx {}).child bit).toNat

def nodeAt (nodes : Array HuffmanNode) (path : List Bool) : Option Nat :=
  path.foldl (fun place bit => place.bind (follow nodes bit)) (some 0)

/-- Paths lead to nodes, and different paths to different nodes. -/
structure Rooted (nodes : Array HuffmanNode) : Prop where
  inside : ∀ p i, nodeAt nodes p = some i → i < nodes.size
  single : ∀ p q i, nodeAt nodes p = some i → nodeAt nodes q = some i → p = q

theorem nodeAt_concat (nodes : Array HuffmanNode) (p : List Bool) (bit : Bool) :
    nodeAt nodes (p ++ [bit]) = (nodeAt nodes p).bind (follow nodes bit) := by
  rw [nodeAt, foldl_append]
  rfl

theorem nodeAt_front {p q : List Bool} {i : Nat} (reached : nodeAt nodes (p ++ q) = some i) :
    ∃ j, nodeAt nodes p = some j := by
  induction q using reverseRecOn generalizing i with
  | nil => exact ⟨i, by simpa using reached⟩
  | append_singleton q bit ih =>
    rw [← append_assoc, nodeAt_concat] at reached
    obtain ⟨j, before, _⟩ := bind_eq_some_iff.mp reached
    exact ih before

theorem getD_modify (nodes : Array HuffmanNode) (f : HuffmanNode → HuffmanNode) {i : Nat} (inside : i < nodes.size)
    (j : Nat) : (nodes.modify i f).getD j {} = if j = i then f (nodes.getD j {}) else nodes.getD j {} := by
  simp only [Array.getD_eq_getD_getElem?, Array.getElem?_modify]
  by_cases same : j = i
  · subst same
    simp [inside]
  · simp [same, Ne.symm same]

theorem getD_push (nodes : Array HuffmanNode) (j : Nat) : (nodes.push {}).getD j {} = nodes.getD j {} := by
  simp only [Array.getD_eq_getD_getElem?, Array.getElem?_push]
  split
  · rename_i last
    simp [last]
  · rfl

def grow (nodes : Array HuffmanNode) (idx : Nat) (bit : Bool) : Array HuffmanNode :=
  (nodes.push {}).modify idx fun node => node.setChild bit nodes.size

theorem getD_grow (idx : Nat) (inside : idx < nodes.size) (bit : Bool) (j : Nat) : (grow nodes idx bit).getD j {} =
    if j = idx then (nodes.getD j {}).setChild bit nodes.size else nodes.getD j {} := by
  rw [grow, getD_modify _ _ (by rw [Array.size_push]; omega), getD_push]

theorem symbol_grow (idx : Nat) (inside : idx < nodes.size) (bit : Bool) (j : Nat) :
    ((grow nodes idx bit).getD j {}).symbol = (nodes.getD j {}).symbol := by
  rw [getD_grow idx inside]
  split
  · unfold HuffmanNode.setChild
    split <;> rfl
  · rfl

theorem follow_grow {idx : Nat} (inside : idx < nodes.size) (bit other : Bool) (j : Nat) :
    follow (grow nodes idx bit) other j =
      if j = idx ∧ other = bit then some nodes.size else follow nodes other j := by
  simp only [follow, getD_grow idx inside]
  by_cases here : j = idx
  · subst here
    cases bit <;> cases other <;> simp [HuffmanNode.child, HuffmanNode.setChild]
  · simp [here]

theorem Rooted.nodeAt_grow (rooted : Rooted nodes) {p : List Bool} {idx : Nat} (reached : nodeAt nodes p = some idx)
    {bit : Bool} (missing : follow nodes bit idx = none) (q : List Bool) :
    nodeAt (grow nodes idx bit) q = if q = p ++ [bit] then some nodes.size else nodeAt nodes q := by
  have inside := rooted.inside p idx reached
  have absent : nodeAt nodes (p ++ [bit]) = none := by rw [nodeAt_concat, reached, bind_some, missing]
  -- no path goes on behind the new node
  have leaf : ∀ other, follow nodes other nodes.size = none := fun other => by
    simp [follow, HuffmanNode.child]
  induction q using reverseRecOn with
  | nil => simp [nodeAt]
  | append_singleton q other ih =>
    rw [nodeAt_concat, ih]
    by_cases new : q = p ++ [bit]
    · have longer : q ++ [other] ≠ p ++ [bit] := by
        rw [new]
        simp
      rw [if_pos new, if_neg longer, bind_some, follow_grow inside, if_neg (by omega), leaf, nodeAt_concat, new,
        absent, bind_none]
    · rw [if_neg new, nodeAt_concat]
      by_cases here : q = p ∧ other = bit
      · obtain ⟨rfl, rfl⟩ := here
        rw [if_pos rfl, reached, bind_some, follow_grow inside, if_pos ⟨rfl, rfl⟩]
      · rw [if_neg (by simpa [append_inj_left', append_left_inj] using here)]
        cases before : nodeAt nodes q with
        | none => rfl
        | some i =>
          have elsewhere : ¬(i = idx ∧ other = bit) := by
            rintro ⟨rfl, bits⟩
            exact here ⟨rooted.single q p i before reached, bits⟩
          rw [bind_some, bind_some, follow_grow inside, if_neg elsewhere]

theorem size_grow (nodes : Array HuffmanNode) (idx : Nat) (bit : Bool) :
    (grow nodes idx bit).size = nodes.size + 1 := by
  simp [grow]

theorem Rooted.grow (rooted : Rooted nodes) {p : List Bool} {idx : Nat} (reached : nodeAt nodes p = some idx)
    {bit : Bool} (missing : follow nodes bit idx = none) : Rooted (Qtng.grow nodes idx bit) := by
  have walks := rooted.nodeAt_grow reached missing
  constructor
  · intro q i found
    rw [walks] at found
    rw [size_grow]
    split at found
    · cases found
      omega
    · have := rooted.inside q i found
      omega
  · intro q r i first second
    rw [walks] at first second
    split at first <;> split at second
    · rename_i hq hr
      rw [hq, hr]
    · cases first
      exact absurd (rooted.inside r _ second) (by omega)
    · cases second
      exact absurd (rooted.inside q _ first) (by omega)
    · exact rooted.single q r i first second

/-- What addPath makes of a tree: the path is there, and no other path or symbol changes. -/
structure Extends (nodes : Array HuffmanNode) (path : List Bool) (result : Array HuffmanNode × Nat) : Prop where
  rooted : Rooted result.1
  reached : nodeAt result.1 path = some result.2
  kept : ∀ q i, nodeAt nodes q = some i → nodeAt result.1 q = some i
  symbols : ∀ i, (result.1.getD i {}).symbol = (nodes.getD i {}).symbol

theorem extends_addPath (bits : List Bool) (rooted : Rooted nodes) {p : List Bool} {idx : Nat}
    (reached : nodeAt nodes p = some idx) : Extends nodes (p ++ bits) (addPath bits idx nodes) := by
  induction bits generalizing nodes p idx with
  | nil => exact ⟨rooted, by simpa [addPath] using reached, fun _ _ => id, fun _ => rfl⟩
  | cons bit rest ih =>
    rw [addPath, append_cons]
    split
    · rename_i low
      have missing : follow nodes bit idx = none := if_pos low
      have walks := rooted.nodeAt_grow reached missing
      obtain ⟨grown, last, kept, symbols⟩ := ih (rooted.grow reached missing) (by rw [walks, if_pos rfl])
      refine ⟨grown, last, fun q i found => kept q i ?_, fun i => (symbols i).trans ?_⟩
      · rw [walks, if_neg, found]
        rintro rfl
        rw [nodeAt_concat, reached, bind_some, missing] at found
        cases found
      · exact symbol_grow idx (rooted.inside p idx reached) bit i
    · rename_i present
      refine ih rooted ?_
      rw [nodeAt_concat, reached]
      exact if_neg present

def addCode (nodes : Array HuffmanNode) (entry : (Nat × Nat) × Nat) : Array HuffmanNode :=
  (addPath (codeBits entry.1) 0 nodes).1.modify (addPath (codeBits entry.1) 0 nodes).2
    fun node => { node with symbol := entry.2 }

theorem buildHuffmanTree_eq : buildHuffmanTree = kHuffmanTable.zipIdx.foldl addCode #[{}] := rfl

structure Coded (nodes : Array HuffmanNode) (entries : List ((Nat × Nat) × Nat)) : Prop where
  rooted : Rooted nodes
  leaves : ∀ entry ∈ entries, ∃ i, nodeAt nodes (codeBits entry.1) = some i ∧ (nodes.getD i {}).symbol = entry.2
  marks : ∀ i, 0 ≤ (nodes.getD i {}).symbol → ∃ entry ∈ entries, nodeAt nodes (codeBits entry.1) = some i

theorem nodeAt_mark {idx : Nat} (inside : idx < nodes.size) (symbol : Int) (q : List Bool) :
    nodeAt (nodes.modify idx fun node => { node with symbol }) q = nodeAt nodes q := by
  have same : follow (nodes.modify idx fun node => { node with symbol }) = follow nodes := by
    funext bit j
    simp only [follow, getD_modify _ _ inside]
    split <;> rfl
  rw [nodeAt, same, nodeAt]

theorem Coded.addCode {entry : (Nat × Nat) × Nat} (coded : Coded nodes entries)
    (new : ∀ old ∈ entries, codeBits old.1 ≠ codeBits entry.1) :
    Coded (Qtng.addCode nodes entry) (entries ++ [entry]) := by
  obtain ⟨rooted, reached, kept, symbols⟩ := @extends_addPath nodes (codeBits entry.1) coded.rooted [] 0 rfl
  rw [nil_append] at reached
  have inside := rooted.inside _ _ reached
  have walks := nodeAt_mark inside entry.2
  have values := getD_modify _ (fun node => { node with symbol := entry.2 }) inside
  refine ⟨⟨?_, ?_⟩, ?_, ?_⟩
  · intro q i found
    rw [Qtng.addCode, Array.size_modify]
    exact rooted.inside q i ((walks q).symm.trans found)
  · intro q r i first second
    exact rooted.single q r i ((walks q).symm.trans first) ((walks r).symm.trans second)
  · intro other member
    rcases mem_append.mp member with old | last
    · obtain ⟨i, found, symbol⟩ := coded.leaves other old
      refine ⟨i, (walks _).trans (kept _ i found), ?_⟩
      have elsewhere : i ≠ (addPath (codeBits entry.1) 0 nodes).2 := by
        rintro rfl
        exact new other old (rooted.single _ _ _ (kept _ _ found) reached)
      rw [Qtng.addCode, values, if_neg elsewhere, symbols, symbol]
    · obtain rfl := mem_singleton.mp last
      refine ⟨_, (walks _).trans reached, ?_⟩
      rw [Qtng.addCode, values, if_pos rfl]
  · intro i symbol
    rw [Qtng.addCode, values] at symbol
    split at symbol
    · rename_i here
      exact ⟨entry, by simp, (walks _).trans (here ▸ reached)⟩
    · rw [symbols] at symbol
      obtain ⟨other, member, found⟩ := coded.marks i symbol
      exact ⟨other, mem_append_left _ member, (walks _).trans (kept _ i found)⟩

theorem coded_foldl (rest : List ((Nat × Nat) × Nat)) (coded : Coded nodes entries)
    (apart : (entries ++ rest).Pairwise fun a b => codeBits a.1 ≠ codeBits b.1) :
    Coded (rest.foldl addCode nodes) (entries ++ rest) := by
  induction rest generalizing nodes entries with
  | nil => simpa using coded
  | cons entry rest ih =>
    rw [append_cons] at apart ⊢
    refine ih (coded.addCode fun old member => ?_) apart
    exact (pairwise_append.mp (pairwise_append.mp apart).1).2.2 old member entry (mem_singleton_self _)

end Tree

section Table

def beginsWith (b a : Nat × Nat) : Bool := Nat.ble a.2 b.2 && Nat.beq (b.1 >>> (b.2 - a.2)) a.1

theorem table_apart : kHuffmanTable.Pairwise fun a b => (beginsWith a b || beginsWith b a) = false := by
  decide +kernel

theorem beginsWith_of_start {a b : Nat × Nat} (smallA : a.1 < 2 ^ a.2) (smallB : b.1 < 2 ^ b.2)
    (start : codeBits a <+: codeBits b) : beginsWith b a = true := by
  have shorter := start.length_le
  simp only [codeBits, length_bitsBelow] at shorter start
  obtain ⟨more, lengths⟩ := Nat.exists_eq_add_of_le shorter
  rw [lengths, bitsBelow_add] at start
  have same : bitsBelow a.1 a.2 = bitsBelow (b.1 >>> more) a.2 :=
    (prefix_of_prefix_length_le start (prefix_append _ _) (by simp [length_bitsBelow])).eq_of_length
      (by simp [length_bitsBelow])
  have small : b.1 >>> more < 2 ^ a.2 := by
    rw [Nat.shiftRight_eq_div_pow, Nat.div_lt_iff_lt_mul (by positivity), ← pow_add, ← lengths]
    exact smallB
  have value := bitsBelow_inj smallA small same
  simp [beginsWith, lengths, ← value]

def Apart (a b : (Nat × Nat) × Nat) : Prop := (beginsWith a.1 b.1 || beginsWith b.1 a.1) = false

instance : Std.Symm Apart := ⟨fun _ _ apart => (Bool.or_comm _ _).trans apart⟩

theorem entries_apart : kHuffmanTable.zipIdx.Pairwise Apart := by
  have apart := table_apart
  rw [← zipIdx_map_fst 0 kHuffmanTable, pairwise_map] at apart
  exact apart

theorem eq_of_codeBits_start {a b : (Nat × Nat) × Nat} (memberA : a ∈ kHuffmanTable.zipIdx)
    (memberB : b ∈ kHuffmanTable.zipIdx) (start : codeBits a.1 <+: codeBits b.1) : a = b := by
  by_contra different
  have clear := entries_apart.forall memberA memberB different
  have begins := beginsWith_of_start (table_small _ (fst_mem_of_mem_zipIdx memberA)).1
    (table_small _ (fst_mem_of_mem_zipIdx memberB)).1 start
  simp [Apart, begins] at clear

theorem coded_buildHuffmanTree : Coded buildHuffmanTree kHuffmanTable.zipIdx := by
  have empty : ∀ i bit, follow #[{}] bit i = none := fun i bit => by
    rcases i with _ | i <;> cases bit <;> simp [follow, HuffmanNode.child]
  have only : ∀ p i, nodeAt #[{}] p = some i → p = [] ∧ i = 0 := by
    intro p i found
    induction p using reverseRecOn with
    | nil => exact ⟨rfl, (some.inj found).symm⟩
    | append_singleton p bit _ =>
      rw [nodeAt_concat] at found
      obtain ⟨j, _, last⟩ := bind_eq_some_iff.mp found
      rw [empty] at last
      cases last
  have start : Coded #[{}] [] := by
    refine ⟨⟨fun p i found => ?_, fun p q i first second => ?_⟩, by simp, fun i symbol => ?_⟩
    · rw [(only p i found).2]
      decide
    · rw [(only p i first).1, (only q i second).1]
    · rcases i with _ | i <;> simp at symbol
  rw [buildHuffmanTree_eq]
  refine coded_foldl _ start (List.Pairwise.imp_of_mem ?_ entries_apart)
  intro a b memberA memberB apart same
  have begins := beginsWith_of_start (table_small _ (fst_mem_of_mem_zipIdx memberA)).1
    (table_small _ (fst_mem_of_mem_zipIdx memberB)).1 (same ▸ prefix_rfl)
  simp [Apart, begins] at apart

end Table

section Decoding

variable {entry : (Nat × Nat) × Nat} {out : Bytes}

theorem symbol_inner (member : entry ∈ kHuffmanTable.zipIdx) {q : List Bool} (start : q <+: codeBits entry.1)
    (proper : q ≠ codeBits entry.1) {i : Nat} (found : nodeAt buildHuffmanTree q = some i) :
    (buildHuffmanTree.getD i {}).symbol < 0 := by
  by_contra marked
  obtain ⟨other, others, same⟩ := coded_buildHuffmanTree.marks i (by omega)
  obtain rfl := coded_buildHuffmanTree.rooted.single _ _ _ found same
  rw [eq_of_codeBits_start others member start] at proper
  exact proper rfl

theorem huffmanDecodeLoop_cons {tree : Array HuffmanNode} {bit : Bool} {idx i : Nat}
    (followed : follow tree bit idx = some i) (rest : List Bool) (out : Bytes) :
    huffmanDecodeLoop tree (bit :: rest) idx out =
      if (tree.getD i {}).symbol ≥ 0 then
        if (tree.getD i {}).symbol = 256 then some out
        else huffmanDecodeLoop tree rest 0 (out ++ [UInt8.ofNat (tree.getD i {}).symbol.toNat])
      else huffmanDecodeLoop tree rest i out := by
  unfold follow at followed
  split at followed
  · cases followed
  · rename_i present
    obtain rfl := some.inj followed
    rw [huffmanDecodeLoop, if_neg present]

theorem decode_rest (member : entry ∈ kHuffmanTable.zipIdx) (byte : entry.2 < 256) (rest : List Bool)
    {before : List Bool} {bit : Bool} {after : List Bool} (code : codeBits entry.1 = before ++ bit :: after) {idx : Nat}
    (reached : nodeAt buildHuffmanTree before = some idx) :
    huffmanDecodeLoop buildHuffmanTree (bit :: after ++ rest) idx out =
      huffmanDecodeLoop buildHuffmanTree rest 0 (out ++ [UInt8.ofNat entry.2]) := by
  obtain ⟨leaf, found, symbol⟩ := coded_buildHuffmanTree.leaves entry member
  induction after generalizing before bit idx with
  | nil =>
    rw [code, nodeAt_concat, reached, bind_some] at found
    rw [cons_append, huffmanDecodeLoop_cons found, symbol, if_pos (Int.natCast_nonneg _), if_neg (by omega),
      Int.toNat_natCast, nil_append]
  | cons next after ih =>
    have longer : codeBits entry.1 = before ++ [bit] ++ next :: after := by simp [code]
    obtain ⟨i, inner⟩ : ∃ i, nodeAt buildHuffmanTree (before ++ [bit]) = some i := nodeAt_front (longer ▸ found)
    have unmarked := symbol_inner member (longer ▸ prefix_append _ _) (by simp [longer]) inner
    have followed := inner
    rw [nodeAt_concat, reached, bind_some] at followed
    rw [cons_append, huffmanDecodeLoop_cons followed, if_neg (by omega)]
    exact ih longer inner

theorem decode_code (ch : UInt8) (rest : List Bool) :
    huffmanDecodeLoop buildHuffmanTree (codeBits (codeOf ch) ++ rest) 0 out =
      huffmanDecodeLoop buildHuffmanTree rest 0 (out ++ [ch]) := by
  have inside : ch.toNat < kHuffmanTable.length := by
    rw [table_length]
    exact ch.toNat_lt.trans (by omega)
  have member : (codeOf ch, ch.toNat) ∈ kHuffmanTable.zipIdx := by
    rw [mem_zipIdx_iff_getElem?, codeOf, getElem?_eq_getElem inside]
    rfl
  have some : codeBits (codeOf ch) ≠ [] := by
    rw [← length_pos_iff, codeBits, length_bitsBelow]
    exact table_positive _ (codeOf_mem ch)
  obtain ⟨bit, after, code⟩ := exists_cons_of_ne_nil some
  have read := @decode_rest _ out member ch.toNat_lt rest [] bit after code 0 rfl
  rw [code, read, UInt8.ofNat_toNat]

theorem end_mem : ((0x3fffffff, 30), 256) ∈ kHuffmanTable.zipIdx := by
  rw [mem_zipIdx_iff_getElem?]
  decide +kernel

/-- Some ones behind the last code leave the decoder inside the code of the end. -/
theorem decode_ones {k m idx : Nat} (reached : nodeAt buildHuffmanTree (replicate k true) = some idx)
    (positive : 0 < k + m) (few : k + m < 30) (out : Bytes) :
    huffmanDecodeLoop buildHuffmanTree (replicate m true) idx out = none := by
  have code : codeBits (0x3fffffff, 30) = replicate 30 true := by decide
  have inner : ∀ n < 30, ∃ i, nodeAt buildHuffmanTree (replicate n true) = some i ∧
      (buildHuffmanTree.getD i {}).symbol < 0 := by
    intro n short
    have split : codeBits (0x3fffffff, 30) = replicate n true ++ replicate (30 - n) true := by
      rw [code, ← replicate_add, Nat.add_sub_cancel' short.le]
    obtain ⟨leaf, found, _⟩ := coded_buildHuffmanTree.leaves _ end_mem
    obtain ⟨i, front⟩ := nodeAt_front (split ▸ found)
    refine ⟨i, front, symbol_inner end_mem (split ▸ prefix_append _ _) (fun same => ?_) front⟩
    have lengths := congrArg length same
    simp only [code, length_replicate] at lengths
    omega
  induction m generalizing k idx with
  | zero =>
    obtain ⟨i, found, unmarked⟩ := inner k (by omega)
    obtain rfl := some.inj (found.symm.trans reached)
    have away : i ≠ 0 := by
      rintro rfl
      have same := coded_buildHuffmanTree.rooted.single _ [] 0 reached rfl
      rw [replicate_eq_nil_iff] at same
      omega
    rw [replicate_zero, huffmanDecodeLoop, if_neg (by omega)]
  | succ m ih =>
    obtain ⟨i, found, unmarked⟩ := inner (k + 1) (by omega)
    have followed := found
    rw [replicate_succ', nodeAt_concat, reached, bind_some] at followed
    rw [replicate_succ, huffmanDecodeLoop_cons followed, if_neg (by omega)]
    exact ih found (by omega) (by omega)

theorem decode_codes (input : Bytes) (rest : List Bool) (out : Bytes) :
    huffmanDecodeLoop buildHuffmanTree (input.flatMap (fun ch => codeBits (codeOf ch)) ++ rest) 0 out =
      huffmanDecodeLoop buildHuffmanTree rest 0 (out ++ input) := by
  induction input generalizing out with
  | nil => simp
  | cons ch input ih =>
    rw [flatMap_cons, append_assoc, decode_code, ih, append_assoc, singleton_append]

theorem huffmanDecode_huffmanEncode (input : Bytes) : huffmanDecode (huffmanEncode input) =
    huffmanDecodeLoop buildHuffmanTree (replicate (padding (codedLength input)) true) 0 input := by
  show huffmanDecodeLoop _ (bitsOf (huffmanEncode input)) 0 [] = _
  rw [bitsOf_huffmanEncode, decode_codes, nil_append]

/-- Decoding gives back the string exactly when its codes fill whole bytes: behind any
padding the decoder is not at the root. -/
theorem huffmanDecode_encode_iff (input : Bytes) :
    huffmanDecode (huffmanEncode input) = some input ↔ codedLength input % 8 = 0 := by
  rw [huffmanDecode_huffmanEncode]
  by_cases whole : codedLength input % 8 = 0
  · simp [padding, whole, huffmanDecodeLoop]
  · have some : 0 < 0 + padding (codedLength input) := by
      unfold padding
      omega
    have few : 0 + padding (codedLength input) < 30 := by
      unfold padding
      omega
    rw [@decode_ones 0 _ 0 rfl some few]
    simp [whole]

/-- The letter a has a code of five bits. -/
theorem huffman_oneLetter : huffmanDecode (huffmanEncode [0x61]) = none := by
  have bits : padding (codedLength [0x61]) = 3 := by decide +kernel
  rw [huffmanDecode_huffmanEncode, bits]
  exact @decode_ones 0 3 0 rfl (by omega) (by omega) _

end Decoding

end Qtng
