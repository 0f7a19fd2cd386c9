import Qtng.MsgPack.Costs

namespace Qtng.MsgPack

open BigEndian Reader

/-- An element type of containers: the operators that write and read it, which values can be written
and which of them can be read back. -/
structure Leaf where
  Val : Type
  eq : DecidableEq Val
  write : Val → Bytes
  read : Read Val
  Valid : Val → Prop
  Fits : Val → Prop
  filled : ∀ v, Valid v → write v ≠ []
  meets : ∀ v, Valid v → Fits v → Meets read (write v) (.ok v)
  refused : ∀ v, Valid v → ¬ Fits v → Meets read (write v) (.error .readCorruptData)
  costs : ∀ v, Valid v → Costs read v (write v).length
  shrinks : ∀ v, Costs read v 0

/-- The type of a value: an element type, or a vector, unordered_set or map of other types. -/
inductive Shape : Type 1
  | leaf (l : Leaf)
  | vector (item : Shape)
  | set (item : Shape)
  | map (key value : Shape)

namespace Shape

/-- The elements of a container stand in the order in which it is written. -/
def Val : Shape → Type
  | .leaf l => l.Val
  | .vector item => List item.Val
  | .set item => List item.Val
  | .map key value => List (key.Val × value.Val)

def decEq : (s : Shape) → DecidableEq s.Val
  | .leaf l => l.eq
  | .vector item => @instDecidableEqList _ (decEq item)
  | .set item => @instDecidableEqList _ (decEq item)
  | .map key value => @instDecidableEqList _ (@instDecidableEqProd _ _ (decEq key) (decEq value))

instance (s : Shape) : DecidableEq s.Val := s.decEq

def write : (s : Shape) → s.Val → Bytes
  | .leaf l, v => l.write v
  | .vector item, items => writeArrayHeader (items.length % 2 ^ 32) ++ items.flatMap item.write
  | .set item, items => writeArrayHeader (items.length % 2 ^ 32) ++ items.flatMap item.write
  | .map key value, entries =>
    writeMapHeader (entries.length % 2 ^ 32) ++ entries.flatMap (fun entry => key.write entry.1 ++ value.write entry.2)

end Shape

section Loops

variable {α β : Type}

/-- The loop over the items of a vector or unordered_set. It ends early if the stream is at its end. -/
def readItems (add : List α → α → List α) (read : Read α) : Nat → List α → Read (List α)
  | 0, items => pure items
  | count + 1, items => do
    let item ← read
    if ← atEnd then return add items item
    else readItems add read count (add items item)

def pushBack (items : List α) (item : α) : List α := items ++ [item]

def insert [DecidableEq α] (items : List α) (item : α) : List α := if item ∈ items then items else items ++ [item]

def emplace [DecidableEq α] (entries : List (α × β)) (key : α) (value : β) : List (α × β) :=
  if key ∈ entries.map Prod.fst then entries else entries ++ [(key, value)]

def readEntries [DecidableEq α] (readKey : Read α) (readValue : Read β) : Nat → List (α × β) → Read (List (α × β))
  | 0, entries => pure entries
  | count + 1, entries => do
    let key ← readKey
    let value ← readValue
    readEntries readKey readValue count (emplace entries key value)

end Loops

abbrev Every {α : Type} (p : α → Prop) (items : List α) : Prop := ∀ i ∈ items, p i

namespace Shape

def read : (s : Shape) → Read s.Val
  | .leaf l => l.read
  | .vector item => do readItems pushBack item.read (← readArrayHeader) []
  | .set item => do readItems insert item.read (← readArrayHeader) []
  | .map key value => do readEntries key.read value.read (← readMapHeader) []

/-- What a value of a type is: its elements can be written, and sets and maps have nothing twice. -/
def Valid : (s : Shape) → s.Val → Prop
  | .leaf l, v => l.Valid v
  | .vector item, items => Every item.Valid items
  | .set item, items => items.Nodup ∧ Every item.Valid items
  | .map key value, entries =>
    (entries.map Prod.fst).Nodup ∧ Every (fun entry => key.Valid entry.1 ∧ value.Valid entry.2) entries

def Fits : (s : Shape) → s.Val → Prop
  | .leaf l, v => l.Fits v
  | .vector item, items => Every item.Fits items
  | .set item, items => Every item.Fits items
  | .map key value, entries => Every (fun entry => key.Fits entry.1 ∧ value.Fits entry.2) entries

/-- Every container has fewer elements than a bound. -/
def Counts (bound : Nat) : (s : Shape) → s.Val → Prop
  | .leaf _, _ => True
  | .vector item, items => items.length < bound ∧ Every (Counts bound item) items
  | .set item, items => items.length < bound ∧ Every (Counts bound item) items
  | .map key value, entries =>
    entries.length < bound ∧ Every (fun entry => Counts bound key entry.1 ∧ Counts bound value entry.2) entries

end Shape

section Leaves

def boolLeaf : Leaf where
  Val := Bool
  eq := inferInstance
  write := writeBool
  read := readBool
  Valid _ := True
  Fits _ := True
  filled _ _ := by simp [writeBool]
  meets b _ _ := meets_readBool b
  refused _ _ other := absurd trivial other
  costs b _ := costs_readBool b
  shrinks b := (costs_readBool b).mono (Nat.zero_le _)

/-- An integer that is written from one type and read into another. -/
def intLeaf (source target : IntType) : Leaf where
  Val := Int
  eq := inferInstance
  write := writeInt source
  read := readInt target
  Valid := source.Holds
  Fits := target.Holds
  filled _ holds := writeInt_ne_nil holds
  meets i holds fits := by
    have meets := meets_readInt target holds
    rwa [if_pos fits] at meets
  refused i holds other := by
    have meets := meets_readInt target holds
    rwa [if_neg other] at meets
  costs i holds := costs_readInt target holds
  shrinks i := (costs_readInt_packed target i).mono (Nat.zero_le _)

def strLeaf : Leaf where
  Val := Bytes
  eq := inferInstance
  write := writeString
  read := readString
  Valid s := s.length < 2 ^ 31
  Fits _ := True
  filled s _ := by simpa [writeString] using fun none => absurd none (write_ne_nil _ _)
  meets s short _ := meets_readString short
  refused _ _ other := absurd trivial other
  costs s short := costs_readString short
  shrinks s := (costs_payload (costs_lengths .str) s).mono (Nat.zero_le _)

/-- Nothing is written of bytes that are too many. -/
def binLeaf : Leaf where
  Val := Bytes
  eq := inferInstance
  write s := (writeBytes s).toOption.getD []
  read := readBytes
  Valid s := s.length < 2 ^ 31
  Fits _ := True
  filled s short := by
    rw [writeBytes_eq short]
    simpa [Except.toOption] using fun none => absurd none (write_ne_nil _ _)
  meets s short _ := by
    rw [writeBytes_eq short]
    exact meets_readBytes short
  refused _ _ other := absurd trivial other
  costs s short := by
    rw [writeBytes_eq short]
    exact costs_readBytes s
  shrinks s := (costs_readBytes s).mono (Nat.zero_le _)

def extLeaf : Leaf where
  Val := MsgPackExtData
  eq := inferInstance
  write := writeExt
  read := readExt
  Valid ext := ext.payload.length < 2 ^ 31
  Fits _ := True
  filled ext _ := by
    unfold writeExt writeExtHeader
    split_ifs <;> simp
  meets ext short _ := meets_readExt short
  refused _ _ other := absurd trivial other
  costs ext _ := costs_readExt ext
  shrinks ext := (costs_readExt ext).mono (Nat.zero_le _)

end Leaves

end Qtng.MsgPack
