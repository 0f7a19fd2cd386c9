import Qtng.Bencode.Stream
import Qtng.General.BigEndian
import Qtng.General.Reader

namespace Qtng.MsgPack

open BigEndian

inductive Status
  | readPastEnd
  | readCorruptData
  | writeFailed
deriving DecidableEq

/-- A reader of a stream. What it reads from is the part of the data from the position up to the limit. -/
abbrev Read (α : Type) : Type := Reader UInt8 Status α

/-- The bytes of a stream over data, which has the limit and the device of a bencode stream. -/
def ofData (data : Bytes) : Bytes := Bencode.available data

def corrupt {α : Type} : Read α := Reader.fail .readCorruptData

def readRawBytes (len : Nat) : Read Bytes := Reader.take .readPastEnd len

def readByte : Read UInt8 := fun bytes =>
  match bytes with
  | [] => .error .readPastEnd
  | byte :: rest => .ok (byte, rest)

def atEnd : Read Bool := fun bytes => .ok (bytes.isEmpty, bytes)

/-- lengthFitsRemaining, where a length that does not fit is corrupt data. -/
def checkLength (len : Nat) : Read Unit := fun bytes =>
  if len < 2 ^ 31 ∧ len ≤ bytes.length then .ok ((), bytes) else .error .readCorruptData

section Numbers

/-- The bytes that _msgpack_store8 to _msgpack_store64 leave. -/
def store (width : Nat) (i : Int) : Bytes := bytesOf width (i % 2 ^ (8 * width)).toNat

def load (bytes : Bytes) : Int := readOn 0 bytes

def loadSigned (bytes : Bytes) : Int := (load bytes).bmod (2 ^ (8 * bytes.length))

def writeU8 (i : Int) : Bytes := if i ≤ 0x7f then store 1 i else 0xcc :: store 1 i

def writeU16 (i : Int) : Bytes := if i ≤ 0xff then writeU8 i else 0xcd :: store 2 i

def writeU32 (i : Int) : Bytes := if i ≤ 0xffff then writeU16 i else 0xce :: store 4 i

def writeU64 (i : Int) : Bytes := if i ≤ 0xffffffff then writeU32 i else 0xcf :: store 8 i

def writeI8 (i : Int) : Bytes := if -32 ≤ i then store 1 i else (if i > 0 then 0xcc else 0xd0) :: store 1 i

def writeI16 (i : Int) : Bytes :=
  if -2 ^ 7 ≤ i ∧ i ≤ 2 ^ 7 - 1 then writeI8 i
  else if 2 ^ 7 - 1 ≤ i ∧ i ≤ 2 ^ 8 - 1 then 0xcc :: store 1 i
  else (if i > 0 then 0xcd else 0xd1) :: store 2 i

def writeI32 (i : Int) : Bytes :=
  if -2 ^ 15 ≤ i ∧ i ≤ 2 ^ 15 - 1 then writeI16 i
  else if 2 ^ 15 - 1 ≤ i ∧ i ≤ 2 ^ 16 - 1 then 0xcd :: store 2 i
  else (if i > 0 then 0xce else 0xd2) :: store 4 i

def writeI64 (i : Int) : Bytes :=
  if -2 ^ 31 ≤ i ∧ i ≤ 2 ^ 31 - 1 then writeI32 i
  else if 2 ^ 31 - 1 ≤ i ∧ i ≤ 2 ^ 32 - 1 then 0xce :: store 4 i
  else (if i > 0 then 0xcf else 0xd3) :: store 8 i

def unpackLonglong : Read Int := do
  let p ← readByte
  if p ≤ 0x7f then return load [p]
  else if p ≥ 0xe0 then return loadSigned [p]
  else if p = 0xcc then return load (← readRawBytes 1)
  else if p = 0xd0 then return loadSigned (← readRawBytes 1)
  else if p = 0xcd then return load (← readRawBytes 2)
  else if p = 0xd1 then return loadSigned (← readRawBytes 2)
  else if p = 0xce then return load (← readRawBytes 4)
  else if p = 0xd2 then return loadSigned (← readRawBytes 4)
  else if p = 0xcf then
    let u := load (← readRawBytes 8)
    if u > 2 ^ 63 - 1 then corrupt else return u
  else if p = 0xd3 then return loadSigned (← readRawBytes 8)
  else corrupt

/-- The part of unpack_ulonglong for a form with a sign. -/
def loadNatural (bytes : Bytes) : Read Int := if loadSigned bytes < 0 then corrupt else pure (loadSigned bytes)

def unpackUlonglong : Read Int := do
  let p ← readByte
  if p ≤ 0x7f then return load [p]
  else if p ≥ 0xe0 then corrupt
  else if p = 0xcc then return load (← readRawBytes 1)
  else if p = 0xd0 then loadNatural (← readRawBytes 1)
  else if p = 0xcd then return load (← readRawBytes 2)
  else if p = 0xd1 then loadNatural (← readRawBytes 2)
  else if p = 0xce then return load (← readRawBytes 4)
  else if p = 0xd2 then loadNatural (← readRawBytes 4)
  else if p = 0xcf then return load (← readRawBytes 8)
  else if p = 0xd3 then loadNatural (← readRawBytes 8)
  else corrupt

inductive IntType
  | u8 | u16 | u32 | u64 | i8 | i16 | i32 | i64
deriving DecidableEq

def IntType.least : IntType → Int
  | .u8 | .u16 | .u32 | .u64 => 0
  | .i8 => -2 ^ 7
  | .i16 => -2 ^ 15
  | .i32 => -2 ^ 31
  | .i64 => -2 ^ 63

def IntType.greatest : IntType → Int
  | .u8 => 2 ^ 8 - 1
  | .u16 => 2 ^ 16 - 1
  | .u32 => 2 ^ 32 - 1
  | .u64 => 2 ^ 64 - 1
  | .i8 => 2 ^ 7 - 1
  | .i16 => 2 ^ 15 - 1
  | .i32 => 2 ^ 31 - 1
  | .i64 => 2 ^ 63 - 1

def IntType.Holds (t : IntType) (i : Int) : Prop := t.least ≤ i ∧ i ≤ t.greatest

instance (t : IntType) (i : Int) : Decidable (t.Holds i) := inferInstanceAs (Decidable (_ ∧ _))

def writeInt : IntType → Int → Bytes
  | .u8 => writeU8
  | .u16 => writeU16
  | .u32 => writeU32
  | .u64 => writeU64
  | .i8 => writeI8
  | .i16 => writeI16
  | .i32 => writeI32
  | .i64 => writeI64

/-- The operators of the smaller types test the number that was read against their limits. -/
def within (t : IntType) (i : Int) : Read Int := if t.Holds i then pure i else corrupt

def readInt : IntType → Read Int
  | .u8 => do within .u8 (← unpackUlonglong)
  | .u16 => do within .u16 (← unpackUlonglong)
  | .u32 => do within .u32 (← unpackUlonglong)
  | .u64 => unpackUlonglong
  | .i8 => do within .i8 (← unpackLonglong)
  | .i16 => do within .i16 (← unpackLonglong)
  | .i32 => do within .i32 (← unpackLonglong)
  | .i64 => unpackLonglong

end Numbers

section Lengths

/-- The first bytes of the forms that begin with a length: a range of bytes that hold a small
length, and bytes for a length in one, two and four bytes. -/
structure Lengths where
  fix : UInt8
  small : Nat
  one : Option UInt8
  two : UInt8
  four : UInt8
  joined : ∀ len < small, (fix ||| UInt8.ofNat len).toNat = fix.toNat + len
  apart : ∀ code ∈ one.toList ++ [two, four], code.toNat < fix.toNat ∨ fix.toNat + small ≤ code.toNat
  distinct : (one.toList ++ [two, four]).Nodup

def Lengths.array : Lengths := ⟨0x90, 16, none, 0xdc, 0xdd, by decide +kernel, by decide +kernel, by decide +kernel⟩

def Lengths.map : Lengths := ⟨0x80, 16, none, 0xde, 0xdf, by decide +kernel, by decide +kernel, by decide +kernel⟩

def Lengths.str : Lengths := ⟨0xa0, 32, some 0xd9, 0xda, 0xdb, by decide +kernel, by decide +kernel, by decide +kernel⟩

def Lengths.bin : Lengths := ⟨0, 0, some 0xc4, 0xc5, 0xc6, by decide +kernel, by decide +kernel, by decide +kernel⟩

def Lengths.writeLong (form : Lengths) (len : Nat) : Bytes :=
  if len ≤ 0xffff then form.two :: store 2 len else form.four :: store 4 len

def Lengths.write (form : Lengths) (len : Nat) : Bytes :=
  if len < form.small then [form.fix ||| UInt8.ofNat len]
  else
    match form.one with
    | some code => if len ≤ 0xff then code :: store 1 len else form.writeLong len
    | none => form.writeLong len

def Lengths.read (form : Lengths) : Read Nat := do
  let p ← readByte
  if form.fix ≤ p ∧ p.toNat < form.fix.toNat + form.small then return (p - form.fix).toNat
  else if form.one = some p then return readOn 0 (← readRawBytes 1)
  else if p = form.two then return readOn 0 (← readRawBytes 2)
  else if p = form.four then return readOn 0 (← readRawBytes 4)
  else corrupt

def writeArrayHeader (len : Nat) : Bytes := Lengths.array.write len

def writeMapHeader (len : Nat) : Bytes := Lengths.map.write len

def readArrayHeader : Read Nat := do
  let len ← Lengths.array.read
  checkLength len
  return len

def readMapHeader : Read Nat := do
  let len ← Lengths.map.read
  checkLength len
  return len

def readPayload (len : Nat) : Read Bytes := do
  checkLength len
  readRawBytes len

/-- The length of the text goes through 32 bits. -/
def writeString (s : Bytes) : Bytes :=
  let len := s.length % 2 ^ 32
  Lengths.str.write len ++ s.take len

def writeBytes (s : Bytes) : Except Status Bytes :=
  if s.length > 2 ^ 32 - 1 then .error .writeFailed else .ok (Lengths.bin.write s.length ++ s)

def readString : Read Bytes := do readPayload (← Lengths.str.read)

def readBytes : Read Bytes := do readPayload (← Lengths.bin.read)

def writeExtHeader (len : Nat) (type : UInt8) : Bytes :=
  if len = 1 then [0xd4, type]
  else if len = 2 then [0xd5, type]
  else if len = 4 then [0xd6, type]
  else if len = 8 then [0xd7, type]
  else if len = 16 then [0xd8, type]
  else if len ≤ 0xff then 0xc7 :: store 1 len ++ [type]
  else if len ≤ 0xffff then 0xc8 :: store 2 len ++ [type]
  else 0xc9 :: store 4 len ++ [type]

def readExtLength (p : UInt8) : Read Nat := do
  if 0xd4 ≤ p ∧ p ≤ 0xd8 then return 1 <<< (p - 0xd4).toNat
  else if p = 0xc7 then return readOn 0 (← readRawBytes 1)
  else if p = 0xc8 then return readOn 0 (← readRawBytes 2)
  else if p = 0xc9 then return readOn 0 (← readRawBytes 4)
  else corrupt

def readExtHeader : Read (Nat × UInt8) := do
  let len ← readExtLength (← readByte)
  let type ← readByte
  checkLength len
  return (len, type)

structure MsgPackExtData where
  type : UInt8
  payload : Bytes
deriving DecidableEq

def writeExt (ext : MsgPackExtData) : Bytes := writeExtHeader (ext.payload.length % 2 ^ 32) ext.type ++ ext.payload

def readExt : Read MsgPackExtData := do
  let (len, type) ← readExtHeader
  return ⟨type, ← readRawBytes len⟩

end Lengths

def writeBool (b : Bool) : Bytes := [if b then 0xc3 else 0xc2]

def readBool : Read Bool := do
  let p ← readByte
  if p = 0xc3 then return true
  else if p = 0xc2 then return false
  else corrupt

end Qtng.MsgPack
