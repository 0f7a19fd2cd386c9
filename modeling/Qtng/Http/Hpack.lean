import Qtng.Http.HpackTables

namespace Qtng

open BigEndian

/-- The bytes behind a full prefix, seven bits each, the lowest first. A 32-bit number
has at most five of them. -/
def encodeRest : Nat → Nat → Bytes
  | 0, value => [UInt8.ofNat value]
  | rounds + 1, value =>
    if value ≥ 128 then UInt8.ofNat ((value &&& 0x7f) ||| 0x80) :: encodeRest rounds (value >>> 7)
    else [UInt8.ofNat value]

def encodeInteger (value prefixBits firstByte : Nat) : Bytes :=
  let maxPrefix := 2 ^ prefixBits - 1
  if value < maxPrefix then [UInt8.ofNat (firstByte ||| value)]
  else UInt8.ofNat (firstByte ||| maxPrefix) :: encodeRest 5 (value - maxPrefix)

/-- The loop of decodeInteger, with the sum so far and the next shift. -/
def decodeRest : Bytes → Nat → Nat → Option (Nat × Bytes)
  | [], _, _ => none
  | b :: rest, v, m =>
    let v := (v + ((b.toNat &&& 0x7f) <<< m)) % 2 ^ 32
    if b.toNat &&& 0x80 = 0 then some (v, rest)
    else if m + 7 > 28 then none
    else decodeRest rest v (m + 7)

/-- A number and what is left of the data behind it. -/
def decodeInteger (data : Bytes) (prefixBits : Nat) : Option (Nat × Bytes) :=
  match data with
  | [] => none
  | b :: rest =>
    let maxPrefix := 2 ^ prefixBits - 1
    let v := b.toNat &&& maxPrefix
    if v < maxPrefix then some (v, rest) else decodeRest rest v 0

def decodeString (data : Bytes) : Option (Bytes × Bytes) :=
  match data with
  | [] => none
  | b :: _ =>
    (decodeInteger data 7).bind fun (length, rest) =>
      if length > rest.length then none
      else if b.toNat &&& 0x80 ≠ 0 then (huffmanDecode (rest.take length)).map fun out => (out, rest.drop length)
      else some (rest.take length, rest.drop length)

def encodeString (value : Bytes) (useHuffman : Bool) : Bytes :=
  if useHuffman then
    let encoded := huffmanEncode value
    encodeInteger (encoded.length % 2 ^ 32) 7 0x80 ++ encoded
  else encodeInteger (value.length % 2 ^ 32) 7 0x00 ++ value

def entrySize (h : HpackHeader) : Nat := (h.name.length + h.value.length + 32) % 2 ^ 32

/-- What strcmp sees of a string. -/
def cString (text : Bytes) : Bytes := text.takeWhile (· ≠ 0)

/-- The loop of findStaticIndex from an entry on, with the first entry that has the
name. The flag says that only the name was found. -/
def findStaticLoop (h : HpackHeader) : List HpackHeader → Nat → Option Nat → Option (Nat × Bool)
  | [], _, nameIndex => nameIndex.map fun index => (index, true)
  | entry :: rest, index, nameIndex =>
    if entry.name = cString h.name then
      if entry.value = cString h.value then some (index, false)
      else findStaticLoop h rest (index + 1) (nameIndex.or (some index))
    else findStaticLoop h rest (index + 1) nameIndex

def findStaticIndex (h : HpackHeader) : Option (Nat × Bool) := findStaticLoop h kStaticTable 1 none

structure HpackTable where
  dynamicTable : List HpackHeader := []
  maxDynamicTableSize : Nat := 4096
  dynamicTableSize : Nat := 0

namespace HpackTable

/-- Each round takes one entry away, so that their number bounds the rounds. -/
def evictLoop : Nat → HpackTable → HpackTable
  | 0, table => table
  | rounds + 1, table =>
    if table.dynamicTableSize > table.maxDynamicTableSize then
      match table.dynamicTable.getLast? with
      | none => table
      | some last =>
        evictLoop rounds
          { table with
            dynamicTableSize := (table.dynamicTableSize + 2 ^ 32 - entrySize last) % 2 ^ 32
            dynamicTable := table.dynamicTable.dropLast }
    else table

def evict (table : HpackTable) : HpackTable := evictLoop table.dynamicTable.length table

def setMaxDynamicTableSize (table : HpackTable) (size : Nat) : HpackTable :=
  evict { table with maxDynamicTableSize := size }

def addToDynamicTable (table : HpackTable) (header : HpackHeader) : HpackTable :=
  let size := entrySize header
  if size > table.maxDynamicTableSize then { table with dynamicTable := [], dynamicTableSize := 0 }
  else
    evict
      { table with
        dynamicTable := header :: table.dynamicTable
        dynamicTableSize := (table.dynamicTableSize + size) % 2 ^ 32 }

end HpackTable

structure HpackEncoder where
  table : HpackTable := {}

namespace HpackEncoder

def setMaxDynamicTableSize (encoder : HpackEncoder) (size : Nat) : HpackEncoder :=
  { encoder with table := encoder.table.setMaxDynamicTableSize size }

def addToDynamicTable (encoder : HpackEncoder) (header : HpackHeader) : HpackEncoder :=
  { encoder with table := encoder.table.addToDynamicTable header }

def encodeHeader (encoder : HpackEncoder) (h : HpackHeader) : HpackEncoder × Bytes :=
  match findStaticIndex h with
  | some (staticIndex, false) => (encoder, encodeInteger staticIndex 7 0x80)
  | some (staticIndex, true) =>
    (encoder.addToDynamicTable h, encodeInteger staticIndex 6 0x40 ++ encodeString h.value false)
  | none => (encoder.addToDynamicTable h, 0x40 :: encodeString h.name false ++ encodeString h.value false)

def encode (encoder : HpackEncoder) : List HpackHeader → HpackEncoder × Bytes
  | [] => (encoder, [])
  | h :: headers =>
    let (next, out) := encoder.encodeHeader h
    let (last, rest) := next.encode headers
    (last, out ++ rest)

end HpackEncoder

structure HpackDecoder where
  table : HpackTable := {}

namespace HpackDecoder

def setMaxDynamicTableSize (decoder : HpackDecoder) (size : Nat) : HpackDecoder :=
  { decoder with table := decoder.table.setMaxDynamicTableSize size }

def addToDynamicTable (decoder : HpackDecoder) (header : HpackHeader) : HpackDecoder :=
  { decoder with table := decoder.table.addToDynamicTable header }

def lookup (decoder : HpackDecoder) (index : Nat) : Option HpackHeader :=
  if index = 0 then none
  else if index ≤ kStaticTableSize then kStaticTable[index - 1]?
  else decoder.table.dynamicTable[index - kStaticTableSize - 1]?

/-- A literal field behind its index, which is 0 if the name is a literal too. -/
def decodeLiteral (decoder : HpackDecoder) (data : Bytes) (prefixBits : Nat) : Option (HpackHeader × Bytes) :=
  (decodeInteger data prefixBits).bind fun (index, rest) =>
    (if index = 0 then decodeString rest else (decoder.lookup index).map fun h => (h.name, rest)).bind
      fun (name, rest) => (decodeString rest).map fun (value, rest) => (⟨name, value⟩, rest)

/-- The loop of decode, with the headers so far. Each round takes at least one byte. -/
def decodeLoop : Nat → HpackDecoder → List HpackHeader → Bytes → HpackDecoder × List HpackHeader × Bool
  | 0, decoder, headers, _ => (decoder, headers, true)
  | rounds + 1, decoder, headers, data =>
    match data with
    | [] => (decoder, headers, true)
    | b :: _ =>
      if b.toNat &&& 0x80 ≠ 0 then
        match (decodeInteger data 7).bind fun (index, rest) => (decoder.lookup index).map fun h => (h, rest) with
        | none => (decoder, [], false)
        | some (h, rest) => decodeLoop rounds decoder (headers ++ [h]) rest
      else if b.toNat &&& 0xc0 = 0x40 then
        match decoder.decodeLiteral data 6 with
        | none => (decoder, headers, false)
        | some (h, rest) => decodeLoop rounds (decoder.addToDynamicTable h) (headers ++ [h]) rest
      else if b.toNat &&& 0xe0 = 0x20 then
        match decodeInteger data 5 with
        | none => (decoder, headers, false)
        | some (size, rest) => decodeLoop rounds (decoder.setMaxDynamicTableSize size) headers rest
      else
        match decoder.decodeLiteral data 4 with
        | none => (decoder, headers, false)
        | some (h, rest) => decodeLoop rounds decoder (headers ++ [h]) rest

def decode (decoder : HpackDecoder) (data : Bytes) : HpackDecoder × List HpackHeader × Bool :=
  decodeLoop data.length decoder [] data

end HpackDecoder

end Qtng
