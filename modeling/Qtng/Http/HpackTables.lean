import Qtng.General.BigEndian

namespace Qtng

open BigEndian

structure HpackHeader where
  name : Bytes := []
  value : Bytes := []
deriving DecidableEq

def ascii (text : String) : Bytes := text.toList.map fun c => UInt8.ofNat c.toNat

def staticEntries : List (String × String) := [
  (":authority", ""), (":method", "GET"), (":method", "POST"), (":path", "/"), (":path", "/index.html"),
  (":scheme", "http"), (":scheme", "https"), (":status", "200"), (":status", "204"), (":status", "206"),
  (":status", "304"), (":status", "400"), (":status", "404"), (":status", "500"), ("accept-charset", ""),
  ("accept-encoding", "gzip, deflate"), ("accept-language", ""), ("accept-ranges", ""), ("accept", ""),
  ("access-control-allow-origin", ""), ("age", ""), ("allow", ""), ("authorization", ""),
  ("cache-control", ""), ("content-disposition", ""), ("content-encoding", ""), ("content-language", ""),
  ("content-length", ""), ("content-location", ""), ("content-range", ""), ("content-type", ""),
  ("cookie", ""), ("date", ""), ("etag", ""), ("expect", ""), ("expires", ""), ("from", ""), ("host", ""),
  ("if-match", ""), ("if-modified-since", ""), ("if-none-match", ""), ("if-range", ""),
  ("if-unmodified-since", ""), ("last-modified", ""), ("link", ""), ("location", ""), ("max-forwards", ""),
  ("proxy-authenticate", ""), ("proxy-authorization", ""), ("range", ""), ("referer", ""), ("refresh", ""),
  ("retry-after", ""), ("server", ""), ("set-cookie", ""), ("strict-transport-security", ""),
  ("transfer-encoding", ""), ("user-agent", ""), ("vary", ""), ("via", ""), ("www-authenticate", "")]

def kStaticTable : List HpackHeader := staticEntries.map fun entry => ⟨ascii entry.1, ascii entry.2⟩

def kStaticTableSize : Nat := kStaticTable.length

/-- The codes of the bytes and of the end of a string, with their lengths in bits. -/
def kHuffmanTable : List (Nat × Nat) := [
  (0x1ff8, 13), (0x7fffd8, 23), (0xfffffe2, 28), (0xfffffe3, 28), (0xfffffe4, 28), (0xfffffe5, 28),
  (0xfffffe6, 28), (0xfffffe7, 28), (0xfffffe8, 28), (0xffffea, 24), (0x3ffffffc, 30), (0xfffffe9, 28),
  (0xfffffea, 28), (0x3ffffffd, 30), (0xfffffeb, 28), (0xfffffec, 28), (0xfffffed, 28), (0xfffffee, 28),
  (0xfffffef, 28), (0xffffff0, 28), (0xffffff1, 28), (0xffffff2, 28), (0x3ffffffe, 30), (0xffffff3, 28),
  (0xffffff4, 28), (0xffffff5, 28), (0xffffff6, 28), (0xffffff7, 28), (0xffffff8, 28), (0xffffff9, 28),
  (0xffffffa, 28), (0xffffffb, 28), (0x14, 6), (0x3f8, 10), (0x3f9, 10), (0xffa, 12), (0x1ff9, 13), (0x15, 6),
  (0xf8, 8), (0x7fa, 11), (0x3fa, 10), (0x3fb, 10), (0xf9, 8), (0x7fb, 11), (0xfa, 8), (0x16, 6), (0x17, 6),
  (0x18, 6), (0x0, 5), (0x1, 5), (0x2, 5), (0x19, 6), (0x1a, 6), (0x1b, 6), (0x1c, 6), (0x1d, 6), (0x1e, 6),
  (0x1f, 6), (0x5c, 7), (0xfb, 8), (0x7ffc, 15), (0x20, 6), (0xffb, 12), (0x3fc, 10), (0x1ffa, 13), (0x21, 6),
  (0x5d, 7), (0x5e, 7), (0x5f, 7), (0x60, 7), (0x61, 7), (0x62, 7), (0x63, 7), (0x64, 7), (0x65, 7), (0x66, 7),
  (0x67, 7), (0x68, 7), (0x69, 7), (0x6a, 7), (0x6b, 7), (0x6c, 7), (0x6d, 7), (0x6e, 7), (0x6f, 7), (0x70, 7),
  (0x71, 7), (0x72, 7), (0xfc, 8), (0x73, 7), (0xfd, 8), (0x1ffb, 13), (0x7fff0, 19), (0x1ffc, 13),
  (0x3ffc, 14), (0x22, 6), (0x7ffd, 15), (0x3, 5), (0x23, 6), (0x4, 5), (0x24, 6), (0x5, 5), (0x25, 6),
  (0x26, 6), (0x27, 6), (0x6, 5), (0x74, 7), (0x75, 7), (0x28, 6), (0x29, 6), (0x2a, 6), (0x7, 5), (0x2b, 6),
  (0x76, 7), (0x2c, 6), (0x8, 5), (0x9, 5), (0x2d, 6), (0x77, 7), (0x78, 7), (0x79, 7), (0x7a, 7), (0x7b, 7),
  (0x7ffe, 15), (0x7fc, 11), (0x3ffd, 14), (0x1ffd, 13), (0xffffffc, 28), (0xfffe6, 20), (0x3fffd2, 22),
  (0xfffe7, 20), (0xfffe8, 20), (0x3fffd3, 22), (0x3fffd4, 22), (0x3fffd5, 22), (0x7fffd9, 23), (0x3fffd6, 22),
  (0x7fffda, 23), (0x7fffdb, 23), (0x7fffdc, 23), (0x7fffdd, 23), (0x7fffde, 23), (0xffffeb, 24),
  (0x7fffdf, 23), (0xffffec, 24), (0xffffed, 24), (0x3fffd7, 22), (0x7fffe0, 23), (0xffffee, 24),
  (0x7fffe1, 23), (0x7fffe2, 23), (0x7fffe3, 23), (0x7fffe4, 23), (0x1fffdc, 21), (0x3fffd8, 22),
  (0x7fffe5, 23), (0x3fffd9, 22), (0x7fffe6, 23), (0x7fffe7, 23), (0xffffef, 24), (0x3fffda, 22),
  (0x1fffdd, 21), (0xfffe9, 20), (0x3fffdb, 22), (0x3fffdc, 22), (0x7fffe8, 23), (0x7fffe9, 23),
  (0x1fffde, 21), (0x7fffea, 23), (0x3fffdd, 22), (0x3fffde, 22), (0xfffff0, 24), (0x1fffdf, 21),
  (0x3fffdf, 22), (0x7fffeb, 23), (0x7fffec, 23), (0x1fffe0, 21), (0x1fffe1, 21), (0x3fffe0, 22),
  (0x1fffe2, 21), (0x7fffed, 23), (0x3fffe1, 22), (0x7fffee, 23), (0x7fffef, 23), (0xfffea, 20),
  (0x3fffe2, 22), (0x3fffe3, 22), (0x3fffe4, 22), (0x7ffff0, 23), (0x3fffe5, 22), (0x3fffe6, 22),
  (0x7ffff1, 23), (0x3ffffe0, 26), (0x3ffffe1, 26), (0xfffeb, 20), (0x7fff1, 19), (0x3fffe7, 22),
  (0x7ffff2, 23), (0x3fffe8, 22), (0x1ffffec, 25), (0x3ffffe2, 26), (0x3ffffe3, 26), (0x3ffffe4, 26),
  (0x7ffffde, 27), (0x7ffffdf, 27), (0x3ffffe5, 26), (0xfffff1, 24), (0x1ffffed, 25), (0x7fff2, 19),
  (0x1fffe3, 21), (0x3ffffe6, 26), (0x7ffffe0, 27), (0x7ffffe1, 27), (0x3ffffe7, 26), (0x7ffffe2, 27),
  (0xfffff2, 24), (0x1fffe4, 21), (0x1fffe5, 21), (0x3ffffe8, 26), (0x3ffffe9, 26), (0xffffffd, 28),
  (0x7ffffe3, 27), (0x7ffffe4, 27), (0x7ffffe5, 27), (0xfffec, 20), (0xfffff3, 24), (0xfffed, 20),
  (0x1fffe6, 21), (0x3fffe9, 22), (0x1fffe7, 21), (0x1fffe8, 21), (0x7ffff3, 23), (0x3fffea, 22),
  (0x3fffeb, 22), (0x1ffffee, 25), (0x1ffffef, 25), (0xfffff4, 24), (0xfffff5, 24), (0x3ffffea, 26),
  (0x7ffff4, 23), (0x3ffffeb, 26), (0x7ffffe6, 27), (0x3ffffec, 26), (0x3ffffed, 26), (0x7ffffe7, 27),
  (0x7ffffe8, 27), (0x7ffffe9, 27), (0x7ffffea, 27), (0x7ffffeb, 27), (0xffffffe, 28), (0x7ffffec, 27),
  (0x7ffffed, 27), (0x7ffffee, 27), (0x7ffffef, 27), (0x7fffff0, 27), (0x3ffffee, 26), (0x3fffffff, 30)]

/-- The bits of a number below a position, the highest first. -/
def bitsBelow (value : Nat) : Nat → List Bool
  | 0 => []
  | n + 1 => value.testBit n :: bitsBelow value n

/-- The inner loop of huffmanEncode: the whole bytes at the top of the buffer, and how
many bits are left in it. -/
def flushBytes (buffer : Nat) : Nat → Nat → Bytes × Nat
  | 0, bits => ([], bits)
  | rounds + 1, bits =>
    if bits ≥ 8 then
      let (out, left) := flushBytes buffer rounds (bits - 8)
      (UInt8.ofNat (buffer >>> (bits - 8)) :: out, left)
    else ([], bits)

def huffmanEncodeLoop : Bytes → Nat → Nat → Bytes
  | [], buffer, bits => if bits > 0 then [UInt8.ofNat ((buffer <<< (8 - bits)) ||| (0xff >>> bits))] else []
  | ch :: rest, buffer, bits =>
    let (code, length) := kHuffmanTable[ch.toNat]?.getD (0, 0)
    let buffer := ((buffer <<< length) ||| code) % 2 ^ 64
    let (out, left) := flushBytes buffer (bits + length) (bits + length)
    out ++ huffmanEncodeLoop rest buffer left

def huffmanEncode (input : Bytes) : Bytes := huffmanEncodeLoop input 0 0

/-- A node of the code tree. An inner node has the symbol -1, and a missing child is -1. -/
structure HuffmanNode where
  symbol : Int := -1
  left : Int := -1
  right : Int := -1

def HuffmanNode.child (node : HuffmanNode) (bit : Bool) : Int := if bit then node.right else node.left

def HuffmanNode.setChild (node : HuffmanNode) (bit : Bool) (child : Int) : HuffmanNode :=
  if bit then { node with right := child } else { node with left := child }

/-- Follows the bits of a code from a node, with new nodes where there are none. -/
def addPath : List Bool → Nat → Array HuffmanNode → Array HuffmanNode × Nat
  | [], idx, nodes => (nodes, idx)
  | bit :: rest, idx, nodes =>
    let child := (nodes.getD idx {}).child bit
    if child < 0 then
      addPath rest nodes.size ((nodes.push {}).modify idx fun node => node.setChild bit nodes.size)
    else addPath rest child.toNat nodes

def buildHuffmanTree : Array HuffmanNode :=
  kHuffmanTable.zipIdx.foldl
    (fun nodes ((code, bitLen), sym) =>
      let (nodes, idx) := addPath (bitsBelow code bitLen) 0 nodes
      nodes.modify idx fun node => { node with symbol := sym })
    #[{}]

def huffmanDecodeLoop (tree : Array HuffmanNode) : List Bool → Nat → Bytes → Option Bytes
  | [], idx, out => if idx = 0 ∨ (tree.getD idx {}).symbol = 256 then some out else none
  | bit :: rest, idx, out =>
    let next := (tree.getD idx {}).child bit
    if next < 0 then none
    else
      let symbol := (tree.getD next.toNat {}).symbol
      if symbol ≥ 0 then
        -- the code of the end of a string counts as padding
        if symbol = 256 then some out else huffmanDecodeLoop tree rest 0 (out ++ [UInt8.ofNat symbol.toNat])
      else huffmanDecodeLoop tree rest next.toNat out

def huffmanDecode (input : Bytes) : Option Bytes :=
  huffmanDecodeLoop buildHuffmanTree (input.flatMap fun byte => bitsBelow byte.toNat 8) 0 []

end Qtng
