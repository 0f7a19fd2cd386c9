import Qtng.General.BigEndian

namespace Qtng.WebSocket

open BigEndian

/-- The type of a message; a packet of an unknown type has none. -/
inductive MessageType
  | binary
  | text
deriving DecidableEq

inductive Side
  | client
  | server
deriving DecidableEq

def continuationFrame : UInt8 := 0x0
def textFrame : UInt8 := 0x1
def binaryFrame : UInt8 := 0x2
def closeFrame : UInt8 := 0x8
def pingFrame : UInt8 := 0x9
def pongFrame : UInt8 := 0xa

/-- What the conversion of a size to int keeps. -/
def toInt (n : Nat) : Int := (n : Int).bmod (2 ^ 32)

structure WebSocketFrame where
  fin : Bool := false
  rsv1 : Bool := false
  rsv2 : Bool := false
  rsv3 : Bool := false
  opcode : UInt8 := 0
  maskkey : UInt32 := 0
  payload : Bytes := []
deriving DecidableEq

/-- The results of feedHeader: -1, -2, or the size of the payload with what follows the
header. -/
inductive HeaderResult
  | incomplete
  | violation
  | header (frame : WebSocketFrame) (payloadSize : Nat) (hasMask : Bool) (rest : Bytes)
deriving DecidableEq

def feedMaskkey (frame : WebSocketFrame) (len : Nat) (hasMask : Bool) (rest : Bytes) : HeaderResult :=
  if hasMask then
    if rest.length ≥ 4 then .header { frame with maskkey := readWord32 (rest.take 4) } len true (rest.drop 4)
    else .incomplete
  else .header frame len false rest

def feedHeader (packet : Bytes) : HeaderResult :=
  match packet with
  | b0 :: b1 :: rest =>
    let frame : WebSocketFrame :=
      { fin := b0 &&& 0x80 ≠ 0, rsv1 := b0 &&& 0x40 ≠ 0, rsv2 := b0 &&& 0x20 ≠ 0, rsv3 := b0 &&& 0x10 ≠ 0,
        opcode := b0 &&& 0x0f }
    let hasMask : Bool := b1 &&& 0x80 ≠ 0
    let len := (b1 &&& 0x7f).toNat
    if len ≤ 125 then feedMaskkey frame len hasMask rest
    else if len = 126 then
      if rest.length ≥ 2 then feedMaskkey frame (readWord16 (rest.take 2)).toNat hasMask (rest.drop 2) else .incomplete
    else if rest.length ≥ 8 then
      let len := (readWord64 (rest.take 8)).toNat
      if len ≥ 2 ^ 63 then .violation else feedMaskkey frame len hasMask (rest.drop 8)
    else .incomplete
  | _ => .incomplete

/-- The bytes from an index on, each combined with the byte of the key that its index
picks. -/
def maskFrom (maskbuf : Bytes) : Nat → Bytes → Bytes
  | _, [] => []
  | j, b :: rest => (b ^^^ maskbuf.getD (j % 4) 0) :: maskFrom maskbuf (j + 1) rest

namespace WebSocketFrame

/-- Overwrites bytes of dst from an offset on with so many masked bytes of the payload. -/
def maskInto (f : WebSocketFrame) (dst : Bytes) (offset n : Nat) : Bytes :=
  dst.take offset ++ maskFrom (word32 f.maskkey) 0 (f.payload.take n) ++ dst.drop (offset + min n f.payload.length)

/-- Both sizes are an int here. -/
def applyMaskTo (f : WebSocketFrame) (dst : Bytes) (offset : Nat) (size : Int) : Bytes :=
  f.maskInto dst offset (min size (toInt f.payload.length)).toNat

def lengthBytes (hasMask : Bool) (len : Nat) : Bytes :=
  let b1 : UInt8 := if hasMask then 0x80 else 0
  if len ≤ 125 then [b1 ||| UInt8.ofNat len]
  else if len ≤ 65535 then (b1 ||| 126) :: word16 (UInt16.ofNat len)
  else (b1 ||| 127) :: word64 (UInt64.ofNat len)

def headerBytes (f : WebSocketFrame) : Bytes :=
  ((if f.fin then 0x80 else 0) ||| f.opcode) :: lengthBytes (decide (f.maskkey ≠ 0)) f.payload.length ++
    if f.maskkey ≠ 0 then word32 f.maskkey else []

/-- The frame is built in a buffer with 32 bytes to spare, and cut off at a size that is
an int. -/
def toByteArray (f : WebSocketFrame) : Bytes :=
  let header := f.headerBytes
  let room := f.payload.length + 32 - header.length
  let buf :=
    if f.maskkey ≠ 0 then f.applyMaskTo (header ++ List.replicate room 0) header.length (toInt room)
    else header ++ f.payload ++ List.replicate (room - f.payload.length) 0
  buf.take (toInt (header.length + f.payload.length) % 2 ^ 64).toNat

end WebSocketFrame

structure PacketToWrite where
  type : MessageType
  payload : Bytes
deriving DecidableEq

def MessageType.opcode : MessageType → UInt8
  | .text => textFrame
  | .binary => binaryFrame

/-- The frames of a message. The keys are those that makeMaskkey draws, one for each
frame. -/
def fragmentFrame (writingPacket : PacketToWrite) (blockSize : Nat) (mustMask : Bool) (keys : Nat → UInt32) :
    List WebSocketFrame :=
  let size := writingPacket.payload.length
  let nFrames := max ((size + blockSize - 1) / blockSize) 1
  (List.range nFrames).map fun i =>
    { fin := i + 1 = nFrames
      opcode := if i = 0 then writingPacket.type.opcode else continuationFrame
      maskkey := if mustMask then keys i else 0
      payload :=
        if nFrames = 1 then writingPacket.payload
        else (writingPacket.payload.drop (blockSize * i)).take (min (size - blockSize * i) blockSize) }

end Qtng.WebSocket
