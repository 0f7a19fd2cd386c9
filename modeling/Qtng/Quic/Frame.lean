import Qtng.Quic.Varint

namespace Qtng

open BigEndian Option

structure QuicConnectionId where
  bytes : Bytes := []
deriving DecidableEq

structure QuicAckRange where
  gap : Nat := 0
  ackRangeLength : Nat := 0
deriving DecidableEq

inductive QuicFrameType
  | padding | ping | ack | ackEcn | resetStream | stopSending | crypto | newToken | stream | maxData | maxStreamData
  | maxStreamsBidi | maxStreamsUni | dataBlocked | streamDataBlocked | streamsBlockedBidi | streamsBlockedUni
  | newConnectionId | retireConnectionId | pathChallenge | pathResponse | connectionClose | connectionCloseApp
  | handshakeDone | unknown
deriving DecidableEq

/-- A frame of any type. Numbers come from the wire as varints, so that no sum of
two of them leaves the range of 64 bits. -/
structure QuicFrame where
  type : QuicFrameType := .unknown
  rawType : UInt8 := 0
  largestAcknowledged : Nat := 0
  ackDelay : Nat := 0
  firstAckRange : Nat := 0
  ackRanges : List QuicAckRange := []
  offset : Nat := 0
  data : Bytes := []
  streamId : Nat := 0
  fin : Bool := false
  hasLength : Bool := false
  applicationErrorCode : Nat := 0
  finalSize : Nat := 0
  maxData : Nat := 0
  errorCode : Nat := 0
  frameType : Nat := 0
  reasonPhrase : Bytes := []
  pathData : Bytes := []
  sequenceNumber : Nat := 0
  retirePriorTo : Nat := 0
  connectionId : QuicConnectionId := {}
  statelessResetToken : Bytes := []
deriving DecidableEq

def encodeAckRanges : List QuicAckRange → Option Bytes
  | [] => some []
  | range :: rest => do
    let gap ← quicEncodeVarint range.gap
    let length ← quicEncodeVarint range.ackRangeLength
    let others ← encodeAckRanges rest
    some (gap ++ length ++ others)

/-- The bytes that quicEncodeFrame appends, or none where it fails. What a
failing call leaves behind is thrown away by its callers. -/
def quicEncodeFrame (frame : QuicFrame) : Option Bytes :=
  match frame.type with
  | .padding => some [0x00]
  | .ping => some [0x01]
  | .ack => do
    let largest ← quicEncodeVarint frame.largestAcknowledged
    let delay ← quicEncodeVarint frame.ackDelay
    let count ← quicEncodeVarint frame.ackRanges.length
    let first ← quicEncodeVarint frame.firstAckRange
    let ranges ← encodeAckRanges frame.ackRanges
    some (0x02 :: (largest ++ (delay ++ (count ++ (first ++ ranges)))))
  | .crypto => do
    let offset ← quicEncodeVarint frame.offset
    let size ← quicEncodeVarint frame.data.length
    some (0x06 :: (offset ++ (size ++ frame.data)))
  | .stream => do
    let t : UInt8 := 0x08 ||| 0x02 ||| (if frame.offset ≠ 0 then 0x04 else 0) ||| (if frame.fin then 0x01 else 0)
    let id ← quicEncodeVarint frame.streamId
    let offset ← if frame.offset ≠ 0 then quicEncodeVarint frame.offset else some []
    let size ← quicEncodeVarint frame.data.length
    some (t :: (id ++ (offset ++ (size ++ frame.data))))
  | .resetStream => do
    let id ← quicEncodeVarint frame.streamId
    let code ← quicEncodeVarint frame.applicationErrorCode
    let size ← quicEncodeVarint frame.finalSize
    some (0x04 :: (id ++ (code ++ size)))
  | .stopSending => do
    let id ← quicEncodeVarint frame.streamId
    let code ← quicEncodeVarint frame.applicationErrorCode
    some (0x05 :: (id ++ code))
  | .maxData => do
    let limit ← quicEncodeVarint frame.maxData
    some (0x10 :: limit)
  | .maxStreamData => do
    let id ← quicEncodeVarint frame.streamId
    let limit ← quicEncodeVarint frame.maxData
    some (0x11 :: (id ++ limit))
  | .pathChallenge => if frame.pathData.length ≠ 8 then none else some (0x1a :: frame.pathData)
  | .pathResponse => if frame.pathData.length ≠ 8 then none else some (0x1b :: frame.pathData)
  | .connectionClose => do
    let code ← quicEncodeVarint frame.errorCode
    let type ← quicEncodeVarint frame.frameType
    let size ← quicEncodeVarint frame.reasonPhrase.length
    some (0x1c :: (code ++ (type ++ (size ++ frame.reasonPhrase))))
  | .handshakeDone => some [0x1e]
  | .newConnectionId => do
    let number ← quicEncodeVarint frame.sequenceNumber
    let prior ← quicEncodeVarint frame.retirePriorTo
    if frame.connectionId.bytes = [] ∨ frame.connectionId.bytes.length > 20 ∨ frame.statelessResetToken.length ≠ 16 then
      none
    else
      some (0x18 :: (number ++ (prior ++ (UInt8.ofNat frame.connectionId.bytes.length ::
        (frame.connectionId.bytes ++ frame.statelessResetToken)))))
  | .retireConnectionId => do
    let number ← quicEncodeVarint frame.sequenceNumber
    some (0x19 :: number)
  | _ => none

def takeBytes (len : Nat) (data : Bytes) : Option (Bytes × Bytes) :=
  if len > data.length then none else some (data.take len, data.drop len)

def decodeAckRanges : Nat → Bytes → Option (List QuicAckRange × Bytes)
  | 0, data => some ([], data)
  | count + 1, data => do
    let (gap, data) ← quicDecodeVarint data
    let (ackRangeLength, data) ← quicDecodeVarint data
    let (others, data) ← decodeAckRanges count data
    some ({ gap, ackRangeLength } :: others, data)

def decodeAck (t : UInt8) (data : Bytes) : Option (QuicFrame × Bytes) := do
  let (largestAcknowledged, data) ← quicDecodeVarint data
  let (ackDelay, data) ← quicDecodeVarint data
  let (ackRangeCount, data) ← quicDecodeVarint data
  let (firstAckRange, data) ← quicDecodeVarint data
  let (ackRanges, data) ← decodeAckRanges ackRangeCount data
  let frame : QuicFrame :=
    { type := if t = 0x02 then .ack else .ackEcn, rawType := t, largestAcknowledged,
      ackDelay, firstAckRange, ackRanges }
  if t = 0x03 then
    let (_, data) ← quicDecodeVarint data
    let (_, data) ← quicDecodeVarint data
    let (_, data) ← quicDecodeVarint data
    some (frame, data)
  else some (frame, data)

def decodeStream (t : UInt8) (data : Bytes) : Option (QuicFrame × Bytes) := do
  let (streamId, data) ← quicDecodeVarint data
  let (offset, data) ← if t &&& 0x04 ≠ 0 then quicDecodeVarint data else some (0, data)
  let frame : QuicFrame :=
    { type := .stream, rawType := t, fin := t &&& 0x01 ≠ 0, hasLength := t &&& 0x02 ≠ 0, streamId, offset }
  if t &&& 0x02 ≠ 0 then
    let (len, data) ← quicDecodeVarint data
    let (content, data) ← takeBytes len data
    some ({ frame with data := content }, data)
  else some ({ frame with data }, [])

def decodeNewConnectionId (t : UInt8) (data : Bytes) : Option (QuicFrame × Bytes) := do
  let (sequenceNumber, data) ← quicDecodeVarint data
  let (retirePriorTo, data) ← quicDecodeVarint data
  match data with
  | [] => none
  | cidLen :: data =>
    if cidLen.toNat = 0 ∨ cidLen.toNat > 20 then none
    else
      let (cid, data) ← takeBytes cidLen.toNat data
      let (statelessResetToken, data) ← takeBytes 16 data
      some ({ type := .newConnectionId, rawType := t, sequenceNumber, retirePriorTo, connectionId := ⟨cid⟩,
              statelessResetToken }, data)

/-- One round of the loop of quicDecodeFrames, behind the type byte. -/
def decodeFrame (t : UInt8) (data : Bytes) : Option (QuicFrame × Bytes) :=
  if t = 0x00 then some ({ type := .padding, rawType := t }, data.dropWhile (· = 0x00))
  else if t = 0x01 then some ({ type := .ping, rawType := t }, data)
  else if t = 0x02 ∨ t = 0x03 then decodeAck t data
  else if t = 0x06 then do
    let (offset, data) ← quicDecodeVarint data
    let (len, data) ← quicDecodeVarint data
    let (content, data) ← takeBytes len data
    some ({ type := .crypto, rawType := t, offset, data := content }, data)
  else if t = 0x07 then do
    let (len, data) ← quicDecodeVarint data
    let (content, data) ← takeBytes len data
    some ({ type := .newToken, rawType := t, data := content }, data)
  else if t &&& 0xf8 = 0x08 then decodeStream t data
  else if t = 0x04 then do
    let (streamId, data) ← quicDecodeVarint data
    let (applicationErrorCode, data) ← quicDecodeVarint data
    let (finalSize, data) ← quicDecodeVarint data
    some ({ type := .resetStream, rawType := t, streamId, applicationErrorCode, finalSize }, data)
  else if t = 0x05 then do
    let (streamId, data) ← quicDecodeVarint data
    let (applicationErrorCode, data) ← quicDecodeVarint data
    some ({ type := .stopSending, rawType := t, streamId, applicationErrorCode }, data)
  else if t = 0x10 then do
    let (maxData, data) ← quicDecodeVarint data
    some ({ type := .maxData, rawType := t, maxData }, data)
  else if t = 0x11 then do
    let (streamId, data) ← quicDecodeVarint data
    let (maxData, data) ← quicDecodeVarint data
    some ({ type := .maxStreamData, rawType := t, streamId, maxData }, data)
  else if t = 0x12 ∨ t = 0x13 then do
    let (maxData, data) ← quicDecodeVarint data
    some ({ type := if t = 0x12 then .maxStreamsBidi else .maxStreamsUni, rawType := t, maxData }, data)
  else if t = 0x14 then do
    let (maxData, data) ← quicDecodeVarint data
    some ({ type := .dataBlocked, rawType := t, maxData }, data)
  else if t = 0x15 then do
    let (streamId, data) ← quicDecodeVarint data
    let (maxData, data) ← quicDecodeVarint data
    some ({ type := .streamDataBlocked, rawType := t, streamId, maxData }, data)
  else if t = 0x16 ∨ t = 0x17 then do
    let (maxData, data) ← quicDecodeVarint data
    some ({ type := if t = 0x16 then .streamsBlockedBidi else .streamsBlockedUni, rawType := t, maxData }, data)
  else if t = 0x1a ∨ t = 0x1b then do
    let (pathData, data) ← takeBytes 8 data
    some ({ type := if t = 0x1a then .pathChallenge else .pathResponse, rawType := t, pathData }, data)
  else if t = 0x1c ∨ t = 0x1d then do
    let (errorCode, data) ← quicDecodeVarint data
    let (frameType, data) ← if t = 0x1c then quicDecodeVarint data else some (0, data)
    let (reasonLen, data) ← quicDecodeVarint data
    let (reasonPhrase, data) ← takeBytes reasonLen data
    some ({ type := if t = 0x1c then .connectionClose else .connectionCloseApp, rawType := t, errorCode, frameType,
            reasonPhrase }, data)
  else if t = 0x1e then some ({ type := .handshakeDone, rawType := t }, data)
  else if t = 0x18 then decodeNewConnectionId t data
  else if t = 0x19 then do
    let (sequenceNumber, data) ← quicDecodeVarint data
    some ({ type := .retireConnectionId, rawType := t, sequenceNumber }, data)
  else none

/-- The loop of quicDecodeFrames. Each round takes the type byte at least, so
that as many rounds as there are bytes are enough. -/
def decodeLoop : Nat → Bytes → Option (List QuicFrame)
  | _, [] => some []
  | 0, _ :: _ => none
  | fuel + 1, t :: data => do
    let (frame, data) ← decodeFrame t data
    let frames ← decodeLoop fuel data
    some (frame :: frames)

def quicDecodeFrames (data : Bytes) : Option (List QuicFrame) := decodeLoop data.length data

theorem decodeAckRanges_encode {ranges : List QuicAckRange} {bytes : Bytes}
    (encoded : encodeAckRanges ranges = some bytes) (rest : Bytes) :
    decodeAckRanges ranges.length (bytes ++ rest) = some (ranges, rest) := by
  induction ranges generalizing bytes with
  | nil =>
    cases some.inj encoded
    rfl
  | cons range others ih =>
    simp only [encodeAckRanges, bind_eq_bind, bind_eq_some_iff, some.injEq] at encoded
    obtain ⟨gap, gapIs, length, lengthIs, tail, tailIs, rfl⟩ := encoded
    simp [decodeAckRanges, quicDecodeVarint_encode gapIs, quicDecodeVarint_encode lengthIs, ih tailIs]

theorem decodeFrame_ack (data : Bytes) : decodeFrame 0x02 data = decodeAck 0x02 data := by
  simp [decodeFrame]

end Qtng
