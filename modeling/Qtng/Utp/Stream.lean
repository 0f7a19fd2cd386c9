import Qtng.General.BigEndian
import Qtng.General.Map
import Qtng.General.Run

namespace Qtng.Utp

open BigEndian Std

def utpHeaderSize : Nat := 20

def minPayloadSize : UInt32 := 150

def defaultMaxWindow : UInt32 := 256 * 1024

def initialTimeoutMs : UInt32 := 1000

inductive UtpPacketType
  | data
  | fin
  | state
  | reset
  | syn
  | unknown (code : UInt8)
deriving DecidableEq

def UtpPacketType.code : UtpPacketType → UInt8
  | .data => 0
  | .fin => 1
  | .state => 2
  | .reset => 3
  | .syn => 4
  | .unknown code => code

def packetType (verType : UInt8) : UtpPacketType :=
  match (verType >>> 4).toNat with
  | 0 => .data
  | 1 => .fin
  | 2 => .state
  | 3 => .reset
  | 4 => .syn
  | _ => .unknown (verType >>> 4)

/-- The version, 1, stands in the low half. -/
def makeVerType (type : UtpPacketType) : UInt8 := (type.code <<< 4) ||| (1 &&& 0x0f)

def seqInc (seq : UInt16) : UInt16 := seq + 1

/-- The signed 16-bit distance: positive when the first number is ahead of the
second within half the sequence space. -/
def seqDiff (a b : UInt16) : Int := (a - b).toInt16.toInt

structure UtpWireHeader where
  verType : UInt8
  ext : UInt8
  connId : UInt16
  timestamp : UInt32
  replyMicro : UInt32
  wndSize : UInt32
  seqNr : UInt16
  ackNr : UInt16
deriving DecidableEq

def decodeHeader (data : Bytes) : Option UtpWireHeader :=
  if data.length < utpHeaderSize then none
  else some
    { verType := data.getD 0 0
      ext := data.getD 1 0
      connId := readWord16 ((data.drop 2).take 2)
      timestamp := readWord32 ((data.drop 4).take 4)
      replyMicro := readWord32 ((data.drop 8).take 4)
      wndSize := readWord32 ((data.drop 12).take 4)
      seqNr := readWord16 ((data.drop 16).take 2)
      ackNr := readWord16 ((data.drop 18).take 2) }

def encodeHeader (hdr : UtpWireHeader) : Bytes :=
  [hdr.verType, hdr.ext] ++ word16 hdr.connId ++ word32 hdr.timestamp ++ word32 hdr.replyMicro ++
    word32 hdr.wndSize ++ word16 hdr.seqNr ++ word16 hdr.ackNr

@[simp]
theorem packetType_makeVerType_data : packetType (makeVerType .data) = .data := by decide

@[simp]
theorem packetType_makeVerType_fin : packetType (makeVerType .fin) = .fin := by decide

@[simp]
theorem packetType_makeVerType_state : packetType (makeVerType .state) = .state := by decide

@[simp]
theorem packetType_makeVerType_syn : packetType (makeVerType .syn) = .syn := by decide

@[simp]
theorem length_encodeHeader (hdr : UtpWireHeader) : (encodeHeader hdr).length = utpHeaderSize := rfl

theorem decodeHeader_encodeHeader (hdr : UtpWireHeader) (payload : Bytes) :
    decodeHeader (encodeHeader hdr ++ payload) = some hdr := by
  have long : ¬ (encodeHeader hdr ++ payload).length < utpHeaderSize := by simp
  have connId : (((encodeHeader hdr ++ payload).drop 2).take 2) = word16 hdr.connId := rfl
  have timestamp : (((encodeHeader hdr ++ payload).drop 4).take 4) = word32 hdr.timestamp := rfl
  have replyMicro : (((encodeHeader hdr ++ payload).drop 8).take 4) = word32 hdr.replyMicro := rfl
  have wndSize : (((encodeHeader hdr ++ payload).drop 12).take 4) = word32 hdr.wndSize := rfl
  have seqNr : (((encodeHeader hdr ++ payload).drop 16).take 2) = word16 hdr.seqNr := rfl
  have ackNr : (((encodeHeader hdr ++ payload).drop 18).take 2) = word16 hdr.ackNr := rfl
  rw [decodeHeader, if_neg long, connId, timestamp, replyMicro, wndSize, seqNr, ackNr]
  simp only [readWord16_word16, readWord32_word32]
  rfl

theorem drop_encodeHeader (hdr : UtpWireHeader) (payload : Bytes) :
    (encodeHeader hdr ++ payload).drop utpHeaderSize = payload := List.drop_left' (length_encodeHeader hdr)

theorem seqDiff_eq_bmod (a b : UInt16) : seqDiff a b = Int.bmod ((a.toNat : Int) - b.toNat) 65536 := by
  have bits : seqDiff a b = (a.toBitVec - b.toBitVec).toInt := rfl
  rw [bits, BitVec.toInt_sub, BitVec.toInt_eq_toNat_bmod, BitVec.toInt_eq_toNat_bmod]
  simp

/-- The number of the packet behind a given count of others. -/
def numbered (first : UInt16) (i : Nat) : UInt16 := first + UInt16.ofNat i

theorem seqInc_numbered (first : UInt16) (i : Nat) : seqInc (numbered first i) = numbered first (i + 1) := by
  simp only [seqInc, numbered, UInt16.ofNat_add, UInt16.add_assoc]
  rfl

theorem toNat_numbered (first : UInt16) (i : Nat) : (numbered first i).toNat = (first.toNat + i) % 65536 := by
  simp [numbered, UInt16.toNat_add]

theorem numbered_inj {first : UInt16} {i j : Nat} (same : numbered first i = numbered first j) :
    i % 65536 = j % 65536 := by
  have numbers := congrArg UInt16.toNat same
  rw [toNat_numbered, toNat_numbered] at numbers
  omega

theorem seqDiff_numbered (first : UInt16) (i j : Nat) :
    seqDiff (numbered first i) (numbered first j) = Int.bmod ((i : Int) - j) 65536 := by
  rw [seqDiff_eq_bmod, toNat_numbered, toNat_numbered]
  push_cast
  rw [Int.bmod_def, Int.bmod_def]
  omega

/-- The states of a socket that a stream takes. -/
inductive UtpSocketState
  | unconnected
  | bound
  | listening
  | connecting
  | connected
deriving DecidableEq

inductive UtpSocketError
  | noError
  | socketAccessError
  | socketTimeoutError
  | remoteHostClosedError
deriving DecidableEq

/-- A DATA or FIN packet that waits for its acknowledgement. The serial number
counts the packets queued before it; the source does not keep it. -/
structure SentPacket where
  bytes : Bytes
  seq : UInt16
  sentMicros : UInt64
  needAck : Bool
  transmitCount : Nat
  rto : UInt32
  serial : Nat
deriving DecidableEq

/-- A datagram on the link. DATA and FIN carry the serial number of their packet. -/
structure UtpDatagram where
  serial : Option Nat
  bytes : Bytes
deriving DecidableEq

/-- The state of a stream. The last five fields are not in the source: the
payloads of all the packets ever queued, those of the packets the link took, the
bytes that recv has returned, the number of packets taken in order, and every
datagram given to the link. -/
structure UtpStream where
  /-- A stream that accept returns, behind the link of its parent. -/
  slave : Bool
  state : UtpSocketState := .unconnected
  error : UtpSocketError := .noError
  errorString : String := ""
  sendingQueueNotFull : Bool := true
  receivingBuffer : Bytes := []
  sendQueue : List SentPacket := []
  outOfOrder : ExtTreeMap Nat Bytes := ∅
  seqNr : UInt16 := 1
  ackNr : UInt16 := 0
  recvConnId : UInt16 := 0
  sendConnId : UInt16 := 0
  curWindow : UInt32 := 0
  maxWindow : UInt32 := defaultMaxWindow
  packetSize : UInt32 := 1400
  receiveBufferSize : UInt32 := 256 * 1024
  delayTargetUs : UInt32 := 100000
  replyMicro : UInt32 := 0
  baseDelay : UInt32 := 0
  peerWindow : UInt32 := defaultMaxWindow
  timeoutMs : UInt32 := initialTimeoutMs
  finSent : Bool := false
  finReceived : Bool := false
  /-- The parent of a slave is set, and the link of a master is not aborted. -/
  linked : Bool := true
  queued : List Bytes := []
  handed : List Bytes := []
  returned : Bytes := []
  inOrder : Nat := 0
  wire : List UtpDatagram := []

namespace UtpStream

def appended (s : UtpStream) : Bytes := s.returned ++ s.receivingBuffer

def isValid (s : UtpStream) : Bool :=
  s.state = .connected ∨ (s.slave = false ∧ s.state ≠ .unconnected)

def effectivePayloadSize (s : UtpStream) : UInt32 :=
  if s.packetSize ≤ 20 + minPayloadSize then minPayloadSize else s.packetSize - 20

def rawSend (serial : Option Nat) (bytes : Bytes) (s : UtpStream) : UtpStream :=
  if s.linked then { s with wire := s.wire ++ [⟨serial, bytes⟩] } else s

def recvAvail (s : UtpStream) : UInt32 :=
  if s.receivingBuffer.length < s.receiveBufferSize.toNat then
    UInt32.ofNat (s.receiveBufferSize.toNat - s.receivingBuffer.length)
  else 0

def headerOf (now : UInt64) (type : UtpPacketType) (seqOverride : UInt16) (s : UtpStream) : UtpWireHeader where
  verType := makeVerType type
  ext := 0
  connId := if type = .syn then s.recvConnId else s.sendConnId
  timestamp := now.toUInt32
  replyMicro := s.replyMicro
  wndSize := s.recvAvail
  seqNr := if seqOverride ≠ 0 then seqOverride else s.seqNr
  ackNr := s.ackNr

def buildPacket (now : UInt64) (type : UtpPacketType) (seqOverride : UInt16) (payload : Bytes) (advanceSeq : Bool)
    (s : UtpStream) : Bytes × UtpStream :=
  (encodeHeader (s.headerOf now type seqOverride) ++ payload,
    if seqOverride = 0 ∧ advanceSeq ∧ type ≠ .state ∧ type ≠ .syn then { s with seqNr := seqInc s.seqNr } else s)

def sendPacket (now : UInt64) (type : UtpPacketType) (seqOverride : UInt16) (payload : Bytes) (advanceSeq : Bool)
    (s : UtpStream) : UtpStream :=
  let (packet, s) := s.buildPacket now type seqOverride payload advanceSeq
  if type = .data ∨ type = .fin then
    let sp : SentPacket :=
      { bytes := packet
        seq := readWord16 ((packet.drop 16).take 2)
        sentMicros := now
        needAck := true
        transmitCount := 1
        rto := s.timeoutMs
        serial := s.queued.length }
    rawSend (some sp.serial) packet
      { s with
        curWindow := s.curWindow + UInt32.ofNat packet.length
        sendQueue := s.sendQueue ++ [sp]
        queued := s.queued ++ [payload]
        handed := if s.linked then s.handed ++ [payload] else s.handed }
  else s.rawSend none packet

def sendAck (now : UInt64) (s : UtpStream) : UtpStream := s.sendPacket now .state 0 [] false

/-- The loop of ackPackets: pops the packets up to a number and takes their sizes
off the window. -/
def popAcked (ackNrNew : UInt16) : UInt32 → List SentPacket → UInt32 × List SentPacket
  | curWindow, [] => (curWindow, [])
  | curWindow, front :: rest =>
    if 0 ≤ seqDiff ackNrNew front.seq then popAcked ackNrNew (curWindow - UInt32.ofNat front.bytes.length) rest
    else (curWindow, front :: rest)

def ackPackets (ackNrNew : UInt16) (s : UtpStream) : UtpStream :=
  let popped := popAcked ackNrNew s.curWindow s.sendQueue
  let s := { s with curWindow := popped.1, sendQueue := popped.2 }
  if s.sendQueue = [] then
    { s with sendingQueueNotFull := true, timeoutMs := initialTimeoutMs }
  else if initialTimeoutMs < s.timeoutMs then
    { s with timeoutMs := max initialTimeoutMs (s.timeoutMs / 2) }
  else s

def fail (error : UtpSocketError) (errorString : String) (s : UtpStream) : UtpStream :=
  { s with error := error, errorString := errorString }

/-- Whether close still has to send a FIN. A slave is never in the connecting state. -/
def finDue (force : Bool) (s : UtpStream) : Prop :=
  (s.state = .connected ∨ (s.slave = false ∧ s.state = .connecting)) ∧ force = false ∧ s.error = .noError ∧
    s.finSent = false

instance (force : Bool) (s : UtpStream) : Decidable (s.finDue force) := inferInstanceAs (Decidable (_ ∧ _))

def sendFin (now : UInt64) (s : UtpStream) : UtpStream :=
  { s.sendPacket now .fin 0 [] true with finSent := true }

def disconnect (s : UtpStream) : UtpStream :=
  { s with state := .unconnected, linked := false, sendingQueueNotFull := true }

/-- Both close functions; closing a listening master concerns its slaves only. -/
def close (now : UInt64) (force : Bool) (s : UtpStream) : UtpStream :=
  if s.state = .unconnected then s
  else disconnect (if s.finDue force then s.sendFin now else s)

/-- What the loop of flushOutgoing leaves of the queue, the packets it sends
again, and whether it stopped at a packet sent too often. -/
structure Flushed where
  queue : List SentPacket
  resent : List SentPacket
  expired : Bool

def flushQueue (now : UInt64) : List SentPacket → Flushed
  | [] => ⟨[], [], false⟩
  | pkt :: rest =>
    if pkt.needAck ∧ pkt.rto.toUInt64 < (now - pkt.sentMicros) / 1000 then
      if 5 < pkt.transmitCount + 1 then
        ⟨{ pkt with transmitCount := pkt.transmitCount + 1 } :: rest, [], true⟩
      else
        let again := { pkt with
          transmitCount := pkt.transmitCount + 1, rto := min (pkt.rto * 2) 60000, sentMicros := now }
        let tail := flushQueue now rest
        ⟨again :: tail.queue, again :: tail.resent, tail.expired⟩
    else
      let tail := flushQueue now rest
      ⟨pkt :: tail.queue, tail.resent, tail.expired⟩

def resend (s : UtpStream) (pkt : SentPacket) : UtpStream := s.rawSend (some pkt.serial) pkt.bytes

def retransmit (flushed : Flushed) (s : UtpStream) : UtpStream :=
  flushed.resent.foldl resend { s with sendQueue := flushed.queue }

def flushOutgoing (now : UInt64) (s : UtpStream) : UtpStream :=
  let flushed := flushQueue now s.sendQueue
  let s := s.retransmit flushed
  if flushed.expired then close now true (s.fail .socketTimeoutError "uTP retransmit timeout") else s

def enterConnected (s : UtpStream) : UtpStream := { s with state := .connected }

/-- The congestion window after a sample of the round trip. -/
def adaptWindow (now : UInt64) (hdr : UtpWireHeader) (s : UtpStream) : UtpStream :=
  let rtt := now.toUInt32 - hdr.replyMicro
  if 0 < hdr.replyMicro ∧ rtt ≤ 10000000 then
    let baseDelay := if s.baseDelay = 0 ∨ rtt < s.baseDelay then rtt else s.baseDelay
    let ourDelay := if baseDelay < rtt then rtt - baseDelay else 0
    { s with
      baseDelay := baseDelay
      maxWindow :=
        if s.delayTargetUs < ourDelay ∧ minPayloadSize * 4 < s.maxWindow then s.maxWindow * 3 / 4
        else if ourDelay < s.delayTargetUs then min (s.maxWindow + minPayloadSize) (defaultMaxWindow * 2)
        else s.maxWindow }
  else s

/-- What every packet of the connection brings: the timestamp to echo and the
window of the peer. -/
def noteHeader (now : UInt64) (hdr : UtpWireHeader) (s : UtpStream) : UtpStream :=
  adaptWindow now hdr { s with replyMicro := hdr.timestamp, peerWindow := hdr.wndSize }

/-- The loop that takes the packets kept out of order, as many as now follow. The
first argument bounds its rounds. -/
def drain : Nat → UtpStream → UtpStream
  | 0, s => s
  | rounds + 1, s =>
    match s.outOfOrder[(seqInc s.ackNr).toNat]? with
    | none => s
    | some payload =>
      drain rounds { s with
        receivingBuffer := s.receivingBuffer ++ payload
        ackNr := seqInc s.ackNr
        outOfOrder := s.outOfOrder.erase (seqInc s.ackNr).toNat
        inOrder := s.inOrder + 1 }

/-- A DATA or FIN packet. Each round of the drain loop erases an entry. -/
def takePacket (now : UInt64) (hdr : UtpWireHeader) (payload : Bytes) (s : UtpStream) : UtpStream :=
  let expected := seqInc s.ackNr
  if hdr.seqNr = expected then
    sendAck now (drain s.outOfOrder.size
      { s with receivingBuffer := s.receivingBuffer ++ payload, ackNr := hdr.seqNr, inOrder := s.inOrder + 1 })
  else if 0 < seqDiff hdr.seqNr expected then
    sendAck now { s with outOfOrder := s.outOfOrder.insert hdr.seqNr.toNat payload }
  else if payload ≠ [] then sendAck now s
  else s

/-- The acknowledgement of a packet is compared with the number this end has
acknowledged itself. -/
def processAck (hdr : UtpWireHeader) (s : UtpStream) : UtpStream :=
  if 0 < seqDiff hdr.ackNr s.ackNr ∨ hdr.ackNr = s.ackNr then s.ackPackets hdr.ackNr else s

def noteFin (type : UtpPacketType) (s : UtpStream) : UtpStream :=
  if type = .fin then { s with finReceived := true } else s

def handlePacket (now : UInt64) (hdr : UtpWireHeader) (payload : Bytes) (s : UtpStream) : UtpStream :=
  let type := packetType hdr.verType
  let s := s.noteHeader now hdr
  if type = .syn then
    enterConnected (sendAck now
      { s with recvConnId := hdr.connId + 1, sendConnId := hdr.connId, ackNr := hdr.seqNr })
  else if s.state = .connecting ∧ type = .state then
    enterConnected { s with ackNr := hdr.seqNr - 1 }
  else if type = .reset then
    close now true (s.fail .remoteHostClosedError "uTP reset")
  else if s.state ≠ .connected ∧ s.state ≠ .connecting then s
  else
    let s := s.processAck hdr
    if type = .data ∨ type = .fin then (s.takePacket now hdr payload).noteFin type else s

def accepts (hdr : UtpWireHeader) (s : UtpStream) : Prop :=
  packetType hdr.verType = .syn ∨ s.recvConnId = 0 ∨ hdr.connId = s.recvConnId

instance (hdr : UtpWireHeader) (s : UtpStream) : Decidable (s.accepts hdr) :=
  inferInstanceAs (Decidable (_ ∨ _ ∨ _))

def handleDatagram (now : UInt64) (buf : Bytes) (s : UtpStream) : UtpStream :=
  match decodeHeader buf with
  | none => s
  | some hdr => if s.accepts hdr then s.handlePacket now hdr (buf.drop utpHeaderSize) else s

end UtpStream

/-- A send in progress: the bytes still to be sent, how many were, and whether
all of them are wanted. -/
structure UtpSendCall where
  rest : Bytes
  count : Int
  all : Bool
deriving DecidableEq

namespace UtpStream

def beginSend (data : Bytes) (s : UtpStream) : Except Int Unit × UtpStream :=
  if data = [] ∨ s.isValid = false then (.error (-1), s)
  else if s.state ≠ .connected then
    (.error (-1), s.fail .socketAccessError "UtpStream is not connected.")
  else (.ok (), s)

/-- The size of the next packet of a call. A payload size of 2^31 and more is a
negative number here. -/
def chunk (call : UtpSendCall) (s : UtpStream) : Int := min s.effectivePayloadSize.toInt32.toInt call.rest.length

def full (s : UtpStream) : Prop := min s.maxWindow s.peerWindow ≤ s.curWindow

instance (s : UtpStream) : Decidable s.full := inferInstanceAs (Decidable (_ ≤ _))

/-- A full window is flushed before the wait for room. -/
def awaitWindow (now : UInt64) (s : UtpStream) : UtpStream := if s.full then s.flushOutgoing now else s

def sendChunk (now : UInt64) (call : UtpSendCall) (s : UtpStream) : UtpSendCall × UtpStream :=
  let size := s.chunk call
  ({ call with rest := call.rest.drop size.toNat, count := call.count + size },
    s.sendPacket now .data 0 (call.rest.take size.toNat) true)

/-- The loop of send for a number of rounds; a call is also suspended while the
link takes a datagram, and goes on later. The value is there once it has returned. -/
def sendLoop (now : UInt64) : Nat → UtpSendCall → UtpStream → Option Int × UtpSendCall × UtpStream
  | 0, call, s => (none, call, s)
  | rounds + 1, call, s =>
    if call.rest = [] then (some (if s.isValid then call.count else -1), call, s)
    else
      let waited := s.awaitWindow now
      if s.full ∧ waited.sendingQueueNotFull = false then
        (some (if 0 < call.count then call.count else -1), call, waited)
      else
        let (call, s) := waited.sendChunk now call
        if call.all then sendLoop now rounds call s else (some call.count, call, s)

/-- One round of recv: what it returns, or nothing when it waits for more. -/
def recv (size : Nat) (all : Bool) (s : UtpStream) : Option (Int × UtpStream) :=
  if s.finReceived ∧ s.receivingBuffer = [] then some (0, s)
  else if s.state ≠ .connected ∧ ¬ (s.finReceived ∧ s.receivingBuffer ≠ []) then
    some (-1, s.fail .socketAccessError "UtpStream is not connected.")
  else if s.receivingBuffer ≠ [] ∧ (all = false ∨ size ≤ s.receivingBuffer.length) then
    let len := min size s.receivingBuffer.length
    some (len, { s with
      receivingBuffer := s.receivingBuffer.drop len, returned := s.returned ++ s.receivingBuffer.take len })
  else none

def setMaxWindow (bytes : UInt32) (s : UtpStream) : UtpStream :=
  if minPayloadSize ≤ bytes then { s with maxWindow := bytes } else s

def setPacketSize (bytes : UInt32) (s : UtpStream) : UtpStream :=
  if 20 + minPayloadSize < bytes then { s with packetSize := bytes } else s

def setReceiveBufferSize (bytes : UInt32) (s : UtpStream) : UtpStream := { s with receiveBufferSize := bytes }

def setDelayTarget (micros : UInt32) (s : UtpStream) : UtpStream := { s with delayTargetUs := micros }

def connect (now : UInt64) (connId synSeq : UInt16) : UtpStream :=
  let s : UtpStream :=
    { slave := false, state := .connecting, recvConnId := connId, sendConnId := connId + 1 }
  { s.sendPacket now .syn synSeq [] false with seqNr := seqInc synSeq }

def accepted (now : UInt64) (synConnId synSeq : UInt16) : UtpStream :=
  let s : UtpStream :=
    { slave := true, recvConnId := synConnId + 1, sendConnId := synConnId, ackNr := synSeq }
  enterConnected (sendAck now s)

end UtpStream

end Qtng.Utp
