import Qtng.General.Map
import Qtng.General.Run
import Qtng.Quic.Frame

namespace Qtng

open BigEndian

inductive QuicConnectionError
  | noError
  | socketError
  | handshakeError
  | protocolError
  | timeoutError
  | closedError
  | unsupportedVersion
  | unknownError
deriving DecidableEq

def QuicErrNoError : Nat := 0x00

def QuicErrFlowControlError : Nat := 0x03

def QuicErrStreamLimitError : Nat := 0x04

structure QuicConfiguration where
  m_maxData : Nat := 1024 * 1024
  m_maxStreamData : Nat := 256 * 1024
deriving DecidableEq

def QuicFrame.endOffset (frame : QuicFrame) : Nat := frame.offset + frame.data.length

/-- The receiving side of a stream. What waits in recvBuf is part of what has been
reassembled. -/
structure QuicStreamPrivate where
  recvBuf : Bytes := []
  recvOffset : Nat := 0
  finReceived : Bool := false
  reset : Bool := false
  recvFragments : Std.ExtTreeMap Nat Bytes := ∅
  hasFinBoundary : Bool := false
  finBoundary : Nat := 0
  buffered : recvBuf.length ≤ recvOffset := by simp

namespace QuicStreamPrivate

/-- The loop that moves fragments to recvBuf. Each round takes one of them away, so
that their number bounds the rounds. -/
def drain : Nat → QuicStreamPrivate → QuicStreamPrivate
  | 0, sd => sd
  | rounds + 1, sd =>
    match sd.recvFragments[sd.recvOffset]? with
    | none => sd
    | some data =>
      drain rounds
        { sd with
          recvBuf := sd.recvBuf ++ data, recvOffset := sd.recvOffset + data.length
          recvFragments := sd.recvFragments.erase sd.recvOffset
          buffered := by simpa using sd.buffered }

/-- The data of a frame that is not wholly below recvOffset. -/
def reassemble (sd : QuicStreamPrivate) (frame : QuicFrame) : QuicStreamPrivate :=
  if frame.endOffset > sd.recvOffset then
    let newDataStart := max frame.offset sd.recvOffset
    let fragments :=
      if frame.endOffset > newDataStart then
        sd.recvFragments.insert newDataStart (frame.data.drop (newDataStart - frame.offset))
      else sd.recvFragments
    drain fragments.size { sd with recvFragments := fragments }
  else sd

def noteFin (sd : QuicStreamPrivate) (frame : QuicFrame) : QuicStreamPrivate :=
  if frame.fin ∧ !sd.finReceived ∧ frame.endOffset > sd.finBoundary then
    { sd with finBoundary := frame.endOffset, hasFinBoundary := true }
  else sd

def declareFin (sd : QuicStreamPrivate) : QuicStreamPrivate :=
  if !sd.finReceived ∧ sd.hasFinBoundary ∧ sd.recvOffset ≥ sd.finBoundary then { sd with finReceived := true } else sd

/-- What onStreamFrame does to the stream once the frame has passed the limit. -/
def receive (sd : QuicStreamPrivate) (frame : QuicFrame) : QuicStreamPrivate :=
  ((sd.reassemble frame).noteFin frame).declareFin

def consumed (sd : QuicStreamPrivate) : Nat := sd.recvOffset - sd.recvBuf.length

/-- The number of bytes that recv copies. The size of the buffer is cast to int32_t. -/
def readable (sd : QuicStreamPrivate) (size : Int) : Int := min size (Int.bmod sd.recvBuf.length (2 ^ 32))

def consume (sd : QuicStreamPrivate) (n : Nat) : QuicStreamPrivate :=
  { sd with recvBuf := sd.recvBuf.drop n, buffered := by have := sd.buffered; rw [List.length_drop]; omega }

end QuicStreamPrivate

/-- The receiving half of QuicConnectionPrivate, with the frames that it has given
to sendPacket, the latest one first. -/
structure QuicReceiver where
  isClient : Bool
  config : QuicConfiguration
  hasAppKeys : Bool := false
  streams : Std.ExtTreeMap Nat QuicStreamPrivate := ∅
  maxStreamsLocalBidi : Nat := 100
  maxStreamsLocalUni : Nat := 100
  maxDataLocal : Nat
  maxStreamDataLocal : Nat
  recvDataTotal : Nat := 0
  error : QuicConnectionError := .noError
  errorString : String := ""
  transportErrorCode : Nat := QuicErrNoError
  sent : List QuicFrame := []

namespace QuicReceiver

variable {id : Nat} {bytes : Bytes} {size n : Int}

/-- The limits as setupTls leaves them. -/
def new (isClient : Bool) (config : QuicConfiguration) : QuicReceiver where
  isClient := isClient
  config := config
  maxDataLocal := config.m_maxData
  maxStreamDataLocal := config.m_maxStreamData

def setError (conn : QuicReceiver) (error : QuicConnectionError) (message : String) (transportErrorCode : Nat) :
    QuicReceiver :=
  { conn with error := error, errorString := message, transportErrorCode := transportErrorCode }

def setStream (conn : QuicReceiver) (id : Nat) (sd : QuicStreamPrivate) : QuicReceiver :=
  { conn with streams := conn.streams.insert id sd }

/-- A frame goes out if it can be encoded and the 1-RTT keys are there. -/
def sendFrame (conn : QuicReceiver) (frame : QuicFrame) : QuicReceiver :=
  if (quicEncodeFrame frame).isSome ∧ conn.hasAppKeys then { conn with sent := frame :: conn.sent } else conn

def tooManyStreams (conn : QuicReceiver) (id : Nat) : Bool :=
  let peerInitiated := if conn.isClient then id &&& 1 = 1 else id &&& 1 = 0
  let maxStreams := if id &&& 2 ≠ 0 then conn.maxStreamsLocalUni else conn.maxStreamsLocalBidi
  peerInitiated ∧ id >>> 2 ≥ maxStreams

def getOrCreateStream (conn : QuicReceiver) (id : Nat) : QuicReceiver × Option QuicStreamPrivate :=
  match conn.streams[id]? with
  | some sd => (conn, some sd)
  | none =>
    if conn.tooManyStreams id then
      (conn.setError .protocolError "flow control: too many peer streams" QuicErrStreamLimitError, none)
    else (conn.setStream id {}, some {})

def onStreamFrame (conn : QuicReceiver) (frame : QuicFrame) : QuicReceiver :=
  match conn.getOrCreateStream frame.streamId with
  | (conn, none) => conn
  | (conn, some sd) =>
    if frame.endOffset > conn.maxStreamDataLocal then
      conn.setError .protocolError "flow control: stream data exceeds limit" QuicErrFlowControlError
    else
      { conn.setStream frame.streamId (sd.receive frame) with
        recvDataTotal := conn.recvDataTotal + frame.data.length }

def maybeIncreaseMaxData (conn : QuicReceiver) : QuicReceiver :=
  let consumedTotal := (conn.streams.toList.map fun entry => entry.2.consumed).sum
  let window := max conn.config.m_maxData (1024 * 1024)
  if consumedTotal + window > conn.maxDataLocal then
    { conn with maxDataLocal := consumedTotal + window }.sendFrame
      { type := .maxData, maxData := consumedTotal + window }
  else conn

/-- The window of every stream has 256 KiB at least. -/
def streamWindow (conn : QuicReceiver) : Nat := max conn.config.m_maxStreamData (256 * 1024)

def maybeIncreaseMaxStreamData (conn : QuicReceiver) (id : Nat) : QuicReceiver :=
  match conn.streams[id]? with
  | none => conn
  | some sd =>
    if sd.consumed + conn.streamWindow > conn.maxStreamDataLocal then
      { conn with maxStreamDataLocal := sd.consumed + conn.streamWindow }.sendFrame
        { type := .maxStreamData, streamId := id, maxData := sd.consumed + conn.streamWindow }
    else conn

/-- The end of recv, once the application has taken its bytes. -/
def slideWindows (conn : QuicReceiver) (id : Nat) : QuicReceiver :=
  if conn.hasAppKeys then (conn.maybeIncreaseMaxStreamData id).maybeIncreaseMaxData else conn

/-- One call of recv, with the bytes copied and the number returned. There is no
result while the call waits, nor where the number of bytes to copy is negative. -/
def recv (conn : QuicReceiver) (id : Nat) (size : Int) : Option (QuicReceiver × Bytes × Int) :=
  match conn.streams[id]? with
  | none => none
  | some sd =>
    if sd.recvBuf = [] then
      if sd.finReceived then some (conn, [], 0)
      else if sd.reset ∨ conn.error ≠ .noError then some (conn, [], -1)
      else none
    else
      let n := sd.readable size
      if n < 0 then none
      else some ((conn.setStream id (sd.consume n.toNat)).slideWindows id, sd.recvBuf.take n.toNat, n)

/-- The state of a stream, or the state in which it will be created. -/
def stream (conn : QuicReceiver) (id : Nat) : QuicStreamPrivate := conn.streams[id]?.getD {}

def accepts (conn : QuicReceiver) (frame : QuicFrame) : Bool :=
  (conn.getOrCreateStream frame.streamId).2.isSome ∧ frame.endOffset ≤ conn.maxStreamDataLocal

@[simp] theorem sendFrame_streams (conn : QuicReceiver) (frame : QuicFrame) :
    (conn.sendFrame frame).streams = conn.streams := by
  unfold sendFrame
  split <;> rfl

@[simp] theorem maybeIncreaseMaxData_streams (conn : QuicReceiver) :
    conn.maybeIncreaseMaxData.streams = conn.streams := by
  unfold maybeIncreaseMaxData
  dsimp only
  split <;> simp

@[simp] theorem maybeIncreaseMaxStreamData_streams (conn : QuicReceiver) (id : Nat) :
    (conn.maybeIncreaseMaxStreamData id).streams = conn.streams := by
  unfold maybeIncreaseMaxStreamData
  split
  · rfl
  · split <;> simp

theorem stream_setStream (conn : QuicReceiver) (id other : Nat) (sd : QuicStreamPrivate) :
    (conn.setStream id sd).stream other = if other = id then sd else conn.stream other := by
  unfold stream setStream
  dsimp only
  rw [NatMap.getElem?_insert]
  split <;> rfl

/-- The connection with the stream of a frame open, which getOrCreateStream opens
in its initial state. -/
inductive Opened (conn : QuicReceiver) (id : Nat) : QuicReceiver → Prop
  | before : id ∈ conn.streams → Opened conn id conn
  | now : id ∉ conn.streams → conn.tooManyStreams id = false → Opened conn id (conn.setStream id {})

variable {conn after : QuicReceiver}

theorem Opened.stream_eq (opened : Opened conn id after) (other : Nat) :
    after.stream other = conn.stream other := by
  cases opened with
  | before => rfl
  | now absent =>
    rw [stream_setStream]
    split_ifs with same
    · simp [stream, same, absent]
    · rfl

/-- What onStreamFrame does with a frame: the stream cannot be opened, the frame
exceeds the limit, or the stream receives it. -/
inductive OnStreamFrame (conn : QuicReceiver) (frame : QuicFrame) : QuicReceiver → Prop
  | refused : frame.streamId ∉ conn.streams → conn.tooManyStreams frame.streamId = true → conn.accepts frame = false →
      OnStreamFrame conn frame
        (conn.setError .protocolError "flow control: too many peer streams" QuicErrStreamLimitError)
  | exceeding {opened} : Opened conn frame.streamId opened → conn.maxStreamDataLocal < frame.endOffset →
      conn.accepts frame = false → OnStreamFrame conn frame
        (opened.setError .protocolError "flow control: stream data exceeds limit" QuicErrFlowControlError)
  | received {opened} : Opened conn frame.streamId opened → frame.endOffset ≤ conn.maxStreamDataLocal →
      conn.accepts frame = true → OnStreamFrame conn frame
        { opened.setStream frame.streamId ((conn.stream frame.streamId).receive frame) with
          recvDataTotal := opened.recvDataTotal + frame.data.length }

theorem onStreamFrame_cases (conn : QuicReceiver) (frame : QuicFrame) :
    OnStreamFrame conn frame (conn.onStreamFrame frame) := by
  rcases present : conn.streams[frame.streamId]? with _ | sd
  · have absent : frame.streamId ∉ conn.streams := by simpa using present
    by_cases refused : conn.tooManyStreams frame.streamId = true
    · have created : conn.getOrCreateStream frame.streamId =
          (conn.setError .protocolError "flow control: too many peer streams" QuicErrStreamLimitError, none) := by
        simp only [getOrCreateStream, present, if_pos refused]
      simp only [onStreamFrame, created]
      exact .refused absent refused (by simp [accepts, created])
    · have created : conn.getOrCreateStream frame.streamId = (conn.setStream frame.streamId {}, some {}) := by
        simp only [getOrCreateStream, present, if_neg refused]
      have opened := Opened.now absent (by simpa using refused)
      have current : conn.stream frame.streamId = {} := by simp [stream, present]
      simp only [onStreamFrame, created]
      split
      · rename_i above
        exact .exceeding opened above (by simpa [accepts, created] using show conn.maxStreamDataLocal < _ from above)
      · rename_i below
        have within : frame.endOffset ≤ conn.maxStreamDataLocal := Nat.le_of_not_lt below
        have taken := OnStreamFrame.received opened within (by simpa [accepts, created] using within)
        rwa [current] at taken
  · have created : conn.getOrCreateStream frame.streamId = (conn, some sd) := by
      simp only [getOrCreateStream, present]
    have opened := Opened.before (NatMap.mem_iff_present.mpr ⟨sd, present⟩)
    have current : conn.stream frame.streamId = sd := by simp [stream, present]
    simp only [onStreamFrame, created]
    split
    · rename_i above
      exact .exceeding opened above (by simpa [accepts, created] using above)
    · rename_i below
      have taken := OnStreamFrame.received opened (Nat.le_of_not_lt below) (by simpa [accepts, created] using below)
      rwa [current] at taken

theorem onStreamFrame_stream (conn : QuicReceiver) (frame : QuicFrame) (id : Nat) :
    (conn.onStreamFrame frame).stream id =
      if conn.accepts frame = true ∧ id = frame.streamId then (conn.stream id).receive frame else conn.stream id := by
  have outcome := conn.onStreamFrame_cases frame
  generalize conn.onStreamFrame frame = after at outcome ⊢
  cases outcome with
  | refused _ _ refused => simp [refused, stream, setError]
  | exceeding opened _ refused =>
    rw [if_neg (fun taken => by simp [refused] at taken)]
    exact opened.stream_eq id
  | received opened _ taken =>
    refine (stream_setStream _ frame.streamId id _).trans ?_
    by_cases own : id = frame.streamId
    · rw [if_pos own, if_pos ⟨taken, own⟩, own]
    · rw [if_neg own, if_neg (fun both => own both.2)]
      exact opened.stream_eq id

@[simp] theorem slideWindows_streams (conn : QuicReceiver) (id : Nat) :
    (conn.slideWindows id).streams = conn.streams := by
  unfold slideWindows
  split <;> simp

theorem recv_cases (returned : conn.recv id size = some (after, bytes, n)) :
    ∃ sd, conn.streams[id]? = some sd ∧
      (sd.recvBuf = [] ∧ after = conn ∧ bytes = [] ∨
        sd.recvBuf ≠ [] ∧ n = sd.readable size ∧ 0 ≤ n ∧ bytes = sd.recvBuf.take n.toNat ∧
          after = (conn.setStream id (sd.consume n.toNat)).slideWindows id) := by
  unfold recv at returned
  rcases present : conn.streams[id]? with _ | sd
  · simp [present] at returned
  · refine ⟨sd, rfl, ?_⟩
    simp only [present] at returned
    split at returned
    · rename_i empty
      left
      split at returned
      · cases returned
        exact ⟨empty, rfl, rfl⟩
      · split at returned
        · cases returned
          exact ⟨empty, rfl, rfl⟩
        · simp at returned
    · rename_i filled
      right
      split at returned
      · simp at returned
      · rename_i counted
        simp only [Option.some.injEq, Prod.mk.injEq] at returned
        obtain ⟨rfl, rfl, rfl⟩ := returned
        exact ⟨filled, rfl, by omega, rfl, rfl⟩

theorem recv_stream (returned : conn.recv id size = some (after, bytes, n)) :
    ∃ count, bytes = (conn.stream id).recvBuf.take count ∧
      ∀ other, after.stream other = if other = id then (conn.stream id).consume count else conn.stream other := by
  obtain ⟨sd, present, ⟨_, rfl, rfl⟩ | ⟨_, _, _, copied, rfl⟩⟩ := recv_cases returned
  · refine ⟨0, by simp, ?_⟩
    intro other
    split
    · rename_i same
      rw [same]
      rfl
    · rfl
  · have current : conn.stream id = sd := by simp [stream, present]
    refine ⟨_, by rw [current]; exact copied, ?_⟩
    intro other
    rw [current, ← conn.stream_setStream id other]
    simp [stream]

end QuicReceiver

/-- The receiving half of a connection with the STREAM frames it has taken and the
bytes that the application has read of each stream. -/
structure ReceiveWorld where
  conn : QuicReceiver
  accepted : List QuicFrame := []
  delivered : Nat → Bytes := fun _ => []

inductive ReceiveEvent
  | streamFrame (frame : QuicFrame)
  | recv (id : Nat) (size : Int)
  | streamDataBlocked (id : Nat)
  | reset (id : Nat)
  | appKeys
deriving DecidableEq

namespace ReceiveWorld

def step (s : ReceiveWorld) : ReceiveEvent → Option ReceiveWorld
  | .streamFrame frame =>
    some { s with
      conn := s.conn.onStreamFrame frame
      accepted := if s.conn.accepts frame then frame :: s.accepted else s.accepted }
  | .recv id size =>
    (s.conn.recv id size).map fun (conn, bytes, _) =>
      { s with conn := conn, delivered := Function.update s.delivered id (s.delivered id ++ bytes) }
  | .streamDataBlocked id => some { s with conn := s.conn.maybeIncreaseMaxStreamData id }
  | .reset id => s.conn.streams[id]?.map fun sd => { s with conn := s.conn.setStream id { sd with reset := true } }
  | .appKeys => some { s with conn := { s.conn with hasAppKeys := true } }

def frames (s : ReceiveWorld) (id : Nat) : List QuicFrame := s.accepted.filter fun frame => frame.streamId = id

end ReceiveWorld

end Qtng
