import Qtng.Http.Hpack

namespace Qtng.Http2

open BigEndian

inductive FrameType
  | data | headers | priority | rstStream | settings | pushPromise | ping | goAway | windowUpdate | continuation
  | other
deriving DecidableEq

def flagEndStream : UInt8 := 0x1
def flagEndHeaders : UInt8 := 0x4
def flagPadded : UInt8 := 0x8
def flagPriority : UInt8 := 0x20
def flagAck : UInt8 := 0x1

def errorNoError : Nat := 0x0
def errorProtocolError : Nat := 0x1
def errorFlowControlError : Nat := 0x3
def errorStreamClosed : Nat := 0x5
def errorFrameSizeError : Nat := 0x6
def errorRefusedStream : Nat := 0x7
def errorCancel : Nat := 0x8
def errorCompressionError : Nat := 0x9

def settingsHeaderTableSize : Nat := 0x1
def settingsMaxConcurrentStreams : Nat := 0x3
def settingsInitialWindowSize : Nat := 0x4
def settingsMaxFrameSize : Nat := 0x5

def kDefaultWindow : Int := 65535
def kDefaultMaxFrameSize : Nat := 16384

/-- A frame as readFrame returns it, or as buildFrame is given it. -/
structure Frame where
  type : FrameType
  flags : UInt8
  streamId : Nat
  payload : Bytes
deriving DecidableEq

def Frame.has (f : Frame) (flag : UInt8) : Bool := f.flags &&& flag ≠ 0

def readUint32 (bytes : Bytes) : Nat := (readWord32 (bytes.take 4)).toNat

def wireId (streamId : Nat) : Nat := streamId % 2 ^ 31

inductive ControlFrame
  | rstStream (streamId code : Nat)
  | settingsAck
  | ping (payload : Bytes)
  | goAway (lastStreamId code : Nat)
  | windowUpdate (streamId increment : Nat)
deriving DecidableEq

def ControlFrame.size : ControlFrame → Nat
  | .rstStream .. | .windowUpdate .. => 4
  | .settingsAck => 0
  | .ping payload => payload.length
  | .goAway .. => 8

/-- A string of a request body, with the size that a string keeps. -/
structure Chunk where
  bytes : Bytes
  size : Nat
  length_eq : bytes.length = size
deriving DecidableEq

namespace Chunk

def take (chunk : Chunk) (n : Nat) : Chunk where
  bytes := chunk.bytes.take n
  size := min n chunk.size
  length_eq := by rw [List.length_take, chunk.length_eq]

def drop (chunk : Chunk) (n : Nat) : Chunk where
  bytes := chunk.bytes.drop n
  size := chunk.size - n
  length_eq := by rw [List.length_drop, chunk.length_eq]

end Chunk

/-- What a request body gives: all of it at once where its size is known (nothing if
reading fails), or the results of one read after the other. -/
inductive Body
  | whole (data : Option Chunk)
  | streamed (chunks : List Chunk)

/-- A frame on the connection. The stream of a body frame is the stream object. -/
inductive Sent
  | control (f : ControlFrame)
  | header (f : Frame)
  | data (stream : Nat) (flags : UInt8) (piece : Chunk)

structure Http2StreamState where
  id : Nat := 0
  responseHeaders : List HpackHeader := []
  trailers : List HpackHeader := []
  body : Bytes := []
  endHeaders : Bool := false
  endStream : Bool := false
  reset : Bool := false
  reserved : Bool := false
  errorCode : Nat := 0
  sendWindow : Int := kDefaultWindow
  recvWindow : Int := kDefaultWindow

/-- What a coroutine writes to the connection with the write lock held: a control
frame, the header block of a stream from its start or from its next CONTINUATION on, a
piece of a body, or the empty frame that ends a body of unknown size. -/
inductive Writing
  | control (f : ControlFrame)
  | headers (stream : Nat) (headers : List HpackHeader) (body : Option Body)
  | block (stream : Nat) (rest : Bytes) (body : Option Body)
  | piece (stream : Nat) (chunk : Chunk) (n : Nat) (last : Bool) (rest : List Chunk)
  | bodyEnd (stream : Nat)

/-- The pieces of the session's functions between two points where the coroutine may
be suspended. The rest of a function stands behind the action that it waits in. -/
inductive Action
  | locked (w : Writing)
  | write (w : Writing)
  | flush (w : Writing)
  | unlock
  | exchange (headers : List HpackHeader) (body : Option Body)
  | waitPeerSettings (headers : List HpackHeader) (body : Option Body)
  | createStream (headers : List HpackHeader) (body : Option Body)
  | readBody (stream : Nat) (body : Body)
  | sendChunk (stream : Nat) (chunk : Chunk) (last : Bool) (rest : List Chunk)
  | deduct (stream n : Nat)
  | releaseStream (streamId : Nat) (sendRst : Bool) (code : Nat)
  | released (stream streamId : Nat) (sendRst : Bool) (code : Nat)
  | finishStreamError (stream code : Nat)
  | failConnection (code : Nat)
  | abortConnection (code : Nat)
  | receive (f : Frame)
  | settings (entries : List (Nat × Nat))
  | settingsSeen
  | updateStream (stream : Nat)
  | endData (stream : Nat) (endStream : Bool)
  | readerEnd
  | close

def sendFrame (f : ControlFrame) : List Action := [.locked (.control f)]

/-- The session behind start. Stream objects are numbered in the order in which they
are made and streams lists those in the map, in the order of the keys. The last three
fields record what went over the connection and what the decoder was given. -/
structure Http2Session where
  encoder : HpackEncoder := {}
  decoder : HpackDecoder := {}
  object : Nat → Http2StreamState := fun _ => {}
  created : Nat := 0
  streams : List (Nat × Nat) := []
  nextStreamId : Nat := 1
  connectionSendWindow : Int := kDefaultWindow
  connectionRecvWindow : Int := kDefaultWindow
  remoteInitialWindow : Int := kDefaultWindow
  maxFrameSize : Nat := kDefaultMaxFrameSize
  maxConcurrentStreams : Nat := 2 ^ 32 - 1
  activeStreamCount : Nat := 0
  goAwayLastStreamId : Nat := 2 ^ 32 - 1
  valid : Bool := true
  goingAway : Bool := false
  peerSettingsSeen : Bool := false
  headerBlockBuffer : Bytes := []
  headerBlockStream : Nat := 0
  headerBlockFlags : UInt8 := 0
  connected : Bool := true
  wire : List Sent := []
  received : List Frame := []
  decodes : List (Bytes × List HpackHeader × Bool) := []

/-- Puts an entry into a map that is listed in the order of its keys. -/
def insertStream (streamId stream : Nat) : List (Nat × Nat) → List (Nat × Nat)
  | [] => [(streamId, stream)]
  | (key, value) :: rest =>
    if streamId < key then (streamId, stream) :: (key, value) :: rest
    else if streamId = key then (streamId, stream) :: rest
    else (key, value) :: insertStream streamId stream rest

def settingsEntries : Bytes → List (Nat × Nat)
  | a :: b :: c :: d :: e :: f :: rest =>
    ((readWord16 [a, b]).toNat, (readWord32 [c, d, e, f]).toNat) :: settingsEntries rest
  | _ => []

/-- The part of a HEADERS frame that belongs to the header block. -/
def headerPayload (f : Frame) : Option Bytes :=
  let unpadded :=
    if f.has flagPadded then
      match f.payload with
      | [] => none
      | pad :: rest => if 1 + pad.toNat > f.payload.length then none else some (rest.take (rest.length - pad.toNat))
    else some f.payload
  unpadded.bind fun payload =>
    if f.has flagPriority then if payload.length < 5 then none else some (payload.drop 5) else some payload

namespace Http2Session

def find (s : Http2Session) (streamId : Nat) : Option Nat := s.streams.lookup streamId

def modify (s : Http2Session) (stream : Nat) (change : Http2StreamState → Http2StreamState) : Http2Session :=
  { s with object := Function.update s.object stream (change (s.object stream)) }

def erase (s : Http2Session) (streamId : Nat) : Http2Session :=
  { s with streams := s.streams.filter (·.1 ≠ streamId) }

def unreserveStream (s : Http2Session) (stream : Nat) : Http2Session :=
  if (s.object stream).reserved then
    { s.modify stream ({ · with reserved := false }) with activeStreamCount := s.activeStreamCount - 1 }
  else s

def finishStreamError (s : Http2Session) (stream code : Nat) : Http2Session :=
  ((s.modify stream ({ · with reset := true, errorCode := code })).unreserveStream stream).erase (s.object stream).id

def finishStreamsWhere (s : Http2Session) (code : Nat) (doomed : Nat → Bool) : Http2Session :=
  (s.streams.filter fun entry => doomed entry.1).foldl (fun s entry => s.finishStreamError entry.2 code) s

/-- The end of releaseStream, behind the frame that resets the stream. -/
def released (s : Http2Session) (stream streamId : Nat) (sendRst : Bool) (code : Nat) : Http2Session :=
  ((s.modify stream fun o => { o with reset := o.reset || sendRst, errorCode := code }).unreserveStream stream).erase
    streamId

/-- The loop of applyInitialWindowSize, which stops at a stream whose window would
leave its range. -/
def shiftWindows (s : Http2Session) (delta : Int) : List (Nat × Nat) → Http2Session × Bool
  | [] => (s, true)
  | (_, stream) :: rest =>
    let next := (s.object stream).sendWindow + delta
    if next > 0x7fffffff ∨ next < 0 then (s, false)
    else (s.modify stream ({ · with sendWindow := next })).shiftWindows delta rest

def applyInitialWindowSize (s : Http2Session) (newSize : Nat) : Http2Session × Bool :=
  if newSize > 0x7fffffff then (s, false)
  else
    let delta := (newSize : Int) - s.remoteInitialWindow
    { s with remoteInitialWindow := newSize }.shiftWindows delta s.streams

def applySetting (s : Http2Session) (id value : Nat) (rest : List (Nat × Nat)) : Http2Session × List Action :=
  if id = settingsInitialWindowSize then
    let (s, ok) := s.applyInitialWindowSize value
    (s, if ok then [.settings rest] else [.failConnection errorFlowControlError, .settings rest])
  else if id = settingsMaxFrameSize then
    if value < 16384 ∨ value > 16777215 then (s, [.failConnection errorProtocolError])
    else ({ s with maxFrameSize := value }, [.settings rest])
  else if id = settingsHeaderTableSize then
    ({ s with
        encoder := s.encoder.setMaxDynamicTableSize value
        decoder := s.decoder.setMaxDynamicTableSize value }, [.settings rest])
  else if id = settingsMaxConcurrentStreams then ({ s with maxConcurrentStreams := value }, [.settings rest])
  else (s, [.settings rest])

def handleSettings (s : Http2Session) (f : Frame) : Http2Session × List Action :=
  if f.has flagAck then (s, if f.payload = [] then [] else [.failConnection errorFrameSizeError])
  else if f.payload.length % 6 ≠ 0 then (s, [.failConnection errorFrameSizeError])
  else (s, [.settings (settingsEntries f.payload)])

def handleWindowUpdate (s : Http2Session) (f : Frame) : Http2Session × List Action :=
  if f.payload.length ≠ 4 then (s, [.failConnection errorFrameSizeError])
  else
    let increment := readUint32 f.payload % 2 ^ 31
    if increment = 0 then
      if f.streamId = 0 then (s, [.failConnection errorProtocolError])
      else
        match s.find f.streamId with
        | none => (s, [])
        | some stream =>
          (s, sendFrame (.rstStream f.streamId errorProtocolError) ++ [.finishStreamError stream errorProtocolError])
    else if f.streamId = 0 then
      let next := s.connectionSendWindow + increment
      if next > 0x7fffffff then (s, [.failConnection errorFlowControlError])
      else ({ s with connectionSendWindow := next }, [])
    else
      match s.find f.streamId with
      | none => (s, [])
      | some stream =>
        let next := (s.object stream).sendWindow + increment
        if next > 0x7fffffff then (s, [.failConnection errorFlowControlError])
        else (s.modify stream ({ · with sendWindow := next }), [])

def handlePing (s : Http2Session) (f : Frame) : Http2Session × List Action :=
  if f.payload.length ≠ 8 then (s, [.failConnection errorFrameSizeError])
  else (s, if f.has flagAck then [] else sendFrame (.ping f.payload))

def handleGoAway (s : Http2Session) (f : Frame) : Http2Session × List Action :=
  let s := { s with goingAway := true }
  if f.payload.length ≥ 8 then
    let last := readUint32 f.payload % 2 ^ 31
    let code := readUint32 (f.payload.drop 4)
    ({ s with goAwayLastStreamId := last }.finishStreamsWhere code (· > last), [])
  else ({ s with valid := false }.finishStreamsWhere errorCancel fun _ => true, [])

def handleRstStream (s : Http2Session) (f : Frame) : Http2Session × List Action :=
  if f.payload.length ≠ 4 then (s, [.failConnection errorFrameSizeError])
  else
    match s.find f.streamId with
    | none => (s, [])
    | some stream => (s.finishStreamError stream (readUint32 f.payload), [])

/-- A pushed stream is refused and its header block not looked at. -/
def handlePushPromise (s : Http2Session) (f : Frame) : Http2Session × List Action :=
  let offset := if f.has flagPadded then 1 else 0
  if f.payload.length < 4 then (s, [])
  else if f.payload.length < offset + 4 then (s, [.failConnection errorProtocolError])
  else
    let promised := readUint32 (f.payload.drop offset) % 2 ^ 31
    (s, if promised ≠ 0 then sendFrame (.rstStream promised errorRefusedStream) else [])

def headersComplete (s : Http2Session) (streamId : Nat) (block : Bytes) (flags : UInt8) :
    Http2Session × List Action :=
  let s := { s with headerBlockStream := 0, headerBlockBuffer := [] }
  match s.find streamId with
  | none => (s, [])
  | some stream =>
    if (s.object stream).endStream then
      (s, sendFrame (.rstStream (s.object stream).id errorStreamClosed) ++
        [.finishStreamError stream errorStreamClosed])
    else
      let (decoder, decoded, ok) := s.decoder.decode block
      let s := { s with decoder, decodes := s.decodes ++ [(block, decoded, ok)] }
      if ¬ ok then (s, [.failConnection errorCompressionError])
      else
        let s := s.modify stream fun o =>
          if ¬ o.endHeaders then { o with responseHeaders := decoded, endHeaders := true }
          else { o with trailers := o.trailers ++ decoded }
        if flags &&& flagEndStream ≠ 0 then
          ((s.modify stream ({ · with endStream := true })).unreserveStream stream, [])
        else (s, [])

def handleHeaders (s : Http2Session) (f : Frame) : Http2Session × List Action :=
  if f.streamId = 0 ∨ s.headerBlockStream ≠ 0 then (s, [.failConnection errorProtocolError])
  else
    match headerPayload f with
    | none => (s, [.failConnection errorProtocolError])
    | some payload =>
      let s := { s with headerBlockStream := f.streamId, headerBlockFlags := f.flags, headerBlockBuffer := payload }
      if f.has flagEndHeaders then s.headersComplete f.streamId payload f.flags else (s, [])

def handleContinuation (s : Http2Session) (f : Frame) : Http2Session × List Action :=
  if f.streamId = 0 ∨ f.streamId ≠ s.headerBlockStream then (s, [.failConnection errorProtocolError])
  else
    let block := s.headerBlockBuffer ++ f.payload
    let flags := (s.headerBlockFlags &&& ~~~ flagEndHeaders) ||| (f.flags &&& flagEndHeaders)
    let flags := if f.has flagEndStream then flags ||| flagEndStream else flags
    let s := { s with headerBlockBuffer := block, headerBlockFlags := flags }
    if flags &&& flagEndHeaders ≠ 0 then s.headersComplete f.streamId block flags else (s, [])

/-- Charges the connection's window for a DATA frame and refills it where refill says
so. -/
def chargeConnection (s : Http2Session) (length : Nat) (refill : Bool) : Http2Session × List Action :=
  let left := s.connectionRecvWindow - length
  if left < 0 then ({ s with connectionRecvWindow := left }, [.failConnection errorFlowControlError])
  else if refill ∧ left < kDefaultWindow / 2 then
    ({ s with connectionRecvWindow := kDefaultWindow }, sendFrame (.windowUpdate 0 (kDefaultWindow - left).toNat))
  else ({ s with connectionRecvWindow := left }, [])

/-- consumeRecvWindow up to the window of the connection; updateStream is the rest. -/
def consumeRecvWindow (s : Http2Session) (stream length : Nat) : Http2Session × List Action :=
  let s := s.modify stream fun o => { o with recvWindow := o.recvWindow - length }
  if (s.object stream).recvWindow < 0 then
    ({ s with connectionRecvWindow := s.connectionRecvWindow - length }, [.failConnection errorFlowControlError])
  else
    let left := s.connectionRecvWindow - length
    let (s, actions) := s.chargeConnection length true
    (s, if left < 0 then actions else actions ++ [.updateStream stream])

def updateStream (s : Http2Session) (stream : Nat) : Http2Session × List Action :=
  let o := s.object stream
  if o.recvWindow < kDefaultWindow / 2 then
    (s.modify stream ({ · with recvWindow := kDefaultWindow }),
      sendFrame (.windowUpdate o.id (kDefaultWindow - o.recvWindow).toNat))
  else (s, [])

def dataPayload (f : Frame) : Option Bytes :=
  if f.has flagPadded then
    match f.payload with
    | [] => none
    | pad :: rest => if 1 + pad.toNat > f.payload.length then none else some (rest.take (rest.length - pad.toNat))
  else some f.payload

def handleData (s : Http2Session) (f : Frame) : Http2Session × List Action :=
  if f.streamId = 0 then (s, [.failConnection errorProtocolError])
  else
    match s.find f.streamId with
    | none => s.chargeConnection f.payload.length true
    | some stream =>
      if (s.object stream).endStream then
        let (s, actions) := s.chargeConnection f.payload.length false
        (s, if actions = [] then
            sendFrame (.rstStream f.streamId errorStreamClosed) ++ [.finishStreamError stream errorStreamClosed]
          else actions)
      else
        match dataPayload f with
        | none => (s, [.failConnection errorProtocolError])
        | some data =>
          let s := s.modify stream fun o => { o with body := o.body ++ data }
          let (s, actions) := s.consumeRecvWindow stream f.payload.length
          (s, actions ++ [.endData stream (f.has flagEndStream)])

def handleFrame (s : Http2Session) (f : Frame) : Http2Session × List Action :=
  match f.type with
  | .settings => s.handleSettings f
  | .windowUpdate => s.handleWindowUpdate f
  | .ping => s.handlePing f
  | .goAway => s.handleGoAway f
  | .rstStream => s.handleRstStream f
  | .pushPromise => s.handlePushPromise f
  | .headers => s.handleHeaders f
  | .continuation => s.handleContinuation f
  | .data => s.handleData f
  | .priority | .other => (s, [])

def giveUp (s : Http2Session) (stream : Nat) : List Action :=
  [.releaseStream (s.object stream).id true errorCancel]

/-- createStream behind its wait for a free slot. -/
def createStream (s : Http2Session) (headers : List HpackHeader) (body : Option Body) : Http2Session × List Action :=
  if ¬ s.valid ∨ s.goingAway ∨ s.nextStreamId > s.goAwayLastStreamId then (s, [])
  else
    let stream := { id := s.nextStreamId, sendWindow := s.remoteInitialWindow, reserved := true : Http2StreamState }
    ({ s with
        object := Function.update s.object s.created stream
        created := s.created + 1
        nextStreamId := (s.nextStreamId + 2) % 2 ^ 32
        activeStreamCount := s.activeStreamCount + 1
        streams := insertStream s.nextStreamId s.created s.streams },
      [.locked (.headers s.created headers body)])

def unsent (s : Http2Session) : Writing → List Action
  | .control _ => []
  | .headers stream .. | .block stream .. | .piece stream .. | .bodyEnd stream => s.giveUp stream

/-- A frame handed to the connection, where the coroutine then waits, or the answer to
a connection that takes no more or to a frame that is too large. -/
def hand (s : Http2Session) (sent : Sent) (size : Nat) (w : Writing) : Http2Session × List Action :=
  if s.maxFrameSize < size ∨ ¬ s.connected then (s, .unlock :: s.unsent w)
  else ({ s with wire := s.wire ++ [sent] }, [.flush w])

def endStreamFlag (last : Bool) : UInt8 := if last then flagEndStream else 0

/-- What is done with the write lock held, up to the switch inside sendall. -/
def write (s : Http2Session) : Writing → Http2Session × List Action
  | .control f => s.hand (.control f) f.size (.control f)
  | .headers stream headers body =>
    let (encoder, block) := s.encoder.encode headers
    let s := { s with encoder }
    let first := block.take s.maxFrameSize
    let flags := endStreamFlag body.isNone ||| if block.length ≤ s.maxFrameSize then flagEndHeaders else 0
    s.hand (.header ⟨.headers, flags, wireId (s.object stream).id, first⟩) first.length
      (.block stream (block.drop s.maxFrameSize) body)
  | .block stream rest body =>
    let chunk := rest.take s.maxFrameSize
    let flags := if rest.length ≤ s.maxFrameSize then flagEndHeaders else 0
    s.hand (.header ⟨.continuation, flags, wireId (s.object stream).id, chunk⟩) chunk.length
      (.block stream (rest.drop s.maxFrameSize) body)
  | .piece stream chunk n last rest =>
    s.hand (.data stream (endStreamFlag (last && chunk.size ≤ n)) (chunk.take n)) n (.piece stream chunk n last rest)
  | .bodyEnd stream =>
    s.hand (.data stream flagEndStream ⟨[], 0, rfl⟩) 0 (.bodyEnd stream)

/-- What follows a sendall that took everything. A header block is waited for as what
is left of it. -/
def flushed : Writing → List Action
  | .control _ | .headers .. | .bodyEnd _ | .block _ [] none => [.unlock]
  | .block stream [] (some body) => [.unlock, .readBody stream body]
  | .block stream rest body => [.write (.block stream rest body)]
  | .piece stream chunk n last rest => [.unlock, .deduct stream n, .sendChunk stream (chunk.drop n) last rest]

/-- The return of sendall. A connection that has not taken everything takes nothing any
more. -/
def flush (s : Http2Session) (ok : Bool) (w : Writing) : Http2Session × List Action :=
  if ok then (s, flushed w) else ({ s with connected := false }, .unlock :: s.unsent w)

def readBody (s : Http2Session) (stream : Nat) : Body → List Action
  | .whole none => s.giveUp stream
  | .whole (some data) => [.sendChunk stream data true []]
  | .streamed [] => [.locked (.bodyEnd stream)]
  | .streamed (chunk :: rest) =>
    if chunk.size = 0 then [.locked (.bodyEnd stream)] else [.sendChunk stream chunk false rest]

/-- A round of sendChunk up to its frame, with waitSendWindow. It has to wait without a
window, and gives up where nothing will change that or the wait fails. -/
def sendChunk (s : Http2Session) (stream : Nat) (chunk : Chunk) (last : Bool) (rest : List Chunk) (ok : Bool) :
    Option (List Action) :=
  let o := s.object stream
  let allowed := min o.sendWindow s.connectionSendWindow
  if chunk.size = 0 then some (if last then [] else [.readBody stream (.streamed rest)])
  else if allowed ≤ 0 then
    if ¬ s.valid ∨ o.reset ∨ s.goingAway ∨ ¬ ok then some (s.giveUp stream) else none
  else some [.locked (.piece stream chunk (min (min s.maxFrameSize chunk.size) allowed.toNat) last rest)]

def failConnection (s : Http2Session) (code : Nat) : Http2Session × List Action :=
  if ¬ s.valid ∧ s.goingAway then (s, [])
  else ({ s with goingAway := true, valid := false }, sendFrame (.goAway 0 code) ++ [.abortConnection code])

/-- An action of the running coroutine and what it goes on with; nothing if it has to
wait. The flag tells whether a wait or a sendall that ends here has been successful. -/
def perform (s : Http2Session) (a : Action) (ok : Bool) : Option (Http2Session × List Action) :=
  match a with
  | .locked w => some (s, [.write w])
  | .unlock => some (s, [])
  | .write w => some (s.write w)
  | .flush w => some (s.flush ok w)
  | .exchange headers body => some (s, if s.valid then [.waitPeerSettings headers body] else [])
  | .waitPeerSettings headers body =>
    if s.peerSettingsSeen then some (s, if s.valid then [.createStream headers body] else [])
    else if ok then none
    else some (s, [])
  | .createStream headers body =>
    if s.activeStreamCount ≥ s.maxConcurrentStreams then
      if ¬ s.valid ∨ s.goingAway ∨ ¬ ok then some (s, []) else none
    else some (s.createStream headers body)
  | .readBody stream body => some (s, s.readBody stream body)
  | .sendChunk stream chunk last rest => (s.sendChunk stream chunk last rest ok).map fun actions => (s, actions)
  | .deduct stream n =>
    some ({ s.modify stream fun o => { o with sendWindow := o.sendWindow - n } with
      connectionSendWindow := s.connectionSendWindow - n }, [])
  | .releaseStream streamId sendRst code =>
    match s.find streamId with
    | none => some (s, [])
    | some stream =>
      let rst := sendRst ∧ (s.object stream).reset = false ∧ (s.object stream).endStream = false
      some (s, (if rst then sendFrame (.rstStream streamId code) else []) ++ [.released stream streamId sendRst code])
  | .released stream streamId sendRst code => some (s.released stream streamId sendRst code, [])
  | .finishStreamError stream code => some (s.finishStreamError stream code, [])
  | .failConnection code => some (s.failConnection code)
  | .abortConnection code => some ({ s.finishStreamsWhere code fun _ => true with connected := false }, [])
  | .receive f =>
    if f.payload.length > s.maxFrameSize then some (s, [.failConnection errorFrameSizeError, .readerEnd])
    else some ({ s with received := s.received ++ [f] }.handleFrame f)
  | .settings [] => some (s, [.settingsSeen])
  | .settings ((id, value) :: rest) => some (s.applySetting id value rest)
  | .settingsSeen => some ({ s with peerSettingsSeen := true }, sendFrame .settingsAck)
  | .updateStream stream => some (s.updateStream stream)
  | .endData stream endStream =>
    some (if endStream then (s.modify stream ({ · with endStream := true })).unreserveStream stream else s, [])
  | .readerEnd => some ({ s with valid := false }.finishStreamsWhere errorCancel fun _ => true, [])
  | .close =>
    some ({ s with goingAway := true, valid := false },
      (if s.connected then sendFrame (.goAway (s.nextStreamId - 1) errorNoError) else []) ++
        [.abortConnection errorCancel])

end Http2Session

end Qtng.Http2
