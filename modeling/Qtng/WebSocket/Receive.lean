import Qtng.WebSocket.Frame
import Qtng.General.Run

namespace Qtng

open BigEndian

namespace Utf8

def followers : Nat → Nat → Bytes → Option (Nat × Bytes)
  | 0, cp, rest => some (cp, rest)
  | extra + 1, cp, cc :: rest =>
    if cc &&& 0xc0 ≠ 0x80 then none else followers extra ((cp <<< 6) ||| (cc &&& 0x3f).toNat) rest
  | _ + 1, _, [] => none

/-- What the first byte of a code point contributes, and how many bytes follow. -/
def leader (c : UInt8) : Option (Nat × Nat) :=
  if c ≤ 0x7f then some (c.toNat, 0)
  else if c &&& 0xe0 = 0xc0 then some ((c &&& 0x1f).toNat, 1)
  else if c &&& 0xf0 = 0xe0 then some ((c &&& 0x0f).toNat, 2)
  else if c &&& 0xf8 = 0xf0 then some ((c &&& 0x07).toNat, 3)
  else none

def admissible (extra cp : Nat) : Bool :=
  ¬ (cp > 0x10ffff ∨ 0xd800 ≤ cp ∧ cp ≤ 0xdfff ∨ extra = 1 ∧ cp < 0x80 ∨ extra = 2 ∧ cp < 0x800 ∨
    extra = 3 ∧ cp < 0x10000)

/-- The loop of utf8ToCodepoints; each round takes at least one byte. -/
def validLoop : Nat → Bytes → Bool
  | _, [] => true
  | 0, _ :: _ => false
  | rounds + 1, c :: rest =>
    match leader c with
    | none => false
    | some (start, extra) =>
      match followers extra start rest with
      | none => false
      | some (cp, rest) => admissible extra cp && validLoop rounds rest

def isValidUtf8 (text : Bytes) : Bool := validLoop text.length text

end Utf8

namespace WebSocket

open Utf8 Transition

inductive State
  | «open»
  | closing
  | closed
deriving DecidableEq

def goingAway : Nat := 1001
def protocolError : Nat := 1002
def noStatusRcvd : Nat := 1005
def abnormalClosure : Nat := 1006
def invalidData : Nat := 1007
def messageTooBig : Nat := 1009

structure PacketToRead where
  type : MessageType
  payload : Bytes
deriving DecidableEq

def isOpCodeReserved (code : UInt8) : Bool := code > binaryFrame ∧ code < closeFrame ∨ code > pongFrame

def isCloseCodeValid (closeCode : Nat) : Bool :=
  (1000 ≤ closeCode ∧ closeCode ≤ 1014 ∧ closeCode ≠ 1004 ∧ closeCode ≠ 1005 ∧ closeCode ≠ 1006) ∨
    (3000 ≤ closeCode ∧ closeCode ≤ 4999)

def parseClosePayload (payload : Bytes) : Option Nat :=
  match payload with
  | [] => some noStatusRcvd
  | [_] => none
  | a :: b :: closeReason =>
    let closeCode := (readWord16 [a, b]).toNat
    if isCloseCodeValid closeCode ∧ (closeReason = [] ∨ isValidUtf8 closeReason) then some closeCode else none

def makeClosePayload (closeCode : Nat) (closeReason : Bytes) : Bytes :=
  if closeCode > 1024 * 64 then [] else (word16 (UInt16.ofNat closeCode) ++ closeReason).take 125

def ascii (text : String) : Bytes := text.toList.map fun c => UInt8.ofNat c.toNat

inductive Verdict
  | recv
  | go
  | put (packet : PacketToRead)
  | send (opcode : UInt8) (payload : Bytes)
  | sendAndAbort (payload : Bytes) (code : Nat) (closes : Bool)
  | abort (code : Nat)
deriving DecidableEq

/-- Where doReceive is: before a header, or behind it with the payload so far in the
frame. -/
inductive Phase
  | header
  | payload (frame : WebSocketFrame) (payloadSize : Nat) (frameMasked : Bool)
deriving DecidableEq

/-- The variables of doReceive: buf up to usedSize, the frame and the message in
progress. -/
structure Receiver where
  buf : Bytes := []
  phase : Phase := .header
  tmpType : Option MessageType := none
  tmpPayload : Bytes := []
deriving DecidableEq

/-- What doReceive reads of a configuration; setMaxPayloadSize accepts no other limits. -/
structure Config where
  side : Side
  maxPayloadSize : Nat
  least : 1024 ≤ maxPayloadSize
  most : maxPayloadSize < 2 ^ 31

/-- The checks of a header, before its payload is received. -/
def checkHeader (config : Config) (f : WebSocketFrame) (payloadSize : Nat) (frameMasked : Bool) : Option Verdict :=
  if payloadSize > config.maxPayloadSize then
    some (.sendAndAbort (makeClosePayload messageTooBig (ascii "the frame is too big to process.")) messageTooBig false)
  else if frameMasked ≠ decide (config.side = .server) then some (.abort protocolError)
  else if f.rsv1 ∨ f.rsv2 ∨ f.rsv3 then some (.abort protocolError)
  else if isOpCodeReserved f.opcode then some (.abort protocolError)
  else if (f.opcode = closeFrame ∨ f.opcode = pingFrame ∨ f.opcode = pongFrame) ∧
      (¬ f.fin ∨ payloadSize > 125 ∨ f.opcode = closeFrame ∧ payloadSize = 1) then some (.abort protocolError)
  else none

namespace Receiver

def more (r : Receiver) (chunk : Bytes) : Receiver := { r with buf := r.buf ++ chunk }

def startMessage (r : Receiver) (type : MessageType) (f : WebSocketFrame) : Receiver × Verdict :=
  if f.fin then
    if type = .text ∧ ¬ isValidUtf8 f.payload then (r, .abort invalidData) else (r, .put ⟨type, f.payload⟩)
  else if r.tmpType ≠ none ∨ r.tmpPayload ≠ [] then (r, .abort protocolError)
  else ({ r with tmpType := some type, tmpPayload := f.payload }, .go)

def continueMessage (r : Receiver) (f : WebSocketFrame) : Receiver × Verdict :=
  match r.tmpType with
  | none => (r, .abort protocolError)
  | some type =>
    let r := { r with tmpPayload := r.tmpPayload ++ f.payload }
    if f.fin then
      if type = .text ∧ ¬ isValidUtf8 r.tmpPayload then (r, .abort invalidData)
      else ({ r with tmpPayload := [], tmpType := none }, .put ⟨type, r.tmpPayload⟩)
    else (r, .go)

/-- A close frame, which is answered where the connection is still open. -/
def closeReceived (r : Receiver) (state : State) (f : WebSocketFrame) : Receiver × Verdict :=
  let code := (parseClosePayload f.payload).getD protocolError
  match state with
  | .open =>
    let payload :=
      if (parseClosePayload f.payload).isSome then f.payload
      else makeClosePayload protocolError (ascii "protocol error")
    (r, .sendAndAbort payload code true)
  | .closing => (r, .abort code)
  | .closed => (r, .go)

def handleFrame (r : Receiver) (state : State) (f : WebSocketFrame) : Receiver × Verdict :=
  if f.opcode = continuationFrame then r.continueMessage f
  else if f.opcode = textFrame then r.startMessage .text f
  else if f.opcode = binaryFrame then r.startMessage .binary f
  else if f.opcode = closeFrame then r.closeReceived state f
  else if f.opcode = pingFrame then (r, .send pongFrame f.payload)
  else if f.opcode = pongFrame then (r, .go)
  else (r, .abort protocolError)

/-- Takes as much of a payload as there is; the frame if it is complete then. -/
def takePayload (r : Receiver) (f : WebSocketFrame) (payloadSize : Nat) (frameMasked : Bool) :
    Receiver × Option WebSocketFrame :=
  let size := min (payloadSize - f.payload.length) r.buf.length
  let f := { f with payload := f.payload ++ r.buf.take size }
  let r := { r with buf := r.buf.drop size }
  if f.payload.length < payloadSize then ({ r with phase := .payload f payloadSize frameMasked }, none)
  else
    ({ r with phase := .header },
      some (if frameMasked then { f with payload := f.applyMaskTo f.payload 0 (toInt payloadSize) } else f))

def round (config : Config) (r : Receiver) (state : State) : Receiver × Verdict :=
  match r.phase with
  | .header =>
    match feedHeader r.buf with
    | .incomplete => (r, .recv)
    | .violation => (r, .abort protocolError)
    | .header f payloadSize frameMasked rest =>
      match checkHeader config f payloadSize frameMasked with
      | some verdict => ({ r with buf := rest }, verdict)
      | none => ({ r with buf := rest, phase := .payload f payloadSize frameMasked }, .go)
  | .payload f payloadSize frameMasked =>
    match r.takePayload f payloadSize frameMasked with
    | (r, none) => (r, .recv)
    | (r, some f) => r.handleFrame state f

inductive Rounded (config : Config) (r : Receiver) (state : State) : Receiver × Verdict → Prop
  | starved : r.phase = .header → feedHeader r.buf = .incomplete → Rounded config r state (r, .recv)
  | violated : r.phase = .header → feedHeader r.buf = .violation → Rounded config r state (r, .abort protocolError)
  | refused {f payloadSize frameMasked rest verdict} : r.phase = .header →
      feedHeader r.buf = .header f payloadSize frameMasked rest →
      checkHeader config f payloadSize frameMasked = some verdict →
      Rounded config r state ({ r with buf := rest }, verdict)
  | accepted {f payloadSize frameMasked rest} : r.phase = .header →
      feedHeader r.buf = .header f payloadSize frameMasked rest → checkHeader config f payloadSize frameMasked = none →
      Rounded config r state ({ r with buf := rest, phase := .payload f payloadSize frameMasked }, .go)
  | partly {f payloadSize frameMasked} : r.phase = .payload f payloadSize frameMasked →
      (r.takePayload f payloadSize frameMasked).2 = none →
      Rounded config r state ((r.takePayload f payloadSize frameMasked).1, .recv)
  | complete {f payloadSize frameMasked g} : r.phase = .payload f payloadSize frameMasked →
      (r.takePayload f payloadSize frameMasked).2 = some g →
      Rounded config r state ((r.takePayload f payloadSize frameMasked).1.handleFrame state g)

theorem round_cases (config : Config) (r : Receiver) (state : State) :
    Rounded config r state (r.round config state) := by
  obtain ⟨buf, phase, tmpType, tmpPayload⟩ := r
  unfold round
  cases phase with
  | header =>
    dsimp only
    cases fed : feedHeader buf with
    | incomplete => exact .starved rfl fed
    | violation => exact .violated rfl fed
    | header f payloadSize frameMasked rest =>
      dsimp only
      cases checked : checkHeader config f payloadSize frameMasked with
      | some verdict => exact .refused rfl fed checked
      | none => exact .accepted rfl fed checked
  | payload f payloadSize frameMasked =>
    dsimp only
    cases taken : takePayload _ f payloadSize frameMasked with
    | mk r g =>
      have first := congrArg Prod.fst taken
      have second := congrArg Prod.snd taken
      dsimp only at first second
      subst first
      cases g with
      | none => exact .partly rfl second
      | some g => exact .complete rfl second

@[simp] theorem takePayload_tmpType (r : Receiver) (f : WebSocketFrame) (payloadSize : Nat) (frameMasked : Bool) :
    (r.takePayload f payloadSize frameMasked).1.tmpType = r.tmpType := by
  unfold takePayload
  dsimp only
  split <;> rfl

@[simp] theorem takePayload_tmpPayload (r : Receiver) (f : WebSocketFrame) (payloadSize : Nat) (frameMasked : Bool) :
    (r.takePayload f payloadSize frameMasked).1.tmpPayload = r.tmpPayload := by
  unfold takePayload
  dsimp only
  split <;> rfl

end Receiver

/-- A run of doReceive with the frames that were complete and the messages that were put
into the queue. -/
structure Reception where
  receiver : Receiver := {}
  ended : Bool := false
  frames : List WebSocketFrame := []
  delivered : List PacketToRead := []
deriving DecidableEq

namespace Reception

def completed (w : Reception) : Option WebSocketFrame :=
  match w.receiver.phase with
  | .header => none
  | .payload f payloadSize frameMasked => (w.receiver.takePayload f payloadSize frameMasked).2

def arrive (w : Reception) (chunk : Bytes) : Reception := { w with receiver := w.receiver.more chunk }

/-- What follows from a round; ok tells whether its frame is sent, if there is one to
send. -/
def react (w : Reception) (ok : Bool) : Verdict → Reception
  | .recv | .go => w
  | .put packet => { w with delivered := w.delivered ++ [packet] }
  | .send .. => { w with ended := !ok }
  | .sendAndAbort .. | .abort _ => { w with ended := true }

/-- A round of doReceive with the state of the connection that it finds. -/
def advance (config : Config) (w : Reception) (state : State) (ok : Bool) : Reception :=
  if w.ended then w
  else
    let result := w.receiver.round config state
    { w with receiver := result.1, frames := w.frames ++ w.completed.toList }.react ok result.2

end Reception

inductive ReceptionEvent
  | arrive (chunk : Bytes)
  | round (state : State) (ok : Bool)

def Reception.step (config : Config) (w : Reception) : ReceptionEvent → Option Reception
  | .arrive chunk => some (w.arrive chunk)
  | .round state ok => some (w.advance config state ok)

/-- A connection that receives whatever the peer sends, in whatever pieces. -/
def receptionSystem (config : Config) : System Reception ReceptionEvent :=
  .ofStep (fun w => w = {}) fun w e => w.step config e

end WebSocket

end Qtng
