import Qtng.Locks.QueueMoves
import Qtng.WebSocket.Exchange

namespace Qtng.WebSocket

open Transition QueueRecord Function

inductive ReceivePoint
  | reading
  | putting (packet : PacketToRead)
  | ponging
  | replying (code : Nat)
  | aborting
  | ended
deriving DecidableEq

/-- The receiving half of a connection: the frames that the transport still has, what
doReceive keeps, the receiving queue with the coroutines in recv, and what recv has
returned; nothing stands for an empty result that is not a message. In the queue, the
coroutine of doReceive is 0, whoever aborts is 1, and nothing is the packet of an unknown
type. -/
structure Inbox where
  incoming : List WebSocketFrame
  receiver : Receiver := {}
  point : ReceivePoint := .reading
  killed : Bool := false
  queue : QueueWorld (Option PacketToRead)
  results : List (Option PacketToRead) := []

/-- A packet in the sending queue, with the event that its sender waits for. -/
structure Outgoing where
  packet : PacketToWrite
  done : Option Nat
deriving DecidableEq

/-- Where doSend is suspended; while it writes, with the number of frames left. -/
inductive SendPoint
  | getting
  | writing (item : Outgoing) (left : Nat)
  | aborting (item : Outgoing)
  | ended
deriving DecidableEq

inductive Sender
  | putting (item : Outgoing)
  | waiting (done : Nat)
deriving DecidableEq

/-- The sending half of a connection: the sending queue, doSend, whose coroutine is 0 in
the queue, the coroutines in putPacket, which have the next number there, their events,
what they were told, and the events of the messages that were written. -/
structure Outbox where
  queue : QueueWorld Outgoing
  point : SendPoint := .getting
  killed : Bool := false
  senders : Nat → Option Sender := fun _ => none
  dones : Nat → ValueEvent := fun _ => {}
  nextDone : Nat := 0
  told : List (Nat × Bool) := []
  written : List Nat := []

inductive Caller
  | receive
  | send
  | other
deriving DecidableEq

structure Connection where
  state : State := .open
  errorCode : Option Nat := none
  aborting : Option Caller := none
  aborted : Bool := false
  inbox : Inbox
  outbox : Outbox

namespace Inbox

/-- The queue after a call of its, with what get has returned. -/
def withQueue (w : Inbox) (queue : QueueWorld (Option PacketToRead)) : Inbox :=
  { w with queue, results := w.results ++ gets (queue.log.drop w.queue.log.length) }

/-- What doReceive does once it has called put. -/
def afterPut (w : Inbox) (packet : PacketToRead) (queue : QueueWorld (Option PacketToRead)) : Inbox :=
  { w.withQueue queue with point := if (queue.calls 0).isSome then .putting packet else .reading }

/-- The loop at the end of abort; the packet that it puts sets notEmpty, so that nobody is
registered there any more when the loop looks again. -/
def release (w : Inbox) : Inbox :=
  if w.queue.q.notEmpty.waiting.length > 0 then
    ((w.queue.step unitSize (.put 1 none forever)).map w.withQueue).getD w
  else w

/-- The coroutine of doReceive is killed by abort, unless it is the one that aborts. -/
def killReceive (w : Inbox) (caller : Caller) : Inbox :=
  if caller = .receive then { w with point := .ended } else { w with killed := true }

end Inbox

namespace Outbox

/-- The event of a packet is sent a value, if the packet has one. -/
def answer (w : Outbox) (done : Option Nat) (value : Bool) : Outbox :=
  match done with
  | none => w
  | some d => { w with dones := update w.dones d ((w.dones d).send value) }

/-- The loop in abort that empties the queue; get does not block while there are packets. -/
def drain (w : Outbox) : List Outgoing → Outbox
  | [] => w
  | item :: rest =>
    drain
      (answer { w with queue := { w.queue with q := w.queue.q.pop unitSize item rest }.record (.taken item) } item.done
      false) rest

/-- putPacket behind the call of put. -/
def afterPut (w : Outbox) (coroutine : Nat) (item : Outgoing) : Outbox :=
  match item.done with
  | none => { w with senders := update w.senders coroutine none }
  | some d =>
    if (w.dones d).event.flag then
      { w with senders := update w.senders coroutine none, told := w.told ++ [(d, (w.dones d).value)] }
    else
      { w with
        senders := update w.senders coroutine (some (.waiting d))
        dones := update w.dones d { w.dones d with event := (w.dones d).event.register coroutine } }

def put (w : Outbox) (coroutine : Nat) (item : Outgoing) (queue : QueueWorld Outgoing) : Outbox :=
  if (queue.calls (coroutine + 1)).isSome then
    { w with queue, senders := update w.senders coroutine (some (.putting item)) }
  else afterPut { w with queue } coroutine item

/-- A coroutine comes back from the wait for its event. -/
def awake (w : Outbox) (coroutine d : Nat) : Outbox :=
  { w with
    senders := update w.senders coroutine none
    dones := update w.dones d { w.dones d with event := (w.dones d).event.leave coroutine }
    told := w.told ++ [(d, (w.dones d).value)] }

/-- doSend returns, and the packet it has is answered on the way. -/
def quit (w : Outbox) (item : Outgoing) : Outbox := { w.answer item.done false with point := .ended }

def next (w : Outbox) (errorCode : Option Nat) (item : Outgoing) (left : Nat) : Outbox :=
  if errorCode ≠ none then w.quit item else { w with point := .writing item left }

def fetched (w : Outbox) (errorCode : Option Nat) (blockSize : Nat) (queue : QueueWorld Outgoing) : Outbox :=
  match queue.calls 0, w.queue.q.queue with
  | none, item :: _ => next { w with queue } errorCode item (frameCount item.packet.payload.length blockSize)
  | _, _ => { w with queue }

def finish (w : Outbox) (item : Outgoing) : Outbox :=
  { w.answer item.done true with point := .getting, written := w.written ++ item.done.toList }

/-- The coroutine of doSend is killed by abort, unless it is the one that aborts, which
returns then. -/
def killSend (w : Outbox) (caller : Caller) : Outbox :=
  if caller = .send then
    match w.point with
    | .aborting item => w.quit item
    | _ => w
  else { w with killed := true }

/-- The exception of kill is caught in the calls that doSend makes. -/
def die (w : Outbox) : Option Outbox :=
  match w.point with
  | .getting =>
    some { w with
      queue := match w.queue.calls 0 with
        | some call => w.queue.unpark 0 call
        | none => w.queue
      point := .ended }
  | .writing item _ => some (w.quit item)
  | .aborting _ | .ended => none

end Outbox

namespace Connection

/-- abort up to the call that closes the transport, where it may be suspended. -/
def beginAbort (w : Connection) (caller : Caller) (code : Nat) : Connection :=
  if w.errorCode ≠ none then w
  else { w with errorCode := some code, state := .closed, aborting := some caller }

def finishAbort (w : Connection) (caller : Caller) : Connection :=
  { w with
    aborting := none
    aborted := true
    inbox := (w.inbox.killReceive caller).release
    outbox := (w.outbox.drain w.outbox.queue.q.queue).killSend caller }

def receiveAborts (w : Connection) (code : Nat) : Connection :=
  { w.beginAbort .receive code with
    inbox := { w.inbox with point := if w.errorCode = none then .aborting else .ended } }

def handleFrame (w : Connection) (f : WebSocketFrame) (rest : List WebSocketFrame) : Option Connection :=
  let result := w.inbox.receiver.handleFrame w.state f
  let inbox := { w.inbox with incoming := rest, receiver := result.1 }
  match result.2 with
  | .recv | .go => some { w with inbox }
  | .put packet =>
    (inbox.queue.step unitSize (.put 0 (some packet) forever)).map fun queue =>
      { w with inbox := inbox.afterPut packet queue }
  | .send .. => some { w with inbox := { inbox with point := .ponging } }
  | .sendAndAbort _ code _ => some { w with state := .closing, inbox := { inbox with point := .replying code } }
  | .abort code => some (receiveAborts { w with inbox } code)

end Connection

inductive ConnectionEvent
  /-- doReceive has the bytes of the next frame. -/
  | frame
  /-- The transport has nothing more. -/
  | eof
  /-- A pong or the reply to a close frame has been written, or not. -/
  | replied (ok : Bool)
  | receiveResumes
  | receiveDies
  | recv (coroutine : Nat)
  | recvResumes (coroutine : Nat)
  | putPacket (coroutine : Nat) (packet : PacketToWrite) (waitForResult : Bool)
  | senderResumes (coroutine : Nat)
  | sendGets
  | sendResumes
  /-- A frame has been written by doSend, or not. -/
  | wrote (ok : Bool)
  | sendDies
  /-- The application calls close, up to the writing of its frame. -/
  | close
  | abort (code : Nat)
  | abortGoesOn

namespace Connection

def step (blockSize : Nat) (w : Connection) : ConnectionEvent → Option Connection
  | .frame =>
    match w.inbox.point, w.inbox.incoming with
    | .reading, f :: rest => w.handleFrame f rest
    | _, _ => none
  | .eof =>
    match w.inbox.point, w.inbox.incoming with
    | .reading, [] => some (w.receiveAborts abnormalClosure)
    | _, _ => none
  | .replied ok =>
    match w.inbox.point with
    | .ponging =>
      some (if ok then { w with inbox := { w.inbox with point := .reading } } else w.receiveAborts abnormalClosure)
    | .replying code => some (w.receiveAborts (if ok then code else abnormalClosure))
    | _ => none
  | .receiveResumes =>
    match w.inbox.point with
    | .putting packet =>
      (w.inbox.queue.step unitSize (.resume 0)).map fun queue => { w with inbox := w.inbox.afterPut packet queue }
    | _ => none
  | .receiveDies =>
    if w.inbox.killed then
      match w.inbox.point with
      | .putting _ =>
        (w.inbox.queue.step unitSize (.kill 0)).map fun queue =>
          { w with inbox := { w.inbox.withQueue queue with point := .ended } }
      | .aborting => none
      | _ => some { w with inbox := { w.inbox with point := .ended } }
    else none
  | .recv coroutine =>
    if (w.inbox.queue.calls (coroutine + 2)).isSome then none
    else if w.state ≠ .open then some { w with inbox := { w.inbox with results := w.inbox.results ++ [none] } }
    else (w.inbox.queue.step unitSize (.get (coroutine + 2))).map fun queue =>
      { w with inbox := w.inbox.withQueue queue }
  | .recvResumes coroutine =>
    (w.inbox.queue.step unitSize (.resume (coroutine + 2))).map fun queue => { w with inbox := w.inbox.withQueue queue }
  | .putPacket coroutine packet waitForResult =>
    if (w.outbox.senders coroutine).isSome then none
    else if w.state ≠ .open then some w
    else
      let item : Outgoing := ⟨packet, if waitForResult then some w.outbox.nextDone else none⟩
      (w.outbox.queue.step unitSize (.put (coroutine + 1) item forever)).map fun queue =>
        { w with outbox := Outbox.put { w.outbox with nextDone := w.outbox.nextDone + 1 } coroutine item queue }
  | .senderResumes coroutine =>
    match w.outbox.senders coroutine with
    | some (.putting item) =>
      (w.outbox.queue.step unitSize (.resume (coroutine + 1))).map fun queue =>
        { w with outbox := w.outbox.put coroutine item queue }
    | some (.waiting d) =>
      if coroutine ∈ (w.outbox.dones d).event.woken then some { w with outbox := w.outbox.awake coroutine d } else none
    | none => none
  | .sendGets =>
    match w.outbox.point with
    | .getting =>
      (w.outbox.queue.step unitSize (.get 0)).map fun queue =>
        { w with outbox := w.outbox.fetched w.errorCode blockSize queue }
    | _ => none
  | .sendResumes =>
    match w.outbox.point with
    | .getting =>
      (w.outbox.queue.step unitSize (.resume 0)).map fun queue =>
        { w with outbox := w.outbox.fetched w.errorCode blockSize queue }
    | _ => none
  | .wrote ok =>
    match w.outbox.point with
    | .writing item left =>
      some
        (if ok then
          { w with outbox := if left ≤ 1 then w.outbox.finish item else w.outbox.next w.errorCode item (left - 1) }
        else
          { w.beginAbort .send abnormalClosure with
            outbox := if w.errorCode = none then { w.outbox with point := .aborting item } else w.outbox.quit item })
    | _ => none
  | .sendDies => if w.outbox.killed then w.outbox.die.map fun outbox => { w with outbox } else none
  | .close => some (if w.state = .open then { w with state := .closing } else w)
  | .abort code => some (w.beginAbort .other code)
  | .abortGoesOn => w.aborting.map w.finishAbort

end Connection

/-- A connection before anything has happened, with the frames that the peer will send. -/
def Connection.new (receivingQueueCapacity sendingQueueCapacity : UInt32) (incoming : List WebSocketFrame) :
    Connection where
  inbox := { incoming, queue := { q := .new receivingQueueCapacity } }
  outbox := { queue := { q := .new sendingQueueCapacity } }

/-- A connection with whatever its coroutines do and in whatever order. -/
def connectionSystem (blockSize : Nat) (incoming : List WebSocketFrame) : System Connection ConnectionEvent :=
  .ofStep (fun w => ∃ receivingQueueCapacity sendingQueueCapacity,
    w = .new receivingQueueCapacity sendingQueueCapacity incoming) (Connection.step blockSize)

end Qtng.WebSocket
