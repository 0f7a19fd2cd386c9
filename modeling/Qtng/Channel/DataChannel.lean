import Qtng.General.BigEndian
import Qtng.Locks.Queue

namespace Qtng

open BigEndian Transition Function List Option

def commandChannelNumber : UInt32 := 0

def dataChannelNumber : UInt32 := 1

inductive DataChannelPole
  | positivePole
  | negativePole
deriving DecidableEq

namespace DataChannelPole

def first : DataChannelPole → UInt32
  | .negativePole => 0xffffffff
  | .positivePole => 2

/-- The number after another; the poles are 1 and -1. -/
def after : DataChannelPole → UInt32 → UInt32
  | .negativePole, number => number - 1
  | .positivePole, number => number + 1

end DataChannelPole

inductive ChannelError
  | invalidCommand
  | invalidPacket
  | pakcetTooLarge
deriving DecidableEq

/-- A command as unpackCommand reads it. The number behind an unknown command is
ignored. -/
inductive ChannelCommand
  | makeChannel (channelNumber : UInt32)
  | channelMade (channelNumber : UInt32)
  | destroyChannel (channelNumber : UInt32)
  | slowDown
  | goThrough
  | keepalive
  | unknown (command : UInt8)
deriving DecidableEq

def packMakeChannelRequest (channelNumber : UInt32) : Bytes := 1 :: word32 channelNumber

def packChannelMadeRequest (channelNumber : UInt32) : Bytes := 2 :: word32 channelNumber

def packDestoryChannelRequest (channelNumber : UInt32) : Bytes := 3 :: word32 channelNumber

def packSlowDownRequest : Bytes := [4]

def packGoThroughRequest : Bytes := [5]

def packKeepaliveRequest : Bytes := [6]

def unpackCommand (data : Bytes) : Option ChannelCommand :=
  match data with
  | [command] =>
    if command = 1 ∨ command = 2 ∨ command = 3 then none
    else if command = 4 then some .slowDown
    else if command = 5 then some .goThrough
    else if command = 6 then some .keepalive
    else some (.unknown command)
  | [command, a, b, c, d] =>
    if command = 4 ∨ command = 5 ∨ command = 6 then none
    else if command = 1 then some (.makeChannel (readWord32 [a, b, c, d]))
    else if command = 2 then some (.channelMade (readWord32 [a, b, c, d]))
    else if command = 3 then some (.destroyChannel (readWord32 [a, b, c, d]))
    else some (.unknown command)
  | _ => none

@[simp]
theorem unpackCommand_make (n : UInt32) : unpackCommand (packMakeChannelRequest n) = some (.makeChannel n) := by
  have read := readWord32_word32 n
  simp [packMakeChannelRequest, unpackCommand, word32] at read ⊢
  exact read

@[simp]
theorem unpackCommand_made (n : UInt32) : unpackCommand (packChannelMadeRequest n) = some (.channelMade n) := by
  have read := readWord32_word32 n
  simp [packChannelMadeRequest, unpackCommand, word32] at read ⊢
  exact read

@[simp]
theorem unpackCommand_destroy (n : UInt32) :
    unpackCommand (packDestoryChannelRequest n) = some (.destroyChannel n) := by
  have read := readWord32_word32 n
  simp [packDestoryChannelRequest, unpackCommand, word32] at read ⊢
  exact read

@[simp]
theorem unpackCommand_slowDown : unpackCommand packSlowDownRequest = some .slowDown := by decide

@[simp]
theorem unpackCommand_goThrough : unpackCommand packGoThroughRequest = some .goThrough := by decide

@[simp]
theorem unpackCommand_keepalive : unpackCommand packKeepaliveRequest = some .keepalive := by decide

structure WritingPacket where
  channelNumber : UInt32
  packet : Bytes
deriving DecidableEq

def commandOf (p : WritingPacket) : Option ChannelCommand :=
  if p.channelNumber = commandChannelNumber then unpackCommand p.packet else none

def commands (packets : List WritingPacket) : List ChannelCommand := packets.filterMap commandOf

@[simp]
theorem commands_nil : commands [] = [] := rfl

@[simp]
theorem commands_append (xs ys : List WritingPacket) : commands (xs ++ ys) = commands xs ++ commands ys :=
  filterMap_append

theorem commands_cons (p : WritingPacket) (rest : List WritingPacket) :
    commands (p :: rest) = (commandOf p).toList ++ commands rest := by
  simp only [commands, filterMap_cons]
  cases commandOf p <;> rfl

theorem commands_singleton (p : WritingPacket) : commands [p] = (commandOf p).toList := by
  rw [commands_cons, commands_nil, append_nil]

theorem commandOf_of_ne {p : WritingPacket} (other : p.channelNumber ≠ commandChannelNumber) : commandOf p = none :=
  if_neg other

theorem commands_filter {m : UInt32} (numbered : m ≠ commandChannelNumber) (packets : List WritingPacket) :
    commands (packets.filter fun p => p.channelNumber ≠ m) = commands packets := by
  induction packets with
  | nil => rfl
  | cons p rest ih =>
    by_cases named : p.channelNumber = m
    · rw [filter_cons_of_neg (by simpa using named), ih, commands_cons, commandOf_of_ne (named ▸ numbered)]
      rfl
    · rw [filter_cons_of_pos (by simpa using named), commands_cons, commands_cons, ih]

def packetSize (packet : Bytes) : UInt32 := UInt32.ofNat packet.length

def channelHeadSize : Nat := 8

def maxSendSize : Nat := 64 * 1024

/-- The inner loop of doSend: the packets that still go into the buffer, and those
that stay in the queue, the one put back with returnsForcely included. -/
def batchLoop : Nat → List WritingPacket → List WritingPacket × List WritingPacket
  | _, [] => ([], [])
  | count, next :: rest =>
    if count + channelHeadSize < maxSendSize then
      if count + channelHeadSize + next.packet.length > maxSendSize then ([], next :: rest)
      else
        let (more, left) := batchLoop (count + channelHeadSize + next.packet.length) rest
        (next :: more, left)
    else ([], next :: rest)

theorem batchLoop_append (count : Nat) (packets : List WritingPacket) :
    (batchLoop count packets).1 ++ (batchLoop count packets).2 = packets := by
  induction packets generalizing count with
  | nil => rfl
  | cons next rest ih =>
    simp only [batchLoop]
    split
    · split
      · rfl
      · exact congrArg (next :: ·) (ih _)
    · rfl

/-- A SocketChannelPrivate. Of a sub-channel only its registration is kept here.
arriving is the packet that doReceive holds while it is blocked in the put of the
receiving queue, pluggedChannel says that exchange diverts the channel, and made
counts the calls of makeChannel. -/
structure SocketChannelPrivate where
  pole : DataChannelPole
  nextChannelNumber : UInt32
  subChannels : Finset UInt32 := ∅
  pendingChannels : List UInt32 := []
  maxPendingChannelsCount : Nat := 8
  receivingQueue : SizedQueueType Bytes
  arriving : Option Bytes := none
  slowDownRequested : Bool := false
  goThrough : Bool := true
  pluggedChannel : Bool := false
  sendingQueue : List WritingPacket := []
  maxPayloadSize : UInt32
  error : Option ChannelError := none
  made : Nat := 0

namespace SocketChannelPrivate

/-- The constructor, with the capacity and the maximum size the application sets. -/
def new (pole : DataChannelPole) (capacity maxPayloadSize : UInt32) : SocketChannelPrivate where
  pole := pole
  nextChannelNumber := pole.first
  receivingQueue := .new capacity
  maxPayloadSize := maxPayloadSize

/-- What sendPacketRaw does once its put goes through. -/
def sendPacketRaw (d : SocketChannelPrivate) (channelNumber : UInt32) (packet : Bytes) : SocketChannelPrivate :=
  if d.error ≠ none ∨ packet = [] then d
  else if packetSize packet > d.maxPayloadSize then d
  else { d with sendingQueue := d.sendingQueue ++ [⟨channelNumber, packet⟩] }

def sendPacketAsync (d : SocketChannelPrivate) (packet : Bytes) : SocketChannelPrivate :=
  d.sendPacketRaw dataChannelNumber packet

def notifyChannelClose (d : SocketChannelPrivate) (channelNumber : UInt32) : SocketChannelPrivate :=
  if d.error ≠ none then d else d.sendPacketRaw commandChannelNumber (packDestoryChannelRequest channelNumber)

def cleanSendingPacket (d : SocketChannelPrivate) (subChannelNumber : UInt32) : SocketChannelPrivate :=
  { d with sendingQueue := d.sendingQueue.filter fun p => p.channelNumber ≠ subChannelNumber }

def cleanChannel (d : SocketChannelPrivate) (channelNumber : UInt32) (sendDestroyPacket : Bool) :
    SocketChannelPrivate :=
  if channelNumber ∈ d.subChannels then
    let d := { d with subChannels := d.subChannels.erase channelNumber }
    let d := if sendDestroyPacket then d.notifyChannelClose channelNumber else d
    d.cleanSendingPacket channelNumber
  else d

/-- The loop of enqueuePendingChannel, which aborts the oldest channels. -/
def dropPending (d : SocketChannelPrivate) : List UInt32 → SocketChannelPrivate
  | [] => { d with pendingChannels := [] }
  | oldest :: rest =>
    if (oldest :: rest).length > d.maxPendingChannelsCount then (d.cleanChannel oldest true).dropPending rest
    else { d with pendingChannels := oldest :: rest }

def enqueuePendingChannel (d : SocketChannelPrivate) (channelNumber : UInt32) : SocketChannelPrivate :=
  let pendingChannels := d.pendingChannels ++ [channelNumber]
  if d.maxPendingChannelsCount = 0 then { d with pendingChannels } else d.dropPending pendingChannels

def makeChannelInternal (d : SocketChannelPrivate) (channelNumber : UInt32) : SocketChannelPrivate :=
  { d with subChannels := insert channelNumber d.subChannels }

def makeChannel (d : SocketChannelPrivate) : SocketChannelPrivate :=
  let channelNumber := d.nextChannelNumber
  let d := { d with nextChannelNumber := d.pole.after channelNumber, made := d.made + 1 }
  (d.makeChannelInternal channelNumber).sendPacketRaw commandChannelNumber (packMakeChannelRequest channelNumber)

/-- The commands; none stands for false. -/
def handleCommand (d : SocketChannelPrivate) (packet : Bytes) : Option SocketChannelPrivate :=
  match unpackCommand packet with
  | none => none
  | some (.makeChannel channelNumber) =>
    if channelNumber ∈ d.subChannels then none
    else
      let d := d.makeChannelInternal channelNumber
      let d := d.sendPacketRaw commandChannelNumber (packChannelMadeRequest channelNumber)
      some (d.enqueuePendingChannel channelNumber)
  | some (.channelMade channelNumber) =>
    if channelNumber ∈ d.subChannels then some d
    -- the channel is open by me and then closed quickly
    else some (d.sendPacketRaw commandChannelNumber (packDestoryChannelRequest channelNumber))
  | some (.destroyChannel channelNumber) => some (d.cleanChannel channelNumber false)
  | some .slowDown => some { d with goThrough := false }
  | some .goThrough => some { d with goThrough := true }
  | some .keepalive => some d
  | some (.unknown command) => if command < 32 then none else some d

/-- The put of the receiving queue, which blocks while the queue is full. -/
def putReceiving (d : SocketChannelPrivate) (payload : Bytes) : SocketChannelPrivate :=
  if d.receivingQueue.notFull.flag then
    { d with receivingQueue := d.receivingQueue.push packetSize false payload }
  else { d with arriving := some payload }

/-- handleIncomingPacket, without what a sub-channel does with its packets. -/
def handleIncomingPacket (d : SocketChannelPrivate) (channelNumber : UInt32) (payload : Bytes) :
    SocketChannelPrivate × Option ChannelError :=
  if d.pluggedChannel then (d, none)
  else if channelNumber = dataChannelNumber then
    let d :=
      if d.slowDownRequested = false ∧ d.receivingQueue.currentSize ≥ d.receivingQueue.mCapacity * 3 / 4 then
        { d with slowDownRequested := true }.sendPacketRaw commandChannelNumber packSlowDownRequest
      else d
    (d.putReceiving payload, none)
  else if channelNumber = commandChannelNumber then
    match d.handleCommand payload with
    | none => (d, some .invalidCommand)
    | some d => (d, none)
  else if channelNumber ∈ d.subChannels then
    if payload.length < 4 then (d, some .invalidPacket) else (d, none)
  else (d, none)

def abort (d : SocketChannelPrivate) (reason : ChannelError) : SocketChannelPrivate :=
  if d.error ≠ none then d
  else { d with
    error := some reason
    sendingQueue := []
    pluggedChannel := false
    receivingQueue := d.receivingQueue.close
    goThrough := true
    subChannels := ∅
    pendingChannels := [] }

/-- One turn of the loop of doReceive. -/
def doReceive (d : SocketChannelPrivate) (frame : WritingPacket) : SocketChannelPrivate :=
  if packetSize frame.packet > d.maxPayloadSize then d.abort .pakcetTooLarge
  else
    match d.handleIncomingPacket frame.channelNumber frame.packet with
    | (d, none) => d
    | (d, some reason) => d.abort reason

/-- A call of recvPacket from the moment its get takes a packet. -/
def recvPacket (d : SocketChannelPrivate) : Option SocketChannelPrivate :=
  match d.receivingQueue.queue with
  | [] => none
  | packet :: rest =>
    let d := { d with receivingQueue := d.receivingQueue.pop packetSize packet rest }
    if packet = [] then some d
    else if d.slowDownRequested ∧ d.receivingQueue.currentSize ≤ d.receivingQueue.mCapacity / 2 then
      some ({ d with slowDownRequested := false }.sendPacketRaw commandChannelNumber packGoThroughRequest)
    else some d

/-- The loop of exchange that empties the receiving queue of one of the two channels. -/
def drain (q : SizedQueueType Bytes) : List Bytes → SizedQueueType Bytes
  | [] => q
  | packet :: rest => drain (q.pop packetSize packet rest) rest

/-- What exchange does to one of its two channels. The packets it takes out and all
that arrive later go out through the other channel. -/
def exchange (d : SocketChannelPrivate) : SocketChannelPrivate :=
  { d with receivingQueue := drain d.receivingQueue d.receivingQueue.queue, pluggedChannel := true }

end SocketChannelPrivate

/-- What happens at one end of a connection apart from its two loops. -/
inductive ChannelAction
  | makeChannel
  | abortChannel (channelNumber : UInt32)
  | takeChannel (channelNumber : UInt32)
  | setMaxPendingChannels (count : Nat)
  | sendPacketAsync (packet : Bytes)
  | sendThrough (subChannel channelNumber : UInt32) (packet : Bytes)
  | doKeepalive
  | unblock
  | recvPacket
  | exchange
  | forward (channelNumber : UInt32) (packet : Bytes)
deriving DecidableEq

namespace SocketChannelPrivate

def perform (d : SocketChannelPrivate) : ChannelAction → Option SocketChannelPrivate
  | .makeChannel => if d.error = none then some d.makeChannel else none
  -- the abort of a registered sub-channel, by its user or for an error of its own
  | .abortChannel channelNumber =>
    if channelNumber ∈ d.subChannels then some (d.cleanChannel channelNumber true) else none
  | .takeChannel channelNumber =>
    if channelNumber ∈ d.pendingChannels then
      some { d with pendingChannels := d.pendingChannels.erase channelNumber }
    else none
  | .setMaxPendingChannels count => some { d with maxPendingChannelsCount := count }
  | .sendPacketAsync packet => some (d.sendPacketAsync packet)
  -- sendPacketRaw of a sub-channel; its put may come after the sub-channel is gone
  | .sendThrough subChannel channelNumber packet =>
    if subChannel ≠ commandChannelNumber ∧ subChannel ≠ dataChannelNumber ∧ packet ≠ [] then
      some (d.sendPacketRaw subChannel (word32 channelNumber ++ packet))
    else none
  | .doKeepalive =>
    if d.sendingQueue = [] ∧ d.error = none then
      some { d with sendingQueue := d.sendingQueue ++ [⟨commandChannelNumber, packKeepaliveRequest⟩] }
    else none
  | .unblock =>
    match d.arriving with
    | some payload =>
      if d.receivingQueue.notFull.flag then some ({ d with arriving := none }.putReceiving payload) else none
    | none => none
  | .recvPacket => d.recvPacket
  | .exchange => if d.pluggedChannel = false ∧ d.error = none then some d.exchange else none
  -- handleIncomingPacket of the channel that this one is plugged to
  | .forward channelNumber packet =>
    if d.pluggedChannel then some (d.sendPacketRaw channelNumber packet) else none

end SocketChannelPrivate

/-- Two connected SocketChannels. wire holds the frames of an end that the other one
has not read. -/
structure ChannelWorld where
  ends : Bool → SocketChannelPrivate
  wire : Bool → List WritingPacket

inductive ChannelEvent
  | act (side : Bool) (action : ChannelAction)
  | doSend (side : Bool)
  | doReceive (side : Bool)
deriving DecidableEq

namespace ChannelWorld

def step (s : ChannelWorld) : ChannelEvent → Option ChannelWorld
  | .act side action =>
    ((s.ends side).perform action).map fun d => { s with ends := update s.ends side d }
  | .doSend side =>
    match (s.ends side).sendingQueue with
    | [] => none
    | first :: rest =>
      let (more, left) := batchLoop (channelHeadSize + first.packet.length) rest
      some {
        ends := update s.ends side { s.ends side with sendingQueue := left }
        wire := update s.wire side (s.wire side ++ first :: more) }
  | .doReceive side =>
    match s.wire (!side) with
    | [] => none
    | frame :: rest =>
      if (s.ends side).error = none ∧ (s.ends side).arriving = none then
        some {
          ends := update s.ends side ((s.ends side).doReceive frame)
          wire := update s.wire (!side) rest }
      else none

/-- Everything that an end has sent and the other has not handled, oldest first. -/
def inFlight (s : ChannelWorld) (side : Bool) : List WritingPacket := s.wire side ++ (s.ends side).sendingQueue

/-- Two new channels of opposite poles. setMaxPacketSize refuses sizes below 64, which is
56 without the header. -/
def Starts (s : ChannelWorld) : Prop :=
  ∃ capacity maxPayloadSize : Bool → UInt32, (∀ side, 56 ≤ maxPayloadSize side) ∧
    s = {
      ends := fun side => .new (if side then .negativePole else .positivePole) (capacity side) (maxPayloadSize side)
      wire := fun _ => [] }

theorem step_cases {s t : ChannelWorld} {e : ChannelEvent} (stepped : s.step e = some t) :
    (∃ side action d, e = .act side action ∧ (s.ends side).perform action = some d ∧
      t = { s with ends := update s.ends side d }) ∨
    (∃ side sent left, e = .doSend side ∧ (s.ends side).sendingQueue = sent ++ left ∧
      t = ⟨update s.ends side { s.ends side with sendingQueue := left },
        update s.wire side (s.wire side ++ sent)⟩) ∨
    (∃ side frame rest, e = .doReceive side ∧ s.wire (!side) = frame :: rest ∧ (s.ends side).error = none ∧
      (s.ends side).arriving = none ∧
      t = ⟨update s.ends side ((s.ends side).doReceive frame), update s.wire (!side) rest⟩) := by
  cases e with
  | act side action =>
    obtain ⟨d, performed, same⟩ := map_eq_some_iff.mp stepped
    exact Or.inl ⟨side, action, d, rfl, performed, same.symm⟩
  | doSend side =>
    simp only [step] at stepped
    split at stepped
    · simp at stepped
    · rename_i first rest queued
      have whole := batchLoop_append (channelHeadSize + first.packet.length) rest
      refine Or.inr (Or.inl ⟨side, _, _, rfl, ?_, (some.inj stepped).symm⟩)
      rw [queued, cons_append, whole]
  | doReceive side =>
    simp only [step] at stepped
    split at stepped
    · simp at stepped
    · rename_i frame rest arrived
      obtain ⟨⟨alive, free⟩, same⟩ := ite_none_right_eq_some.mp stepped
      exact Or.inr (Or.inr ⟨side, frame, rest, rfl, arrived, alive, free, (some.inj same).symm⟩)

end ChannelWorld

def channelSystem : System ChannelWorld ChannelEvent := .ofStep ChannelWorld.Starts ChannelWorld.step

end Qtng
