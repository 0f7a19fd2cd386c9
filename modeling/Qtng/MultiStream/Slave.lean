import Qtng.Channel.DataChannel

namespace Qtng.MultiStream

open BigEndian Option

inductive StreamError
  | remotePeerClosedError
  | receivingError
  | invalidCommand
  | userShutdown
  | packetTooLarge
deriving DecidableEq

/-- The receiving half of a MultiStreamSlavePrivate. attached says that master is not null,
activeReceivers counts the coroutines that are blocked in recvPacket, and returned is its
history: what recvPacket has returned. -/
structure MultiStreamSlavePrivate where
  receivingQueue : SizedQueueType Bytes
  activeReceivers : Nat := 0
  windowUpdatePending : UInt32 := 0
  error : Option StreamError := none
  attached : Bool := true
  returned : List Bytes := []

namespace MultiStreamSlavePrivate

def new (slaveReceivingCapacity : UInt32) : MultiStreamSlavePrivate where
  receivingQueue := .new slaveReceivingCapacity

def receivingCapacity (d : MultiStreamSlavePrivate) : UInt32 := d.receivingQueue.mCapacity

/-- The second component is the credit of the WINDOW_UPDATE that goes to the master. -/
def maybeSendWindowUpdate (d : MultiStreamSlavePrivate) (consumedBytes : UInt32) :
    MultiStreamSlavePrivate × Option UInt32 :=
  if consumedBytes = 0 ∨ d.attached = false ∨ d.error ≠ none then (d, none)
  else
    let windowUpdatePending := d.windowUpdatePending + consumedBytes
    if windowUpdatePending ≥ max (8 * 1024) (d.receivingCapacity / 8) ∨ d.receivingQueue.queue = [] then
      ({ d with windowUpdatePending := 0 }, some windowUpdatePending)
    else ({ d with windowUpdatePending }, none)

/-- recvPacket from the moment its get takes the first packet. -/
def take (d : MultiStreamSlavePrivate) (packet : Bytes) (rest : List Bytes) :
    MultiStreamSlavePrivate × Option UInt32 :=
  let d := { d with
    receivingQueue := d.receivingQueue.pop packetSize packet rest, returned := d.returned ++ [packet] }
  if packet = [] then (d, none) else d.maybeSendWindowUpdate (packetSize packet)

def recvPacket (d : MultiStreamSlavePrivate) : MultiStreamSlavePrivate × Option UInt32 :=
  match d.receivingQueue.queue with
  | [] =>
    if d.error ≠ none then ({ d with returned := d.returned ++ [[]] }, none)
    else ({ d with activeReceivers := d.activeReceivers + 1 }, none)
  | packet :: rest => d.take packet rest

def resumeRecv (d : MultiStreamSlavePrivate) : Option (MultiStreamSlavePrivate × Option UInt32) :=
  match d.receivingQueue.queue with
  | [] => none
  | packet :: rest =>
    if d.activeReceivers = 0 then none
    else some ({ d with activeReceivers := d.activeReceivers - 1 }.take packet rest)

/-- None while the put of doReceive is blocked. -/
def handleIncomingPacket (d : MultiStreamSlavePrivate) (payload : Bytes) : Option MultiStreamSlavePrivate :=
  if d.error ≠ none then some d
  else if d.receivingQueue.notFull.flag then
    some { d with receivingQueue := d.receivingQueue.push packetSize false payload }
  else none

def setReceivingCapacity (d : MultiStreamSlavePrivate) (bytes : UInt32) :
    MultiStreamSlavePrivate × Option UInt32 :=
  ({ d with receivingQueue := d.receivingQueue.setCapacity bytes },
    if bytes > d.receivingCapacity ∧ d.attached ∧ d.error = none then some (bytes - d.receivingCapacity) else none)

/-- What take does to the accounts of the receiver: the bytes become pending, or all that is
pending goes out as credit. A closed stream keeps no account. -/
theorem take_cases (d : MultiStreamSlavePrivate) (packet : Bytes) (rest : List Bytes) :
    ∃ pending credit, d.take packet rest = ({ d with
        receivingQueue := d.receivingQueue.pop packetSize packet rest
        returned := d.returned ++ [packet]
        windowUpdatePending := pending }, credit) ∧
      ((packetSize packet = 0 ∨ d.attached = false ∨ d.error ≠ none) ∧ pending = d.windowUpdatePending ∧
          credit = none ∨
        pending = d.windowUpdatePending + packetSize packet ∧ credit = none ∨
        pending = 0 ∧ credit = some (d.windowUpdatePending + packetSize packet)) := by
  unfold take
  by_cases empty : packet = []
  · subst empty
    exact ⟨_, none, if_pos rfl, Or.inl ⟨Or.inl rfl, rfl, rfl⟩⟩
  · rw [if_neg empty]
    unfold maybeSendWindowUpdate
    by_cases idle : packetSize packet = 0 ∨ d.attached = false ∨ d.error ≠ none
    · exact ⟨_, none, if_pos idle, Or.inl ⟨idle, rfl, rfl⟩⟩
    · rw [if_neg idle]
      dsimp only
      split
      · exact ⟨0, some _, rfl, Or.inr (Or.inr ⟨rfl, rfl⟩)⟩
      · exact ⟨_, none, rfl, Or.inr (Or.inl ⟨rfl, rfl⟩)⟩

theorem recvPacket_cases (d : MultiStreamSlavePrivate) :
    d.receivingQueue.queue = [] ∧ d.error = none ∧
        d.recvPacket = ({ d with activeReceivers := d.activeReceivers + 1 }, none) ∨
      d.receivingQueue.queue = [] ∧ d.error ≠ none ∧
        d.recvPacket = ({ d with returned := d.returned ++ [[]] }, none) ∨
      ∃ packet rest, d.receivingQueue.queue = packet :: rest ∧ d.recvPacket = d.take packet rest := by
  unfold recvPacket
  split
  · rename_i empty
    by_cases broken : d.error = none
    · rw [if_neg (not_not.mpr broken)]
      exact Or.inl ⟨empty, broken, rfl⟩
    · rw [if_pos broken]
      exact Or.inr (Or.inl ⟨empty, broken, rfl⟩)
  · rename_i packet rest queued
    exact Or.inr (Or.inr ⟨packet, rest, queued, rfl⟩)

theorem resumeRecv_cases {d : MultiStreamSlavePrivate} {result : MultiStreamSlavePrivate × Option UInt32}
    (resumed : d.resumeRecv = some result) :
    ∃ packet rest, d.receivingQueue.queue = packet :: rest ∧
      result = { d with activeReceivers := d.activeReceivers - 1 }.take packet rest := by
  unfold resumeRecv at resumed
  split at resumed
  · simp at resumed
  · rename_i packet rest queued
    obtain ⟨_, same⟩ := ite_none_left_eq_some.mp resumed
    exact ⟨packet, rest, queued, (some.inj same).symm⟩

theorem handleIncomingPacket_cases {d e : MultiStreamSlavePrivate} {payload : Bytes}
    (handled : d.handleIncomingPacket payload = some e) :
    d.error ≠ none ∧ e = d ∨ d.error = none ∧ d.receivingQueue.notFull.flag = true ∧
      e = { d with receivingQueue := d.receivingQueue.push packetSize false payload } := by
  unfold handleIncomingPacket at handled
  by_cases broken : d.error = none
  · rw [if_neg (not_not.mpr broken)] at handled
    obtain ⟨room, same⟩ := ite_none_right_eq_some.mp handled
    exact Or.inr ⟨broken, room, (some.inj same).symm⟩
  · rw [if_pos broken] at handled
    exact Or.inl ⟨broken, (some.inj handled).symm⟩

end MultiStreamSlavePrivate

end Qtng.MultiStream
