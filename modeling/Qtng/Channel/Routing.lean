import Qtng.Channel.DataChannel

namespace Qtng

open BigEndian Transition List Function Option

/-- The channels below a SocketChannel. A channel is named by the numbers on the way to it,
its own number first; the SocketChannel itself is []. -/
structure ChannelTree where
  channels : List UInt32 → Bool
  root : channels [] = true
  parent : ∀ n path, channels (n :: path) = true → channels path = true
  numbered : ∀ n path, channels (n :: path) = true → n ≠ commandChannelNumber ∧ n ≠ dataChannelNumber

inductive Arrival
  | packet (path : List UInt32) (packet : Bytes)
  | command (path : List UInt32) (packet : Bytes)
  | invalidPacket (path : List UInt32)
  | dropped
deriving DecidableEq

namespace ChannelTree

/-- handleIncomingPacket of the channel at a path, with those of its sub-channels. -/
def handleIncomingPacket (tree : ChannelTree) : List UInt32 → UInt32 → Bytes → Arrival
  | path, channelNumber, a :: b :: c :: d :: packet =>
    if channelNumber = dataChannelNumber then .packet path (a :: b :: c :: d :: packet)
    else if channelNumber = commandChannelNumber then .command path (a :: b :: c :: d :: packet)
    else if tree.channels (channelNumber :: path) then
      tree.handleIncomingPacket (channelNumber :: path) (readWord32 [a, b, c, d]) packet
    else .dropped
  | path, channelNumber, payload =>
    if channelNumber = dataChannelNumber then .packet path payload
    else if channelNumber = commandChannelNumber then .command path payload
    else if tree.channels (channelNumber :: path) then .invalidPacket path
    else .dropped

end ChannelTree

/-- sendPacketRaw of the channel at a path: the packet that the SocketChannel queues. -/
def sendPacketRaw (maxPayloadSize : UInt32) : List UInt32 → UInt32 → Bytes → Option WritingPacket
  | [], channelNumber, packet =>
    if packet = [] then none
    else if packetSize packet > maxPayloadSize then none
    else some ⟨channelNumber, packet⟩
  | number :: parent, channelNumber, packet =>
    if packet = [] then none
    else sendPacketRaw maxPayloadSize parent number (word32 channelNumber ++ packet)

/-- What is sent on a channel: a packet of its user, or a command. -/
structure Sending where
  path : List UInt32
  channelNumber : UInt32
  packet : Bytes
deriving DecidableEq

def wrap : List UInt32 → UInt32 → Bytes → WritingPacket
  | [], channelNumber, packet => ⟨channelNumber, packet⟩
  | number :: parent, channelNumber, packet => wrap parent number (word32 channelNumber ++ packet)

def Sending.wrapped (x : Sending) : WritingPacket := wrap x.path x.channelNumber x.packet

theorem sendPacketRaw_eq_some {maxPayloadSize : UInt32} {path : List UInt32} {channelNumber : UInt32} {packet : Bytes}
    {p : WritingPacket} (accepted : sendPacketRaw maxPayloadSize path channelNumber packet = some p) :
    p = wrap path channelNumber packet ∧ packetSize p.packet ≤ maxPayloadSize := by
  induction path generalizing channelNumber packet with
  | nil =>
    obtain ⟨_, rest⟩ := ite_none_left_eq_some.mp accepted
    obtain ⟨fits, same⟩ := ite_none_left_eq_some.mp rest
    cases same
    exact ⟨rfl, UInt32.not_lt.mp fits⟩
  | cons number parent ih =>
    obtain ⟨_, rest⟩ := ite_none_left_eq_some.mp accepted
    exact ih rest

theorem ChannelTree.handle_data (tree : ChannelTree) (path : List UInt32) (packet : Bytes) :
    tree.handleIncomingPacket path dataChannelNumber packet = .packet path packet := by
  unfold handleIncomingPacket
  split <;> rw [if_pos rfl]

theorem ChannelTree.handle_command (tree : ChannelTree) (path : List UInt32) (packet : Bytes) :
    tree.handleIncomingPacket path commandChannelNumber packet = .command path packet := by
  have other : commandChannelNumber ≠ dataChannelNumber := by decide
  unfold handleIncomingPacket
  split <;> rw [if_neg other, if_pos rfl]

/-- The dispatcher takes off the headers that the channels have put on. -/
theorem ChannelTree.handle_wrap (tree : ChannelTree) {path : List UInt32} (registered : tree.channels path = true)
    (channelNumber : UInt32) (packet : Bytes) :
    tree.handleIncomingPacket [] (wrap path channelNumber packet).channelNumber
      (wrap path channelNumber packet).packet =
      tree.handleIncomingPacket path channelNumber packet := by
  induction path generalizing channelNumber packet with
  | nil => rfl
  | cons number parent ih =>
    obtain ⟨command, data⟩ := tree.numbered number parent registered
    have read := readWord32_word32 channelNumber
    rw [wrap, ih (tree.parent number parent registered)]
    simp only [word32, cons_append, nil_append] at read ⊢
    rw [handleIncomingPacket, if_neg data, if_neg command, if_pos registered, read]

def frame (p : WritingPacket) : Bytes := word32 (packetSize p.packet) ++ word32 p.channelNumber ++ p.packet

/-- Two SocketChannels with the same channels below them, and what goes from one to the
other. undefined is set when doSend loses the size of its buffer; accepted is the history
of what sendPacketRaw has taken. -/
structure TreeLink where
  maxPayloadSize : UInt32
  sendingQueue : List WritingPacket := []
  wire : Bytes := []
  receivingQueues : List UInt32 → List Bytes := fun _ => []
  error : Option ChannelError := none
  undefined : Bool := false
  accepted : List Sending := []

inductive TreeEvent
  | send (x : Sending)
  | doSend
  | doReceive
deriving DecidableEq

namespace TreeLink

def packetsOn (path : List UInt32) (sendings : List Sending) : List Bytes :=
  (sendings.filter fun x => x.path = path ∧ x.channelNumber = dataChannelNumber).map (·.packet)

/-- One batch of doSend. The size of the first packet is stored in an int; if it does not
fit, reserve is called with a negative or too small number and memcpy leaves the buffer. -/
def doSend (s : TreeLink) : Option TreeLink :=
  match s.sendingQueue with
  | [] => none
  | first :: rest =>
    if channelHeadSize + first.packet.length < 2 ^ 31 then
      let (more, left) := batchLoop (channelHeadSize + first.packet.length) rest
      some { s with sendingQueue := left, wire := s.wire ++ (first :: more).flatMap frame }
    else some { s with undefined := true }

/-- One turn of doReceive, once recvall has what it asks for. -/
def doReceive (tree : ChannelTree) (s : TreeLink) : Option TreeLink :=
  match s.wire with
  | a :: b :: c :: d :: e :: f :: g :: h :: rest =>
    let payloadSize := readWord32 [a, b, c, d]
    let channelNumber := readWord32 [e, f, g, h]
    if payloadSize > s.maxPayloadSize then some { s with error := some .pakcetTooLarge }
    -- recvall takes an int and returns nothing for a negative one
    else if 2 ^ 31 ≤ payloadSize.toNat then some { s with error := some .invalidPacket }
    else if rest.length < payloadSize.toNat then none
    else
      let s := { s with wire := rest.drop payloadSize.toNat }
      match tree.handleIncomingPacket [] channelNumber (rest.take payloadSize.toNat) with
      | .packet path packet =>
        some { s with
          receivingQueues := update s.receivingQueues path (s.receivingQueues path ++ [packet]) }
      | .command _ _ => some s
      | .dropped => some s
      | .invalidPacket _ => some { s with error := some .invalidPacket }
  | _ => none

/-- Packets on any channel, and the commands that leave the channels as they are. -/
def sendable (x : Sending) : Bool :=
  decide (x.channelNumber = dataChannelNumber) ||
    decide (x.channelNumber = commandChannelNumber) &&
      (unpackCommand x.packet).any fun c => decide (c = .slowDown ∨ c = .goThrough ∨ c = .keepalive)

def step (tree : ChannelTree) (s : TreeLink) (e : TreeEvent) : Option TreeLink :=
  if s.undefined ∨ s.error ≠ none then none
  else
    match e with
    | .send x =>
      if tree.channels x.path ∧ sendable x then
        match Qtng.sendPacketRaw s.maxPayloadSize x.path x.channelNumber x.packet with
        | none => some s
        | some p => some { s with sendingQueue := s.sendingQueue ++ [p], accepted := s.accepted ++ [x] }
      else none
    | .doSend => s.doSend
    | .doReceive => s.doReceive tree

/-- Each receiving queue has a beginning of what was sent on its channel and nothing else,
and all of it once everything has been read. Bytes on the wire can always be read. -/
structure Exact (tree : ChannelTree) (s : TreeLink) : Prop where
  defined : s.undefined = false
  unbroken : s.error = none
  ordered : ∀ path, s.receivingQueues path <+: packetsOn path s.accepted
  complete : s.sendingQueue = [] → s.wire = [] → ∀ path, s.receivingQueues path = packetsOn path s.accepted
  readable : s.wire ≠ [] → (s.step tree .doReceive).isSome

theorem batchLoop_small (count : Nat) (packets : List WritingPacket) :
    ∀ p ∈ (batchLoop count packets).1, channelHeadSize + p.packet.length ≤ maxSendSize := by
  induction packets generalizing count with
  | nil => simp [batchLoop]
  | cons next rest ih =>
    intro p member
    simp only [batchLoop] at member
    split at member
    · split at member
      · simp at member
      · rcases mem_cons.mp member with same | later
        · subst same
          omega
        · exact ih _ p later
    · simp at member

@[simp]
theorem packetsOn_append (path : List UInt32) (xs ys : List Sending) :
    packetsOn path (xs ++ ys) = packetsOn path xs ++ packetsOn path ys := by
  simp [packetsOn]

theorem packetsOn_singleton (path : List UInt32) (x : Sending) :
    packetsOn path [x] = if x.path = path ∧ x.channelNumber = dataChannelNumber then [x.packet] else [] := by
  unfold packetsOn
  by_cases here : x.path = path ∧ x.channelNumber = dataChannelNumber
  · rw [if_pos here, filter_cons_of_pos (by simpa using here)]
    rfl
  · rw [if_neg here, filter_cons_of_neg (by simpa using here)]
    rfl

/-- What was accepted is what has arrived, then what is on the wire, then what is queued. -/
structure Laid (tree : ChannelTree) (s : TreeLink) (arrived onWire inQueue : List Sending) : Prop where
  unbroken : s.error = none
  accepted : s.accepted = arrived ++ onWire ++ inQueue
  valid : ∀ x ∈ s.accepted, tree.channels x.path = true ∧ sendable x = true ∧
    packetSize x.wrapped.packet ≤ s.maxPayloadSize
  queue : s.sendingQueue = inQueue.map Sending.wrapped
  wire : s.wire = onWire.flatMap fun x => frame x.wrapped
  fits : ∀ x ∈ onWire, channelHeadSize + x.wrapped.packet.length < 2 ^ 31
  delivered : ∀ path, s.receivingQueues path = packetsOn path arrived

variable {tree : ChannelTree} {s : TreeLink} {arrived onWire inQueue : List Sending}

theorem Laid.send (laid : s.Laid tree arrived onWire inQueue) {x : Sending} {p : WritingPacket}
    (registered : tree.channels x.path = true) (allowed : sendable x = true)
    (taken : Qtng.sendPacketRaw s.maxPayloadSize x.path x.channelNumber x.packet = some p) :
    Laid tree { s with sendingQueue := s.sendingQueue ++ [p], accepted := s.accepted ++ [x] } arrived onWire
      (inQueue ++ [x]) := by
  obtain ⟨same, small⟩ := sendPacketRaw_eq_some taken
  have wrapped : p = x.wrapped := same
  refine ⟨laid.unbroken, ?_, ?_, ?_, laid.wire, laid.fits, laid.delivered⟩
  · rw [laid.accepted, append_assoc]
  · intro y member
    rcases mem_append.mp member with old | new
    · exact laid.valid y old
    · rw [mem_singleton.mp new]
      exact ⟨registered, allowed, wrapped ▸ small⟩
  · rw [laid.queue, map_append, wrapped]
    rfl

theorem Laid.batch (laid : s.Laid tree arrived onWire inQueue) {first : WritingPacket} {rest : List WritingPacket}
    (queued : s.sendingQueue = first :: rest) (fits : channelHeadSize + first.packet.length < 2 ^ 31) :
    ∃ sent left, inQueue = sent ++ left ∧
      Laid tree
        { s with
          sendingQueue := (batchLoop (channelHeadSize + first.packet.length) rest).2
          wire := s.wire ++ (first :: (batchLoop (channelHeadSize + first.packet.length) rest).1).flatMap frame }
        arrived (onWire ++ sent) left := by
  have small := batchLoop_small (channelHeadSize + first.packet.length) rest
  have whole := batchLoop_append (channelHeadSize + first.packet.length) rest
  generalize batchLoop (channelHeadSize + first.packet.length) rest = split at small whole
  obtain ⟨more, later⟩ := split
  have parts : inQueue.map Sending.wrapped = (first :: more) ++ later := by
    rw [← laid.queue, queued, ← whole, cons_append]
  obtain ⟨sent, left, same, front, back⟩ := map_eq_append_iff.mp parts
  refine ⟨sent, left, same, laid.unbroken, ?_, laid.valid, back.symm, ?_, ?_, laid.delivered⟩
  · rw [laid.accepted, same]
    simp
  · rw [laid.wire, flatMap_append, ← front, flatMap_map]
  · intro x member
    rcases mem_append.mp member with old | new
    · exact laid.fits x old
    · have inBatch : x.wrapped ∈ first :: more := front ▸ mem_map_of_mem new
      rcases mem_cons.mp inBatch with head | tail
      · rw [head]
        exact fits
      · have bound := small x.wrapped tail
        have limit : maxSendSize = 65536 := rfl
        omega

theorem doReceive_frame (tree : ChannelTree) {p : WritingPacket} {later : Bytes} (written : s.wire = frame p ++ later)
    (accepted : packetSize p.packet ≤ s.maxPayloadSize) (fits : p.packet.length < 2 ^ 31) :
    s.doReceive tree =
      match tree.handleIncomingPacket [] p.channelNumber p.packet with
      | .packet path packet => some { s with
          wire := later
          receivingQueues := update s.receivingQueues path (s.receivingQueues path ++ [packet]) }
      | .command _ _ => some { s with wire := later }
      | .dropped => some { s with wire := later }
      | .invalidPacket _ => some { s with wire := later, error := some .invalidPacket } := by
  have size : (packetSize p.packet).toNat = p.packet.length := by
    rw [packetSize, UInt32.toNat_ofNat_of_lt']
    exact Nat.lt_trans fits (by decide)
  have readSize := readWord32_word32 (packetSize p.packet)
  have readNumber := readWord32_word32 p.channelNumber
  simp only [frame, word32, cons_append, nil_append] at written readSize readNumber
  unfold doReceive
  rw [written]
  simp only [readSize, readNumber]
  rw [if_neg (UInt32.not_lt.mpr accepted), size, if_neg (Nat.not_le.mpr fits), if_neg (by simp), take_left,
    drop_left]

theorem Laid.read {x : Sending} (laid : s.Laid tree arrived (x :: onWire) inQueue) :
    ∃ t, s.doReceive tree = some t ∧ t.undefined = s.undefined ∧ t.Laid tree (arrived ++ [x]) onWire inQueue := by
  have member : x ∈ s.accepted := by simp [laid.accepted]
  obtain ⟨registered, allowed, accepted⟩ := laid.valid x member
  have fits := laid.fits x mem_cons_self
  have fitting : x.wrapped.packet.length < 2 ^ 31 := by omega
  have written : s.wire = frame x.wrapped ++ onWire.flatMap fun x => frame x.wrapped := by
    rw [laid.wire, flatMap_cons]
  have routed := tree.handle_wrap registered x.channelNumber x.packet
  have read := doReceive_frame tree written accepted fitting
  rw [Sending.wrapped, routed] at read
  have whole : s.accepted = (arrived ++ [x]) ++ onWire ++ inQueue := by
    rw [laid.accepted]
    simp
  have later : ∀ y ∈ onWire, channelHeadSize + y.wrapped.packet.length < 2 ^ 31 := fun y member =>
    laid.fits y (mem_cons_of_mem x member)
  simp only [sendable, Bool.or_eq_true, Bool.and_eq_true, decide_eq_true_eq] at allowed
  rcases allowed with data | ⟨command, _⟩
  · rw [data, tree.handle_data] at read
    refine ⟨_, read, rfl, laid.unbroken, whole, laid.valid, laid.queue, rfl, later, fun path => ?_⟩
    rw [packetsOn_append, packetsOn_singleton]
    by_cases here : x.path = path
    · subst here
      simp [laid.delivered, data]
    · simp [update_of_ne (Ne.symm here), laid.delivered, here]
  · rw [command, tree.handle_command] at read
    refine ⟨_, read, rfl, laid.unbroken, whole, laid.valid, laid.queue, rfl, later, fun path => ?_⟩
    have silent : ¬(x.path = path ∧ x.channelNumber = dataChannelNumber) := by
      rintro ⟨_, data⟩
      rw [command] at data
      exact absurd data (by decide)
    rw [packetsOn_append, packetsOn_singleton, if_neg silent, append_nil]
    exact laid.delivered path

theorem Laid.wire_ne_nil {x : Sending} (laid : s.Laid tree arrived (x :: onWire) inQueue) : s.wire ≠ [] := by
  rw [laid.wire, flatMap_cons]
  simp [frame, word32]

/-- The condition on a batch: the size of its first packet, with the header, is an int. -/
def fits (s : TreeLink) : TreeEvent → Bool
  | .doSend => s.sendingQueue.head?.all fun first => decide (channelHeadSize + first.packet.length < 2 ^ 31)
  | _ => true

theorem Laid.exact (laid : s.Laid tree arrived onWire inQueue) (defined : s.undefined = false) : s.Exact tree := by
  refine ⟨defined, laid.unbroken, fun path => ?_, fun queue wire path => ?_, fun present => ?_⟩
  · rw [laid.delivered, laid.accepted, append_assoc, packetsOn_append]
    exact prefix_append _ _
  · cases onWire with
    | cons x rest => exact absurd wire laid.wire_ne_nil
    | nil =>
      have nothing : inQueue = [] := by
        rw [laid.queue] at queue
        exact map_eq_nil_iff.mp queue
      rw [laid.delivered, laid.accepted, nothing, append_nil, append_nil]
  · cases onWire with
    | nil => exact absurd laid.wire present
    | cons x rest =>
      obtain ⟨t, read, _⟩ := laid.read
      rw [step, if_neg (by simp [defined, laid.unbroken])]
      simp [read]

/-- A step keeps the layout, unless it is a batch whose size is lost. -/
theorem Laid.step {t : TreeLink} {e : TreeEvent} (laid : s.Laid tree arrived onWire inQueue)
    (stepped : s.step tree e = some t) :
    s.fits e = true ∧ t.undefined = s.undefined ∧ (∃ a w q, t.Laid tree a w q) ∨
      s.fits e = false ∧ t.undefined = true := by
  obtain ⟨_, accepted⟩ := ite_none_left_eq_some.mp stepped
  cases e with
  | send x =>
    obtain ⟨⟨registered, allowed⟩, result⟩ := ite_none_right_eq_some.mp accepted
    refine Or.inl ⟨rfl, ?_⟩
    split at result
    · cases result
      exact ⟨rfl, arrived, onWire, inQueue, laid⟩
    · rename_i p taken
      cases result
      exact ⟨rfl, _, _, _, laid.send registered allowed taken⟩
  | doReceive =>
    refine Or.inl ⟨rfl, ?_⟩
    cases onWire with
    | nil =>
      have empty : s.wire = [] := laid.wire
      simp [TreeLink.doReceive, empty] at accepted
    | cons x rest =>
      obtain ⟨u, read, same, next⟩ := laid.read
      cases some.inj (read.symm.trans accepted)
      exact ⟨same, _, _, _, next⟩
  | doSend =>
    simp only [TreeLink.doSend] at accepted
    split at accepted
    · simp at accepted
    · rename_i first rest queued
      split at accepted
      · rename_i fitting
        cases accepted
        obtain ⟨sent, left, _, next⟩ := laid.batch queued fitting
        refine Or.inl ⟨?_, rfl, _, _, _, next⟩
        simpa [TreeLink.fits, queued] using fitting
      · rename_i large
        cases accepted
        refine Or.inr ⟨?_, rfl⟩
        simpa [TreeLink.fits, queued] using large

end TreeLink

def treeSystem (tree : ChannelTree) : System TreeLink TreeEvent :=
  .ofStep (fun s => ∃ maxPayloadSize, s = { maxPayloadSize }) (TreeLink.step tree)

/-- Routing and batching are exact as long as doSend can hold the size of a batch. -/
theorem routing_exact (tree : ChannelTree) {history : List (TreeLink × TreeEvent)} {s : TreeLink}
    (run : Run (treeSystem tree) history s) :
    (∀ u, Visited history s u → u.Exact tree) ↔ ∀ entry ∈ history, entry.1.fits entry.2 = true := by
  have initial : ∀ s, (treeSystem tree).start s → s.undefined = false ∧ s.Laid tree [] [] [] := by
    rintro s ⟨maxPayloadSize, rfl⟩
    exact ⟨rfl, rfl, rfl, by simp, rfl, rfl, by simp, fun _ => rfl⟩
  have running : ∀ s e t, (treeSystem tree).step s e t → s.undefined = false := by
    intro s e t stepped
    obtain ⟨running, _⟩ := ite_none_left_eq_some.mp stepped
    simpa using fun lost => running (Or.inl lost)
  refine run.everywhere_iff (fun s e => s.fits e = true)
    (fun s => s.undefined = true ∨ s.undefined = false ∧ ∃ a w q, s.Laid tree a w q) (TreeLink.Exact tree)
    ?_ ?_ ?_ ?_
  · intro s starts
    obtain ⟨defined, laid⟩ := initial s starts
    exact Or.inr ⟨defined, _, _, _, laid⟩
  · intro s starts
    obtain ⟨defined, laid⟩ := initial s starts
    exact laid.exact defined
  · intro s e t inv stepped
    have defined := running s e t stepped
    rcases inv with lost | ⟨_, _, _, _, laid⟩
    · rw [defined] at lost
      simp at lost
    · rcases laid.step stepped with ⟨_, same, next⟩ | ⟨_, lost⟩
      · exact Or.inr ⟨same.trans defined, next⟩
      · exact Or.inl lost
  · intro s e t inv _ stepped
    have defined := running s e t stepped
    rcases inv with lost | ⟨_, _, _, _, laid⟩
    · rw [defined] at lost
      simp at lost
    · rcases laid.step stepped with ⟨fits, same, _, _, _, next⟩ | ⟨large, lost⟩
      · exact ⟨fun _ => fits, fun _ => next.exact (same.trans defined)⟩
      · constructor
        · intro delivered
          rw [delivered.defined] at lost
          simp at lost
        · intro fits
          rw [large] at fits
          simp at fits

def twoLevels : ChannelTree where
  channels path := decide (path = [] ∨ path = [2] ∨ path = [7, 2])
  root := by decide
  parent := by
    intro n path registered
    simp only [decide_eq_true_eq, List.cons.injEq, reduceCtorEq, false_or] at registered ⊢
    rcases registered with ⟨_, rfl⟩ | ⟨_, rfl⟩ <;> simp
  numbered := by
    intro n path registered
    simp only [decide_eq_true_eq, List.cons.injEq, reduceCtorEq, false_or] at registered
    rcases registered with ⟨rfl, _⟩ | ⟨rfl, _⟩ <;> decide

theorem routing_exact_nested :
    ∃ history s, Run (treeSystem twoLevels) history s ∧
      (∀ u, Visited history s u → u.Exact twoLevels) ∧ s.receivingQueues [7, 2] = [[1], [4]] ∧
      s.receivingQueues [2] = [[2]] ∧ s.receivingQueues [] = [[3, 3]] := by
  obtain ⟨history, s, run, _, fits, first, second, third⟩ :=
    Run.of_exec_guarded (treeSystem twoLevels) TreeLink.fits rfl
      (s := { maxPayloadSize := 65528 })
      [.send ⟨[7, 2], 1, [1]⟩, .send ⟨[2], 1, [2]⟩, .doSend, .send ⟨[], 1, [3, 3]⟩, .doReceive, .send ⟨[2], 0, [4]⟩,
        .send ⟨[7, 2], 1, [4]⟩, .doSend, .doReceive, .doReceive, .doReceive, .doReceive]
      ⟨65528, rfl⟩
      (fun s : TreeLink => s.receivingQueues [7, 2] = [[1], [4]] ∧ s.receivingQueues [2] = [[2]] ∧
        s.receivingQueues [] = [[3, 3]])
      (by decide +kernel)
  exact ⟨history, s, run, (routing_exact twoLevels run).mpr fits, first, second, third⟩

/-- The size check looks at the low 32 bits only: a packet of 2^32 + 5 bytes counts as 5. -/
theorem routing_lost_hugePacket :
    ∃ packet history s, packet.length = 2 ^ 32 + 5 ∧ Run (treeSystem twoLevels) history s ∧
      s.accepted = [⟨[], dataChannelNumber, packet⟩] ∧ ¬s.Exact twoLevels := by
  obtain ⟨packet, length⟩ : ∃ packet : Bytes, packet.length = 2 ^ 32 + 5 :=
    ⟨replicate (2 ^ 32 + 5) 0, length_replicate⟩
  have present : packet ≠ [] := by
    rintro rfl
    simp at length
  have size : ¬packetSize packet > 65528 := by
    rw [packetSize, length]
    decide
  have taken : sendPacketRaw 65528 [] 1 packet = some ⟨1, packet⟩ := by
    rw [sendPacketRaw, if_neg present, if_neg size]
  have sent : TreeLink.step twoLevels { maxPayloadSize := 65528 } (.send ⟨[], 1, packet⟩) =
      some { maxPayloadSize := 65528, sendingQueue := [⟨1, packet⟩], accepted := [⟨[], 1, packet⟩] } := by
    have allowed : TreeLink.sendable ⟨[], 1, packet⟩ = true := by simp [TreeLink.sendable, dataChannelNumber]
    simp only [TreeLink.step, taken, allowed, twoLevels]
    rfl
  have lost : TreeLink.step twoLevels
      { maxPayloadSize := 65528, sendingQueue := [⟨1, packet⟩], accepted := [⟨[], 1, packet⟩] } .doSend =
      some
        { maxPayloadSize := 65528, sendingQueue := [⟨1, packet⟩]
          accepted := [⟨[], 1, packet⟩], undefined := true } := by
    have large : ¬channelHeadSize + packet.length < 2 ^ 31 := by
      rw [length]
      decide
    simp only [TreeLink.step, TreeLink.doSend, if_neg large]
    rfl
  refine ⟨packet, _, _, length, .next (.next (.start ⟨65528, rfl⟩) sent) lost, rfl, fun delivered => ?_⟩
  have defined := delivered.defined
  simp at defined

end Qtng
