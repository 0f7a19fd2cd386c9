import Qtng.Channel.DataChannel

namespace Qtng

open BigEndian Transition List Option Bool

/-- What a command does to the gate goThrough of the end that handles it. -/
def turn (gate : Bool) : ChannelCommand → Bool
  | .slowDown => false
  | .goThrough => true
  | _ => gate

def settle (gate : Bool) (cs : List ChannelCommand) : Bool := cs.foldl turn gate

@[simp]
theorem settle_nil (gate : Bool) : settle gate [] = gate := rfl

@[simp]
theorem settle_append (gate : Bool) (xs ys : List ChannelCommand) :
    settle gate (xs ++ ys) = settle (settle gate xs) ys := foldl_append

theorem settle_singleton (gate : Bool) (c : ChannelCommand) : settle gate [c] = turn gate c := rfl

/-- A packet that is not about flow control and opens no sub-channel 0. -/
structure Neutral (p : WritingPacket) : Prop where
  turns : ∀ gate, settle gate (commandOf p).toList = gate
  makes : ∀ c ∈ commandOf p, c ≠ .makeChannel commandChannelNumber

theorem Neutral.of_ne {p : WritingPacket} (other : p.channelNumber ≠ commandChannelNumber) : Neutral p := by
  constructor
  · intro gate
    rw [commandOf_of_ne other]
    rfl
  · intro c member
    rw [commandOf_of_ne other] at member
    simp at member

theorem Neutral.of_command {packet : Bytes} {c : ChannelCommand} (command : unpackCommand packet = some c)
    (turns : ∀ gate, turn gate c = gate) (makes : c ≠ .makeChannel commandChannelNumber) :
    Neutral ⟨commandChannelNumber, packet⟩ := by
  have carried : commandOf ⟨commandChannelNumber, packet⟩ = some c := by rw [commandOf, if_pos rfl, command]
  constructor
  · intro gate
    rw [carried]
    exact turns gate
  · intro d member
    rw [carried] at member
    cases member
    exact makes

namespace SocketChannelPrivate

variable {d e : SocketChannelPrivate} {packet : Bytes}

/-- Packets are not empty and no sub-channel has the number of the commands. -/
structure Tidy (d : SocketChannelPrivate) : Prop where
  numbered : ∀ n ∈ d.subChannels, n ≠ commandChannelNumber
  queued : ∀ p ∈ d.sendingQueue, p.packet ≠ []
  makes : ∀ c ∈ commands d.sendingQueue, c ≠ .makeChannel commandChannelNumber

structure Still (d e : SocketChannelPrivate) : Prop where
  tidy : e.Tidy
  same : (e.error, e.slowDownRequested, e.goThrough, e.pluggedChannel, e.receivingQueue, e.arriving,
      e.maxPayloadSize) =
    (d.error, d.slowDownRequested, d.goThrough, d.pluggedChannel, d.receivingQueue, d.arriving, d.maxPayloadSize)
  settles : ∀ gate, settle gate (commands e.sendingQueue) = settle gate (commands d.sendingQueue)

theorem Still.trans {a b c : SocketChannelPrivate} (first : Still a b) (second : Still b c) : Still a c where
  tidy := second.tidy
  same := second.same.trans first.same
  settles gate := (second.settles gate).trans (first.settles gate)

theorem Tidy.still (tidy : d.Tidy) : Still d d := ⟨tidy, rfl, fun _ => rfl⟩

theorem sendPacketRaw_cases (d : SocketChannelPrivate) (channelNumber : UInt32) (packet : Bytes) :
    d.sendPacketRaw channelNumber packet = d ∨ packet ≠ [] ∧
      d.sendPacketRaw channelNumber packet =
        { d with sendingQueue := d.sendingQueue ++ [⟨channelNumber, packet⟩] } := by
  unfold sendPacketRaw
  split
  · exact .inl rfl
  · rename_i sendable
    split
    · exact .inl rfl
    · exact .inr ⟨fun empty => sendable (.inr empty), rfl⟩

theorem Tidy.enqueue (tidy : d.Tidy) {p : WritingPacket} (present : p.packet ≠ [])
    (makes : ∀ c ∈ commandOf p, c ≠ .makeChannel commandChannelNumber) :
    Tidy { d with sendingQueue := d.sendingQueue ++ [p] } := by
  refine ⟨tidy.numbered, ?_, ?_⟩
  · intro q member
    rcases mem_append.mp member with old | new
    · exact tidy.queued q old
    · rw [mem_singleton.mp new]
      exact present
  · intro c member
    rw [commands_append, commands_singleton] at member
    rcases mem_append.mp member with old | new
    · exact tidy.makes c old
    · exact makes c (mem_toList.mp new)

theorem Tidy.send (tidy : d.Tidy) {channelNumber : UInt32}
    (neutral : Neutral ⟨channelNumber, packet⟩) : Still d (d.sendPacketRaw channelNumber packet) := by
  rcases d.sendPacketRaw_cases channelNumber packet with same | ⟨present, queued⟩
  · rw [same]
    exact tidy.still
  · rw [queued]
    refine ⟨tidy.enqueue present neutral.makes, rfl, fun gate => ?_⟩
    rw [commands_append, commands_singleton, settle_append, neutral.turns]

theorem Tidy.purge (tidy : d.Tidy) {m : UInt32} (numbered : m ≠ commandChannelNumber) :
    Still d (d.cleanSendingPacket m) := by
  have kept : commands (d.cleanSendingPacket m).sendingQueue = commands d.sendingQueue := commands_filter numbered _
  refine ⟨⟨tidy.numbered, ?_, ?_⟩, rfl, fun gate => by rw [kept]⟩
  · intro p member
    exact tidy.queued p (mem_filter.mp member).1
  · rw [kept]
    exact tidy.makes

theorem Tidy.erase (tidy : d.Tidy) (m : UInt32) :
    Still d { d with subChannels := d.subChannels.erase m } := by
  refine ⟨⟨?_, tidy.queued, tidy.makes⟩, rfl, fun _ => rfl⟩
  intro n member
  exact tidy.numbered n (Finset.mem_of_mem_erase member)

theorem neutral_made (m : UInt32) : Neutral ⟨commandChannelNumber, packChannelMadeRequest m⟩ :=
  .of_command (unpackCommand_made m) (fun _ => rfl) (by simp)

theorem neutral_destroy (m : UInt32) : Neutral ⟨commandChannelNumber, packDestoryChannelRequest m⟩ :=
  .of_command (unpackCommand_destroy m) (fun _ => rfl) (by simp)

theorem Tidy.clean (tidy : d.Tidy) (m : UInt32) (sendDestroyPacket : Bool) :
    Still d (d.cleanChannel m sendDestroyPacket) := by
  unfold cleanChannel
  split
  · rename_i member
    have numbered := tidy.numbered m member
    have erased := tidy.erase m
    have notified : Still { d with subChannels := d.subChannels.erase m }
        (if sendDestroyPacket then notifyChannelClose { d with subChannels := d.subChannels.erase m } m
          else { d with subChannels := d.subChannels.erase m }) := by
      split
      · unfold notifyChannelClose
        split
        · exact erased.tidy.still
        · exact erased.tidy.send (neutral_destroy m)
      · exact erased.tidy.still
    exact (erased.trans notified).trans (notified.tidy.purge numbered)
  · exact tidy.still

theorem Tidy.drop (tidy : d.Tidy) (pending : List UInt32) :
    Still d (d.dropPending pending) := by
  induction pending generalizing d with
  | nil => exact ⟨⟨tidy.numbered, tidy.queued, tidy.makes⟩, rfl, fun _ => rfl⟩
  | cons oldest rest ih =>
    simp only [dropPending]
    split
    · have closed := tidy.clean oldest true
      exact closed.trans (ih closed.tidy)
    · exact ⟨⟨tidy.numbered, tidy.queued, tidy.makes⟩, rfl, fun _ => rfl⟩

theorem Tidy.pend (tidy : d.Tidy) (m : UInt32) : Still d (d.enqueuePendingChannel m) := by
  simp only [enqueuePendingChannel]
  split
  · exact ⟨⟨tidy.numbered, tidy.queued, tidy.makes⟩, rfl, fun _ => rfl⟩
  · exact tidy.drop _

theorem Tidy.register (tidy : d.Tidy) {m : UInt32}
    (numbered : m ≠ commandChannelNumber) : Still d (d.makeChannelInternal m) := by
  refine ⟨⟨?_, tidy.queued, tidy.makes⟩, rfl, fun _ => rfl⟩
  intro n member
  rcases Finset.mem_insert.mp member with new | old
  · rw [new]
    exact numbered
  · exact tidy.numbered n old

/-- The commands about sub-channels have nothing to do with flow control; the others
turn the gate. -/
theorem Tidy.handle (tidy : d.Tidy)
    (makes : ∀ c ∈ commandOf ⟨commandChannelNumber, packet⟩, c ≠ .makeChannel commandChannelNumber)
    (handled : d.handleCommand packet = some e) :
    Still { d with goThrough := settle d.goThrough (commandOf ⟨commandChannelNumber, packet⟩).toList } e := by
  have carried : commandOf ⟨commandChannelNumber, packet⟩ = unpackCommand packet := if_pos rfl
  have at_rest : ∀ gate, Tidy { d with goThrough := gate } := fun _ => ⟨tidy.numbered, tidy.queued, tidy.makes⟩
  rw [carried] at makes ⊢
  unfold handleCommand at handled
  cases unpacked : unpackCommand packet with
  | none => simp [unpacked] at handled
  | some c =>
    rw [unpacked] at makes handled
    simp only [toList_some, settle_singleton]
    cases c with
    | makeChannel m =>
      have numbered : m ≠ commandChannelNumber := by
        rintro rfl
        exact makes _ rfl rfl
      obtain ⟨_, same⟩ := ite_none_left_eq_some.mp handled
      cases same
      have registered := tidy.register numbered
      have sent := registered.tidy.send (neutral_made m)
      exact (registered.trans sent).trans (sent.tidy.pend m)
    | channelMade m =>
      simp only at handled
      split at handled
      · cases handled
        exact tidy.still
      · cases handled
        exact tidy.send (neutral_destroy m)
    | destroyChannel m =>
      cases handled
      exact tidy.clean m false
    | slowDown =>
      cases handled
      exact (at_rest false).still
    | goThrough =>
      cases handled
      exact (at_rest true).still
    | keepalive =>
      cases handled
      exact tidy.still
    | unknown command =>
      obtain ⟨_, same⟩ := ite_none_left_eq_some.mp handled
      cases same
      exact tidy.still

structure Stocked (d : SocketChannelPrivate) : Prop extends Tidy d where
  room : 56 ≤ d.maxPayloadSize
  stored : ∀ packet ∈ d.receivingQueue.queue, packet ≠ []
  held : ∀ packet ∈ d.arriving, packet ≠ []
  size : d.receivingQueue.currentSize = (d.receivingQueue.queue.map packetSize).sum
  through : d.pluggedChannel = true → d.goThrough = true

/-- As long as an end slows its peer down there is something to take out. -/
structure Sane (d : SocketChannelPrivate) : Prop extends Stocked d where
  busy : d.slowDownRequested = true → d.receivingQueue.queue ≠ [] ∨ d.arriving ≠ none

/-- A step of an end, with the commands that it has read. Unless it slows the peer down,
the peer's gate will be open once all commands have arrived. -/
structure Moves (heard : List ChannelCommand) (d e : SocketChannelPrivate) : Prop where
  sane : e.Sane
  gate : e.pluggedChannel = false → d.pluggedChannel = false ∧ e.goThrough = settle d.goThrough heard
  releases : ∀ gate, (d.slowDownRequested = false → settle gate (commands d.sendingQueue) = true) →
    e.slowDownRequested = false → settle gate (commands e.sendingQueue) = true

theorem Still.sane (still : Still d e) (sane : d.Sane) : e.Sane := by
  have same := still.same
  simp only [Prod.mk.injEq] at same
  obtain ⟨_, slow, gate, plugged, queue, arriving, limit⟩ := same
  refine ⟨⟨still.tidy, ?_, ?_, ?_, ?_, ?_⟩, ?_⟩
  · rw [limit]
    exact sane.room
  · rw [queue]
    exact sane.stored
  · rw [arriving]
    exact sane.held
  · rw [queue]
    exact sane.size
  · rw [plugged, gate]
    exact sane.through
  · rw [slow, queue, arriving]
    exact sane.busy

theorem Still.moves (still : Still d e) (sane : d.Sane) : Moves [] d e := by
  have same := still.same
  simp only [Prod.mk.injEq] at same
  obtain ⟨_, slow, gate, plugged, _⟩ := same
  refine ⟨still.sane sane, fun free => ⟨plugged ▸ free, gate⟩, fun g before free => ?_⟩
  rw [still.settles]
  exact before (slow ▸ free)

theorem Sane.send_short (alive : d.error = none) (room : 56 ≤ d.maxPayloadSize)
    (short : packet.length = 1) : d.sendPacketRaw commandChannelNumber packet =
      { d with sendingQueue := d.sendingQueue ++ [⟨commandChannelNumber, packet⟩] } := by
  have present : packet ≠ [] := by
    rintro rfl
    simp at short
  have small : packetSize packet ≤ d.maxPayloadSize := by
    rw [packetSize, short]
    exact UInt32.le_trans (by decide) room
  rw [sendPacketRaw, if_neg (by simp [alive, present]), if_neg (UInt32.not_lt.mpr small)]

theorem Stocked.put (stocked : d.Stocked) (free : d.arriving = none) {payload : Bytes}
    (present : payload ≠ []) : (d.putReceiving payload).Sane := by
  have tidy := stocked.toTidy
  unfold putReceiving
  split
  · refine ⟨⟨⟨tidy.numbered, tidy.queued, tidy.makes⟩, stocked.room, ?_, by simp [free], ?_, stocked.through⟩, ?_⟩
    · intro packet member
      simp only [SizedQueueType.push, false_eq_true, if_false] at member
      rcases mem_append.mp member with old | new
      · exact stocked.stored packet old
      · rw [mem_singleton.mp new]
        exact present
    · simp only [SizedQueueType.push, false_eq_true, if_false, map_append, sum_append, stocked.size]
      simp
    · simp [SizedQueueType.push]
  · refine ⟨⟨⟨tidy.numbered, tidy.queued, tidy.makes⟩, stocked.room, stocked.stored, ?_, stocked.size,
      stocked.through⟩, by simp⟩
    intro packet member
    cases member
    exact present

theorem putReceiving_frame (d : SocketChannelPrivate) (payload : Bytes) :
    (d.putReceiving payload).pluggedChannel = d.pluggedChannel ∧ (d.putReceiving payload).goThrough = d.goThrough ∧
      (d.putReceiving payload).slowDownRequested = d.slowDownRequested ∧
      (d.putReceiving payload).sendingQueue = d.sendingQueue ∧ (d.putReceiving payload).error = d.error := by
  unfold putReceiving
  split <;> exact ⟨rfl, rfl, rfl, rfl, rfl⟩

theorem Sane.slow (sane : d.Sane) : Stocked { d with
    slowDownRequested := true
    sendingQueue := d.sendingQueue ++ [⟨commandChannelNumber, packSlowDownRequest⟩] } := by
  have harmless : ∀ c ∈ commandOf ⟨commandChannelNumber, packSlowDownRequest⟩,
      c ≠ .makeChannel commandChannelNumber := by decide
  have tidy := sane.toTidy.enqueue (p := ⟨commandChannelNumber, packSlowDownRequest⟩) (by decide) harmless
  exact ⟨⟨tidy.numbered, tidy.queued, tidy.makes⟩, sane.room, sane.stored, sane.held, sane.size, sane.through⟩

theorem Sane.receive_data (sane : d.Sane) (alive : d.error = none)
    (free : d.arriving = none) {payload : Bytes} (present : payload ≠ []) (direct : d.pluggedChannel = false) :
    Moves [] d (d.handleIncomingPacket dataChannelNumber payload).1 := by
  rw [handleIncomingPacket, if_neg (by simp [direct]), if_pos rfl]
  show Moves [] d (putReceiving (if _ then _ else _) payload)
  split
  · -- the peer is slowed down, and something is in the queue from now on
    rw [Sane.send_short (d := { d with slowDownRequested := true }) alive sane.room rfl]
    obtain ⟨plugged, gate, slow, _⟩ := putReceiving_frame
      { d with
        slowDownRequested := true
        sendingQueue := d.sendingQueue ++ [⟨commandChannelNumber, packSlowDownRequest⟩] } payload
    refine ⟨sane.slow.put free present, ?_, ?_⟩
    · rw [plugged, gate]
      exact fun _ => ⟨direct, rfl⟩
    · rw [slow]
      simp
  · obtain ⟨plugged, gate, slow, queue, _⟩ := putReceiving_frame d payload
    refine ⟨sane.toStocked.put free present, ?_, ?_⟩
    · rw [plugged, gate]
      exact fun _ => ⟨direct, rfl⟩
    · rw [slow, queue]
      exact fun gate before free => before free

theorem abort_error (reason : ChannelError) : (d.abort reason).error ≠ none := by
  unfold abort
  split
  · assumption
  · simp

theorem Sane.receive (sane : d.Sane) (alive : d.error = none) (free : d.arriving = none)
    {frame : WritingPacket} (present : frame.packet ≠ [])
    (makes : ∀ c ∈ commandOf frame, c ≠ .makeChannel commandChannelNumber)
    (unbroken : (d.doReceive frame).error = none) : Moves (commandOf frame).toList d (d.doReceive frame) := by
  obtain ⟨channelNumber, payload⟩ := frame
  unfold doReceive at unbroken ⊢
  split at unbroken
  · exact absurd unbroken (abort_error _)
  rename_i fits
  rw [if_neg fits]
  generalize result : d.handleIncomingPacket channelNumber payload = handled at unbroken
  obtain ⟨e, reason⟩ := handled
  cases reason with
  | some reason => exact absurd unbroken (abort_error _)
  | none =>
    show Moves _ d e
    by_cases direct : d.pluggedChannel = true
    · rw [handleIncomingPacket, if_pos direct] at result
      cases result
      exact ⟨sane, fun plain => absurd direct (by simp [plain]), fun _ before => before⟩
    · by_cases data : channelNumber = dataChannelNumber
      · subst data
        have other : dataChannelNumber ≠ commandChannelNumber := by decide
        have moves := sane.receive_data alive free present (not_eq_true _ ▸ direct)
        rw [result] at moves
        rw [commandOf_of_ne other]
        exact moves
      · rw [handleIncomingPacket, if_neg direct, if_neg data] at result
        by_cases command : channelNumber = commandChannelNumber
        · subst command
          rw [if_pos rfl] at result
          split at result
          · simp at result
          · rename_i next handled
            cases result
            have still := sane.toTidy.handle makes handled
            have turned : Sane
                { d with goThrough := settle d.goThrough (commandOf ⟨commandChannelNumber, payload⟩).toList } :=
              ⟨⟨⟨sane.numbered, sane.queued, sane.makes⟩, sane.room, sane.stored, sane.held, sane.size,
                fun plugged => absurd plugged direct⟩, sane.busy⟩
            have moves := still.moves turned
            exact ⟨moves.sane, fun free => ⟨not_eq_true _ ▸ direct, (moves.gate free).2⟩, moves.releases⟩
        · rw [if_neg command] at result
          have same : e = d := by
            split at result
            · split at result
              · simp at result
              · exact (congrArg Prod.fst result).symm
            · exact (congrArg Prod.fst result).symm
          subst same
          rw [commandOf_of_ne command]
          exact sane.toTidy.still.moves sane

/-- The condition on the actions of an end: a channel is handed to exchange only while
neither end slows the other one down, what comes through a plugged channel slows nobody
down, and no sub-channel gets the number of the commands. -/
def orderly (d : SocketChannelPrivate) : ChannelAction → Bool
  | .exchange => decide (d.slowDownRequested = false ∧ d.goThrough = true)
  | .forward channelNumber packet =>
    decide (commandOf ⟨channelNumber, packet⟩ ≠ some .slowDown ∧
      commandOf ⟨channelNumber, packet⟩ ≠ some (.makeChannel commandChannelNumber))
  | .makeChannel => decide (d.nextChannelNumber ≠ commandChannelNumber)
  | _ => true

theorem sendPacketRaw_error (d : SocketChannelPrivate) (channelNumber : UInt32) (packet : Bytes) :
    (d.sendPacketRaw channelNumber packet).error = d.error := by
  rcases d.sendPacketRaw_cases channelNumber packet with same | ⟨_, same⟩ <;> rw [same]

theorem cleanChannel_error (d : SocketChannelPrivate) (m : UInt32) (sendDestroyPacket : Bool) :
    (d.cleanChannel m sendDestroyPacket).error = d.error := by
  unfold cleanChannel
  split
  · show (if sendDestroyPacket then notifyChannelClose _ m else _).error = d.error
    split
    · unfold notifyChannelClose
      split
      · rfl
      · exact sendPacketRaw_error _ _ _
    · rfl
  · rfl

theorem recvPacket_cases (received : d.recvPacket = some e) :
    ∃ packet rest, d.receivingQueue.queue = packet :: rest ∧
      (e = { d with receivingQueue := d.receivingQueue.pop packetSize packet rest } ∧
          (packet = [] ∨ ¬(d.slowDownRequested = true ∧
            d.receivingQueue.currentSize - packetSize packet ≤ d.receivingQueue.mCapacity / 2)) ∨
        e = { d with
          receivingQueue := d.receivingQueue.pop packetSize packet rest
          slowDownRequested := false }.sendPacketRaw commandChannelNumber packGoThroughRequest) := by
  unfold recvPacket at received
  split at received
  · simp at received
  · rename_i packet rest queued
    refine ⟨packet, rest, queued, ?_⟩
    simp only at received
    split at received
    · rename_i empty
      exact .inl ⟨(some.inj received).symm, .inl empty⟩
    · split at received
      · exact .inr (some.inj received).symm
      · rename_i high
        exact .inl ⟨(some.inj received).symm, .inr high⟩

theorem perform_error {action : ChannelAction} (performed : d.perform action = some e) :
    e.error = d.error := by
  cases action with
  | makeChannel | sendThrough | forward =>
    obtain ⟨_, same⟩ := ite_none_right_eq_some.mp performed
    cases same
    exact sendPacketRaw_error _ _ _
  | abortChannel m =>
    obtain ⟨_, same⟩ := ite_none_right_eq_some.mp performed
    cases same
    exact cleanChannel_error _ _ _
  | takeChannel | doKeepalive | exchange =>
    obtain ⟨_, same⟩ := ite_none_right_eq_some.mp performed
    cases same
    rfl
  | setMaxPendingChannels count =>
    cases performed
    rfl
  | sendPacketAsync packet =>
    cases performed
    exact sendPacketRaw_error _ _ _
  | unblock =>
    simp only [perform] at performed
    split at performed
    · obtain ⟨_, same⟩ := ite_none_right_eq_some.mp performed
      cases same
      exact (putReceiving_frame _ _).2.2.2.2
    · simp at performed
  | recvPacket =>
    obtain ⟨packet, rest, _, same⟩ := recvPacket_cases performed
    rcases same with ⟨rfl, _⟩ | rfl
    · rfl
    · exact sendPacketRaw_error _ _ _

theorem drain_queue (q : SizedQueueType Bytes) (packets : List Bytes) (queued : q.queue = packets)
    (size : q.currentSize = (packets.map packetSize).sum) :
    (drain q packets).queue = [] ∧ (drain q packets).currentSize = 0 := by
  induction packets generalizing q with
  | nil => exact ⟨queued, size⟩
  | cons packet rest ih =>
    refine ih _ rfl ?_
    simp [SizedQueueType.pop, size]

/-- Taking a packet out: either the peer stays slowed down and the queue is not empty,
or it is released. -/
theorem Sane.recv (sane : d.Sane) (alive : d.error = none) (received : d.recvPacket = some e) : Moves [] d e := by
  obtain ⟨packet, rest, queued, result⟩ := recvPacket_cases received
  have size : d.receivingQueue.currentSize - packetSize packet = (rest.map packetSize).sum := by
    rw [sane.size, queued, map_cons, sum_cons, add_sub_cancel_left]
  have stored : ∀ other ∈ rest, other ≠ [] := by
    intro other member
    exact sane.stored other (queued ▸ mem_cons_of_mem packet member)
  have present : packet ≠ [] := sane.stored packet (queued ▸ mem_cons_self)
  rcases result with ⟨same, high⟩ | same
  · subst same
    refine ⟨⟨⟨⟨sane.numbered, sane.queued, sane.makes⟩, sane.room, stored, sane.held, size, sane.through⟩, ?_⟩,
      fun free => ⟨free, rfl⟩, fun _ before => before⟩
    intro slow
    have above := high.resolve_left present
    refine .inl fun empty => above ⟨slow, ?_⟩
    have none : rest = [] := empty
    rw [size, none]
    exact UInt32.zero_le
  · rw [Sane.send_short (d := { d with
      receivingQueue := d.receivingQueue.pop packetSize packet rest, slowDownRequested := false })
      alive sane.room rfl] at same
    subst same
    have harmless : ∀ c ∈ commandOf ⟨commandChannelNumber, packGoThroughRequest⟩,
        c ≠ .makeChannel commandChannelNumber := by decide
    have tidy := sane.toTidy.enqueue (p := ⟨commandChannelNumber, packGoThroughRequest⟩) (by decide) harmless
    refine ⟨⟨⟨⟨tidy.numbered, tidy.queued, tidy.makes⟩, sane.room, stored, sane.held, size, sane.through⟩, by simp⟩,
      fun free => ⟨free, rfl⟩, fun gate _ _ => ?_⟩
    have opened : commandOf ⟨commandChannelNumber, packGoThroughRequest⟩ = some .goThrough := by decide
    simp only [commands_append, commands_singleton, settle_append, opened]
    rfl

theorem Sane.make (sane : d.Sane) (numbered : d.nextChannelNumber ≠ commandChannelNumber) :
    Still d d.makeChannel := by
  have registered := sane.toTidy.register numbered
  have neutral : Neutral ⟨commandChannelNumber, packMakeChannelRequest d.nextChannelNumber⟩ :=
    .of_command (unpackCommand_make _) (fun _ => rfl) (by simpa using numbered)
  have counted : Tidy { d.makeChannelInternal d.nextChannelNumber with
      nextChannelNumber := d.pole.after d.nextChannelNumber, made := d.made + 1 } :=
    ⟨registered.tidy.numbered, registered.tidy.queued, registered.tidy.makes⟩
  have sent := counted.send neutral
  exact ⟨sent.tidy, sent.same, sent.settles⟩

theorem Sane.plug (sane : d.Sane) (slow : d.slowDownRequested = false)
    (gate : d.goThrough = true) : Moves [] d d.exchange := by
  obtain ⟨empty, nothing⟩ := drain_queue d.receivingQueue d.receivingQueue.queue rfl sane.size
  refine ⟨⟨⟨⟨sane.numbered, sane.queued, sane.makes⟩, sane.room, ?_, sane.held, ?_, fun _ => gate⟩, ?_⟩, ?_,
    fun _ before => before⟩
  · intro packet member
    simp [exchange, empty] at member
  · simp [exchange, empty, nothing]
  · simp [exchange, slow]
  · simp [exchange]

theorem Sane.act {action : ChannelAction} (sane : d.Sane) (alive : d.error = none)
    (performed : d.perform action = some e) (orderly : d.orderly action = true) : Moves [] d e := by
  have tidy := sane.toTidy
  cases action with
  | makeChannel =>
    obtain ⟨_, same⟩ := ite_none_right_eq_some.mp performed
    cases same
    exact (sane.make (of_decide_eq_true orderly)).moves sane
  | abortChannel m =>
    obtain ⟨_, same⟩ := ite_none_right_eq_some.mp performed
    cases same
    exact (tidy.clean m true).moves sane
  | takeChannel m =>
    obtain ⟨_, same⟩ := ite_none_right_eq_some.mp performed
    cases same
    exact Still.moves ⟨⟨tidy.numbered, tidy.queued, tidy.makes⟩, rfl, fun _ => rfl⟩ sane
  | setMaxPendingChannels count =>
    cases performed
    exact Still.moves ⟨⟨tidy.numbered, tidy.queued, tidy.makes⟩, rfl, fun _ => rfl⟩ sane
  | sendPacketAsync packet =>
    cases performed
    have other : dataChannelNumber ≠ commandChannelNumber := by decide
    exact (tidy.send (.of_ne other)).moves sane
  | sendThrough subChannel channelNumber packet =>
    obtain ⟨⟨other, _⟩, same⟩ := ite_none_right_eq_some.mp performed
    cases same
    exact (tidy.send (.of_ne other)).moves sane
  | doKeepalive =>
    obtain ⟨_, same⟩ := ite_none_right_eq_some.mp performed
    cases same
    have neutral : Neutral ⟨commandChannelNumber, packKeepaliveRequest⟩ :=
      .of_command unpackCommand_keepalive (fun _ => rfl) (by simp)
    refine Still.moves ⟨tidy.enqueue (by decide) neutral.makes, rfl, fun gate => ?_⟩ sane
    rw [commands_append, commands_singleton, settle_append, neutral.turns]
  | unblock =>
    simp only [perform] at performed
    split at performed
    · rename_i payload held
      obtain ⟨_, same⟩ := ite_none_right_eq_some.mp performed
      cases same
      obtain ⟨plugged, gate, slow, queue, _⟩ := putReceiving_frame { d with arriving := none } payload
      have stocked : Stocked { d with arriving := none } :=
        ⟨⟨tidy.numbered, tidy.queued, tidy.makes⟩, sane.room, sane.stored, by simp, sane.size, sane.through⟩
      refine ⟨stocked.put rfl (sane.held payload held), ?_, ?_⟩
      · rw [plugged, gate]
        exact fun free => ⟨free, rfl⟩
      · rw [slow, queue]
        exact fun _ before => before
    · simp at performed
  | recvPacket => exact sane.recv alive performed
  | exchange =>
    obtain ⟨_, same⟩ := ite_none_right_eq_some.mp performed
    cases same
    obtain ⟨slow, gate⟩ := of_decide_eq_true orderly
    exact sane.plug slow gate
  | forward channelNumber packet =>
    obtain ⟨plugged, same⟩ := ite_none_right_eq_some.mp performed
    cases same
    obtain ⟨quiet, makes⟩ := of_decide_eq_true orderly
    rcases d.sendPacketRaw_cases channelNumber packet with same | ⟨present, same⟩
    · rw [same]
      exact tidy.still.moves sane
    · rw [same]
      have queued := tidy.enqueue (p := ⟨channelNumber, packet⟩) present fun c member wrong => makes (wrong ▸ member)
      refine ⟨⟨⟨queued, sane.room, sane.stored, sane.held, sane.size, sane.through⟩, sane.busy⟩,
        fun free => ⟨free, rfl⟩, fun gate before free => ?_⟩
      rw [commands_append, commands_singleton, settle_append, before free]
      cases carried : commandOf ⟨channelNumber, packet⟩ with
      | none => rfl
      | some c =>
        cases c with
        | slowDown => exact absurd carried quiet
        | _ => rfl

end SocketChannelPrivate

end Qtng
