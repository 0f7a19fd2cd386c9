import Qtng.Channel.SubChannels

namespace Qtng

open BigEndian Transition Option List

def about (n : UInt32) : ChannelCommand → Option SubCommand
  | .makeChannel m => if m = n then some .make else none
  | .channelMade m => if m = n then some .made else none
  | .destroyChannel m => if m = n then some .destroy else none
  | _ => none

def notice (n : UInt32) (p : WritingPacket) : Option SubCommand := (commandOf p).bind (about n)

def notices (n : UInt32) (packets : List WritingPacket) : List SubCommand := (commands packets).filterMap (about n)

theorem notice_command {packet : Bytes} {c : ChannelCommand} (command : unpackCommand packet = some c) (n : UInt32) :
    notice n ⟨commandChannelNumber, packet⟩ = about n c := by
  simp [notice, commandOf, command]

theorem notice_of_ne {p : WritingPacket} (other : p.channelNumber ≠ commandChannelNumber) (n : UInt32) :
    notice n p = none := by
  rw [notice, commandOf_of_ne other, bind_none]

@[simp]
theorem notices_append (n : UInt32) (xs ys : List WritingPacket) :
    notices n (xs ++ ys) = notices n xs ++ notices n ys := by
  rw [notices, commands_append, filterMap_append, notices, notices]

theorem notices_cons (n : UInt32) (p : WritingPacket) (rest : List WritingPacket) :
    notices n (p :: rest) = (notice n p).toList ++ notices n rest := by
  simp only [notices, commands_cons, filterMap_append, notice]
  cases commandOf p with
  | none => rfl
  | some c =>
    cases told : about n c <;> simp [told]

@[simp]
theorem notices_singleton (n : UInt32) (p : WritingPacket) : notices n [p] = (notice n p).toList := by
  rw [notices_cons]
  exact append_nil _

structure Fair (limit : UInt32) (p : WritingPacket) : Prop where
  size : packetSize p.packet ≤ limit
  command : p.channelNumber = commandChannelNumber →
    ∃ c, unpackCommand p.packet = some c ∧ ∀ code, c ≠ .unknown code
  nested : p.channelNumber ≠ commandChannelNumber → p.channelNumber ≠ dataChannelNumber → 4 ≤ p.packet.length

def ChannelAction.payload : ChannelAction → Option Bytes
  | .sendPacketAsync packet => some packet
  | .sendThrough _ channelNumber packet => some (word32 channelNumber ++ packet)
  | _ => none

namespace SocketChannelPrivate

variable {d e : SocketChannelPrivate} {packet : Bytes} {m : UInt32}

def station (d : SocketChannelPrivate) (n : UInt32) : Station :=
  (decide (n ∈ d.subChannels), notices n d.sendingQueue)

/-- An end that is not broken and can send its commands. The limit is the smaller one of
the two ends. -/
structure Ready (limit : UInt32) (d : SocketChannelPrivate) : Prop where
  alive : d.error = none
  room : 56 ≤ limit
  within : limit ≤ d.maxPayloadSize
  direct : d.pluggedChannel = false
  numbered : ∀ n ∈ d.subChannels, n ≠ commandChannelNumber
  fair : ∀ p ∈ d.sendingQueue, Fair limit p

variable {limit : UInt32}

/-- A step that leaves an end ready and changes neither its numbering nor its limits. -/
structure Keeps (limit : UInt32) (d e : SocketChannelPrivate) : Prop where
  ready : e.Ready limit
  pole : e.pole = d.pole
  next : e.nextChannelNumber = d.nextChannelNumber
  made : e.made = d.made
  kept : e.maxPayloadSize = d.maxPayloadSize

structure Own (limit : UInt32) (d e : SocketChannelPrivate) : Prop extends Keeps limit d e where
  quiet : ∀ n, Quiet (d.station n) (e.station n)

theorem Keeps.trans {a b c : SocketChannelPrivate} (first : Keeps limit a b) (second : Keeps limit b c) :
    Keeps limit a c where
  ready := second.ready
  pole := second.pole.trans first.pole
  next := second.next.trans first.next
  made := second.made.trans first.made
  kept := second.kept.trans first.kept

theorem Own.trans {a b c : SocketChannelPrivate} (first : Own limit a b) (second : Own limit b c) : Own limit a c where
  toKeeps := first.toKeeps.trans second.toKeeps
  quiet n := (first.quiet n).trans (second.quiet n)

theorem Ready.keeps (ready : d.Ready limit) : Keeps limit d d := ⟨ready, rfl, rfl, rfl, rfl⟩

theorem Ready.own (ready : d.Ready limit) : Own limit d d := ⟨ready.keeps, fun _ => .same _⟩

theorem Ready.own_of_eq (ready : d.Ready limit) (queue : e.sendingQueue = d.sendingQueue)
    (subs : e.subChannels = d.subChannels)
    (rest : (e.error, e.pluggedChannel, e.pole, e.nextChannelNumber, e.made, e.maxPayloadSize) =
      (d.error, d.pluggedChannel, d.pole, d.nextChannelNumber, d.made, d.maxPayloadSize)) : Own limit d e := by
  simp only [Prod.mk.injEq] at rest
  obtain ⟨error, plugged, pole, next, made, kept⟩ := rest
  refine ⟨⟨⟨?_, ?_, ?_, ?_, ?_, ?_⟩, pole, next, made, kept⟩, fun n => ?_⟩
  · rw [error, ready.alive]
  · exact ready.room
  · rw [kept]
    exact ready.within
  · rw [plugged, ready.direct]
  · rw [subs]
    exact ready.numbered
  · rw [queue]
    exact ready.fair
  · rw [station, station, queue, subs]
    exact .same _

theorem Ready.enqueue (ready : d.Ready limit) {p : WritingPacket}
    (fair : Fair limit p) : Keeps limit d { d with sendingQueue := d.sendingQueue ++ [p] } := by
  refine ⟨⟨ready.alive, ready.room, ready.within, ready.direct, ready.numbered, ?_⟩, rfl, rfl, rfl, rfl⟩
  intro q member
  rcases mem_append.mp member with old | new
  · exact ready.fair q old
  · rw [mem_singleton.mp new]
    exact fair

theorem station_enqueue (d : SocketChannelPrivate) (p : WritingPacket) (n : UInt32) :
    { d with sendingQueue := d.sendingQueue ++ [p] }.station n =
      ((d.station n).1, (d.station n).2 ++ (notice n p).toList) := by
  simp [station]

theorem Ready.send_silent (ready : d.Ready limit) {channelNumber : UInt32}
    (fair : packetSize packet ≤ d.maxPayloadSize → Fair limit ⟨channelNumber, packet⟩)
    (silent : ∀ n, notice n ⟨channelNumber, packet⟩ = none) : Own limit d (d.sendPacketRaw channelNumber packet) := by
  unfold sendPacketRaw
  split
  · exact ready.own
  · split
    · exact ready.own
    · rename_i fits
      refine ⟨ready.enqueue (fair (UInt32.not_lt.mp fits)), fun n => ?_⟩
      rw [station_enqueue, silent n, toList_none, append_nil]
      exact .same _

structure Request (packet : Bytes) : Prop where
  length : packet.length = 5
  known : ∃ c, unpackCommand packet = some c ∧ ∀ code, c ≠ .unknown code

theorem request_make (n : UInt32) : Request (packMakeChannelRequest n) :=
  ⟨rfl, _, unpackCommand_make n, by simp⟩

theorem request_made (n : UInt32) : Request (packChannelMadeRequest n) :=
  ⟨rfl, _, unpackCommand_made n, by simp⟩

theorem request_destroy (n : UInt32) : Request (packDestoryChannelRequest n) :=
  ⟨rfl, _, unpackCommand_destroy n, by simp⟩

variable (ready : d.Ready limit)
include ready

theorem Ready.send_request (request : Request packet) :
    d.sendPacketRaw commandChannelNumber packet =
        { d with sendingQueue := d.sendingQueue ++ [⟨commandChannelNumber, packet⟩] } ∧
      Keeps limit d { d with sendingQueue := d.sendingQueue ++ [⟨commandChannelNumber, packet⟩] } := by
  have small : packetSize packet ≤ limit := by
    rw [packetSize, request.length]
    exact UInt32.le_trans (by decide) ready.room
  have present : packet ≠ [] := by
    intro empty
    have length := request.length
    simp [empty] at length
  constructor
  · rw [sendPacketRaw, if_neg (by simp [ready.alive, present]),
      if_neg (UInt32.not_lt.mpr (UInt32.le_trans small ready.within))]
  · exact ready.enqueue ⟨small, fun _ => request.known, fun other => absurd rfl other⟩

theorem Ready.purge (numbered : m ≠ commandChannelNumber) :
    Own limit d (d.cleanSendingPacket m) := by
  refine ⟨⟨⟨ready.alive, ready.room, ready.within, ready.direct, ready.numbered, ?_⟩, rfl, rfl, rfl, rfl⟩, fun n => ?_⟩
  · intro p member
    exact ready.fair p (mem_filter.mp member).1
  · simp only [station, cleanSendingPacket, notices, commands_filter numbered]
    exact .same _

theorem Ready.erase (m : UInt32) :
    Keeps limit d { d with subChannels := d.subChannels.erase m } := by
  refine ⟨⟨ready.alive, ready.room, ready.within, ready.direct, ?_, ready.fair⟩, rfl, rfl, rfl, rfl⟩
  intro n member
  exact ready.numbered n (Finset.mem_of_mem_erase member)

theorem Ready.clean_notify (m : UInt32) :
    Own limit d (d.cleanChannel m true) := by
  by_cases member : m ∈ d.subChannels
  · have numbered := ready.numbered m member
    have erased := ready.erase m
    obtain ⟨queued, sent⟩ := erased.ready.send_request (request_destroy m)
    have result : d.cleanChannel m true =
        ({ d with subChannels := d.subChannels.erase m }.sendPacketRaw commandChannelNumber
          (packDestoryChannelRequest m)).cleanSendingPacket m := by
      rw [cleanChannel, if_pos member]
      simp only [if_true]
      rw [notifyChannelClose, if_neg (fun broken => broken erased.ready.alive)]
    rw [result, queued]
    refine ⟨(erased.trans sent).trans (sent.ready.purge numbered).toKeeps, fun n => ?_⟩
    refine Quiet.trans ?_ ((sent.ready.purge numbered).quiet n)
    rw [station_enqueue]
    by_cases same : m = n
    · subst same
      have before : d.station m = (true, notices m d.sendingQueue) := by simp [station, member]
      have after : { d with subChannels := d.subChannels.erase m }.station m = (false, notices m d.sendingQueue) := by
        simp [station]
      rw [before, after]
      simp only [notice_command (unpackCommand_destroy m), about, if_true, toList_some]
      exact .close _
    · have silent : notice n ⟨commandChannelNumber, packDestoryChannelRequest m⟩ = none := by
        simp [notice_command (unpackCommand_destroy m), about, same]
      have unchanged : { d with subChannels := d.subChannels.erase m }.station n = d.station n := by
        simp [station, Finset.mem_erase, Ne.symm same]
      rw [silent, unchanged, toList_none, append_nil]
      exact .same _
  · rw [cleanChannel, if_neg member]
    exact ready.own

theorem Ready.drop (pending : List UInt32) :
    Own limit d (d.dropPending pending) := by
  induction pending generalizing d with
  | nil => exact ready.own_of_eq rfl rfl rfl
  | cons oldest rest ih =>
    simp only [dropPending]
    split
    · have closed := ready.clean_notify oldest
      exact closed.trans (ih closed.ready)
    · exact ready.own_of_eq rfl rfl rfl

theorem Ready.pend (m : UInt32) :
    Own limit d (d.enqueuePendingChannel m) := by
  simp only [enqueuePendingChannel]
  split
  · exact ready.own_of_eq rfl rfl rfl
  · exact ready.drop _

theorem Ready.register
    (numbered : m ≠ commandChannelNumber) : Keeps limit d (d.makeChannelInternal m) := by
  refine ⟨⟨ready.alive, ready.room, ready.within, ready.direct, ?_, ready.fair⟩, rfl, rfl, rfl, rfl⟩
  intro n member
  rcases Finset.mem_insert.mp member with new | old
  · rw [new]
    exact numbered
  · exact ready.numbered n old

omit ready

theorem station_register_self (d : SocketChannelPrivate) (m : UInt32) :
    (d.makeChannelInternal m).station m = (true, (d.station m).2) := by
  simp [station, makeChannelInternal]

theorem station_register_of_ne (d : SocketChannelPrivate) {n : UInt32} (other : m ≠ n) :
    (d.makeChannelInternal m).station n = d.station n := by
  simp [station, makeChannelInternal, Ne.symm other]

theorem Ready.put (ready : d.Ready limit) (payload : Bytes) :
    Own limit d (d.putReceiving payload) := by
  unfold putReceiving
  split
  · exact ready.own_of_eq rfl rfl rfl
  · exact ready.own_of_eq rfl rfl rfl

def Takes (limit : UInt32) (d : SocketChannelPrivate) (packet : Bytes) : Prop :=
  ∃ e, d.handleCommand packet = some e ∧ Keeps limit d e ∧
    ∀ n, Answers (notice n ⟨commandChannelNumber, packet⟩) (d.station n) (e.station n)

theorem Own.takes (own : d.Own limit e)
    (handled : d.handleCommand packet = some e) (silent : ∀ n, notice n ⟨commandChannelNumber, packet⟩ = none) :
    d.Takes limit packet := by
  refine ⟨e, handled, own.toKeeps, fun n => ?_⟩
  rw [silent n]
  exact .silent (own.quiet n)

variable (ready : d.Ready limit)
include ready

theorem Ready.take_make
    (command : unpackCommand packet = some (.makeChannel m)) (free : m ∉ d.subChannels)
    (numbered : m ≠ commandChannelNumber) : d.Takes limit packet := by
  have inserted := ready.register numbered
  obtain ⟨queued, sent⟩ := inserted.ready.send_request (request_made m)
  have pended := sent.ready.pend m
  refine ⟨_, ?_, (inserted.trans sent).trans pended.toKeeps, fun n => ?_⟩
  · simp only [handleCommand, command, if_neg free, queued]
  · have later := pended.quiet n
    rw [station_enqueue] at later
    simp only [notice_command command, notice_command (unpackCommand_made m), about] at later ⊢
    by_cases same : m = n
    · subst same
      have before : d.station m = (false, (d.station m).2) := by simp [station, free]
      rw [station_register_self, if_pos rfl, toList_some] at later
      rw [if_pos rfl, before]
      exact .spoken (.make _) later
    · rw [station_register_of_ne d same, if_neg same, toList_none, append_nil] at later
      rw [if_neg same]
      exact .silent later

theorem Ready.take_made
    (command : unpackCommand packet = some (.channelMade m)) : d.Takes limit packet := by
  by_cases known : m ∈ d.subChannels
  · refine ⟨d, by simp only [handleCommand, command, if_pos known], ready.keeps, fun n => ?_⟩
    simp only [notice_command command, about]
    split
    · rename_i same
      have here : d.station n = (true, (d.station n).2) := by simp [station, ← same, known]
      rw [here]
      exact .spoken (.known _) (.same _)
    · exact .silent (.same _)
  · obtain ⟨queued, sent⟩ := ready.send_request (request_destroy m)
    refine ⟨_, by simp only [handleCommand, command, if_neg known, queued], sent, fun n => ?_⟩
    rw [station_enqueue]
    simp only [notice_command command, notice_command (unpackCommand_destroy m), about]
    split
    · rename_i same
      have here : d.station n = (false, (d.station n).2) := by simp [station, ← same, known]
      rw [here]
      exact .spoken (.gone _) (.same _)
    · rw [toList_none, append_nil]
      exact .silent (.same _)

theorem Ready.take_destroy
    (command : unpackCommand packet = some (.destroyChannel m)) : d.Takes limit packet := by
  have taken : d.handleCommand packet = some (d.cleanChannel m false) := by simp only [handleCommand, command]
  by_cases known : m ∈ d.subChannels
  · have erased := ready.erase m
    have purged := erased.ready.purge (ready.numbered m known)
    have result : d.cleanChannel m false = { d with subChannels := d.subChannels.erase m }.cleanSendingPacket m := by
      rw [cleanChannel, if_pos known]
      rfl
    rw [result] at taken
    refine ⟨_, taken, erased.trans purged.toKeeps, fun n => ?_⟩
    have later := purged.quiet n
    simp only [notice_command command, about]
    split
    · rename_i same
      have middle : { d with subChannels := d.subChannels.erase m }.station n = (false, (d.station n).2) := by
        simp [station, same]
      rw [middle] at later
      exact .spoken (.destroy _ _) later
    · rename_i other
      have middle : { d with subChannels := d.subChannels.erase m }.station n = d.station n := by
        simp [station, Ne.symm other]
      rw [middle] at later
      exact .silent later
  · have result : d.cleanChannel m false = d := by rw [cleanChannel, if_neg known]
    rw [result] at taken
    refine ⟨d, taken, ready.keeps, fun n => ?_⟩
    simp only [notice_command command, about]
    split
    · rename_i same
      have here : d.station n = (false, (d.station n).2) := by simp [station, ← same, known]
      rw [here]
      exact .spoken (.destroy _ _) (.same _)
    · exact .silent (.same _)

/-- A frame of a fair peer never breaks an end, provided that its MAKE finds the number
free. -/
theorem Ready.receive {frame : WritingPacket} (fair : Fair limit frame)
    (free : ∀ n, notice n frame = some .make → n ∉ d.subChannels ∧ n ≠ commandChannelNumber) :
    Keeps limit d (d.doReceive frame) ∧
      ∀ n, Answers (notice n frame) (d.station n) ((d.doReceive frame).station n) := by
  obtain ⟨channelNumber, packet⟩ := frame
  have silently : channelNumber ≠ commandChannelNumber → ∀ e, d.Own limit e →
      Keeps limit d e ∧ ∀ n, Answers (notice n ⟨channelNumber, packet⟩) (d.station n) (e.station n) := by
    intro other e own
    refine ⟨own.toKeeps, fun n => ?_⟩
    have silent : notice n ⟨channelNumber, packet⟩ = none := notice_of_ne other n
    rw [silent]
    exact .silent (own.quiet n)
  rw [doReceive, if_neg (UInt32.not_lt.mpr (UInt32.le_trans fair.size ready.within)), handleIncomingPacket,
    if_neg (by simp [ready.direct])]
  by_cases data : channelNumber = dataChannelNumber
  · have other : channelNumber ≠ commandChannelNumber := by rw [data]; decide
    rw [if_pos data]
    refine silently other _ ?_
    have warned : d.Own limit (if d.slowDownRequested = false ∧
        d.receivingQueue.currentSize ≥ d.receivingQueue.mCapacity * 3 / 4 then
          { d with slowDownRequested := true }.sendPacketRaw commandChannelNumber packSlowDownRequest else d) := by
      split
      · have marked : d.Own limit { d with slowDownRequested := true } := ready.own_of_eq rfl rfl rfl
        refine marked.trans (marked.ready.send_silent (fun _ => ?_) fun n => ?_)
        · exact ⟨UInt32.le_trans (by decide) ready.room, fun _ => ⟨_, unpackCommand_slowDown, by simp⟩,
            fun other => absurd rfl other⟩
        · exact notice_command unpackCommand_slowDown n
      · exact ready.own
    exact warned.trans (warned.ready.put packet)
  · rw [if_neg data]
    by_cases command : channelNumber = commandChannelNumber
    · subst command
      rw [if_pos rfl]
      have takes : d.Takes limit packet := by
        obtain ⟨c, unpacked, known⟩ := fair.command rfl
        cases c with
        | makeChannel m =>
          obtain ⟨fresh, numbered⟩ := free m (by simp [notice_command unpacked, about])
          exact ready.take_make unpacked fresh numbered
        | channelMade m => exact ready.take_made unpacked
        | destroyChannel m => exact ready.take_destroy unpacked
        | slowDown =>
          have own : d.Own limit { d with goThrough := false } := ready.own_of_eq rfl rfl rfl
          exact own.takes (by simp only [handleCommand, unpacked]) (notice_command unpacked)
        | goThrough =>
          have own : d.Own limit { d with goThrough := true } := ready.own_of_eq rfl rfl rfl
          exact own.takes (by simp only [handleCommand, unpacked]) (notice_command unpacked)
        | keepalive => exact ready.own.takes (by simp only [handleCommand, unpacked]) (notice_command unpacked)
        | unknown code => exact absurd rfl (known code)
      obtain ⟨e, handled, keeps, answers⟩ := takes
      rw [handled]
      exact ⟨keeps, answers⟩
    · rw [if_neg command]
      have long := fair.nested command data
      have same : (if channelNumber ∈ d.subChannels then
          if packet.length < 4 then (d, some ChannelError.invalidPacket) else (d, none) else (d, none)) =
            (d, none) := by
        rw [if_neg (Nat.not_lt.mpr long), ite_self]
      rw [same]
      exact silently command d ready.own

theorem Ready.act {action : ChannelAction}
    (performed : d.perform action = some e) (opens : action ≠ .makeChannel) (direct : action ≠ .exchange)
    (fits : ∀ payload ∈ action.payload, packetSize payload ≤ d.maxPayloadSize → packetSize payload ≤ limit) :
    Own limit d e := by
  cases action with
  | makeChannel => exact absurd rfl opens
  | exchange => exact absurd rfl direct
  | abortChannel m =>
    obtain ⟨_, same⟩ := ite_none_right_eq_some.mp performed
    cases same
    exact ready.clean_notify m
  | takeChannel m =>
    obtain ⟨_, same⟩ := ite_none_right_eq_some.mp performed
    cases same
    exact ready.own_of_eq rfl rfl rfl
  | setMaxPendingChannels count =>
    cases performed
    exact ready.own_of_eq rfl rfl rfl
  | sendPacketAsync packet =>
    cases performed
    have other : dataChannelNumber ≠ commandChannelNumber := by decide
    refine ready.send_silent (fun size => ⟨fits packet rfl size, fun zero => absurd zero other,
      fun _ one => absurd rfl one⟩) ?_
    intro n
    exact notice_of_ne other n
  | sendThrough subChannel channelNumber packet =>
    obtain ⟨⟨zero, _, _⟩, same⟩ := ite_none_right_eq_some.mp performed
    cases same
    refine ready.send_silent (fun size => ⟨fits _ rfl size, fun named => absurd named zero, fun _ _ => ?_⟩) ?_
    · simp
    · intro n
      exact notice_of_ne zero n
  | doKeepalive =>
    obtain ⟨_, same⟩ := ite_none_right_eq_some.mp performed
    cases same
    have size : packetSize packKeepaliveRequest ≤ limit := UInt32.le_trans (by decide) ready.room
    refine ⟨ready.enqueue ⟨size, fun _ => ⟨_, unpackCommand_keepalive, by simp⟩, fun other => absurd rfl other⟩, ?_⟩
    intro n
    rw [station_enqueue]
    simp only [notice_command unpackCommand_keepalive, about, toList_none, append_nil]
    exact .same _
  | unblock =>
    simp only [perform] at performed
    split at performed
    · rename_i payload _
      obtain ⟨_, same⟩ := ite_none_right_eq_some.mp performed
      cases same
      have freed : d.Own limit { d with arriving := none } := ready.own_of_eq rfl rfl rfl
      exact freed.trans (freed.ready.put payload)
    · simp at performed
  | recvPacket =>
    simp only [perform, recvPacket] at performed
    split at performed
    · simp at performed
    · rename_i packet rest _
      have popped : d.Own limit { d with receivingQueue := d.receivingQueue.pop packetSize packet rest } :=
        ready.own_of_eq rfl rfl rfl
      split at performed
      · cases performed
        exact popped
      · split at performed
        · cases performed
          have cleared : Own limit d
              { d with
                receivingQueue := d.receivingQueue.pop packetSize packet rest, slowDownRequested := false } :=
            ready.own_of_eq rfl rfl rfl
          refine cleared.trans (cleared.ready.send_silent (fun _ => ?_) fun n => ?_)
          · exact ⟨UInt32.le_trans (by decide) ready.room, fun _ => ⟨_, unpackCommand_goThrough, by simp⟩,
              fun other => absurd rfl other⟩
          · exact notice_command unpackCommand_goThrough n
        · cases performed
          exact popped
  | forward channelNumber packet =>
    obtain ⟨plugged, _⟩ := ite_none_right_eq_some.mp performed
    rw [ready.direct] at plugged
    simp at plugged

theorem Ready.open (numbered : d.nextChannelNumber ≠ commandChannelNumber) :
    d.makeChannel.Ready limit ∧ d.makeChannel.maxPayloadSize = d.maxPayloadSize ∧ d.makeChannel.pole = d.pole ∧
      d.makeChannel.made = d.made + 1 ∧
      d.makeChannel.nextChannelNumber = d.pole.after d.nextChannelNumber ∧
      ∀ n, d.makeChannel.station n =
        if d.nextChannelNumber = n then (true, (d.station n).2 ++ [.make]) else d.station n := by
  have inserted := ready.register numbered
  have counted : Ready limit { d.makeChannelInternal d.nextChannelNumber with
      nextChannelNumber := d.pole.after d.nextChannelNumber, made := d.made + 1 } :=
    ⟨inserted.ready.alive, inserted.ready.room, inserted.ready.within, inserted.ready.direct,
      inserted.ready.numbered, inserted.ready.fair⟩
  obtain ⟨queued, sent⟩ := counted.send_request (request_make d.nextChannelNumber)
  have result : d.makeChannel = _ := queued
  rw [result]
  refine ⟨sent.ready, rfl, rfl, rfl, rfl, fun n => ?_⟩
  rw [station_enqueue]
  simp only [notice_command (unpackCommand_make _), about]
  by_cases same : d.nextChannelNumber = n
  · rw [if_pos same, if_pos same]
    simp [station, makeChannelInternal, same]
  · rw [if_neg same, if_neg same]
    simp [station, makeChannelInternal, Ne.symm same]

omit ready

end SocketChannelPrivate

end Qtng
