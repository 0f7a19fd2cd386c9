import Qtng.WebSocket.Connection

namespace Qtng.WebSocket

open Transition QueueRecord List Option Function

/-- What recv has returned is a beginning of the messages sent, or all of them if it has
returned nothing once. -/
def InOrder (sent : List PacketToRead) (w : Connection) : Prop :=
  (∃ returned, returned <+: sent ∧ w.inbox.results = returned.map some) ∨
    ∃ later, w.inbox.results = sent.map some ++ none :: later

namespace Connection

/-- Nothing that was received is left: the queue is empty, doReceive does not wait to put a
message, and there are only control frames to read. -/
def quiet (w : Connection) : Bool :=
  w.inbox.queue.q.queue.isEmpty && w.inbox.incoming.all isControl && match w.inbox.point with
    | .putting _ => false
    | _ => true

/-- The events that take an open connection out of that state. -/
def closes (w : Connection) : ConnectionEvent → Bool
  | .frame => w.inbox.incoming.head?.any fun f => f.opcode = closeFrame
  | .eof | .close | .abort _ => true
  | .replied ok | .wrote ok => !ok
  | _ => false

/-- Nothing that was received is left when the connection is not open any more. -/
def attentive (w : Connection) (e : ConnectionEvent) : Bool := w.state ≠ .open || !w.closes e || w.quiet

end Connection

namespace Conversation

variable {c next : Conversation}

theorem complete_of_add {f : WebSocketFrame} (added : c.add f = some next) :
    c.complete <+: next.complete := by
  have extended : ∀ {type payload}, c.extend f type payload = some next → c.complete <+: next.complete := by
    intro type payload extended
    unfold extend finish at extended
    split_ifs at extended
    · cases extended
      exact prefix_append _ _
    · cases extended
      exact prefix_rfl
  unfold add at added
  split at added
  · cases added
    exact prefix_rfl
  · split at added
    · exact extended added
    · split at added
      · exact extended added
      · cases added
    · cases added

theorem complete_of_foldlM {frames : List WebSocketFrame}
    (legal : frames.foldlM add c = some next) : c.complete <+: next.complete := by
  induction frames generalizing c with
  | nil =>
    cases legal
    exact prefix_rfl
  | cons f rest ih =>
    rw [foldlM_cons] at legal
    obtain ⟨c', added, legal'⟩ := bind_eq_some_iff.mp legal
    exact (complete_of_add added).trans (ih legal')

end Conversation

namespace Inbox

variable {sent : List PacketToRead} {w : Inbox}
variable {queue : QueueWorld (Option PacketToRead)}
variable {data : List WebSocketFrame} {c : Nat}

theorem withQueue_of_log {more : List (QueueRecord (Option PacketToRead))}
    (log : queue.log = w.queue.log ++ more) :
    w.withQueue queue = { w with queue, results := w.results ++ gets more } := by
  simp [withQueue, log]

def blocked (w : Inbox) : List PacketToRead :=
  match w.point with
  | .putting packet => [packet]
  | _ => []

def ownCall (w : Inbox) : Option (QueueCall (Option PacketToRead)) :=
  match w.point with
  | .putting packet => some (.put (some packet) forever)
  | _ => none

/-- While the connection is open: recv has returned what came out of the queue, and what
went into it continues, with the frames that are left, to the messages sent. -/
structure Receiving (sent : List PacketToRead) (w : Inbox) : Prop where
  results : w.results = gets w.queue.log
  outstanding : ∃ stored data close, puts w.queue.log = stored.map some ∧ w.incoming = data ++ close ∧
    (∀ f ∈ data, f.opcode ≠ closeFrame) ∧ (∀ f ∈ close, f.opcode = closeFrame) ∧
    data.foldlM Conversation.add ⟨w.receiver.partly, stored ++ w.blocked⟩ = some ⟨none, sent⟩
  clean : w.receiver.Clean
  own : w.queue.calls 0 = w.ownCall
  others : ∀ c e msecs, w.queue.calls c = some (.put e msecs) → c = 0
  points : w.point = .reading ∨ (∃ packet, w.point = .putting packet) ∨ w.point = .ponging

/-- Later: recv has returned all messages, and nothing but packets of an unknown type
comes. -/
structure Over (sent : List PacketToRead) (w : Inbox) : Prop where
  results : ∃ n, w.results = sent.map some ++ List.replicate n none
  queue : ∀ e ∈ w.queue.q.queue, e = none
  calls : ∀ c e msecs, w.queue.calls c = some (.put e msecs) → e = none
  incoming : ∀ f ∈ w.incoming, isControl f = true
  idle : ∀ packet, w.point ≠ .putting packet

theorem Receiving.foldlM_of_controls {c next : Conversation}
    (controls : ∀ f ∈ data, isControl f = true) (legal : data.foldlM Conversation.add c = some next) : c = next := by
  have none : (data.filter fun f => !isControl f) = [] := by simpa [filter_eq_nil_iff] using controls
  rw [Conversation.foldlM_filter, none] at legal
  exact some.inj legal

theorem Receiving.over (inv : Receiving sent w) (healthy : w.queue.Healthy) (empty : w.queue.q.queue = [])
    (controls : ∀ f ∈ w.incoming, isControl f = true) (idle : ∀ packet, w.point ≠ .putting packet) : Over sent w := by
  obtain ⟨stored, data, close, puts, incoming, _, _, legal⟩ := inv.outstanding
  have nothing : w.blocked = [] := by
    unfold blocked
    split
    · rename_i packet putting
      exact absurd putting (idle packet)
    · rfl
  have all := foldlM_of_controls (fun f member => controls f (incoming ▸ mem_append_left _ member)) legal
  rw [nothing, append_nil] at all
  have stored' : stored = sent := congrArg Conversation.complete all
  have order := healthy.delivered.order
  rw [empty, append_nil, puts, stored'] at order
  refine ⟨⟨0, by simp [inv.results, order]⟩, by simp [empty], ?_, controls, idle⟩
  intro c e msecs pending
  have own : c = 0 := inv.others c e msecs pending
  subst own
  rw [inv.own] at pending
  unfold ownCall at pending
  split at pending
  · rename_i packet putting
    exact absurd putting (idle packet)
  · cases pending

theorem Receiving.recv (inv : Receiving sent w) (app : c ≠ 0)
    (moved : w.queue.Moved c .get queue) : Receiving sent (w.withQueue queue) := by
  have own : ∀ call, update w.queue.calls c call 0 = w.ownCall := by
    intro call
    rw [update_of_ne (Ne.symm app)]
    exact inv.own
  have others : ∀ call, (∀ e msecs, call ≠ some (QueueCall.put e msecs)) →
      ∀ d e msecs, update w.queue.calls c call d = some (.put e msecs) → d = 0 := by
    intro call notPut d e msecs pending
    by_cases same : d = c
    · subst same
      rw [update_self] at pending
      exact absurd pending (notPut e msecs)
    · rw [update_of_ne same] at pending
      exact inv.others d e msecs pending
  cases moved with
  | taken front calls after log =>
    rw [withQueue_of_log log]
    refine ⟨?_, ?_, inv.clean, ?_, ?_, inv.points⟩
    · simp [log, gets, inv.results]
    · obtain ⟨stored, data, close, puts', rest⟩ := inv.outstanding
      refine ⟨stored, data, close, ?_, rest⟩
      rw [← puts']
      simp [log, puts]
    · rw [calls]
      exact own _
    · rw [calls]
      exact others none (by simp)
  | blocked calls after log =>
    have nothing : queue.log = w.queue.log ++ [] := by simp [log]
    rw [withQueue_of_log nothing]
    refine ⟨?_, ?_, inv.clean, ?_, ?_, inv.points⟩
    · simp [log, gets, inv.results]
    · rw [log]
      exact inv.outstanding
    · rw [calls]
      exact own _
    · rw [calls]
      exact others (some .get) (by simp)

theorem Receiving.put {packet : PacketToRead} {r : Receiver}
    {incoming close : List WebSocketFrame} {stored : List PacketToRead} (results : w.results = gets w.queue.log)
    (others : ∀ c e msecs, w.queue.calls c = some (.put e msecs) → c = 0)
    (before : puts w.queue.log = stored.map some) (frames : incoming = data ++ close)
    (noClose : ∀ f ∈ data, f.opcode ≠ closeFrame) (closing : ∀ f ∈ close, f.opcode = closeFrame)
    (legal : data.foldlM Conversation.add ⟨r.partly, stored ++ [packet]⟩ = some ⟨none, sent⟩) (clean : r.Clean)
    (moved : w.queue.Moved 0 (.put (some packet) forever) queue) :
    Receiving sent (afterPut { w with incoming, receiver := r } packet queue) := by
  have others' : ∀ call d e msecs, update w.queue.calls 0 call d = some (.put e msecs) → d = 0 := by
    intro call d e msecs pending
    by_cases same : d = 0
    · exact same
    · rw [update_of_ne same] at pending
      exact others d e msecs pending
  unfold afterPut
  cases moved with
  | stored calls after log =>
    have free : queue.calls 0 = none := by rw [calls, update_self]
    rw [withQueue_of_log (by exact log), free]
    refine ⟨?_, ⟨stored ++ [packet], data, close, ?_, frames, noClose, closing, ?_⟩, clean, ?_, ?_, .inl rfl⟩
    · simp [log, gets, results]
    · rw [map_append, ← before]
      simp [log, puts]
    · rw [← legal]
      simp [blocked]
    · exact free
    · rw [calls]
      exact others' _
  | blocked calls after log =>
    have busy : queue.calls 0 = some (.put (some packet) forever) := by rw [calls, update_self]
    have nothing : queue.log = w.queue.log ++ [] := by simp [log]
    rw [withQueue_of_log (by exact nothing), busy]
    refine ⟨?_, ⟨stored, data, close, ?_, frames, noClose, closing, legal⟩, clean, busy, ?_, .inr (.inl ⟨packet, rfl⟩)⟩
    · simp [log, gets, results]
    · rw [← before, log]
    · rw [calls]
      exact others' _

/-- After the end a call of put is one of abort, and whatever comes out is of an unknown
type. -/
theorem Over.move {call : QueueCall (Option PacketToRead)}
    (inv : Over sent w) (unknown : ∀ e msecs, call = .put e msecs → e = none) (moved : w.queue.Moved c call queue) :
    Over sent (w.withQueue queue) := by
  obtain ⟨n, results⟩ := inv.results
  have calls' : ∀ call', (∀ e msecs, call' = some (QueueCall.put e msecs) → e = none) → ∀ d e msecs,
      update w.queue.calls c call' d = some (.put e msecs) → e = none := by
    intro call' unknown' d e msecs pending
    by_cases same : d = c
    · subst same
      rw [update_self] at pending
      exact unknown' e msecs pending
    · rw [update_of_ne same] at pending
      exact inv.calls d e msecs pending
  cases moved with
  | @stored e msecs size capacity _ calls after log =>
    rw [withQueue_of_log log]
    refine ⟨⟨n, by simp [gets, results]⟩, ?_, ?_, inv.incoming, inv.idle⟩
    · intro x member
      rw [after] at member
      rcases mem_append.mp member with old | new
      · exact inv.queue x old
      · rw [mem_singleton.mp new]
        exact unknown e msecs rfl
    · rw [calls]
      exact calls' none (by simp)
  | @taken e rest _ front calls after log =>
    have isUnknown : e = none := inv.queue e (by simp [front])
    subst isUnknown
    rw [withQueue_of_log log]
    refine ⟨⟨n + 1, by simp [gets, results, replicate_succ']⟩, ?_, ?_, inv.incoming, inv.idle⟩
    · intro x member
      rw [after] at member
      exact inv.queue x (by simp [front, member])
    · rw [calls]
      exact calls' none (by simp)
  | blocked calls after log =>
    have nothing : queue.log = w.queue.log ++ [] := by simp [log]
    rw [withQueue_of_log nothing]
    refine ⟨⟨n, by simp [gets, results]⟩, ?_, ?_, inv.incoming, inv.idle⟩
    · rw [after]
      exact inv.queue
    · rw [calls]
      exact calls' (some call) fun e msecs same => unknown e msecs (some.inj same)

theorem Receiving.outcome {f : WebSocketFrame} {rest : List WebSocketFrame} (inv : Receiving sent w)
    (reading : w.point = .reading) (incoming : w.incoming = f :: rest) (notClose : f.opcode ≠ closeFrame) :
    ∃ stored data close next, puts w.queue.log = stored.map some ∧ rest = data ++ close ∧
      (∀ f ∈ data, f.opcode ≠ closeFrame) ∧ (∀ f ∈ close, f.opcode = closeFrame) ∧
      Conversation.add ⟨w.receiver.partly, stored⟩ f = some next ∧
      data.foldlM Conversation.add next = some ⟨none, sent⟩ := by
  obtain ⟨stored, data, close, puts', frames, noClose, closing, legal⟩ := inv.outstanding
  have idle : w.blocked = [] := by simp [blocked, reading]
  rw [idle, append_nil] at legal
  rw [incoming] at frames
  cases data with
  | nil =>
    rw [nil_append] at frames
    exact absurd (closing f (frames ▸ mem_cons_self)) notClose
  | cons g data =>
    rw [cons_append] at frames
    obtain ⟨same, rest'⟩ := cons.inj frames
    subst same
    rw [foldlM_cons] at legal
    obtain ⟨next, added, legal'⟩ := bind_eq_some_iff.mp legal
    exact ⟨stored, data, close, next, puts', rest', fun h member => noClose h (mem_cons_of_mem _ member), closing,
      added, legal'⟩

end Inbox

namespace Connection

variable {sent : List PacketToRead} {w t : Connection} {blockSize : Nat}

/-- The connection is open and receives, or recv has returned all messages. -/
structure Delivering (sent : List PacketToRead) (w : Connection) : Prop where
  healthy : w.inbox.queue.Healthy
  receiving : w.state = .open → w.inbox.Receiving sent ∧ w.errorCode = none ∧ w.aborting = none ∧ w.inbox.killed = false
  finished : w.state ≠ .open → w.inbox.Over sent

theorem Delivering.congr (inv : Delivering sent w) (inbox : t.inbox = w.inbox) (state : t.state = w.state)
    (errorCode : t.errorCode = w.errorCode) (aborting : t.aborting = w.aborting) : Delivering sent t := by
  refine ⟨?_, ?_, ?_⟩
  · rw [inbox]
    exact inv.healthy
  · rw [inbox, state, errorCode, aborting]
    exact inv.receiving
  · rw [inbox, state]
    exact inv.finished

theorem Delivering.inOrder (inv : Delivering sent w) : InOrder sent w := by
  by_cases isOpen : w.state = .open
  · obtain ⟨receiving, _⟩ := inv.receiving isOpen
    obtain ⟨stored, data, close, puts', _, _, _, legal⟩ := receiving.outstanding
    have order : w.inbox.results <+: stored.map some := by
      rw [receiving.results, ← puts', ← inv.healthy.delivered.order]
      exact prefix_append _ _
    obtain ⟨returned, beginning, same⟩ := prefix_map_iff.mp order
    have sofar : stored ++ w.inbox.blocked <+: sent := Conversation.complete_of_foldlM legal
    exact .inl ⟨returned, beginning.trans ((prefix_append _ _).trans sofar), same⟩
  · obtain ⟨n, results⟩ := (inv.finished isOpen).results
    cases n with
    | zero => exact .inl ⟨sent, prefix_rfl, by simpa using results⟩
    | succ n => exact .inr ⟨replicate n none, by rw [results, replicate_succ]⟩

end Connection

namespace Inbox

variable {sent : List PacketToRead} {w t : Inbox}

theorem Over.congr (inv : Over sent w) (queue : t.queue = w.queue) (results : t.results = w.results)
    (incoming : ∀ f ∈ t.incoming, isControl f = true) (idle : ∀ packet, t.point ≠ .putting packet) : Over sent t := by
  refine ⟨results ▸ inv.results, ?_, ?_, incoming, idle⟩
  · rw [queue]
    exact inv.queue
  · rw [queue]
    exact inv.calls

theorem Over.release (inv : Over sent w) (healthy : w.queue.Healthy) :
    Over sent w.release ∧ w.release.queue.Healthy := by
  unfold Inbox.release
  split
  · cases stepped : w.queue.step unitSize (.put 1 none forever) with
    | none => exact ⟨inv, healthy⟩
    | some queue =>
      obtain ⟨_, moved⟩ := QueueWorld.step_put stepped (by decide) healthy.isOpen
      have unknown : ∀ e msecs, QueueCall.put none forever = .put e msecs → e = (none : Option PacketToRead) := by
        rintro e msecs ⟨⟩
        rfl
      exact ⟨inv.move unknown moved, healthy.step rfl (by simp) stepped⟩
  · exact ⟨inv, healthy⟩

end Inbox

namespace Receiver

variable {f : WebSocketFrame} {r : Receiver}

theorem handleFrame_of_control {state : State} (control : isControl f = true)
    (packet : PacketToRead) : (r.handleFrame state f).2 ≠ .put packet := by
  have opcode : f.opcode = closeFrame ∨ f.opcode = pingFrame ∨ f.opcode = pongFrame := by
    simpa [isControl] using control
  unfold handleFrame
  rcases opcode with code | code | code <;> rw [code]
  · unfold closeReceived
    cases state <;> simp [closeFrame, continuationFrame, textFrame, binaryFrame]
  · simp [closeFrame, pingFrame, continuationFrame, textFrame, binaryFrame]
  · simp [closeFrame, pingFrame, pongFrame, continuationFrame, textFrame, binaryFrame]

theorem handleFrame_of_close (close : f.opcode = closeFrame) :
    ∃ payload code, r.handleFrame .open f = (r, .sendAndAbort payload code true) := by
  unfold handleFrame
  rw [close]
  exact ⟨_, _, rfl⟩

end Receiver

namespace Connection

variable {sent : List PacketToRead} {w t : Connection} {blockSize : Nat}

theorem Delivering.leave (inv : Delivering sent w) (quiet : w.state ≠ .open ∨ w.quiet = true) (state : t.state ≠ .open)
    (queue : t.inbox.queue = w.inbox.queue) (results : t.inbox.results = w.inbox.results)
    (incoming : ∀ f ∈ t.inbox.incoming, f ∈ w.inbox.incoming)
    (idle : ∀ packet, t.inbox.point = .putting packet → t.inbox.point = w.inbox.point) :
    Delivering sent t := by
  refine ⟨queue ▸ inv.healthy, fun isOpen => absurd isOpen state, fun _ => ?_⟩
  have done : w.inbox.Over sent := by
    by_cases isOpen : w.state = .open
    · have nothing := quiet.resolve_left (not_not.mpr isOpen)
      obtain ⟨receiving, _⟩ := inv.receiving isOpen
      simp only [Connection.quiet, Bool.and_eq_true, List.isEmpty_iff, List.all_eq_true] at nothing
      obtain ⟨⟨empty, controls⟩, notPutting⟩ := nothing
      refine receiving.over inv.healthy empty controls ?_
      intro packet putting
      simp [putting] at notPutting
    · exact inv.finished isOpen
  refine done.congr queue results (fun f member => done.incoming f (incoming f member)) ?_
  intro packet putting
  exact done.idle packet ((idle packet putting) ▸ putting)

theorem state_beginAbort (caller : Caller) (code : Nat) (known : w.state = .open → w.errorCode = none) :
    (w.beginAbort caller code).state ≠ .open ∧ (w.beginAbort caller code).inbox = w.inbox := by
  unfold beginAbort
  split_ifs with failed
  · exact ⟨fun isOpen => failed (known isOpen), rfl⟩
  · exact ⟨by simp, rfl⟩

variable (inv : Delivering sent w)
include inv

theorem Delivering.errorCode : w.state = .open → w.errorCode = none :=
  fun isOpen => (inv.receiving isOpen).2.1

theorem Delivering.receiveAborts (quiet : w.state ≠ .open ∨ w.quiet = true) (code : Nat) :
    Delivering sent (w.receiveAborts code) := by
  refine inv.leave quiet (state_beginAbort .receive code inv.errorCode).1 rfl rfl (fun f member => member) ?_
  intro packet putting
  simp only [Connection.receiveAborts] at putting
  split at putting <;> cases putting

theorem Delivering.frame {f : WebSocketFrame} {rest : List WebSocketFrame}
    (attentive : w.attentive .frame = true) (reading : w.inbox.point = .reading)
    (incoming : w.inbox.incoming = f :: rest)
    (stepped : w.handleFrame f rest = some t) : Delivering sent t := by
  have shorter : ∀ g ∈ rest, g ∈ w.inbox.incoming := fun g member => incoming ▸ mem_cons_of_mem _ member
  unfold handleFrame at stepped
  dsimp only at stepped
  by_cases isOpen : w.state = .open
  · obtain ⟨receiving, errorCode, aborting, killed⟩ := inv.receiving isOpen
    by_cases close : f.opcode = closeFrame
    · obtain ⟨payload, code, result⟩ := Receiver.handleFrame_of_close (r := w.inbox.receiver) close
      rw [isOpen, result] at stepped
      cases stepped
      have quiet : w.quiet = true := by simpa [Connection.attentive, isOpen, closes, incoming, close] using attentive
      exact inv.leave (.inr quiet) (by simp) rfl rfl shorter (by simp)
    · obtain ⟨stored, data, closing, next, puts', rest', noClose, closes', added, legal⟩ :=
        receiving.outcome reading incoming close
      have order : w.inbox.receiver.tmpType = none ∨ startType f = none ∨ f.fin = false := by
        rcases Conversation.order_of_add added with idle | control
        · exact .inl (by simpa [Receiver.partly] using idle)
        · exact .inr (.inl control)
      have agrees := Receiver.agrees_handleFrame stored w.state receiving.clean order
      revert agrees stepped
      generalize w.inbox.receiver.handleFrame w.state f = result
      obtain ⟨r, verdict⟩ := result
      intro stepped agrees
      have idle : w.inbox.blocked = [] := by simp [Inbox.blocked, reading]
      have own : w.inbox.queue.calls 0 = none := receiving.own.trans (by simp [Inbox.ownCall, reading])
      cases verdict with
      | recv | go =>
        obtain ⟨next', clean⟩ := agrees
        cases stepped
        cases added.symm.trans next'
        refine ⟨inv.healthy, fun _ =>
          ⟨⟨receiving.results, ⟨stored, data, closing, puts', rest', noClose, closes', ?_⟩, clean,
          receiving.own, receiving.others, receiving.points⟩, errorCode, aborting, killed⟩,
          fun closed => absurd isOpen closed⟩
        have idle' : Inbox.blocked { w.inbox with incoming := rest, receiver := r } = [] := idle
        rw [idle', append_nil]
        exact legal
      | send opcode payload =>
        obtain ⟨next', clean⟩ := agrees
        cases stepped
        cases added.symm.trans next'
        refine ⟨inv.healthy, fun _ =>
          ⟨⟨receiving.results, ⟨stored, data, closing, puts', rest', noClose, closes', ?_⟩, clean,
          own, receiving.others, .inr (.inr rfl)⟩, errorCode, aborting, killed⟩, fun closed => absurd isOpen closed⟩
        simpa [Inbox.blocked] using legal
      | put packet =>
        obtain ⟨next', clean⟩ := agrees
        cases added.symm.trans next'
        obtain ⟨queue, put, same⟩ := map_eq_some_iff.mp stepped
        subst same
        obtain ⟨_, moved⟩ := QueueWorld.step_put put (by decide) inv.healthy.isOpen
        have after :=
          Inbox.Receiving.put receiving.results receiving.others puts' rest' noClose closes' legal clean moved
        exact ⟨inv.healthy.step rfl (by simp) put, fun _ => ⟨after, errorCode, aborting, killed⟩,
          fun closed => absurd isOpen closed⟩
      | sendAndAbort | abort =>
        rcases agrees with violated | ⟨isClose, _⟩
        · exact absurd (added.symm.trans violated) (by simp)
        · exact absurd isClose close
  · have control := (inv.finished isOpen).incoming f (by simp [incoming])
    have notPut : ∀ packet, (w.inbox.receiver.handleFrame w.state f).2 ≠ .put packet :=
      Receiver.handleFrame_of_control control
    revert notPut stepped
    generalize w.inbox.receiver.handleFrame w.state f = result
    obtain ⟨r, verdict⟩ := result
    intro stepped notPut
    cases verdict with
    | recv | go | send | sendAndAbort =>
      cases stepped
      exact inv.leave (.inl isOpen) (by simp [isOpen]) rfl rfl shorter (by simp [reading])
    | put packet => exact absurd rfl (notPut packet)
    | abort code =>
      cases stepped
      have before : Delivering sent { w with inbox := { w.inbox with incoming := rest, receiver := r } } :=
        inv.leave (.inl isOpen) isOpen rfl rfl shorter fun _ _ => rfl
      exact before.receiveAborts (.inl isOpen) code

theorem Delivering.withQueue {c : Nat} {queue : QueueWorld (Option PacketToRead)}
    (healthy : queue.Healthy) {call : QueueCall (Option PacketToRead)}
    (get : w.state = .open → call = .get ∧ c ≠ 0)
    (known : ∀ e msecs, call = .put e msecs → ∃ d, w.inbox.queue.calls d = some call)
    (moved : w.inbox.queue.Moved c call queue) : Delivering sent { w with inbox := w.inbox.withQueue queue } := by
  refine ⟨healthy, fun isOpen => ?_, fun isOpen => ?_⟩
  · obtain ⟨receiving, rest⟩ := inv.receiving isOpen
    obtain ⟨same, app⟩ := get isOpen
    subst same
    exact ⟨receiving.recv app moved, rest⟩
  · have done := inv.finished isOpen
    refine done.move ?_ moved
    intro e msecs put
    obtain ⟨d, pending⟩ := known e msecs put
    exact done.calls d e msecs (put ▸ pending)

theorem Delivering.step {e : ConnectionEvent} (attentive : w.attentive e = true)
    (stepped : w.step blockSize e = some t) : Delivering sent t := by
  have quiet : w.closes e = true → w.state ≠ .open ∨ w.quiet = true := by
    intro closes
    by_cases isOpen : w.state = .open
    · exact .inr (by simpa [Connection.attentive, isOpen, closes] using attentive)
    · exact .inl isOpen
  cases e with
  | frame =>
    simp only [Connection.step] at stepped
    split at stepped
    · rename_i f rest reading incoming
      exact inv.frame attentive reading incoming stepped
    · cases stepped
  | eof =>
    simp only [Connection.step] at stepped
    split at stepped
    · cases stepped
      exact inv.receiveAborts (quiet rfl) _
    · cases stepped
  | replied ok =>
    simp only [Connection.step] at stepped
    split at stepped
    · rename_i ponging
      cases stepped
      cases ok with
      | true =>
        refine ⟨inv.healthy, fun isOpen => ?_, fun isOpen => ?_⟩
        · obtain ⟨receiving, rest⟩ := inv.receiving isOpen
          have idle : w.inbox.blocked = [] := by simp [Inbox.blocked, ponging]
          have own : w.inbox.queue.calls 0 = none := receiving.own.trans (by simp [Inbox.ownCall, ponging])
          refine ⟨⟨receiving.results, ?_, receiving.clean, own, receiving.others, .inl rfl⟩, rest⟩
          have same := receiving.outstanding
          rw [idle] at same
          exact same
        · exact (inv.finished isOpen).congr rfl rfl (inv.finished isOpen).incoming (by simp)
      | false => exact inv.receiveAborts (quiet rfl) _
    · rename_i code replying
      cases stepped
      refine inv.receiveAborts (.inl fun isOpen => ?_) _
      obtain ⟨receiving, _⟩ := inv.receiving isOpen
      simpa [replying] using receiving.points
    · cases stepped
  | receiveResumes =>
    simp only [Connection.step] at stepped
    split at stepped
    · rename_i packet putting
      obtain ⟨queue, resumed, same⟩ := map_eq_some_iff.mp stepped
      subst same
      have isOpen : w.state = .open := by
        by_contra closed
        exact (inv.finished closed).idle packet putting
      obtain ⟨receiving, rest⟩ := inv.receiving isOpen
      obtain ⟨call, pending, _, moved⟩ := QueueWorld.step_resume inv.healthy resumed
      have own : call = .put (some packet) forever := by
        rw [receiving.own] at pending
        simpa [Inbox.ownCall, putting] using pending.symm
      subst own
      obtain ⟨stored, data, close, puts', frames, noClose, closing, legal⟩ := receiving.outstanding
      have blocked : w.inbox.blocked = [packet] := by simp [Inbox.blocked, putting]
      rw [blocked] at legal
      have after :=
        Inbox.Receiving.put receiving.results receiving.others puts' frames noClose closing legal receiving.clean
        moved
      exact ⟨inv.healthy.step rfl (by simp) resumed, fun _ => ⟨after, rest⟩, fun closed => absurd isOpen closed⟩
    · cases stepped
  | receiveDies =>
    simp only [Connection.step] at stepped
    split at stepped
    · rename_i killed
      have closed : w.state ≠ .open := by
        intro isOpen
        have := (inv.receiving isOpen).2.2.2
        simp [killed] at this
      split at stepped
      · rename_i packet putting
        exact absurd putting ((inv.finished closed).idle packet)
      · cases stepped
      · cases stepped
        exact inv.leave (.inl closed) closed rfl rfl (fun f member => member) (by simp)
    · cases stepped
  | recv coroutine =>
    simp only [Connection.step] at stepped
    split at stepped
    · cases stepped
    · split at stepped
      · rename_i closed
        cases stepped
        refine ⟨inv.healthy, fun isOpen => absurd isOpen closed, fun _ => ?_⟩
        have done := inv.finished closed
        obtain ⟨n, results⟩ := done.results
        exact ⟨⟨n + 1, by simp [results, replicate_succ']⟩, done.queue, done.calls, done.incoming, done.idle⟩
      · rename_i isOpen
        obtain ⟨queue, got, same⟩ := map_eq_some_iff.mp stepped
        subst same
        obtain ⟨_, moved⟩ := QueueWorld.step_get got inv.healthy.isOpen
        exact inv.withQueue (inv.healthy.step rfl (by simp) got) (fun _ => ⟨rfl, by omega⟩) (by simp) moved
  | recvResumes coroutine =>
    obtain ⟨queue, resumed, same⟩ := map_eq_some_iff.mp stepped
    subst same
    obtain ⟨call, pending, _, moved⟩ := QueueWorld.step_resume inv.healthy resumed
    refine inv.withQueue (inv.healthy.step rfl (by simp) resumed) (fun isOpen => ⟨?_, by omega⟩)
      (fun _ _ _ => ⟨_, pending⟩) moved
    obtain ⟨receiving, _⟩ := inv.receiving isOpen
    cases call with
    | get => rfl
    | put e msecs =>
      have own := receiving.others _ e msecs pending
      omega
    | returns e => exact absurd pending (inv.healthy.delivered.plain _ e)
  | putPacket coroutine packet waitForResult =>
    simp only [Connection.step] at stepped
    split at stepped
    · cases stepped
    · split at stepped
      · cases stepped
        exact inv
      · obtain ⟨queue, _, same⟩ := map_eq_some_iff.mp stepped
        subst same
        exact inv.congr rfl rfl rfl rfl
  | senderResumes coroutine =>
    simp only [Connection.step] at stepped
    split at stepped
    · obtain ⟨queue, _, same⟩ := map_eq_some_iff.mp stepped
      subst same
      exact inv.congr rfl rfl rfl rfl
    · split at stepped
      · cases stepped
        exact inv.congr rfl rfl rfl rfl
      · cases stepped
    · cases stepped
  | sendGets | sendResumes =>
    simp only [Connection.step] at stepped
    split at stepped
    · obtain ⟨queue, _, same⟩ := map_eq_some_iff.mp stepped
      subst same
      exact inv.congr rfl rfl rfl rfl
    · cases stepped
  | wrote ok =>
    simp only [Connection.step] at stepped
    split at stepped
    · cases stepped
      cases ok with
      | true => exact inv.congr rfl rfl rfl rfl
      | false =>
        obtain ⟨closed, inbox⟩ := state_beginAbort .send abnormalClosure inv.errorCode
        exact inv.leave (quiet rfl) closed (congrArg Inbox.queue inbox) (congrArg Inbox.results inbox)
          (fun f member => (congrArg Inbox.incoming inbox) ▸ member) fun _ _ => congrArg Inbox.point inbox
    · cases stepped
  | sendDies =>
    simp only [Connection.step] at stepped
    split at stepped
    · obtain ⟨outbox, _, same⟩ := map_eq_some_iff.mp stepped
      subst same
      exact inv.congr rfl rfl rfl rfl
    · cases stepped
  | close =>
    simp only [Connection.step] at stepped
    cases stepped
    split
    · exact inv.leave (quiet rfl) (by simp) rfl rfl (fun f member => member) fun _ _ => rfl
    · exact inv
  | abort code =>
    cases stepped
    obtain ⟨closed, inbox⟩ := state_beginAbort .other code inv.errorCode
    exact inv.leave (quiet rfl) closed (congrArg Inbox.queue inbox) (congrArg Inbox.results inbox)
      (fun f member => (congrArg Inbox.incoming inbox) ▸ member) fun _ _ => congrArg Inbox.point inbox
  | abortGoesOn =>
    obtain ⟨caller, aborting, same⟩ := map_eq_some_iff.mp stepped
    subst same
    have closed : w.state ≠ .open := by
      intro isOpen
      have := (inv.receiving isOpen).2.2.1
      simp [aborting] at this
    have done := inv.finished closed
    have killed : (w.inbox.killReceive caller).Over sent ∧ (w.inbox.killReceive caller).queue = w.inbox.queue := by
      unfold Inbox.killReceive
      split
      · exact ⟨done.congr rfl rfl done.incoming (by simp), rfl⟩
      · exact ⟨done.congr rfl rfl done.incoming done.idle, rfl⟩
    obtain ⟨over', healthy⟩ := killed.1.release (killed.2 ▸ inv.healthy)
    exact ⟨healthy, fun isOpen => absurd isOpen closed, fun _ => over'⟩

omit inv

/-- If nothing that was received is left whenever a connection stops being open, then recv
returns all messages of the peer, in order, before it returns nothing. -/
theorem inOrder_of_attentive {frames close : List WebSocketFrame} {history : List (Connection × ConnectionEvent)}
    {s : Connection} (legal : conversation frames = some ⟨none, sent⟩) (data : ∀ f ∈ frames, f.opcode ≠ closeFrame)
    (closing : ∀ f ∈ close, f.opcode = closeFrame) (run : Run (connectionSystem blockSize (frames ++ close)) history w)
    (attentive : ∀ entry ∈ history, entry.1.attentive entry.2 = true) (visited : Visited history w s) :
    InOrder sent s := by
  have inv : Delivering sent s := by
    refine run.visited_of_guard (fun w e => w.attentive e = true) attentive ?_ ?_ visited
    · rintro _ ⟨receivingQueueCapacity, sendingQueueCapacity, rfl⟩
      refine ⟨.new receivingQueueCapacity, fun _ => ⟨⟨rfl, ?_, fun _ => rfl, rfl, by simp [Connection.new], .inl rfl⟩,
        rfl, rfl, rfl⟩, fun closed => absurd rfl closed⟩
      exact ⟨[], frames, close, rfl, rfl, data, closing, legal⟩
    · exact fun w e t inv attentive step => inv.step attentive step
  exact inv.inOrder

end Connection

def textInTwo : List WebSocketFrame :=
  [{ opcode := textFrame, payload := [0x61] }, { fin := true, opcode := continuationFrame, payload := [0x62] }]

def emptyClose : WebSocketFrame := { fin := true, opcode := closeFrame }

theorem inOrder_of_attentive_waitingReader : ∃ history w,
    Run (connectionSystem 65536 (textInTwo ++ [emptyClose])) history w ∧
    (∀ entry ∈ history, entry.1.attentive entry.2 = true) ∧ w.inbox.results = [some ⟨.text, [0x61, 0x62]⟩, none] ∧
    InOrder [⟨.text, [0x61, 0x62]⟩] w := by
  obtain ⟨history, w, run, _, attentive, results⟩ :=
    Run.of_exec_guarded (connectionSystem 65536 (textInTwo ++ [emptyClose])) (fun w e => w.attentive e)
      rfl [.recv 0, .frame, .frame, .recvResumes 0, .frame, .recv 0] ⟨256, 256, rfl⟩
      (fun w => w.inbox.results = [some ⟨.text, [0x61, 0x62]⟩, none]) (by decide +kernel)
  refine ⟨history, w, run, attentive, results, ?_⟩
  exact Connection.inOrder_of_attentive (by decide +kernel) (by decide) (by decide) run attentive (.inl rfl)

/-- The peer sends a message and a close frame before recv is called. -/
theorem message_lost : ∃ history w, Run (connectionSystem 65536 (textInTwo ++ [emptyClose])) history w ∧
    history.map Prod.snd = [ConnectionEvent.frame, .frame, .frame, .recv 0].reverse ∧
    conversation textInTwo = some ⟨none, [⟨.text, [0x61, 0x62]⟩]⟩ ∧ w.inbox.results = [none] ∧
    ¬ InOrder [⟨.text, [0x61, 0x62]⟩] w := by
  obtain ⟨history, w, run, labels, results⟩ :=
    Run.of_exec (connectionSystem 65536 (textInTwo ++ [emptyClose])) rfl
      [.frame, .frame, .frame, .recv 0] ⟨256, 256, rfl⟩ (fun w => w.inbox.results = [none]) (by decide +kernel)
  refine ⟨history, w, run, labels, by decide +kernel, results, ?_⟩
  rintro (⟨returned, _, same⟩ | ⟨later, same⟩)
  · rw [results] at same
    cases returned <;> cases same
  · rw [results] at same
    cases same

end Qtng.WebSocket
