import Qtng.WebSocket.Outbox

namespace Qtng.WebSocket

open Transition QueueRecord Outbox Option Connection

/-- Nobody is about to run: no coroutine was released from an event that it waits for, and
those that were killed are gone. -/
structure Connection.Quiescent (w : Connection) : Prop where
  queue : ∀ latch, (w.outbox.queue.q.event latch).woken = []
  dones : ∀ d, (w.outbox.dones d).event.woken = []
  killed : w.outbox.killed = true → w.outbox.point = .ended

/-- After abort nobody stays in send, and at no time was anybody told that a message was
sent which was not written. -/
structure Connection.Released (w : Connection) : Prop where
  senders : w.aborted = true → w.Quiescent → ∀ coroutine, w.outbox.senders coroutine = none
  told : ∀ d, (d, true) ∈ w.outbox.told → d ∈ w.outbox.written

/-- Nobody is inside the call of put, waiting or about to run, when abort empties the
sending queue. -/
def Connection.unhurried (w : Connection) : ConnectionEvent → Bool
  | .abortGoesOn => w.outbox.queue.q.notFull.waiting.isEmpty && w.outbox.queue.q.notFull.woken.isEmpty
  | _ => true

namespace Connection

variable {w t : Connection} {blockSize : Nat}
variable {caller : Caller} {b : Outbox} {left : Nat} {item : Outgoing}

structure Sending (w : Connection) : Prop where
  accounted : w.outbox.Accounted
  mine : w.aborting = some .send ↔ ∃ item, w.outbox.point = .aborting item
  failed : w.errorCode ≠ none → w.state ≠ .open
  aborts : w.aborting ≠ none → w.errorCode ≠ none
  down : w.aborted = true → w.errorCode ≠ none ∧ w.aborting = none ∧ w.outbox.queue.q.queue = [] ∧
    (∀ c item, w.outbox.senders c ≠ some (.putting item)) ∧ (w.outbox.point = .ended ∨ w.outbox.killed = true)

variable (inv : Sending w)
include inv

theorem Sending.released : Released w := by
  refine ⟨?_, inv.accounted.awaiting.told⟩
  intro aborted quiescent c
  obtain ⟨_, _, empty, nobody, gone⟩ := inv.down aborted
  have ended : w.outbox.point = .ended := gone.elim id quiescent.killed
  cases sender : w.outbox.senders c with
  | none => rfl
  | some point =>
    cases point with
    | putting item => exact absurd sender (nobody c item)
    | waiting d =>
      have place := inv.accounted.awaiting.placed c d sender
      have flag : (w.outbox.dones d).event.flag = true := by
        rcases inv.accounted.awaiting.answered c d sender with flag | ⟨item, held, _⟩
        · exact flag
        · simp [Outbox.held, Outbox.current, ended, empty] at held
      rw [inv.accounted.awaiting.quiet d flag, quiescent.dones d] at place
      simp at place

theorem Sending.congr (outbox : t.outbox = w.outbox) (aborted : t.aborted = w.aborted)
    (errorCode : t.errorCode = w.errorCode) (aborting : t.aborting = w.aborting)
    (state : t.state = .open → w.state = .open) : Sending t := by
  refine ⟨?_, ?_, ?_, ?_, ?_⟩
  · rw [outbox]
    exact inv.accounted
  · rw [outbox, aborting]
    exact inv.mine
  · rw [errorCode]
    exact fun failed isOpen => inv.failed failed (state isOpen)
  · rw [aborting, errorCode]
    exact inv.aborts
  · rw [aborted, errorCode, aborting, outbox]
    exact inv.down

theorem Sending.beginAbort (other : caller ≠ .send) (code : Nat) :
    Sending (w.beginAbort caller code) := by
  unfold Connection.beginAbort
  split
  · exact inv
  · rename_i fine
    have fine' : w.errorCode = none := by simpa using fine
    have idle : w.aborting = none := by
      by_contra busy
      exact inv.aborts busy fine'
    refine ⟨inv.accounted, ?_, by simp, by simp, ?_⟩
    · rw [← inv.mine, idle]
      simpa using other
    · intro aborted
      exact absurd fine' (inv.down aborted).1

theorem Sending.receiveAborts (code : Nat) : Sending (w.receiveAborts code) := by
  have begun : Sending (w.beginAbort .receive code) := inv.beginAbort (by simp) code
  exact begun.congr rfl rfl rfl rfl fun isOpen => isOpen

theorem Sending.outbox (accounted : b.Accounted)
    (point : ∀ item, b.point = .aborting item ↔ w.outbox.point = .aborting item)
    (down : w.aborted = true → b.queue.q.queue = [] ∧ (∀ c item, b.senders c ≠ some (.putting item)) ∧
      (b.point = .ended ∨ b.killed = true)) : Sending { w with outbox := b } := by
  refine ⟨accounted, ?_, inv.failed, inv.aborts, ?_⟩
  · rw [inv.mine]
    exact exists_congr fun item => (point item).symm
  · intro aborted
    obtain ⟨failed, idle, _⟩ := inv.down aborted
    exact ⟨failed, idle, down aborted⟩

theorem Sending.finishAbort (aborting : w.aborting = some caller)
    (nobody : ∀ c item, w.outbox.senders c ≠ some (.putting item)) : Sending (w.finishAbort caller) := by
  obtain ⟨drained, empty, point, senders, killed⟩ := inv.accounted.drain rfl
  have failed : w.errorCode ≠ none := inv.aborts (by simp [aborting])
  have none' : ∀ item, ((w.outbox.drain w.outbox.queue.q.queue).killSend caller).point ≠ .aborting item := by
    intro item same
    unfold killSend at same
    split at same
    · split at same
      · cases same
      · rename_i notAborting
        exact notAborting item same
    · rename_i other
      have mine := inv.mine.mpr ⟨item, point ▸ same⟩
      exact other (some.inj (aborting.symm.trans mine))
  have outcome : ((w.outbox.drain w.outbox.queue.q.queue).killSend caller).Accounted ∧
      ((w.outbox.drain w.outbox.queue.q.queue).killSend caller).queue.q.queue = [] ∧
      ((w.outbox.drain w.outbox.queue.q.queue).killSend caller).senders = w.outbox.senders ∧
      (((w.outbox.drain w.outbox.queue.q.queue).killSend caller).point = .ended ∨
        ((w.outbox.drain w.outbox.queue.q.queue).killSend caller).killed = true) := by
    unfold killSend
    split
    · rename_i isSend
      obtain ⟨item, itsPoint⟩ := inv.mine.mp (isSend ▸ aborting)
      rw [← point] at itsPoint
      rw [itsPoint]
      have mine : (w.outbox.drain w.outbox.queue.q.queue).current = [item] := by simp [current, itsPoint]
      refine ⟨drained.quit mine, ?_, ?_, Or.inl rfl⟩
      · exact (congrArg (fun q => q.q.queue) (answer_queue item.done false)).trans empty
      · exact (answer_senders item.done false).trans senders
    · exact ⟨⟨drained.healthy, drained.calling.congr rfl rfl,
        drained.awaiting.congr (fun _ _ waits => waits) rfl rfl rfl fun x held => held⟩, empty, senders, Or.inr rfl⟩
  obtain ⟨accounted, empty', senders', gone⟩ := outcome
  refine ⟨accounted, ?_, fun _ => inv.failed failed, by simp [Connection.finishAbort],
    fun _ => ⟨failed, rfl, empty', ?_, gone⟩⟩
  · simpa [Connection.finishAbort] using none'
  · intro c item isPutting
    exact nobody c item (senders' ▸ isPutting)

theorem Sending.unmoved
    (writing : w.outbox.point = .writing item left) (accounted : b.Accounted) (unmoved : w.outbox.Unmoved b) :
    Sending { w with outbox := b } := by
  refine inv.outbox accounted (fun item => ?_) ?_
  · rw [writing]
    exact ⟨fun same => absurd same (unmoved.point item), fun same => absurd same (by simp)⟩
  · intro aborted
    obtain ⟨_, _, empty, nobody, gone⟩ := inv.down aborted
    rw [unmoved.queue, unmoved.senders, unmoved.killed]
    exact ⟨empty, nobody, Or.inr (gone.resolve_left (by simp [writing]))⟩

theorem Sending.fetched (getting : w.outbox.point = .getting) {queue : QueueWorld Outgoing}
    (healthy : queue.Healthy) (moved : w.outbox.queue.Moved 0 .get queue) (blockSize : Nat) :
    Sending { w with outbox := w.outbox.fetched w.errorCode blockSize queue } := by
  have accounted := inv.accounted.fetched getting healthy moved w.errorCode blockSize
  have notAborting : ∀ item, (w.outbox.fetched w.errorCode blockSize queue).point ≠ .aborting item := by
    intro item
    unfold Outbox.fetched
    split
    · exact (unmoved_next { w.outbox with queue } _ _ _).point item
    · simp [getting]
  refine inv.outbox accounted (fun item => ?_) ?_
  · rw [getting]
    exact ⟨fun same => absurd same (notAborting item), fun same => absurd same (by simp)⟩
  · intro aborted
    obtain ⟨_, _, empty, nobody, gone⟩ := inv.down aborted
    cases moved with
    | taken front => exact absurd (empty.symm.trans front) (by simp)
    | blocked calls after log =>
      have busy : queue.calls 0 = some .get := by rw [calls, Function.update_self]
      unfold Outbox.fetched
      rw [busy]
      exact ⟨after.trans empty, nobody, gone⟩

theorem Sending.wrote {ok : Bool}
    (writing : w.outbox.point = .writing item left) (stepped : w.step blockSize (.wrote ok) = some t) : Sending t := by
  have mine : w.outbox.current = [item] := by simp [current, writing]
  simp only [step, writing] at stepped
  cases stepped
  cases ok with
  | true =>
    rw [if_pos rfl]
    split
    · exact inv.unmoved writing (inv.accounted.finish mine) (unmoved_finish _ _)
    · exact inv.unmoved writing (inv.accounted.next mine _ _) (unmoved_next _ _ _ _)
  | false =>
    rw [if_neg (by simp)]
    by_cases fine : w.errorCode = none
    · have begun : w.beginAbort .send abnormalClosure =
          { w with errorCode := some abnormalClosure, state := .closed, aborting := some .send } := by
        simp [Connection.beginAbort, fine]
      rw [begun, if_pos fine]
      have accounted : Outbox.Accounted { w.outbox with point := .aborting item } := by
        refine ⟨inv.accounted.healthy, inv.accounted.calling.congr rfl rfl,
          inv.accounted.awaiting.congr (fun _ _ waits => waits) rfl rfl rfl ?_⟩
        intro x member
        rw [held, mine] at member
        exact member
      refine ⟨accounted, by simp, by simp, by simp, ?_⟩
      intro aborted
      exact absurd fine (inv.down aborted).1
    · have same : w.beginAbort .send abnormalClosure = w := by simp [Connection.beginAbort, fine]
      rw [same, if_neg fine]
      exact inv.unmoved writing (inv.accounted.quit mine) (unmoved_quit _ _)

theorem Sending.step {e : ConnectionEvent} (unhurried : w.unhurried e = true)
    (stepped : w.step blockSize e = some t) : Sending t := by
  cases e with
  | frame =>
    simp only [Connection.step] at stepped
    split at stepped
    · unfold handleFrame at stepped
      dsimp only at stepped
      split at stepped
      · cases stepped
        exact inv.congr rfl rfl rfl rfl fun isOpen => isOpen
      · cases stepped
        exact inv.congr rfl rfl rfl rfl fun isOpen => isOpen
      · obtain ⟨queue, _, same⟩ := map_eq_some_iff.mp stepped
        subst same
        exact inv.congr rfl rfl rfl rfl fun isOpen => isOpen
      · cases stepped
        exact inv.congr rfl rfl rfl rfl fun isOpen => isOpen
      · cases stepped
        exact inv.congr rfl rfl rfl rfl (by simp)
      · cases stepped
        refine Sending.receiveAborts ?_ _
        exact inv.congr rfl rfl rfl rfl fun isOpen => isOpen
    · cases stepped
  | eof =>
    simp only [Connection.step] at stepped
    split at stepped
    · cases stepped
      exact inv.receiveAborts _
    · cases stepped
  | replied ok =>
    simp only [Connection.step] at stepped
    split at stepped
    · cases stepped
      split
      · exact inv.congr rfl rfl rfl rfl fun isOpen => isOpen
      · exact inv.receiveAborts _
    · cases stepped
      exact inv.receiveAborts _
    · cases stepped
  | receiveResumes =>
    simp only [Connection.step] at stepped
    split at stepped
    · obtain ⟨queue, _, same⟩ := map_eq_some_iff.mp stepped
      subst same
      exact inv.congr rfl rfl rfl rfl fun isOpen => isOpen
    · cases stepped
  | receiveDies =>
    simp only [Connection.step] at stepped
    split at stepped
    · split at stepped
      · obtain ⟨queue, _, same⟩ := map_eq_some_iff.mp stepped
        subst same
        exact inv.congr rfl rfl rfl rfl fun isOpen => isOpen
      · cases stepped
      · cases stepped
        exact inv.congr rfl rfl rfl rfl fun isOpen => isOpen
    · cases stepped
  | recv coroutine =>
    simp only [Connection.step] at stepped
    split at stepped
    · cases stepped
    · split at stepped
      · cases stepped
        exact inv.congr rfl rfl rfl rfl fun isOpen => isOpen
      · obtain ⟨queue, _, same⟩ := map_eq_some_iff.mp stepped
        subst same
        exact inv.congr rfl rfl rfl rfl fun isOpen => isOpen
  | recvResumes coroutine =>
    obtain ⟨queue, _, same⟩ := map_eq_some_iff.mp stepped
    subst same
    exact inv.congr rfl rfl rfl rfl fun isOpen => isOpen
  | putPacket coroutine packet waitForResult =>
    simp only [Connection.step] at stepped
    split at stepped
    · cases stepped
    · rename_i free
      split at stepped
      · cases stepped
        exact inv
      · rename_i isOpen
        obtain ⟨queue, put, same⟩ := map_eq_some_iff.mp stepped
        subst same
        obtain ⟨_, moved⟩ := QueueWorld.step_put put (by decide) inv.accounted.healthy.isOpen
        have free' : w.outbox.senders coroutine = none := by simpa using free
        have before : Outbox.Accounted { w.outbox with nextDone := w.outbox.nextDone + 1 } :=
          ⟨inv.accounted.healthy, inv.accounted.calling.congr rfl rfl,
            inv.accounted.awaiting.congr (fun _ _ waits => waits) rfl rfl rfl fun x held => held⟩
        refine inv.outbox (before.put (inv.accounted.healthy.step rfl (by simp) put) moved) ?_ ?_
        · intro item
          rw [put_point]
        · intro aborted
          exact absurd (by simpa using isOpen) (inv.failed (inv.down aborted).1)
  | senderResumes coroutine =>
    simp only [Connection.step] at stepped
    split at stepped
    · rename_i item isPutting
      obtain ⟨queue, resumed, same⟩ := map_eq_some_iff.mp stepped
      subst same
      obtain ⟨call, pending, _, moved⟩ := QueueWorld.step_resume inv.accounted.healthy resumed
      have own : call = .put item forever :=
        some.inj (pending.symm.trans (inv.accounted.calling.putters coroutine item isPutting))
      subst own
      refine inv.outbox (inv.accounted.put (inv.accounted.healthy.step rfl (by simp) resumed) moved) ?_ ?_
      · intro item
        rw [put_point]
      · intro aborted
        exact absurd isPutting ((inv.down aborted).2.2.2.1 coroutine item)
    · rename_i d waits
      split at stepped
      · cases stepped
        refine inv.outbox (inv.accounted.awake waits) (fun _ => Iff.rfl) ?_
        intro aborted
        obtain ⟨_, _, empty, nobody, gone⟩ := inv.down aborted
        refine ⟨empty, ?_, gone⟩
        intro c item isPutting
        by_cases same : c = coroutine
        · subst same
          simp [awake] at isPutting
        · exact nobody c item (by simpa [awake, Function.update_of_ne same] using isPutting)
      · cases stepped
    · cases stepped
  | sendGets =>
    simp only [Connection.step] at stepped
    split at stepped
    · rename_i getting
      obtain ⟨queue, got, same⟩ := map_eq_some_iff.mp stepped
      subst same
      obtain ⟨_, moved⟩ := QueueWorld.step_get got inv.accounted.healthy.isOpen
      exact inv.fetched getting (inv.accounted.healthy.step rfl (by simp) got) moved blockSize
    · cases stepped
  | sendResumes =>
    simp only [Connection.step] at stepped
    split at stepped
    · rename_i getting
      obtain ⟨queue, resumed, same⟩ := map_eq_some_iff.mp stepped
      subst same
      obtain ⟨call, pending, _, moved⟩ := QueueWorld.step_resume inv.accounted.healthy resumed
      have isGet : call = .get := by
        cases call with
        | get => rfl
        | put item msecs =>
          obtain ⟨d, isSender, _⟩ := inv.accounted.calling.calls 0 item msecs pending
          omega
        | returns item => exact absurd pending (inv.accounted.healthy.delivered.plain 0 item)
      subst isGet
      exact inv.fetched getting (inv.accounted.healthy.step rfl (by simp) resumed) moved blockSize
    · cases stepped
  | wrote ok =>
    cases point : w.outbox.point with
    | writing item left => exact inv.wrote point stepped
    | _ => simp [Connection.step, point] at stepped
  | sendDies =>
    simp only [Connection.step] at stepped
    split at stepped
    · obtain ⟨outbox, died, same⟩ := map_eq_some_iff.mp stepped
      subst same
      obtain ⟨accounted, ended, senders, queue, notAborting⟩ := inv.accounted.die died
      refine inv.outbox accounted (fun item => ?_) ?_
      · rw [ended]
        exact ⟨fun same => absurd same (by simp), fun same => absurd same (notAborting item)⟩
      · intro aborted
        obtain ⟨_, _, empty, nobody, _⟩ := inv.down aborted
        exact ⟨queue.trans empty, senders ▸ nobody, Or.inl ended⟩
    · cases stepped
  | close =>
    cases stepped
    split
    · exact inv.congr rfl rfl rfl rfl (by simp)
    · exact inv
  | abort code =>
    cases stepped
    exact inv.beginAbort (by simp) code
  | abortGoesOn =>
    obtain ⟨caller, aborting, same⟩ := map_eq_some_iff.mp stepped
    subst same
    refine inv.finishAbort aborting ?_
    intro c item isPutting
    have pending := inv.accounted.calling.putters c item isPutting
    have place := inv.accounted.healthy.parked.placed _ _ pending
    simp only [Connection.unhurried, Bool.and_eq_true, List.isEmpty_iff] at unhurried
    rcases place with waiting | woken
    · exact absurd (unhurried.1 ▸ waiting) (by simp)
    · exact absurd (unhurried.2 ▸ woken) (by simp)

omit inv

/-- If nobody is in put when abort empties the sending queue, then abort releases every
sender, and nobody was told that a message was sent which was not written. -/
theorem released_of_unhurried {incoming : List WebSocketFrame} {history : List (Connection × ConnectionEvent)}
    {s : Connection} (run : Run (connectionSystem blockSize incoming) history w)
    (unhurried : ∀ entry ∈ history, entry.1.unhurried entry.2 = true) (visited : Visited history w s) : Released s := by
  have inv : Sending s := by
    refine run.visited_of_guard (fun w e => w.unhurried e = true) unhurried ?_ ?_ visited
    · rintro _ ⟨receivingQueueCapacity, sendingQueueCapacity, rfl⟩
      refine ⟨⟨.new sendingQueueCapacity, ⟨by simp [new], by simp [new]⟩, ?_⟩, by simp [new],
        by simp [new], by simp [new], by simp [new]⟩
      exact ⟨by simp [new], by simp [new], fun d _ => rfl, by simp [new],
        by simp [new]⟩
    · exact fun w e t inv unhurried step => inv.step unhurried step
  exact inv.released

end Connection

def byteMessage (b : UInt8) : PacketToWrite := ⟨.binary, [b]⟩

/-- One message is being written and one is in the queue. -/
def twoSenders : List ConnectionEvent :=
  [.sendGets, .putPacket 0 (byteMessage 1) true, .sendResumes, .putPacket 1 (byteMessage 2) true, .wrote true,
    .senderResumes 0, .sendGets, .putPacket 0 (byteMessage 3) true]

theorem released_of_unhurried_twoSenders : ∃ history w, Run (connectionSystem 65536 []) history w ∧
    (∀ entry ∈ history, entry.1.unhurried entry.2 = true) ∧
    (w.aborted = true ∧ w.outbox.told = [(0, true), (1, false), (2, false)] ∧ w.outbox.written = [0]) ∧
    Released w := by
  obtain ⟨history, w, run, _, unhurried, outcome⟩ :=
    Run.of_exec_guarded (connectionSystem 65536 []) (fun w e => w.unhurried e) rfl
      (twoSenders ++ [.abort goingAway, .abortGoesOn, .sendDies, .senderResumes 1, .senderResumes 0]) ⟨1, 1, rfl⟩
      (fun w => w.aborted = true ∧ w.outbox.told = [(0, true), (1, false), (2, false)] ∧ w.outbox.written = [0])
      (by decide +kernel)
  exact ⟨history, w, run, unhurried, outcome, released_of_unhurried run unhurried (Or.inl rfl)⟩

/-- A third sender waits for room in the queue when abort empties it; afterwards everybody
who can run does so. -/
def thirdSender : List ConnectionEvent :=
  twoSenders ++ [.putPacket 2 (byteMessage 4) true, .abort goingAway, .abortGoesOn, .sendDies, .senderResumes 1,
    .senderResumes 0, .senderResumes 2]

theorem thirdSender_runs : (exec (step 65536) (.new 1 1 []) thirdSender).isSome = true := by decide +kernel

def afterThirdSender : Connection := (exec (step 65536) (.new 1 1 []) thirdSender).get thirdSender_runs

theorem afterThirdSender_quiescent : afterThirdSender.Quiescent := by
  refine ⟨?_, ?_, by decide +kernel⟩
  · intro latch
    cases latch <;> decide +kernel
  · intro d
    match d with
    | 0 | 1 | 2 | 3 => decide +kernel
    | n + 4 => rfl

/-- The third sender has put its packet into the queue of a connection that is gone. -/
theorem sender_left_behind : ∃ history, Run (connectionSystem 65536 []) history afterThirdSender ∧
    history.map Prod.snd = thirdSender.reverse ∧ afterThirdSender.aborted = true ∧ afterThirdSender.Quiescent ∧
    afterThirdSender.outbox.senders 2 = some (.waiting 3) ∧ ¬ Released afterThirdSender := by
  obtain ⟨history, run, labels, _⟩ := @Run.extend_exec Connection ConnectionEvent (connectionSystem 65536 [])
    (step 65536) (fun _ _ => True) (fun _ _ _ step => ⟨step, trivial⟩) thirdSender [] (.new 1 1 []) afterThirdSender
    (.start ⟨1, 1, rfl⟩) (some_get thirdSender_runs).symm
  have aborted : afterThirdSender.aborted = true := by decide +kernel
  have waits : afterThirdSender.outbox.senders 2 = some (.waiting 3) := by decide +kernel
  refine ⟨history, by simpa using run, labels, aborted, afterThirdSender_quiescent, waits, fun released => ?_⟩
  have free := released.senders aborted afterThirdSender_quiescent 2
  rw [waits] at free
  cases free

end Qtng.WebSocket
