import Qtng.WebSocket.Connection

namespace Qtng.WebSocket

open Transition QueueRecord Function List QueueWorld

namespace Outbox

variable {w t : Outbox} {item : Outgoing}
variable {c : Nat} {queue : QueueWorld Outgoing}

def current (w : Outbox) : List Outgoing :=
  match w.point with
  | .writing item _ | .aborting item => [item]
  | .getting | .ended => []

def held (w : Outbox) : List Outgoing := w.current ++ w.queue.q.queue

/-- The coroutines in put are those in the queue's calls. -/
structure Calling (w : Outbox) : Prop where
  putters : ∀ c item, w.senders c = some (.putting item) → w.queue.calls (c + 1) = some (.put item forever)
  calls : ∀ c item msecs, w.queue.calls c = some (.put item msecs) → ∃ d, c = d + 1 ∧ w.senders d = some (.putting item)

/-- Whoever waits for an event waits for one that is set, or one of a packet that is not
answered yet; and an event says that a message was sent only if it was. -/
structure Awaiting (w : Outbox) : Prop where
  placed : ∀ c d, w.senders c = some (.waiting d) →
    c ∈ (w.dones d).event.waiting ∨ c ∈ (w.dones d).event.woken
  answered : ∀ c d, w.senders c = some (.waiting d) →
    (w.dones d).event.flag = true ∨ ∃ item ∈ w.held, item.done = some d
  quiet : ∀ d, (w.dones d).event.Quiet
  honest : ∀ d, (w.dones d).value = true → d ∈ w.written
  told : ∀ d, (d, true) ∈ w.told → d ∈ w.written

structure Accounted (w : Outbox) : Prop where
  healthy : w.queue.Healthy
  calling : w.Calling
  awaiting : w.Awaiting

variable (done : Option Nat)

variable (value : Bool)
include value

theorem answer_queue : (w.answer done value).queue = w.queue := by
  cases done <;> rfl

theorem answer_senders : (w.answer done value).senders = w.senders := by
  cases done <;> rfl

theorem answer_told : (w.answer done value).told = w.told := by
  cases done <;> rfl

theorem answer_point : (w.answer done value).point = w.point := by
  cases done <;> rfl

theorem answer_written : (w.answer done value).written = w.written := by
  cases done <;> rfl

theorem answer_killed : (w.answer done value).killed = w.killed := by
  cases done <;> rfl

theorem answer_dones (d : Nat) :
    (done = some d ∧ (w.answer done value).dones d = (w.dones d).send value) ∨
      (done ≠ some d ∧ (w.answer done value).dones d = w.dones d) := by
  cases done with
  | none => exact Or.inr ⟨by simp, rfl⟩
  | some e =>
    by_cases same : d = e
    · subst same
      exact Or.inl ⟨rfl, update_self _ _ _⟩
    · exact Or.inr ⟨by simpa using Ne.symm same, update_of_ne same _ _⟩

omit value

theorem Awaiting.answer {value : Bool} (inv : Awaiting w) (senders : t.senders = w.senders) (told : t.told = w.told)
    (dones : t.dones = (w.answer item.done value).dones) (written : ∀ d ∈ w.written, d ∈ t.written)
    (truth : value = true → ∀ d, item.done = some d → d ∈ t.written) (kept : ∀ x ∈ w.held, x = item ∨ x ∈ t.held) :
    Awaiting t := by
  have each := w.answer_dones item.done value
  have toggled : ∀ d, (w.dones d).event.Toggled (t.dones d).event := by
    intro d
    rw [dones]
    rcases each d with ⟨_, same⟩ | ⟨_, same⟩
    · rw [same]
      exact .set
    · rw [same]
      exact .same
  refine ⟨?_, ?_, fun d => (toggled d).quiet (inv.quiet d), ?_, ?_⟩
  · intro c d waits
    rw [senders] at waits
    exact ((toggled d).mem_iff c).mpr (inv.placed c d waits)
  · intro c d waits
    rw [senders] at waits
    rw [dones]
    rcases each d with ⟨_, same⟩ | ⟨different, same⟩
    · rw [same]
      exact Or.inl (Event.set_flag _)
    · rw [same]
      refine (inv.answered c d waits).imp_right ?_
      rintro ⟨x, member, itsDone⟩
      rcases kept x member with isItem | stays
      · exact absurd (isItem ▸ itsDone) different
      · exact ⟨x, stays, itsDone⟩
  · intro d positive
    rw [dones] at positive
    rcases each d with ⟨itsDone, same⟩ | ⟨_, same⟩
    · rw [same] at positive
      exact truth positive d itsDone
    · rw [same] at positive
      exact written d (inv.honest d positive)
  · intro d member
    rw [told] at member
    exact written d (inv.told d member)

theorem Awaiting.congr (inv : Awaiting w)
    (senders : ∀ c d, t.senders c = some (.waiting d) → w.senders c = some (.waiting d))
    (dones : t.dones = w.dones) (told : t.told = w.told) (written : t.written = w.written)
    (kept : ∀ x ∈ w.held, x ∈ t.held) : Awaiting t := by
  refine ⟨?_, ?_, ?_, ?_, ?_⟩
  · intro c d waits
    rw [dones]
    exact inv.placed c d (senders c d waits)
  · intro c d waits
    rw [dones]
    refine (inv.answered c d (senders c d waits)).imp_right ?_
    rintro ⟨x, member, itsDone⟩
    exact ⟨x, kept x member, itsDone⟩
  · rw [dones]
    exact inv.quiet
  · rw [dones, written]
    exact inv.honest
  · rw [told, written]
    exact inv.told

theorem Calling.update (inv : Calling w) {call : Option (QueueCall Outgoing)} {sender : Option Sender}
    (calls : t.queue.calls = update w.queue.calls (c + 1) call)
    (senders : t.senders = update w.senders c sender)
    (putter : ∀ item, sender = some (.putting item) → call = some (.put item forever))
    (known : ∀ item msecs, call = some (.put item msecs) → sender = some (.putting item)) : Calling t := by
  refine ⟨?_, ?_⟩
  · intro d item isPutting
    rw [senders] at isPutting
    rw [calls]
    by_cases same : d = c
    · subst same
      rw [update_self] at isPutting ⊢
      exact putter item isPutting
    · rw [update_of_ne same] at isPutting
      rw [update_of_ne (by omega)]
      exact inv.putters d item isPutting
  · intro d item msecs pending
    rw [calls] at pending
    rw [senders]
    by_cases same : d = c + 1
    · subst same
      rw [update_self] at pending
      exact ⟨c, rfl, by rw [update_self]; exact known item msecs pending⟩
    · rw [update_of_ne same] at pending
      obtain ⟨e, isSender, isPutting⟩ := inv.calls d item msecs pending
      exact ⟨e, isSender, by rw [update_of_ne (by omega)]; exact isPutting⟩

theorem Calling.get (inv : Calling w) {call : Option (QueueCall Outgoing)}
    (calls : t.queue.calls = Function.update w.queue.calls 0 call) (senders : t.senders = w.senders)
    (notPut : ∀ item msecs, call ≠ some (.put item msecs)) : Calling t := by
  refine ⟨?_, ?_⟩
  · intro d item isPutting
    rw [calls, update_of_ne (by omega)]
    exact inv.putters d item (senders ▸ isPutting)
  · intro d item msecs pending
    rw [calls] at pending
    by_cases same : d = 0
    · subst same
      rw [update_self] at pending
      exact absurd pending (notPut item msecs)
    · rw [update_of_ne same] at pending
      rw [senders]
      exact inv.calls d item msecs pending

theorem Calling.congr (inv : Calling w) (calls : t.queue.calls = w.queue.calls) (senders : t.senders = w.senders) :
    Calling t := by
  refine ⟨?_, ?_⟩
  · rw [calls, senders]
    exact inv.putters
  · rw [calls, senders]
    exact inv.calls

theorem afterPut_queue : (w.afterPut c item).queue = w.queue := by
  unfold afterPut
  split
  · rfl
  · split <;> rfl

theorem afterPut_senders (c : Nat) (item : Outgoing) : ∃ sender,
    (w.afterPut c item).senders = update w.senders c sender ∧ ∀ item, sender ≠ some (.putting item) := by
  unfold afterPut
  split
  · exact ⟨none, rfl, by simp⟩
  · split
    · exact ⟨none, rfl, by simp⟩
    · exact ⟨some (.waiting _), rfl, by simp⟩

theorem put_point (c : Nat) (item : Outgoing) (queue : QueueWorld Outgoing) : (w.put c item queue).point = w.point := by
  unfold put afterPut
  split
  · rfl
  · split
    · rfl
    · split <;> rfl

theorem Awaiting.afterPut (inv : Awaiting w) (member : item ∈ w.held) : Awaiting (w.afterPut c item) := by
  have others : ∀ {sender : Option Sender}, (∀ d, sender ≠ some (.waiting d)) →
      ∀ e d, update w.senders c sender e = some (.waiting d) → w.senders e = some (.waiting d) := by
    intro sender notWaiting e d waits
    by_cases same : e = c
    · subst same
      rw [update_self] at waits
      exact absurd waits (notWaiting d)
    · rwa [update_of_ne same] at waits
  unfold Outbox.afterPut
  split
  · exact inv.congr (others (by simp)) rfl rfl rfl fun x held => held
  · rename_i d itsDone
    split
    · have base : Awaiting { w with senders := update w.senders c none } :=
        inv.congr (others (by simp)) rfl rfl rfl fun x held => held
      refine ⟨base.placed, base.answered, base.quiet, base.honest, ?_⟩
      intro e told
      rcases mem_append.mp told with old | new
      · exact inv.told e old
      · obtain ⟨same, positive⟩ := Prod.mk.inj (mem_singleton.mp new)
        subst same
        exact inv.honest e positive.symm
    · rename_i unset
      refine ⟨?_, ?_, ?_, ?_, inv.told⟩
      · intro e f waits
        by_cases same : e = c
        · subst same
          have itsWait : f = d := by simpa using waits.symm
          subst itsWait
          simp [Event.register]
        · have old := inv.placed e f (by simpa [update_of_ne same] using waits)
          by_cases sameDone : f = d
          · subst sameDone
            simpa [Event.register, or_right_comm] using Or.inl old
          · simpa [update_of_ne sameDone] using old
      · intro e f waits
        by_cases same : e = c
        · subst same
          have itsWait : f = d := by simpa using waits.symm
          subst itsWait
          exact Or.inr ⟨item, member, itsDone⟩
        · have old := inv.answered e f (by simpa [update_of_ne same] using waits)
          refine old.imp_left fun flag => ?_
          by_cases sameDone : f = d
          · subst sameDone
            simpa using flag
          · simpa [update_of_ne sameDone] using flag
      · intro f
        by_cases sameDone : f = d
        · subst sameDone
          intro flag
          simp [unset] at flag
        · have old := inv.quiet f
          simpa [update_of_ne sameDone] using old
      · intro f positive
        by_cases sameDone : f = d
        · subst sameDone
          exact inv.honest f (by simpa using positive)
        · exact inv.honest f (by simpa [update_of_ne sameDone] using positive)

variable (inv : Accounted w)
include inv

theorem Accounted.put (healthy : queue.Healthy)
    (moved : w.queue.Moved (c + 1) (.put item forever) queue) : Accounted (w.put c item queue) := by
  unfold Outbox.put
  cases moved with
  | stored calls after log =>
    have free : queue.calls (c + 1) = none := by rw [calls, update_self]
    rw [free, if_neg (by simp)]
    have stored : Awaiting { w with queue } := by
      refine inv.awaiting.congr (fun _ _ waits => waits) rfl rfl rfl ?_
      intro x member
      simp only [held, after, mem_append] at member ⊢
      tauto
    have member : item ∈ held { w with queue } := by simp [held, after]
    refine ⟨?_, ?_, stored.afterPut member⟩
    · rw [afterPut_queue]
      exact healthy
    · obtain ⟨sender, senders, notPutting⟩ := afterPut_senders (w := { w with queue }) c item
      refine inv.calling.update ((congrArg QueueWorld.calls afterPut_queue).trans calls) senders ?_ (by simp)
      exact fun item isPutting => absurd isPutting (notPutting item)
  | blocked calls after log =>
    have busy : queue.calls (c + 1) = some (.put item forever) := by rw [calls, update_self]
    rw [busy, if_pos (by rfl)]
    refine ⟨healthy, inv.calling.update calls rfl ?_ ?_, ?_⟩
    · rintro _ ⟨⟩
      rfl
    · rintro _ _ ⟨⟩
      rfl
    · refine inv.awaiting.congr ?_ rfl rfl rfl ?_
      · intro e d waits
        by_cases same : e = c
        · subst same
          simp at waits
        · simpa [update_of_ne same] using waits
      · intro x member
        simpa only [held, current, after] using member

theorem Accounted.awake {d : Nat} (waits : w.senders c = some (.waiting d)) :
    Accounted (w.awake c d) := by
  have event : ∀ f, ((w.awake c d).dones f).value = (w.dones f).value ∧
      ((w.awake c d).dones f).event.flag = (w.dones f).event.flag := by
    intro f
    by_cases same : f = d
    · subst same
      simp [Outbox.awake]
    · simp [Outbox.awake, update_of_ne same]
  have others : ∀ e f, (w.awake c d).senders e = some (.waiting f) → e ≠ c ∧ w.senders e = some (.waiting f) := by
    intro e f waits
    by_cases same : e = c
    · subst same
      simp [Outbox.awake] at waits
    · exact ⟨same, by simpa [Outbox.awake, update_of_ne same] using waits⟩
  refine ⟨inv.healthy, ⟨?_, ?_⟩, ⟨?_, ?_, ?_, ?_, ?_⟩⟩
  · intro e item isPutting
    by_cases same : e = c
    · subst same
      simp [Outbox.awake] at isPutting
    · exact inv.calling.putters e item (by simpa [Outbox.awake, update_of_ne same] using isPutting)
  · intro e item msecs pending
    obtain ⟨f, isSender, isPutting⟩ := inv.calling.calls e item msecs pending
    refine ⟨f, isSender, ?_⟩
    have different : f ≠ c := by
      rintro rfl
      rw [waits] at isPutting
      cases isPutting
    simpa [Outbox.awake, update_of_ne different] using isPutting
  · intro e f waits'
    obtain ⟨different, old⟩ := others e f waits'
    have place := inv.awaiting.placed e f old
    by_cases same : f = d
    · subst same
      simpa [Outbox.awake, Event.leave, different] using place
    · simpa [Outbox.awake, update_of_ne same] using place
  · intro e f waits'
    rw [(event f).2]
    exact inv.awaiting.answered e f (others e f waits').2
  · intro f flag
    rw [(event f).2] at flag
    have empty := inv.awaiting.quiet f flag
    by_cases same : f = d
    · subst same
      simp [Outbox.awake, Event.leave, empty]
    · simpa [Outbox.awake, update_of_ne same] using empty
  · intro f positive
    rw [(event f).1] at positive
    exact inv.awaiting.honest f positive
  · intro f told
    rcases mem_append.mp told with old | new
    · exact inv.awaiting.told f old
    · obtain ⟨same, positive⟩ := Prod.mk.inj (mem_singleton.mp new)
      subst same
      exact inv.awaiting.honest f positive.symm

theorem Accounted.quit (mine : w.current = [item]) : Accounted (w.quit item) := by
  refine ⟨?_, ?_, ?_⟩
  · exact (answer_queue item.done false).symm ▸ inv.healthy
  · exact inv.calling.congr (congrArg calls (answer_queue item.done false)) (answer_senders item.done false)
  · refine inv.awaiting.answer (answer_senders item.done false) (answer_told item.done false) rfl ?_ (by simp) ?_
    · intro d member
      exact (answer_written item.done false).symm ▸ member
    · intro x member
      simp only [held, mine, cons_append, nil_append, mem_cons] at member
      refine member.imp_right fun queued => ?_
      have same : (w.quit item).queue = w.queue := answer_queue item.done false
      simp only [held, same, mem_append]
      exact Or.inr queued

theorem Accounted.finish (mine : w.current = [item]) : Accounted (w.finish item) := by
  refine ⟨?_, ?_, ?_⟩
  · exact (answer_queue item.done true).symm ▸ inv.healthy
  · exact inv.calling.congr (congrArg calls (answer_queue item.done true)) (answer_senders item.done true)
  · refine inv.awaiting.answer (answer_senders item.done true) (answer_told item.done true) rfl ?_ ?_ ?_
    · exact fun d member => mem_append_left _ member
    · intro _ d itsDone
      exact mem_append_right _ (by simp [itsDone])
    · intro x member
      simp only [held, mine, cons_append, nil_append, mem_cons] at member
      refine member.imp_right fun queued => ?_
      have same : (w.finish item).queue = w.queue := answer_queue item.done true
      simp only [held, same, mem_append]
      exact Or.inr queued

theorem Accounted.next (mine : w.current = [item]) (errorCode : Option Nat) (left : Nat) :
    Accounted (w.next errorCode item left) := by
  unfold Outbox.next
  split
  · exact inv.quit mine
  · refine ⟨inv.healthy, inv.calling.congr rfl rfl, inv.awaiting.congr (fun _ _ waits => waits) rfl rfl rfl ?_⟩
    intro x member
    rw [held, mine] at member
    exact member

omit inv

/-- What doSend does with its packet leaves the queue and the coroutines as they are. -/
structure Unmoved (w t : Outbox) : Prop where
  queue : t.queue = w.queue
  senders : t.senders = w.senders
  killed : t.killed = w.killed
  point : ∀ item, t.point ≠ .aborting item

theorem unmoved_quit (w : Outbox) (item : Outgoing) : Unmoved w (w.quit item) :=
  ⟨answer_queue _ _, answer_senders _ _, answer_killed _ _, by simp [Outbox.quit]⟩

theorem unmoved_finish (w : Outbox) (item : Outgoing) : Unmoved w (w.finish item) :=
  ⟨answer_queue _ _, answer_senders _ _, answer_killed _ _, by simp [Outbox.finish]⟩

theorem unmoved_next (w : Outbox) (errorCode : Option Nat) (item : Outgoing) (left : Nat) :
    Unmoved w (w.next errorCode item left) := by
  unfold Outbox.next
  split
  · exact unmoved_quit w item
  · exact ⟨rfl, rfl, rfl, by simp⟩

theorem Accounted.answered {rest : List Outgoing} (inv : Accounted w)
    (front : w.queue.q.queue = item :: rest) (healthy : queue.Healthy) (calls : queue.calls = w.queue.calls)
    (after : queue.q.queue = rest) : Accounted (answer { w with queue } item.done false) := by
  have same : (answer { w with queue } item.done false).queue = queue := answer_queue _ _
  refine ⟨by rw [same]; exact healthy, ?_, ?_⟩
  · exact inv.calling.congr ((congrArg QueueWorld.calls same).trans calls) (answer_senders _ _)
  · have dones : (answer { w with queue } item.done false).dones = (w.answer item.done false).dones := by
      cases item.done <;> rfl
    have written : (answer { w with queue } item.done false).written = w.written := answer_written _ _
    have point : (answer { w with queue } item.done false).point = w.point := answer_point _ _
    refine inv.awaiting.answer (answer_senders _ _) (answer_told _ _) dones ?_ (by simp) ?_
    · rw [written]
      exact fun d member => member
    · intro x member
      simp only [held, front, mem_append, mem_cons] at member
      simp only [held, current, point, same, after, mem_append]
      rcases member with mine | isItem | queued
      · exact Or.inr (Or.inl mine)
      · exact Or.inl isItem
      · exact Or.inr (Or.inr queued)

theorem Accounted.drain (inv : Accounted w) {queue : List Outgoing} (same : w.queue.q.queue = queue) :
    Accounted (w.drain queue) ∧ (w.drain queue).queue.q.queue = [] ∧ (w.drain queue).point = w.point ∧
      (w.drain queue).senders = w.senders ∧ (w.drain queue).killed = w.killed := by
  induction queue generalizing w with
  | nil => exact ⟨inv, same, rfl, rfl, rfl⟩
  | cons item rest ih =>
    have popped : w.queue.proceed unitSize 0 .get =
        { w.queue with q := w.queue.q.pop unitSize item rest }.record (.taken item) := by
      simp only [proceed, same]
    have healthy : ({ w.queue with q := w.queue.q.pop unitSize item rest }.record (.taken item)).Healthy := by
      rw [← popped]
      exact ⟨inv.healthy.delivered.proceed (by simp), inv.healthy.parked.proceed,
        closed_proceed.trans inv.healthy.isOpen⟩
    have after := inv.answered same healthy rfl rfl
    obtain ⟨inv', empty, point, senders, killed⟩ := ih after (by rw [answer_queue]; rfl)
    refine ⟨inv', empty, point.trans ?_, senders.trans ?_, killed.trans ?_⟩
    · exact answer_point _ _
    · exact answer_senders _ _
    · exact answer_killed _ _

theorem Accounted.fetched (inv : Accounted w) (getting : w.point = .getting)
    (healthy : queue.Healthy) (moved : w.queue.Moved 0 .get queue) (errorCode : Option Nat) (blockSize : Nat) :
    Accounted (w.fetched errorCode blockSize queue) := by
  unfold Outbox.fetched
  cases moved with
  | @taken item rest _ front calls after log =>
    have free : queue.calls 0 = none := by rw [calls, Function.update_self]
    rw [free, front]
    dsimp only
    let size := frameCount item.packet.payload.length blockSize
    have inHand : Accounted { w with queue, point := .writing item size } := by
      refine ⟨healthy, inv.calling.get calls rfl (by simp), inv.awaiting.congr (fun _ _ waits => waits) rfl rfl rfl ?_⟩
      intro x member
      simpa [held, current, getting, front, after] using member
    have same : Outbox.next { w with queue } errorCode item size =
        Outbox.next { w with queue, point := .writing item size } errorCode item size := by
      unfold Outbox.next Outbox.quit
      split
      · cases item.done <;> rfl
      · rfl
    rw [same]
    exact inHand.next rfl errorCode size
  | blocked calls after log =>
    have busy : queue.calls 0 = some .get := by rw [calls, Function.update_self]
    rw [busy]
    refine ⟨healthy, inv.calling.get calls rfl (by simp), inv.awaiting.congr (fun _ _ waits => waits) rfl rfl rfl ?_⟩
    intro x member
    simpa only [held, current, after] using member

theorem Accounted.die (inv : Accounted w) (died : w.die = some t) :
    Accounted t ∧ t.point = .ended ∧ t.senders = w.senders ∧
    t.queue.q.queue = w.queue.q.queue ∧ (∀ item, w.point ≠ .aborting item) := by
  unfold Outbox.die at died
  split at died
  · rename_i getting
    cases died
    have kept : ∀ x ∈ w.held, x ∈ ([] : List Outgoing) ++ w.queue.q.queue := by
      intro x member
      simpa [held, current, getting] using member
    cases pending : w.queue.calls 0 with
    | none =>
      exact ⟨⟨inv.healthy, inv.calling.congr rfl rfl, inv.awaiting.congr (fun _ _ waits => waits) rfl rfl rfl kept⟩,
        rfl, rfl,
        rfl, by simp [getting]⟩
    | some call =>
      have queue : (w.queue.unpark 0 call).q.queue = w.queue.q.queue := QueueWorld.queue_onEvent _ _ _
      have healthy : (w.queue.unpark 0 call).Healthy := ⟨inv.healthy.delivered.unpark, inv.healthy.parked.unpark,
        (SizedQueueType.closed_onEvent _ _ _).trans inv.healthy.isOpen⟩
      have calls : (w.queue.unpark 0 call).calls = Function.update w.queue.calls 0 none := rfl
      refine ⟨⟨healthy, inv.calling.get calls rfl (by simp), ?_⟩, rfl, rfl, queue, by simp [getting]⟩
      refine inv.awaiting.congr (fun _ _ waits => waits) rfl rfl rfl ?_
      intro x member
      simp only [held, current, queue]
      exact kept x member
  · rename_i item left writing
    cases died
    exact ⟨inv.quit (by simp [current, writing]), rfl, answer_senders _ _,
      congrArg (fun q => q.q.queue) (answer_queue item.done false), by simp [writing]⟩
  · cases died
  · cases died

end Outbox

end Qtng.WebSocket
