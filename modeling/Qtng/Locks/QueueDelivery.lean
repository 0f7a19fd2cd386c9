import Qtng.Locks.Queue

namespace Qtng

open List QueueEvent Transition QueueWorld Function

namespace Event

/-- An event after an operation of the queue that is no wait. -/
inductive Toggled (event : Event) : Event → Prop
  | same : Toggled event event
  | set : Toggled event event.set
  | clear : Toggled event event.clear

variable {event after : Event}

theorem Toggled.of_ite {p : Prop} [Decidable p] {yes no : Event} (first : event.Toggled yes)
    (second : event.Toggled no) :
    event.Toggled (if p then yes else no) := by
  split
  · exact first
  · exact second

theorem Toggled.mem_iff (toggled : event.Toggled after) (coroutine : Nat) :
    coroutine ∈ after.waiting ∨ coroutine ∈ after.woken ↔ coroutine ∈ event.waiting ∨ coroutine ∈ event.woken := by
  cases toggled with
  | same => exact Iff.rfl
  | clear => exact Iff.rfl
  | set =>
    unfold Event.set
    split
    · exact Iff.rfl
    · simp [or_comm]

def Quiet (event : Event) : Prop := event.flag = true → event.waiting = []

theorem Toggled.quiet (toggled : event.Toggled after) (quiet : event.Quiet) : after.Quiet := by
  cases toggled with
  | same => exact quiet
  | clear =>
    intro flag
    simp at flag
  | set =>
    unfold Event.set
    split
    · exact quiet
    · intro _
      rfl

end Event

namespace SizedQueueType

variable {T : Type} {sizeOf : T → UInt32}

variable (q : SizedQueueType T)

theorem push_toggled (front : Bool) (e : T) (latch : QueueLatch) :
    (q.event latch).Toggled ((q.push sizeOf front e).event latch) := by
  cases latch with
  | notEmpty => exact .set
  | notFull => exact .of_ite .clear .same

theorem pop_toggled (e : T) (rest : List T) (latch : QueueLatch) :
    (q.event latch).Toggled ((q.pop sizeOf e rest).event latch) := by
  cases latch with
  | notEmpty => exact .of_ite .clear .same
  | notFull => exact .of_ite .set .same

theorem close_toggled (latch : QueueLatch) :
    (q.event latch).Toggled (q.close.event latch) := by
  cases latch with
  | notEmpty => exact .set
  | notFull => exact .set

theorem event_onEvent_self (f : Event → Event) (latch : QueueLatch) :
    (q.onEvent f latch).event latch = f (q.event latch) := by
  cases latch <;> rfl

theorem event_onEvent_of_ne (f : Event → Event) {latch other : QueueLatch}
    (different : other ≠ latch) : (q.onEvent f latch).event other = q.event other := by
  cases latch <;> cases other <;> simp_all [onEvent, event]

theorem closed_onEvent (f : Event → Event) (latch : QueueLatch) :
    (q.onEvent f latch).closed = q.closed := by
  cases latch <;> rfl

end SizedQueueType

namespace QueueWorld

variable {T : Type} {sizeOf : T → UInt32} {s t : QueueWorld T}

/-- Each blocked coroutine is in the wait of the event of its call, and a closed
queue keeps both events set. -/
structure Parked (s : QueueWorld T) : Prop where
  placed : ∀ (coroutine : Nat) (call : QueueCall T), s.calls coroutine = some call →
    coroutine ∈ (s.q.event call.latch).waiting ∨ coroutine ∈ (s.q.event call.latch).woken
  quiet : ∀ latch, (s.q.event latch).Quiet
  latched : s.q.closed = true → ∀ latch, (s.q.event latch).flag = true

namespace Parked

variable {call : QueueCall T} {coroutine : Nat}

variable (inv : s.Parked)
include inv

theorem record (entry : QueueRecord T) : (s.record entry).Parked :=
  ⟨inv.placed, inv.quiet, inv.latched⟩

theorem toggle {q : SizedQueueType T}
    (toggled : ∀ latch, (s.q.event latch).Toggled (q.event latch))
    (latched : q.closed = true → ∀ latch, (q.event latch).flag = true) : ({ s with q } : QueueWorld T).Parked := by
  refine ⟨?_, ?_, latched⟩
  · intro coroutine call pending
    exact ((toggled call.latch).mem_iff coroutine).mpr (inv.placed coroutine call pending)
  · intro latch
    exact (toggled latch).quiet (inv.quiet latch)

theorem await (blocked : (s.q.event call.latch).flag = false) :
    (s.await coroutine call).Parked := by
  refine ⟨?_, ?_, ?_⟩
  · intro other theirs pending
    by_cases own : other = coroutine
    · subst own
      have same : theirs = call := by simpa [await] using pending.symm
      subst same
      simp [QueueWorld.await, SizedQueueType.event_onEvent_self, Event.register]
    · have before := inv.placed other theirs (by simpa [QueueWorld.await, own] using pending)
      by_cases latch : theirs.latch = call.latch
      · rw [latch] at before ⊢
        simp only [QueueWorld.await, SizedQueueType.event_onEvent_self, Event.register, mem_append]
        rcases before with waiting | woken
        · exact Or.inl (Or.inl waiting)
        · exact Or.inr woken
      · simp only [QueueWorld.await, SizedQueueType.event_onEvent_of_ne _ _ latch]
        exact before
  · intro latch
    by_cases own : latch = call.latch
    · subst own
      intro flag
      simp [QueueWorld.await, SizedQueueType.event_onEvent_self, blocked] at flag
    · simp only [QueueWorld.await, SizedQueueType.event_onEvent_of_ne _ _ own]
      exact inv.quiet latch
  · intro closed
    rw [QueueWorld.await, SizedQueueType.closed_onEvent] at closed
    exact absurd (inv.latched closed call.latch) (by simp [blocked])

theorem unpark : (s.unpark coroutine call).Parked := by
  refine ⟨?_, ?_, ?_⟩
  · intro other theirs pending
    have own : other ≠ coroutine := by
      intro same
      subst same
      simp [QueueWorld.unpark] at pending
    have before := inv.placed other theirs (by simpa [QueueWorld.unpark, own] using pending)
    by_cases latch : theirs.latch = call.latch
    · rw [latch] at before ⊢
      simpa [QueueWorld.unpark, SizedQueueType.event_onEvent_self, Event.leave, own] using before
    · simp only [QueueWorld.unpark, SizedQueueType.event_onEvent_of_ne _ _ latch]
      exact before
  · intro latch
    by_cases own : latch = call.latch
    · subst own
      intro flag
      have none := inv.quiet call.latch (by simpa [QueueWorld.unpark, SizedQueueType.event_onEvent_self] using flag)
      simp [QueueWorld.unpark, SizedQueueType.event_onEvent_self, Event.leave, none]
    · simp only [QueueWorld.unpark, SizedQueueType.event_onEvent_of_ne _ _ own]
      exact inv.quiet latch
  · intro closed latch
    rw [QueueWorld.unpark, SizedQueueType.closed_onEvent] at closed
    have before := inv.latched closed latch
    by_cases own : latch = call.latch
    · subst own
      simpa [QueueWorld.unpark, SizedQueueType.event_onEvent_self] using before
    · simpa [QueueWorld.unpark, SizedQueueType.event_onEvent_of_ne _ _ own] using before

theorem store {front forced : Bool} {e : T} : (s.store sizeOf front forced e).Parked := by
  unfold QueueWorld.store
  split
  · exact inv.record _
  · rename_i isOpen
    refine (inv.toggle (s.q.push_toggled front e) ?_).record _
    intro closed
    exact absurd closed isOpen

theorem proceed :
    (s.proceed sizeOf coroutine call).Parked := by
  cases call with
  | put e msecs => exact inv.store
  | returns e => exact inv.store
  | get =>
    simp only [proceed]
    split
    · rename_i e rest queue
      refine (inv.toggle (s.q.pop_toggled e rest) ?_).record _
      intro closed latch
      have before := inv.latched closed latch
      change s.q.closed = true at closed
      cases latch with
      | notEmpty => simpa [SizedQueueType.event, SizedQueueType.pop, closed] using before
      | notFull =>
        simp only [SizedQueueType.event, SizedQueueType.pop]
        split
        · exact Event.set_flag _
        · exact before
    · split
      · exact inv.record _
      · rename_i isOpen
        refine Parked.await (inv.toggle ?_ ?_) rfl
        · intro latch
          cases latch with
          | notEmpty => exact .clear
          | notFull => exact .same
        · intro closed
          exact absurd closed isOpen

theorem giveUp : (s.giveUp call).Parked := by
  cases call with
  | put e msecs => exact inv.record _
  | returns e => exact inv
  | get => exact inv

theorem enter : (s.enter sizeOf coroutine call).Parked := by
  unfold QueueWorld.enter
  split
  · exact inv.proceed
  · rename_i blocked
    split
    · exact inv.giveUp
    · exact inv.await (by simpa using blocked)

theorem resume : (s.resume sizeOf coroutine call).Parked := by
  unfold QueueWorld.resume
  split
  · exact inv.unpark.proceed
  · rename_i blocked
    refine inv.unpark.await ?_
    rw [unpark_flag]
    simpa using blocked

omit inv

end Parked

end QueueWorld

/-- The operations of a queue that is only put into and taken from, until it is closed. -/
def QueueEvent.fifo {T : Type} : QueueEvent T → Bool
  | .put .. | .putForcedly .. | .get .. | .close | .resume .. | .timeout .. | .kill .. => true
  | .returns .. | .returnsForcely .. | .clear | .remove .. | .setCapacity .. => false

namespace QueueWorld

variable {T : Type} {sizeOf : T → UInt32} {s t : QueueWorld T}
variable {call : QueueCall T} {coroutine : Nat}

theorem Parked.step [DecidableEq T] {e : QueueEvent T} (inv : s.Parked) (fifo : e.fifo = true)
    (step : s.Step sizeOf e t) : t.Parked := by
  cases step with
  | put coroutine e msecs => exact inv.enter
  | get coroutine => exact inv.enter
  | putForcedly e => exact inv.store
  | close =>
    refine (inv.toggle s.q.close_toggled ?_).record _
    intro _ latch
    cases latch <;> exact Event.set_flag _
  | resume => exact inv.resume
  | timeout => exact inv.unpark.giveUp
  | kill => exact inv.unpark
  | returns | returnsForcely | clear | remove | setCapacity => simp [QueueEvent.fifo] at fifo

theorem proceed_calls_of_closed (closed : s.q.closed = true) :
    (s.proceed sizeOf coroutine call).calls = s.calls := by
  cases call with
  | put e msecs => simp [proceed, store, closed, record]
  | returns e => simp [proceed, store, closed, record]
  | get =>
    simp only [proceed, closed, if_true]
    split <;> rfl

theorem enter_calls_of_closed (inv : s.Parked) (closed : s.q.closed = true) :
    (s.enter sizeOf coroutine call).calls = s.calls := by
  rw [enter, if_pos (inv.latched closed call.latch), proceed_calls_of_closed closed]

theorem resume_calls_of_closed (inv : s.Parked) (closed : s.q.closed = true) :
    (s.resume sizeOf coroutine call).calls = update s.calls coroutine none := by
  have still : (s.unpark coroutine call).q.closed = true := by
    rw [unpark, SizedQueueType.closed_onEvent]
    exact closed
  rw [resume, if_pos (inv.latched closed call.latch), proceed_calls_of_closed still]
  rfl

theorem Parked.returns_of_closed [DecidableEq T] (inv : s.Parked)
    (closed : s.q.closed = true) (pending : s.calls coroutine = some call) :
    ∃ u, s.step sizeOf (.resume coroutine) = some u ∧ u.calls coroutine = none := by
  have flag := inv.latched closed call.latch
  have woken : coroutine ∈ (s.q.event call.latch).woken := by
    rcases inv.placed coroutine call pending with waiting | woken
    · rw [inv.quiet call.latch flag] at waiting
      simp at waiting
    · exact woken
  refine ⟨s.resume sizeOf coroutine call, ?_, ?_⟩
  · simp [QueueWorld.step, pending, woken]
  · rw [resume_calls_of_closed inv closed, update_self]

theorem giveUp_calls (call : QueueCall T) : (s.giveUp call).calls = s.calls := by
  cases call <;> rfl

theorem Parked.stays_unblocked [DecidableEq T] {e : QueueEvent T} (inv : s.Parked)
    (closed : s.q.closed = true) (step : s.Step sizeOf e t) (free : s.calls coroutine = none) :
    t.calls coroutine = none := by
  have updated : ∀ other : Nat, update s.calls other none coroutine = none := by
    intro other
    by_cases own : coroutine = other
    · simp [own]
    · simpa [own] using free
  cases step with
  | put => rwa [enter_calls_of_closed inv closed]
  | returns => rwa [enter_calls_of_closed inv closed]
  | get => rwa [enter_calls_of_closed inv closed]
  | putForcedly => simpa [QueueWorld.store, closed, QueueWorld.record] using free
  | returnsForcely => simpa [QueueWorld.store, closed, QueueWorld.record] using free
  | clear => exact free
  | remove => exact free
  | setCapacity => exact free
  | close => exact free
  | resume =>
    rw [resume_calls_of_closed inv closed]
    exact updated _
  | timeout =>
    rw [giveUp_calls]
    exact updated _
  | kill => exact updated _

end QueueWorld

namespace QueueRecord

variable {T : Type}

def puts (log : List (QueueRecord T)) : List T :=
  log.filterMap fun
    | .stored e .. => some e
    | _ => none

def gets (log : List (QueueRecord T)) : List T :=
  log.filterMap fun
    | .taken e => some e
    | _ => none

theorem split_concat {log before after : List (QueueRecord T)} {entry x : QueueRecord T}
    (split : log ++ [entry] = before ++ x :: after) :
    (log = before ∧ entry = x ∧ after = []) ∨ ∃ earlier, after = earlier ++ [entry] ∧ log = before ++ x :: earlier := by
  rcases eq_nil_or_concat after with none | ⟨earlier, last, more⟩
  · subst none
    obtain ⟨same, entries⟩ := append_inj' split rfl
    exact Or.inl ⟨same, (cons.inj entries).1, rfl⟩
  · subst more
    rw [concat_eq_append, ← cons_append, ← append_assoc] at split
    obtain ⟨same, entries⟩ := append_inj' split rfl
    cases entries
    exact Or.inr ⟨earlier, by simp, same⟩

end QueueRecord

namespace QueueWorld

open QueueRecord

variable {T : Type} {sizeOf : T → UInt32} {s t : QueueWorld T}

/-- What is put comes out in order, nothing is put after the queue was closed, and a
call of get ends without an element only after that, when all are out. -/
structure Delivered (s : QueueWorld T) : Prop where
  plain : ∀ (coroutine : Nat) (e : T), s.calls coroutine ≠ some (.returns e)
  order : gets s.log ++ s.q.queue = puts s.log
  closing : .closed ∈ s.log ↔ s.q.closed = true
  barred : ∀ before after, s.log = before ++ .closed :: after → puts after = []
  ending : ∀ before after, s.log = before ++ .ended :: after → .closed ∈ before ∧ gets before = puts s.log

namespace Delivered

variable {call : QueueCall T} {coroutine : Nat}

variable (inv : s.Delivered)
include inv

/-- Only the log, the elements and the flag m_closed matter, as long as no call of
returns is blocked. -/
theorem congr (log : t.log = s.log) (queue : t.q.queue = s.q.queue)
    (closed : t.q.closed = s.q.closed) (plain : ∀ (coroutine : Nat) (e : T), t.calls coroutine ≠ some (.returns e)) :
    t.Delivered := by
  refine ⟨plain, ?_, ?_, ?_, ?_⟩
  · rw [log, queue]
    exact inv.order
  · rw [log, closed]
    exact inv.closing
  · rw [log]
    exact inv.barred
  · rw [log]
    exact inv.ending

theorem closed_of_split {before after : List (QueueRecord T)} {x : QueueRecord T}
    (split : s.log = before ++ x :: after) (member : .closed ∈ before ∨ x = .closed) : s.q.closed = true := by
  refine inv.closing.mp ?_
  rw [split]
  rcases member with inBefore | isClosed
  · exact mem_append_left _ inBefore
  · subst isClosed
    simp

theorem record {entry : QueueRecord T} {q : SizedQueueType T}
    (order : gets [entry] ++ q.queue = s.q.queue) (stored : puts [entry] = [])
    (closing : entry = .closed ∨ s.q.closed = true ↔ q.closed = true)
    (ending : entry = .ended → s.q.closed = true ∧ s.q.queue = []) :
    ({ s with q } : QueueWorld T).record entry |>.Delivered := by
  have putsAfter : puts (s.log ++ [entry]) = puts s.log := by
    rw [puts, filterMap_append]
    exact (congrArg _ stored).trans (append_nil _)
  refine ⟨inv.plain, ?_, ?_, ?_, ?_⟩
  · change gets (s.log ++ [entry]) ++ q.queue = puts (s.log ++ [entry])
    rw [putsAfter, ← inv.order, ← order, gets, filterMap_append, append_assoc]
    rfl
  · change .closed ∈ s.log ++ [entry] ↔ q.closed = true
    rw [← closing, ← inv.closing, mem_append, mem_singleton, or_comm, eq_comm]
  · intro before after split
    rcases split_concat split with ⟨_, _, none⟩ | ⟨earlier, more, old⟩
    · subst none
      rfl
    · subst more
      rw [puts, filterMap_append]
      exact (congrArg _ stored).trans ((append_nil _).trans (inv.barred before earlier old))
  · intro before after split
    change .closed ∈ before ∧ gets before = puts (s.log ++ [entry])
    rw [putsAfter]
    rcases split_concat split with ⟨same, isEnded, _⟩ | ⟨earlier, _, old⟩
    · obtain ⟨closed, empty⟩ := ending isEnded
      subst same
      refine ⟨inv.closing.mpr closed, ?_⟩
      rw [← inv.order, empty, append_nil]
    · exact inv.ending before earlier old

theorem push {e : T} {forced : Bool} {size capacity : UInt32} (isOpen : s.q.closed = false) :
    ({ s with q := s.q.push sizeOf false e }.record (.stored e forced size capacity)).Delivered := by
  have never : ∀ before after x, s.log = before ++ x :: after → .closed ∈ before ∨ x = .closed → False := by
    intro before after x split member
    have closed := inv.closed_of_split split member
    simp [isOpen] at closed
  refine ⟨inv.plain, ?_, ?_, ?_, ?_⟩
  · change gets (s.log ++ _) ++ (s.q.queue ++ [e]) = puts (s.log ++ _)
    simp only [gets, puts, filterMap_append]
    rw [← append_assoc]
    exact congrArg (· ++ [e]) ((congrArg (· ++ s.q.queue) (append_nil _)).trans inv.order)
  · change .closed ∈ s.log ++ _ ↔ s.q.closed = true
    rw [← inv.closing]
    simp
  · intro before after split
    rcases split_concat split with ⟨_, isClosed, _⟩ | ⟨earlier, _, old⟩
    · simp at isClosed
    · exact (never before earlier _ old (Or.inr rfl)).elim
  · intro before after split
    rcases split_concat split with ⟨_, isEnded, _⟩ | ⟨earlier, _, old⟩
    · simp at isEnded
    · exact (never before earlier _ old (Or.inl (inv.ending before earlier old).1)).elim

theorem refuse (e : T) : (s.record (.refused e)).Delivered :=
  inv.record rfl rfl (by simp) (by simp)

theorem store {forced : Bool} {e : T} : (s.store sizeOf false forced e).Delivered := by
  unfold QueueWorld.store
  split
  · exact inv.refuse e
  · rename_i isOpen
    exact inv.push (by simpa using isOpen)

theorem await (plain : ∀ e : T, call ≠ .returns e) :
    (s.await coroutine call).Delivered := by
  refine inv.congr rfl ?_ (s.q.closed_onEvent _ _) ?_
  · cases call <;> rfl
  · intro other e pending
    by_cases own : other = coroutine
    · subst own
      exact plain e (by simpa [QueueWorld.await] using pending)
    · exact inv.plain other e (by simpa [QueueWorld.await, own] using pending)

theorem unpark : (s.unpark coroutine call).Delivered := by
  refine inv.congr rfl ?_ (s.q.closed_onEvent _ _) ?_
  · cases call <;> rfl
  · intro other e pending
    by_cases own : other = coroutine
    · subst own
      simp [QueueWorld.unpark] at pending
    · exact inv.plain other e (by simpa [QueueWorld.unpark, own] using pending)

theorem giveUp : (s.giveUp call).Delivered := by
  cases call with
  | put e msecs => exact inv.refuse e
  | returns e => exact inv
  | get => exact inv

theorem proceed (plain : ∀ e : T, call ≠ .returns e) :
    (s.proceed sizeOf coroutine call).Delivered := by
  cases call with
  | put e msecs => exact inv.store
  | returns e => exact absurd rfl (plain e)
  | get =>
    simp only [proceed]
    split
    · rename_i e rest queue
      exact inv.record queue.symm rfl (by simp [SizedQueueType.pop]) (by simp)
    · rename_i empty
      split
      · rename_i closed
        exact inv.record rfl rfl (by simp) fun _ => ⟨closed, empty⟩
      · exact Delivered.await (inv.congr rfl rfl rfl inv.plain) (by simp)

theorem enter (plain : ∀ e : T, call ≠ .returns e) :
    (s.enter sizeOf coroutine call).Delivered := by
  unfold QueueWorld.enter
  split
  · exact inv.proceed plain
  · split
    · exact inv.giveUp
    · exact inv.await plain

theorem resume (plain : ∀ e : T, call ≠ .returns e) :
    (s.resume sizeOf coroutine call).Delivered := by
  unfold QueueWorld.resume
  split
  · exact inv.unpark.proceed plain
  · exact inv.unpark.await plain

theorem step [DecidableEq T] {e : QueueEvent T} (fifo : e.fifo = true)
    (step : s.Step sizeOf e t) : t.Delivered := by
  cases step with
  | put coroutine e msecs => exact inv.enter (by simp)
  | get coroutine => exact inv.enter (by simp)
  | putForcedly e => exact inv.store
  | close => exact inv.record rfl rfl (by simp [SizedQueueType.close]) (by simp)
  | @resume coroutine call pending _ =>
    refine inv.resume ?_
    intro e same
    subst same
    exact inv.plain coroutine e pending
  | timeout => exact inv.unpark.giveUp
  | kill => exact inv.unpark
  | returns | returnsForcely | clear | remove | setCapacity => simp [QueueEvent.fifo] at fifo

omit inv

end Delivered

end QueueWorld

open QueueRecord

def fifoSystem {T : Type} [DecidableEq T] (sizeOf : T → UInt32) : System (QueueWorld T) (QueueEvent T) :=
  .ofStep (fun s => ∃ capacity : UInt32, s = { q := .new capacity }) fun s e => if e.fifo then s.step sizeOf e else none

/-- The elements come out once each and in the order of the successful calls of put,
none of which succeeds after the queue was closed; get ends without an element only
after that, when all elements are out; and then whoever is blocked is about to run and
returns, and nobody blocks anew. -/
theorem queue_delivers_once_in_order {T : Type} [DecidableEq T] (sizeOf : T → UInt32)
    {history : List (QueueWorld T × QueueEvent T)} {s : QueueWorld T}
    (run : Run (fifoSystem sizeOf) history s) :
    gets s.log ++ s.q.queue = puts s.log ∧
      (∀ before after, s.log = before ++ .closed :: after → puts after = []) ∧
      (∀ before after, s.log = before ++ .ended :: after → .closed ∈ before ∧ gets before = puts s.log) ∧
      (.closed ∈ s.log →
        (∀ coroutine call, s.calls coroutine = some call →
          ∃ t, s.step sizeOf (.resume coroutine) = some t ∧ t.calls coroutine = none) ∧
        ∀ coroutine e t, s.step sizeOf e = some t → s.calls coroutine = none → t.calls coroutine = none) := by
  have initial : ∀ s, (fifoSystem sizeOf).start s → s.Delivered ∧ s.Parked := by
    intro s start
    obtain ⟨capacity, same⟩ := start
    subst same
    refine ⟨⟨by simp, rfl, by simp [SizedQueueType.new], by simp, by simp⟩, ⟨by simp, ?_, by simp [SizedQueueType.new]⟩⟩
    intro latch _
    cases latch <;> rfl
  obtain ⟨delivered, parked⟩ := run.invariant initial fun s e t inv stepped => by
    obtain ⟨fifo, accepted⟩ := Option.ite_none_right_eq_some.mp stepped
    have step := step_cases accepted
    exact ⟨inv.1.step fifo step, inv.2.step fifo step⟩
  refine ⟨delivered.order, delivered.barred, delivered.ending, ?_⟩
  intro closing
  have closed := delivered.closing.mp closing
  refine ⟨?_, ?_⟩
  · intro coroutine call pending
    exact parked.returns_of_closed closed pending
  · intro coroutine e t stepped free
    exact parked.stays_unblocked closed (step_cases stepped) free

/-- Two consumers wait for one element, a producer is blocked when the queue is
closed, and the consumers drain it. -/
def closeWhileBlocked : List (QueueEvent Nat) :=
  [.get 1, .get 2, .put 3 7 4294967295, .resume 2, .resume 1, .put 3 8 4294967295, .putForcedly 9, .resume 1,
    .put 4 10 4294967295, .put 5 11 4294967295, .close, .resume 5, .get 2, .get 2, .get 1]

theorem queue_delivers_once_in_order_closeWhileBlocked :
    ∃ history s, Run (fifoSystem fun _ : Nat => 1) history s ∧
      history.map Prod.snd = closeWhileBlocked.reverse ∧ puts s.log = [7, 8, 9, 10] ∧ gets s.log = [7, 8, 9, 10] := by
  obtain ⟨history, s, run, labels, stored, ended⟩ :=
    Run.of_exec (fifoSystem fun _ : Nat => 1) rfl closeWhileBlocked ⟨2, rfl⟩
      (fun s => puts s.log = [7, 8, 9, 10] ∧ s.q.queue = []) (by decide)
  have order := (queue_delivers_once_in_order _ run).1
  rw [ended, append_nil] at order
  exact ⟨history, s, run, labels, stored, order.trans stored⟩

end Qtng
