import Qtng.Locks.QueueDelivery

namespace Qtng

open Function SizedQueueType

/-- UINT_MAX, the timeout of calls that wait as long as it takes. -/
def forever : UInt32 := 4294967295

def unitSize {T : Type} (_ : T) : UInt32 := 1

namespace QueueWorld

open QueueRecord

variable {T : Type} {sizeOf : T → UInt32} {s t : QueueWorld T} {coroutine : Nat} {call : QueueCall T}

/-- Everything that a call of put or get can do to an open queue when its coroutine runs. -/
inductive Moved (s : QueueWorld T) (coroutine : Nat) : QueueCall T → QueueWorld T → Prop
  | stored {e : T} {msecs size capacity : UInt32} {t : QueueWorld T} : t.calls = update s.calls coroutine none →
      t.q.queue = s.q.queue ++ [e] → t.log = s.log ++ [.stored e false size capacity] →
        Moved s coroutine (.put e msecs) t
  | taken {e : T} {rest : List T} {t : QueueWorld T} : s.q.queue = e :: rest →
      t.calls = update s.calls coroutine none → t.q.queue = rest → t.log = s.log ++ [.taken e] →
      Moved s coroutine .get t
  | blocked {call : QueueCall T} {t : QueueWorld T} : t.calls = update s.calls coroutine (some call) →
      t.q.queue = s.q.queue → t.log = s.log → Moved s coroutine call t

/-- An open queue stays open, and the waiting coroutines stay where they are. -/
structure Healthy (s : QueueWorld T) : Prop where
  delivered : s.Delivered
  parked : s.Parked
  isOpen : s.q.closed = false

theorem queue_onEvent (q : SizedQueueType T) (f : Event → Event) (latch : QueueLatch) :
    (q.onEvent f latch).queue = q.queue := by
  cases latch <;> rfl

theorem moved_await (call : QueueCall T) : Moved s coroutine call (s.await coroutine call) :=
  .blocked rfl (queue_onEvent _ _ _) rfl

theorem moved_proceed (plain : ∀ e : T, call ≠ .returns e) (free : s.calls coroutine = none)
    (isOpen : s.q.closed = false) :
    Moved s coroutine call (s.proceed sizeOf coroutine call) := by
  have same : update s.calls coroutine none = s.calls := by
    rw [← free]
    exact update_eq_self _ _
  cases call with
  | returns e => exact absurd rfl (plain e)
  | put e msecs =>
    simp only [proceed, store, isOpen]
    exact .stored same.symm rfl rfl
  | get =>
    simp only [proceed]
    split
    · rename_i e rest queue
      exact .taken queue same.symm rfl rfl
    · rw [if_neg (by simp [isOpen])]
      exact .blocked rfl rfl rfl

theorem moved_enter (plain : ∀ e : T, call ≠ .returns e) (free : s.calls coroutine = none) (isOpen : s.q.closed = false)
    (patient : call.msecs ≠ 0) : Moved s coroutine call (s.enter sizeOf coroutine call) := by
  unfold enter
  split
  · exact moved_proceed plain free isOpen
  · exact moved_await call

theorem Moved.of_unpark {other : QueueCall T} (moved : Moved (s.unpark coroutine other) coroutine call t) :
    Moved s coroutine call t := by
  have queue : (s.unpark coroutine other).q.queue = s.q.queue := queue_onEvent _ _ _
  cases moved with
  | stored calls after log =>
    exact .stored (by rw [calls]; exact update_idem _ _ _) (by rw [after, queue]) log
  | taken front calls after log =>
    exact .taken (queue ▸ front) (by rw [calls]; exact update_idem _ _ _) after log
  | blocked calls after log =>
    exact .blocked (by rw [calls]; exact update_idem _ _ _) (by rw [after, queue]) log

theorem moved_resume (plain : ∀ e : T, call ≠ .returns e) (isOpen : s.q.closed = false) :
    Moved s coroutine call (s.resume sizeOf coroutine call) := by
  have free : (s.unpark coroutine call).calls coroutine = none := update_self _ _ _
  have isOpen' : (s.unpark coroutine call).q.closed = false := by
    rw [unpark, closed_onEvent]
    exact isOpen
  unfold resume
  split
  · exact (moved_proceed plain free isOpen').of_unpark
  · exact (moved_await call).of_unpark

theorem closed_proceed : (s.proceed sizeOf coroutine call).q.closed = s.q.closed := by
  have stored : ∀ front e, (s.store sizeOf front false e).q.closed = s.q.closed := by
    intro front e
    unfold store
    split <;> rfl
  cases call with
  | put e msecs => exact stored _ _
  | returns e => exact stored _ _
  | get =>
    simp only [proceed]
    split
    · rfl
    · split <;> rfl

theorem closed_enter : (s.enter sizeOf coroutine call).q.closed = s.q.closed := by
  unfold enter
  split
  · exact closed_proceed
  · split
    · cases call <;> rfl
    · exact closed_onEvent _ _ _

theorem closed_resume : (s.resume sizeOf coroutine call).q.closed = s.q.closed := by
  unfold resume
  split
  · exact closed_proceed.trans (closed_onEvent _ _ _)
  · exact (closed_onEvent _ _ _).trans (closed_onEvent _ _ _)

theorem Healthy.store (inv : s.Healthy) (e : T) : (s.store sizeOf false true e).Healthy := by
  refine ⟨inv.delivered.store, inv.parked.store, ?_⟩
  simp only [QueueWorld.store, inv.isOpen]
  exact inv.isOpen

theorem Healthy.new (capacity : UInt32) : Healthy ({ q := .new capacity } : QueueWorld T) := by
  refine ⟨⟨by simp, rfl, by simp [SizedQueueType.new], by simp, by simp⟩,
    ⟨by simp, ?_, by simp [SizedQueueType.new]⟩, rfl⟩
  intro latch _
  cases latch <;> rfl

section Steps

variable [DecidableEq T]

theorem step_put {e : T} {msecs : UInt32} (stepped : s.step sizeOf (.put coroutine e msecs) = some t)
    (patient : msecs ≠ 0) (isOpen : s.q.closed = false) :
    s.calls coroutine = none ∧ Moved s coroutine (.put e msecs) t := by
  cases step_cases stepped with
  | put _ _ _ free => exact ⟨free, moved_enter (by simp) free isOpen patient⟩

theorem step_get (stepped : s.step sizeOf (.get coroutine) = some t) (isOpen : s.q.closed = false) :
    s.calls coroutine = none ∧ Moved s coroutine .get t := by
  cases step_cases stepped with
  | get _ free => exact ⟨free, moved_enter (by simp) free isOpen (by simp [QueueCall.msecs])⟩

theorem step_resume (inv : s.Healthy) (stepped : s.step sizeOf (.resume coroutine) = some t) :
    ∃ call, s.calls coroutine = some call ∧ coroutine ∈ (s.q.event call.latch).woken ∧ Moved s coroutine call t := by
  cases step_cases stepped with
  | @resume _ call pending woken =>
    refine ⟨call, pending, woken, moved_resume ?_ inv.isOpen⟩
    intro e same
    exact inv.delivered.plain coroutine e (same ▸ pending)

theorem Healthy.step {e : QueueEvent T} (inv : s.Healthy) (fifo : e.fifo = true) (notClose : e ≠ .close)
    (stepped : s.step sizeOf e = some t) : t.Healthy := by
  have cases := step_cases stepped
  refine ⟨inv.delivered.step fifo cases, inv.parked.step fifo cases, ?_⟩
  cases cases with
  | put => exact closed_enter.trans inv.isOpen
  | get => exact closed_enter.trans inv.isOpen
  | resume => exact closed_resume.trans inv.isOpen
  | close => exact absurd rfl notClose
  | putForcedly e => exact (inv.store e).isOpen
  | @timeout coroutine call =>
    have same : (((s.unpark coroutine call).giveUp call).q.closed) = s.q.closed := by
      cases call <;> rfl
    exact same.trans inv.isOpen
  | kill => exact (closed_onEvent _ _ _).trans inv.isOpen
  | returns | returnsForcely | clear | remove | setCapacity => simp [QueueEvent.fifo] at fifo

end Steps

end QueueWorld

end Qtng
