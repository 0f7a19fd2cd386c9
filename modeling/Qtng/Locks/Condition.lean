import Qtng.Locks.Semaphore

namespace Qtng

open Function Option

/-- The functors of the locks of a condition, which are named by numbers, and
of the timeouts of its waiting coroutines. -/
inductive ConditionCallback
  | notifyWaiters (lock : Nat) (doDelete : Bool)
  | yieldCurrent (coroutine : Nat)
deriving DecidableEq

/-- Where control is. A coroutine that was woken by a functor goes back to it
when it switches to the event loop. -/
inductive ConditionControl
  | loop
  | notifying (lock : Nat) (doDelete : Bool)
  | running (coroutine : Nat) (functor : Option (Nat × Bool))
deriving DecidableEq

inductive WaitOutcome
  | returned (ok : Bool)
  | killed
deriving DecidableEq

/-- A call of notify, with the locks that were registered when it began and
those it released. -/
structure Notice where
  value : Int
  registered : List Nat
  selected : List Nat
deriving DecidableEq

/-- A condition with all coroutines that use it. Each call of wait has a lock
of its own, so that the outcome of the call is kept under the lock. -/
structure ConditionWorld where
  waiters : List Nat
  locks : Nat → SemaphorePrivate
  nextLock : Nat
  loop : EventLoop ConditionCallback
  frames : Nat → Option (Nat × AcquireFrame)
  control : ConditionControl
  outcomes : Nat → Option WaitOutcome
  notices : List Notice

inductive ConditionEvent
  | resume (coroutine : Nat)
  | wait (msecs : Nat)
  | notify (value : Int)
  | notifyAll
  | leave
  | runFunctor (id : Nat)
  | wakeNext
  | timeout (id : Nat)
  | kill (coroutine : Nat)
deriving DecidableEq

namespace ConditionWorld

def new : ConditionWorld where
  waiters := []
  locks := fun _ => .new 1
  nextLock := 0
  loop := .empty
  frames := fun _ => none
  control := .loop
  outcomes := fun _ => none
  notices := []

def returnTo : Option (Nat × Bool) → ConditionControl
  | none => .loop
  | some (lock, doDelete) => .notifying lock doDelete

/-- wait from the end of its second tryAcquire. The lock is gone with the
call, and its destructor schedules the last functor. -/
def finishWait (s : ConditionWorld) (coroutine lock : Nat) (functor : Option (Nat × Bool)) (outcome : WaitOutcome)
    (sp : SemaphorePrivate) (loop : EventLoop ConditionCallback) : ConditionWorld :=
  let freed := if outcome = .returned false then (sp, loop) else sp.release loop (.notifyWaiters lock false) 1
  let deleted := freed.1.scheduleDelete freed.2 (.notifyWaiters lock true)
  { s with
    waiters := s.waiters.filter (· ≠ lock), locks := update s.locks lock deleted.1, loop := deleted.2
    frames := update s.frames coroutine none, control := .running coroutine functor
    outcomes := update s.outcomes lock (some outcome) }

def settle (s : ConditionWorld) (coroutine lock : Nat) (functor : Option (Nat × Bool)) :
    AcquireOutcome ConditionCallback → ConditionWorld
  | .returned ok sp loop => s.finishWait coroutine lock functor (.returned ok) sp loop
  | .suspended frame sp loop =>
    { s with
      locks := update s.locks lock sp, loop
      frames := update s.frames coroutine (some (lock, frame)), control := returnTo functor }

def wait (s : ConditionWorld) (coroutine : Nat) (functor : Option (Nat × Bool)) (msecs : Nat) : ConditionWorld :=
  let lock := s.nextLock
  let s := { s with nextLock := lock + 1 }
  match (SemaphorePrivate.new 1).acquire s.loop coroutine (.yieldCurrent coroutine) 1 0 with
  | .returned true sp loop =>
    { s with waiters := s.waiters ++ [lock] }.settle coroutine lock functor
      (sp.acquire loop coroutine (.yieldCurrent coroutine) 1 msecs)
  | .returned false sp loop => s.finishWait coroutine lock functor (.returned false) sp loop
  -- a call with msecs 0 does not switch to the event loop
  | .suspended _ _ _ => s

/-- The loop of notify, with the locks that it released. -/
def notifyLoop : Nat → ConditionWorld → ConditionWorld × List Nat
  | 0, s => (s, [])
  | n + 1, s =>
    match s.waiters with
    | [] => (s, [])
    | lock :: rest =>
      let freed := (s.locks lock).release s.loop (.notifyWaiters lock false) 1
      let next := notifyLoop n
        { s with waiters := rest, locks := update s.locks lock freed.1, loop := freed.2 }
      (next.1, lock :: next.2)

def notify (s : ConditionWorld) (value : Int) : ConditionWorld :=
  let done := notifyLoop value.toNat s
  { done.1 with notices := ⟨value, s.waiters, done.2⟩ :: done.1.notices }

/-- The size of the vector is converted to int. -/
def notifyAll (s : ConditionWorld) : ConditionWorld := s.notify ((s.waiters.length : Int).bmod (2 ^ 32))

def resumeWait (s : ConditionWorld) (coroutine : Nat) (functor : Option (Nat × Bool)) : Option ConditionWorld :=
  (s.frames coroutine).map fun (lock, frame) =>
    s.settle coroutine lock functor
      ((s.locks lock).afterYield s.loop (.notifyWaiters lock false) coroutine frame)

def wakeNext (s : ConditionWorld) (lock : Nat) (doDelete : Bool) : Option ConditionWorld :=
  let sp := s.locks lock
  if sp.keepsWaking doDelete then
    match sp.waiters with
    | [] => none
    | waiter :: rest =>
      { s with locks := update s.locks lock { sp with waiters := rest } }.resumeWait waiter
        (some (lock, doDelete))
  else some { s with locks := update s.locks lock { sp with notified := 0 }, control := .loop }

def timeout (s : ConditionWorld) (id coroutine : Nat) : ConditionWorld :=
  let s := { s with loop := s.loop.cancelCall id }
  (s.resumeWait coroutine none).getD { s with control := .running coroutine none }

def kill (s : ConditionWorld) (coroutine lock : Nat) (frame : AcquireFrame) : ConditionWorld :=
  let freed := (s.locks lock).onException s.loop (.notifyWaiters lock false) coroutine frame
  s.finishWait coroutine lock none .killed freed.1 freed.2

def step (s : ConditionWorld) : ConditionEvent → Option ConditionWorld
  | .resume coroutine =>
    if s.control = .loop ∧ s.frames coroutine = none then some { s with control := .running coroutine none } else none
  | .wait msecs =>
    match s.control with
    | .running coroutine functor => some (s.wait coroutine functor msecs)
    | _ => none
  | .notify value =>
    match s.control with
    | .running _ _ => some (s.notify value)
    | _ => none
  | .notifyAll =>
    match s.control with
    | .running _ _ => some s.notifyAll
    | _ => none
  | .leave =>
    match s.control with
    | .running _ functor => some { s with control := returnTo functor }
    | _ => none
  | .runFunctor id =>
    match s.control, s.loop.watchers[id]? with
    | .loop, some (.notifyWaiters lock doDelete) =>
      some { s with loop := s.loop.cancelCall id, control := .notifying lock doDelete }
    | _, _ => none
  | .wakeNext =>
    match s.control with
    | .notifying lock doDelete => s.wakeNext lock doDelete
    | _ => none
  | .timeout id =>
    match s.control, s.loop.watchers[id]? with
    | .loop, some (.yieldCurrent coroutine) => some (s.timeout id coroutine)
    | _, _ => none
  | .kill coroutine =>
    match s.control, s.frames coroutine with
    | .loop, some (lock, frame) => some (s.kill coroutine lock frame)
    | _, _ => none

end ConditionWorld

def conditionSystem : Transition.System ConditionWorld ConditionEvent :=
  .ofStep (· = .new) ConditionWorld.step

namespace ConditionWorld

inductive StepCase (s : ConditionWorld) : ConditionEvent → ConditionWorld → Prop
  | resume {c} : s.control = .loop → s.frames c = none →
      StepCase s (.resume c) { s with control := .running c none }
  | wait {c functor msecs} : s.control = .running c functor → StepCase s (.wait msecs) (s.wait c functor msecs)
  | notify {c functor e value} : s.control = .running c functor → e = .notify value ∨ e = .notifyAll →
      StepCase s e (s.notify value)
  | leave {c functor} : s.control = .running c functor → StepCase s .leave { s with control := returnTo functor }
  | runFunctor {id lock doDelete} : s.control = .loop → s.loop.watchers[id]? = some (.notifyWaiters lock doDelete) →
      StepCase s (.runFunctor id) { s with loop := s.loop.cancelCall id, control := .notifying lock doDelete }
  | wakeNext {lock doDelete c rest own frame} : s.control = .notifying lock doDelete →
      (s.locks lock).keepsWaking doDelete = true → (s.locks lock).waiters = c :: rest →
      s.frames c = some (own, frame) →
      StepCase s .wakeNext
        ({ s with locks := update s.locks lock { s.locks lock with waiters := rest } }.settle c own
          (some (lock, doDelete))
          ((update s.locks lock { s.locks lock with waiters := rest } own).afterYield s.loop
            (.notifyWaiters own false) c frame))
  | endFunctor {lock doDelete} : s.control = .notifying lock doDelete →
      (s.locks lock).keepsWaking doDelete = false →
      StepCase s .wakeNext
        { s with locks := update s.locks lock { s.locks lock with notified := 0 }, control := .loop }
  | timeout {id c lock frame} : s.control = .loop → s.loop.watchers[id]? = some (.yieldCurrent c) →
      s.frames c = some (lock, frame) →
      StepCase s (.timeout id) ({ s with loop := s.loop.cancelCall id }.settle c lock none
        ((s.locks lock).afterYield (s.loop.cancelCall id) (.notifyWaiters lock false) c frame))
  | lateTimeout {id c} : s.control = .loop → s.loop.watchers[id]? = some (.yieldCurrent c) → s.frames c = none →
      StepCase s (.timeout id) { s with loop := s.loop.cancelCall id, control := .running c none }
  | kill {c lock frame} : s.control = .loop → s.frames c = some (lock, frame) →
      StepCase s (.kill c) (s.kill c lock frame)

theorem step_cases {s t : ConditionWorld} {e : ConditionEvent} (step : s.step e = some t) : StepCase s e t := by
  cases e with
  | resume c =>
    simp only [ConditionWorld.step] at step
    split at step
    · rename_i enabled
      cases step
      exact .resume enabled.1 enabled.2
    · simp at step
  | wait msecs =>
    simp only [ConditionWorld.step] at step
    split at step
    · rename_i c functor control
      cases step
      exact .wait control
    · simp at step
  | notify value =>
    simp only [ConditionWorld.step] at step
    split at step
    · rename_i c functor control
      cases step
      exact .notify control (Or.inl rfl)
    · simp at step
  | notifyAll =>
    simp only [ConditionWorld.step] at step
    split at step
    · rename_i c functor control
      cases some.inj step
      exact .notify control (Or.inr rfl)
    · simp at step
  | leave =>
    simp only [ConditionWorld.step] at step
    split at step
    · rename_i c functor control
      cases step
      exact .leave control
    · simp at step
  | runFunctor id =>
    simp only [ConditionWorld.step] at step
    split at step
    · rename_i lock doDelete control pending
      cases step
      exact .runFunctor control pending
    · simp at step
  | wakeNext =>
    simp only [ConditionWorld.step] at step
    split at step
    · rename_i lock doDelete control
      simp only [ConditionWorld.wakeNext] at step
      split at step
      · rename_i waking
        split at step
        · simp at step
        · rename_i c rest queue
          obtain ⟨⟨own, frame⟩, atFrame, step⟩ := map_eq_some_iff.mp step
          subst step
          exact .wakeNext control waking queue atFrame
      · rename_i idle
        cases step
        exact .endFunctor control (by simpa using idle)
    · simp at step
  | timeout id =>
    simp only [ConditionWorld.step] at step
    split at step
    · rename_i c control pending
      cases step
      cases atFrame : s.frames c with
      | none =>
        simp only [ConditionWorld.timeout, resumeWait, atFrame, map_none, getD_none]
        exact .lateTimeout control pending atFrame
      | some waiting =>
        obtain ⟨lock, frame⟩ := waiting
        simp only [ConditionWorld.timeout, resumeWait, atFrame, map_some, getD_some]
        exact .timeout control pending atFrame
    · simp at step
  | kill c =>
    simp only [ConditionWorld.step] at step
    split at step
    · rename_i lock frame control atFrame
      cases step
      exact .kill control atFrame
    · simp at step

end ConditionWorld

end Qtng
