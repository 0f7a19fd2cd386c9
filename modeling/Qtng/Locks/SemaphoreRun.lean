import Qtng.Locks.Semaphore

namespace Qtng

/-- The functors that a semaphore and its waiters hand to callLater. -/
inductive LockCallback
  | notifyWaiters
  | yieldCurrent (coroutine : Nat)
deriving DecidableEq

/-- Where control is: in the event loop between two callbacks, in the loop of
SemaphoreNotifyWaitersFunctor, or in a coroutine that will switch back to the
one or the other. -/
inductive Control
  | loop
  | notifying
  | running (coroutine : Nat) (fromFunctor : Bool)
deriving DecidableEq

/-- One semaphore with all coroutines that use it. The frames are those of the
suspended acquire calls; holdings lists the successful acquisitions with what
is not yet released of each; failed tells whether an assertion of acquire has
been violated. -/
structure SemaphoreWorld where
  sp : SemaphorePrivate
  loop : EventLoop LockCallback
  frames : Nat → Option AcquireFrame
  control : Control
  holdings : List (Nat × Int)
  failed : Bool

/-- The switches of control and the calls of the running coroutine. A release
names the acquisition it takes from and how much of it. -/
inductive SemaphoreEvent
  | resume (coroutine : Nat)
  | acquireMany (value : Int) (msecs : Nat)
  | release (acquired value : Int)
  | leave
  | runFunctor (id : Nat)
  | wakeNext
  | timeout (id : Nat)
  | kill (coroutine : Nat)
deriving DecidableEq

namespace SemaphoreWorld

def new (n : Int) : SemaphoreWorld where
  sp := .new n
  loop := .empty
  frames := fun _ => none
  control := .loop
  holdings := []
  failed := false

/-- Control after a coroutine switches to the event loop: the functor that
woke it goes on, if there is one. -/
def returnTo (fromFunctor : Bool) : Control := if fromFunctor then .notifying else .loop

def settle (s : SemaphoreWorld) (coroutine : Nat) (value : Int) (fromFunctor : Bool) :
    AcquireOutcome LockCallback → SemaphoreWorld
  | .returned ok sp loop =>
    { s with
      sp, loop, frames := Function.update s.frames coroutine none, control := .running coroutine fromFunctor
      holdings := if ok then (coroutine, value) :: s.holdings else s.holdings }
  | .suspended frame sp loop =>
    { s with
      sp, loop, frames := Function.update s.frames coroutine (some frame), control := returnTo fromFunctor }

/-- Semaphore::acquireMany; tryAcquire is the case of one permit. -/
def acquireMany (s : SemaphoreWorld) (coroutine : Nat) (fromFunctor : Bool) (value : Int) (msecs : Nat) :
    SemaphoreWorld :=
  if value > s.sp.init_value then s
  else s.settle coroutine value fromFunctor (s.sp.acquire s.loop coroutine (.yieldCurrent coroutine) value msecs)

def release (s : SemaphoreWorld) (coroutine : Nat) (acquired value : Int) : SemaphoreWorld :=
  let freed := s.sp.release s.loop .notifyWaiters value
  let rest := s.holdings.erase (coroutine, acquired)
  { s with
    sp := freed.1, loop := freed.2
    holdings := if value < acquired then (coroutine, acquired - value) :: rest else rest }

def wakeNext (s : SemaphoreWorld) : Option SemaphoreWorld :=
  if s.sp.keepsWaking false then
    match s.sp.waiters with
    | [] => none
    | waiter :: rest =>
      (s.frames waiter).map fun frame =>
        let sp := { s.sp with waiters := rest }
        let s := { s with failed := s.failed || !sp.wakeAsserts }
        s.settle waiter frame.value true (sp.afterYield s.loop .notifyWaiters waiter frame)
  else some { s with sp := { s.sp with notified := 0 }, control := .loop }

/-- YieldCurrentFunctor, run by the event loop after the delay. -/
def timeout (s : SemaphoreWorld) (id coroutine : Nat) : SemaphoreWorld :=
  let s := { s with loop := s.loop.cancelCall id }
  match s.frames coroutine with
  | none => { s with control := .running coroutine false }
  | some frame => s.settle coroutine frame.value false (s.sp.afterYield s.loop .notifyWaiters coroutine frame)

def kill (s : SemaphoreWorld) (coroutine : Nat) (frame : AcquireFrame) : SemaphoreWorld :=
  let freed := s.sp.onException s.loop .notifyWaiters coroutine frame
  { s with
    sp := freed.1, loop := freed.2, frames := Function.update s.frames coroutine none
    control := .running coroutine false, failed := s.failed || !decide (coroutine ∈ s.sp.waiters) }

def step (s : SemaphoreWorld) : SemaphoreEvent → Option SemaphoreWorld
  | .resume coroutine =>
    if s.control = .loop ∧ s.frames coroutine = none then some { s with control := .running coroutine false }
    else none
  | .acquireMany value msecs =>
    match s.control with
    | .running coroutine fromFunctor =>
      if 1 ≤ value then some (s.acquireMany coroutine fromFunctor value msecs) else none
    | _ => none
  | .release acquired value =>
    match s.control with
    | .running coroutine _ =>
      if (coroutine, acquired) ∈ s.holdings ∧ 1 ≤ value ∧ value ≤ acquired then
        some (s.release coroutine acquired value)
      else none
    | _ => none
  | .leave =>
    match s.control with
    | .running _ fromFunctor => some { s with control := returnTo fromFunctor }
    | _ => none
  | .runFunctor id =>
    if s.control = .loop ∧ s.loop.watchers[id]? = some .notifyWaiters then
      some { s with loop := s.loop.cancelCall id, control := .notifying }
    else none
  | .wakeNext => if s.control = .notifying then s.wakeNext else none
  | .timeout id =>
    match s.control, s.loop.watchers[id]? with
    | .loop, some (.yieldCurrent coroutine) => some (s.timeout id coroutine)
    | _, _ => none
  | .kill coroutine =>
    match s.control, s.frames coroutine with
    | .loop, some frame => some (s.kill coroutine frame)
    | _, _ => none

end SemaphoreWorld

def semaphoreSystem (n : Int) : Transition.System SemaphoreWorld SemaphoreEvent :=
  .ofStep (· = .new n) SemaphoreWorld.step

namespace SemaphoreWorld

inductive StepCase (s : SemaphoreWorld) : SemaphoreEvent → SemaphoreWorld → Prop
  | resume {c} : s.control = .loop → s.frames c = none →
      StepCase s (.resume c) { s with control := .running c false }
  | acquireMany {c b value msecs} : s.control = .running c b → 1 ≤ value →
      StepCase s (.acquireMany value msecs) (s.acquireMany c b value msecs)
  | release {c b acquired value} : s.control = .running c b → (c, acquired) ∈ s.holdings →
      1 ≤ value → value ≤ acquired → StepCase s (.release acquired value) (s.release c acquired value)
  | leave {c b} : s.control = .running c b → StepCase s .leave { s with control := returnTo b }
  | runFunctor {id} : s.control = .loop → s.loop.watchers[id]? = some .notifyWaiters →
      StepCase s (.runFunctor id) { s with loop := s.loop.cancelCall id, control := .notifying }
  | wakeNext {waiter rest frame} : s.control = .notifying → s.sp.notified ≠ 0 → s.sp.counter > 0 →
      s.sp.waiters = waiter :: rest → s.frames waiter = some frame →
      StepCase s .wakeNext (s.settle waiter frame.value true
        (({ s.sp with waiters := rest } : SemaphorePrivate).afterYield s.loop .notifyWaiters waiter frame))
  | endFunctor : s.control = .notifying → (s.sp.counter > 0 → s.sp.notified ≠ 0 → s.sp.waiters = []) →
      StepCase s .wakeNext { s with sp := { s.sp with notified := 0 }, control := .loop }
  | timeout {id c} : s.control = .loop → s.loop.watchers[id]? = some (.yieldCurrent c) →
      StepCase s (.timeout id) (s.timeout id c)
  | kill {c frame} : s.control = .loop → s.frames c = some frame → StepCase s (.kill c) (s.kill c frame)

theorem step_cases {s t : SemaphoreWorld} {e : SemaphoreEvent} (step : s.step e = some t) : StepCase s e t := by
  cases e with
  | resume c =>
    simp only [SemaphoreWorld.step] at step
    split at step
    · rename_i enabled
      cases step
      exact .resume enabled.1 enabled.2
    · simp at step
  | acquireMany value msecs =>
    simp only [SemaphoreWorld.step] at step
    split at step
    · rename_i c b control
      split at step
      · rename_i positive
        cases step
        exact .acquireMany control positive
      · simp at step
    · simp at step
  | release acquired value =>
    simp only [SemaphoreWorld.step] at step
    split at step
    · rename_i c b control
      split at step
      · rename_i owned
        cases step
        exact .release control owned.1 owned.2.1 owned.2.2
      · simp at step
    · simp at step
  | leave =>
    simp only [SemaphoreWorld.step] at step
    split at step
    · rename_i c b control
      cases step
      exact .leave control
    · simp at step
  | runFunctor id =>
    simp only [SemaphoreWorld.step] at step
    split at step
    · rename_i enabled
      cases step
      exact .runFunctor enabled.1 enabled.2
    · simp at step
  | wakeNext =>
    simp only [SemaphoreWorld.step, SemaphoreWorld.wakeNext] at step
    split at step
    · rename_i control
      split at step
      · rename_i waking
        simp only [SemaphorePrivate.keepsWaking, Bool.false_eq_true, false_or, ne_eq, gt_iff_lt,
          decide_eq_true_eq] at waking
        split at step
        · simp at step
        · rename_i waiter rest queue
          obtain ⟨frame, atFrame, step⟩ := Option.map_eq_some_iff.mp step
          have asserts : ({ s.sp with waiters := rest } : SemaphorePrivate).wakeAsserts = true := by
            simpa [SemaphorePrivate.wakeAsserts] using waking.1
          rw [asserts, Bool.not_true, Bool.or_false] at step
          subst step
          exact .wakeNext control waking.1.1 waking.1.2 queue atFrame
      · rename_i idle
        simp only [SemaphorePrivate.keepsWaking, Bool.false_eq_true, false_or, ne_eq, gt_iff_lt,
          decide_eq_true_eq, not_and, not_not] at idle
        cases step
        exact .endFunctor control (fun positive notified => idle ⟨notified, positive⟩)
    · simp at step
  | timeout id =>
    simp only [SemaphoreWorld.step] at step
    split at step
    · rename_i c control pending
      cases step
      exact .timeout control pending
    · simp at step
  | kill c =>
    simp only [SemaphoreWorld.step] at step
    split at step
    · rename_i frame control atFrame
      cases step
      exact .kill control atFrame
    · simp at step

end SemaphoreWorld

end Qtng
