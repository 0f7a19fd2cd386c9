import Qtng.General.Run

namespace Qtng

open Option

/-- An EventPrivate with the coroutines inside its wait: those registered with the
condition, and those that notifyAll has released and that have not run since. -/
structure Event where
  flag : Bool := false
  waiting : List Nat := []
  woken : List Nat := []

namespace Event

def set (event : Event) : Event :=
  if event.flag then event else { flag := true, waiting := [], woken := event.woken ++ event.waiting }

def clear (event : Event) : Event := { event with flag := false }

def register (event : Event) (coroutine : Nat) : Event := { event with waiting := event.waiting ++ [coroutine] }

def leave (event : Event) (coroutine : Nat) : Event :=
  { event with waiting := event.waiting.filter (· ≠ coroutine), woken := event.woken.filter (· ≠ coroutine) }

@[simp] theorem set_flag (event : Event) : event.set.flag = true := by
  unfold set
  split
  · assumption
  · rfl

@[simp] theorem clear_flag (event : Event) : event.clear.flag = false := rfl

@[simp] theorem register_flag (event : Event) (coroutine : Nat) : (event.register coroutine).flag = event.flag := rfl

@[simp] theorem leave_flag (event : Event) (coroutine : Nat) : (event.leave coroutine).flag = event.flag := rfl

end Event

structure ValueEvent where
  event : Event := {}
  value : Bool := false

def ValueEvent.send (done : ValueEvent) (value : Bool) : ValueEvent := { event := done.event.set, value }

inductive QueueLatch
  | notEmpty
  | notFull
deriving DecidableEq

/-- A SizedQueueType over Event and DummyReadWriteLock. -/
structure SizedQueueType (T : Type) where
  queue : List T := []
  notEmpty : Event := {}
  notFull : Event := {}
  mCapacity : UInt32
  currentSize : UInt32 := 0
  closed : Bool := false

namespace SizedQueueType

variable {T : Type} (sizeOf : T → UInt32)

def new (capacity : UInt32) : SizedQueueType T :=
  { mCapacity := capacity, notEmpty := Event.clear {}, notFull := Event.set {} }

def event (q : SizedQueueType T) : QueueLatch → Event
  | .notEmpty => q.notEmpty
  | .notFull => q.notFull

def onEvent (q : SizedQueueType T) (f : Event → Event) : QueueLatch → SizedQueueType T
  | .notEmpty => { q with notEmpty := f q.notEmpty }
  | .notFull => { q with notFull := f q.notFull }

def setCapacity (q : SizedQueueType T) (capacity : UInt32) : SizedQueueType T :=
  { q with
    mCapacity := capacity
    notFull := if q.currentSize ≥ capacity ∧ q.closed = false then q.notFull.clear else q.notFull.set }

def close (q : SizedQueueType T) : SizedQueueType T :=
  { q with closed := true, notEmpty := q.notEmpty.set, notFull := q.notFull.set }

def clear (q : SizedQueueType T) : SizedQueueType T :=
  { q with
    queue := [], currentSize := 0, notFull := q.notFull.set
    notEmpty := if q.closed = false then q.notEmpty.clear else q.notEmpty }

/-- The loop of remove, from the back of the queue: what stays, how many elements
go and their size. -/
def removeLoop [DecidableEq T] (e : T) : List T → List T × Nat × UInt32
  | [] => ([], 0, 0)
  | x :: rest =>
    let (kept, n, removedSize) := removeLoop e rest
    if x = e then (kept, n + 1, removedSize + sizeOf x) else (x :: kept, n, removedSize)

def remove [DecidableEq T] (q : SizedQueueType T) (e : T) : SizedQueueType T × Bool :=
  let (kept, n, removedSize) := removeLoop sizeOf e q.queue
  if n > 0 then
    let currentSize := q.currentSize - removedSize
    ({ q with
        queue := kept, currentSize
        notEmpty := if kept = [] then (if q.closed = false then q.notEmpty.clear else q.notEmpty) else q.notEmpty.set
        notFull := if currentSize ≥ q.mCapacity ∧ q.closed = false then q.notFull.clear else q.notFull.set }, true)
  else (q, false)

/-- What put, putForcedly, returns and returnsForcely do to an open queue, at its
front or at its back. -/
def push (q : SizedQueueType T) (front : Bool) (e : T) : SizedQueueType T :=
  let currentSize := q.currentSize + sizeOf e
  { q with
    queue := if front then e :: q.queue else q.queue ++ [e]
    currentSize
    notEmpty := q.notEmpty.set
    notFull := if currentSize ≥ q.mCapacity then q.notFull.clear else q.notFull }

def pop (q : SizedQueueType T) (e : T) (rest : List T) : SizedQueueType T :=
  let currentSize := q.currentSize - sizeOf e
  { q with
    queue := rest
    currentSize
    notEmpty := if rest = [] ∧ q.closed = false then q.notEmpty.clear else q.notEmpty
    notFull := if currentSize < q.mCapacity then q.notFull.set else q.notFull }

def total (q : SizedQueueType T) : Nat := (q.queue.map fun e => (sizeOf e).toNat).sum

end SizedQueueType

inductive QueueCall (T : Type)
  | put (e : T) (msecs : UInt32)
  | returns (e : T)
  | get

namespace QueueCall

variable {T : Type}

def latch : QueueCall T → QueueLatch
  | .get => .notEmpty
  | _ => .notFull

def msecs : QueueCall T → UInt32
  | .put _ msecs => msecs
  | _ => 4294967295

end QueueCall

/-- What has happened to a queue. A stored element comes with the size and the
capacity that its call found. -/
inductive QueueRecord (T : Type)
  | stored (e : T) (forced : Bool) (size capacity : UInt32)
  | refused (e : T)
  | taken (e : T)
  | ended
  | closed
deriving DecidableEq

/-- A queue with the coroutines that are blocked in its calls, and its history. -/
structure QueueWorld (T : Type) where
  q : SizedQueueType T
  calls : Nat → Option (QueueCall T) := fun _ => none
  log : List (QueueRecord T) := []

inductive QueueEvent (T : Type)
  | put (coroutine : Nat) (e : T) (msecs : UInt32)
  | putForcedly (e : T)
  | returns (coroutine : Nat) (e : T)
  | returnsForcely (e : T)
  | get (coroutine : Nat)
  | clear
  | remove (e : T)
  | setCapacity (capacity : UInt32)
  | close
  | resume (coroutine : Nat)
  | timeout (coroutine : Nat)
  | kill (coroutine : Nat)

namespace QueueWorld

variable {T : Type} (sizeOf : T → UInt32)

def record (s : QueueWorld T) (entry : QueueRecord T) : QueueWorld T := { s with log := s.log ++ [entry] }

def await (s : QueueWorld T) (coroutine : Nat) (call : QueueCall T) : QueueWorld T :=
  { s with
    q := s.q.onEvent (·.register coroutine) call.latch
    calls := Function.update s.calls coroutine (some call) }

def unpark (s : QueueWorld T) (coroutine : Nat) (call : QueueCall T) : QueueWorld T :=
  { s with
    q := s.q.onEvent (·.leave coroutine) call.latch
    calls := Function.update s.calls coroutine none }

theorem unpark_flag (s : QueueWorld T) (coroutine : Nat) (call : QueueCall T) (latch : QueueLatch) :
    ((s.unpark coroutine call).q.event latch).flag = (s.q.event latch).flag := by
  unfold unpark
  cases call <;> cases latch <;> rfl

/-- The four calls that store an element, from the test of the flag m_closed. -/
def store (s : QueueWorld T) (front forced : Bool) (e : T) : QueueWorld T :=
  if s.q.closed then s.record (.refused e)
  else { s with q := s.q.push sizeOf front e }.record (.stored e forced s.q.currentSize s.q.mCapacity)

def proceed (s : QueueWorld T) (coroutine : Nat) : QueueCall T → QueueWorld T
  | .put e _ => s.store sizeOf false false e
  | .returns e => s.store sizeOf true false e
  | .get =>
    match s.q.queue with
    | e :: rest => { s with q := s.q.pop sizeOf e rest }.record (.taken e)
    | [] =>
      if s.q.closed then s.record .ended
      -- the loop goes back to tryWait, which blocks on the event that was just cleared
      else { s with q := { s.q with notEmpty := s.q.notEmpty.clear } }.await coroutine .get

def giveUp (s : QueueWorld T) : QueueCall T → QueueWorld T
  | .put e _ => s.record (.refused e)
  | _ => s

def enter (s : QueueWorld T) (coroutine : Nat) (call : QueueCall T) : QueueWorld T :=
  if (s.q.event call.latch).flag then s.proceed sizeOf coroutine call
  else if call.msecs = 0 then s.giveUp call
  else s.await coroutine call

/-- The event loop runs a coroutine that was released from the condition: if the
flag was cleared in the meantime it waits again. -/
def resume (s : QueueWorld T) (coroutine : Nat) (call : QueueCall T) : QueueWorld T :=
  if (s.q.event call.latch).flag then (s.unpark coroutine call).proceed sizeOf coroutine call
  else (s.unpark coroutine call).await coroutine call

def step [DecidableEq T] (s : QueueWorld T) : QueueEvent T → Option (QueueWorld T)
  | .put coroutine e msecs =>
    if (s.calls coroutine).isNone then some (s.enter sizeOf coroutine (.put e msecs)) else none
  | .returns coroutine e => if (s.calls coroutine).isNone then some (s.enter sizeOf coroutine (.returns e)) else none
  | .get coroutine => if (s.calls coroutine).isNone then some (s.enter sizeOf coroutine .get) else none
  | .putForcedly e => some (s.store sizeOf false true e)
  | .returnsForcely e => some (s.store sizeOf true true e)
  | .clear => some { s with q := s.q.clear }
  | .remove e => some { s with q := (s.q.remove sizeOf e).1 }
  | .setCapacity capacity => some { s with q := s.q.setCapacity capacity }
  | .close => some ({ s with q := s.q.close }.record .closed)
  | .resume coroutine =>
    match s.calls coroutine with
    | none => none
    | some call => if coroutine ∈ (s.q.event call.latch).woken then some (s.resume sizeOf coroutine call) else none
  | .timeout coroutine =>
    match s.calls coroutine with
    | none => none
    | some call => if call.msecs ≠ 4294967295 then some ((s.unpark coroutine call).giveUp call) else none
  | .kill coroutine => (s.calls coroutine).map fun call => s.unpark coroutine call

inductive Step [DecidableEq T] (s : QueueWorld T) : QueueEvent T → QueueWorld T → Prop
  | put (coroutine : Nat) (e : T) (msecs : UInt32) : s.calls coroutine = none →
      Step s (.put coroutine e msecs) (s.enter sizeOf coroutine (.put e msecs))
  | returns (coroutine : Nat) (e : T) : s.calls coroutine = none →
      Step s (.returns coroutine e) (s.enter sizeOf coroutine (.returns e))
  | get (coroutine : Nat) : s.calls coroutine = none → Step s (.get coroutine) (s.enter sizeOf coroutine .get)
  | putForcedly (e : T) : Step s (.putForcedly e) (s.store sizeOf false true e)
  | returnsForcely (e : T) : Step s (.returnsForcely e) (s.store sizeOf true true e)
  | clear : Step s .clear { s with q := s.q.clear }
  | remove (e : T) : Step s (.remove e) { s with q := (s.q.remove sizeOf e).1 }
  | setCapacity (capacity : UInt32) : Step s (.setCapacity capacity) { s with q := s.q.setCapacity capacity }
  | close : Step s .close ({ s with q := s.q.close }.record .closed)
  | resume {coroutine : Nat} {call : QueueCall T} : s.calls coroutine = some call →
      coroutine ∈ (s.q.event call.latch).woken → Step s (.resume coroutine) (s.resume sizeOf coroutine call)
  | timeout {coroutine : Nat} {call : QueueCall T} : s.calls coroutine = some call → call.msecs ≠ 4294967295 →
      Step s (.timeout coroutine) ((s.unpark coroutine call).giveUp call)
  | kill {coroutine : Nat} {call : QueueCall T} : s.calls coroutine = some call →
      Step s (.kill coroutine) (s.unpark coroutine call)

theorem step_cases [DecidableEq T] {sizeOf : T → UInt32} {s t : QueueWorld T} {e : QueueEvent T}
    (stepped : s.step sizeOf e = some t) : s.Step sizeOf e t := by
  cases e with
  | putForcedly e => cases stepped; exact .putForcedly e
  | returnsForcely e => cases stepped; exact .returnsForcely e
  | clear => cases stepped; exact .clear
  | remove e => cases stepped; exact .remove e
  | setCapacity capacity => cases stepped; exact .setCapacity capacity
  | close => cases stepped; exact .close
  | put coroutine e msecs =>
    obtain ⟨free, same⟩ := ite_none_right_eq_some.mp stepped
    cases same
    exact .put coroutine e msecs (isNone_iff_eq_none.mp free)
  | returns coroutine e =>
    obtain ⟨free, same⟩ := ite_none_right_eq_some.mp stepped
    cases same
    exact .returns coroutine e (isNone_iff_eq_none.mp free)
  | get coroutine =>
    obtain ⟨free, same⟩ := ite_none_right_eq_some.mp stepped
    cases same
    exact .get coroutine (isNone_iff_eq_none.mp free)
  | resume coroutine =>
    simp only [step] at stepped
    split at stepped
    · simp at stepped
    · rename_i call pending
      obtain ⟨ready, same⟩ := ite_none_right_eq_some.mp stepped
      cases same
      exact .resume pending ready
  | timeout coroutine =>
    simp only [step] at stepped
    split at stepped
    · simp at stepped
    · rename_i call pending
      obtain ⟨timed, same⟩ := ite_none_right_eq_some.mp stepped
      cases same
      exact .timeout pending timed
  | kill coroutine =>
    obtain ⟨call, pending, same⟩ := map_eq_some_iff.mp stepped
    subst same
    exact .kill pending

end QueueWorld

end Qtng
