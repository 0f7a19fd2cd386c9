import Qtng.General.Run
import Qtng.General.Map

namespace Qtng

open Std (ExtTreeMap)

/-- The one-shot callbacks of the event loop, as callLater and cancelCall see
them. Handles are never 0 and the next handle is never in use. -/
structure EventLoop (Callback : Type) where
  watchers : ExtTreeMap Nat Callback
  nextWatcherId : Nat
  positive : 0 < nextWatcherId
  fresh : ∀ id callback, watchers[id]? = some callback → id ≠ 0 ∧ id < nextWatcherId

namespace EventLoop

variable {Callback : Type}

def empty : EventLoop Callback where
  watchers := ∅
  nextWatcherId := 1
  positive := Nat.one_pos
  fresh := by simp

/-- The delay only orders the callbacks, and any order may happen here. -/
def callLater (loop : EventLoop Callback) (callback : Callback) : EventLoop Callback where
  watchers := loop.watchers.insert loop.nextWatcherId callback
  nextWatcherId := loop.nextWatcherId + 1
  positive := Nat.succ_pos _
  fresh := by
    intro id found present
    rw [NatMap.getElem?_insert] at present
    split at present
    · have positive := loop.positive
      omega
    · have old := loop.fresh id found present
      omega

def cancelCall (loop : EventLoop Callback) (callbackId : Nat) : EventLoop Callback where
  watchers := loop.watchers.erase callbackId
  nextWatcherId := loop.nextWatcherId
  positive := loop.positive
  fresh := by
    intro id found present
    rw [NatMap.getElem?_erase] at present
    split at present
    · simp at present
    · exact loop.fresh id found present

theorem callLater_watchers (loop : EventLoop Callback) (callback : Callback) (id : Nat) :
    (loop.callLater callback).watchers[id]? =
      if id = loop.nextWatcherId then some callback else loop.watchers[id]? :=
  NatMap.getElem?_insert _ _ _ _

theorem cancelCall_watchers (loop : EventLoop Callback) (callbackId id : Nat) :
    (loop.cancelCall callbackId).watchers[id]? =
      if id = callbackId then none else loop.watchers[id]? :=
  NatMap.getElem?_erase _ _ _

theorem nextWatcherId_unused (loop : EventLoop Callback) : loop.watchers[loop.nextWatcherId]? = none := by
  by_contra used
  obtain ⟨callback, present⟩ := Option.ne_none_iff_exists'.mp used
  have bound := (loop.fresh _ _ present).2
  omega

end EventLoop

def INT_MAX : Int := 2147483647

/-- The value of msecs that means to wait until success. -/
def UINT_MAX : Nat := 4294967295

structure SemaphorePrivate where
  waiters : List Nat
  init_value : Int
  counter : Int
  notified : Nat
deriving DecidableEq

/-- The local variables of an acquire call that is suspended in its wait loop. -/
structure AcquireFrame where
  value : Int
  gotNum : Int
  remain : Int
  callbackId : Nat
deriving DecidableEq

/-- What a stretch of acquire between two switches to the event loop ends in. -/
inductive AcquireOutcome (Callback : Type)
  | returned (ok : Bool) (sp : SemaphorePrivate) (loop : EventLoop Callback)
  | suspended (frame : AcquireFrame) (sp : SemaphorePrivate) (loop : EventLoop Callback)

namespace SemaphorePrivate

variable {Callback : Type}

def new (value : Int) : SemaphorePrivate where
  waiters := []
  init_value := max 1 value
  counter := value
  notified := 0

/-- The third argument is the functor that release hands to callLater. -/
def release (sp : SemaphorePrivate) (loop : EventLoop Callback) (notifyWaiters : Callback) (value : Int) :
    SemaphorePrivate × EventLoop Callback :=
  if value ≤ 0 then (sp, loop)
  else
    let counter := if sp.counter > INT_MAX - value then INT_MAX else sp.counter + value
    let sp := { sp with counter := min counter sp.init_value }
    if sp.notified = 0 ∧ sp.waiters ≠ [] then
      ({ sp with notified := loop.nextWatcherId }, loop.callLater notifyWaiters)
    else (sp, loop)

def cancelTimer (loop : EventLoop Callback) (callbackId : Nat) : EventLoop Callback :=
  if callbackId ≠ 0 then loop.cancelCall callbackId else loop

/-- The head of the wait loop: either the coroutine queues up and switches to
the event loop, or the loop is over. -/
def waitLoop (sp : SemaphorePrivate) (loop : EventLoop Callback) (current : Nat) (frame : AcquireFrame) :
    AcquireOutcome Callback :=
  if frame.remain > 0 then .suspended frame { sp with waiters := sp.waiters ++ [current] } loop
  else .returned true sp (cancelTimer loop frame.callbackId)

/-- acquire up to its first switch to the event loop. The last argument but
two is the functor of the timeout. -/
def acquire (sp : SemaphorePrivate) (loop : EventLoop Callback) (current : Nat) (yieldCurrent : Callback)
    (value : Int) (msecs : Nat) : AcquireOutcome Callback :=
  if sp.counter ≥ value then .returned true { sp with counter := sp.counter - value } loop
  else if msecs = 0 then .returned false sp loop
  else
    let callbackId := if msecs ≠ UINT_MAX then loop.nextWatcherId else 0
    let loop := if msecs ≠ UINT_MAX then loop.callLater yieldCurrent else loop
    let frame := ⟨value, sp.counter, value - sp.counter, callbackId⟩
    waitLoop { sp with counter := 0 } loop current frame

/-- acquire from the return of its switch to the event loop. A coroutine that
still finds itself among the waiters was woken by its timer. -/
def afterYield (sp : SemaphorePrivate) (loop : EventLoop Callback) (notifyWaiters : Callback) (current : Nat)
    (frame : AcquireFrame) : AcquireOutcome Callback :=
  let found := current ∈ sp.waiters
  let sp := { sp with waiters := sp.waiters.filter (· ≠ current) }
  if found then
    let freed := sp.release loop notifyWaiters frame.gotNum
    .returned false freed.1 freed.2
  else if sp.counter ≥ frame.remain then
    .returned true { sp with counter := sp.counter - frame.remain } (cancelTimer loop frame.callbackId)
  else
    let frame := { frame with gotNum := frame.gotNum + sp.counter, remain := frame.remain - sp.counter }
    waitLoop { sp with counter := 0 } loop current frame

/-- The two assertions that a coroutine woken by the functor runs into. -/
def wakeAsserts (sp : SemaphorePrivate) : Bool := sp.notified ≠ 0 ∧ sp.counter > 0

/-- acquire from an exception out of its switch to the event loop. -/
def onException (sp : SemaphorePrivate) (loop : EventLoop Callback) (notifyWaiters : Callback) (current : Nat)
    (frame : AcquireFrame) : SemaphorePrivate × EventLoop Callback :=
  let sp := { sp with waiters := sp.waiters.filter (· ≠ current) }
  sp.release (cancelTimer loop frame.callbackId) notifyWaiters frame.gotNum

def keepsWaking (sp : SemaphorePrivate) (doDelete : Bool) : Bool :=
  (doDelete ∨ (sp.notified ≠ 0 ∧ sp.counter > 0)) ∧ sp.waiters ≠ []

def scheduleDelete (sp : SemaphorePrivate) (loop : EventLoop Callback) (deleteWaiters : Callback) :
    SemaphorePrivate × EventLoop Callback :=
  let loop := if sp.notified ≠ 0 then loop.cancelCall sp.notified else loop
  ({ sp with counter := sp.init_value, notified := loop.nextWatcherId }, loop.callLater deleteWaiters)

@[simp]
theorem release_waiters (sp : SemaphorePrivate) (loop : EventLoop Callback) (wake : Callback) (value : Int) :
    (sp.release loop wake value).1.waiters = sp.waiters := by
  unfold release
  split
  · rfl
  · dsimp only
    split <;> rfl

@[simp]
theorem release_init_value (sp : SemaphorePrivate) (loop : EventLoop Callback) (wake : Callback) (value : Int) :
    (sp.release loop wake value).1.init_value = sp.init_value := by
  unfold release
  split
  · rfl
  · dsimp only
    split <;> rfl

/-- Neither saturation of release takes effect on permits that were taken
from this semaphore. -/
theorem release_counter {sp : SemaphorePrivate} {value : Int} (loop : EventLoop Callback) (wake : Callback)
    (bounded : sp.init_value ≤ INT_MAX) (nonneg : 0 ≤ value) (room : sp.counter + value ≤ sp.init_value) :
    (sp.release loop wake value).1.counter = sp.counter + value := by
  unfold release
  split
  · have zero : value = 0 := by omega
    simp [zero]
  · have below : ¬ sp.counter > INT_MAX - value := by omega
    dsimp only
    simp only [below, if_false, min_eq_left room]
    split <;> rfl

theorem release_cases (sp : SemaphorePrivate) (loop : EventLoop Callback) (wake : Callback) (value : Int) :
    ((sp.release loop wake value).1.notified = sp.notified ∧ (sp.release loop wake value).2 = loop ∧
        (value ≤ 0 ∧ (sp.release loop wake value).1.counter = sp.counter ∨ sp.notified ≠ 0 ∨ sp.waiters = [])) ∨
      (sp.notified = 0 ∧ sp.waiters ≠ [] ∧ (sp.release loop wake value).1.notified = loop.nextWatcherId ∧
        (sp.release loop wake value).2 = loop.callLater wake) := by
  unfold release
  split
  · rename_i none
    exact Or.inl ⟨rfl, rfl, Or.inl ⟨none, rfl⟩⟩
  · dsimp only
    split
    · rename_i schedule
      exact Or.inr ⟨schedule.1, schedule.2, rfl, rfl⟩
    · rename_i skip
      refine Or.inl ⟨rfl, rfl, Or.inr ?_⟩
      by_cases notified : sp.notified = 0
      · exact Or.inr (by simpa [notified] using skip)
      · exact Or.inl notified

theorem release_of_idle {sp : SemaphorePrivate} (idle : sp.waiters = []) (loop : EventLoop Callback)
    (wake : Callback) (value : Int) :
    (sp.release loop wake value).1.notified = sp.notified ∧ (sp.release loop wake value).2 = loop := by
  rcases sp.release_cases loop wake value with ⟨notified, same, _⟩ | ⟨_, waiting, _⟩
  · exact ⟨notified, same⟩
  · exact absurd idle waiting

theorem scheduleDelete_watchers (sp : SemaphorePrivate) (loop : EventLoop Callback) (callback : Callback) (id : Nat) :
    (sp.scheduleDelete loop callback).2.watchers[id]? =
      if id = loop.nextWatcherId then some callback
      else if id = sp.notified ∧ id ≠ 0 then none else loop.watchers[id]? := by
  unfold scheduleDelete
  dsimp only
  rw [EventLoop.callLater_watchers]
  by_cases notified : sp.notified = 0
  · simp only [notified, ne_eq, not_true_eq_false, if_false]
    split
    · rfl
    · rw [if_neg (by omega)]
  · simp only [notified, ne_eq, not_false_eq_true, if_true, EventLoop.cancelCall_watchers]
    change (if id = loop.nextWatcherId then _ else _) = _
    split
    · rfl
    · congr 1
      simp only [eq_iff_iff]
      omega

end SemaphorePrivate

end Qtng
