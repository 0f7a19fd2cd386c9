import Qtng.Locks.Queue

namespace Qtng

open Transition

namespace SizedQueueType

variable {T : Type} {sizeOf : T → UInt32} {q : SizedQueueType T}

/-- The size and the latches say what the queue holds. -/
structure Truthful (sizeOf : T → UInt32) (q : SizedQueueType T) : Prop where
  size : q.currentSize.toNat = q.total sizeOf
  notEmpty : q.notEmpty.flag = true ↔ q.queue ≠ [] ∨ q.closed = true
  notFull : q.notFull.flag = true ↔ q.currentSize < q.mCapacity ∨ q.closed = true

theorem total_push (q : SizedQueueType T) (front : Bool) (e : T) :
    (q.push sizeOf front e).total sizeOf = q.total sizeOf + (sizeOf e).toNat := by
  unfold total push
  cases front
  · simp
  · simp [Nat.add_comm]

theorem truthful_push_iff (front : Bool) (e : T) (inv : q.Truthful sizeOf) (isOpen : q.closed = false) :
    (q.push sizeOf front e).Truthful sizeOf ↔ q.total sizeOf + (sizeOf e).toNat < 2 ^ 32 := by
  have sum : (q.push sizeOf front e).currentSize.toNat = (q.total sizeOf + (sizeOf e).toNat) % 2 ^ 32 := by
    rw [← inv.size]
    exact UInt32.toNat_add _ _
  constructor
  · intro after
    have size := after.size
    rw [total_push, sum] at size
    omega
  · intro small
    refine ⟨?_, ?_, ?_⟩
    · rw [total_push, sum, Nat.mod_eq_of_lt small]
    · cases front <;> simp [push]
    · have before := inv.notFull
      have grown : q.currentSize ≤ q.currentSize + sizeOf e := by
        rw [UInt32.le_iff_toNat_le, inv.size]
        refine Nat.le_trans (Nat.le_add_right _ (sizeOf e).toNat) (le_of_eq ?_)
        rw [← Nat.mod_eq_of_lt small, ← sum]
        rfl
      simp only [push, isOpen, Bool.false_eq_true, or_false] at before ⊢
      split
      · rename_i full
        simpa using UInt32.not_lt.mpr full
      · rename_i room
        have room := UInt32.not_le.mp room
        have earlier := before.mpr (UInt32.lt_of_le_of_lt grown room)
        simp [earlier, room]

theorem Truthful.pop {e : T} {rest : List T} (inv : q.Truthful sizeOf) (queue : q.queue = e :: rest) :
    (q.pop sizeOf e rest).Truthful sizeOf := by
  have sum : q.currentSize.toNat = (sizeOf e).toNat + (q.pop sizeOf e rest).total sizeOf := by
    rw [inv.size, total, queue]
    rfl
  have within : sizeOf e ≤ q.currentSize := by
    rw [UInt32.le_iff_toNat_le]
    omega
  have less : (q.currentSize - sizeOf e).toNat = (q.pop sizeOf e rest).total sizeOf := by
    rw [UInt32.toNat_sub_of_le _ _ within]
    omega
  refine ⟨less, ?_, ?_⟩
  · have before : q.notEmpty.flag = true := inv.notEmpty.mpr (.inl (by simp [queue]))
    simp only [SizedQueueType.pop]
    split
    · rename_i last
      simp [last]
    · rename_i more
      rw [not_and_or, Bool.not_eq_false] at more
      simp [before, more]
  · have before := inv.notFull
    simp only [SizedQueueType.pop]
    split
    · rename_i room
      simp [room]
    · rename_i full
      have shrunk : q.currentSize - sizeOf e ≤ q.currentSize := UInt32.sub_le within
      have still : ¬ q.currentSize < q.mCapacity := fun room => full (UInt32.lt_of_le_of_lt shrunk room)
      simp only [still, full, false_or] at before ⊢
      exact before

theorem Truthful.setCapacity (inv : q.Truthful sizeOf) (capacity : UInt32) :
    (q.setCapacity capacity).Truthful sizeOf := by
  refine ⟨inv.size, inv.notEmpty, ?_⟩
  simp only [SizedQueueType.setCapacity]
  split
  · rename_i full
    simp [full]
  · rename_i room
    rw [not_and_or, Bool.not_eq_false, ge_iff_le, UInt32.not_le] at room
    simp [room]

theorem Truthful.close (inv : q.Truthful sizeOf) : q.close.Truthful sizeOf :=
  ⟨inv.size, by simp [SizedQueueType.close], by simp [SizedQueueType.close]⟩

theorem Truthful.clear (inv : q.Truthful sizeOf) (positive : 0 < q.mCapacity) : q.clear.Truthful sizeOf := by
  refine ⟨rfl, ?_, ?_⟩
  · have before := inv.notEmpty
    simp only [SizedQueueType.clear]
    split
    · rename_i isOpen
      simp [isOpen]
    · rename_i closed
      simp [Bool.not_eq_false _ ▸ closed] at before ⊢
      exact before
  · simp [SizedQueueType.clear, positive]

theorem removeLoop_total [DecidableEq T] (sizeOf : T → UInt32) (e : T) (xs : List T) :
    (xs.map fun x => (sizeOf x).toNat).sum =
        ((removeLoop sizeOf e xs).1.map fun x => (sizeOf x).toNat).sum +
          (removeLoop sizeOf e xs).2.1 * (sizeOf e).toNat ∧
      (removeLoop sizeOf e xs).2.2.toNat = (removeLoop sizeOf e xs).2.1 * (sizeOf e).toNat % 2 ^ 32 := by
  induction xs with
  | nil => simp [removeLoop]
  | cons x rest ih =>
    obtain ⟨sum, removed⟩ := ih
    unfold removeLoop
    dsimp only
    split
    · rename_i same
      subst same
      dsimp only
      rw [List.map_cons, List.sum_cons, sum, UInt32.toNat_add, removed, Nat.mod_add_mod, Nat.succ_mul]
      exact ⟨by ring, rfl⟩
    · dsimp only
      rw [List.map_cons, List.sum_cons, List.map_cons, List.sum_cons, sum, Nat.add_assoc]
      exact ⟨rfl, removed⟩

theorem Truthful.remove [DecidableEq T] (inv : q.Truthful sizeOf) (e : T) : (q.remove sizeOf e).1.Truthful sizeOf := by
  obtain ⟨sum, removed⟩ := removeLoop_total sizeOf e q.queue
  unfold SizedQueueType.remove
  dsimp only
  split
  · have size := inv.size
    unfold total at size
    have bound := q.currentSize.toNat_lt
    rw [Nat.mod_eq_of_lt (by omega)] at removed
    have within : (removeLoop sizeOf e q.queue).2.2 ≤ q.currentSize := by
      rw [UInt32.le_iff_toNat_le]
      omega
    refine ⟨?_, ?_, ?_⟩
    · dsimp only [total]
      rw [UInt32.toNat_sub_of_le _ _ within]
      omega
    · dsimp only
      split
      · rename_i none
        have before := inv.notEmpty
        split
        · rename_i isOpen
          simp [none, isOpen]
        · rename_i closed
          rw [Bool.not_eq_false] at closed
          simp [closed] at before ⊢
          exact before
      · rename_i some
        simp [some]
    · dsimp only
      split
      · rename_i full
        simp [full]
      · rename_i room
        rw [not_and_or, Bool.not_eq_false, ge_iff_le, UInt32.not_le] at room
        simp [room]
  · exact inv

theorem truthful_onEvent_iff {f : Event → Event} (q : SizedQueueType T) (keep : ∀ event, (f event).flag = event.flag)
    (latch : QueueLatch) :
    (q.onEvent f latch).Truthful sizeOf ↔ q.Truthful sizeOf := by
  have back : ∀ p : SizedQueueType T, p.Truthful sizeOf ↔ p.currentSize.toNat = p.total sizeOf ∧
      (p.notEmpty.flag = true ↔ p.queue ≠ [] ∨ p.closed = true) ∧
      (p.notFull.flag = true ↔ p.currentSize < p.mCapacity ∨ p.closed = true) :=
    fun p => ⟨fun inv => ⟨inv.size, inv.notEmpty, inv.notFull⟩, fun all => ⟨all.1, all.2.1, all.2.2⟩⟩
  cases latch <;> simp [back, onEvent, total, keep]

end SizedQueueType

namespace QueueWorld

variable {T : Type} {sizeOf : T → UInt32} {s t : QueueWorld T}
variable {call : QueueCall T} {coroutine : Nat}

/-- The queue is truthful, and each call of put or returns that stored an element
found the size below the capacity. -/
structure Truthful (sizeOf : T → UInt32) (s : QueueWorld T) : Prop where
  queue : s.q.Truthful sizeOf
  admitted : ∀ (e : T) (size capacity : UInt32), .stored e false size capacity ∈ s.log → size < capacity

theorem truthful_record_iff {entry : QueueRecord T}
    (admitted : ∀ (e : T) (size capacity : UInt32), entry = .stored e false size capacity → size < capacity) :
    (s.record entry).Truthful sizeOf ↔ s.Truthful sizeOf := by
  constructor
  · intro inv
    refine ⟨inv.queue, fun e size capacity member => ?_⟩
    exact inv.admitted e size capacity (List.mem_append_left _ member)
  · intro inv
    refine ⟨inv.queue, fun e size capacity member => ?_⟩
    rcases List.mem_append.mp member with old | new
    · exact inv.admitted e size capacity old
    · exact admitted e size capacity (List.mem_singleton.mp new).symm

theorem truthful_await_iff :
    (s.await coroutine call).Truthful sizeOf ↔ s.Truthful sizeOf := by
  have queue : (s.q.onEvent (·.register coroutine) call.latch).Truthful sizeOf ↔ s.q.Truthful sizeOf :=
    s.q.truthful_onEvent_iff (fun event => event.register_flag coroutine) call.latch
  exact ⟨fun inv => ⟨queue.mp inv.queue, inv.admitted⟩, fun inv => ⟨queue.mpr inv.queue, inv.admitted⟩⟩

theorem truthful_unpark_iff :
    (s.unpark coroutine call).Truthful sizeOf ↔ s.Truthful sizeOf := by
  have queue : (s.q.onEvent (·.leave coroutine) call.latch).Truthful sizeOf ↔ s.q.Truthful sizeOf :=
    s.q.truthful_onEvent_iff (fun event => event.leave_flag coroutine) call.latch
  exact ⟨fun inv => ⟨queue.mp inv.queue, inv.admitted⟩, fun inv => ⟨queue.mpr inv.queue, inv.admitted⟩⟩

/-- The sum of the sizes with one more element is a 32-bit number, unless the
element is refused. -/
def fits (sizeOf : T → UInt32) (s : QueueWorld T) (e : T) : Bool :=
  s.q.closed || s.q.total sizeOf + (sizeOf e).toNat < 2 ^ 32

theorem truthful_store_iff {front forced : Bool} {e : T} (inv : s.Truthful sizeOf)
    (room : forced = false → s.q.notFull.flag = true) :
    (s.store sizeOf front forced e).Truthful sizeOf ↔ s.fits sizeOf e = true := by
  unfold store fits
  split
  · rename_i closed
    rw [truthful_record_iff (by simp)]
    simp [closed, inv]
  · rename_i isOpen
    rw [Bool.not_eq_true] at isOpen
    rw [truthful_record_iff]
    · have pushed := SizedQueueType.truthful_push_iff front e inv.queue isOpen
      simp only [isOpen, Bool.false_or, decide_eq_true_eq]
      rw [← pushed]
      exact ⟨fun after => after.queue, fun after => ⟨after, inv.admitted⟩⟩
    · intro e' size capacity same
      cases same
      have free := inv.queue.notFull.mp (room rfl)
      simpa [isOpen] using free

def fitsCall (sizeOf : T → UInt32) (s : QueueWorld T) : QueueCall T → Bool
  | .put e _ => s.fits sizeOf e
  | .returns e => s.fits sizeOf e
  | .get => true

theorem truthful_proceed_iff (inv : s.Truthful sizeOf) (flag : (s.q.event call.latch).flag = true) :
    (s.proceed sizeOf coroutine call).Truthful sizeOf ↔ s.fitsCall sizeOf call = true := by
  cases call with
  | put e msecs => exact truthful_store_iff inv fun _ => flag
  | returns e => exact truthful_store_iff inv fun _ => flag
  | get =>
    simp only [proceed, fitsCall, iff_true]
    split
    · rename_i e rest queue
      exact (truthful_record_iff (by simp)).mpr ⟨inv.queue.pop queue, inv.admitted⟩
    · rename_i queue
      rcases inv.queue.notEmpty.mp flag with some | closed
      · exact absurd queue some
      · rw [if_pos closed]
        exact (truthful_record_iff (by simp)).mpr inv

theorem truthful_giveUp (inv : s.Truthful sizeOf) : (s.giveUp call).Truthful sizeOf := by
  cases call with
  | put e msecs => exact (truthful_record_iff (by simp)).mpr inv
  | returns e => exact inv
  | get => exact inv

def fitsReady (sizeOf : T → UInt32) (s : QueueWorld T) (call : QueueCall T) : Bool :=
  !(s.q.event call.latch).flag || s.fitsCall sizeOf call

theorem truthful_enter_iff (inv : s.Truthful sizeOf) :
    (s.enter sizeOf coroutine call).Truthful sizeOf ↔ s.fitsReady sizeOf call = true := by
  unfold enter fitsReady
  split
  · rename_i flag
    rw [truthful_proceed_iff inv flag]
    simp [flag]
  · rename_i blocked
    rw [Bool.not_eq_true] at blocked
    simp only [blocked, Bool.not_false, Bool.true_or, iff_true]
    split
    · exact truthful_giveUp inv
    · exact truthful_await_iff.mpr inv

theorem fitsCall_unpark (coroutine : Nat) (call : QueueCall T) :
    (s.unpark coroutine call).fitsCall sizeOf call = s.fitsCall sizeOf call := by
  cases call <;> rfl

theorem truthful_resume_iff (inv : s.Truthful sizeOf) :
    (s.resume sizeOf coroutine call).Truthful sizeOf ↔ s.fitsReady sizeOf call = true := by
  have unparked : (s.unpark coroutine call).Truthful sizeOf := truthful_unpark_iff.mpr inv
  unfold resume fitsReady
  split
  · rename_i flag
    rw [truthful_proceed_iff unparked (by rwa [unpark_flag]), fitsCall_unpark]
    simp [flag]
  · rename_i blocked
    rw [Bool.not_eq_true] at blocked
    simp only [blocked, Bool.not_false, Bool.true_or, iff_true]
    exact truthful_await_iff.mpr unparked

/-- The sum of the sizes stays a 32-bit number if the step stores an element. -/
def fitsStep (sizeOf : T → UInt32) (s : QueueWorld T) : QueueEvent T → Bool
  | .put _ e msecs => s.fitsReady sizeOf (.put e msecs)
  | .returns _ e => s.fitsReady sizeOf (.returns e)
  | .putForcedly e => s.fits sizeOf e
  | .returnsForcely e => s.fits sizeOf e
  | .resume coroutine => (s.calls coroutine).all fun call => s.fitsReady sizeOf call
  | _ => true

theorem truthful_step_iff [DecidableEq T] {e : QueueEvent T} (positive : 0 < s.q.mCapacity) (inv : s.Truthful sizeOf)
    (step : s.Step sizeOf e t) : t.Truthful sizeOf ↔ s.fitsStep sizeOf e = true := by
  cases step with
  | put coroutine e msecs => exact truthful_enter_iff inv
  | returns coroutine e => exact truthful_enter_iff inv
  | get coroutine =>
    rw [truthful_enter_iff inv]
    simp [fitsReady, fitsCall, fitsStep]
  | putForcedly e => exact truthful_store_iff inv (by simp)
  | returnsForcely e => exact truthful_store_iff inv (by simp)
  | clear => exact iff_of_true ⟨inv.queue.clear positive, inv.admitted⟩ rfl
  | remove e => exact iff_of_true ⟨inv.queue.remove e, inv.admitted⟩ rfl
  | setCapacity capacity => exact iff_of_true ⟨inv.queue.setCapacity capacity, inv.admitted⟩ rfl
  | close => exact iff_of_true ((truthful_record_iff (by simp)).mpr ⟨inv.queue.close, inv.admitted⟩) rfl
  | resume pending ready =>
    rw [truthful_resume_iff inv]
    simp [fitsStep, pending]
  | timeout pending timed => exact iff_of_true (truthful_giveUp (truthful_unpark_iff.mpr inv)) rfl
  | kill pending => exact iff_of_true (truthful_unpark_iff.mpr inv) rfl

section Capacity

theorem store_capacity (front forced : Bool) (e : T) :
    (s.store sizeOf front forced e).q.mCapacity = s.q.mCapacity := by
  unfold store
  split <;> rfl

theorem await_capacity (coroutine : Nat) (call : QueueCall T) :
    (s.await coroutine call).q.mCapacity = s.q.mCapacity := by
  cases call <;> rfl

theorem unpark_capacity (coroutine : Nat) (call : QueueCall T) :
    (s.unpark coroutine call).q.mCapacity = s.q.mCapacity := by
  cases call <;> rfl

theorem giveUp_capacity (call : QueueCall T) : (s.giveUp call).q.mCapacity = s.q.mCapacity := by
  cases call <;> rfl

theorem proceed_capacity (coroutine : Nat) (call : QueueCall T) :
    (s.proceed sizeOf coroutine call).q.mCapacity = s.q.mCapacity := by
  cases call with
  | put e msecs => exact store_capacity false false e
  | returns e => exact store_capacity true false e
  | get =>
    simp only [proceed]
    split
    · rfl
    · split <;> rfl

theorem enter_capacity (coroutine : Nat) (call : QueueCall T) :
    (s.enter sizeOf coroutine call).q.mCapacity = s.q.mCapacity := by
  unfold enter
  split
  · exact proceed_capacity coroutine call
  · split
    · exact giveUp_capacity call
    · exact await_capacity coroutine call

theorem resume_capacity (coroutine : Nat) (call : QueueCall T) :
    (s.resume sizeOf coroutine call).q.mCapacity = s.q.mCapacity := by
  unfold resume
  split
  · rw [proceed_capacity, unpark_capacity]
  · rw [await_capacity, unpark_capacity]

end Capacity

end QueueWorld

def QueueEvent.positive {T : Type} : QueueEvent T → Bool
  | .setCapacity capacity => 0 < capacity
  | _ => true

theorem QueueWorld.step_capacity_pos {T : Type} [DecidableEq T] {sizeOf : T → UInt32} {s t : QueueWorld T}
    {e : QueueEvent T} (before : 0 < s.q.mCapacity) (positive : e.positive = true) (step : s.Step sizeOf e t) :
    0 < t.q.mCapacity := by
  cases step with
  | put coroutine e msecs => rwa [enter_capacity]
  | returns coroutine e => rwa [enter_capacity]
  | get coroutine => rwa [enter_capacity]
  | putForcedly e => rwa [store_capacity]
  | returnsForcely e => rwa [store_capacity]
  | clear => exact before
  | remove e =>
    dsimp only [SizedQueueType.remove]
    split
    · exact before
    · exact before
  | setCapacity capacity => exact of_decide_eq_true positive
  | close => exact before
  | resume => rwa [resume_capacity]
  | timeout => rwa [giveUp_capacity, unpark_capacity]
  | kill => rwa [unpark_capacity]

def queueSystem {T : Type} [DecidableEq T] (sizeOf : T → UInt32) : System (QueueWorld T) (QueueEvent T) :=
  .ofStep (fun s => ∃ capacity : UInt32, 0 < capacity ∧ s = { q := .new capacity })
    fun s e => if e.positive then s.step sizeOf e else none

/-- The size and the latches tell the truth at every scheduling point exactly when
no element takes the sum of the sizes out of the range of the counter. -/
theorem queue_latches_truthful {T : Type} [DecidableEq T] (sizeOf : T → UInt32)
    {history : List (QueueWorld T × QueueEvent T)} {t : QueueWorld T}
    (run : Run (queueSystem sizeOf) history t) :
    (∀ s, Visited history t s → s.Truthful sizeOf) ↔
      ∀ entry ∈ history, entry.1.fitsStep sizeOf entry.2 = true := by
  refine run.everywhere_iff (fun s e => s.fitsStep sizeOf e = true) (fun s => 0 < s.q.mCapacity) _ ?_ ?_ ?_ ?_
  · intro s initial
    obtain ⟨capacity, positive, same⟩ := initial
    subst same
    exact positive
  · intro s initial
    obtain ⟨capacity, positive, same⟩ := initial
    subst same
    refine ⟨⟨rfl, ?_, ?_⟩, by simp⟩
    · simp [SizedQueueType.new]
    · simp [SizedQueueType.new, positive]
  · intro s e t before step
    obtain ⟨positive, stepped⟩ := Option.ite_none_right_eq_some.mp step
    exact QueueWorld.step_capacity_pos before positive (QueueWorld.step_cases stepped)
  · intro s e t positive inv step
    obtain ⟨_, stepped⟩ := Option.ite_none_right_eq_some.mp step
    exact QueueWorld.truthful_step_iff positive inv (QueueWorld.step_cases stepped)

/-- Two producers wait for room in a queue of capacity 2, and both are woken by one
call of get. -/
def twoProducers : List (QueueEvent Nat) :=
  [.put 0 2 4294967295, .put 1 1 4294967295, .put 2 0 100, .get 3, .resume 1, .resume 2, .close, .get 3]

theorem queue_latches_truthful_twoProducers :
    ∃ history t, Run (queueSystem UInt32.ofNat) history t ∧
      history.map Prod.snd = twoProducers.reverse ∧ t.q.queue = [0] ∧
      ∀ s, Visited history t s → s.Truthful UInt32.ofNat := by
  obtain ⟨history, t, run, labels, guarded, left⟩ :=
    Run.of_exec_guarded (queueSystem UInt32.ofNat) (QueueWorld.fitsStep UInt32.ofNat)
      rfl twoProducers ⟨2, by decide, rfl⟩ (fun t => t.q.queue = [0]) (by decide)
  exact ⟨history, t, run, labels, left, (queue_latches_truthful UInt32.ofNat run).mpr guarded⟩

/-- Two elements of 2^31 bytes are put into a queue of capacity 1. -/
def twoHuge : List (QueueEvent Nat) := [.putForcedly 2147483648, .putForcedly 2147483648]

/-- The counter is 0 again, and yet the queue holds two elements and the latch says
that it is full. -/
theorem queue_latches_wrong_twoHuge :
    ∃ history t, Run (queueSystem UInt32.ofNat) history t ∧ history.map Prod.snd = twoHuge.reverse ∧
      t.q.currentSize = 0 ∧ t.q.queue.length = 2 ∧ t.q.mCapacity = 1 ∧ t.q.closed = false ∧
      t.q.notFull.flag = false ∧ ¬ t.Truthful UInt32.ofNat := by
  obtain ⟨history, t, run, labels, size, two, capacity, isOpen, full⟩ :=
    Run.of_exec (queueSystem UInt32.ofNat) rfl twoHuge ⟨1, by decide, rfl⟩
      (fun t => t.q.currentSize = 0 ∧ t.q.queue.length = 2 ∧ t.q.mCapacity = 1 ∧ t.q.closed = false ∧
        t.q.notFull.flag = false) (by decide)
  refine ⟨history, t, run, labels, size, two, capacity, isOpen, full, ?_⟩
  intro truthful
  have latch := truthful.queue.notFull
  rw [full, size, capacity, isOpen] at latch
  exact absurd latch (by decide)

end Qtng
