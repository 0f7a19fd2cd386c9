import Qtng.Locks.Permits

namespace Qtng

open EventLoop SemaphorePrivate Function Transition Option

/-- The functor of a semaphore is pending exactly while notified is its handle,
unless it is running, and then none is pending. Permits that a waiter could
take are never left without it. -/
structure Scheduled (busy : Bool) (sp : SemaphorePrivate) (loop : EventLoop LockCallback) : Prop where
  pending : busy = false → ∀ id : Nat, loop.watchers[id]? = some LockCallback.notifyWaiters ↔ id = sp.notified ∧ id ≠ 0
  started : busy = true → sp.notified ≠ 0 ∧ ∀ id : Nat, loop.watchers[id]? ≠ some LockCallback.notifyWaiters
  wakes : busy = false → 0 < sp.counter → sp.waiters ≠ [] → sp.notified ≠ 0

/-- The timer of a suspended call stays with the event loop. -/
def TimersKept (frames : Nat → Option AcquireFrame) (loop : EventLoop LockCallback) : Prop :=
  ∀ c f, frames c = some f → f.callbackId ≠ 0 → loop.watchers[f.callbackId]? = some (.yieldCurrent c)

namespace Scheduled

variable {busy : Bool} {sp : SemaphorePrivate} {loop : EventLoop LockCallback}

variable (scheduled : Scheduled busy sp loop)
include scheduled

theorem notified_ne_next (idle : busy = false) :
    sp.notified ≠ loop.nextWatcherId := by
  intro same
  have positive := loop.positive
  have present := (scheduled.pending idle sp.notified).mpr ⟨rfl, by omega⟩
  rw [same, loop.nextWatcherId_unused] at present
  simp at present

theorem later (c : Nat) :
    Scheduled busy sp (loop.callLater (.yieldCurrent c)) where
  pending := by
    intro idle id
    have other := scheduled.notified_ne_next idle
    rw [callLater_watchers]
    split_ifs with same
    · simp only [some.injEq, reduceCtorEq, false_iff, not_and]
      omega
    · exact scheduled.pending idle id
  started := by
    intro running
    refine ⟨(scheduled.started running).1, ?_⟩
    intro id
    rw [callLater_watchers]
    split
    · simp
    · exact (scheduled.started running).2 id
  wakes := scheduled.wakes

theorem cancel {id : Nat}
    (other : loop.watchers[id]? ≠ some LockCallback.notifyWaiters) : Scheduled busy sp (loop.cancelCall id) where
  pending := by
    intro idle id'
    rw [cancelCall_watchers]
    split_ifs with same
    · have absent := mt (scheduled.pending idle id).mpr other
      rw [same]
      simpa using absent
    · exact scheduled.pending idle id'
  started := by
    intro running
    refine ⟨(scheduled.started running).1, ?_⟩
    intro id'
    rw [cancelCall_watchers]
    split
    · simp
    · exact (scheduled.started running).2 id'
  wakes := scheduled.wakes

theorem relax {sp' : SemaphorePrivate} (notified : sp'.notified = sp.notified)
    (wakes : 0 < sp'.counter → sp'.waiters ≠ [] → 0 < sp.counter ∧ sp.waiters ≠ []) :
    Scheduled busy sp' loop where
  pending := by
    rw [notified]
    exact scheduled.pending
  started := by
    rw [notified]
    exact scheduled.started
  wakes := by
    intro idle positive waiting
    rw [notified]
    exact scheduled.wakes idle (wakes positive waiting).1 (wakes positive waiting).2

theorem release (value : Int) :
    Scheduled busy (sp.release loop .notifyWaiters value).1 (sp.release loop .notifyWaiters value).2 := by
  have waiters := sp.release_waiters loop .notifyWaiters value
  rcases sp.release_cases loop .notifyWaiters value with ⟨notified, same, reason⟩ | ⟨quiet, _, notified, later⟩
  · rw [same]
    refine ⟨by rw [notified]; exact scheduled.pending, by rw [notified]; exact scheduled.started, ?_⟩
    intro idle positive waiting
    rw [notified]
    rw [waiters] at waiting
    rcases reason with ⟨_, counter⟩ | awake | empty
    · exact scheduled.wakes idle (counter ▸ positive) waiting
    · exact awake
    · exact absurd empty waiting
  · have positive := loop.positive
    rw [later]
    refine ⟨?_, ?_, ?_⟩
    · intro idle id
      rw [callLater_watchers, notified]
      split_ifs with same
      · simp only [same, true_and, true_iff]
        omega
      · have before := scheduled.pending idle id
        rw [quiet] at before
        rw [before]
        omega
    · intro running
      exact absurd quiet (scheduled.started running).1
    · intro _ _ _
      rw [notified]
      omega

theorem cancelTimer {c : Nat} {f : AcquireFrame}
    (own : f.callbackId ≠ 0 → loop.watchers[f.callbackId]? = some (.yieldCurrent c)) :
    Scheduled busy sp (cancelTimer loop f.callbackId) := by
  unfold SemaphorePrivate.cancelTimer
  split_ifs with armed
  · exact scheduled.cancel (by simp [own armed])
  · exact scheduled

omit scheduled

end Scheduled

namespace TimersKept

variable {frames : Nat → Option AcquireFrame} {loop : EventLoop LockCallback}
variable {f : AcquireFrame} {c : Nat}

variable (kept : TimersKept frames loop)
include kept

theorem later (callback : LockCallback) :
    TimersKept frames (loop.callLater callback) := by
  intro c f atFrame armed
  have present := kept c f atFrame armed
  have bound := (loop.fresh _ _ present).2
  rw [callLater_watchers, if_neg (by omega)]
  exact present

theorem release (sp : SemaphorePrivate) (value : Int) :
    TimersKept frames (sp.release loop .notifyWaiters value).2 := by
  rcases sp.release_cases loop .notifyWaiters value with ⟨_, same, _⟩ | ⟨_, _, _, later⟩
  · rw [same]
    exact kept
  · rw [later]
    exact kept.later _

theorem enter
    (own : f.callbackId ≠ 0 → loop.watchers[f.callbackId]? = some (.yieldCurrent c)) :
    TimersKept (update frames c (some f)) loop := by
  intro w g atW armed
  by_cases same : w = c
  · subst same
    simp only [update_self, some.injEq] at atW
    subst atW
    exact own armed
  · exact kept w g (by simpa [same] using atW) armed

theorem leave (c : Nat) : TimersKept (update frames c none) loop := by
  intro w g atW armed
  by_cases same : w = c
  · simp [same] at atW
  · exact kept w g (by simpa [same] using atW) armed

theorem cancel {id : Nat} (own : loop.watchers[id]? = some (.yieldCurrent c)) :
    TimersKept (update frames c none) (loop.cancelCall id) := by
  intro w g atW armed
  by_cases same : w = c
  · simp [same] at atW
  · have present := kept w g (by simpa [same] using atW) armed
    have different : g.callbackId ≠ id := by
      intro equal
      rw [equal, own] at present
      simp only [some.injEq, LockCallback.yieldCurrent.injEq] at present
      exact same present.symm
    rw [cancelCall_watchers, if_neg different]
    exact present

theorem cancelTimer (atFrame : frames c = some f) :
    TimersKept (update frames c none) (cancelTimer loop f.callbackId) := by
  unfold SemaphorePrivate.cancelTimer
  split_ifs with armed
  · exact kept.cancel (kept c f atFrame armed)
  · exact kept.leave c

omit kept

end TimersKept

namespace SemaphoreWorld

/-- Whether the functor is between its first and its last line. -/
def inFunctor : Control → Bool
  | .loop => false
  | .notifying => true
  | .running _ fromFunctor => fromFunctor

@[simp]
theorem inFunctor_returnTo (b : Bool) : inFunctor (returnTo b) = b := by
  cases b <;> rfl

structure Wakeups (s : SemaphoreWorld) : Prop extends Queued s where
  scheduled : Scheduled (inFunctor s.control) s.sp s.loop
  timers : TimersKept s.frames s.loop
  asserts : s.failed = false

namespace Wakeups

variable {s t : SemaphoreWorld} {e : SemaphoreEvent}
variable {c : Nat} {b : Bool} {f : AcquireFrame} {value : Int}

variable (inv : Wakeups s)
include inv

theorem acquireMany {msecs : Nat} (control : s.control = .running c b) (positive : 1 ≤ value) :
    Wakeups (s.acquireMany c b value msecs) := by
  have absent := inv.running c b control
  have scheduled := inv.scheduled
  rw [control] at scheduled
  change Scheduled b s.sp s.loop at scheduled
  have returns (t : SemaphoreWorld) (waiters : t.sp.waiters = s.sp.waiters) (frames : t.frames = update s.frames c none)
      (control : t.control = .running c b) : Queued t := by
    refine inv.toQueued.stayed waiters (frames.trans (by simp [absent])) fun w b' running => ?_
    cases control.symm.trans running
    exact absent
  unfold SemaphoreWorld.acquireMany
  split
  · exact inv
  unfold acquire
  split
  · refine ⟨returns _ rfl rfl rfl, scheduled.relax rfl ?_, inv.timers.leave c, inv.asserts⟩
    intro some waiting
    exact ⟨by omega, waiting⟩
  split
  · exact ⟨returns _ rfl rfl rfl, scheduled, inv.timers.leave c, inv.asserts⟩
  · have remains : value - s.sp.counter > 0 := by omega
    simp only [waitLoop, remains, if_true]
    by_cases timed : msecs ≠ UINT_MAX
    · simp only [timed, ne_eq, not_false_eq_true, if_true, settle]
      refine ⟨inv.toQueued.entered absent rfl rfl rfl, ?_, ?_, inv.asserts⟩
      · simp only [inFunctor_returnTo]
        exact (scheduled.later c).relax rfl (by simp)
      · refine (inv.timers.later _).enter (fun _ => ?_)
        rw [callLater_watchers, if_pos rfl]
    · simp only [timed, if_false, settle]
      refine ⟨inv.toQueued.entered absent rfl rfl rfl, ?_, ?_, inv.asserts⟩
      · simp only [inFunctor_returnTo]
        exact scheduled.relax rfl (by simp)
      · exact inv.timers.enter (fun armed => absurd rfl armed)

theorem release (c : Nat) (acquired value : Int) : Wakeups (s.release c acquired value) :=
  ⟨inv.toQueued.stayed (release_waiters ..) rfl inv.running, inv.scheduled.release _, inv.timers.release _ _,
    inv.asserts⟩

theorem wakeNext {w : Nat} {rest : List Nat}
    (control : s.control = .notifying) (queue : s.sp.waiters = w :: rest) (atFrame : s.frames w = some f) :
    Wakeups (s.settle w f.value true
      (({ s.sp with waiters := rest } : SemaphorePrivate).afterYield s.loop .notifyWaiters w f)) := by
  have scheduled := inv.scheduled
  rw [control] at scheduled
  change Scheduled true s.sp s.loop at scheduled
  -- while the functor runs, neither the counter nor the queue matters
  have anyway : ∀ sp' : SemaphorePrivate, sp'.notified = s.sp.notified → Scheduled true sp' s.loop := by
    intro sp' notified
    exact ⟨by simp, by rw [notified]; exact scheduled.started, by simp⟩
  have distinct := inv.distinct
  rw [queue] at distinct
  have outside := (List.nodup_cons.mp distinct).1
  have others : rest.filter (· ≠ w) = s.sp.waiters.filter (· ≠ w) := by
    rw [queue, List.filter_cons_of_neg (by simp)]
  simp only [afterYield, outside, if_false, others]
  split
  · refine ⟨inv.toQueued.left rfl rfl rfl, Scheduled.cancelTimer ?_ (inv.timers w f atFrame),
      inv.timers.cancelTimer atFrame, inv.asserts⟩
    exact anyway _ rfl
  · have still : f.remain - s.sp.counter > 0 := by omega
    simp only [waitLoop, still, if_true, settle]
    exact ⟨inv.toQueued.requeued (b := true) rfl rfl rfl, anyway _ rfl, inv.timers.enter (inv.timers w f atFrame),
      inv.asserts⟩

theorem dequeue (control : s.control = .loop) (c : Nat) :
    Scheduled false { s.sp with waiters := s.sp.waiters.filter (· ≠ c) } s.loop := by
  have scheduled := inv.scheduled
  rw [control] at scheduled
  refine scheduled.relax rfl ?_
  intro positive waiting
  refine ⟨positive, ?_⟩
  intro empty
  simp [empty] at waiting

theorem timeout {id : Nat} (control : s.control = .loop)
    (pending : s.loop.watchers[id]? = some (.yieldCurrent c)) : Wakeups (s.timeout id c) := by
  have other : s.loop.watchers[id]? ≠ some LockCallback.notifyWaiters := by simp [pending]
  have scheduled := inv.scheduled
  rw [control] at scheduled
  have kept := inv.timers.cancel pending
  cases atFrame : s.frames c with
  | none =>
    have same : update s.frames c none = s.frames := by simp [atFrame]
    simp only [SemaphoreWorld.timeout, atFrame]
    refine ⟨inv.toQueued.stayed rfl rfl fun w b running => ?_, scheduled.cancel other, same ▸ kept, inv.asserts⟩
    cases running
    exact atFrame
  | some f =>
    have member := (inv.queued c).mpr ⟨f, atFrame⟩
    simp only [SemaphoreWorld.timeout, atFrame, afterYield, member, if_true, settle]
    exact ⟨inv.toQueued.left (release_waiters ..) rfl rfl, ((inv.dequeue control c).cancel other).release _,
      kept.release _ _, inv.asserts⟩

theorem kill (control : s.control = .loop) (atFrame : s.frames c = some f) : Wakeups (s.kill c f) := by
  have member := (inv.queued c).mpr ⟨f, atFrame⟩
  refine ⟨inv.toQueued.left (release_waiters ..) rfl rfl, ?_, ?_, ?_⟩
  · exact ((inv.dequeue control c).cancelTimer (inv.timers c f atFrame)).release _
  · exact (inv.timers.cancelTimer atFrame).release _ _
  · simp [SemaphoreWorld.kill, inv.asserts, member]

theorem step (step : s.step e = some t) : Wakeups t := by
  have scheduled := inv.scheduled
  cases step_cases step with
  | resume control free =>
    rw [control] at scheduled
    refine ⟨inv.toQueued.stayed rfl rfl fun w b running => ?_, scheduled, inv.timers, inv.asserts⟩
    cases running
    exact free
  | acquireMany control positive => exact inv.acquireMany control positive
  | release control owned positive within => exact inv.release _ _ _
  | @leave c b control =>
    rw [control] at scheduled
    refine ⟨inv.toQueued.stayed rfl rfl fun w b' running => ?_, ?_, inv.timers, inv.asserts⟩
    · cases b <;> simp [returnTo] at running
    · rw [inFunctor_returnTo]
      exact scheduled
  | @runFunctor id control pending =>
    rw [control] at scheduled
    have own := (scheduled.pending rfl id).mp pending
    refine ⟨inv.toQueued.stayed rfl rfl (by simp), ⟨by simp [inFunctor], fun _ => ⟨?_, ?_⟩, by simp [inFunctor]⟩, ?_,
      inv.asserts⟩
    · rw [← own.1]
      exact own.2
    · intro id'
      rw [cancelCall_watchers]
      split
      · simp
      · rename_i different
        intro present
        exact different (((scheduled.pending rfl id').mp present).1.trans own.1.symm)
    · intro c f atFrame armed
      have present := inv.timers c f atFrame armed
      have different : f.callbackId ≠ id := by
        intro same
        rw [same, pending] at present
        simp at present
      rw [cancelCall_watchers, if_neg different]
      exact present
  | wakeNext control notified positive queue atFrame => exact inv.wakeNext control queue atFrame
  | endFunctor control idle =>
    rw [control] at scheduled
    obtain ⟨notified, none⟩ := scheduled.started rfl
    refine ⟨inv.toQueued.stayed rfl rfl (by simp), ⟨fun _ id => ?_, by simp [inFunctor], fun _ positive waiting => ?_⟩,
      inv.timers, inv.asserts⟩
    · simpa using none id
    · exact absurd (idle positive notified) waiting
  | timeout control pending => exact inv.timeout control pending
  | kill control atFrame => exact inv.kill control atFrame

omit inv

theorem new (n : Int) : Wakeups (.new n) where
  distinct := List.nodup_nil
  queued := by simp [SemaphoreWorld.new, SemaphorePrivate.new]
  running := by simp [SemaphoreWorld.new]
  scheduled := by
    refine ⟨?_, ?_, ?_⟩ <;> simp [SemaphoreWorld.new, SemaphorePrivate.new, inFunctor, EventLoop.empty]
  timers := by simp [TimersKept, SemaphoreWorld.new]
  asserts := rfl

end Wakeups

end SemaphoreWorld

end Qtng
