import Qtng.Locks.Condition

namespace Qtng

open ConditionCallback EventLoop SemaphorePrivate Option Function List Transition

namespace ConditionWorld

variable {loop : EventLoop ConditionCallback} {c id : Nat}

/-- The functor of a lock is pending under a handle, or has just been started. -/
def WakeupDue (s : ConditionWorld) (id lock : Nat) : Prop :=
  s.loop.watchers[id]? = some (.notifyWaiters lock false) ∨
    s.loop.watchers[id]? = none ∧ s.control = .notifying lock false

theorem WakeupDue.pending {s : ConditionWorld} {id lock : Nat} (due : s.WakeupDue id lock)
    (awake : s.control ≠ .notifying lock false) : s.loop.watchers[id]? = some (.notifyWaiters lock false) :=
  due.resolve_right fun started => awake started.2

/-- What has become of a call of wait: its lock is registered with the
condition, or has been released by notify and its functor is due, or the call is
over. -/
inductive Phase (s : ConditionWorld) (chosen : Set Nat) (lock : Nat) : Prop
  | registered {c frame} : lock ∈ s.waiters → lock ∉ chosen → s.outcomes lock = none →
      s.frames c = some (lock, frame) → s.locks lock = ⟨[c], 1, 0, 0⟩ → Phase s chosen lock
  | selected {c frame id} : lock ∉ s.waiters → lock ∈ chosen → s.outcomes lock = none →
      s.frames c = some (lock, frame) → s.locks lock = ⟨[c], 1, 1, id⟩ → id ≠ 0 → s.WakeupDue id lock →
      Phase s chosen lock
  | finished {outcome} : lock ∉ s.waiters → s.outcomes lock = some outcome →
      (outcome = .returned true → lock ∈ chosen) → (s.locks lock).waiters = [] → Phase s chosen lock

theorem Phase.elsewhere {s t : ConditionWorld} {chosen chosen' : Set Nat} {lock : Nat} (phase : Phase s chosen lock)
    (waiters : lock ∈ t.waiters ↔ lock ∈ s.waiters) (marks : lock ∈ chosen' ↔ lock ∈ chosen)
    (outcomes : t.outcomes lock = s.outcomes lock) (locks : t.locks lock = s.locks lock)
    (frames : ∀ c f, s.frames c = some (lock, f) → t.frames c = some (lock, f))
    (due : ∀ id, s.outcomes lock = none → s.WakeupDue id lock → t.WakeupDue id lock) : Phase t chosen' lock := by
  cases phase with
  | registered member free unsettled atFrame lockIs =>
    exact .registered (waiters.mpr member) (mt marks.mp free) (outcomes.trans unsettled) (frames _ _ atFrame)
      (locks.trans lockIs)
  | selected gone mark unsettled atFrame lockIs handle pending =>
    exact .selected (mt waiters.mp gone) (marks.mpr mark) (outcomes.trans unsettled) (frames _ _ atFrame)
      (locks.trans lockIs) handle (due _ unsettled pending)
  | finished gone outcome earned queue =>
    exact .finished (mt waiters.mp gone) (outcomes.trans outcome) (fun ok => marks.mpr (earned ok))
      (by rw [locks]; exact queue)

/-- The invariant of a condition. The set is that of the locks that notify has
released so far. -/
structure Signals (chosen : Set Nat) (s : ConditionWorld) : Prop where
  distinct : s.waiters.Nodup
  phase : ∀ lock, lock < s.nextLock → Phase s chosen lock
  unused : ∀ lock, s.nextLock ≤ lock → lock ∉ s.waiters ∧ lock ∉ chosen ∧ s.outcomes lock = none
  frame : ∀ c lock f, s.frames c = some (lock, f) →
    lock < s.nextLock ∧ (s.locks lock).waiters = [c] ∧ f = ⟨1, 0, 1, f.callbackId⟩
  timer : ∀ c lock f, s.frames c = some (lock, f) → f.callbackId ≠ 0 →
    s.loop.watchers[f.callbackId]? = some (.yieldCurrent c)
  functor : ∀ id lock : Nat, s.loop.watchers[id]? = some (notifyWaiters lock false) →
    lock < s.nextLock ∧ s.outcomes lock = none ∧ (s.locks lock).notified = id
  deleting : ∀ id lock : Nat, s.loop.watchers[id]? = some (notifyWaiters lock true) →
    s.outcomes lock ≠ none
  started : ∀ lock doDelete, s.control = .notifying lock doDelete →
    lock < s.nextLock ∧ (doDelete = true → s.outcomes lock ≠ none) ∧
      ∀ id : Nat, s.loop.watchers[id]? ≠ some (notifyWaiters lock false)
  running : ∀ c functor, s.control = .running c functor →
    s.frames c = none ∧ ∀ lock doDelete, functor = some (lock, doDelete) → s.outcomes lock ≠ none

/-- The callbacks of a loop that has lost nothing but timers of a coroutine. -/
structure Shed (c : Nat) (before after : EventLoop ConditionCallback) : Prop where
  kept : ∀ id : Nat, after.watchers[id]? = before.watchers[id]? ∨
    before.watchers[id]? = some (yieldCurrent c) ∧ after.watchers[id]? = none
  next : after.nextWatcherId = before.nextWatcherId

theorem Shed.cancelCall (own : loop.watchers[id]? = some (.yieldCurrent c)) : Shed c loop (loop.cancelCall id) where
  kept := by
    intro id'
    rw [cancelCall_watchers]
    split_ifs with same
    · exact .inr ⟨same ▸ own, rfl⟩
    · exact .inl rfl
  next := rfl

theorem Shed.cancelTimer
    (own : id ≠ 0 → loop.watchers[id]? = some (.yieldCurrent c)) : Shed c loop (cancelTimer loop id) := by
  unfold SemaphorePrivate.cancelTimer
  split
  · rename_i armed
    exact .cancelCall (own armed)
  · exact ⟨fun _ => .inl rfl, rfl⟩

namespace Signals

variable {chosen : Set Nat} {s : ConditionWorld}
variable {lock c id : Nat} {f frame : AcquireFrame} {loop : EventLoop ConditionCallback} {sp : SemaphorePrivate}
  {outcome : WaitOutcome} {functor : Option (Nat × Bool)} {doDelete : Bool} {rest : List Nat}

variable {callback : ConditionCallback} {own : Nat}

theorem lt_nextLock_of_outcome (inv : Signals chosen s) (ended : s.outcomes lock ≠ none) :
    lock < s.nextLock := by
  by_contra beyond
  exact ended (inv.unused lock (by omega)).2.2

theorem returned_ended (inv : Signals chosen s) (control : s.control = .running c functor)
    (returned : returnTo functor = .notifying lock doDelete) : s.outcomes lock ≠ none := by
  cases functor with
  | none => simp [returnTo] at returned
  | some woken => exact (inv.running c _ control).2 lock doDelete (by cases returned; rfl)

theorem notified_own (inv : Signals chosen s)
    (atFrame : s.frames c = some (lock, f)) (present : s.loop.watchers[id]? = some callback)
    (handle : id = (s.locks lock).notified) : callback = .notifyWaiters lock false := by
  obtain ⟨born, queue, _⟩ := inv.frame c lock f atFrame
  cases inv.phase lock born with
  | registered _ _ _ _ lockIs =>
    rw [lockIs] at handle
    exact absurd handle (s.loop.fresh id callback present).1
  | selected _ _ _ _ lockIs _ due =>
    rw [lockIs] at handle
    subst handle
    rcases due with pending | ⟨none, _⟩
    · exact some.inj (present.symm.trans pending)
    · simp [none] at present
  | finished _ _ _ empty => simp [queue] at empty

theorem finishWait_watchers (idle : sp.waiters = []) (id : Nat) :
    (s.finishWait c lock functor outcome sp loop).loop.watchers[id]? =
      if id = loop.nextWatcherId then some (.notifyWaiters lock true)
      else if id = sp.notified ∧ id ≠ 0 then none else loop.watchers[id]? := by
  unfold finishWait
  dsimp only
  rw [scheduleDelete_watchers]
  split
  · rfl
  · obtain ⟨notified, same⟩ := release_of_idle idle loop (.notifyWaiters lock false) 1
    rw [notified, same]

theorem finishWait_lock (idle : sp.waiters = []) :
    ((s.finishWait c lock functor outcome sp loop).locks lock).waiters = [] := by
  simp only [finishWait, update_self, scheduleDelete]
  split
  · exact idle
  · rw [release_waiters]
    exact idle

variable (inv : Signals chosen s)
include inv

/-- A call of wait ends. Its lock leaves the condition and its functor is
cancelled, and nothing else changes. -/
theorem finish
    (atFrame : s.frames c = some (lock, f)) (idle : sp.waiters = []) (notified : sp.notified = (s.locks lock).notified)
    (shed : Shed c s.loop loop) (earned : outcome = .returned true → lock ∈ chosen)
    (quiet : ∀ v, s.control = .notifying v false → v = lock ∨ s.outcomes v ≠ none)
    (context : ∀ v doDelete, functor = some (v, doDelete) → v = lock ∨ s.outcomes v ≠ none) :
    Signals chosen (s.finishWait c lock functor outcome sp loop) := by
  obtain ⟨born, queue, _⟩ := inv.frame c lock f atFrame
  have kept : ∀ (id : Nat) (callback : ConditionCallback), s.loop.watchers[id]? = some callback →
      callback ≠ .yieldCurrent c → callback ≠ .notifyWaiters lock false →
      (s.finishWait c lock functor outcome sp loop).loop.watchers[id]? = some callback := by
    intro id callback present notTimer notOwn
    have bound := (s.loop.fresh id callback present).2
    rw [finishWait_watchers idle, if_neg (by rw [shed.next]; omega), if_neg]
    · rcases shed.kept id with same | ⟨timer, _⟩
      · rw [same, present]
      · exact absurd (some.inj (present.symm.trans timer)) notTimer
    · rintro ⟨handle, _⟩
      exact notOwn (inv.notified_own atFrame present (handle.trans notified))
  have origin : ∀ (id : Nat) (callback : ConditionCallback),
      (s.finishWait c lock functor outcome sp loop).loop.watchers[id]? = some callback →
      callback = .notifyWaiters lock true ∨
        s.loop.watchers[id]? = some callback ∧ id ≠ (s.locks lock).notified := by
    intro id callback present
    rw [finishWait_watchers idle] at present
    split at present
    · exact .inl (some.inj present).symm
    · split at present
      · simp at present
      · rename_i other
        right
        rcases shed.kept id with same | ⟨_, gone⟩
        · rw [same] at present
          have positive := (s.loop.fresh id callback present).1
          exact ⟨present, fun handle => other ⟨handle.trans notified.symm, positive⟩⟩
        · simp [gone] at present
  have owner : ∀ c' v g, s.frames c' = some (v, g) → v ≠ lock → c' ≠ c := by
    rintro c' v g atOther different rfl
    exact different (congrArg Prod.fst (some.inj (atOther.symm.trans atFrame)))
  have other : ∀ c' v g, (s.finishWait c lock functor outcome sp loop).frames c' = some (v, g) →
      s.frames c' = some (v, g) ∧ c' ≠ c ∧ v ≠ lock := by
    intro c' v g atOther
    have different : c' ≠ c := by
      rintro rfl
      simp [finishWait] at atOther
    have before : s.frames c' = some (v, g) := by simpa [finishWait, different] using atOther
    refine ⟨before, different, ?_⟩
    rintro rfl
    have alone := (inv.frame c' v g before).2.1
    rw [queue] at alone
    exact different (by simpa using alone.symm)
  refine ⟨inv.distinct.filter _, ?_, ?_, ?_, ?_, ?_, ?_, ?_, ?_⟩
  · intro v bornV
    by_cases same : v = lock
    · subst same
      exact .finished (by simp [finishWait]) (by simp [finishWait]) earned (finishWait_lock idle)
    · refine (inv.phase v bornV).elsewhere ?_ Iff.rfl ?_ ?_ ?_ ?_
      · simp [finishWait, same]
      · simp [finishWait, same]
      · simp [finishWait, same]
      · intro c' g atOther
        simpa [finishWait, owner c' v g atOther same] using atOther
      · rintro id unsettled (pending | ⟨_, control⟩)
        · exact .inl (kept id _ pending (by simp) (by simp [same]))
        · rcases quiet v control with equal | ended
          · exact absurd equal same
          · exact absurd unsettled ended
  · intro v beyond
    have different : v ≠ lock := by
      rintro rfl
      exact absurd born (by simpa [finishWait] using beyond)
    simpa [finishWait, different] using inv.unused v beyond
  · intro c' v g atOther
    obtain ⟨before, _, different⟩ := other c' v g atOther
    simpa [finishWait, different] using inv.frame c' v g before
  · intro c' v g atOther armed
    obtain ⟨before, apart, _⟩ := other c' v g atOther
    exact kept _ _ (inv.timer c' v g before armed) (by simp [apart]) (by simp)
  · intro id v present
    rcases origin id _ present with own | ⟨before, handle⟩
    · simp at own
    · obtain ⟨bornV, unsettled, notifiedV⟩ := inv.functor id v before
      have different : v ≠ lock := by
        rintro rfl
        exact handle notifiedV.symm
      exact ⟨bornV, by simpa [finishWait, different] using unsettled,
        by simpa [finishWait, different] using notifiedV⟩
  · intro id v present
    by_cases same : v = lock
    · simp [finishWait, same]
    · rcases origin id _ present with own | ⟨before, _⟩
      · simp [same] at own
      · simpa [finishWait, same] using inv.deleting id v before
  · intro v doDelete control
    simp [finishWait] at control
  · intro c' functor' control
    cases control
    refine ⟨by simp [finishWait], ?_⟩
    intro v doDelete returns
    by_cases same : v = lock
    · simp [finishWait, same]
    · rcases context v doDelete returns with equal | ended
      · exact absurd equal same
      · simpa [finishWait, same] using ended

theorem enter {callbackId : Nat} (control : s.control = .running c functor)
    (armed : loop = s.loop ∧ callbackId = 0 ∨
      loop = s.loop.callLater (.yieldCurrent c) ∧ callbackId = s.loop.nextWatcherId) :
    Signals chosen
      { s with
        nextLock := s.nextLock + 1, waiters := s.waiters ++ [s.nextLock], loop
        locks := update s.locks s.nextLock ⟨[c], 1, 0, 0⟩
        frames := update s.frames c (some (s.nextLock, ⟨1, 0, 1, callbackId⟩))
        control := returnTo functor } := by
  obtain ⟨absent, context⟩ := inv.running c functor control
  obtain ⟨unregistered, unchosen, unsettled⟩ := inv.unused s.nextLock le_rfl
  have kept : ∀ (id : Nat) (callback : ConditionCallback), s.loop.watchers[id]? = some callback →
      loop.watchers[id]? = some callback := by
    intro id callback present
    rcases armed with ⟨same, _⟩ | ⟨later, _⟩
    · rw [same, present]
    · have bound := (s.loop.fresh id callback present).2
      rw [later, callLater_watchers, if_neg (by omega), present]
  have before : ∀ (id lock : Nat) (doDelete : Bool), loop.watchers[id]? = some (.notifyWaiters lock doDelete) →
      s.loop.watchers[id]? = some (.notifyWaiters lock doDelete) := by
    intro id lock doDelete present
    rcases armed with ⟨same, _⟩ | ⟨later, _⟩
    · rwa [same] at present
    · rw [later, callLater_watchers] at present
      split at present
      · simp at present
      · exact present
  refine ⟨?_, ?_, ?_, ?_, ?_, ?_, ?_, ?_, ?_⟩
  · rw [nodup_append_comm]
    exact nodup_cons.mpr ⟨unregistered, inv.distinct⟩
  · intro v bornV
    by_cases same : v = s.nextLock
    · subst same
      exact .registered (by simp) unchosen unsettled (update_self ..) (update_self ..)
    · have older : v < s.nextLock := by
        simp only at bornV
        omega
      refine (inv.phase v older).elsewhere (by simp [same]) Iff.rfl rfl (by simp [same]) ?_ ?_
      · intro c' g atOther
        have different : c' ≠ c := by
          rintro rfl
          simp [absent] at atOther
        simpa [different] using atOther
      · exact fun id _ due => .inl (kept id _ (due.pending (by simp [control])))
  · intro v beyond
    simp only at beyond
    have different : v ≠ s.nextLock := by omega
    simpa [different] using inv.unused v (by omega)
  · intro c' v g atOther
    by_cases same : c' = c
    · subst same
      simp only [update_self, some.injEq, Prod.mk.injEq] at atOther
      obtain ⟨rfl, rfl⟩ := atOther
      simp
    · have old : s.frames c' = some (v, g) := by simpa [same] using atOther
      obtain ⟨bornV, queue, shape⟩ := inv.frame c' v g old
      have different : v ≠ s.nextLock := by omega
      exact ⟨by simp only; omega, by simpa [different] using queue, shape⟩
  · intro c' v g atOther hasTimer
    by_cases same : c' = c
    · subst same
      simp only [update_self, some.injEq, Prod.mk.injEq] at atOther
      obtain ⟨rfl, rfl⟩ := atOther
      rcases armed with ⟨_, zero⟩ | ⟨later, next⟩
      · exact absurd zero hasTimer
      · simp [later, next, callLater_watchers]
    · exact kept _ _ (inv.timer c' v g (by simpa [same] using atOther) hasTimer)
  · intro id v present
    obtain ⟨bornV, open', notified⟩ := inv.functor id v (before id v false present)
    have different : v ≠ s.nextLock := by omega
    exact ⟨by simp only; omega, open', by simpa [different] using notified⟩
  · intro id v present
    exact inv.deleting id v (before id v true present)
  · intro v doDelete returned
    have ended := inv.returned_ended control returned
    have bornV := inv.lt_nextLock_of_outcome ended
    refine ⟨by simp only; omega, fun _ => ended, ?_⟩
    intro id present
    exact ended (inv.functor id v (before id v false present)).2.1
  · intro c' functor' running
    cases functor <;> simp [returnTo] at running

theorem switch {control : ConditionControl}
    (before : ∀ (id : Nat) (callback : ConditionCallback), loop.watchers[id]? = some callback →
      s.loop.watchers[id]? = some callback)
    (due : ∀ id lock, s.outcomes lock = none → s.WakeupDue id lock →
      ({ s with loop, control } : ConditionWorld).WakeupDue id lock)
    (timer : ∀ c lock f, s.frames c = some (lock, f) → f.callbackId ≠ 0 →
      loop.watchers[f.callbackId]? = some (.yieldCurrent c))
    (started : ∀ lock doDelete, control = .notifying lock doDelete →
      lock < s.nextLock ∧ (doDelete = true → s.outcomes lock ≠ none) ∧
        ∀ id : Nat, loop.watchers[id]? ≠ some (notifyWaiters lock false))
    (running : ∀ c functor, control = .running c functor →
      s.frames c = none ∧ ∀ lock doDelete, functor = some (lock, doDelete) → s.outcomes lock ≠ none) :
    Signals chosen { s with loop, control } where
  distinct := inv.distinct
  phase lock born := (inv.phase lock born).elsewhere Iff.rfl Iff.rfl rfl rfl (fun _ _ atFrame => atFrame)
    (fun id unsettled => due id lock unsettled)
  unused := inv.unused
  frame := inv.frame
  timer := timer
  functor id lock present := inv.functor id lock (before id _ present)
  deleting id lock present := inv.deleting id lock (before id _ present)
  started := started
  running := running

theorem resume (control : s.control = .loop) (free : s.frames c = none) :
    Signals chosen { s with control := .running c none } := by
  refine inv.switch (fun _ _ present => present) ?_ inv.timer (by simp) ?_
  · exact fun id lock _ due => .inl (due.pending (by simp [control]))
  · intro c' functor running
    cases running
    exact ⟨free, by simp⟩

theorem leave
    (control : s.control = .running c functor) : Signals chosen { s with control := returnTo functor } := by
  refine inv.switch (fun _ _ present => present) ?_ inv.timer ?_ ?_
  · exact fun id lock _ due => .inl (due.pending (by simp [control]))
  · intro lock doDelete returned
    have ended := inv.returned_ended control returned
    refine ⟨inv.lt_nextLock_of_outcome ended, fun _ => ended, ?_⟩
    intro id present
    exact ended (inv.functor id lock present).2.1
  · intro c' functor' running
    cases functor <;> simp [returnTo] at running

omit inv

theorem cancelled {id' : Nat}
    (present : (s.loop.cancelCall id).watchers[id']? = some callback) : s.loop.watchers[id']? = some callback := by
  rw [cancelCall_watchers] at present
  split at present
  · simp at present
  · exact present

variable (inv : Signals chosen s)
include inv

theorem runFunctor (control : s.control = .loop)
    (pending : s.loop.watchers[id]? = some (.notifyWaiters lock doDelete)) :
    Signals chosen { s with loop := s.loop.cancelCall id, control := .notifying lock doDelete } := by
  refine inv.switch (fun _ _ present => cancelled present) ?_ ?_ ?_ (by simp)
  · intro id' v _ due
    have other := due.pending (by simp [control])
    by_cases same : id' = id
    · rw [same, pending] at other
      cases other
      exact .inr ⟨by simp [same, cancelCall_watchers], rfl⟩
    · exact .inl (by rw [cancelCall_watchers, if_neg same, other])
  · intro c v f atFrame armed
    have present := inv.timer c v f atFrame armed
    have different : f.callbackId ≠ id := by
      intro same
      simp [same, pending] at present
    rw [cancelCall_watchers, if_neg different, present]
  · intro v doDelete' started
    cases started
    cases doDelete with
    | false =>
      obtain ⟨born, _, notified⟩ := inv.functor id lock pending
      refine ⟨born, by simp, ?_⟩
      intro id' present
      have other := (inv.functor id' lock (cancelled present)).2.2
      rw [cancelCall_watchers, if_pos (other.symm.trans notified)] at present
      simp at present
    | true =>
      have ended := inv.deleting id lock pending
      refine ⟨inv.lt_nextLock_of_outcome ended, fun _ => ended, ?_⟩
      intro id' present
      exact ended (inv.functor id' lock (cancelled present)).2.1

theorem lateTimeout (control : s.control = .loop)
    (pending : s.loop.watchers[id]? = some (.yieldCurrent c)) (free : s.frames c = none) :
    Signals chosen { s with loop := s.loop.cancelCall id, control := .running c none } := by
  have kept : ∀ (id' : Nat) (callback : ConditionCallback), s.loop.watchers[id']? = some callback →
      callback ≠ .yieldCurrent c → (s.loop.cancelCall id).watchers[id']? = some callback := by
    intro id' callback present different
    rw [cancelCall_watchers, if_neg, present]
    rintro rfl
    exact different (some.inj (present.symm.trans pending))
  refine inv.switch (fun _ _ present => cancelled present) ?_ ?_ (by simp) ?_
  · exact fun id' v _ due => .inl (kept id' _ (due.pending (by simp [control])) (by simp))
  · intro c' v f atFrame armed
    refine kept _ _ (inv.timer c' v f atFrame armed) ?_
    rintro same
    cases same
    simp [free] at atFrame
  · intro c' functor running
    cases running
    exact ⟨free, by simp⟩

variable (control : s.control = .notifying lock doDelete)
include control

theorem selected_of_keepsWaking :
    (s.locks lock).keepsWaking doDelete = true ↔
      ∃ c f id, lock ∈ chosen ∧ s.outcomes lock = none ∧ s.frames c = some (lock, f) ∧
        s.locks lock = ⟨[c], 1, 1, id⟩ ∧ id ≠ 0 := by
  obtain ⟨born, deletes, _⟩ := inv.started lock doDelete control
  cases inv.phase lock born with
  | registered _ free unsettled _ lockIs =>
    have plain : doDelete = false := by
      by_contra deleting
      exact deletes (by simpa using deleting) unsettled
    simp [keepsWaking, lockIs, plain]
  | @selected c f id _ mark unsettled atFrame lockIs handle _ =>
    constructor
    · intro _
      exact ⟨c, f, id, mark, unsettled, atFrame, lockIs, handle⟩
    · intro _
      simp [keepsWaking, lockIs, handle]
  | finished _ outcome _ queue => simp [keepsWaking, queue, outcome]

theorem endFunctor
    (idle : (s.locks lock).keepsWaking doDelete = false) :
    Signals chosen
      { s with locks := update s.locks lock { s.locks lock with notified := 0 }, control := .loop } := by
  obtain ⟨born, _, unscheduled⟩ := inv.started lock doDelete control
  refine ⟨inv.distinct, ?_, inv.unused, ?_, inv.timer, ?_, inv.deleting, by simp, by simp⟩
  · intro v bornV
    by_cases same : v = lock
    · subst same
      cases inv.phase v bornV with
      | registered member free unsettled atFrame lockIs =>
        exact .registered member free unsettled atFrame (by simp [lockIs])
      | selected gone mark unsettled atFrame lockIs handle _ =>
        have waking := (inv.selected_of_keepsWaking control).mpr ⟨_, _, _, mark, unsettled, atFrame, lockIs, handle⟩
        simp [idle] at waking
      | finished gone outcome earned queue => exact .finished gone outcome earned (by simpa using queue)
    · refine (inv.phase v bornV).elsewhere Iff.rfl Iff.rfl rfl (by simp [same]) (fun _ _ atFrame => atFrame) ?_
      rintro id _ (pending | ⟨_, started⟩)
      · exact .inl pending
      · simp only [control, ConditionControl.notifying.injEq] at started
        exact absurd started.1.symm same
  · intro c v f atFrame
    obtain ⟨bornV, queue, shape⟩ := inv.frame c v f atFrame
    refine ⟨bornV, ?_, shape⟩
    by_cases same : v = lock
    · subst same
      simpa using queue
    · simpa [same] using queue
  · intro id v present
    have different : v ≠ lock := by
      rintro rfl
      exact unscheduled id present
    simpa [different] using inv.functor id v present

theorem wakeNext_eq
    (waking : (s.locks lock).keepsWaking doDelete = true) (queue : (s.locks lock).waiters = c :: rest)
    (atFrame : s.frames c = some (own, frame)) :
    own = lock ∧ lock ∈ chosen ∧
      { s with locks := update s.locks lock { s.locks lock with waiters := rest } }.settle c own
          (some (lock, doDelete))
          ((update s.locks lock { s.locks lock with waiters := rest } own).afterYield s.loop
            (.notifyWaiters own false) c frame) =
        s.finishWait c lock (some (lock, doDelete)) (.returned true)
          ⟨[], 1, 0, (s.locks lock).notified⟩ (cancelTimer s.loop frame.callbackId) := by
  obtain ⟨w, f, id, mark, _, atLock, lockIs, _⟩ := (inv.selected_of_keepsWaking control).mp waking
  simp only [lockIs, cons.injEq] at queue
  obtain ⟨rfl, rfl⟩ := queue
  obtain ⟨rfl, rfl⟩ := Prod.mk.inj (some.inj (atFrame.symm.trans atLock))
  obtain ⟨_, _, shape⟩ := inv.frame w own frame atFrame
  have remain : frame.remain = 1 := by rw [shape]
  refine ⟨rfl, mark, ?_⟩
  simp [afterYield, lockIs, remain, settle, finishWait]

theorem wakeNext
    (waking : (s.locks lock).keepsWaking doDelete = true) (queue : (s.locks lock).waiters = c :: rest)
    (atFrame : s.frames c = some (own, frame)) :
    Signals chosen
      ({ s with locks := update s.locks lock { s.locks lock with waiters := rest } }.settle c own
        (some (lock, doDelete))
        ((update s.locks lock { s.locks lock with waiters := rest } own).afterYield s.loop
          (.notifyWaiters own false) c frame)) := by
  obtain ⟨rfl, mark, result⟩ := inv.wakeNext_eq control waking queue atFrame
  rw [result]
  refine inv.finish atFrame rfl rfl (.cancelTimer (inv.timer c own frame atFrame)) (fun _ => mark) ?_ ?_
  · intro v started
    simp only [control, ConditionControl.notifying.injEq] at started
    exact .inl started.1.symm
  · intro v doDelete' context
    cases context
    exact .inl rfl

omit control

/-- A timer runs out and the wait returns false, registered or not. -/
theorem timeout_eq (id : Nat) (atFrame : s.frames c = some (lock, frame)) :
    { s with loop := s.loop.cancelCall id }.settle c lock none
        ((s.locks lock).afterYield (s.loop.cancelCall id) (.notifyWaiters lock false) c frame) =
      s.finishWait c lock none (.returned false) { s.locks lock with waiters := [] } (s.loop.cancelCall id) := by
  obtain ⟨_, queue, shape⟩ := inv.frame c lock frame atFrame
  have got : frame.gotNum = 0 := by rw [shape]
  simp [afterYield, release, queue, got, settle, finishWait]

theorem kill_eq (atFrame : s.frames c = some (lock, frame)) :
    s.kill c lock frame =
      s.finishWait c lock none .killed { s.locks lock with waiters := [] }
        (cancelTimer s.loop frame.callbackId) := by
  obtain ⟨_, queue, shape⟩ := inv.frame c lock frame atFrame
  have got : frame.gotNum = 0 := by rw [shape]
  simp [kill, onException, release, queue, got]

theorem finish_from_loop (control : s.control = .loop)
    (atFrame : s.frames c = some (lock, f)) (shed : Shed c s.loop loop) (failed : outcome ≠ .returned true) :
    Signals chosen (s.finishWait c lock none outcome { s.locks lock with waiters := [] } loop) := by
  refine inv.finish atFrame rfl rfl shed (fun ok => absurd ok failed) ?_ (by simp)
  intro v started
  simp [control] at started

omit inv

theorem wait_eq (c : Nat) (functor : Option (Nat × Bool)) (msecs : Nat) :
    s.wait c functor msecs =
      if msecs = 0 then
        { s with nextLock := s.nextLock + 1, waiters := s.waiters ++ [s.nextLock] }.finishWait c s.nextLock functor
          (.returned false) ⟨[], 1, 0, 0⟩ s.loop
      else
        { s with
          nextLock := s.nextLock + 1, waiters := s.waiters ++ [s.nextLock]
          loop := if msecs ≠ UINT_MAX then s.loop.callLater (.yieldCurrent c) else s.loop
          locks := update s.locks s.nextLock ⟨[c], 1, 0, 0⟩
          frames := update s.frames c
            (some (s.nextLock, ⟨1, 0, 1, if msecs ≠ UINT_MAX then s.loop.nextWatcherId else 0⟩))
          control := returnTo functor } := by
  by_cases poll : msecs = 0
  · simp [wait, SemaphorePrivate.acquire, SemaphorePrivate.new, poll, settle]
  · simp [wait, SemaphorePrivate.acquire, SemaphorePrivate.new, SemaphorePrivate.waitLoop, poll, settle]

theorem wait (inv : Signals chosen s)
    (control : s.control = .running c functor) (msecs : Nat) : Signals chosen (s.wait c functor msecs) := by
  rw [wait_eq]
  split
  · -- as if the call had suspended without a timer before it failed
    have suspended := inv.enter control (.inl ⟨rfl, rfl⟩)
    obtain ⟨absent, context⟩ := inv.running c functor control
    have failed : Signals chosen (finishWait _ c s.nextLock functor (.returned false) ⟨[], 1, 0, 0⟩ s.loop) :=
      suspended.finish (update_self ..) rfl (by simp) ⟨fun _ => .inl rfl, rfl⟩ (by simp)
        (fun v started => .inr (inv.returned_ended control started))
        (fun v doDelete returns => .inr (context v doDelete returns))
    simpa [finishWait] using failed
  · refine inv.enter control ?_
    split
    · exact .inr ⟨rfl, rfl⟩
    · exact .inl ⟨rfl, rfl⟩

theorem registered_of_mem (inv : Signals chosen s) (member : lock ∈ s.waiters) :
    lock < s.nextLock ∧ lock ∉ chosen ∧ s.outcomes lock = none ∧
      ∃ c f, s.frames c = some (lock, f) ∧ s.locks lock = ⟨[c], 1, 0, 0⟩ := by
  have born : lock < s.nextLock := by
    by_contra beyond
    exact (inv.unused lock (by omega)).1 member
  cases inv.phase lock born with
  | registered _ free unsettled atFrame lockIs => exact ⟨born, free, unsettled, _, _, atFrame, lockIs⟩
  | selected gone => exact absurd member gone
  | finished gone => exact absurd member gone

/-- One round of the loop of notify: the functor of the first lock becomes due. -/
theorem select (inv : Signals chosen s) (queue : s.waiters = lock :: rest)
    (awake : ∀ v doDelete, s.control ≠ .notifying v doDelete) :
    Signals (insert lock chosen)
      { s with
        waiters := rest
        locks := update s.locks lock
          ((s.locks lock).release s.loop (.notifyWaiters lock false) 1).1
        loop := ((s.locks lock).release s.loop (.notifyWaiters lock false) 1).2 } := by
  obtain ⟨born, free, unsettled, c, f, atFrame, lockIs⟩ := inv.registered_of_mem (queue ▸ mem_cons_self)
  have distinct := inv.distinct
  rw [queue] at distinct
  have outside := (nodup_cons.mp distinct).1
  have freed : (s.locks lock).release s.loop (.notifyWaiters lock false) 1 =
      (⟨[c], 1, 1, s.loop.nextWatcherId⟩, s.loop.callLater (.notifyWaiters lock false)) := by
    rw [lockIs]
    rfl
  rw [freed]
  have kept : ∀ (id : Nat) (callback : ConditionCallback), s.loop.watchers[id]? = some callback →
      (s.loop.callLater (.notifyWaiters lock false)).watchers[id]? = some callback := by
    intro id callback present
    have bound := (s.loop.fresh id callback present).2
    rw [callLater_watchers, if_neg (by omega), present]
  refine ⟨(nodup_cons.mp distinct).2, ?_, ?_, ?_, ?_, ?_, ?_, ?_, inv.running⟩
  · intro v bornV
    by_cases same : v = lock
    · subst same
      have positive := s.loop.positive
      exact .selected outside (Set.mem_insert _ _) unsettled atFrame (update_self ..) (by omega)
        (.inl (by rw [callLater_watchers, if_pos rfl]))
    · refine (inv.phase v bornV).elsewhere (by simp [queue, same]) (by simp [same]) rfl (by simp [same])
        (fun _ _ atOther => atOther) ?_
      exact fun id _ due => .inl (kept id _ (due.pending (awake _ _)))
  · intro v beyond
    obtain ⟨unregistered, unchosen, none⟩ := inv.unused v beyond
    have different : v ≠ lock := by
      rintro rfl
      exact absurd born (by simpa using beyond)
    refine ⟨?_, by simp [different, unchosen], none⟩
    intro member
    exact unregistered (queue ▸ mem_cons_of_mem _ member)
  · intro c' v g atOther
    obtain ⟨bornV, alone, shape⟩ := inv.frame c' v g atOther
    refine ⟨bornV, ?_, shape⟩
    by_cases same : v = lock
    · subst same
      simpa [lockIs] using alone
    · simpa [same] using alone
  · intro c' v g atOther armed
    exact kept _ _ (inv.timer c' v g atOther armed)
  · intro id v present
    simp only [callLater_watchers] at present
    split at present
    · rename_i next
      cases present
      exact ⟨born, unsettled, by simp [next]⟩
    · obtain ⟨bornV, none, notified⟩ := inv.functor id v present
      have different : v ≠ lock := by
        rintro rfl
        have positive := (s.loop.fresh id _ present).1
        simp only [lockIs] at notified
        omega
      exact ⟨bornV, none, by simpa [different] using notified⟩
  · intro id v present
    simp only [callLater_watchers] at present
    split at present
    · simp at present
    · exact inv.deleting id v present
  · intro v doDelete started
    exact absurd started (awake v doDelete)

theorem notifyLoop_eq (n : Nat) (s : ConditionWorld) :
    (notifyLoop n s).2 = s.waiters.take n ∧ (notifyLoop n s).1.outcomes = s.outcomes ∧
      (notifyLoop n s).1.notices = s.notices ∧ (notifyLoop n s).1.control = s.control := by
  induction n generalizing s with
  | zero => simp [notifyLoop]
  | succ n ih =>
    cases queue : s.waiters with
    | nil => simp [notifyLoop, queue]
    | cons lock rest =>
      simp only [notifyLoop, queue, take_succ_cons]
      obtain ⟨taken, outcomes, notices, control⟩ := ih
        { s with
          waiters := rest
          locks := update s.locks lock ((s.locks lock).release s.loop (.notifyWaiters lock false) 1).1
          loop := ((s.locks lock).release s.loop (.notifyWaiters lock false) 1).2 }
      exact ⟨by rw [taken], outcomes, notices, control⟩

theorem notifyLoop (n : Nat) (inv : Signals chosen s) (awake : ∀ v doDelete, s.control ≠ .notifying v doDelete) :
    Signals (chosen ∪ {lock | lock ∈ (ConditionWorld.notifyLoop n s).2}) (ConditionWorld.notifyLoop n s).1 := by
  induction n generalizing s chosen with
  | zero => simpa [ConditionWorld.notifyLoop] using inv
  | succ n ih =>
    cases queue : s.waiters with
    | nil => simpa [ConditionWorld.notifyLoop, queue] using inv
    | cons lock rest =>
      have rounds := ih (inv.select queue awake) awake
      simp only [ConditionWorld.notifyLoop, queue, mem_cons]
      convert rounds using 1
      ext v
      simp only [Set.mem_union, Set.mem_ofPred_eq, Set.mem_insert_iff]
      tauto

theorem with_notices (inv : Signals chosen s) (notices : List Notice) : Signals chosen { s with notices } where
  distinct := inv.distinct
  phase lock born := (inv.phase lock born).elsewhere Iff.rfl Iff.rfl rfl rfl (fun _ _ atFrame => atFrame)
    (fun _ _ due => due)
  unused := inv.unused
  frame := inv.frame
  timer := inv.timer
  functor := inv.functor
  deleting := inv.deleting
  started := inv.started
  running := inv.running

end Signals

def selected (s : ConditionWorld) : Set Nat := {lock | ∃ notice ∈ s.notices, lock ∈ notice.selected}

structure Recorded (s : ConditionWorld) : Prop where
  signals : Signals s.selected s
  taken : ∀ notice ∈ s.notices,
    notice.selected = notice.registered.take notice.value.toNat ∧ notice.registered.Nodup
  disjoint : s.notices.Pairwise fun a b => List.Disjoint a.selected b.selected

theorem notify_selected (s : ConditionWorld) (value : Int) :
    (s.notify value).selected = s.selected ∪ {lock | lock ∈ s.waiters.take value.toNat} := by
  obtain ⟨taken, _, notices, _⟩ := Signals.notifyLoop_eq value.toNat s
  ext lock
  simp only [selected, notify, mem_cons, exists_eq_or_imp, taken, notices, Set.mem_union, Set.mem_ofPred_eq]
  exact or_comm

theorem notify_outcomes (s : ConditionWorld) (value : Int) : (s.notify value).outcomes = s.outcomes :=
  (Signals.notifyLoop_eq value.toNat s).2.1

namespace Recorded

variable {s t : ConditionWorld}
variable {c : Nat}

theorem notify {functor : Option (Nat × Bool)} (inv : Recorded s) (control : s.control = .running c functor)
    (value : Int) : Recorded (s.notify value) := by
  obtain ⟨taken, _, notices, _⟩ := Signals.notifyLoop_eq value.toNat s
  refine ⟨?_, ?_, ?_⟩
  · have rounds := inv.signals.notifyLoop value.toNat (by simp [control])
    rw [notify_selected, ← taken]
    exact rounds.with_notices _
  · intro notice member
    simp only [ConditionWorld.notify, notices, mem_cons] at member
    rcases member with rfl | old
    · exact ⟨taken, inv.signals.distinct⟩
    · exact inv.taken notice old
  · simp only [ConditionWorld.notify, notices, pairwise_cons]
    refine ⟨?_, inv.disjoint⟩
    intro notice member lock now before
    rw [taken] at now
    exact (inv.signals.registered_of_mem (mem_of_mem_take now)).2.1 ⟨notice, member, before⟩

theorem of_signals (inv : Recorded s) (notices : t.notices = s.notices) (signals : Signals s.selected t) :
    Recorded t := by
  have same : t.selected = s.selected := by simp only [selected, notices]
  exact ⟨same ▸ signals, notices ▸ inv.taken, notices ▸ inv.disjoint⟩

theorem step {e : ConditionEvent} (inv : Recorded s) (step : s.step e = some t) : Recorded t := by
  have signals := inv.signals
  cases step_cases step with
  | resume control free => exact inv.of_signals rfl (signals.resume control free)
  | wait control =>
    refine inv.of_signals ?_ (signals.wait control _)
    rw [Signals.wait_eq]
    split <;> rfl
  | notify control _ => exact inv.notify control _
  | leave control => exact inv.of_signals rfl (signals.leave control)
  | runFunctor control pending => exact inv.of_signals rfl (signals.runFunctor control pending)
  | wakeNext control waking queue atFrame =>
    refine inv.of_signals ?_ (signals.wakeNext control waking queue atFrame)
    rw [(signals.wakeNext_eq control waking queue atFrame).2.2]
    rfl
  | endFunctor control idle => exact inv.of_signals rfl (signals.endFunctor control idle)
  | timeout control pending atFrame =>
    rw [signals.timeout_eq _ atFrame]
    exact inv.of_signals rfl (signals.finish_from_loop control atFrame (.cancelCall pending) (by simp))
  | lateTimeout control pending free => exact inv.of_signals rfl (signals.lateTimeout control pending free)
  | kill control atFrame =>
    rw [signals.kill_eq atFrame]
    exact inv.of_signals rfl
      (signals.finish_from_loop control atFrame (.cancelTimer (signals.timer _ _ _ atFrame)) (by simp))

theorem new : Recorded .new where
  signals := by
    refine ⟨nodup_nil, ?_, ?_, ?_, ?_, ?_, ?_, ?_, ?_⟩ <;>
      simp [ConditionWorld.new, empty, selected]
  taken := by simp [ConditionWorld.new]
  disjoint := List.Pairwise.nil

theorem mem_selected_iff {lock : Nat} {f : AcquireFrame} (inv : Recorded s) (atFrame : s.frames c = some (lock, f)) :
    lock ∈ s.selected ↔ lock ∉ s.waiters := by
  obtain ⟨born, queue, _⟩ := inv.signals.frame c lock f atFrame
  cases inv.signals.phase lock born with
  | registered member free => simp [member, free]
  | selected gone mark => simp [gone, mark]
  | finished _ _ _ empty => simp [queue] at empty

end Recorded

/-- Each call of notify has selected as many of the registered calls of wait as
it could, each of them has returned true or is about to, and no call has
returned true without being selected. -/
structure Delivered (s : ConditionWorld) : Prop where
  selects : ∀ notice ∈ s.notices,
    notice.selected.Nodup ∧ notice.selected.length = min notice.value.toNat notice.registered.length
  disjoint : s.notices.Pairwise fun a b => List.Disjoint a.selected b.selected
  woken : ∀ notice ∈ s.notices, ∀ lock ∈ notice.selected,
    s.outcomes lock = some (.returned true) ∨ s.outcomes lock = none ∧ ∃ id, s.WakeupDue id lock
  earned : ∀ lock, s.outcomes lock = some (.returned true) → ∃ notice ∈ s.notices, lock ∈ notice.selected

def Unbroken (s : ConditionWorld) : Prop :=
  ∀ lock ∈ s.selected, s.outcomes lock = none ∨ s.outcomes lock = some (.returned true)

/-- A timeout or an exception reaches a call of wait only while its lock is
still registered with the condition. -/
def hitsRegistered (s : ConditionWorld) : ConditionEvent → Bool
  | .timeout id =>
    match s.loop.watchers[id]? with
    | some (.yieldCurrent coroutine) => (s.frames coroutine).all fun waiting => waiting.1 ∈ s.waiters
    | _ => true
  | .kill coroutine => (s.frames coroutine).all fun waiting => waiting.1 ∈ s.waiters
  | _ => true

namespace Recorded

variable {s t : ConditionWorld}
variable {loop : EventLoop ConditionCallback} {sp : SemaphorePrivate} {outcome : WaitOutcome} {c lock : Nat}

theorem delivered_iff (inv : Recorded s) : s.Delivered ↔ s.Unbroken := by
  constructor
  · rintro delivered lock ⟨notice, member, inList⟩
    rcases delivered.woken notice member lock inList with ok | ⟨unsettled, _⟩
    · exact .inr ok
    · exact .inl unsettled
  · intro unbroken
    refine ⟨?_, inv.disjoint, ?_, ?_⟩
    · intro notice member
      obtain ⟨taken, distinct⟩ := inv.taken notice member
      rw [taken]
      exact ⟨distinct.sublist (take_sublist _ _), length_take⟩
    · intro notice member lock inList
      have mark : lock ∈ s.selected := ⟨notice, member, inList⟩
      rcases unbroken lock mark with unsettled | ok
      · have born : lock < s.nextLock := by
          by_contra beyond
          exact (inv.signals.unused lock (by omega)).2.1 mark
        refine .inr ⟨unsettled, ?_⟩
        cases inv.signals.phase lock born with
        | registered _ free => exact absurd mark free
        | selected _ _ _ _ _ _ due => exact ⟨_, due⟩
        | finished _ outcome => simp [unsettled] at outcome
      · exact .inl ok
    · intro lock ok
      have ended : s.outcomes lock ≠ none := by simp [ok]
      have born := inv.signals.lt_nextLock_of_outcome ended
      cases inv.signals.phase lock born with
      | registered _ _ unsettled => simp [ok] at unsettled
      | selected _ _ unsettled => simp [ok] at unsettled
      | finished _ outcome earned _ => exact earned (some.inj (outcome.symm.trans ok))

theorem unbroken_finish {functor : Option (Nat × Bool)} (unbroken : s.Unbroken) :
    (s.finishWait c lock functor outcome sp loop).Unbroken ↔ (lock ∈ s.selected → outcome = .returned true) := by
  constructor
  · intro after mark
    have settled := after lock mark
    simpa [finishWait] using settled
  · intro allowed v mark
    by_cases same : v = lock
    · subst same
      exact .inr (by simp [finishWait, allowed mark])
    · simpa [finishWait, same] using unbroken v mark

theorem unbroken_failure {f : AcquireFrame} (inv : Recorded s) (unbroken : s.Unbroken)
    (atFrame : s.frames c = some (lock, f)) (failed : outcome ≠ .returned true) :
    (s.finishWait c lock none outcome sp loop).Unbroken ↔ lock ∈ s.waiters := by
  rw [unbroken_finish unbroken, inv.mem_selected_iff atFrame]
  simp [failed]

theorem unbroken_step {e : ConditionEvent} (inv : Recorded s) (unbroken : s.Unbroken) (step : s.step e = some t) :
    t.Unbroken ↔ s.hitsRegistered e = true := by
  have signals := inv.signals
  cases step_cases step with
  | wait control =>
    have fresh := signals.unused s.nextLock le_rfl
    simp only [hitsRegistered, iff_true]
    rw [Signals.wait_eq]
    split
    · rw [unbroken_finish (by exact unbroken)]
      exact fun mark => absurd mark fresh.2.1
    · exact unbroken
  | notify control event =>
    have met : s.hitsRegistered e = true := by
      rcases event with rfl | rfl <;> rfl
    simp only [met, iff_true]
    intro lock mark
    rw [notify_outcomes]
    rw [notify_selected] at mark
    rcases mark with old | now
    · exact unbroken lock old
    · exact .inl (signals.registered_of_mem (mem_of_mem_take now)).2.2.1
  | wakeNext control waking queue atFrame =>
    simp only [hitsRegistered, iff_true]
    rw [(signals.wakeNext_eq control waking queue atFrame).2.2, unbroken_finish unbroken]
    exact fun _ => rfl
  | timeout control pending atFrame =>
    rw [signals.timeout_eq _ atFrame, inv.unbroken_failure unbroken atFrame (by simp)]
    simp [hitsRegistered, pending, atFrame]
  | lateTimeout control pending free =>
    simp only [hitsRegistered, pending, free, all_none, iff_true]
    exact unbroken
  | kill control atFrame =>
    rw [signals.kill_eq atFrame, inv.unbroken_failure unbroken atFrame (by simp)]
    simp [hitsRegistered, atFrame]
  | _ =>
    simp only [hitsRegistered, iff_true]
    exact unbroken

end Recorded

end ConditionWorld

/-- Runs of a condition swallow no notification exactly while no timeout and no
exception reaches a call of wait whose lock notify has already taken out of the
queue. In such a run, once no functor of a lock is pending, each notify has made
as many calls return true as it asked for and as there were. -/
theorem condition_notifications_delivered {history : List (ConditionWorld × ConditionEvent)} {s : ConditionWorld}
    (run : Run conditionSystem history s) :
    ((∀ u, Visited history s u → u.Delivered) ↔
      ∀ entry ∈ history, entry.1.hitsRegistered entry.2 = true) ∧
    ((∀ entry ∈ history, entry.1.hitsRegistered entry.2 = true) → s.control = .loop →
      (∀ id lock : Nat, s.loop.watchers[id]? ≠ some (notifyWaiters lock false)) →
      ∀ notice ∈ s.notices,
        notice.selected.countP (fun lock => s.outcomes lock = some (.returned true)) =
          min notice.value.toNat notice.registered.length) := by
  have exactly := run.everywhere_iff (fun s e => s.hitsRegistered e = true) ConditionWorld.Recorded
    ConditionWorld.Delivered (by rintro _ rfl; exact .new)
    (by rintro _ rfl; exact ConditionWorld.Recorded.new.delivered_iff.mpr (by simp [ConditionWorld.Unbroken,
      ConditionWorld.selected, ConditionWorld.new]))
    (fun _ _ _ inv next => inv.step next)
    (fun _ _ _ inv delivered next => by
      rw [(inv.step next).delivered_iff]
      exact inv.unbroken_step (inv.delivered_iff.mp delivered) next)
  refine ⟨exactly, ?_⟩
  intro guarded control idle notice member
  have delivered := exactly.mpr guarded s (.inl rfl)
  rw [← (delivered.selects notice member).2, countP_eq_length]
  intro lock inList
  rcases delivered.woken notice member lock inList with ok | ⟨_, id, pending | ⟨_, started⟩⟩
  · simp [ok]
  · exact absurd pending (idle id lock)
  · simp [control] at started

/-- The functor of the first of two calls of wait comes before its timer. -/
def timelySignal : List ConditionEvent :=
  [.resume 1, .wait 100, .resume 2, .wait UINT_MAX, .resume 3, .notify 1, .leave, .runFunctor 2, .wakeNext,
    .leave, .wakeNext, .runFunctor 3, .wakeNext]

theorem condition_notifications_delivered_timelySignal :
    ∃ history s, Run conditionSystem history s ∧ history.map Prod.snd = timelySignal.reverse ∧
      s.notices = [⟨1, [0, 1], [0]⟩] ∧
      [0].countP (fun lock => s.outcomes lock = some (.returned true)) = 1 := by
  obtain ⟨history, s, run, labels, guarded, control, idle, notices⟩ :=
    Run.of_exec_guarded conditionSystem ConditionWorld.hitsRegistered
      rfl timelySignal rfl
      (fun s => s.control = .loop ∧ s.loop.watchers.isEmpty = true ∧ s.notices = [⟨1, [0, 1], [0]⟩]) (by decide)
  have empty := Std.ExtTreeMap.isEmpty_iff.mp idle
  exact ⟨history, s, run, labels, notices, (condition_notifications_delivered run).2 guarded control
    (by simp [empty]) ⟨1, [0, 1], [0]⟩ (by simp [notices])⟩

/-- Two calls of wait, the first with a timeout, and a notify for one of them.
The timer of the first call comes before the functor of its lock. -/
def lateSignal : List ConditionEvent :=
  [.resume 1, .wait 100, .resume 2, .wait UINT_MAX, .resume 3, .notify 1, .leave, .timeout 1, .leave,
    .runFunctor 3, .wakeNext]

/-- The first call returns false, and the second sleeps on with no callback
left that could wake it. -/
theorem condition_notification_lost_lateSignal :
    ∃ history s, Run conditionSystem history s ∧ history.map Prod.snd = lateSignal.reverse ∧
      s.control = .loop ∧ s.loop.watchers = ∅ ∧ s.notices = [⟨1, [0, 1], [0]⟩] ∧
      s.outcomes 0 = some (.returned false) ∧ s.waiters = [1] ∧ s.outcomes 1 = none ∧ ¬ s.Delivered := by
  obtain ⟨history, s, run, labels, control, idle, notices, first, waiters, second⟩ :=
    Run.of_exec conditionSystem rfl lateSignal rfl
      (fun s => s.control = .loop ∧ s.loop.watchers.isEmpty = true ∧ s.notices = [⟨1, [0, 1], [0]⟩] ∧
        s.outcomes 0 = some (.returned false) ∧ s.waiters = [1] ∧ s.outcomes 1 = none) (by decide)
  refine ⟨history, s, run, labels, control, Std.ExtTreeMap.isEmpty_iff.mp idle, notices, first, waiters, second, ?_⟩
  intro delivered
  rcases delivered.woken ⟨1, [0, 1], [0]⟩ (by simp [notices]) 0 (by simp) with ok | ⟨unsettled, _⟩
  · simp [first] at ok
  · simp [first] at unsettled

end Qtng
