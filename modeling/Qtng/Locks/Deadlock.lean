import Qtng.Locks.Wakeup

namespace Qtng

open Function SemaphorePrivate Transition List

/-- The calls of coroutines that wait for as long as it takes, for no more
permits than there are, and are never killed. -/
def SemaphoreEvent.patient (n : Int) : SemaphoreEvent → Bool
  | .acquireMany value msecs => 1 ≤ value ∧ value ≤ n ∧ msecs = UINT_MAX
  | .timeout _ => false
  | .kill _ => false
  | _ => true

/-- What the suspended calls can have collected at most: each of them lacks a
permit or more. -/
def hoardable (frames : Nat → Option AcquireFrame) (waiters : List Nat) : Int :=
  queueWeight (fun frame => frame.value - 1) frames waiters

namespace SemaphoreWorld

/-- A call may queue up only while it and the suspended calls cannot hold all
permits between them with none of them complete. -/
def leavesPermit (s : SemaphoreWorld) : SemaphoreEvent → Bool
  | .acquireMany value msecs =>
    s.sp.counter < value → value ≤ s.sp.init_value → msecs ≠ 0 →
      hoardable s.frames s.sp.waiters + (value - 1) < s.sp.init_value
  | _ => true

/-- A coroutine releases all it has before it asks again. -/
def asksEmptyHanded (s : SemaphoreWorld) : SemaphoreEvent → Bool
  | .acquireMany _ _ => ∀ h ∈ s.holdings, ∀ fromFunctor, s.control ≠ .running h.1 fromFunctor
  | _ => true

inductive QueueStep (s : SemaphoreWorld) (e : SemaphoreEvent) (t : SemaphoreWorld) : Prop
  | kept : t.sp.waiters = s.sp.waiters → t.frames = s.frames → QueueStep s e t
  | joined {c b value msecs frame} : e = .acquireMany value msecs → s.control = .running c b →
      s.sp.counter < value → value ≤ s.sp.init_value → msecs ≠ 0 → t.sp.waiters = s.sp.waiters ++ [c] →
      t.frames = update s.frames c (some frame) → frame.value = value → QueueStep s e t
  | left {c frame} : s.frames c = some frame → t.sp.waiters = s.sp.waiters.filter (· ≠ c) →
      t.frames = update s.frames c none → QueueStep s e t
  | requeued {c frame more} : s.frames c = some frame → t.sp.waiters = s.sp.waiters.filter (· ≠ c) ++ [c] →
      t.frames = update s.frames c (some more) → more.value = frame.value → QueueStep s e t

namespace Permits

variable {n : Int} {s t : SemaphoreWorld}

theorem queueStep_acquireMany {c : Nat} {b : Bool} {value : Int} {msecs : Nat} (inv : Permits n s)
    (control : s.control = .running c b) :
    QueueStep s (.acquireMany value msecs) (s.acquireMany c b value msecs) := by
  have absent := inv.running c b control
  have same : update s.frames c none = s.frames := by simp [absent]
  unfold SemaphoreWorld.acquireMany
  split
  · exact .kept rfl rfl
  rename_i fits
  unfold acquire
  split
  · exact .kept rfl same
  rename_i short
  split
  · exact .kept rfl same
  · rename_i blocking
    have remains : value - s.sp.counter > 0 := by omega
    simp only [waitLoop, remains, if_true]
    exact .joined rfl control (by omega) (by omega) blocking rfl rfl rfl

theorem queueStep_wakeNext {w : Nat} {rest : List Nat} {f : AcquireFrame} (inv : Permits n s)
    (queue : s.sp.waiters = w :: rest) (atFrame : s.frames w = some f) :
    QueueStep s .wakeNext (s.settle w f.value true
      (({ s.sp with waiters := rest } : SemaphorePrivate).afterYield s.loop .notifyWaiters w f)) := by
  have distinct := inv.distinct
  rw [queue] at distinct
  have outside := (nodup_cons.mp distinct).1
  have others : s.sp.waiters.filter (· ≠ w) = rest.filter (· ≠ w) := by
    rw [queue, filter_cons_of_neg (by simp)]
  simp only [afterYield, outside, if_false, ← others]
  split
  · exact .left atFrame rfl rfl
  · rename_i short
    have still : f.remain - s.sp.counter > 0 := by omega
    simp only [waitLoop, still, if_true]
    exact .requeued atFrame rfl rfl rfl

theorem queueStep {e : SemaphoreEvent} (inv : Permits n s) (step : s.step e = some t) : QueueStep s e t := by
  cases step_cases step with
  | acquireMany control positive => exact inv.queueStep_acquireMany control
  | release control owned positive within => exact .kept (release_waiters ..) rfl
  | wakeNext control notified positive queue atFrame => exact inv.queueStep_wakeNext queue atFrame
  | @timeout id c control pending =>
    cases atFrame : s.frames c with
    | none =>
      simp only [timeout, atFrame]
      exact .kept rfl rfl
    | some f =>
      obtain ⟨_, waiters, _, frames, _⟩ := inv.timeout_eq id atFrame
      exact .left atFrame waiters frames
  | kill control atFrame =>
    obtain ⟨_, waiters, _, frames, _⟩ := inv.kill_eq atFrame
    exact .left atFrame waiters frames
  | _ => exact .kept rfl rfl

end Permits

theorem settle_holders (s : SemaphoreWorld) (c : Nat) (value : Int) (b : Bool) (outcome : AcquireOutcome LockCallback) :
    ∀ h ∈ (s.settle c value b outcome).holdings, h ∈ s.holdings ∨ (s.settle c value b outcome).frames h.1 = none := by
  intro h member
  cases outcome with
  | suspended => exact Or.inl member
  | returned ok sp loop =>
    cases ok with
    | false => exact Or.inl member
    | true =>
      rcases mem_cons.mp member with rfl | old
      · exact Or.inr (by simp [settle])
      · exact Or.inl old

theorem holders_of_step {s t : SemaphoreWorld} {e : SemaphoreEvent} (step : s.step e = some t) :
    ∀ h ∈ t.holdings, (∃ h' ∈ s.holdings, h'.1 = h.1) ∨ t.frames h.1 = none := by
  intro h member
  have old : h ∈ s.holdings → (∃ h' ∈ s.holdings, h'.1 = h.1) ∨ t.frames h.1 = none :=
    fun inList => Or.inl ⟨h, inList, rfl⟩
  cases step_cases step with
  | acquireMany control positive =>
    unfold SemaphoreWorld.acquireMany at member old ⊢
    split at member
    · exact Or.inl ⟨h, member, rfl⟩
    · rename_i fits
      simp only [fits, if_false] at old ⊢
      exact (settle_holders _ _ _ _ _ h member).elim old Or.inr
  | release control owned positive within =>
    simp only [SemaphoreWorld.release] at member
    split at member
    · rcases mem_cons.mp member with rfl | rest
      · exact Or.inl ⟨_, owned, rfl⟩
      · exact old (mem_of_mem_erase rest)
    · exact old (mem_of_mem_erase member)
  | wakeNext control notified positive queue atFrame =>
    exact (settle_holders _ _ _ _ _ h member).elim old Or.inr
  | @timeout id c control pending =>
    cases atFrame : s.frames c with
    | none =>
      simp only [timeout, atFrame] at member old
      exact Or.inl ⟨h, member, rfl⟩
    | some f =>
      simp only [timeout, atFrame] at member old ⊢
      exact (settle_holders _ _ _ _ _ h member).elim old Or.inr
  | _ => exact old member

structure Unhoarded (n : Int) (s : SemaphoreWorld) : Prop where
  permits : Permits n s
  wakeups : Wakeups s
  spare : hoardable s.frames s.sp.waiters < n

namespace Unhoarded

variable {n : Int} {s t : SemaphoreWorld}

theorem asked_nonneg (inv : Unhoarded n s) (c : Nat) (f : AcquireFrame) (atFrame : s.frames c = some f) :
    0 ≤ f.value - 1 := by
  obtain ⟨got, remains, total, _⟩ := inv.permits.frame c f atFrame
  omega

theorem step {e : SemaphoreEvent} (inv : Unhoarded n s) (room : s.leavesPermit e = true) (step : s.step e = some t) :
    Unhoarded n t := by
  have permits := inv.permits
  have spare := inv.spare
  refine ⟨permits.step step, inv.wakeups.step step, ?_⟩
  unfold hoardable at spare ⊢
  cases permits.queueStep step with
  | kept waiters frames =>
    rw [waiters, frames]
    exact spare
  | @joined c b value msecs frame event control short fits blocking waiters frames asked =>
    subst event
    have outside : c ∉ s.sp.waiters := by simp [permits.queued, permits.running c b control]
    have bound := of_decide_eq_true room short fits blocking
    rw [permits.size] at bound
    rw [waiters, frames, queueWeight_enter _ _ outside, asked]
    exact bound
  | @left c frame atFrame waiters frames =>
    have positive := inv.asked_nonneg c frame atFrame
    rw [waiters, frames, queueWeight_leave _ _ permits.distinct ((permits.queued c).mpr ⟨frame, atFrame⟩) atFrame]
    omega
  | @requeued c frame more atFrame waiters frames asked =>
    -- the call leaves the queue and joins it again at the end
    have outside : c ∉ s.sp.waiters.filter (· ≠ c) := by simp
    have twice : update s.frames c (some more) =
        update (update s.frames c none) c (some more) := by simp
    rw [waiters, frames, twice, queueWeight_enter _ _ outside,
      queueWeight_leave _ _ permits.distinct ((permits.queued c).mpr ⟨frame, atFrame⟩) atFrame, asked]
    omega

theorem new (positive : 1 ≤ n) (bounded : n ≤ INT_MAX) : Unhoarded n (.new n) where
  permits := .new positive bounded
  wakeups := .new n
  spare := by
    simp only [hoardable, queueWeight, SemaphoreWorld.new, SemaphorePrivate.new, map_nil, sum_nil]
    omega

theorem of_run (positive : 1 ≤ n) (bounded : n ≤ INT_MAX) {history : List (SemaphoreWorld × SemaphoreEvent)}
    (run : Run (semaphoreSystem n) history s)
    (guarded : ∀ entry ∈ history, entry.1.leavesPermit entry.2 = true) : Unhoarded n s := by
  refine run.invariant_of_guard (fun s e => s.leavesPermit e = true) guarded ?_ ?_
  · rintro _ rfl
    exact new positive bounded
  · intro _ _ _ inv room next
    exact inv.step room next

theorem collected_le (inv : Unhoarded n s) :
    collected s.frames s.sp.waiters ≤ hoardable s.frames s.sp.waiters := by
  apply sum_le_sum
  intro c _
  cases atFrame : s.frames c with
  | none => simp [weightOf, atFrame]
  | some f =>
    obtain ⟨_, remains, total, _⟩ := inv.permits.frame c f atFrame
    simp only [weightOf, atFrame]
    omega

/-- With nothing left to run and a coroutine in the queue, some acquisition is
complete and not yet released. -/
theorem holder (inv : Unhoarded n s) (control : s.control = .loop)
    (idle : ∀ id : Nat, s.loop.watchers[id]? ≠ some LockCallback.notifyWaiters) (waiting : s.sp.waiters ≠ []) :
    ∃ h ∈ s.holdings, 0 < h.2 := by
  have permits := inv.permits
  have scheduled := inv.wakeups.scheduled
  rw [control] at scheduled
  -- a positive counter would have left the functor pending
  have exhausted : s.sp.counter = 0 := by
    have nonneg := permits.nonneg
    by_contra some
    have notified := scheduled.wakes rfl (by omega) waiting
    exact idle _ ((scheduled.pending rfl _).mpr ⟨rfl, notified⟩)
  have outstanding : 0 < s.heldTotal := by
    have conserved := permits.conserved
    have partly := inv.collected_le
    have spare := inv.spare
    omega
  obtain ⟨h, member⟩ : ∃ h, h ∈ s.holdings := by
    by_contra none
    have empty : s.holdings = [] := eq_nil_iff_forall_not_mem.mpr (not_exists.mp none)
    simp [heldTotal, empty] at outstanding
  exact ⟨h, member, permits.held h member⟩

end Unhoarded

structure EmptyHanded (n : Int) (s : SemaphoreWorld) : Prop where
  permits : Permits n s
  free : ∀ h ∈ s.holdings, s.frames h.1 = none

namespace EmptyHanded

variable {n : Int} {s t : SemaphoreWorld}

theorem step {e : SemaphoreEvent} (inv : EmptyHanded n s) (asks : s.asksEmptyHanded e = true)
    (step : s.step e = some t) : EmptyHanded n t := by
  refine ⟨inv.permits.step step, ?_⟩
  intro h member
  rcases holders_of_step step h member with ⟨h', old, same⟩ | none
  · have before : s.frames h.1 = none := same ▸ inv.free h' old
    cases inv.permits.queueStep step with
    | kept waiters frames =>
      rw [frames]
      exact before
    | @joined c b value msecs frame event control _ _ _ waiters frames _ =>
      subst event
      have other : h.1 ≠ c := by
        intro equal
        refine of_decide_eq_true asks h' old b ?_
        rw [same, equal]
        exact control
      simpa [frames, other] using before
    | @left c frame atFrame waiters frames =>
      rw [frames, update_apply]
      split
      · rfl
      · exact before
    | @requeued c frame more atFrame waiters frames asked =>
      have other : h.1 ≠ c := by
        intro equal
        simp [equal, atFrame] at before
      simpa [frames, other] using before
  · exact none

theorem of_run (positive : 1 ≤ n) (bounded : n ≤ INT_MAX) {history : List (SemaphoreWorld × SemaphoreEvent)}
    (run : Run (semaphoreSystem n) history s)
    (guarded : ∀ entry ∈ history, entry.1.asksEmptyHanded entry.2 = true) : EmptyHanded n s := by
  refine run.invariant_of_guard (fun s e => s.asksEmptyHanded e = true) guarded ?_ ?_
  · rintro _ rfl
    exact ⟨Permits.new positive bounded, by simp [SemaphoreWorld.new]⟩
  · intro _ _ _ inv asks next
    exact inv.step asks next

end EmptyHanded

end SemaphoreWorld

/-- While each call queues up only if the waiting calls cannot take all permits
between them, the semaphore never locks itself up: with no callback pending
and a coroutine in the queue, some coroutine has an acquisition to release. If
moreover no coroutine asks for permits while it holds some, that coroutine is
not itself waiting. -/
theorem semaphore_no_deadlock {n : Int} (positive : 1 ≤ n) (bounded : n ≤ INT_MAX)
    {history : List (SemaphoreWorld × SemaphoreEvent)} {s : SemaphoreWorld}
    (run : Run (semaphoreSystem n) history s)
    (guarded : ∀ entry ∈ history, entry.1.leavesPermit entry.2 = true)
    (control : s.control = .loop) (idle : s.loop.watchers = ∅) (waiting : s.sp.waiters ≠ []) :
    (∃ h ∈ s.holdings, 0 < h.2) ∧
      ((∀ entry ∈ history, entry.1.asksEmptyHanded entry.2 = true) →
        ∃ h ∈ s.holdings, 0 < h.2 ∧ h.1 ∉ s.sp.waiters) := by
  have inv := SemaphoreWorld.Unhoarded.of_run positive bounded run guarded
  obtain ⟨h, member, some⟩ := inv.holder control (by simp [idle]) waiting
  refine ⟨⟨h, member, some⟩, ?_⟩
  intro emptyHanded
  have free := (SemaphoreWorld.EmptyHanded.of_run positive bounded run emptyHanded).free h member
  exact ⟨h, member, some, by simp [inv.permits.queued, free]⟩

/-- Both permits of a semaphore are taken, and two coroutines queue up for one
and for two of them. -/
def takenPair : List SemaphoreEvent :=
  [.resume 1, .acquireMany 2 UINT_MAX, .leave, .resume 2, .acquireMany 1 UINT_MAX, .resume 3, .acquireMany 2 UINT_MAX]

theorem semaphore_no_deadlock_takenPair :
    ∃ history s, Run (semaphoreSystem 2) history s ∧
      history.map Prod.snd = takenPair.reverse ∧ s.sp.waiters = [2, 3] ∧ ∃ h ∈ s.holdings, 0 < h.2 := by
  obtain ⟨history, s, run, labels, guarded, control, idle, waiters⟩ :=
    Run.of_exec_guarded (semaphoreSystem 2) SemaphoreWorld.leavesPermit
      rfl takenPair rfl
      (fun s => s.control = .loop ∧ s.loop.watchers.isEmpty = true ∧ s.sp.waiters = [2, 3]) (by decide)
  exact ⟨history, s, run, labels, waiters, (semaphore_no_deadlock (by decide) (by decide) run guarded control
    (Std.ExtTreeMap.isEmpty_iff.mp idle) (by simp [waiters])).1⟩

/-- Two coroutines hold a permit each and two others wait for both permits.
The permits come back one at a time. -/
def dividedPair : List SemaphoreEvent :=
  [.resume 1, .acquireMany 1 UINT_MAX, .leave, .resume 2, .acquireMany 1 UINT_MAX, .leave,
    .resume 3, .acquireMany 2 UINT_MAX, .resume 4, .acquireMany 2 UINT_MAX,
    .resume 1, .release 1 1, .leave, .runFunctor 1, .wakeNext, .wakeNext,
    .resume 2, .release 1 1, .leave, .runFunctor 2, .wakeNext, .wakeNext]

/-- Each of the two waiting coroutines ends up with one of the permits. -/
theorem semaphore_deadlock_dividedPair :
    ∃ history s, Run (semaphoreSystem 2) history s ∧
      (∀ entry ∈ history, entry.2.patient 2 = true) ∧ s.control = .loop ∧ s.loop.watchers = ∅ ∧
      s.sp.waiters = [3, 4] ∧ ¬ ∃ h ∈ s.holdings, 0 < h.2 := by
  obtain ⟨history, s, run, labels, control, idle, waiters, none⟩ := Run.of_exec (semaphoreSystem 2)
    rfl dividedPair rfl
    (fun s => s.control = .loop ∧ s.loop.watchers.isEmpty = true ∧ s.sp.waiters = [3, 4] ∧ s.holdings = []) (by decide)
  refine ⟨history, s, run, ?_, control, Std.ExtTreeMap.isEmpty_iff.mp idle, waiters, by simp [none]⟩
  intro entry member
  have listed : entry.2 ∈ dividedPair := by
    rw [← mem_reverse, ← labels]
    exact mem_map_of_mem member
  have all : ∀ e ∈ dividedPair, e.patient 2 = true := by decide
  exact all _ listed

end Qtng
