import Qtng.Locks.SemaphoreRun

namespace Qtng

open Function SemaphorePrivate Transition

/-- A quantity of a suspended acquire call, 0 for a coroutine that is in none. -/
def weightOf (weigh : AcquireFrame → Int) (frames : Nat → Option AcquireFrame) (coroutine : Nat) : Int :=
  match frames coroutine with
  | some frame => weigh frame
  | none => 0

def queueWeight (weigh : AcquireFrame → Int) (frames : Nat → Option AcquireFrame) (waiters : List Nat) : Int :=
  (waiters.map (weightOf weigh frames)).sum

section QueueWeight

variable (weigh : AcquireFrame → Int) (frames : Nat → Option AcquireFrame) {waiters : List Nat} {c : Nat}

theorem queueWeight_update_of_not_mem (absent : c ∉ waiters) (frame : Option AcquireFrame) :
    queueWeight weigh (update frames c frame) waiters = queueWeight weigh frames waiters := by
  unfold queueWeight
  congr 1
  apply List.map_congr_left
  intro w member
  have different : w ≠ c := fun same => absent (same ▸ member)
  simp [weightOf, different]

theorem queueWeight_enter (absent : c ∉ waiters) (frame : AcquireFrame) :
    queueWeight weigh (update frames c (some frame)) (waiters ++ [c]) =
      queueWeight weigh frames waiters + weigh frame := by
  have kept := queueWeight_update_of_not_mem weigh frames absent (some frame)
  simp only [queueWeight, List.map_append, List.sum_append] at kept ⊢
  rw [kept]
  simp [weightOf]

theorem queueWeight_leave {frame : AcquireFrame} (distinct : waiters.Nodup) (member : c ∈ waiters)
    (atFrame : frames c = some frame) :
    queueWeight weigh (update frames c none) (waiters.filter (· ≠ c)) =
      queueWeight weigh frames waiters - weigh frame := by
  have absent : c ∉ waiters.filter (· ≠ c) := by simp
  rw [queueWeight_update_of_not_mem weigh frames absent]
  have erased : waiters.filter (· ≠ c) = waiters.erase c := by
    rw [distinct.erase_eq_filter]
    congr 1
    funext w
    simp [bne, beq_eq_decide]
  have split := List.sum_map_erase (weightOf weigh frames) member
  have own : weightOf weigh frames c = weigh frame := by simp [weightOf, atFrame]
  simp only [queueWeight, erased]
  omega

theorem weightOf_nonneg (nonneg : ∀ c f, frames c = some f → 0 ≤ weigh f) (c : Nat) : 0 ≤ weightOf weigh frames c := by
  cases atFrame : frames c with
  | none => simp [weightOf, atFrame]
  | some f => simpa [weightOf, atFrame] using nonneg c f atFrame

theorem queueWeight_nonneg (nonneg : ∀ c f, frames c = some f → 0 ≤ weigh f) (waiters : List Nat) :
    0 ≤ queueWeight weigh frames waiters := by
  apply List.sum_nonneg
  intro x member
  obtain ⟨w, _, rfl⟩ := List.mem_map.mp member
  exact weightOf_nonneg weigh frames nonneg w

end QueueWeight

/-- What a coroutine has collected so far in the acquire call it is
suspended in. -/
def gathered (frames : Nat → Option AcquireFrame) (coroutine : Nat) : Int :=
  weightOf AcquireFrame.gotNum frames coroutine

def collected (frames : Nat → Option AcquireFrame) (waiters : List Nat) : Int :=
  queueWeight AcquireFrame.gotNum frames waiters

namespace SemaphoreWorld

def heldTotal (s : SemaphoreWorld) : Int := (s.holdings.map Prod.snd).sum

/-- A coroutine is queued exactly while it is suspended in acquire. -/
structure Queued (s : SemaphoreWorld) : Prop where
  distinct : s.sp.waiters.Nodup
  queued : ∀ c, c ∈ s.sp.waiters ↔ ∃ frame, s.frames c = some frame
  running : ∀ c b, s.control = .running c b → s.frames c = none

namespace Queued

variable {s t : SemaphoreWorld} {f : AcquireFrame} {c : Nat} {b : Bool}

variable (inv : Queued s)
include inv

theorem left (waiters : t.sp.waiters = s.sp.waiters.filter (· ≠ c)) (frames : t.frames = update s.frames c none)
    (control : t.control = .running c b) : Queued t where
  distinct := by
    rw [waiters]
    exact inv.distinct.filter _
  queued := by
    intro w
    rw [waiters, frames]
    by_cases same : w = c
    · simp [same]
    · simpa [same] using inv.queued w
  running := by
    intro w b' running
    have same : c = w := by
      rw [control] at running
      cases running
      rfl
    simp [frames, same]

theorem entered (absent : s.frames c = none) (waiters : t.sp.waiters = s.sp.waiters ++ [c])
    (frames : t.frames = update s.frames c (some f)) (control : t.control = returnTo b) : Queued t where
  distinct := by
    have outside : c ∉ s.sp.waiters := by simp [inv.queued, absent]
    rw [waiters, List.nodup_append_comm]
    exact List.nodup_cons.mpr ⟨outside, inv.distinct⟩
  queued := by
    intro w
    rw [waiters, frames]
    by_cases same : w = c
    · simp [same]
    · simpa [same] using inv.queued w
  running := by
    intro w b' running
    rw [control] at running
    cases b <;> simp [returnTo] at running

theorem stayed (waiters : t.sp.waiters = s.sp.waiters) (frames : t.frames = s.frames)
    (running : ∀ c b, t.control = .running c b → s.frames c = none) : Queued t where
  distinct := waiters ▸ inv.distinct
  queued := by
    rw [waiters, frames]
    exact inv.queued
  running := by
    rw [frames]
    exact running

/-- A call leaves the queue and joins it again at the end. -/
theorem requeued (waiters : t.sp.waiters = s.sp.waiters.filter (· ≠ c) ++ [c])
    (frames : t.frames = update s.frames c (some f)) (control : t.control = returnTo b) : Queued t := by
  let between : SemaphoreWorld :=
    { s with
      sp := { s.sp with waiters := s.sp.waiters.filter (· ≠ c) }
      frames := update s.frames c none, control := .running c b }
  have away : Queued between := inv.left rfl rfl rfl
  refine away.entered (f := f) (by simp [between]) waiters ?_ control
  simp [frames, between]

omit inv

end Queued

/-- The accounting invariant of a semaphore of n permits: each suspended call has
collected a proper part of what it asked for. -/
structure Permits (n : Int) (s : SemaphoreWorld) : Prop extends Queued s where
  size : s.sp.init_value = n
  range : 1 ≤ n ∧ n ≤ INT_MAX
  nonneg : 0 ≤ s.sp.counter
  frame : ∀ c f, s.frames c = some f → 0 ≤ f.gotNum ∧ 0 < f.remain ∧ f.gotNum + f.remain = f.value ∧ f.value ≤ n
  held : ∀ h ∈ s.holdings, 0 < h.2
  conserved : s.sp.counter + collected s.frames s.sp.waiters + s.heldTotal = n

namespace Permits

variable {n : Int} {s : SemaphoreWorld}
variable {f : AcquireFrame} {c : Nat} {b : Bool} {t : SemaphoreWorld}
variable {value : Int} {rest : List Nat} {w : Nat}

variable (inv : Permits n s)
include inv

theorem gotNum_nonneg (c : Nat) (f : AcquireFrame) (atFrame : s.frames c = some f) :
    0 ≤ f.gotNum :=
  (inv.frame c f atFrame).1

theorem collected_nonneg : 0 ≤ collected s.frames s.sp.waiters :=
  queueWeight_nonneg _ _ inv.gotNum_nonneg _

theorem gathered_le_collected (atFrame : s.frames c = some f) :
    f.gotNum ≤ collected s.frames s.sp.waiters := by
  have own : weightOf AcquireFrame.gotNum s.frames c = f.gotNum := by simp [weightOf, atFrame]
  rw [← own]
  apply List.single_le_sum
  · intro x member
    obtain ⟨w, _, rfl⟩ := List.mem_map.mp member
    exact weightOf_nonneg _ _ inv.gotNum_nonneg w
  · exact List.mem_map_of_mem ((inv.queued c).mpr ⟨f, atFrame⟩)

theorem heldTotal_nonneg : 0 ≤ s.heldTotal := by
  apply List.sum_nonneg
  intro x member
  obtain ⟨h, inList, rfl⟩ := List.mem_map.mp member
  exact (inv.held h inList).le

/-- A coroutine leaves the queue. What it had collected has gone to the
counter or into a successful acquisition. -/
theorem left (atFrame : s.frames c = some f) (size : t.sp.init_value = s.sp.init_value)
    (waiters : t.sp.waiters = s.sp.waiters.filter (· ≠ c)) (frames : t.frames = update s.frames c none)
    (control : t.control = .running c b) (nonneg : 0 ≤ t.sp.counter) (held : ∀ h ∈ t.holdings, 0 < h.2)
    (balance : t.sp.counter + t.heldTotal = s.sp.counter + s.heldTotal + f.gotNum) : Permits n t where
  toQueued := inv.toQueued.left waiters frames control
  size := size.trans inv.size
  range := inv.range
  nonneg := nonneg
  frame := by
    intro w g atW
    rw [frames] at atW
    by_cases same : w = c
    · simp [same] at atW
    · exact inv.frame w g (by simpa [same] using atW)
  held := held
  conserved := by
    have gone := queueWeight_leave AcquireFrame.gotNum _ inv.distinct ((inv.queued c).mpr ⟨f, atFrame⟩) atFrame
    have conserved := inv.conserved
    simp only [collected] at conserved ⊢
    rw [waiters, frames, gone]
    omega

theorem entered (absent : s.frames c = none) (size : t.sp.init_value = s.sp.init_value)
    (waiters : t.sp.waiters = s.sp.waiters ++ [c]) (frames : t.frames = update s.frames c (some f))
    (shape : 0 ≤ f.gotNum ∧ 0 < f.remain ∧ f.gotNum + f.remain = f.value ∧ f.value ≤ n)
    (control : t.control = returnTo b) (nonneg : 0 ≤ t.sp.counter) (holdings : t.holdings = s.holdings)
    (balance : t.sp.counter + f.gotNum = s.sp.counter) : Permits n t where
  toQueued := inv.toQueued.entered absent waiters frames control
  size := size.trans inv.size
  range := inv.range
  nonneg := nonneg
  frame := by
    intro w g atW
    rw [frames] at atW
    by_cases same : w = c
    · simp only [same, update_self, Option.some.injEq] at atW
      exact atW ▸ shape
    · exact inv.frame w g (by simpa [same] using atW)
  held := by
    rw [holdings]
    exact inv.held
  conserved := by
    have outside : c ∉ s.sp.waiters := by simp [inv.queued, absent]
    have joined := queueWeight_enter AcquireFrame.gotNum s.frames outside f
    have conserved := inv.conserved
    have heldSame : t.heldTotal = s.heldTotal := by simp [heldTotal, holdings]
    simp only [collected] at conserved ⊢
    rw [waiters, frames, joined]
    omega

theorem stayed (size : t.sp.init_value = s.sp.init_value)
    (waiters : t.sp.waiters = s.sp.waiters) (frames : t.frames = s.frames)
    (running : ∀ c b, t.control = .running c b → s.frames c = none) (nonneg : 0 ≤ t.sp.counter)
    (held : ∀ h ∈ t.holdings, 0 < h.2)
    (balance : t.sp.counter + t.heldTotal = s.sp.counter + s.heldTotal) : Permits n t where
  toQueued := inv.toQueued.stayed waiters frames running
  size := size.trans inv.size
  range := inv.range
  nonneg := nonneg
  frame := by
    rw [frames]
    exact inv.frame
  held := held
  conserved := by
    have conserved := inv.conserved
    rw [waiters, frames]
    omega

theorem acquireMany {msecs : Nat} (control : s.control = .running c b) (positive : 1 ≤ value) :
    Permits n (s.acquireMany c b value msecs) := by
  have absent := inv.running c b control
  have size := inv.size
  unfold SemaphoreWorld.acquireMany
  split
  · exact inv
  rename_i fits
  unfold acquire
  split
  · -- enough permits: the call returns at once
    refine inv.stayed rfl rfl ?_ ?_ ?_ ?_ ?_
    · simp [settle, update_eq_self_iff, absent]
    · intro w b' running
      cases running
      exact absent
    · simp only [settle]
      omega
    · intro h member
      rcases List.mem_cons.mp member with rfl | old
      · exact positive
      · exact inv.held h old
    · simp only [settle, heldTotal, if_true, List.map_cons, List.sum_cons]
      omega
  rename_i short
  split
  · refine inv.stayed rfl rfl ?_ ?_ inv.nonneg inv.held rfl
    · simp [settle, update_eq_self_iff, absent]
    · intro w b' running
      cases running
      exact absent
  · have remains : value - s.sp.counter > 0 := by omega
    simp only [waitLoop, remains, if_true]
    have nonneg := inv.nonneg
    refine inv.entered absent rfl rfl rfl ⟨nonneg, remains, ?_, ?_⟩ rfl le_rfl rfl ?_
    · simp only
      omega
    · simp only
      omega
    · simp [settle]

theorem release {acquired : Int} (owned : (c, acquired) ∈ s.holdings)
    (positive : 1 ≤ value) (within : value ≤ acquired) : Permits n (s.release c acquired value) := by
  have size := inv.size
  have bounded := inv.range.2
  have parts : s.heldTotal = acquired + ((s.holdings.erase (c, acquired)).map Prod.snd).sum :=
    ((List.perm_cons_erase owned).map Prod.snd).sum_eq
  have restNonneg : 0 ≤ ((s.holdings.erase (c, acquired)).map Prod.snd).sum := by
    apply List.sum_nonneg
    intro x member
    obtain ⟨h, inList, rfl⟩ := List.mem_map.mp member
    exact (inv.held h (List.mem_of_mem_erase inList)).le
  have collectedNonneg := inv.collected_nonneg
  have conserved := inv.conserved
  have counter : (s.sp.release s.loop .notifyWaiters value).1.counter = s.sp.counter + value :=
    release_counter _ _ (by omega) (by omega) (by omega)
  have nonneg := inv.nonneg
  refine inv.stayed ?_ ?_ rfl ?_ ?_ ?_ ?_
  · simp [SemaphoreWorld.release]
  · simp [SemaphoreWorld.release]
  · exact inv.running
  · simp only [SemaphoreWorld.release, counter]
    omega
  · intro h member
    simp only [SemaphoreWorld.release] at member
    split at member
    · rcases List.mem_cons.mp member with rfl | old
      · simp only
        omega
      · exact inv.held h (List.mem_of_mem_erase old)
    · exact inv.held h (List.mem_of_mem_erase member)
  · simp only [SemaphoreWorld.release, heldTotal, counter] at parts ⊢
    split
    · simp only [List.map_cons, List.sum_cons]
      omega
    · omega

theorem release_gathered (atFrame : s.frames c = some f) (loop : EventLoop LockCallback) :
    (({ s.sp with waiters := s.sp.waiters.filter (· ≠ c) } : SemaphorePrivate).release loop .notifyWaiters
      f.gotNum).1.counter = s.sp.counter + f.gotNum := by
  have bounded := inv.range.2
  have own := inv.gathered_le_collected atFrame
  have heldNonneg := inv.heldTotal_nonneg
  have conserved := inv.conserved
  have initial := inv.size
  refine release_counter _ _ ?_ (inv.frame c f atFrame).1 ?_ <;> simp only <;> omega

theorem abandoned (atFrame : s.frames c = some f) (size : t.sp.init_value = s.sp.init_value)
    (waiters : t.sp.waiters = s.sp.waiters.filter (· ≠ c)) (frames : t.frames = update s.frames c none)
    (control : t.control = .running c false) (counter : t.sp.counter = s.sp.counter + f.gotNum)
    (holdings : t.holdings = s.holdings) : Permits n t := by
  have nonneg := inv.nonneg
  have got := (inv.frame c f atFrame).1
  refine inv.left atFrame size waiters frames control (by omega) (holdings ▸ inv.held) ?_
  simp only [heldTotal, holdings]
  omega

theorem timeout_eq (id : Nat) (atFrame : s.frames c = some f) :
    (s.timeout id c).sp.init_value = s.sp.init_value ∧
      (s.timeout id c).sp.waiters = s.sp.waiters.filter (· ≠ c) ∧
      (s.timeout id c).sp.counter = s.sp.counter + f.gotNum ∧
      (s.timeout id c).frames = update s.frames c none ∧
      (s.timeout id c).control = .running c false ∧ (s.timeout id c).holdings = s.holdings := by
  have member := (inv.queued c).mpr ⟨f, atFrame⟩
  have back := inv.release_gathered atFrame (s.loop.cancelCall id)
  simp only [timeout, atFrame, afterYield, member, if_true, settle,
    release_waiters, release_init_value, Bool.false_eq_true, if_false,
    and_self, and_true, true_and]
  exact back

theorem kill_eq (atFrame : s.frames c = some f) :
    (s.kill c f).sp.init_value = s.sp.init_value ∧
      (s.kill c f).sp.waiters = s.sp.waiters.filter (· ≠ c) ∧
      (s.kill c f).sp.counter = s.sp.counter + f.gotNum ∧
      (s.kill c f).frames = update s.frames c none ∧
      (s.kill c f).control = .running c false ∧ (s.kill c f).holdings = s.holdings := by
  have back := inv.release_gathered atFrame (cancelTimer s.loop f.callbackId)
  simp only [kill, onException, release_waiters,
    release_init_value, and_self, and_true, true_and]
  exact back

omit inv

theorem filter_head (distinct : (w :: rest).Nodup) :
    (w :: rest).filter (· ≠ w) = rest := by
  have outside := (List.nodup_cons.mp distinct).1
  rw [List.filter_cons_of_neg (by simp), List.filter_eq_self]
  intro v member
  have different : v ≠ w := fun same => outside (same ▸ member)
  simp [different]

/-- The functor hands the permits on: either the call is complete, or it takes
all there are and queues up again. -/
theorem wakeNext (inv : Permits n s) (queue : s.sp.waiters = w :: rest) (atFrame : s.frames w = some f) :
    Permits n (s.settle w f.value true
      (({ s.sp with waiters := rest } : SemaphorePrivate).afterYield s.loop .notifyWaiters w f)) := by
  have distinct := inv.distinct
  rw [queue] at distinct
  have outside := (List.nodup_cons.mp distinct).1
  have others : rest.filter (· ≠ w) = rest := by
    have whole := filter_head distinct
    rwa [List.filter_cons_of_neg (by simp)] at whole
  have popped : rest = s.sp.waiters.filter (· ≠ w) := by rw [queue, filter_head distinct]
  obtain ⟨got, remains, total, bound⟩ := inv.frame w f atFrame
  have nonneg := inv.nonneg
  simp only [afterYield, outside, if_false, others]
  split
  · refine inv.left atFrame rfl popped rfl rfl ?_ ?_ ?_
    · simp only [settle]
      omega
    · intro h member
      rcases List.mem_cons.mp member with rfl | old
      · simp only
        omega
      · exact inv.held h old
    · simp only [settle, heldTotal, if_true, List.map_cons, List.sum_cons]
      omega
  · rename_i short
    have still : f.remain - s.sp.counter > 0 := by omega
    simp only [waitLoop, still, if_true, settle]
    -- as if the call first gave back what it had, and then took it again with the rest
    let between : SemaphoreWorld :=
      { s with
        sp := { s.sp with waiters := rest, counter := s.sp.counter + f.gotNum }
        frames := update s.frames w none, control := .running w true }
    have away : Permits n between := by
      refine inv.left atFrame rfl popped rfl rfl ?_ inv.held ?_
      · simp only [between]
        omega
      · simp only [between, heldTotal]
        omega
    let more := { f with gotNum := f.gotNum + s.sp.counter, remain := f.remain - s.sp.counter }
    have shape : 0 ≤ more.gotNum ∧ 0 < more.remain ∧ more.gotNum + more.remain = more.value ∧ more.value ≤ n := by
      refine ⟨?_, still, ?_, bound⟩ <;> simp only [more] <;> omega
    refine away.entered (c := w) (b := true) (by simp [between]) rfl rfl ?_ shape rfl le_rfl rfl ?_
    · simp [between, more]
    · simp only [between, more]
      omega

theorem step {e : SemaphoreEvent} (inv : Permits n s) (step : s.step e = some t) :
    Permits n t := by
  cases step_cases step with
  | @resume c control free =>
    refine inv.stayed rfl rfl rfl ?_ inv.nonneg inv.held rfl
    intro w b running
    cases running
    exact free
  | acquireMany control positive => exact inv.acquireMany control positive
  | release control owned positive within => exact inv.release owned positive within
  | @leave c b control =>
    refine inv.stayed rfl rfl rfl ?_ inv.nonneg inv.held rfl
    intro w b' running
    cases b <;> simp [returnTo] at running
  | runFunctor control pending =>
    refine inv.stayed rfl rfl rfl ?_ inv.nonneg inv.held rfl
    intro w b running
    simp at running
  | wakeNext control notified positive queue atFrame => exact inv.wakeNext queue atFrame
  | endFunctor control idle =>
    refine inv.stayed rfl rfl rfl ?_ inv.nonneg inv.held rfl
    intro w b running
    simp at running
  | @timeout id c control pending =>
    cases atFrame : s.frames c with
    | none =>
      simp only [timeout, atFrame]
      refine inv.stayed rfl rfl rfl ?_ inv.nonneg inv.held rfl
      intro w b running
      cases running
      exact atFrame
    | some f =>
      obtain ⟨size, waiters, counter, frames, now, holdings⟩ := inv.timeout_eq id atFrame
      exact inv.abandoned atFrame size waiters frames now counter holdings
  | kill control atFrame =>
    obtain ⟨size, waiters, counter, frames, now, holdings⟩ := inv.kill_eq atFrame
    exact inv.abandoned atFrame size waiters frames now counter holdings

theorem new (positive : 1 ≤ n) (bounded : n ≤ INT_MAX) : Permits n (.new n) where
  size := max_eq_right positive
  range := ⟨positive, bounded⟩
  nonneg := by
    simp only [SemaphoreWorld.new, SemaphorePrivate.new]
    omega
  distinct := List.nodup_nil
  queued := by simp [SemaphoreWorld.new, SemaphorePrivate.new]
  frame := by simp [SemaphoreWorld.new]
  held := by simp [SemaphoreWorld.new]
  running := by simp [SemaphoreWorld.new]
  conserved := by simp [SemaphoreWorld.new, SemaphorePrivate.new, collected, queueWeight, heldTotal]

theorem of_run (positive : 1 ≤ n) (bounded : n ≤ INT_MAX) {history : List (SemaphoreWorld × SemaphoreEvent)}
    (run : Run (semaphoreSystem n) history s) : Permits n s := by
  refine run.invariant ?_ ?_
  · rintro _ rfl
    exact new positive bounded
  · intro _ _ _ inv next
    exact inv.step next

theorem holdings_of_lock (inv : Permits 1 s) : s.holdings.length ≤ 1 := by
  have each : s.holdings.length ≤ s.heldTotal := by
    have bound := List.sum_le_sum (l := s.holdings) (f := fun _ => (1 : Int)) (g := Prod.snd)
      (fun h member => inv.held h member)
    simpa [heldTotal] using bound
  have nonneg := inv.nonneg
  have collectedNonneg := inv.collected_nonneg
  have conserved := inv.conserved
  omega

end Permits

end SemaphoreWorld

end Qtng
