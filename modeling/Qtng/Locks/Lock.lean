import Qtng.Locks.Permits

namespace Qtng

open List Function

namespace SemaphoreWorld

variable {s t : SemaphoreWorld}

variable (inv : Permits 1 s)
include inv

theorem Permits.unit {h : Nat × Int} (member : h ∈ s.holdings) : h.2 = 1 ∧ s.holdings = [h] := by
  have short := inv.holdings_of_lock
  have own := inv.held h member
  obtain ⟨rest, whole⟩ : ∃ rest, s.holdings = rest := ⟨_, rfl⟩
  rw [whole] at short member
  match rest, short, member with
  | [only], _, member =>
    cases mem_singleton.mp member
    have total : s.heldTotal = h.2 := by simp [heldTotal, whole]
    have nonneg := inv.nonneg
    have collectedNonneg := inv.collected_nonneg
    have conserved := inv.conserved
    exact ⟨by omega, whole⟩

theorem Permits.holdings_of_free (free : 0 < s.sp.counter) : s.holdings = [] := by
  by_contra some
  obtain ⟨h, member⟩ := exists_mem_of_ne_nil _ some
  obtain ⟨own, only⟩ := inv.unit member
  have total : s.heldTotal = 1 := by simp [heldTotal, only, own]
  have nonneg := inv.collected_nonneg
  have conserved := inv.conserved
  omega

/-- What a patient call for the one permit of a lock does: it takes the permit at once,
past anybody who waits, or joins the end of the queue. -/
theorem Permits.acquire_cases {c : Nat} {b : Bool} (control : s.control = .running c b)
    (step : s.step (.acquireMany 1 UINT_MAX) = some t) :
    (1 ≤ s.sp.counter ∧ s.holdings = [] ∧ t.holdings = [(c, 1)] ∧ t.sp.waiters = s.sp.waiters ∧ t.frames = s.frames ∧
        t.control = .running c b) ∨
      (s.sp.counter < 1 ∧ t.holdings = s.holdings ∧ t.sp.waiters = s.sp.waiters ++ [c] ∧
        (∃ f, t.frames = update s.frames c (some f)) ∧ t.control = returnTo b) := by
  have absent := inv.running c b control
  have size := inv.size
  have equal : s.acquireMany c b 1 UINT_MAX = t := by
    simpa [SemaphoreWorld.step, control] using step
  subst equal
  have fits : ¬ (1 : Int) > s.sp.init_value := by omega
  simp only [SemaphoreWorld.acquireMany, fits, if_false, SemaphorePrivate.acquire]
  by_cases free : s.sp.counter ≥ 1
  · left
    have none := inv.holdings_of_free free
    simp only [free, if_true, settle, none]
    refine ⟨trivial, trivial, trivial, trivial, ?_, trivial⟩
    simp [absent]
  · right
    have patient : UINT_MAX ≠ 0 := by decide
    have remains : 1 - s.sp.counter > 0 := by omega
    simp only [free, if_false, patient, SemaphorePrivate.waitLoop, remains, if_true, settle]
    exact ⟨by omega, trivial, trivial, ⟨_, rfl⟩, trivial⟩

theorem Permits.release_cases {c : Nat} {b : Bool} (control : s.control = .running c b)
    (step : s.step (.release 1 1) = some t) :
    s.holdings = [(c, 1)] ∧ t.holdings = [] ∧ t.sp.waiters = s.sp.waiters ∧ t.frames = s.frames ∧
      t.control = s.control := by
  cases step_cases step with
  | release running owned positive within =>
    cases running.symm.trans control
    have only := (inv.unit owned).2
    refine ⟨only, ?_, SemaphorePrivate.release_waiters .., rfl, rfl⟩
    simp [SemaphoreWorld.release, only]

theorem Permits.wakeNext_cases (step : s.step .wakeNext = some t) :
    s.control = .notifying ∧
      ((∃ c rest, s.holdings = [] ∧ s.sp.waiters = c :: rest ∧ t.holdings = [(c, 1)] ∧ t.sp.waiters = rest ∧
          t.frames = Function.update s.frames c none ∧ t.control = .running c true) ∨
        (t.holdings = s.holdings ∧ t.sp.waiters = s.sp.waiters ∧ t.frames = s.frames ∧ t.control = .loop)) := by
  cases step_cases step with
  | @wakeNext c rest f control notified positive queue atFrame =>
    have empty := inv.holdings_of_free positive
    have distinct := inv.distinct
    rw [queue] at distinct
    have outside := (List.nodup_cons.mp distinct).1
    have others : rest.filter (· ≠ c) = rest := by
      have whole := filter_head distinct
      rwa [List.filter_cons_of_neg (by simp)] at whole
    obtain ⟨got, remains, total, bound⟩ := inv.frame c f atFrame
    have enough : s.sp.counter ≥ f.remain := by omega
    have one : f.value = 1 := by omega
    refine ⟨control, Or.inl ⟨c, rest, empty, queue, ?_⟩⟩
    simp only [SemaphorePrivate.afterYield, outside, if_false, others, enough, if_true, settle, one, empty, and_self]
  | endFunctor control idle => exact ⟨control, Or.inr ⟨rfl, rfl, rfl, rfl⟩⟩

omit inv

theorem Permits.kill_cases {n : Int} (inv : Permits n s) {c : Nat} (step : s.step (.kill c) = some t) :
    s.control = .loop ∧ (∃ f, s.frames c = some f) ∧ t.holdings = s.holdings ∧
      t.sp.waiters = s.sp.waiters.filter (· ≠ c) ∧ t.frames = update s.frames c none ∧
      t.control = .running c false := by
  cases step_cases step with
  | @kill _ f control atFrame =>
    obtain ⟨_, waiters, _, frames, running, holdings⟩ := inv.kill_eq atFrame
    exact ⟨control, ⟨f, atFrame⟩, holdings, waiters, frames, running⟩

end SemaphoreWorld

end Qtng
