import Qtng.General.Map
import Qtng.General.Run

namespace Qtng.EventLoopEv

open Transition List Option

/-- A watcher with its callback, which is numbered in the order in which callbacks are handed over.
single tells whether the repeat of the timer is 0; watcherId is the field of TimerWatcher. -/
structure EvWatcher where
  isTimer : Bool
  single : Bool
  watcherId : Nat
  callback : Nat
deriving DecidableEq

/-- The loop, with the timers that libev has started, the one whose callback is running, and, for what
happened so far, the number of callbacks, the timers that were fired, and the callbacks that were
cancelled and deleted. A handle is the 32-bit pattern of an int. -/
structure EvEventLoop where
  watchers : Std.ExtTreeMap Nat EvWatcher := ∅
  uselessWatchers : List Nat := []
  nextWatcherId : Nat := 1
  started : List EvWatcher := []
  running : Option EvWatcher := none
  destroyed : Bool := false
  made : Nat := 0
  fired : List EvWatcher := []
  cancelled : List Nat := []
  deleted : List Nat := []

inductive EvEvent
  | createWatcher
  | callLater (msecs : UInt32)
  | callRepeat (msecs : UInt32)
  | cancelCall (callbackId : Nat)
  | removeWatcher (watcherId : Nat)
  | fire (callback : Nat)
  | callbackReturns
  | prepare
  | destroy
deriving DecidableEq

namespace EvEventLoop

/-- The watcher is registered under the next handle, which is the one returned. -/
def register (s : EvEventLoop) (isTimer single : Bool) (watcherId : Nat) : EvEventLoop :=
  let watcher : EvWatcher := ⟨isTimer, single, watcherId, s.made⟩
  { s with
    watchers := s.watchers.insert s.nextWatcherId watcher, nextWatcherId := (s.nextWatcherId + 1) % 2 ^ 32
    started := if isTimer then watcher :: s.started else s.started, made := s.made + 1 }

/-- cancelCall for timers and removeWatcher for the others: the entry goes in any case. -/
def remove (s : EvEventLoop) (isTimer : Bool) (id : Nat) : EvEventLoop :=
  match s.watchers[id]? with
  | none => s
  | some watcher =>
    let s := { s with watchers := s.watchers.erase id }
    if watcher.isTimer = isTimer then
      { s with
        started := s.started.filter (· != watcher), uselessWatchers := watcher.callback :: s.uselessWatchers
        cancelled := watcher.callback :: s.cancelled }
    else s

/-- The first part of qtng__ev_timer_callback, up to the call. -/
def fire (s : EvEventLoop) (watcher : EvWatcher) : EvEventLoop :=
  let s := { s with running := some watcher, fired := watcher :: s.fired }
  if watcher.single then
    { s with started := s.started.filter (· != watcher), watchers := s.watchers.erase watcher.watcherId }
  else s

def held (watchers : Std.ExtTreeMap Nat EvWatcher) : List Nat := watchers.toList.map (·.2.callback)

/-- A callback makes its calls between fire and callbackReturns. A repeat of 0 ms is none. -/
def step (s : EvEventLoop) : EvEvent → Option EvEventLoop
  | .createWatcher => some (s.register false false 0)
  | .callLater _ => some (s.register true true s.nextWatcherId)
  | .callRepeat msecs => some (s.register true (msecs = 0) 0)
  | .cancelCall id => some (s.remove true id)
  | .removeWatcher id => some (s.remove false id)
  | .fire callback =>
    if s.running.isSome then none else (s.started.find? (·.callback == callback)).map s.fire
  | .callbackReturns => s.running.map fun watcher =>
    { s with
      running := none
      uselessWatchers := if watcher.single then watcher.callback :: s.uselessWatchers else s.uselessWatchers }
  | .prepare =>
    if s.running.isSome then none else some { s with uselessWatchers := [], deleted := s.uselessWatchers ++ s.deleted }
  | .destroy =>
    if s.running.isSome then none
    else some { s with
      destroyed := true, watchers := ∅, started := [], uselessWatchers := []
      deleted := held s.watchers ++ (s.uselessWatchers ++ s.deleted) }

/-- The handles have not run out, a repetition takes some time, and a handle is of the kind that the
call is for. -/
def proper (s : EvEventLoop) : EvEvent → Bool
  | .createWatcher | .callLater _ => s.made + 2 < 2 ^ 31
  | .callRepeat msecs => s.made + 2 < 2 ^ 31 && msecs != 0
  | .cancelCall id => s.watchers[id]?.all (·.isTimer)
  | .removeWatcher id => s.watchers[id]?.all (!·.isTimer)
  | _ => true

/-- The next handle is positive and not in use. What libev can fire was not cancelled, and did not run
before if it is to run once. No callback is deleted twice, and in the end none is left. -/
structure Exact (s : EvEventLoop) : Prop where
  handle : 0 < s.nextWatcherId ∧ s.nextWatcherId < 2 ^ 31 ∧ s.nextWatcherId ∉ s.watchers
  fires : ∀ watcher ∈ s.started, watcher.callback ∉ s.cancelled ∧ (watcher.single = true → watcher ∉ s.fired)
  deletes : s.deleted.Nodup ∧ (s.destroyed = true → ∀ callback, callback ∈ s.deleted ↔ callback < s.made)

end EvEventLoop

/-- After the destructor there are no more calls. -/
def evSystem : System EvEventLoop EvEvent :=
  .ofStep (· = {}) fun s e => if s.destroyed then none else s.step e

namespace EvEventLoop

variable {s t : EvEventLoop} {id callback : Nat} {watcher : EvWatcher} {watchers : Std.ExtTreeMap Nat EvWatcher}

def out (s : EvEventLoop) : List Nat :=
  (s.running.toList.filter (·.single)).map (·.callback) ++ (s.uselessWatchers ++ s.deleted)

/-- Each callback is in one place, and its handle is the next number. -/
structure Kept (s : EvEventLoop) : Prop where
  next : s.nextWatcherId = s.made + 1 ∧ s.made + 1 < 2 ^ 31
  entries : ∀ id watcher, s.watchers[id]? = some watcher →
    id = watcher.callback + 1 ∧ (watcher.single = true → watcher.watcherId = id)
  started : ∀ watcher ∈ s.started, s.watchers[watcher.callback + 1]? = some watcher
  places : ∀ callback, (held s.watchers).count callback + s.out.count callback = if callback < s.made then 1 else 0
  fired : ∀ watcher ∈ s.fired, watcher.single = true → watcher.callback ∈ s.out
  cancelled : ∀ callback ∈ s.cancelled, callback ∈ s.out
  ended : s.destroyed = true → s.watchers = ∅ ∧ s.out = s.deleted

theorem held_empty : held ∅ = [] := rfl

theorem count_insert (absent : watchers[id]? = none) : (held (watchers.insert id watcher)).count callback =
    (held watchers).count callback + if watcher.callback = callback then 1 else 0 := by
  have counted := ((NatMap.toList_insert_of_absent watcher absent).map (·.2.callback)).count_eq callback
  simpa [held, count_cons] using counted

theorem count_erase (present : watchers[id]? = some watcher) : (held watchers).count callback =
    (held (watchers.erase id)).count callback + if watcher.callback = callback then 1 else 0 := by
  have counted := ((NatMap.toList_of_present present).map (·.2.callback)).count_eq callback
  simpa [held, count_cons] using counted

namespace Kept

theorem start : Kept {} := ⟨by decide, by simp, by simp, by simp [held_empty, out], by simp, by simp, by simp⟩

variable (kept : s.Kept)
include kept

theorem registered (here : s.watchers[id]? = some watcher) : watcher.callback < s.made ∧ watcher.callback ∉ s.out := by
  have place := kept.places watcher.callback
  rw [count_erase here, if_pos rfl] at place
  rw [← count_eq_zero]
  split_ifs at place
  all_goals omega

theorem absent : s.watchers[s.nextWatcherId]? = none := by
  by_contra present
  obtain ⟨watcher, here⟩ := ne_none_iff_exists'.mp present
  have below := (kept.registered here).1
  have own := (kept.entries _ _ here).1
  have next := kept.next.1
  omega

theorem register {isTimer single : Bool} {watcherId : Nat} (few : s.made + 2 < 2 ^ 31) (live : s.destroyed = false)
    (own : single = true → watcherId = s.nextWatcherId) : (s.register isTimer single watcherId).Kept := by
  have next := kept.next.1
  refine ⟨?_, ?_, ?_, ?_, kept.fired, kept.cancelled, by simp [EvEventLoop.register, live]⟩
  · simp only [EvEventLoop.register]
    omega
  · intro id watcher here
    simp only [EvEventLoop.register, NatMap.getElem?_insert] at here
    split_ifs at here with new
    · cases here
      exact ⟨new.trans next, fun once => (own once).trans new.symm⟩
    · exact kept.entries id watcher here
  · intro watcher member
    have newOrOld : watcher = ⟨isTimer, single, watcherId, s.made⟩ ∨ watcher ∈ s.started := by
      simp only [EvEventLoop.register] at member
      split_ifs at member
      · exact mem_cons.mp member
      · exact .inr member
    simp only [EvEventLoop.register, NatMap.getElem?_insert]
    rcases newOrOld with rfl | old
    · exact if_pos next.symm
    · have here := kept.started watcher old
      rwa [if_neg]
      intro same
      rw [same, kept.absent] at here
      cases here
  · intro callback
    have grown : (if callback < s.made + 1 then 1 else 0) =
        (if callback < s.made then 1 else 0) + if s.made = callback then 1 else 0 := by
      split_ifs <;> omega
    show (held (s.watchers.insert s.nextWatcherId _)).count callback + s.out.count callback = _
    rw [count_insert kept.absent]
    exact (Nat.add_right_comm _ _ _).trans ((congrArg (· + _) (kept.places callback)).trans grown.symm)

theorem leaves (here : s.watchers[id]? = some watcher) (watchers : t.watchers = s.watchers.erase id)
    (started : t.started = s.started.filter (· != watcher)) (same : t.nextWatcherId = s.nextWatcherId ∧ t.made = s.made)
    (live : t.destroyed = false) (out : t.out.Perm (watcher.callback :: s.out))
    (fired : ∀ other ∈ t.fired, other = watcher ∨ other ∈ s.fired)
    (cancelled : ∀ callback ∈ t.cancelled, callback = watcher.callback ∨ callback ∈ s.cancelled) : t.Kept := by
  refine ⟨same.1 ▸ same.2 ▸ kept.next, fun other w present => ?_, fun other member => ?_, fun callback => ?_,
    fun other ran once => ?_, fun callback gone => ?_, by simp [live]⟩
  · rw [watchers, NatMap.getElem?_erase] at present
    split_ifs at present
    exact kept.entries other w present
  · obtain ⟨member, different⟩ := mem_filter.mp (started ▸ member)
    have there := kept.started other member
    rw [watchers, NatMap.getElem?_erase, if_neg, there]
    intro taken
    rw [taken, here] at there
    exact absurd (some.inj there).symm (by simpa using different)
  · have place := kept.places callback
    rw [count_erase here] at place
    rw [watchers, out.count_eq, count_cons, same.2, ← place]
    simp only [beq_iff_eq]
    omega
  · rw [out.mem_iff, mem_cons]
    exact (fired other ran).imp (congrArg _) (kept.fired other · once)
  · rw [out.mem_iff, mem_cons]
    exact (cancelled callback gone).imp_right (kept.cancelled callback)

theorem moves (watchers : t.watchers = s.watchers) (started : t.started = s.started)
    (same : t.nextWatcherId = s.nextWatcherId ∧ t.made = s.made) (live : t.destroyed = false) (out : t.out.Perm s.out)
    (fired : ∀ other ∈ t.fired, other.single = true → other ∈ s.fired) (cancelled : t.cancelled = s.cancelled) :
    t.Kept := by
  refine ⟨same.1 ▸ same.2 ▸ kept.next, watchers ▸ kept.entries, watchers ▸ started ▸ kept.started, fun callback => ?_,
    fun other ran once => ?_, fun callback gone => ?_, by simp [live]⟩
  · rw [watchers, out.count_eq, same.2]
    exact kept.places callback
  · exact out.mem_iff.mpr (kept.fired other (fired other ran once) once)
  · exact out.mem_iff.mpr (kept.cancelled callback (cancelled ▸ gone))

theorem remove {isTimer : Bool} (live : s.destroyed = false)
    (same : s.watchers[id]?.all (·.isTimer == isTimer) = true) :
    (s.remove isTimer id).Kept := by
  unfold EvEventLoop.remove
  cases here : s.watchers[id]? with
  | none => exact kept
  | some watcher =>
    rw [here, all_some, beq_iff_eq] at same
    simp only [same, if_true]
    exact kept.leaves here rfl rfl ⟨rfl, rfl⟩ live perm_middle (fun _ ran => .inr ran) fun _ gone => mem_cons.mp gone

theorem fire (live : s.destroyed = false) (idle : s.running = none) (member : watcher ∈ s.started) :
    (s.fire watcher).Kept := by
  have here := kept.started watcher member
  unfold EvEventLoop.fire
  by_cases once : watcher.single = true
  · simp only [once, if_true, (kept.entries _ _ here).2 once]
    refine kept.leaves here rfl rfl ⟨rfl, rfl⟩ live ?_ (fun _ ran => mem_cons.mp ran) fun _ gone => .inr gone
    simp [out, idle, once]
  · simp only [once]
    refine kept.moves rfl rfl ⟨rfl, rfl⟩ live ?_ (fun other ran single => ?_) rfl
    · simp [out, idle, once]
    · rcases mem_cons.mp ran with rfl | before
      · exact absurd single once
      · exact before

theorem exact_ : s.Exact := by
  refine ⟨⟨?_, ?_, ?_⟩, fun watcher member => ?_, ?_, fun gone callback => ?_⟩
  · rw [kept.next.1]
    exact Nat.succ_pos _
  · rw [kept.next.1]
    exact kept.next.2
  · rw [NatMap.mem_iff_present, kept.absent]
    simp
  · have outside := (kept.registered (kept.started watcher member)).2
    exact ⟨fun gone => outside (kept.cancelled _ gone), fun once ran => outside (kept.fired _ ran once)⟩
  · refine nodup_iff_count_le_one.mpr fun callback => ?_
    have place := kept.places callback
    simp only [out, count_append] at place
    split_ifs at place <;> omega
  · have place := kept.places callback
    rw [(kept.ended gone).1, (kept.ended gone).2, held_empty, count_nil] at place
    rw [← count_pos_iff]
    split_ifs at place <;> omega

theorem step {e : EvEvent} (live : s.destroyed = false) (proper : s.proper e = true) (stepped : s.step e = some t) :
    t.Kept := by
  cases e with
  | createWatcher =>
    cases stepped
    exact kept.register (of_decide_eq_true proper) live (by simp)
  | callLater _ =>
    cases stepped
    exact kept.register (of_decide_eq_true proper) live fun _ => rfl
  | callRepeat msecs =>
    cases stepped
    simp only [EvEventLoop.proper, Bool.and_eq_true, decide_eq_true_eq, bne_iff_ne] at proper
    exact kept.register proper.1 live (by simp [proper.2])
  | cancelCall id =>
    cases stepped
    exact kept.remove live (by simpa [EvEventLoop.proper] using proper)
  | removeWatcher id =>
    cases stepped
    exact kept.remove live (by simpa [EvEventLoop.proper] using proper)
  | fire callback =>
    obtain ⟨idle, found⟩ := ite_none_left_eq_some.mp stepped
    obtain ⟨watcher, first, rfl⟩ := map_eq_some_iff.mp found
    exact kept.fire live (by simpa using idle) (mem_of_find?_eq_some first)
  | callbackReturns =>
    obtain ⟨watcher, running, rfl⟩ := map_eq_some_iff.mp stepped
    refine kept.moves rfl rfl ⟨rfl, rfl⟩ live ?_ (fun _ ran _ => ran) rfl
    by_cases once : watcher.single = true
    · simp [out, running, once]
    · simp [out, running, once]
  | prepare =>
    cases (ite_none_left_eq_some.mp stepped).2
    exact kept.moves rfl rfl ⟨rfl, rfl⟩ live (by simp [out]) (fun _ ran _ => ran) rfl
  | destroy =>
    obtain ⟨idle, same⟩ := ite_none_left_eq_some.mp stepped
    cases same
    rw [not_isSome_iff_eq_none] at idle
    have all : EvEventLoop.out { s with
        uselessWatchers := [], deleted := held s.watchers ++ (s.uselessWatchers ++ s.deleted) } =
          held s.watchers ++ s.out := by
      simp [out, idle]
    refine ⟨kept.next, by simp, by simp, fun callback => ?_, fun other ran once => ?_, fun callback gone => ?_,
      fun _ => ⟨rfl, by simp [out, idle]⟩⟩
    · refine (Nat.zero_add _).trans ((congrArg (·.count callback) all).trans ?_)
      rw [count_append]
      exact kept.places callback
    · exact all ▸ mem_append_right _ (kept.fired other ran once)
    · exact all ▸ mem_append_right _ (kept.cancelled callback gone)

end Kept

theorem remove_eq_iff {isTimer : Bool} (foreign : s.watchers[id]?.all (·.isTimer != isTimer) = true) :
    s.remove isTimer id = s ↔ id ∉ s.watchers := by
  unfold remove
  rw [NatMap.mem_iff_present]
  cases here : s.watchers[id]? with
  | none => simp
  | some watcher =>
    rw [here, all_some, bne_iff_ne] at foreign
    simp only [foreign, if_false, some.injEq, exists_eq', not_true_eq_false, iff_false]
    intro same
    have kept := congrArg (fun s : EvEventLoop => s.watchers[id]?) same
    simp [here] at kept

/-- A handle that has expired or is of the other kind leaves everything as it is exactly if it has
expired. In the runs without such a call, with handles left and without a repetition every 0 ms, the
loop is exact all the time. -/
theorem handles_exact {history : List (EvEventLoop × EvEvent)} (run : Run evSystem history t) :
    (∀ s : EvEventLoop, ∀ isTimer id, s.watchers[id]?.all (·.isTimer != isTimer) = true →
      (s.remove isTimer id = s ↔ id ∉ s.watchers)) ∧
    ((∀ entry ∈ history, entry.1.proper entry.2 = true) → ∀ s, Visited history t s → s.Exact) := by
  refine ⟨fun s isTimer id => remove_eq_iff, fun guarded s visited => ?_⟩
  refine Kept.exact_ (run.visited_of_guard (fun s e => s.proper e = true) guarded ?_ ?_ visited)
  · rintro _ rfl
    exact .start
  · intro s e t kept proper stepped
    obtain ⟨live, stepped⟩ := ite_none_left_eq_some.mp stepped
    exact kept.step (by simpa using live) proper stepped

/-- A repeated call that cancels itself, and a call that runs once. -/
theorem handles_exact_self : ∃ history t, Run evSystem history t ∧
    history.map Prod.snd = [.destroy, .prepare, .callbackReturns, .cancelCall 1, .fire 0, .callbackReturns, .fire 1,
      .callLater 0, .callRepeat 5] ∧ t.Exact := by
  obtain ⟨history, t, run, labels, guarded, -⟩ := Run.of_exec_guarded evSystem proper rfl
    [.callRepeat 5, .callLater 0, .fire 1, .callbackReturns, .fire 0, .cancelCall 1, .callbackReturns, .prepare,
      .destroy]
    rfl (fun _ => True) (by decide)
  exact ⟨history, t, run, labels, (handles_exact run).2 guarded t (.inl rfl)⟩

/-- The handle of an I/O watcher is cancelled as a call, and its callback is never deleted. A repetition
every 0 ms is deleted although it is still registered, and once more in the end. -/
theorem handles_confused :
    (∃ history t, Run evSystem history t ∧ history.map Prod.snd = [.destroy, .cancelCall 1, .createWatcher] ∧
      t.deleted = []) ∧
    ∃ history t, Run evSystem history t ∧
      history.map Prod.snd = [.destroy, .prepare, .callbackReturns, .fire 0, .callRepeat 0] ∧ t.deleted = [0, 0] :=
  ⟨Run.of_exec evSystem rfl [.createWatcher, .cancelCall 1, .destroy] rfl
    (fun t => t.deleted = []) (by decide),
  Run.of_exec evSystem rfl [.callRepeat 0, .fire 0, .callbackReturns, .prepare, .destroy] rfl
    (fun t => t.deleted = [0, 0]) (by decide)⟩

end EvEventLoop

end Qtng.EventLoopEv
