import Qtng.Http.SessionSteps
import Qtng.Locks.Lock

namespace Qtng.Http2

open BigEndian Transition Http2.Action List SendView Function SemaphoreWorld Option

variable {p : List Action} {a : Action} {s t : Http2Session}
variable {more : List Action}

/-- What may stand behind the action that a coroutine is at. -/
def Action.behind : Action → Bool
  | .write _ | .flush _ | .unlock | .locked (.headers ..) => false
  | _ => true

def inside : List Action → Bool
  | [] => false
  | a :: _ => a.inner

def atWrite : List Action → Bool
  | .write _ :: _ => true
  | _ => false

theorem write_of_atWrite (waits : atWrite p = true) : ∃ writing rest, p = .write writing :: rest := by
  match p with
  | .write writing :: rest => exact ⟨writing, rest, rfl⟩

theorem inside_of_atWrite (waits : atWrite p = true) : inside p = true := by
  obtain ⟨_, _, rfl⟩ := write_of_atWrite waits
  rfl

/-- The stream whose identifier is taken and whose HEADERS frame needs the write lock. -/
def entering : List Action → Option Nat
  | .locked (.headers stream _ _) :: _ => some stream
  | _ => none

/-- The stream whose HEADERS frame is next once the write lock is there. -/
def opening : List Action → Option Nat
  | .write (.headers stream _ _) :: _ => some stream
  | _ => none

def opened (wire : List Sent) : List Nat :=
  wire.filterMap fun
    | .header f => if f.type = .headers then some f.streamId else none
    | _ => none

theorem behind_of_plain (plain : a.plain = true) : a.behind = true := by
  cases a with
  | locked writing => cases writing <;> first | rfl | simp at plain
  | _ => first | rfl | simp at plain

theorem behind_of_uploads {stream : Nat} (uploads : a.uploads stream = true) : a.behind = true := by
  match a with
  | .readBody .. | .sendChunk .. | .locked (.bodyEnd _) => rfl

theorem inner_of_behind (behind : a.behind = true) : a.inner = false := by
  cases a <;> first | rfl | simp [Action.behind] at behind

theorem idle_of_behind (behind : ∀ a ∈ p, a.behind = true) :
    inside p = false ∧ entering p = none ∧ opening p = none := by
  match p with
  | [] => exact ⟨rfl, rfl, rfl⟩
  | a :: rest =>
    have first := behind a mem_cons_self
    refine ⟨inner_of_behind first, ?_, ?_⟩
    · unfold entering
      split
      · rename_i same
        cases same
        simp [Action.behind] at first
      · rfl
    · unfold opening
      split
      · rename_i same
        cases same
        simp [Action.behind] at first
      · rfl

/-- What an action leaves to do, with what stands behind it: a coroutine stays inside
or outside the lock, and only createStream makes it a newcomer. -/
structure Shape (s t : Http2Session) (a : Action) (next : List Action) : Prop where
  inside : inside next = a.inner
  tails : ∀ b ∈ next.tail, b.behind = true
  opening : opening next = none
  entering : entering next = none ∨ entering next = some s.created ∧ s.created < t.created

theorem Shape.of_behind {next : List Action} (outer : a.inner = false)
    (behind : ∀ b ∈ next, b.behind = true) : Shape s t a next := by
  obtain ⟨outside, noEntry, noOpening⟩ := idle_of_behind behind
  exact ⟨outside.trans outer.symm, fun b member => behind b (mem_of_mem_tail member), noOpening, .inl noEntry⟩

theorem shape_of_effect {rest : List Action} (effect : s.SendEffect a t more)
    (behind : ∀ b ∈ rest, b.behind = true) : Shape s t a (more ++ rest) := by
  have both : ∀ more : List Action, (∀ b ∈ more, b.behind = true) → ∀ b ∈ more ++ rest, b.behind = true := by
    intro more first b member
    rcases mem_append.mp member with new | old
    · exact first b new
    · exact behind b old
  have plainly : ∀ {more : List Action}, (∀ b ∈ more, b.plain = true) → ∀ b ∈ more ++ rest, b.behind = true :=
    fun plain => both _ fun b member => behind_of_plain (plain b member)
  cases effect with
  | plain outer _ plain => exact .of_behind (inner_of_free outer) (plainly plain)
  | received _ plain => exact .of_behind rfl (plainly plain)
  | cut outer _ _ plain => exact .of_behind (inner_of_free outer) (plainly plain)
  | granted | widened | deducted => exact .of_behind rfl behind
  | initial _ _ plain => exact .of_behind rfl (plainly plain)
  | created sending _ =>
    have grown : t.created = s.created + 1 := congrArg created sending
    exact ⟨rfl, behind, rfl, .inr ⟨rfl, by omega⟩⟩
  | upload stream _ outer next =>
    refine .of_behind (inner_of_free outer) (both _ ?_)
    intro b member
    rcases next b member with plain | uploads
    · exact behind_of_plain plain
    · exact behind_of_uploads uploads
  | picked => exact .of_behind rfl (both _ (by simp [Action.behind]))
  | handed => exact ⟨rfl, behind, rfl, .inl rfl⟩
  | refused _ plain => exact ⟨rfl, plainly plain, rfl, .inl rfl⟩
  | flushed => exact ⟨rfl, behind, rfl, .inl rfl⟩
  | opened => exact ⟨rfl, both [_] (by simp [Action.behind]), rfl, .inl rfl⟩
  | continued => exact ⟨rfl, behind, rfl, .inl rfl⟩
  | sent => exact ⟨rfl, both [_, _] (by simp [Action.behind]), rfl, .inl rfl⟩
  | broken _ _ plain => exact ⟨rfl, plainly plain, rfl, .inl rfl⟩

theorem shape_of_call (s : Http2Session) (call : Call) : Shape s s call.action [call.action] := by
  cases call <;> exact ⟨rfl, by simp, rfl, .inl rfl⟩

theorem id_of_effect (effect : s.SendEffect a t more) :
    s.created ≤ t.created ∧ ∀ stream < s.created, t.sending.id stream = s.sending.id stream := by
  have same : ∀ {u : Http2Session}, u.sending.created = s.sending.created → u.sending.id = s.sending.id →
      s.created ≤ u.created ∧ ∀ stream < s.created, u.sending.id stream = s.sending.id stream :=
    fun created id => ⟨created.ge, fun stream _ => congrFun id stream⟩
  cases effect with
  | plain _ still _ => exact same (still.sending ▸ rfl) (still.sending ▸ rfl)
  | received still _ => exact same (still.sending ▸ rfl) (still.sending ▸ rfl)
  | cut _ sending _ _ => exact same (sending ▸ rfl) (sending ▸ rfl)
  | granted _ _ _ sending _ => exact same (sending ▸ rfl) (sending ▸ rfl)
  | widened _ _ _ _ sending _ => exact same (sending ▸ rfl) (sending ▸ rfl)
  | initial _ shifted _ => exact same (shifted.sending ▸ rfl) (shifted.sending ▸ rfl)
  | created sending _ =>
    have grown : t.created = s.created + 1 := congrArg created sending
    refine ⟨by omega, ?_⟩
    intro stream old
    rw [sending]
    exact update_of_ne (by omega) ..
  | upload | picked | flushed | opened | continued | sent => exact same rfl rfl
  | handed _ _ sending _ => exact same (sending ▸ rfl) (sending ▸ rfl)
  | refused still _ => exact same (still.sending ▸ rfl) (still.sending ▸ rfl)
  | broken sending _ _ => exact same (sending ▸ rfl) (sending ▸ rfl)
  | deducted sending _ => exact same (sending ▸ rfl) (sending ▸ rfl)

namespace Http2World

variable {b : Bool} {c : Nat}
variable {e : Http2Event}

def openingId (w : Http2World) (c : Nat) : Option Nat := (opening (w.program c)).map w.session.sending.id

/-- The identifier with which the running coroutine comes to the write lock. -/
def newcomer (w : Http2World) : Option Nat :=
  w.current.bind fun c => (entering (w.program c)).map w.session.sending.id

/-- The coroutines that have asked for the lock, in the order in which they get it. -/
def contenders (w : Http2World) : List Nat := w.lock.holdings.map Prod.fst ++ w.lock.sp.waiters

/-- The identifiers that are taken and not yet on the connection: that of the holder of
the write lock, those in its queue and the newcomer's. -/
def pending (w : Http2World) : List Nat := w.contenders.filterMap w.openingId ++ w.newcomer.toList

structure Disciplined (w : Http2World) : Prop where
  permits : w.lock.Permits 1
  keyed : Keyed w.session
  tails : ∀ c, ∀ a ∈ (w.program c).tail, a.behind = true
  waiting : ∀ c f, w.lock.frames c = some f → atWrite (w.program c) = true ∧ (c, 1) ∉ w.lock.holdings
  holding : ∀ c, w.lock.frames c = none → ((c, 1) ∈ w.lock.holdings ↔ inside (w.program c) = true)
  ready : ∀ c stream, entering (w.program c) = some stream → w.current = some c
  known : ∀ c stream, opening (w.program c) = some stream ∨ entering (w.program c) = some stream →
    stream < w.session.created

variable {w t : Http2World}

theorem current_of_control (control : w.lock.control = .running c b) : w.current = some c := by
  simp [current, control]

namespace Disciplined

variable {lock : SemaphoreWorld} {b : Bool} {c : Nat}
variable {rest : List Action}

theorem relock (inv : Disciplined w) (permits : lock.Permits 1)
    (holdings : lock.holdings = w.lock.holdings) (frames : lock.frames = w.lock.frames)
    (ready : ∀ c stream, entering (w.program c) = some stream → { w with lock }.current = some c) :
    Disciplined { w with lock } where
  permits := permits
  keyed := inv.keyed
  tails := inv.tails
  waiting c f := by
    rw [frames, holdings]
    exact inv.waiting c f
  holding c := by
    rw [frames, holdings]
    exact inv.holding c
  ready := ready
  known := inv.known

theorem set {a : Action} {next : List Action} {session : Http2Session} (inv : Disciplined w)
    (control : w.lock.control = .running c b) (present : ∃ p, w.programs[c]? = some p ∧ inside p = a.inner)
    (shape : Shape w.session session a next) (keyed : Keyed session) (created : w.session.created ≤ session.created) :
    Disciplined { w with session, programs := w.programs.set c next } := by
  obtain ⟨p, program, same⟩ := present
  have before : w.program c = p := by simp [Http2World.program, program]
  have after : ∀ c', ({ w with session, programs := w.programs.set c next } : Http2World).program c' =
      if c' = c then next else w.program c' := program_set w program next
  refine ⟨inv.permits, keyed, ?_, ?_, ?_, ?_, ?_⟩
  · intro c'
    rw [after]
    split
    · exact shape.tails
    · exact inv.tails c'
  · intro c' f atFrame
    rw [after]
    split
    · rename_i equal
      subst equal
      exact absurd atFrame (by simp [inv.permits.running c' b control])
    · exact inv.waiting c' f atFrame
  · intro c' free
    rw [after]
    split
    · rename_i equal
      subst equal
      rw [shape.inside, ← same, ← before]
      exact inv.holding c' free
    · exact inv.holding c' free
  · intro c' stream
    rw [after]
    split
    · rename_i equal
      subst equal
      exact fun _ => current_of_control control
    · exact inv.ready c' stream
  · intro c' stream
    rw [after]
    split
    · rintro (noOpening | enters)
      · simp [shape.opening] at noOpening
      · rcases shape.entering with noEntry | ⟨new, grown⟩
        · simp [noEntry] at enters
        · cases some.inj (new.symm.trans enters)
          exact grown
    · exact fun either => lt_of_lt_of_le (inv.known c' stream either) created

/-- A step of the lock that concerns one coroutine only. -/
theorem change (c : Nat) (next : List Action) (inv : Disciplined w) (permits : t.lock.Permits 1)
    (session : t.session = w.session) (after : ∀ c', t.program c' = if c' = c then next else w.program c')
    (tails : ∀ a ∈ next.tail, a.behind = true)
    (others : ∀ c', c' ≠ c → t.lock.frames c' = w.lock.frames c' ∧
      ((c', 1) ∈ t.lock.holdings ↔ (c', 1) ∈ w.lock.holdings))
    (waits : ∀ f, t.lock.frames c = some f → atWrite next = true ∧ (c, 1) ∉ t.lock.holdings)
    (holds : t.lock.frames c = none → ((c, 1) ∈ t.lock.holdings ↔ inside next = true))
    (ready : ∀ c' stream, entering (t.program c') = some stream → t.current = some c')
    (known : ∀ stream, opening next = some stream ∨ entering next = some stream → stream < w.session.created) :
    Disciplined t := by
  refine ⟨permits, session ▸ inv.keyed, ?_, ?_, ?_, ready, ?_⟩
  · intro c'
    rw [after]
    split
    · exact tails
    · exact inv.tails c'
  · intro c' f atFrame
    rw [after]
    split
    · rename_i equal
      subst equal
      exact waits f atFrame
    · rename_i different
      rw [(others c' different).2]
      exact inv.waiting c' f ((others c' different).1 ▸ atFrame)
  · intro c' free
    rw [after]
    split
    · rename_i equal
      subst equal
      exact holds free
    · rename_i different
      rw [(others c' different).2]
      exact inv.holding c' ((others c' different).1 ▸ free)
  · intro c' stream
    rw [after, session]
    split
    · exact known stream
    · exact inv.known c' stream

variable (inv : Disciplined w)
include inv

theorem alone {c' stream : Nat} (current : ∀ x, w.current = some x → x = c)
    (different : c' ≠ c) : entering (w.program c') ≠ some stream :=
  fun enters => different (current c' (inv.ready c' stream enters))

theorem acquire {writing : Writing} (control : w.lock.control = .running c b)
    (program : w.programs[c]? = some (.locked writing :: rest))
    (step : w.lock.step (.acquireMany 1 UINT_MAX) = some lock) :
    Disciplined { w with lock, programs := w.programs.set c (.write writing :: rest) } := by
  have before : w.program c = .locked writing :: rest := by simp [Http2World.program, program]
  have current : ∀ x, w.current = some x → x = c := by
    intro x running
    exact some.inj (running.symm.trans (current_of_control control))
  have free := inv.permits.running c b control
  have after : ∀ c', ({ w with lock, programs := w.programs.set c (.write writing :: rest) } : Http2World).program c' =
      if c' = c then .write writing :: rest else w.program c' := program_set w program _
  refine inv.change c _ (inv.permits.step step) rfl after ?_ ?_ ?_ ?_ ?_ ?_
  · have tails := inv.tails c
    rw [before] at tails
    exact tails
  · intro c' different
    rcases inv.permits.acquire_cases control step with
      ⟨_, none, holdings, _, frames, _⟩ | ⟨_, holdings, _, ⟨f, frames⟩, _⟩
    · simp only [frames, holdings, none]
      simp [different]
    · simp only [frames, holdings]
      simp [different]
  · intro f atFrame
    refine ⟨rfl, ?_⟩
    rcases inv.permits.acquire_cases control step with ⟨_, _, _, _, frames, _⟩ | ⟨_, holdings, _⟩
    · simp [frames, free] at atFrame
    · change (c, 1) ∉ lock.holdings
      rw [holdings, inv.holding c free, before]
      simp [inside, Action.inner]
  · intro now
    refine iff_of_true ?_ rfl
    rcases inv.permits.acquire_cases control step with
      ⟨_, none, holdings, _, frames, _⟩ | ⟨_, holdings, _, ⟨f, frames⟩, _⟩
    · simp [holdings]
    · simp [frames] at now
  · intro c' stream
    rw [after]
    split
    · simp [entering]
    · rename_i different
      exact fun enters => absurd enters (inv.alone current different)
  · intro stream either
    refine inv.known c stream (.inr ?_)
    rw [before]
    rcases either with opens | enters
    · unfold opening at opens
      split at opens
      · rename_i same
        cases same
        exact opens
      · simp at opens
    · simp [entering] at enters

theorem release
    (control : w.lock.control = .running c b) (program : w.programs[c]? = some (.unlock :: rest))
    (step : w.lock.step (.release 1 1) = some lock) :
    Disciplined { w with lock, programs := w.programs.set c rest } := by
  have before : w.program c = .unlock :: rest := by simp [Http2World.program, program]
  have tails : ∀ a ∈ rest, a.behind = true := by
    have behind := inv.tails c
    rw [before] at behind
    exact behind
  obtain ⟨outside, noEntry, noOpening⟩ := idle_of_behind tails
  obtain ⟨only, emptied, _, frames, running⟩ := inv.permits.release_cases control step
  have after : ∀ c', ({ w with lock, programs := w.programs.set c rest } : Http2World).program c' =
      if c' = c then rest else w.program c' := program_set w program _
  have free := inv.permits.running c b control
  refine inv.change c _ (inv.permits.step step) rfl after ?_ ?_ ?_ ?_ ?_ ?_
  · exact fun a member => tails a (mem_of_mem_tail member)
  · intro c' different
    simp only [frames, emptied, only]
    simp [different]
  · intro f atFrame
    simp [frames, free] at atFrame
  · intro _
    change (c, 1) ∈ lock.holdings ↔ _
    rw [emptied, outside]
    simp
  · intro c' stream
    rw [after]
    split
    · rename_i equal
      subst equal
      exact fun _ => current_of_control (running.trans control)
    · intro enters
      have same := inv.ready c' stream enters
      rw [current_of_control control] at same
      exact (current_of_control (running.trans control)).trans same
  · intro stream either
    rcases either with opens | enters
    · simp [noOpening] at opens
    · simp [noEntry] at enters

theorem nobody (idle : w.current = none) (c stream : Nat) :
    entering (w.program c) ≠ some stream := by
  intro enters
  have running := inv.ready c stream enters
  simp [idle] at running

theorem wakeNext (step : w.lock.step .wakeNext = some lock) :
    Disciplined { w with lock } := by
  have permits := inv.permits.step step
  obtain ⟨control, ⟨c, rest, empty, queue, holdings, _, frames, running⟩ | ⟨holdings, _, frames, _⟩⟩ :=
    inv.permits.wakeNext_cases step
  · have waited : inside (w.program c) = true := by
      obtain ⟨f, atFrame⟩ := (inv.permits.queued c).mp (queue ▸ mem_cons_self)
      exact inside_of_atWrite (inv.waiting c f atFrame).1
    have idle : w.current = none := by simp [current, control]
    refine inv.change c (w.program c) permits rfl ?_ (inv.tails c) ?_ ?_ ?_ ?_ ?_
    · intro c'
      split
      · rename_i equal
        rw [equal]
        rfl
      · rfl
    · intro c' different
      simp only [frames, holdings, empty]
      simp [different]
    · intro f atFrame
      simp [frames] at atFrame
    · intro _
      simp [holdings, waited]
    · exact fun c' stream enters => absurd enters (inv.nobody idle c' stream)
    · exact inv.known c
  · have idle : w.current = none := by simp [current, control]
    exact inv.relock permits holdings frames fun c' stream enters => absurd enters (inv.nobody idle c' stream)

omit inv

theorem present (busy : inside (w.program c) = true) : ∃ p, w.programs[c]? = some p := by
  cases found : w.programs[c]? with
  | none => simp [Http2World.program, found, inside] at busy
  | some p => exact ⟨p, rfl⟩

theorem kill (inv : Disciplined w) (step : w.lock.step (.kill c) = some lock) :
    Disciplined { w with lock, programs := w.programs.set c [] } := by
  obtain ⟨control, ⟨f, atFrame⟩, holdings, _, frames, _⟩ := inv.permits.kill_cases step
  obtain ⟨waited, outside⟩ := inv.waiting c f atFrame
  obtain ⟨p, program⟩ := present (inside_of_atWrite waited)
  have idle : w.current = none := by simp [current, control]
  have after : ∀ c', ({ w with lock, programs := w.programs.set c [] } : Http2World).program c' =
      if c' = c then [] else w.program c' := program_set w program _
  refine inv.change c _ (inv.permits.step step) rfl after (by simp) ?_ ?_ ?_ ?_ (by simp [opening, entering])
  · intro c' different
    simp only [frames, holdings]
    simp [different]
  · intro f' later
    simp [frames] at later
  · intro _
    simp [holdings, inside, outside]
  · intro c' stream
    rw [after]
    split
    · simp [entering]
    · exact fun enters => absurd enters (inv.nobody idle c' stream)

theorem new : Disciplined .new where
  permits := .new le_rfl (by decide)
  keyed := ⟨.nil, by simp [Http2World.new], by simp [Http2World.new]⟩
  tails c := by simp [program_new]
  waiting c f atFrame := by simp [Http2World.new, SemaphoreWorld.new] at atFrame
  holding c _ := by
    rw [program_new]
    simp [inside, Http2World.new, SemaphoreWorld.new]
  ready c stream enters := by simp [program_new, entering] at enters
  known c stream either := by simp [program_new, opening, entering] at either

end Disciplined

theorem entering_of_suspends {s : Http2Session} {p : List Action} (idle : suspends s p = true) : entering p = none := by
  unfold entering
  split
  · simp [suspends, Http2Session.perform] at idle
  · rfl

theorem program_spawn (w : Http2World) :
    ({ w with programs := w.programs ++ [[]] } : Http2World).program = w.program := by
  funext c
  unfold program
  dsimp only
  rw [getElem?_append]
  split
  · rfl
  · rename_i outside
    rw [getElem?_eq_none (not_lt.mp outside)]
    cases c - w.programs.length <;> rfl

theorem Disciplined.step (inv : Disciplined w) (step : w.step e = some t) : Disciplined t := by
  cases step_cases step with
  | spawn =>
    have same := program_spawn w
    exact ⟨inv.permits, inv.keyed, same ▸ inv.tails, same ▸ inv.waiting, same ▸ inv.holding, same ▸ inv.ready,
      same ▸ inv.known⟩
  | resume moved =>
    have permits := inv.permits.step moved
    cases SemaphoreWorld.step_cases moved with
    | resume control free =>
      have idle : w.current = none := by simp [current, control]
      exact inv.relock permits rfl rfl fun c stream enters => absurd enters (inv.nobody idle c stream)
  | runFunctor moved =>
    have permits := inv.permits.step moved
    cases SemaphoreWorld.step_cases moved with
    | runFunctor control _ =>
      have idle : w.current = none := by simp [current, control]
      exact inv.relock permits rfl rfl fun c stream enters => absurd enters (inv.nobody idle c stream)
  | wakeNext moved => exact inv.wakeNext moved
  | @leave c b _ control idle moved =>
    have permits := inv.permits.step moved
    cases SemaphoreWorld.step_cases moved with
    | leave running =>
      refine inv.relock permits rfl rfl ?_
      intro c' stream enters
      have same : c = c' := some.inj ((current_of_control control).symm.trans (inv.ready c' stream enters))
      subst same
      simp [entering_of_suspends idle] at enters
  | @call c b call control program =>
    have outer : inside [] = call.action.inner := by cases call <;> rfl
    exact inv.set control ⟨[], program, outer⟩ (shape_of_call w.session call) inv.keyed le_rfl
  | acquire control program acquired => exact inv.acquire control program acquired
  | release control program released => exact inv.release control program released
  | @perform c b ok a rest session more control program notLocked notUnlock performed =>
    have effect := Http2Session.effect_perform inv.keyed.distinct notLocked notUnlock performed
    have behind : ∀ x ∈ rest, x.behind = true := by
      have tails := inv.tails c
      simpa [Http2World.program, program] using tails
    exact inv.set control ⟨a :: rest, program, rfl⟩ (shape_of_effect effect behind) (inv.keyed.effect effect)
      (id_of_effect effect).1
  | kill killed => exact inv.kill killed

/-- The identifiers in use are in order, from the first on the connection to the last
that was taken. -/
structure Ordered (w : Http2World) : Prop where
  increasing : (opened w.session.wire ++ w.pending).Pairwise (· < ·)
  below : ∀ id ∈ opened w.session.wire ++ w.pending, id < w.session.nextStreamId ∧ id < 2 ^ 31
  small : ∀ stream < w.session.created, w.session.sending.id stream < 2 ^ 31

theorem filterMap_sublist {α β : Type} {f g : α → Option β} {l l' : List α} (sublist : l.Sublist l')
    (agree : ∀ x ∈ l, f x = g x ∨ f x = none) : (l.filterMap f).Sublist (l'.filterMap g) := by
  refine .trans ?_ (sublist.filterMap g)
  clear sublist
  induction l with
  | nil => exact .slnil
  | cons x rest ih =>
    have tail := ih fun y member => agree y (mem_cons_of_mem _ member)
    cases found : g x with
    | none =>
      have nothing : f x = none := (agree x mem_cons_self).elim (fun same => same.trans found) id
      rw [filterMap_cons_none nothing, filterMap_cons_none found]
      exact tail
    | some y =>
      rw [filterMap_cons_some found]
      rcases agree x mem_cons_self with same | nothing
      · rw [filterMap_cons_some (same.trans found)]
        exact tail.cons_cons _
      · rw [filterMap_cons_none nothing]
        exact tail.cons _

theorem pending_sublist (queue : t.contenders.Sublist w.contenders)
    (agree : ∀ c ∈ t.contenders, t.openingId c = w.openingId c ∨ t.openingId c = none)
    (newcomer : t.newcomer = none ∨ t.newcomer = w.newcomer) : t.pending.Sublist w.pending := by
  refine .append (filterMap_sublist queue agree) ?_
  rcases newcomer with nobody | same
  · simp [nobody]
  · simp [same]

theorem Ordered.of_sublist (ordered : Ordered w)
    (sublist : (opened t.session.wire ++ t.pending).Sublist (opened w.session.wire ++ w.pending))
    (next : t.session.nextStreamId = w.session.nextStreamId) (created : t.session.created = w.session.created)
    (id : t.session.sending.id = w.session.sending.id) : Ordered t where
  increasing := ordered.increasing.sublist sublist
  below x member := next ▸ ordered.below x (sublist.subset member)
  small := by
    rw [created, id]
    exact ordered.small

theorem Ordered.relock {lock : SemaphoreWorld} (ordered : Ordered w)
    (queue : ({ w with lock } : Http2World).contenders.Sublist w.contenders)
    (newcomer : ({ w with lock } : Http2World).newcomer = none ∨ ({ w with lock } : Http2World).newcomer = w.newcomer) :
    Ordered { w with lock } :=
  ordered.of_sublist (.append (.refl _) (pending_sublist queue (fun _ _ => .inl rfl) newcomer)) rfl rfl rfl

/-- The order needs a newcomer that finds the lock free to find no other exchange in its
queue, and identifiers that fit into a frame. -/
def orderly (w : Http2World) : Http2Event → Bool
  | .advance _ =>
    match w.current.map w.program with
    | some (.createStream .. :: _) => w.session.nextStreamId < 2 ^ 31
    | some (.locked (.headers ..) :: _) =>
      w.lock.sp.counter < 1 ∨ ∀ c ∈ w.lock.sp.waiters, opening (w.program c) = none
    | _ => true
  | _ => true

theorem newcomer_of_idle (idle : w.current = none) : w.newcomer = none := by simp [newcomer, idle]

theorem newcomer_of_program (running : w.current = some c) (noEntry : entering (w.program c) = none) :
    w.newcomer = none := by simp [newcomer, running, noEntry]

theorem Disciplined.outside (inv : Disciplined w) (control : w.lock.control = .running c b)
    (outer : inside (w.program c) = false) : c ∉ w.contenders := by
  have free := inv.permits.running c b control
  intro member
  rcases mem_append.mp member with held | waits
  · obtain ⟨h, holder, same⟩ := mem_map.mp held
    have pair : h = (c, 1) := Prod.ext same (inv.permits.unit holder).1
    have inner := (inv.holding c free).mp (pair ▸ holder)
    simp [outer] at inner
  · obtain ⟨f, atFrame⟩ := (inv.permits.queued c).mp waits
    simp [free] at atFrame

theorem openingId_of_ne {c' : Nat} {next : List Action} (session : t.session = w.session)
    (after : ∀ c', t.program c' = if c' = c then next else w.program c') (different : c' ≠ c) :
    t.openingId c' = w.openingId c' := by
  rw [openingId, after, if_neg different, session]
  rfl

/-- A newcomer takes its place at the end of the queue, or goes past a queue in which no
other exchange waits. -/
theorem pending_acquire {writing : Writing} {rest : List Action} (inv : Disciplined w)
    (control : w.lock.control = .running c b) (before : w.program c = .locked writing :: rest)
    (session : t.session = w.session)
    (after : ∀ c', t.program c' = if c' = c then .write writing :: rest else w.program c')
    (step : w.lock.step (.acquireMany 1 UINT_MAX) = some t.lock)
    (fair : w.newcomer = none ∨ w.lock.sp.counter < 1 ∨ ∀ c ∈ w.lock.sp.waiters, opening (w.program c) = none) :
    t.pending = w.pending := by
  have running := current_of_control control
  have outside : c ∉ w.contenders := inv.outside control (by simp [before, inside, Action.inner])
  have kept : w.contenders.filterMap t.openingId = w.contenders.filterMap w.openingId := by
    refine filterMap_congr fun c' member => openingId_of_ne session after ?_
    exact fun same => outside (same ▸ member)
  -- the newcomer's identifier is now that of one who has asked for the lock
  have own : t.openingId c = w.newcomer := by
    have same : opening (.write writing :: rest) = entering (.locked writing :: rest) := by cases writing <;> rfl
    rw [openingId, after, if_pos rfl, newcomer, running, bind_some, before, same, session]
  have mine : [c].filterMap t.openingId = w.newcomer.toList := by
    cases found : w.newcomer <;> simp [own, found]
  have arrived : t.newcomer = none := by
    cases now : t.current with
    | none => exact newcomer_of_idle now
    | some c' =>
      refine newcomer_of_program now ?_
      rw [after]
      split
      · rfl
      · rename_i different
        by_contra some
        obtain ⟨stream, enters⟩ := ne_none_iff_exists'.mp some
        exact different (Option.some.inj (running.symm.trans (inv.ready c' stream enters))).symm
  rcases inv.permits.acquire_cases control step with
    ⟨one, empty, holdings, waiters, _, _⟩ | ⟨_, holdings, waiters, _, _⟩
  · have queue : w.contenders = w.lock.sp.waiters := by simp [contenders, empty]
    have queue' : t.contenders = [c] ++ w.contenders := by simp [contenders, holdings, waiters, empty]
    rw [pending, queue', filterMap_append, mine, kept, arrived, pending]
    rcases fair with nobody | taken | nobody
    · simp [nobody]
    · omega
    · have silent : w.contenders.filterMap w.openingId = [] := by
        rw [queue, filterMap_eq_nil_iff]
        intro c' member
        simp [openingId, nobody c' member]
      simp [silent]
  · have queue : t.contenders = w.contenders ++ [c] := by simp [contenders, holdings, waiters]
    rw [pending, queue, filterMap_append, mine, kept, arrived, pending]
    simp

theorem opened_append (wire : List Sent) (sent : Sent) : opened (wire ++ [sent]) = opened wire ++ opened [sent] :=
  filterMap_append ..

namespace Ordered

theorem release {c : Nat} {b : Bool} {rest : List Action} (ordered : Ordered w) (inv : Disciplined w)
    (control : w.lock.control = .running c b) (before : w.program c = .unlock :: rest)
    (session : t.session = w.session) (after : ∀ c', t.program c' = if c' = c then rest else w.program c')
    (step : w.lock.step (.release 1 1) = some t.lock) : Ordered t := by
  have behind : ∀ a ∈ rest, a.behind = true := by
    have tails := inv.tails c
    rw [before] at tails
    exact tails
  obtain ⟨_, noEntry, noOpening⟩ := idle_of_behind behind
  obtain ⟨only, emptied, waiters, _, running⟩ := inv.permits.release_cases control step
  have queue : t.contenders.Sublist w.contenders := by
    simp only [contenders, emptied, only, waiters]
    exact sublist_append_right ..
  have agree : ∀ c' ∈ t.contenders, t.openingId c' = w.openingId c' ∨ t.openingId c' = none := by
    intro c' _
    by_cases same : c' = c
    · right
      rw [openingId, after, if_pos same, noOpening]
      rfl
    · exact .inl (openingId_of_ne session after same)
  have gone : t.newcomer = none := by
    refine newcomer_of_program (current_of_control (running.trans control)) ?_
    rw [after, if_pos rfl, noEntry]
  refine ordered.of_sublist ?_ (by rw [session]) (by rw [session]) (by rw [session])
  rw [session]
  exact .append (.refl _) (pending_sublist queue agree (.inl gone))

theorem wakeNext {lock : SemaphoreWorld} (ordered : Ordered w) (inv : Disciplined w)
    (step : w.lock.step .wakeNext = some lock) : Ordered { w with lock } := by
  obtain ⟨control, ⟨c, rest, empty, queue, holdings, waiters, _, running⟩ | ⟨holdings, waiters, _, idle⟩⟩ :=
    inv.permits.wakeNext_cases step
  · refine ordered.relock ?_ (.inl ?_)
    · simp [contenders, holdings, waiters, empty, queue]
    · refine newcomer_of_program (current_of_control running) ?_
      by_contra some
      obtain ⟨stream, enters⟩ := ne_none_iff_exists'.mp some
      exact inv.nobody (by simp [current, control]) c stream enters
  · refine ordered.relock ?_ (.inl (newcomer_of_idle (by simp [current, idle])))
    simp [contenders, holdings, waiters]

theorem kill {c : Nat} (ordered : Ordered w) (inv : Disciplined w) (session : t.session = w.session)
    (after : ∀ c', t.program c' = if c' = c then [] else w.program c')
    (step : w.lock.step (.kill c) = some t.lock) : Ordered t := by
  obtain ⟨_, _, holdings, waiters, _, running⟩ := inv.permits.kill_cases step
  have queue : t.contenders.Sublist w.contenders := by
    simp only [contenders, holdings, waiters]
    exact .append (.refl _) filter_sublist
  have agree : ∀ c' ∈ t.contenders, t.openingId c' = w.openingId c' ∨ t.openingId c' = none := by
    intro c' _
    by_cases same : c' = c
    · right
      rw [openingId, after, if_pos same]
      rfl
    · exact .inl (openingId_of_ne session after same)
  have gone : t.newcomer = none := by
    refine newcomer_of_program (current_of_control running) ?_
    rw [after, if_pos rfl]
    rfl
  refine ordered.of_sublist ?_ (by rw [session]) (by rw [session]) (by rw [session])
  rw [session]
  exact .append (.refl _) (pending_sublist queue agree (.inl gone))

section Perform

variable {c : Nat} {b : Bool} {a : Action} {next : List Action}
variable {sent : Sent} {rest : List Action}

theorem pending_perform (inv : Disciplined w) (lock : t.lock = w.lock)
    (after : ∀ c', t.program c' = if c' = c then next else w.program c')
    (ids : ∀ stream < w.session.created, t.session.sending.id stream = w.session.sending.id stream)
    (noOpening : opening next = none) :
    t.contenders = w.contenders ∧ ∀ c', t.openingId c' = w.openingId c' ∨ t.openingId c' = none := by
  refine ⟨by simp [contenders, lock], ?_⟩
  intro c'
  by_cases same : c' = c
  · right
    rw [openingId, after, if_pos same, noOpening]
    rfl
  · left
    rw [openingId, after, if_neg same, openingId]
    cases found : opening (w.program c') with
    | none => rfl
    | some stream => simp [ids stream (inv.known c' stream (.inl found))]

theorem created (ordered : Ordered w) (inv : Disciplined w) (running : w.current = some c) (lock : t.lock = w.lock)
    (after : ∀ c', t.program c' = if c' = c then next else w.program c') (noOpening : opening next = none)
    (enters : entering next = some w.session.created)
    (sending : t.session.sending = { w.session.sending with
      id := update w.session.sending.id w.session.created w.session.nextStreamId
      sendWindow := update w.session.sending.sendWindow w.session.created w.session.remoteInitialWindow
      created := w.session.created + 1
      nextStreamId := (w.session.nextStreamId + 2) % 2 ^ 32 })
    (fits : w.session.nextStreamId < 2 ^ 31) : Ordered t := by
  have id : t.session.sending.id = update w.session.sending.id w.session.created w.session.nextStreamId := by
    rw [sending]
  have wire : t.session.wire = w.session.wire := congrArg wire sending
  have grown : t.session.created = w.session.created + 1 := congrArg SendView.created sending
  have later : t.session.nextStreamId = w.session.nextStreamId + 2 := by
    have moved : t.session.nextStreamId = (w.session.nextStreamId + 2) % 2 ^ 32 := congrArg nextStreamId sending
    omega
  have ids : ∀ stream < w.session.created, t.session.sending.id stream = w.session.sending.id stream := by
    intro stream old
    rw [id, update_of_ne (by omega)]
  obtain ⟨queue, agree⟩ := pending_perform inv lock after ids noOpening
  have new : t.newcomer = some w.session.nextStreamId := by
    have now : t.current = some c := by rw [← running, current, current, lock]
    rw [newcomer, now, bind_some, after, if_pos rfl, enters, id]
    simp
  have sublist : (opened t.session.wire ++ t.pending).Sublist
      (opened w.session.wire ++ w.pending ++ [w.session.nextStreamId]) := by
    rw [wire, pending, new, append_assoc, pending, append_assoc]
    refine .append (.refl _) (.append ?_ (sublist_append_right ..))
    exact filterMap_sublist (queue ▸ .refl _) fun c' _ => agree c'
  have whole : (opened w.session.wire ++ w.pending ++ [w.session.nextStreamId]).Pairwise (· < ·) := by
    refine pairwise_append.mpr ⟨ordered.increasing, pairwise_singleton _ _, ?_⟩
    intro x member y new
    cases mem_singleton.mp new
    exact (ordered.below x member).1
  refine ⟨whole.sublist sublist, ?_, ?_⟩
  · intro x member
    rcases mem_append.mp (sublist.subset member) with old | last
    · have bounds := ordered.below x old
      omega
    · cases mem_singleton.mp last
      omega
  · intro stream below
    rw [id]
    by_cases same : stream = w.session.created
    · simpa [same] using fits
    · rw [update_of_ne same]
      exact ordered.small stream (by omega)

theorem handed {stream : Nat} {headers : List HpackHeader} {body : Option Body}
    (ordered : Ordered w) (inv : Disciplined w) (control : w.lock.control = .running c b) (lock : t.lock = w.lock)
    (before : w.program c = .write (.headers stream headers body) :: rest)
    (after : ∀ c', t.program c' = if c' = c then next else w.program c') (noOpening : opening next = none)
    (noEntry : entering next = none) (frame : opened [sent] = [wireId (w.session.sending.id stream)])
    (sending : t.session.sending = { w.session.sending with wire := w.session.wire ++ [sent] }) : Ordered t := by
  have free := inv.permits.running c b control
  have holder : (c, 1) ∈ w.lock.holdings := (inv.holding c free).mpr (by simp [before, inside, Action.inner])
  have only := (inv.permits.unit holder).2
  have queue : w.contenders = c :: w.lock.sp.waiters := by simp [contenders, only]
  have own : w.openingId c = some (w.session.sending.id stream) := by simp [openingId, before, opening]
  have id : t.session.sending.id = w.session.sending.id := by rw [sending]
  have wire : t.session.wire = w.session.wire ++ [sent] := congrArg SendView.wire sending
  obtain ⟨same, agree⟩ := pending_perform inv lock after (fun stream _ => congrFun id stream) noOpening
  have gone : t.openingId c = none := by
    rw [openingId, after, if_pos rfl, noOpening]
    rfl
  have nobody : t.newcomer = none := by
    have running : t.current = some c := by rw [current, lock, control]
    refine newcomer_of_program running ?_
    rw [after, if_pos rfl, noEntry]
  have member : w.session.sending.id stream ∈ opened w.session.wire ++ w.pending := by
    rw [pending, queue, filterMap_cons_some own]
    simp
  have kept : wireId (w.session.sending.id stream) = w.session.sending.id stream :=
    Nat.mod_eq_of_lt (ordered.below _ member).2
  refine ordered.of_sublist ?_ ?_ ?_ id
  · rw [wire, opened_append, frame, kept, pending, same, queue, filterMap_cons_none gone, nobody, pending, queue,
      filterMap_cons_some own, append_assoc, singleton_append, cons_append]
    refine .append (.refl _) ?_
    exact .cons_cons _ (.append (filterMap_sublist (.refl _) fun c' _ => agree c') (nil_sublist _))
  · exact congrArg SendView.nextStreamId sending
  · exact congrArg SendView.created sending

theorem others (ordered : Ordered w) (inv : Disciplined w) (running : w.current = some c) (lock : t.lock = w.lock)
    (after : ∀ c', t.program c' = if c' = c then next else w.program c') (noOpening : opening next = none)
    (noEntry : entering next = none) (id : t.session.sending.id = w.session.sending.id)
    (wire : opened t.session.wire = opened w.session.wire)
    (later : t.session.nextStreamId = w.session.nextStreamId)
    (created : t.session.created = w.session.created) : Ordered t := by
  obtain ⟨same, agree⟩ := pending_perform inv lock after (fun stream _ => congrFun id stream) noOpening
  have nobody : t.newcomer = none := by
    have now : t.current = some c := by rw [← running, current, current, lock]
    refine newcomer_of_program now ?_
    rw [after, if_pos rfl, noEntry]
  refine ordered.of_sublist ?_ later created id
  rw [wire]
  exact .append (.refl _) (pending_sublist (same ▸ .refl _) (fun c' _ => agree c') (.inl nobody))

theorem opened_handed {s : Http2Session} {writing writing' : Writing} (handed : s.Handed writing sent writing') :
    opened [sent] = [] ∨ ∃ stream headers body, writing = .headers stream headers body ∧
      opened [sent] = [wireId (s.sending.id stream)] := by
  cases handed with
  | headers => exact .inr ⟨_, _, _, rfl, rfl⟩
  | _ => exact .inl rfl

theorem perform {more : List Action} {session : Http2Session} (ordered : Ordered w) (inv : Disciplined w)
    (control : w.lock.control = .running c b) (lock : t.lock = w.lock) (became : t.session = session)
    (before : w.program c = a :: rest) (after : ∀ c', t.program c' = if c' = c then more ++ rest else w.program c')
    (effect : w.session.SendEffect a session more)
    (fits : (∃ headers body, a = .createStream headers body) → w.session.nextStreamId < 2 ^ 31) : Ordered t := by
  have behind : ∀ x ∈ rest, x.behind = true := by
    have tails := inv.tails c
    rw [before] at tails
    exact tails
  have running := current_of_control control
  have shape := shape_of_effect effect behind
  have quiet : entering (more ++ rest) = none → session.sending.id = w.session.sending.id →
      opened session.sending.wire = opened w.session.sending.wire →
      session.sending.nextStreamId = w.session.sending.nextStreamId →
      session.sending.created = w.session.sending.created → Ordered t := by
    intro noEntry id wire later created
    rw [← became] at id wire later created
    exact ordered.others inv running lock after shape.opening noEntry id wire later created
  have settled : entering (more ++ rest) = none → session.sending.id = w.session.sending.id →
      session.sending.wire = w.session.sending.wire →
      session.sending.nextStreamId = w.session.sending.nextStreamId →
      session.sending.created = w.session.sending.created → Ordered t :=
    fun noEntry id wire => quiet noEntry id (congrArg opened wire)
  have stays : session.sending.created = w.session.sending.created → entering (more ++ rest) = none := by
    intro same
    rcases shape.entering with noEntry | ⟨_, grown⟩
    · exact noEntry
    · exact absurd same grown.ne'
  cases effect with
  | plain _ still _ =>
    exact settled (stays (still.sending ▸ rfl)) (still.sending ▸ rfl) (still.sending ▸ rfl) (still.sending ▸ rfl)
      (still.sending ▸ rfl)
  | received still _ =>
    exact settled (stays (still.sending ▸ rfl)) (still.sending ▸ rfl) (still.sending ▸ rfl) (still.sending ▸ rfl)
      (still.sending ▸ rfl)
  | refused still _ =>
    exact settled (stays (still.sending ▸ rfl)) (still.sending ▸ rfl) (still.sending ▸ rfl) (still.sending ▸ rfl)
      (still.sending ▸ rfl)
  | cut _ sending _ _ =>
    exact settled (stays (sending ▸ rfl)) (sending ▸ rfl) (sending ▸ rfl) (sending ▸ rfl) (sending ▸ rfl)
  | granted _ _ _ sending _ =>
    exact settled (stays (sending ▸ rfl)) (sending ▸ rfl) (sending ▸ rfl) (sending ▸ rfl) (sending ▸ rfl)
  | widened _ _ _ _ sending _ =>
    exact settled (stays (sending ▸ rfl)) (sending ▸ rfl) (sending ▸ rfl) (sending ▸ rfl) (sending ▸ rfl)
  | broken sending _ _ =>
    exact settled (stays (sending ▸ rfl)) (sending ▸ rfl) (sending ▸ rfl) (sending ▸ rfl) (sending ▸ rfl)
  | deducted sending _ =>
    exact settled (stays (sending ▸ rfl)) (sending ▸ rfl) (sending ▸ rfl) (sending ▸ rfl) (sending ▸ rfl)
  | initial _ shifted _ =>
    have sending := shifted.sending
    exact settled (stays (sending ▸ rfl)) (sending ▸ rfl) (sending ▸ rfl) (sending ▸ rfl) (sending ▸ rfl)
  | upload | picked | flushed | opened | continued | sent => exact settled (stays rfl) rfl rfl rfl rfl
  | created sending _ =>
    exact ordered.created inv running lock after rfl rfl (became ▸ sending) (fits ⟨_, _, rfl⟩)
  | handed _ handed sending _ =>
    rcases opened_handed handed with silent | ⟨stream, headers, body, rfl, frame⟩
    · refine quiet rfl (sending ▸ rfl) ?_ (sending ▸ rfl) (sending ▸ rfl)
      rw [sending]
      exact (opened_append _ _).trans (by rw [silent, append_nil]; rfl)
    · exact ordered.handed inv control lock before after rfl rfl frame (became ▸ sending)

end Perform

end Ordered

theorem Ordered.new : Ordered .new where
  increasing := by simp [Http2World.new, opened, pending, contenders, newcomer, current, SemaphoreWorld.new,
    SemaphorePrivate.new]
  below := by simp [Http2World.new, opened, pending, contenders, newcomer, current, SemaphoreWorld.new,
    SemaphorePrivate.new]
  small := by simp [Http2World.new]

theorem Ordered.step (ordered : Ordered w) (inv : Disciplined w) (fair : w.orderly e = true)
    (step : w.step e = some t) : Ordered t := by
  cases step_cases step with
  | spawn =>
    have same := program_spawn w
    have ids : ({ w with programs := w.programs ++ [[]] } : Http2World).openingId = w.openingId := by
      funext c
      simp only [openingId, same]
    refine ordered.of_sublist (.append (.refl _) ?_) rfl rfl rfl
    exact pending_sublist (.refl _) (fun c _ => .inl (congrFun ids c)) (.inr (by simp only [newcomer, same]; rfl))
  | @resume coroutine lock moved =>
    cases SemaphoreWorld.step_cases moved with
    | resume control free =>
      refine ordered.relock (.refl _) (.inl (newcomer_of_program (current_of_control rfl) ?_))
      by_contra some
      obtain ⟨stream, enters⟩ := ne_none_iff_exists'.mp some
      exact inv.nobody (by simp [current, control]) coroutine stream enters
  | runFunctor moved =>
    cases SemaphoreWorld.step_cases moved with
    | runFunctor control _ => exact ordered.relock (.refl _) (.inl (newcomer_of_idle rfl))
  | wakeNext moved => exact ordered.wakeNext inv moved
  | @leave c b _ control idle moved =>
    cases SemaphoreWorld.step_cases moved with
    | @leave _ b' running =>
      refine ordered.relock (.refl _) (.inl (newcomer_of_idle ?_))
      cases b' <;> rfl
  | @call c b call control program =>
    have before : w.program c = [] := by simp [Http2World.program, program]
    have shape := shape_of_call w.session call
    have noEntry : entering [call.action] = none := by cases call <;> rfl
    exact ordered.others inv (current_of_control control) rfl
      (program_set w program _) shape.opening noEntry rfl rfl rfl
      rfl
  | @acquire c b ok writing rest lock control program acquired =>
    have before : w.program c = .locked writing :: rest := by simp [Http2World.program, program]
    have running := current_of_control control
    have polite : w.newcomer = none ∨ w.lock.sp.counter < 1 ∨
        ∀ c ∈ w.lock.sp.waiters, opening (w.program c) = none := by
      cases writing with
      | headers => exact .inr (by simpa [orderly, running, before] using fair)
      | _ => exact .inl (newcomer_of_program running (by rw [before]; rfl))
    have same := pending_acquire (t := { w with lock, programs := w.programs.set c (.write writing :: rest) }) inv
      control before rfl (program_set w program _) acquired polite
    exact ordered.of_sublist (by rw [same]) rfl rfl rfl
  | @release c b ok rest lock control program released =>
    have before : w.program c = .unlock :: rest := by simp [Http2World.program, program]
    exact ordered.release inv control before rfl (program_set w program _) released
  | @perform c b ok a rest session more control program notLocked notUnlock performed =>
    have before : w.program c = a :: rest := by simp [Http2World.program, program]
    have effect := Http2Session.effect_perform inv.keyed.distinct notLocked notUnlock performed
    refine ordered.perform inv control rfl rfl before (program_set w program _) effect ?_
    rintro ⟨headers, body, rfl⟩
    simpa [orderly, current_of_control control, before] using fair
  | @kill c lock killed =>
    obtain ⟨f, atFrame⟩ := (inv.permits.kill_cases killed).2.1
    obtain ⟨p, program⟩ := Disciplined.present (inside_of_atWrite (inv.waiting c f atFrame).1)
    exact ordered.kill inv rfl (program_set w program _) killed

def Tracked (w : Http2World) : Prop := Disciplined w ∧ Ordered w

end Http2World

/-- The HEADERS frames on the connection have increasing identifiers, and no stream has
one that does not fit into a frame. -/
structure Increasing (w : Http2World) : Prop where
  increasing : (opened w.session.wire).Pairwise (· < ·)
  small : ∀ id ∈ opened w.session.wire, id < 2 ^ 31
  streams : ∀ stream < w.session.created, (w.session.object stream).id < 2 ^ 31

/-- If every exchange that comes to a free write lock finds no other exchange in its
queue, and streams are made only while the identifiers last, then the HEADERS frames
are on the connection in the order of their identifiers at any time. -/
theorem Http2World.increasing_of_orderly {history : List (Http2World × Http2Event)} {w s : Http2World}
    (run : Run http2System history w) (fair : ∀ entry ∈ history, entry.1.orderly entry.2 = true)
    (visited : Visited history w s) : Increasing s := by
  have tracked : Tracked s := by
    refine run.visited_of_guard (fun w e => w.orderly e = true) fair ?_ ?_ visited
    · rintro _ rfl
      exact ⟨.new, .new⟩
    · rintro w e t ⟨inv, ordered⟩ polite step
      exact ⟨inv.step step, ordered.step inv polite step⟩
  obtain ⟨_, ordered⟩ := tracked
  refine ⟨(pairwise_append.mp ordered.increasing).1, ?_, ordered.small⟩
  exact fun id member => (ordered.below id (mem_append_left _ member)).2

def getRequest : Http2Event :=
  .call (.exchange [⟨ascii ":method", ascii "GET"⟩, ⟨ascii ":scheme", ascii "https"⟩, ⟨ascii ":path", ascii "/"⟩,
    ⟨ascii ":authority", ascii "a"⟩] none)

def advances (n : Nat) : List Http2Event := List.replicate n (.advance true)

def settingsArrive : List Http2Event :=
  [.resume 0, .call (.receive ⟨.settings, 0, 0, []⟩)] ++ advances 7 ++ [.leave]

def queueing : List Http2Event :=
  [.spawn, .spawn] ++ settingsArrive ++ [.resume 1, getRequest] ++ advances 5 ++ [.leave, .resume 2, getRequest] ++
    advances 4 ++ [.resume 1] ++ advances 2 ++ [.leave, .runFunctor 1, .wakeNext] ++ advances 1

theorem increasing_of_orderly_queueing : ∃ history w, Run http2System history w ∧
    (∀ entry ∈ history, entry.1.orderly entry.2 = true) ∧ opened w.session.wire = [1, 3] ∧ Increasing w := by
  obtain ⟨history, w, run, _, fair, wire⟩ :=
    Run.of_exec_guarded http2System Http2World.orderly rfl queueing rfl
      (fun w => opened w.session.wire = [1, 3]) (by decide +kernel)
  exact ⟨history, w, run, fair, wire, Http2World.increasing_of_orderly run fair (.inl rfl)⟩

instance (w : Http2World) : Decidable (Increasing w) :=
  decidable_of_iff ((opened w.session.wire).Pairwise (· < ·) ∧ (∀ id ∈ opened w.session.wire, id < 2 ^ 31) ∧
      ∀ stream < w.session.created, (w.session.object stream).id < 2 ^ 31)
    ⟨fun ⟨increasing, small, streams⟩ => ⟨increasing, small, streams⟩,
      fun ⟨increasing, small, streams⟩ => ⟨increasing, small, streams⟩⟩

/-- A coroutine that cancels its first request waits inside sendall for the reset to be
taken. Another exchange takes the next identifier and queues up for the lock. The first
coroutine goes on with a new request at once, and its HEADERS frame is out before the
other one's. -/
def overtaking : List Http2Event :=
  [.spawn, .spawn] ++ settingsArrive ++ [.resume 1, getRequest] ++ advances 7 ++
    [.call (.release 1 true errorCancel)] ++ advances 3 ++ [.leave, .resume 2, getRequest] ++ advances 4 ++
    [.resume 1] ++ advances 3 ++ [getRequest] ++ advances 7 ++ [.leave, .runFunctor 1, .wakeNext] ++ advances 1

theorem headers_overtaken : ∃ history w, Run http2System history w ∧ history.map Prod.snd = overtaking.reverse ∧
    opened w.session.wire = [1, 5, 3] ∧ ¬ Increasing w := by
  refine Run.of_exec http2System rfl overtaking rfl
    (fun w => opened w.session.wire = [1, 5, 3] ∧ ¬ Increasing w) ?_
  decide +kernel

end Qtng.Http2
