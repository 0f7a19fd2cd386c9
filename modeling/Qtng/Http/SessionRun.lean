import Qtng.Http.Session
import Qtng.Locks.Permits

namespace Qtng.Http2

open BigEndian Transition Option List

/-- What the application and the connection ask of a session. -/
inductive Call
  | exchange (headers : List HpackHeader) (body : Option Body)
  | release (streamId : Nat) (sendRst : Bool) (code : Nat)
  | close
  | receive (f : Frame)
  | disconnect

def Call.action : Call → Action
  | .exchange headers body => .exchange headers body
  | .release streamId sendRst code => .releaseStream streamId sendRst code
  | .close => .close
  | .receive f => .receive f
  | .disconnect => .readerEnd

/-- The reader is the first coroutine of a session. It goes on while the session is
valid. -/
def Call.admissible (s : Http2Session) (coroutine : Nat) : Call → Bool
  | .receive _ => coroutine = 0 ∧ s.valid ∧ s.connected
  | .disconnect => coroutine = 0
  | _ => coroutine ≠ 0

/-- The session with its write lock and what each coroutine still has to do. -/
structure Http2World where
  lock : SemaphoreWorld := .new 1
  session : Http2Session := {}
  programs : List (List Action) := [[]]

inductive Http2Event
  | spawn
  | resume (coroutine : Nat)
  | runFunctor (id : Nat)
  | wakeNext
  | leave
  | call (c : Call)
  | advance (ok : Bool)
  | kill (coroutine : Nat)

/-- The points where a coroutine may switch to the event loop, apart from the lock. -/
def suspends (s : Http2Session) : List Action → Bool
  | [] | .flush _ :: _ | .readBody .. :: _ => true
  | a :: _ => (s.perform a true).isNone

namespace Http2World

def new : Http2World := {}

def program (w : Http2World) (coroutine : Nat) : List Action := (w.programs[coroutine]?).getD []

def advance (w : Http2World) (coroutine : Nat) (ok : Bool) : Option Http2World :=
  match w.programs[coroutine]? with
  | some (.locked writing :: rest) =>
    (w.lock.step (.acquireMany 1 UINT_MAX)).map fun lock =>
      { w with lock, programs := w.programs.set coroutine (.write writing :: rest) }
  | some (.unlock :: rest) =>
    (w.lock.step (.release 1 1)).map fun lock => { w with lock, programs := w.programs.set coroutine rest }
  | some (a :: rest) =>
    (w.session.perform a ok).map fun (session, more) =>
      { w with session, programs := w.programs.set coroutine (more ++ rest) }
  | _ => none

def current (w : Http2World) : Option Nat :=
  match w.lock.control with
  | .running coroutine _ => some coroutine
  | _ => none

def scheduled (w : Http2World) (e : SemaphoreEvent) : Option Http2World :=
  (w.lock.step e).map fun lock => { w with lock }

def step (w : Http2World) : Http2Event → Option Http2World
  | .spawn => some { w with programs := w.programs ++ [[]] }
  | .resume coroutine => w.scheduled (.resume coroutine)
  | .runFunctor id => w.scheduled (.runFunctor id)
  | .wakeNext => w.scheduled .wakeNext
  | .leave =>
    w.current.bind fun coroutine => if suspends w.session (w.program coroutine) then w.scheduled .leave else none
  | .call c =>
    w.current.bind fun coroutine =>
      if (w.programs[coroutine]?).any List.isEmpty ∧ c.admissible w.session coroutine then
        some { w with programs := w.programs.set coroutine [c.action] }
      else none
  | .advance ok => w.current.bind fun coroutine => w.advance coroutine ok
  | .kill coroutine =>
    if coroutine = 0 then none
    else (w.lock.step (.kill coroutine)).map fun lock => { w with lock, programs := w.programs.set coroutine [] }

inductive StepCase (w : Http2World) : Http2Event → Http2World → Prop
  | spawn : StepCase w .spawn { w with programs := w.programs ++ [[]] }
  | resume {c lock} : w.lock.step (.resume c) = some lock → StepCase w (.resume c) { w with lock }
  | runFunctor {id lock} : w.lock.step (.runFunctor id) = some lock → StepCase w (.runFunctor id) { w with lock }
  | wakeNext {lock} : w.lock.step .wakeNext = some lock → StepCase w .wakeNext { w with lock }
  | leave {c b lock} : w.lock.control = .running c b → suspends w.session (w.program c) = true →
      w.lock.step .leave = some lock → StepCase w .leave { w with lock }
  | call {c b} {call : Call} : w.lock.control = .running c b → w.programs[c]? = some [] →
      StepCase w (.call call) { w with programs := w.programs.set c [call.action] }
  | acquire {c b ok writing rest lock} : w.lock.control = .running c b →
      w.programs[c]? = some (.locked writing :: rest) → w.lock.step (.acquireMany 1 UINT_MAX) = some lock →
      StepCase w (.advance ok) { w with lock, programs := w.programs.set c (.write writing :: rest) }
  | release {c b ok rest lock} : w.lock.control = .running c b → w.programs[c]? = some (.unlock :: rest) →
      w.lock.step (.release 1 1) = some lock →
      StepCase w (.advance ok) { w with lock, programs := w.programs.set c rest }
  | perform {c b ok a rest session more} : w.lock.control = .running c b → w.programs[c]? = some (a :: rest) →
      (∀ writing, a ≠ .locked writing) → a ≠ .unlock → w.session.perform a ok = some (session, more) →
      StepCase w (.advance ok) { w with session, programs := w.programs.set c (more ++ rest) }
  | kill {c lock} : w.lock.step (.kill c) = some lock →
      StepCase w (.kill c) { w with lock, programs := w.programs.set c [] }

theorem current_eq_some {w : Http2World} {c : Nat} (current : w.current = some c) :
    ∃ b, w.lock.control = .running c b := by
  unfold Http2World.current at current
  split at current
  · rename_i coroutine b control
    cases current
    exact ⟨b, control⟩
  · simp at current

theorem advance_cases {w t : Http2World} {c : Nat} {b ok : Bool} (control : w.lock.control = .running c b)
    (advanced : w.advance c ok = some t) : StepCase w (.advance ok) t := by
  unfold Http2World.advance at advanced
  split at advanced
  · rename_i writing rest program
    obtain ⟨lock, acquired, rfl⟩ := map_eq_some_iff.mp advanced
    exact .acquire control program acquired
  · rename_i rest program
    obtain ⟨lock, released, rfl⟩ := map_eq_some_iff.mp advanced
    exact .release control program released
  · rename_i a rest notLocked notUnlock program
    obtain ⟨⟨session, more⟩, performed, rfl⟩ := map_eq_some_iff.mp advanced
    exact .perform control program notLocked notUnlock performed
  · simp at advanced

theorem step_cases {w t : Http2World} {e : Http2Event} (step : w.step e = some t) : StepCase w e t := by
  cases e with
  | spawn =>
    cases step
    exact .spawn
  | resume c =>
    obtain ⟨lock, moved, rfl⟩ := map_eq_some_iff.mp step
    exact .resume moved
  | runFunctor id =>
    obtain ⟨lock, moved, rfl⟩ := map_eq_some_iff.mp step
    exact .runFunctor moved
  | wakeNext =>
    obtain ⟨lock, moved, rfl⟩ := map_eq_some_iff.mp step
    exact .wakeNext moved
  | leave =>
    obtain ⟨c, current, left⟩ := bind_eq_some_iff.mp step
    obtain ⟨b, control⟩ := current_eq_some current
    split at left
    · rename_i idle
      obtain ⟨lock, moved, rfl⟩ := map_eq_some_iff.mp left
      exact .leave control idle moved
    · simp at left
  | call call =>
    obtain ⟨c, current, called⟩ := bind_eq_some_iff.mp step
    obtain ⟨b, control⟩ := current_eq_some current
    split at called
    · rename_i admitted
      cases called
      obtain ⟨program, found, empty⟩ := (any_eq_true _ _).mp admitted.1
      exact .call control (found.trans (congrArg some (isEmpty_iff.mp empty)))
    · simp at called
  | advance ok =>
    obtain ⟨c, current, advanced⟩ := bind_eq_some_iff.mp step
    obtain ⟨b, control⟩ := current_eq_some current
    exact advance_cases control advanced
  | kill c =>
    simp only [Http2World.step] at step
    split at step
    · simp at step
    · obtain ⟨lock, killed, rfl⟩ := map_eq_some_iff.mp step
      exact .kill killed

theorem program_new (c : Nat) : new.program c = [] := by
  cases c <;> rfl

theorem program_set (w : Http2World) {c : Nat} {p : List Action} (present : w.programs[c]? = some p)
    (next : List Action) (c' : Nat) :
    { w with programs := w.programs.set c next }.program c' = if c' = c then next else w.program c' := by
  have inside : c < w.programs.length := (List.getElem?_eq_some_iff.mp present).1
  unfold program
  by_cases same : c' = c
  · subst same
    simp [inside]
  · simp [same, getElem?_set_ne (Ne.symm same)]

end Http2World

def http2System : System Http2World Http2Event := .ofStep (· = .new) Http2World.step

end Qtng.Http2
