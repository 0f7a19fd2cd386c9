import Mathlib

namespace Transition

open List Option

/-- A labelled transition system. Several steps may share a label, and a
label may be refused in a state. -/
structure System (State Event : Type*) where
  start : State → Prop
  step : State → Event → State → Prop

variable {State Event : Type*} {S : System State Event}

/-- A finite run, with the latest step first. Each entry of the history is
the state before the step together with its label. -/
inductive Run (S : System State Event) : List (State × Event) → State → Prop
  | start {s} : S.start s → Run S [] s
  | next {history s e t} : Run S history s → S.step s e t → Run S ((s, e) :: history) t

/-- The states a run has gone through, its present state included. -/
def Visited (history : List (State × Event)) (current s : State) : Prop :=
  s = current ∨ ∃ e, (s, e) ∈ history

namespace Run

variable {t : State} {history : List (State × Event)} {Inv : State → Prop}

theorem prefix_of_mem {s : State} {e : Event}
    (run : Run S history t) (member : (s, e) ∈ history) : ∃ earlier, Run S earlier s := by
  induction run with
  | start => simp at member
  | @next past u label v previous _ ih =>
    rcases mem_cons.mp member with same | old
    · cases same
      exact ⟨past, previous⟩
    · exact ih old

theorem invariant (run : Run S history t) (base : ∀ s, S.start s → Inv s)
    (keep : ∀ s e t, Inv s → S.step s e t → Inv t) : Inv t := by
  induction run with
  | start first => exact base _ first
  | next _ step ih => exact keep _ _ _ ih step

/-- The induction over the runs whose steps all meet a condition on the
state before the step and its label. -/
theorem invariant_of_guard (guard : State → Event → Prop) (run : Run S history t)
    (guarded : ∀ entry ∈ history, guard entry.1 entry.2) (base : ∀ s, S.start s → Inv s)
    (keep : ∀ s e t, Inv s → guard s e → S.step s e t → Inv t) : Inv t := by
  induction run with
  | start first => exact base _ first
  | next _ step ih =>
    have earlier := ih (fun entry member => guarded entry (mem_cons_of_mem _ member))
    exact keep _ _ _ earlier (guarded _ mem_cons_self) step

theorem visited_of_guard (guard : State → Event → Prop) {s : State} (run : Run S history t)
    (guarded : ∀ entry ∈ history, guard entry.1 entry.2) (base : ∀ s, S.start s → Inv s)
    (keep : ∀ s e t, Inv s → guard s e → S.step s e t → Inv t) (visited : Visited history t s) : Inv s := by
  induction run with
  | start first =>
    obtain rfl := visited.resolve_right (by simp)
    exact base _ first
  | @next past u e v previous step ih =>
    have earlier : ∀ entry ∈ past, guard entry.1 entry.2 := fun entry member =>
      guarded entry (mem_cons_of_mem _ member)
    rcases visited with rfl | ⟨label, member⟩
    · exact (Run.next previous step).invariant_of_guard guard guarded base keep
    · rcases mem_cons.mp member with same | old
      · cases same
        exact previous.invariant_of_guard guard earlier base keep
      · exact ih earlier (Or.inr ⟨label, old⟩)

/-- A property fails at the first step that does not meet a condition, as long as
all steps meet another one: then it holds throughout exactly the runs whose steps all
meet the condition. -/
theorem everywhere_iff_of_guard (assumed guard : State → Event → Prop) (Inv P : State → Prop) (run : Run S history t)
    (met : ∀ entry ∈ history, assumed entry.1 entry.2) (base : ∀ s, S.start s → Inv s) (holds : ∀ s, Inv s → P s)
    (keep : ∀ s e t, Inv s → assumed s e → guard s e → S.step s e t → Inv t)
    (needs : ∀ s e t, Inv s → assumed s e → S.step s e t → P t → guard s e) :
    (∀ s, Visited history t s → P s) ↔ ∀ entry ∈ history, guard entry.1 entry.2 := by
  have kept : ∀ s e t, Inv s → assumed s e ∧ guard s e → S.step s e t → Inv t := fun s e t inv both =>
    keep s e t inv both.1 both.2
  constructor
  · intro everywhere
    induction run with
    | start => simp
    | @next past s e t previous step ih =>
      obtain ⟨now, before⟩ := forall_mem_cons.mp met
      have earlier := ih before fun u visited => everywhere u <| Or.inr <| by
        rcases visited with rfl | ⟨label, member⟩
        · exact ⟨e, mem_cons_self⟩
        · exact ⟨label, mem_cons_of_mem _ member⟩
      have inv : Inv s := previous.invariant_of_guard (fun s e => assumed s e ∧ guard s e)
        (fun entry member => ⟨before entry member, earlier entry member⟩) base kept
      exact forall_mem_cons.mpr ⟨needs s e t inv now step (everywhere t (Or.inl rfl)), earlier⟩
  · intro guarded s visited
    exact holds s (run.visited_of_guard (fun s e => assumed s e ∧ guard s e)
      (fun entry member => ⟨met entry member, guarded entry member⟩) base kept visited)

/-- When a condition decides, step by step, whether a property survives,
the runs that have the property throughout are exactly those whose steps all
meet the condition. -/
theorem everywhere_iff (guard : State → Event → Prop) (Inv P : State → Prop) (run : Run S history t)
    (base : ∀ s, S.start s → Inv s) (first : ∀ s, S.start s → P s) (keep : ∀ s e t, Inv s → S.step s e t → Inv t)
    (exactly : ∀ s e t, Inv s → P s → S.step s e t → (P t ↔ guard s e)) :
    (∀ s, Visited history t s → P s) ↔ ∀ entry ∈ history, guard entry.1 entry.2 := by
  refine run.everywhere_iff_of_guard (fun _ _ => True) guard (fun s => Inv s ∧ P s) P (fun _ _ => trivial)
    (fun s initial => ⟨base s initial, first s initial⟩) (fun _ both => both.2) ?_ ?_
  · intro s e t both _ met step
    exact ⟨keep s e t both.1 step, (exactly s e t both.1 both.2 step).mpr met⟩
  · intro s e t both _ step now
    exact (exactly s e t both.1 both.2 step).mp now

end Run

/-- A system whose labels determine the step, where they are accepted. -/
def System.ofStep (start : State → Prop) (step : State → Event → Option State) : System State Event where
  start := start
  step s e t := step s e = some t

def exec (step : State → Event → Option State) : State → List Event → Option State
  | s, [] => some s
  | s, e :: rest => (step s e).bind fun t => exec step t rest

theorem Run.extend_exec {step : State → Event → Option State} {guard : State → Event → Prop}
    (sound : ∀ s e t, step s e = some t → S.step s e t ∧ guard s e) {events : List Event}
    {history : List (State × Event)} {s t : State} (run : Run S history s)
    (executed : exec step s events = some t) :
    ∃ later, Run S (later ++ history) t ∧ later.map Prod.snd = events.reverse ∧
      ∀ entry ∈ later, guard entry.1 entry.2 := by
  induction events generalizing history s with
  | nil =>
    cases some.inj executed
    exact ⟨[], run, rfl, by simp⟩
  | cons e rest ih =>
    obtain ⟨u, first, tail⟩ := bind_eq_some_iff.mp executed
    obtain ⟨valid, met⟩ := sound _ _ _ first
    obtain ⟨later, whole, labels, guarded⟩ := ih (.next run valid) tail
    refine ⟨later ++ [(s, e)], ?_, ?_, ?_⟩
    · simpa only [append_assoc, singleton_append] using whole
    · simp [labels]
    · intro entry member
      rcases mem_append.mp member with new | last
      · exact guarded entry new
      · cases mem_singleton.mp last
        exact met

/-- A list of accepted events is a run, and what can be evaluated along the way
and in the state it leads to holds there. -/
theorem Run.of_exec_guarded (S : System State Event) {start : State → Prop} {step : State → Event → Option State}
    (guard : State → Event → Bool) (computed : S = .ofStep start step) {s : State}
    (events : List Event) (initial : S.start s) (check : State → Prop) [DecidablePred check]
    (executed : (exec (fun s e => if guard s e then step s e else none) s events).any (fun t => check t) = true) :
    ∃ history t, Run S history t ∧ history.map Prod.snd = events.reverse ∧
      (∀ entry ∈ history, guard entry.1 entry.2 = true) ∧ check t := by
  obtain ⟨t, reached, holds⟩ := (any_eq_true _ _).mp executed
  have allowed : ∀ s e t, (if guard s e then step s e else none) = some t → S.step s e t ∧ guard s e = true := by
    intro s e t accepted
    split at accepted
    · rename_i met
      exact ⟨computed ▸ accepted, met⟩
    · simp at accepted
  obtain ⟨history, run, labels, guarded⟩ :=
    (Run.start initial).extend_exec allowed reached
  rw [append_nil] at run
  exact ⟨history, t, run, labels, guarded, of_decide_eq_true holds⟩

theorem Run.of_exec (S : System State Event) {start : State → Prop} {step : State → Event → Option State}
    (computed : S = .ofStep start step) {s : State} (events : List Event) (initial : S.start s)
    (check : State → Prop) [DecidablePred check]
    (executed : (exec step s events).any (fun t => check t) = true) :
    ∃ history t, Run S history t ∧ history.map Prod.snd = events.reverse ∧ check t := by
  obtain ⟨history, t, run, labels, _, holds⟩ :=
    of_exec_guarded S (fun _ _ => true) computed events initial check (by simpa using executed)
  exact ⟨history, t, run, labels, holds⟩

end Transition
