import Mathlib

/-- A reader takes a value from the front of a text, or fails. -/
def Reader (σ ε α : Type) : Type := List σ → Except ε (α × List σ)

namespace Reader

open List

variable {σ ε α β : Type}
variable {a : α} {text rest first : List σ} {e : ε} {n : Nat}

instance : Monad (Reader σ ε) where
  pure a := fun text => .ok (a, text)
  bind r next := fun text =>
    match r text with
    | .error e => .error e
    | .ok (a, rest) => next a rest

def fail (e : ε) : Reader σ ε α := fun _ => .error e

def take (e : ε) (n : Nat) : Reader σ ε (List σ) := fun text =>
  if n ≤ text.length then .ok (text.take n, text.drop n) else .error e

theorem pure_apply (a : α) (text : List σ) : (pure a : Reader σ ε α) text = .ok (a, text) := rfl

variable {next : α → Reader σ ε β} {r : Reader σ ε α}

theorem bind_ok (first : r text = .ok (a, rest)) : (r >>= next) text = next a rest := by
  change (match r text with | .error e => _ | .ok (a, rest) => next a rest) = _
  rw [first]

theorem bind_error (first : r text = .error e) :
    (r >>= next) text = .error e := by
  change (match r text with | .error e => _ | .ok (a, rest) => next a rest) = _
  rw [first]

theorem bind_eq_ok {b : β} :
    (r >>= next) text = .ok (b, rest) ↔ ∃ a mid, r text = .ok (a, mid) ∧ next a mid = .ok (b, rest) := by
  cases given : r text with
  | error e =>
    rw [bind_error given]
    simp
  | ok result =>
    obtain ⟨a, mid⟩ := result
    rw [bind_ok given]
    simp

theorem bind_assoc_apply {γ : Type} (r : Reader σ ε α) (next : α → Reader σ ε β) (last : β → Reader σ ε γ) :
    r >>= next >>= last = r >>= fun a => next a >>= last := by
  funext text
  cases given : r text with
  | error e => rw [bind_error given, bind_error (bind_error given)]
  | ok result =>
    obtain ⟨a, rest⟩ := result
    rw [bind_ok given]
    change (match (r >>= next) text with | .error e => _ | .ok (b, rest) => last b rest) = _
    rw [bind_ok given]
    rfl

instance : LawfulMonad (Reader σ ε) :=
  .mk' (Reader σ ε)
    (fun r => funext (fun text => by
      change (r >>= fun a => pure a) text = r text
      cases given : r text with
      | error e => rw [bind_error given]
      | ok result => rw [bind_ok given, pure_apply]))
    (fun _ _ => rfl) bind_assoc_apply

theorem take_eq_ok {front : List σ} :
    take e n text = .ok (front, rest) ↔ text = front ++ rest ∧ front.length = n := by
  unfold take
  split_ifs with enough
  · rw [Except.ok.injEq, Prod.mk.injEq]
    constructor
    · rintro ⟨rfl, rfl⟩
      exact ⟨(take_append_drop n text).symm, by simpa using enough⟩
    · rintro ⟨rfl, rfl⟩
      simp
  · simp only [false_iff]
    rintro ⟨rfl, rfl⟩
    simp at enough

/-- What a reader makes of a text: it stops behind it or refuses it, and it refuses every text that
ends before it does. -/
structure Meets (r : Reader σ ε α) (text : List σ) (outcome : Except ε α) : Prop where
  whole : ∀ rest, r (text ++ rest) = outcome.map (fun a => (a, rest))
  cut : ∀ part, part <+: text → part ≠ text → ∃ e, r part = .error e

theorem Meets.ok (meets : Meets r text (.ok a)) (rest : List σ) :
    r (text ++ rest) = .ok (a, rest) := meets.whole rest

theorem meets_pure (a : α) : Meets (pure a : Reader σ ε α) [] (.ok a) :=
  ⟨fun _ => rfl, fun _ start proper => absurd (prefix_nil.mp start) proper⟩

theorem meets_fail (e : ε) : Meets (fail e : Reader σ ε α) [] (.error e) :=
  ⟨fun _ => rfl, fun _ start proper => absurd (prefix_nil.mp start) proper⟩

theorem meets_take (e : ε) (text : List σ) : Meets (take e text.length) text (.ok text) := by
  refine ⟨fun rest => take_eq_ok.mpr ⟨rfl, rfl⟩, fun part start proper => ⟨e, if_neg (fun enough => proper ?_)⟩⟩
  exact start.eq_of_length_le enough

/-- A text that ends before another two do ends before the first or in the second one. -/
theorem prefix_append_proper {part second : List σ} (start : part <+: first ++ second)
    (proper : part ≠ first ++ second) :
    (part <+: first ∧ part ≠ first) ∨ ∃ more, part = first ++ more ∧ more <+: second ∧ more ≠ second := by
  rcases prefix_or_prefix_of_prefix start (prefix_append first second) with shorter | ⟨more, rfl⟩
  · by_cases same : part = first
    · subst same
      refine .inr ⟨[], by simp, nil_prefix, ?_⟩
      rintro rfl
      simp at proper
    · exact .inl ⟨shorter, same⟩
  · exact .inr ⟨more, rfl, (prefix_append_right_inj first).mp start, by rintro rfl; exact proper rfl⟩

theorem Meets.bind {second : List σ}
    {outcome : Except ε β} (meets : Meets r first (.ok a)) (rest : Meets (next a) second outcome) :
    Meets (r >>= next) (first ++ second) outcome := by
  refine ⟨fun behind => ?_, fun part start proper => ?_⟩
  · rw [append_assoc, bind_ok (meets.ok _)]
    exact rest.whole behind
  · rcases prefix_append_proper start proper with ⟨shorter, different⟩ | ⟨more, rfl, start, proper⟩
    · obtain ⟨e, failed⟩ := meets.cut part shorter different
      exact ⟨e, bind_error failed⟩
    · rw [bind_ok (meets.ok more)]
      exact rest.cut more start proper

theorem Meets.map (meets : Meets r text (.ok a)) (f : α → β) :
    Meets (r >>= fun x => pure (f x)) text (.ok (f a)) := by
  have both : Meets (r >>= fun x => pure (f x)) (text ++ []) (.ok (f a)) := meets.bind (meets_pure (f a))
  rwa [append_nil] at both

theorem Meets.bind_refused
    (meets : Meets r first (.error e)) (second : List σ) : Meets (r >>= next) (first ++ second) (.error e) := by
  refine ⟨fun behind => ?_, fun part start proper => ?_⟩
  · rw [append_assoc, bind_error (meets.whole _)]
    rfl
  · rcases prefix_append_proper start proper with ⟨shorter, different⟩ | ⟨more, rfl, -⟩
    · obtain ⟨e, failed⟩ := meets.cut part shorter different
      exact ⟨e, bind_error failed⟩
    · exact ⟨e, bind_error (meets.whole more)⟩

/-- A value is only read from at least that many symbols. -/
def Costs (r : Reader σ ε α) (a : α) (n : Nat) : Prop :=
  ∀ text rest, r text = .ok (a, rest) → n + rest.length ≤ text.length

theorem Costs.mono {m : Nat} (costs : Costs r a n) (le : m ≤ n) : Costs r a m :=
  fun text rest read => (Nat.add_le_add_right le rest.length).trans (costs text rest read)

theorem Costs.ite {c : Prop} [Decidable c] {s : Reader σ ε α} (yes : c → Costs r a n)
    (no : ¬ c → Costs s a n) : Costs (if c then r else s) a n := by
  split
  · rename_i given
    exact yes given
  · rename_i other
    exact no other

theorem costs_fail (e : ε) (a : α) (n : Nat) : Costs (fail e : Reader σ ε α) a n := by
  intro text rest read
  cases read

end Reader
