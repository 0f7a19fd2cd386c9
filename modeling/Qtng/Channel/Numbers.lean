import Qtng.Channel.DataChannel
import Qtng.General.Run

namespace Qtng

open Transition List Option

/-- The two classes that number what they carry in the same way. -/
inductive Numbered
  | dataChannel
  | multiStream
deriving DecidableEq

namespace Numbered

def reserved : Numbered → List UInt32
  | .dataChannel => [commandChannelNumber, dataChannelNumber]
  | .multiStream => [0]

def first : Numbered → DataChannelPole → UInt32
  | .dataChannel, pole => pole.first
  | .multiStream, .negativePole => 0xffffffff
  | .multiStream, .positivePole => 1

end Numbered

/-- One end: the next number, the keys of subChannels or slaves, and how often it was asked for a
number. -/
structure NumberTable where
  nextNumber : UInt32
  registered : List UInt32 := []
  made : Nat := 0
deriving DecidableEq

inductive NumberEvent
  | make
  | close (number : UInt32)
  | makeRequest (number : UInt32)
deriving DecidableEq

namespace NumberTable

/-- The peer's request for a number in use ends the connection. -/
def step (pole : DataChannelPole) (s : NumberTable) : NumberEvent → Option NumberTable
  | .make => some ⟨pole.after s.nextNumber, s.nextNumber :: s.registered, s.made + 1⟩
  | .close number => some { s with registered := s.registered.filter (· != number) }
  | .makeRequest number =>
    if number ∈ s.registered then none else some { s with registered := number :: s.registered }

def Fresh (kind : Numbered) (s : NumberTable) : Prop :=
  s.nextNumber ∉ kind.reserved ∧ s.nextNumber ∉ s.registered

/-- How far a number is from the end of the range at which a pole begins. -/
def place : DataChannelPole → UInt32 → Nat
  | .positivePole, number => number.toNat
  | .negativePole, number => 2 ^ 32 - 1 - number.toNat

/-- No more than half of the numbers are given, and the peer asks for those of the other half. -/
def orderly (pole : DataChannelPole) (s : NumberTable) : NumberEvent → Bool
  | .make => s.made + 3 < 2 ^ 31
  | .close _ => true
  | .makeRequest number => 2 ^ 31 ≤ place pole number

end NumberTable

def numberSystem (kind : Numbered) (pole : DataChannelPole) : System NumberTable NumberEvent :=
  .ofStep (· = ⟨kind.first pole, [], 0⟩) (NumberTable.step pole)

namespace NumberTable

variable {kind : Numbered} {pole : DataChannelPole} {s t : NumberTable}

theorem place_lt (pole : DataChannelPole) (number : UInt32) : place pole number < 2 ^ 32 := by
  have bound := number.toNat_lt
  cases pole
  · exact bound
  · show 2 ^ 32 - 1 - number.toNat < 2 ^ 32
    omega

theorem place_after (pole : DataChannelPole) (number : UInt32) :
    place pole (pole.after number) = (place pole number + 1) % 2 ^ 32 := by
  have bound := number.toNat_lt
  cases pole
  · simp only [place, DataChannelPole.after, UInt32.toNat_add]
    rfl
  · simp only [place, DataChannelPole.after, UInt32.toNat_sub]
    have one : (1 : UInt32).toNat = 1 := rfl
    omega

theorem place_first_le (kind : Numbered) (pole : DataChannelPole) : place pole (kind.first pole) ≤ 2 := by
  cases kind <;> cases pole <;> decide

theorem place_reserved (pole : DataChannelPole) {number : UInt32} (member : number ∈ kind.reserved) :
    place pole number < place pole (kind.first pole) ∨ 2 ^ 31 ≤ place pole number := by
  cases kind with
  | dataChannel =>
    simp only [Numbered.reserved, mem_cons, not_mem_nil, or_false] at member
    rcases member with rfl | rfl <;> cases pole <;> decide
  | multiStream =>
    obtain rfl := mem_singleton.mp member
    cases pole <;> decide

theorem place_nextNumber {history : List (NumberTable × NumberEvent)} (run : Run (numberSystem kind pole) history t) :
    place pole t.nextNumber = (place pole (kind.first pole) + t.made) % 2 ^ 32 := by
  induction run with
  | start first =>
    obtain rfl := first
    exact (Nat.mod_eq_of_lt (place_lt _ _)).symm
  | @next _ _ e _ _ stepped inv =>
    cases e with
    | make =>
      cases stepped
      rw [place_after, inv, Nat.mod_add_mod, Nat.add_assoc]
    | close number =>
      cases stepped
      exact inv
    | makeRequest number =>
      cases some.inj (ite_none_left_eq_some.mp stepped).2
      exact inv

/-- The numbers of an end's own half that are in use were given before the next one. -/
structure Apart (kind : Numbered) (pole : DataChannelPole) (s : NumberTable) : Prop where
  next : place pole s.nextNumber = place pole (kind.first pole) + s.made
  few : s.made + 3 ≤ 2 ^ 31
  own : ∀ number ∈ s.registered, place pole number < 2 ^ 31 → place pole number < place pole s.nextNumber

theorem Apart.start (kind : Numbered) (pole : DataChannelPole) : Apart kind pole ⟨kind.first pole, [], 0⟩ :=
  ⟨rfl, by norm_num, by simp⟩

theorem Apart.step {e : NumberEvent} (apart : Apart kind pole s) (guarded : orderly pole s e = true)
    (stepped : s.step pole e = some t) : Apart kind pole t := by
  obtain ⟨next, few, own⟩ := apart
  have low := place_first_le kind pole
  cases e with
  | make =>
    cases stepped
    have room : s.made + 3 < 2 ^ 31 := of_decide_eq_true guarded
    have moved : place pole (pole.after s.nextNumber) = place pole s.nextNumber + 1 := by
      rw [place_after]
      exact Nat.mod_eq_of_lt (by omega)
    refine ⟨by dsimp only; omega, room, fun number member half => ?_⟩
    rcases mem_cons.mp member with rfl | old
    · dsimp only
      omega
    · have before := own number old half
      dsimp only
      omega
  | close number =>
    cases stepped
    exact ⟨next, few, fun other member half => own other (mem_filter.mp member).1 half⟩
  | makeRequest number =>
    cases some.inj (ite_none_left_eq_some.mp stepped).2
    refine ⟨next, few, fun other member half => ?_⟩
    rcases mem_cons.mp member with rfl | old
    · have far : 2 ^ 31 ≤ place pole other := of_decide_eq_true guarded
      omega
    · exact own other old half

theorem Apart.fresh (apart : Apart kind pole s) : s.Fresh kind := by
  obtain ⟨next, few, own⟩ := apart
  have low := place_first_le kind pole
  constructor
  · intro member
    rcases place_reserved pole member with before | far
    · omega
    · omega
  · intro member
    exact absurd (own _ member (by omega)) (lt_irrefl _)

/-- The numbers go round in every run. In the runs that keep to their half of the numbers, the next
one is fresh at any time. -/
theorem number_fresh {history : List (NumberTable × NumberEvent)} (run : Run (numberSystem kind pole) history t) :
    place pole t.nextNumber = (place pole (kind.first pole) + t.made) % 2 ^ 32 ∧
      ((∀ entry ∈ history, orderly pole entry.1 entry.2 = true) → ∀ s, Visited history t s → s.Fresh kind) := by
  refine ⟨place_nextNumber run, fun guarded s visited => ?_⟩
  have apart : Apart kind pole s := by
    refine run.visited_of_guard (fun s e => orderly pole s e = true) guarded ?_ ?_ visited
    · rintro _ rfl
      exact .start kind pole
    · intro _ _ _ apart met stepped
      exact apart.step met stepped
  exact apart.fresh

theorem number_fresh_busy : ∃ history t, Run (numberSystem .dataChannel .positivePole) history t ∧
    history.map Prod.snd = [.makeRequest 0xffffffff, .close 2, .make, .make] ∧ t.Fresh .dataChannel := by
  obtain ⟨history, t, run, labels, guarded, -⟩ :=
    Run.of_exec_guarded (numberSystem .dataChannel .positivePole) (orderly .positivePole) rfl
      [.make, .make, .close 2, .makeRequest 0xffffffff] rfl (fun _ => True) (by decide)
  exact ⟨history, t, run, labels, (number_fresh run).2 guarded t (.inl rfl)⟩

/-- Channels that are made and closed at once. -/
theorem exists_made (kind : Numbered) (pole : DataChannelPole) (k : Nat) :
    ∃ history t, Run (numberSystem kind pole) history t ∧ t.made = k ∧ t.registered = [] := by
  induction k with
  | zero => exact ⟨[], _, .start rfl, rfl, rfl⟩
  | succ k ih =>
    obtain ⟨history, t, run, count, empty⟩ := ih
    have made : Run (numberSystem kind pole) ((t, .make) :: history)
        ⟨pole.after t.nextNumber, t.nextNumber :: t.registered, t.made + 1⟩ := run.next rfl
    have closed : NumberTable.step pole ⟨pole.after t.nextNumber, t.nextNumber :: t.registered, t.made + 1⟩
        (.close t.nextNumber) = some ⟨pole.after t.nextNumber, [], t.made + 1⟩ := by
      simp [NumberTable.step, empty]
    exact ⟨_, _, made.next closed, congrArg (· + 1) count, rfl⟩

/-- The peer has asked for the number that comes next; and without any channel in use, the number of
the command channel comes next after 4294967294 calls. -/
theorem number_taken :
    (∃ history t, Run (numberSystem .dataChannel .positivePole) history t ∧
      history.map Prod.snd = [.makeRequest 2] ∧ t.nextNumber ∈ t.registered) ∧
    ∃ history t, Run (numberSystem .dataChannel .positivePole) history t ∧ t.registered = [] ∧
      t.nextNumber = commandChannelNumber := by
  refine ⟨Run.of_exec (numberSystem .dataChannel .positivePole) rfl [.makeRequest 2] rfl
    (fun t => t.nextNumber ∈ t.registered) (by decide), ?_⟩
  obtain ⟨history, t, run, count, empty⟩ := exists_made .dataChannel .positivePole (2 ^ 32 - 2)
  refine ⟨history, t, run, empty, UInt32.toNat_inj.mp ?_⟩
  have round := place_nextNumber run
  rw [count] at round
  exact round

end NumberTable

end Qtng
