import Mathlib.Data.Nat.Bitwise
import Mathlib.Data.List.Nodup
import Mathlib.Data.List.Induction

namespace Qtng.Noise

def kCounterWordBits : Nat := 64
def kCounterBitsTotal : Nat := 8192
def kCounterWords : Nat := kCounterBitsTotal / kCounterWordBits
def kCounterWindowSize : Nat := kCounterBitsTotal - kCounterWordBits
def kRejectAfterMessages : Nat := (2 ^ 64 - 1) - kCounterWindowSize - 1

def wordOf (index : Nat) : Fin kCounterWords :=
  ⟨index &&& (kCounterWords - 1), Nat.lt_of_le_of_lt Nat.and_le_right (by decide)⟩

/-- The bitmap goes round: a counter has its bit in the word that its quotient by the
word size stands for. -/
structure ReplayCounter where
  counter : Nat := 0
  backtrack : Vector (BitVec 64) kCounterWords := .replicate _ 0

namespace ReplayCounter

def exhausted (r : ReplayCounter) : Bool := r.counter ≥ (kRejectAfterMessages + 1) % 2 ^ 64

def clearWords (indexCurrent : Nat) : Nat → Vector (BitVec 64) kCounterWords → Vector (BitVec 64) kCounterWords
  | 0, words => words
  | rounds + 1, words =>
    let words := clearWords indexCurrent rounds words
    words.set (wordOf ((rounds + 1 + indexCurrent) % 2 ^ 64)) 0

def advance (r : ReplayCounter) (theirCounter : Nat) : ReplayCounter :=
  let indexCurrent := r.counter / kCounterWordBits
  let top := min (theirCounter / kCounterWordBits - indexCurrent) kCounterWords
  { counter := theirCounter, backtrack := clearWords indexCurrent top r.backtrack }

def bitOf (theirCounter : Nat) : BitVec 64 := 1#64 <<< (theirCounter % kCounterWordBits)

def mark (r : ReplayCounter) (theirCounter : Nat) : ReplayCounter × Bool :=
  let word := wordOf (theirCounter / kCounterWordBits)
  let bit := bitOf theirCounter
  if r.backtrack[word] &&& bit ≠ 0 then (r, false)
  else ({ r with backtrack := r.backtrack.set word (r.backtrack[word] ||| bit) }, true)

/-- The nonce of a packet starts from 0, and a counter of 0 is no packet's. -/
def validate (r : ReplayCounter) (theirCounter : Nat) : ReplayCounter × Bool :=
  if r.exhausted ∨ theirCounter ≥ kRejectAfterMessages then (r, false)
  else
    let theirCounter := (theirCounter + 1) % 2 ^ 64
    if (kCounterWindowSize + theirCounter) % 2 ^ 64 < r.counter then (r, false)
    else (if theirCounter > r.counter then r.advance theirCounter else r).mark theirCounter

/-- The calls from a reset state, with the nonces that were accepted. -/
def run (calls : List Nat) : ReplayCounter × List Nat :=
  calls.foldl
    (fun (r, accepted) n =>
      let (r, ok) := r.validate n
      (r, if ok then n :: accepted else accepted)) ({}, [])

def marked (words : Vector (BitVec 64) kCounterWords) (c : Nat) : Bool :=
  (words[wordOf (c / kCounterWordBits)]).getLsbD (c % kCounterWordBits)

end ReplayCounter

theorem val_wordOf (index : Nat) : (wordOf index).val = index % 128 := Nat.and_two_pow_sub_one_eq_mod index 7

theorem wordOf_eq_iff {i j : Nat} : wordOf i = wordOf j ↔ i % 128 = j % 128 := by
  rw [← Fin.val_inj, val_wordOf, val_wordOf]

namespace ReplayCounter

theorem getLsbD_bitOf (c i : Nat) : (bitOf c).getLsbD i = decide (i = c % 64) := by
  have small : c % 64 < 64 := Nat.mod_lt _ (by decide)
  unfold bitOf kCounterWordBits
  rw [BitVec.getLsbD_shiftLeft, BitVec.getLsbD_one]
  by_cases same : i = c % 64
  · simp [same, small]
  · have apart : ¬ (c % 64 ≤ i ∧ i - c % 64 = 0) := by omega
    simp only [same, decide_false]
    grind

variable (words : Vector (BitVec 64) kCounterWords)

theorem and_bitOf_ne_zero_iff (c : Nat) :
    words[wordOf (c / kCounterWordBits)] &&& bitOf c ≠ 0 ↔ marked words c = true := by
  unfold marked
  generalize words[wordOf (c / kCounterWordBits)] = word
  constructor
  · intro some
    by_contra unset
    refine some (BitVec.eq_of_getLsbD_eq fun i bound => ?_)
    rw [BitVec.getLsbD_and, getLsbD_bitOf]
    by_cases same : i = c % 64
    · subst same
      simpa [kCounterWordBits] using unset
    · simp [same]
  · intro set zero
    have bit : (word &&& bitOf c).getLsbD (c % 64) = true := by
      rw [BitVec.getLsbD_and, getLsbD_bitOf]
      simpa [kCounterWordBits] using set
    simp [zero] at bit

theorem getElem_set (i j : Nat) (word : BitVec 64) :
    (words.set (wordOf i) word)[wordOf j] = if i % 128 = j % 128 then word else words[wordOf j] := by
  simp [Vector.getElem_set, val_wordOf]

theorem marked_set (c d : Nat) :
    marked (words.set (wordOf (c / kCounterWordBits)) (words[wordOf (c / kCounterWordBits)] ||| bitOf c)) d = true ↔
      marked words d = true ∨ c / 64 % 128 = d / 64 % 128 ∧ d % 64 = c % 64 := by
  unfold marked
  rw [getElem_set]
  by_cases same : c / kCounterWordBits % 128 = d / kCounterWordBits % 128
  · have word : words[wordOf (c / kCounterWordBits)] = words[wordOf (d / kCounterWordBits)] := by
      simp only [wordOf_eq_iff.mpr same]
    rw [if_pos same, BitVec.getLsbD_or, getLsbD_bitOf, word, Bool.or_eq_true, decide_eq_true_iff]
    exact or_congr_right (and_iff_right same).symm
  · rw [if_neg same]
    exact (or_iff_left fun both => same both.1).symm

theorem clearWords_cleared {indexCurrent rounds i j : Nat} (low : 1 ≤ i)
    (high : i ≤ rounds) (same : (i + indexCurrent) % 128 = j % 128) :
    (clearWords indexCurrent rounds words)[wordOf j] = 0 := by
  induction rounds with
  | zero => omega
  | succ rounds ih =>
    unfold clearWords
    rw [getElem_set]
    split
    · rfl
    · rename_i other
      have lower : i ≤ rounds := by
        by_contra above
        have last : i = rounds + 1 := by omega
        subst last
        omega
      exact ih lower

theorem clearWords_kept {indexCurrent rounds j : Nat}
    (other : ∀ i, 1 ≤ i → i ≤ rounds → (i + indexCurrent) % 128 ≠ j % 128) :
    (clearWords indexCurrent rounds words)[wordOf j] = words[wordOf j] := by
  induction rounds with
  | zero => rfl
  | succ rounds ih =>
    have last := other (rounds + 1) (by omega) le_rfl
    unfold clearWords
    rw [getElem_set, if_neg (by omega)]
    exact ih fun i low high => other i low (by omega)

/-- The counters whose word is not in use again for a later one. -/
def InWindow (counter c : Nat) : Prop := c / 64 ≤ counter / 64 ∧ counter / 64 < c / 64 + 128

/-- What the state remembers of the nonces that were accepted: the largest one, and
the bits of all that are in the window. -/
structure Remembers (r : ReplayCounter) (accepted : List Nat) : Prop where
  distinct : accepted.Nodup
  below : ∀ n ∈ accepted, n < kRejectAfterMessages ∧ n + 1 ≤ r.counter
  largest : r.counter = 0 ∨ ∃ n ∈ accepted, n + 1 = r.counter
  marks : ∀ c, InWindow r.counter c → (marked r.backtrack c = true ↔ ∃ n ∈ accepted, n + 1 = c)

theorem kRejectAfterMessages_eq : kRejectAfterMessages = 2 ^ 64 - 8130 := by decide

theorem Remembers.new : Remembers {} [] where
  distinct := .nil
  below := by simp
  largest := Or.inl rfl
  marks c _ := by simp [marked]

variable {r : ReplayCounter} {accepted : List Nat}

theorem Remembers.small (inv : Remembers r accepted) : r.counter ≤ kRejectAfterMessages := by
  rcases inv.largest with zero | ⟨n, member, top⟩
  · omega
  · have := (inv.below n member).1
    omega

/-- The state after the window has been moved for a counter that is not yet accepted. -/
structure Moved (r : ReplayCounter) (accepted : List Nat) (c : Nat) : Prop where
  reach : c ≤ r.counter
  below : ∀ n ∈ accepted, n + 1 ≤ r.counter
  marks : ∀ d, InWindow r.counter d → (marked r.backtrack d = true ↔ ∃ n ∈ accepted, n + 1 = d)

theorem Remembers.advance (inv : Remembers r accepted) {c : Nat} (beyond : c > r.counter) :
    Moved (r.advance c) accepted c := by
  have bounds := inv.below
  refine ⟨le_rfl, ?_, ?_⟩
  · intro n member
    exact (bounds n member).2.trans beyond.le
  rintro d ⟨low, high⟩
  change d / 64 ≤ c / 64 at low
  change c / 64 < d / 64 + 128 at high
  have moved : (r.advance c).backtrack =
      clearWords (r.counter / 64) (min (c / 64 - r.counter / 64) 128) r.backtrack := rfl
  by_cases old : d / 64 ≤ r.counter / 64
  · have kept : (r.advance c).backtrack[wordOf (d / 64)] = r.backtrack[wordOf (d / 64)] := by
      rw [moved]
      refine clearWords_kept r.backtrack ?_
      intro i low high
      omega
    have same : marked (r.advance c).backtrack d = marked r.backtrack d :=
      congrArg (fun word : BitVec 64 => word.getLsbD (d % 64)) kept
    rw [same]
    exact inv.marks d ⟨old, by omega⟩
  · have cleared : (r.advance c).backtrack[wordOf (d / 64)] = 0 := by
      rw [moved]
      exact clearWords_cleared r.backtrack (i := (d / 64 - r.counter / 64 - 1) % 128 + 1) (by omega) (by omega)
        (by omega)
    have unmarked : marked (r.advance c).backtrack d = false := by
      have bits := congrArg (fun word : BitVec 64 => word.getLsbD (d % 64)) cleared
      exact bits.trans (by simp)
    constructor
    · intro set
      simp [unmarked] at set
    · rintro ⟨n, member, rfl⟩
      have := (bounds n member).2
      omega

theorem Remembers.move (inv : Remembers r accepted) (c : Nat) :
    Moved (if c > r.counter then r.advance c else r) accepted c := by
  split
  · exact inv.advance ‹_›
  · exact ⟨by omega, fun n member => (inv.below n member).2, inv.marks⟩

theorem Remembers.validate_eq (inv : Remembers r accepted) {n : Nat} (small : n < kRejectAfterMessages) :
    r.validate n =
      if kCounterWindowSize + (n + 1) < r.counter then (r, false)
      else (if n + 1 > r.counter then r.advance (n + 1) else r).mark (n + 1) := by
  have limit := kRejectAfterMessages_eq
  have window : kCounterWindowSize = 8128 := rfl
  have bound := inv.small
  have usable : r.exhausted = false := by
    simp only [exhausted, limit, decide_eq_false_iff_not]
    omega
  have next : (n + 1) % 2 ^ 64 = n + 1 := Nat.mod_eq_of_lt (by omega)
  have sum : (kCounterWindowSize + (n + 1)) % 2 ^ 64 = kCounterWindowSize + (n + 1) := Nat.mod_eq_of_lt (by omega)
  unfold ReplayCounter.validate
  rw [if_neg (by simp [usable, small])]
  simp only [next, sum]

theorem Moved.mark {n : Nat} (moved : Moved r accepted (n + 1)) (within : InWindow r.counter (n + 1)) :
    if n ∈ accepted then r.mark (n + 1) = (r, false)
    else (r.mark (n + 1)).2 = true ∧ (r.mark (n + 1)).1.counter = r.counter ∧
      ∀ d, InWindow r.counter d → (marked (r.mark (n + 1)).1.backtrack d = true ↔ ∃ m ∈ n :: accepted, m + 1 = d) := by
  have known : marked r.backtrack (n + 1) = true ↔ n ∈ accepted := by
    rw [moved.marks (n + 1) within]
    simp
  unfold ReplayCounter.mark
  dsimp only
  split
  · rename_i member
    rw [if_pos ((and_bitOf_ne_zero_iff ..).mpr (known.mpr member))]
  · rename_i fresh
    rw [if_neg fun set => fresh (known.mp ((and_bitOf_ne_zero_iff ..).mp set))]
    refine ⟨rfl, rfl, ?_⟩
    intro d inside
    have same : (n + 1) / 64 % 128 = d / 64 % 128 ∧ d % 64 = (n + 1) % 64 ↔ n + 1 = d := by
      obtain ⟨low, high⟩ := within
      obtain ⟨low', high'⟩ := inside
      omega
    rw [marked_set, moved.marks d inside, same]
    simp [or_comm]

/-- A nonce is accepted exactly if it is fresh and in the window, and the state then
remembers it. -/
theorem Remembers.validate (inv : Remembers r accepted) (n : Nat) :
    ((r.validate n).2 = true ↔
      n < kRejectAfterMessages ∧ n ∉ accepted ∧ ∀ m ∈ accepted, m + 1 ≤ n + 1 + kCounterWindowSize) ∧
    Remembers (r.validate n).1 (if (r.validate n).2 then n :: accepted else accepted) := by
  by_cases rejected : n ≥ kRejectAfterMessages
  · have refused : r.validate n = (r, false) := by
      unfold ReplayCounter.validate
      rw [if_pos (Or.inr rejected)]
    rw [refused]
    refine ⟨⟨by simp, fun ⟨small, _⟩ => ?_⟩, inv⟩
    omega
  have small : n < kRejectAfterMessages := by omega
  have window : kCounterWindowSize = 8128 := rfl
  rw [inv.validate_eq small]
  by_cases stale : kCounterWindowSize + (n + 1) < r.counter
  · rw [if_pos stale]
    refine ⟨⟨by simp, fun ⟨_, _, near⟩ => ?_⟩, inv⟩
    rcases inv.largest with zero | ⟨m, member, top⟩
    · omega
    · have := near m member
      omega
  rw [if_neg stale]
  have moved := inv.move (n + 1)
  have top : (if n + 1 > r.counter then r.advance (n + 1) else r).counter = max r.counter (n + 1) := by
    split
    · rename_i beyond
      exact (max_eq_right beyond.le).symm
    · exact (max_eq_left (by omega)).symm
  generalize (if n + 1 > r.counter then r.advance (n + 1) else r) = s at moved top
  have near : ∀ m ∈ accepted, m + 1 ≤ n + 1 + kCounterWindowSize := by
    intro m member
    have := (inv.below m member).2
    omega
  have within : InWindow s.counter (n + 1) := by
    unfold InWindow
    omega
  have marked := moved.mark within
  by_cases member : n ∈ accepted
  · rw [if_pos member] at marked
    rw [marked]
    refine ⟨by simp [member], inv.distinct, ?_, ?_, moved.marks⟩
    · exact fun m old => ⟨(inv.below m old).1, moved.below m old⟩
    · have low := (inv.below n member).2
      rw [top, max_eq_left low]
      exact inv.largest
  · rw [if_neg member] at marked
    obtain ⟨accepts, same, marks⟩ := marked
    rw [accepts]
    refine ⟨⟨fun _ => ⟨small, member, near⟩, fun _ => rfl⟩, inv.distinct.cons member, ?_, ?_, ?_⟩
    · intro m accepted
      rw [same]
      rcases List.mem_cons.mp accepted with rfl | old
      · exact ⟨small, moved.reach⟩
      · exact ⟨(inv.below m old).1, moved.below m old⟩
    · rw [same, top]
      rcases le_total r.counter (n + 1) with low | high
      · exact Or.inr ⟨n, List.mem_cons_self, (max_eq_right low).symm⟩
      · rw [max_eq_left high]
        exact inv.largest.imp_right fun ⟨m, old, equal⟩ => ⟨m, List.mem_cons_of_mem _ old, equal⟩
    · rw [same]
      exact marks

theorem remembers_run (calls : List Nat) : Remembers (run calls).1 (run calls).2 := by
  induction calls using List.reverseRecOn with
  | nil => exact .new
  | append_singleton calls n ih =>
    simp only [run, List.foldl_append, List.foldl_cons, List.foldl_nil]
    exact (ih.validate n).2

/-- At any point of any sequence of calls no nonce has been accepted twice, and a nonce
is accepted exactly if it is below the limit, has not been accepted before and is not
behind the window of the largest accepted one. -/
theorem replay_window (calls : List Nat) :
    (run calls).2.Nodup ∧ ∀ n, ((run calls).1.validate n).2 = true ↔
      n < kRejectAfterMessages ∧ n ∉ (run calls).2 ∧
        ∀ m ∈ (run calls).2, m + 1 ≤ n + 1 + kCounterWindowSize := by
  have inv := remembers_run calls
  exact ⟨inv.distinct, fun n => (inv.validate n).1⟩

end ReplayCounter

end Qtng.Noise
