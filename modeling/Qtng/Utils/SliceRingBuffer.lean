import Qtng.General.BigEndian
import Qtng.General.RingMemory

namespace Qtng.Utils

open BigEndian RingMemory List

/-- The unit of a mapping for what sysconf says about the page size. -/
def initCapacityUnit (pageSize : Nat) : Nat := if pageSize = 0 then 4096 else pageSize

def roundUp (value align : Nat) : Nat := (value + align - 1) / align * align

/-- The loop of reserve: doubles until there is room. -/
def doubling : Nat → Nat → Nat → Nat
  | 0, _, newCap => newCap
  | rounds + 1, need, newCap => if newCap < need then doubling rounds need (newCap * 2) else newCap

/-- The two views of the same cells lie one behind the other; `head` and `tail` are offsets
from the first. -/
structure SliceRingBufferPrivate where
  capacity : Nat
  cells : Nat → UInt8
  head : Int
  tail : Int

namespace SliceRingBufferPrivate

def size (b : SliceRingBufferPrivate) : Nat := (b.tail - b.head).toNat

/-- The bytes at data()[0..size()). -/
def contents (b : SliceRingBufferPrivate) : Bytes := read b.capacity b.cells b.head b.size

def resetWindow (b : SliceRingBufferPrivate) : SliceRingBufferPrivate :=
  { b with head := (b.capacity * 2 / 2 : Nat), tail := (b.capacity * 2 / 2 : Nat) }

def new (pageSize cap : Nat) : SliceRingBufferPrivate :=
  let unit := initCapacityUnit pageSize
  resetWindow { capacity := if cap = 0 then unit else roundUp cap unit, cells := fun _ => 0, head := 0, tail := 0 }

/-- Whether a new mapping is `mapped` decides between growth and no change at all. -/
def reserve (pageSize : Nat) (mapped : Bool) (b : SliceRingBufferPrivate) (need : Nat) : SliceRingBufferPrivate :=
  if need ≤ b.capacity then b
  else
    let newCap := roundUp (doubling need need (if b.capacity = 0 then initCapacityUnit pageSize else b.capacity))
      (initCapacityUnit pageSize)
    if newCap = b.capacity then b
    else if mapped = false then b
    else
      let p : Int := ((newCap * 2 - b.size) / 2 : Nat)
      { capacity := newCap, cells := write newCap (fun _ => 0) p b.contents, head := p, tail := p + b.size }

def center (b : SliceRingBufferPrivate) : SliceRingBufferPrivate :=
  let newHead : Int := ((b.capacity * 2 - b.size) / 2 : Nat)
  { b with
    cells := if b.size ≠ 0 ∧ newHead ≠ b.head then write b.capacity b.cells newHead b.contents else b.cells
    head := newHead
    tail := newHead + b.size }

/-- What pushBack does before it copies the data to its tail. -/
def roomBack (pageSize : Nat) (mapped : Bool) (b : SliceRingBufferPrivate) (n : Nat) : SliceRingBufferPrivate :=
  let r := b.reserve pageSize mapped (b.size + n)
  if r.tail + n > r.capacity * 2 then r.center else r

def pushBack (pageSize : Nat) (mapped : Bool) (b : SliceRingBufferPrivate) (data : Bytes) : SliceRingBufferPrivate :=
  if data.length = 0 then b
  else
    let r := b.roomBack pageSize mapped data.length
    { r with cells := write r.capacity r.cells r.tail data, tail := r.tail + data.length }

/-- What pushFront does before it copies the data in front of its head. -/
def roomFront (pageSize : Nat) (mapped : Bool) (b : SliceRingBufferPrivate) (n : Nat) : SliceRingBufferPrivate :=
  let r := b.reserve pageSize mapped (b.size + n)
  if r.head - n < 0 then r.center else r

def pushFront (pageSize : Nat) (mapped : Bool) (b : SliceRingBufferPrivate) (data : Bytes) : SliceRingBufferPrivate :=
  if data.length = 0 then b
  else
    let r := b.roomFront pageSize mapped data.length
    { r with cells := write r.capacity r.cells (r.head - data.length) data, head := r.head - data.length }

def popFront (b : SliceRingBufferPrivate) (n : Nat) : SliceRingBufferPrivate :=
  let c := if n < b.size then n else b.size
  let r := { b with head := b.head + c }
  if r.head = r.tail then r.resetWindow else r

def popBack (b : SliceRingBufferPrivate) (n : Nat) : SliceRingBufferPrivate :=
  let c := if n < b.size then n else b.size
  let r := { b with tail := b.tail - c }
  if r.head = r.tail then r.resetWindow else r

def clear (b : SliceRingBufferPrivate) : SliceRingBufferPrivate := b.resetWindow

/-- The window lies in the two views and is not longer than one; an empty window is in
the middle. -/
structure Sound (b : SliceRingBufferPrivate) : Prop where
  positive : 0 < b.capacity
  low : 0 ≤ b.head
  ordered : b.head ≤ b.tail
  high : b.tail ≤ b.capacity * 2
  small : b.size ≤ b.capacity
  parked : b.head = b.tail → b.head = b.capacity

/-- None of the bytes at these offsets lies outside the two views or in a cell of the window. -/
def Clear (b : SliceRingBufferPrivate) (start : Int) (n : Nat) : Prop :=
  ∀ i < n, 0 ≤ start + i ∧ start + i < b.capacity * 2 ∧
    ∀ j < b.size, cell b.capacity (start + i) ≠ cell b.capacity (b.head + j)

variable {b : SliceRingBufferPrivate} {pageSize : Nat}

theorem length_contents (b : SliceRingBufferPrivate) : b.contents.length = b.size := length_read _ _ _ _

section Growth

theorem initCapacityUnit_pos (pageSize : Nat) : 0 < initCapacityUnit pageSize := by
  unfold initCapacityUnit
  split <;> omega

theorem le_roundUp (value : Nat) {align : Nat} (positive : 0 < align) : value ≤ roundUp value align := by
  have parts := Nat.div_add_mod (value + align - 1) align
  have rest := Nat.mod_lt (value + align - 1) positive
  rw [Nat.mul_comm] at parts
  unfold roundUp
  omega

theorem le_doubling {rounds need newCap : Nat} (enough : need ≤ newCap * 2 ^ rounds) :
    need ≤ doubling rounds need newCap := by
  induction rounds generalizing newCap with
  | zero => simpa [doubling] using enough
  | succ rounds ih =>
    unfold doubling
    split
    · exact ih (by rw [Nat.mul_assoc, ← Nat.pow_succ']; exact enough)
    · omega

theorem le_newCap (need : Nat) {start : Nat} (positive : 0 < start) (pageSize : Nat) :
    need ≤ roundUp (doubling need need start) (initCapacityUnit pageSize) := by
  have enough : need ≤ start * 2 ^ need :=
    calc need ≤ 2 ^ need := Nat.lt_two_pow_self.le
      _ ≤ start * 2 ^ need := Nat.le_mul_of_pos_left _ positive
  exact (le_doubling enough).trans (le_roundUp _ (initCapacityUnit_pos pageSize))

end Growth

section Moves

theorem sound_middle {capacity s : Nat} (cells : Nat → UInt8) (positive : 0 < capacity) (fits : s ≤ capacity) :
    Sound { capacity, cells, head := ((capacity * 2 - s) / 2 : Nat), tail := ((capacity * 2 - s) / 2 : Nat) + s } := by
  refine ⟨positive, ?_, ?_, ?_, ?_, ?_⟩
  all_goals simp only [size]
  all_goals omega

theorem size_resetWindow (b : SliceRingBufferPrivate) : b.resetWindow.size = 0 := by simp [size, resetWindow]

theorem contents_resetWindow (b : SliceRingBufferPrivate) : b.resetWindow.contents = [] := by
  rw [contents, size_resetWindow]
  rfl

theorem sound_resetWindow (b : SliceRingBufferPrivate) (positive : 0 < b.capacity) : b.resetWindow.Sound := by
  refine ⟨positive, ?_, ?_, ?_, ?_, ?_⟩
  all_goals simp only [size, resetWindow]
  all_goals omega

theorem size_center (b : SliceRingBufferPrivate) : b.center.size = b.size := by
  show (((b.capacity * 2 - b.size) / 2 : Nat) + (b.size : Int) - ((b.capacity * 2 - b.size) / 2 : Nat)).toNat = b.size
  omega

theorem Sound.center (sound : b.Sound) : b.center.Sound := sound_middle _ sound.positive sound.small

theorem Sound.contents_center (sound : b.Sound) : b.center.contents = b.contents := by
  rw [contents, size_center]
  simp only [SliceRingBufferPrivate.center]
  split_ifs with moved
  · conv_lhs => rw [← length_contents b]
    exact read_write (by rw [length_contents]; exact sound.small)
  · by_cases empty : b.size = 0
    · simp [contents, empty, RingMemory.read]
    · rw [not_and_not_right.mp moved empty, contents]

theorem Sound.reserve (sound : b.Sound) (need : Nat) (enough : b.size ≤ need) {mapped : Bool}
    (granted : need ≤ b.capacity ∨ mapped = true) :
    (b.reserve pageSize mapped need).Sound ∧ (b.reserve pageSize mapped need).contents = b.contents ∧
      need ≤ (b.reserve pageSize mapped need).capacity := by
  by_cases inside : need ≤ b.capacity
  · rw [SliceRingBufferPrivate.reserve, if_pos inside]
    exact ⟨sound, rfl, inside⟩
  · have start : 0 < if b.capacity = 0 then initCapacityUnit pageSize else b.capacity := by
      split <;> have := initCapacityUnit_pos pageSize <;> omega
    have room := le_newCap need start pageSize
    rw [granted.resolve_left inside, SliceRingBufferPrivate.reserve, if_neg inside]
    dsimp only
    rw [if_neg (by omega), if_neg (by simp)]
    refine ⟨sound_middle _ (by omega) (by omega), ?_, room⟩
    rw [contents]
    simp only [size, add_sub_cancel_left, Int.toNat_natCast]
    have again := @read_write _ _ (fun _ => 0) (((roundUp (doubling need need
      (if b.capacity = 0 then initCapacityUnit pageSize else b.capacity)) (initCapacityUnit pageSize) * 2 - b.size) / 2
        : Nat) : Int) b.contents ((length_contents b).trans_le (enough.trans room))
    rwa [length_contents] at again

end Moves

section Pushes

variable {n : Nat}
variable {data : Bytes}

variable (sound : b.Sound)
include sound

theorem Sound.tail_eq : b.tail = b.head + b.size := by
  have := sound.ordered
  simp only [size]
  omega

theorem Sound.roomBack {mapped : Bool} (granted : b.size + n ≤ b.capacity ∨ mapped = true) :
    (b.roomBack pageSize mapped n).Sound ∧ (b.roomBack pageSize mapped n).contents = b.contents ∧
      b.size + n ≤ (b.roomBack pageSize mapped n).capacity ∧
      (b.roomBack pageSize mapped n).tail + n ≤ (b.roomBack pageSize mapped n).capacity * 2 := by
  obtain ⟨grown, same, room⟩ := @Sound.reserve b pageSize sound (b.size + n) (by omega) mapped granted
  have kept : (b.reserve pageSize mapped (b.size + n)).size = b.size := by
    rw [← length_contents, same, length_contents]
  unfold SliceRingBufferPrivate.roomBack
  dsimp only
  split
  · refine ⟨grown.center, grown.contents_center.trans same, room, ?_⟩
    simp only [SliceRingBufferPrivate.center, kept]
    omega
  · exact ⟨grown, same, room, by omega⟩

theorem Sound.roomFront {mapped : Bool} (granted : b.size + n ≤ b.capacity ∨ mapped = true) :
    (b.roomFront pageSize mapped n).Sound ∧ (b.roomFront pageSize mapped n).contents = b.contents ∧
      b.size + n ≤ (b.roomFront pageSize mapped n).capacity ∧ 0 ≤ (b.roomFront pageSize mapped n).head - n := by
  obtain ⟨grown, same, room⟩ := @Sound.reserve b pageSize sound (b.size + n) (by omega) mapped granted
  have kept : (b.reserve pageSize mapped (b.size + n)).size = b.size := by
    rw [← length_contents, same, length_contents]
  unfold SliceRingBufferPrivate.roomFront
  dsimp only
  split
  · refine ⟨grown.center, grown.contents_center.trans same, room, ?_⟩
    simp only [SliceRingBufferPrivate.center, kept]
    omega
  · exact ⟨grown, same, room, by omega⟩

theorem Sound.clear_back (room : b.size + n ≤ b.capacity) (inside : b.tail + n ≤ b.capacity * 2) :
    b.Clear b.tail n := by
  have low := sound.low
  have tail := sound.tail_eq
  refine fun i few => ⟨by omega, by omega, fun j live => ?_⟩
  exact (cell_ne (by omega) (by omega)).symm

theorem Sound.clear_front (room : b.size + n ≤ b.capacity) (inside : 0 ≤ b.head - n) :
    b.Clear (b.head - n) n := by
  have high := sound.high
  have tail := sound.tail_eq
  refine fun i few => ⟨by omega, by omega, fun j live => ?_⟩
  exact cell_ne (by omega) (by omega)

theorem Sound.append (some : data ≠ []) (room : b.size + data.length ≤ b.capacity)
    (inside : b.tail + data.length ≤ b.capacity * 2) :
    Sound { b with cells := write b.capacity b.cells b.tail data, tail := b.tail + data.length } ∧
      contents { b with cells := write b.capacity b.cells b.tail data, tail := b.tail + data.length } =
        b.contents ++ data := by
  have filled := length_pos_of_ne_nil some
  have tail := sound.tail_eq
  obtain ⟨positive, low, ordered, high, small, parked⟩ := sound
  have longer : size { b with cells := write b.capacity b.cells b.tail data, tail := b.tail + data.length } =
      b.size + data.length := by
    simp only [size] at tail ⊢
    omega
  refine ⟨⟨positive, low, ?_, inside, longer ▸ room, ?_⟩, ?_⟩
  · show b.head ≤ b.tail + data.length
    omega
  · intro (empty : b.head = b.tail + data.length)
    omega
  · rw [contents, longer, read_add]
    refine congrArg₂ _ ?_ ?_
    · refine read_write_of_ne fun i few j live => ?_
      exact (Sound.clear_back ⟨positive, low, ordered, high, small, parked⟩ room inside i few).2.2 j live
    · show read b.capacity (write b.capacity b.cells b.tail data) (b.head + b.size) data.length = data
      rw [← tail]
      exact read_write (by omega)

theorem Sound.prepend (some : data ≠ []) (room : b.size + data.length ≤ b.capacity)
    (inside : 0 ≤ b.head - data.length) :
    Sound { b with cells := write b.capacity b.cells (b.head - data.length) data, head := b.head - data.length } ∧
      contents { b with cells := write b.capacity b.cells (b.head - data.length) data, head := b.head - data.length } =
        data ++ b.contents := by
  have filled := length_pos_of_ne_nil some
  have tail := sound.tail_eq
  obtain ⟨positive, low, ordered, high, small, parked⟩ := sound
  have longer : size { b with
      cells := write b.capacity b.cells (b.head - data.length) data, head := b.head - data.length } =
        data.length + b.size := by
    simp only [size] at tail ⊢
    omega
  have fits : data.length + b.size ≤ b.capacity := by omega
  refine ⟨⟨positive, inside, ?_, high, longer.trans_le fits, ?_⟩, ?_⟩
  · show b.head - data.length ≤ b.tail
    omega
  · intro (empty : b.head - data.length = b.tail)
    omega
  · rw [contents, longer, read_add]
    refine congrArg₂ _ (read_write ((Nat.le_add_right _ _).trans fits)) ?_
    show read b.capacity (write b.capacity b.cells (b.head - data.length) data) (b.head - data.length + data.length)
      b.size = b.contents
    rw [sub_add_cancel]
    refine read_write_of_ne fun i few j live => ?_
    exact (Sound.clear_front ⟨positive, low, ordered, high, small, parked⟩ room inside i few).2.2 j live

theorem Sound.pushBack {mapped : Bool} (granted : b.size + data.length ≤ b.capacity ∨ mapped = true) :
    (b.pushBack pageSize mapped data).Sound ∧ (b.pushBack pageSize mapped data).contents = b.contents ++ data ∧
      (b.roomBack pageSize mapped data.length).Clear (b.roomBack pageSize mapped data.length).tail data.length := by
  obtain ⟨ready, same, room, inside⟩ := @Sound.roomBack b pageSize data.length sound mapped granted
  rw [← length_contents, ← same, length_contents] at room
  refine and_assoc.mp ⟨?_, ready.clear_back room inside⟩
  by_cases nothing : data = []
  · simp [SliceRingBufferPrivate.pushBack, nothing, sound]
  · rw [SliceRingBufferPrivate.pushBack, if_neg (mt length_eq_zero_iff.mp nothing), ← same]
    exact ready.append nothing room inside

theorem Sound.pushFront {mapped : Bool}
    (granted : b.size + data.length ≤ b.capacity ∨ mapped = true) :
    (b.pushFront pageSize mapped data).Sound ∧ (b.pushFront pageSize mapped data).contents = data ++ b.contents ∧
      (b.roomFront pageSize mapped data.length).Clear
        ((b.roomFront pageSize mapped data.length).head - data.length) data.length := by
  obtain ⟨ready, same, room, inside⟩ := @Sound.roomFront b pageSize data.length sound mapped granted
  rw [← length_contents, ← same, length_contents] at room
  refine and_assoc.mp ⟨?_, ready.clear_front room inside⟩
  by_cases nothing : data = []
  · simp [SliceRingBufferPrivate.pushFront, nothing, sound]
  · rw [SliceRingBufferPrivate.pushFront, if_neg (mt length_eq_zero_iff.mp nothing), ← same]
    exact ready.prepend nothing room inside

omit sound

end Pushes

section Refusals

variable {n : Nat}

/-- Too many bytes reach the first byte of the window again, or the end of the second view. -/
theorem Sound.not_clear_back (sound : b.Sound) (crowded : b.capacity < b.size + n) : ¬b.Clear b.tail n := by
  intro clear
  have tail := sound.tail_eq
  have small := sound.small
  by_cases empty : b.size = 0
  · have parked := sound.parked (by omega)
    have last := (clear b.capacity (by omega)).2.1
    omega
  · have reached := (clear (b.capacity - b.size) (by omega)).2.2 0 (by omega)
    have round : b.tail + ((b.capacity - b.size : Nat) : Int) = b.head + (0 : Nat) + b.capacity := by omega
    rw [round, cell_add_size] at reached
    exact reached rfl

theorem Sound.not_clear_front (sound : b.Sound) (crowded : b.capacity < b.size + n) : ¬b.Clear (b.head - n) n := by
  intro clear
  have tail := sound.tail_eq
  have small := sound.small
  by_cases empty : b.size = 0
  · have parked := sound.parked (by omega)
    have first := (clear 0 (by omega)).1
    omega
  · have reached := (clear (n - 1 - (b.capacity - b.size)) (by omega)).2.2 (b.size - 1) (by omega)
    have round : b.head + ((b.size - 1 : Nat) : Int) =
        b.head - n + (n - 1 - (b.capacity - b.size) : Nat) + b.capacity := by omega
    rw [round, cell_add_size] at reached
    exact reached rfl

theorem reserve_refused (b : SliceRingBufferPrivate) (pageSize need : Nat) : b.reserve pageSize false need = b := by
  unfold SliceRingBufferPrivate.reserve
  split
  · rfl
  · simp

theorem Sound.roomBack_refused (sound : b.Sound) : (b.roomBack pageSize false n).Sound ∧
    (b.roomBack pageSize false n).size = b.size ∧ (b.roomBack pageSize false n).capacity = b.capacity := by
  rw [SliceRingBufferPrivate.roomBack, reserve_refused]
  split
  · exact ⟨sound.center, b.size_center, rfl⟩
  · exact ⟨sound, rfl, rfl⟩

theorem Sound.roomFront_refused (sound : b.Sound) : (b.roomFront pageSize false n).Sound ∧
    (b.roomFront pageSize false n).size = b.size ∧ (b.roomFront pageSize false n).capacity = b.capacity := by
  rw [SliceRingBufferPrivate.roomFront, reserve_refused]
  split
  · exact ⟨sound.center, b.size_center, rfl⟩
  · exact ⟨sound, rfl, rfl⟩

end Refusals

section Pops

theorem Sound.popFront (sound : b.Sound) (n : Nat) :
    (b.popFront n).Sound ∧ (b.popFront n).contents = b.contents.drop n := by
  have tail := sound.tail_eq
  obtain ⟨positive, low, ordered, high, small, parked⟩ := sound
  by_cases less : n < b.size
  · have more : b.head + n ≠ b.tail := by omega
    have shorter : size { b with head := b.head + n } = b.size - n := by
      simp only [size] at tail less ⊢
      omega
    rw [SliceRingBufferPrivate.popFront, if_pos less, if_neg more]
    refine ⟨⟨positive, ?_, ?_, high, ?_, fun empty => absurd empty more⟩, ?_⟩
    · show 0 ≤ b.head + n
      omega
    · show b.head + n ≤ b.tail
      omega
    · rw [shorter]
      exact (Nat.sub_le _ _).trans small
    · have split := read_add b.capacity b.cells b.head n (b.size - n)
      rw [Nat.add_sub_cancel' less.le] at split
      rw [contents, shorter, contents, split, drop_left' (length_read _ _ _ _)]
  · rw [SliceRingBufferPrivate.popFront, if_neg less, if_pos tail.symm]
    refine ⟨sound_resetWindow _ positive, ?_⟩
    rw [contents_resetWindow, eq_comm, drop_eq_nil_iff, length_contents]
    omega

theorem Sound.popBack (sound : b.Sound) (n : Nat) :
    (b.popBack n).Sound ∧ (b.popBack n).contents = b.contents.take (b.contents.length - n) := by
  have tail := sound.tail_eq
  obtain ⟨positive, low, ordered, high, small, parked⟩ := sound
  rw [length_contents]
  by_cases less : n < b.size
  · have more : b.head ≠ b.tail - n := by omega
    have shorter : size { b with tail := b.tail - n } = b.size - n := by
      simp only [size] at tail less ⊢
      omega
    rw [SliceRingBufferPrivate.popBack, if_pos less, if_neg more]
    refine ⟨⟨positive, low, ?_, ?_, ?_, fun empty => absurd empty more⟩, ?_⟩
    · show b.head ≤ b.tail - n
      omega
    · show b.tail - n ≤ b.capacity * 2
      omega
    · rw [shorter]
      exact (Nat.sub_le _ _).trans small
    · have split := read_add b.capacity b.cells b.head (b.size - n) n
      rw [Nat.sub_add_cancel less.le] at split
      rw [contents, shorter, contents, split, take_left' (length_read _ _ _ _)]
  · have empty : b.head = b.tail - b.size := by omega
    rw [SliceRingBufferPrivate.popBack, if_neg less, if_pos empty]
    refine ⟨sound_resetWindow _ positive, ?_⟩
    rw [contents_resetWindow, Nat.sub_eq_zero_of_le (by omega), take_zero]

end Pops

end SliceRingBufferPrivate

inductive SliceRingBufferCall where
  | pushBack (data : Bytes)
  | pushFront (data : Bytes)
  | popFront (n : Nat)
  | popBack (n : Nat)
  | clear

namespace SliceRingBufferCall

/-- The same call for a double-ended queue. -/
def deque : SliceRingBufferCall → Bytes → Bytes
  | .pushBack data, bytes => bytes ++ data
  | .pushFront data, bytes => data ++ bytes
  | .popFront n, bytes => bytes.drop n
  | .popBack n, bytes => bytes.take (bytes.length - n)
  | .clear, _ => []

/-- The call for a buffer; `mapped` says whether a mapping that it asks for succeeds. -/
def apply (pageSize : Nat) (mapped : Bool) (b : SliceRingBufferPrivate) : SliceRingBufferCall → SliceRingBufferPrivate
  | .pushBack data => b.pushBack pageSize mapped data
  | .pushFront data => b.pushFront pageSize mapped data
  | .popFront n => b.popFront n
  | .popBack n => b.popBack n
  | .clear => b.clear

/-- The data of a push go to cells of the two views that hold none of the bytes. -/
def Lands (pageSize : Nat) (mapped : Bool) (b : SliceRingBufferPrivate) : SliceRingBufferCall → Prop
  | .pushBack data =>
    (b.roomBack pageSize mapped data.length).Clear (b.roomBack pageSize mapped data.length).tail data.length
  | .pushFront data =>
    (b.roomFront pageSize mapped data.length).Clear
      ((b.roomFront pageSize mapped data.length).head - data.length) data.length
  | _ => True

def added : SliceRingBufferCall → Nat
  | .pushBack data | .pushFront data => data.length
  | _ => 0

/-- After the call its data are there, or nothing has changed, and nothing else was written to. -/
def AllOrNothing (pageSize : Nat) (mapped : Bool) (b : SliceRingBufferPrivate) (call : SliceRingBufferCall) : Prop :=
  ((call.apply pageSize mapped b).contents = call.deque b.contents ∨
    (call.apply pageSize mapped b).contents = b.contents) ∧ call.Lands pageSize mapped b

variable {b : SliceRingBufferPrivate}

theorem refines (sound : b.Sound) (pageSize : Nat) {mapped : Bool} (call : SliceRingBufferCall)
    (granted : b.size + call.added ≤ b.capacity ∨ mapped = true) :
    (call.apply pageSize mapped b).Sound ∧ (call.apply pageSize mapped b).contents = call.deque b.contents ∧
      call.Lands pageSize mapped b := by
  cases call with
  | pushBack data => exact sound.pushBack granted
  | pushFront data => exact sound.pushFront granted
  | popFront n => exact ⟨(sound.popFront n).1, (sound.popFront n).2, trivial⟩
  | popBack n => exact ⟨(sound.popBack n).1, (sound.popBack n).2, trivial⟩
  | clear => exact ⟨b.sound_resetWindow sound.positive, b.contents_resetWindow, trivial⟩

theorem not_lands (sound : b.Sound) (pageSize : Nat) (call : SliceRingBufferCall)
    (crowded : b.capacity < b.size + call.added) : ¬call.Lands pageSize false b := by
  have small := sound.small
  cases call with
  | pushBack data =>
    obtain ⟨ready, size, capacity⟩ := @SliceRingBufferPrivate.Sound.roomBack_refused b pageSize data.length sound
    exact ready.not_clear_back (by rw [size, capacity]; exact crowded)
  | pushFront data =>
    obtain ⟨ready, size, capacity⟩ := @SliceRingBufferPrivate.Sound.roomFront_refused b pageSize data.length sound
    exact ready.not_clear_front (by rw [size, capacity]; exact crowded)
  | popFront n => exact absurd crowded small.not_gt
  | popBack n => exact absurd crowded small.not_gt
  | clear => exact absurd crowded small.not_gt

end SliceRingBufferCall

/-- A buffer whose window is where it should be. -/
structure SliceRingBuffer extends SliceRingBufferPrivate where
  sound : toSliceRingBufferPrivate.Sound

namespace SliceRingBuffer

open SliceRingBufferCall

theorem sound_new (pageSize cap : Nat) : (SliceRingBufferPrivate.new pageSize cap).Sound := by
  refine SliceRingBufferPrivate.sound_resetWindow _ ?_
  show 0 < if cap = 0 then initCapacityUnit pageSize else roundUp cap (initCapacityUnit pageSize)
  have unit := SliceRingBufferPrivate.initCapacityUnit_pos pageSize
  have rounded := SliceRingBufferPrivate.le_roundUp cap unit
  split <;> omega

def new (pageSize cap : Nat) : SliceRingBuffer := ⟨.new pageSize cap, sound_new pageSize cap⟩

def perform (pageSize : Nat) (b : SliceRingBuffer) (call : SliceRingBufferCall) : SliceRingBuffer :=
  ⟨call.apply pageSize true b.toSliceRingBufferPrivate, (call.refines b.sound pageSize (Or.inr rfl)).1⟩

def run (pageSize cap : Nat) (calls : List SliceRingBufferCall) : SliceRingBuffer :=
  calls.foldl (perform pageSize) (new pageSize cap)

/-- The bytes are those of a queue after the same calls, the window stays within the two
views, and the next push finds free cells. -/
theorem run_refines_deque (pageSize cap : Nat) (calls : List SliceRingBufferCall) :
    (run pageSize cap calls).contents = calls.foldl (fun bytes call => call.deque bytes) [] ∧
      0 ≤ (run pageSize cap calls).head ∧ (run pageSize cap calls).tail ≤ (run pageSize cap calls).capacity * 2 ∧
      (run pageSize cap calls).size ≤ (run pageSize cap calls).capacity ∧
      ∀ call : SliceRingBufferCall, call.Lands pageSize true (run pageSize cap calls).toSliceRingBufferPrivate := by
  have agrees : (run pageSize cap calls).contents = calls.foldl (fun bytes call => call.deque bytes) [] := by
    -- the last call is made on a buffer that agrees with the queue so far
    induction calls using reverseRecOn with
    | nil => exact SliceRingBufferPrivate.contents_resetWindow _
    | append_singleton calls call ih =>
      have last := (call.refines (run pageSize cap calls).sound pageSize (Or.inr rfl)).2.1
      rw [ih] at last
      simpa [run, perform] using last
  have sound := (run pageSize cap calls).sound
  exact ⟨agrees, sound.low, sound.high, sound.small, fun call => (call.refines sound pageSize (Or.inr rfl)).2.2⟩

/-- A push adds all its data or nothing, and writes to free cells of the two views only,
exactly when its data fit into the cells there are or the mapping it asks for succeeds. -/
theorem allOrNothing_iff (pageSize : Nat) (mapped : Bool) (b : SliceRingBuffer) (call : SliceRingBufferCall) :
    call.AllOrNothing pageSize mapped b.toSliceRingBufferPrivate ↔
      b.size + call.added ≤ b.capacity ∨ mapped = true := by
  constructor
  · rintro ⟨_, lands⟩
    by_contra crowded
    obtain ⟨many, refused⟩ := not_or.mp crowded
    rw [Bool.not_eq_true] at refused
    exact call.not_lands b.sound pageSize (by omega) (refused ▸ lands)
  · intro granted
    obtain ⟨_, contents, lands⟩ := call.refines b.sound pageSize granted
    exact ⟨Or.inl contents, lands⟩

/-- A push of one byte more than a new buffer has cells runs over the end of the second view
when there is no memory. -/
theorem pushBack_overrun : ¬(SliceRingBufferCall.pushBack (replicate 4097 0)).AllOrNothing 4096 false
    (new 4096 0).toSliceRingBufferPrivate := by
  intro whole
  have capacity : (SliceRingBufferPrivate.new 4096 0).capacity = 4096 := rfl
  have crowded : (SliceRingBufferPrivate.new 4096 0).capacity < (SliceRingBufferPrivate.new 4096 0).size +
      (SliceRingBufferCall.pushBack (replicate 4097 0)).added := by
    rw [added, length_replicate, capacity]
    omega
  exact not_lands (sound_new 4096 0) 4096 _ crowded whole.2

end SliceRingBuffer

end Qtng.Utils
