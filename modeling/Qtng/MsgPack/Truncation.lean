import Qtng.MsgPack.RoundTrip

namespace Qtng.MsgPack

open BigEndian Reader List

section Cuts

variable {α β : Type}

/-- Where the bytes of items may end without an error: inside the first item if it allows that, or
behind it if there are others. Items before the end have to be readable. -/
def CutItems (whole : α → Prop) (cut : α → Bytes → Prop) (write : α → Bytes) : List α → Bytes → Prop
  | [], _ => False
  | item :: items, part =>
    cut item part ∨
      whole item ∧ items ≠ [] ∧ ∃ more, part = write item ++ more ∧ (more = [] ∨ CutItems whole cut write items more)

/-- Entries may only end inside the last value. -/
def CutEntries (wholeKey : α → Prop) (whole : β → Prop) (cut : β → Bytes → Prop) (writeKey : α → Bytes)
    (writeValue : β → Bytes) : List (α × β) → Bytes → Prop
  | [], _ => False
  | entry :: entries, part =>
    wholeKey entry.1 ∧ ∃ more, part = writeKey entry.1 ++ more ∧
      (entries = [] ∧ cut entry.2 more ∨
        whole entry.2 ∧ ∃ rest, more = writeValue entry.2 ++ rest ∧
          CutEntries wholeKey whole cut writeKey writeValue entries rest)

/-- The header of a container is whole, and there is a byte for each element behind it. -/
def Headed (form : Lengths) (count : Nat) (cut : Bytes → Prop) (part : Bytes) : Prop :=
  count < 2 ^ 31 ∧ ∃ more, part = form.write count ++ more ∧ count ≤ more.length ∧ cut more

end Cuts

/-- The bytes of a value end between two items of a vector or a set, and every container around
that is cut in its items or in the value of its last entry. -/
def Cut : (s : Shape) → s.Val → Bytes → Prop
  | .leaf _, _ => fun _ => False
  | .vector item, items =>
    Headed .array items.length (CutItems (item.Counts (2 ^ 31)) (Cut item) item.write items)
  | .set item, items =>
    Headed .array items.length (CutItems (item.Counts (2 ^ 31)) (Cut item) item.write items)
  | .map key value, entries =>
    Headed .map entries.length
      (CutEntries (key.Counts (2 ^ 31)) (value.Counts (2 ^ 31)) (Cut value) key.write value.write entries)

/-- A reader stops at the end of the bytes without an error, or with one. -/
structure Settles {α : Type} (read : Read α) (part : Bytes) (cut : Prop) : Prop where
  stops : cut → ∃ value, read part = .ok (value, [])
  fails : ¬ cut → ∃ e, read part = .error e

section Settles

variable {α : Type} {read other : Read α} {part more : Bytes} {cut inner : Prop}

theorem Settles.ends {value : α} (given : cut) (done : read part = .ok (value, [])) : Settles read part cut :=
  ⟨fun _ => ⟨value, done⟩, fun missing => absurd given missing⟩

theorem Settles.never {e : Status} (missing : ¬ cut) (failed : read part = .error e) : Settles read part cut :=
  ⟨fun given => absurd given missing, fun _ => ⟨e, failed⟩⟩

theorem Settles.rest (settles : Settles other more inner) (same : read part = other more) (iff : cut ↔ inner) :
    Settles read part cut := by
  rw [iff]
  exact ⟨fun given => same ▸ settles.stops given, fun missing => same ▸ settles.fails missing⟩

end Settles

section Loops

variable {α β : Type} {whole : α → Prop} {cut : α → Bytes → Prop} {write : α → Bytes} {read : Read α}
  {add : List α → α → List α}

variable {part : Bytes} {items : List α}

theorem readItems_settles (acc : List α)
    (settles : ∀ i ∈ items, ∀ part, part <+: write i → part ≠ write i → Settles read part (cut i part))
    (good : ∀ i ∈ items, whole i → ∀ rest, read (write i ++ rest) = .ok (i, rest))
    (bad : ∀ i ∈ items, ¬ whole i → ∀ rest, read (write i ++ rest) = .error .readCorruptData)
    (short : ∀ i ∈ items, ∀ part, cut i part → part.length < (write i).length)
    (start : part <+: items.flatMap write) (proper : part ≠ items.flatMap write) :
    Settles (readItems add read items.length acc) part (CutItems whole cut write items part) := by
  induction items generalizing acc part with
  | nil => exact absurd (prefix_nil.mp start) proper
  | cons item items ih =>
    rw [flatMap_cons] at start proper
    rcases prefix_append_proper start proper with ⟨inside, different⟩ | ⟨more, rfl, start, proper⟩
    · have here := settles item mem_cons_self part inside different
      by_cases given : cut item part
      · obtain ⟨value, first⟩ := here.stops given
        exact .ends (.inl given) (by rw [length_cons, readItems_step _ _ first, if_pos rfl])
      · obtain ⟨e, failed⟩ := here.fails given
        refine .never ?_ (readItems_failed _ _ failed)
        rintro (within | ⟨-, -, more, rfl, -⟩)
        · exact given within
        · exact different (inside.eq_of_length_le (by simp))
    · have others : items ≠ [] := by
        rintro rfl
        exact proper (prefix_nil.mp start)
      have ahead : ¬ cut item (write item ++ more) := fun inside => by
        have less := short item mem_cons_self _ inside
        simp at less
      by_cases readable : whole item
      swap
      · refine .never ?_ (readItems_failed _ _ (bad item mem_cons_self readable more))
        rintro (inside | ⟨good, -⟩)
        · exact ahead inside
        · exact readable good
      have first := good item mem_cons_self readable more
      by_cases none : more = []
      · exact .ends (.inr ⟨readable, others, more, rfl, .inl none⟩)
          (by rw [length_cons, readItems_step _ _ first, if_pos none])
      · have rest := ih (add acc item) (fun i member => settles i (mem_cons_of_mem _ member))
          (fun i member => good i (mem_cons_of_mem _ member))
          (fun i member => bad i (mem_cons_of_mem _ member))
          (fun i member => short i (mem_cons_of_mem _ member)) start proper
        refine rest.rest (by rw [length_cons, readItems_step _ _ first, if_neg none])
          ⟨?_, fun given => .inr ⟨readable, others, more, rfl, .inr given⟩⟩
        rintro (inside | ⟨-, -, tail, same, given⟩)
        · exact absurd inside ahead
        · rw [← append_cancel_left same] at given
          exact given.resolve_left none

theorem length_cutItems (filled : ∀ i ∈ items, write i ≠ [])
    (short : ∀ i ∈ items, ∀ part, cut i part → part.length < (write i).length)
    (given : CutItems whole cut write items part) : part.length < (items.flatMap write).length := by
  induction items generalizing part with
  | nil => exact given.elim
  | cons item items ih =>
    rw [flatMap_cons, length_append]
    rcases given with inside | ⟨-, others, more, rfl, none | later⟩
    · have less := short item mem_cons_self part inside
      omega
    · have least := length_le_flatMap (fun i member => filled i (mem_cons_of_mem item member))
      have some := length_pos_iff.mpr others
      rw [none, append_nil]
      omega
    · have less := ih (fun i member => filled i (mem_cons_of_mem _ member))
        (fun i member => short i (mem_cons_of_mem _ member)) later
      rw [length_append]
      omega

end Loops

section Entries

variable {α β : Type} [DecidableEq α] {wholeKey : α → Prop} {whole : β → Prop} {cut : β → Bytes → Prop}
  {writeKey : α → Bytes} {writeValue : β → Bytes} {readKey : Read α} {readValue : Read β}

variable {part : Bytes} {entries : List (α × β)}

structure EntryFacts (wholeKey : α → Prop) (whole : β → Prop) (cut : β → Bytes → Prop) (writeKey : α → Bytes)
    (writeValue : β → Bytes) (readKey : Read α) (readValue : Read β) (entry : α × β) : Prop where
  emptyKey : ∃ e, readKey [] = .error e
  emptyValue : ∃ e, readValue [] = .error e
  cutKey : ∀ part, part <+: writeKey entry.1 → part ≠ writeKey entry.1 → ∃ inside, Settles readKey part inside
  cutValue : ∀ part, part <+: writeValue entry.2 → part ≠ writeValue entry.2 → Settles readValue part (cut entry.2 part)
  goodKey : wholeKey entry.1 → ∀ rest, readKey (writeKey entry.1 ++ rest) = .ok (entry.1, rest)
  badKey : ¬ wholeKey entry.1 → ∀ rest, readKey (writeKey entry.1 ++ rest) = .error .readCorruptData
  goodValue : whole entry.2 → ∀ rest, readValue (writeValue entry.2 ++ rest) = .ok (entry.2, rest)
  badValue : ¬ whole entry.2 → ∀ rest, readValue (writeValue entry.2 ++ rest) = .error .readCorruptData
  short : ∀ part, cut entry.2 part → part.length < (writeValue entry.2).length

theorem readEntries_settles (acc : List (α × β))
    (facts : ∀ e ∈ entries, EntryFacts wholeKey whole cut writeKey writeValue readKey readValue e)
    (start : part <+: entries.flatMap (writeEntry writeKey writeValue))
    (proper : part ≠ entries.flatMap (writeEntry writeKey writeValue)) :
    Settles (readEntries readKey readValue entries.length acc) part
      (CutEntries wholeKey whole cut writeKey writeValue entries part) := by
  induction entries generalizing acc part with
  | nil => exact absurd (prefix_nil.mp start) proper
  | cons entry entries ih =>
    have here := facts entry mem_cons_self
    rw [flatMap_cons, writeEntry, append_assoc] at start proper
    rcases prefix_append_proper start proper with ⟨inside, different⟩ | ⟨more, rfl, start, proper⟩
    · -- the key is cut, so that no value follows
      obtain ⟨allowed, settles⟩ := here.cutKey part inside different
      have failed : ∃ e, readEntries readKey readValue (entry :: entries).length acc part = .error e := by
        by_cases given : allowed
        · obtain ⟨key, read⟩ := settles.stops given
          obtain ⟨e, none⟩ := here.emptyValue
          exact ⟨e, by rw [length_cons, readEntries, bind_ok read, bind_error none]⟩
        · obtain ⟨e, read⟩ := settles.fails given
          exact ⟨e, bind_error read⟩
      obtain ⟨e, failed⟩ := failed
      refine .never ?_ failed
      rintro ⟨-, more, rfl, -⟩
      exact different (inside.eq_of_length_le (by simp))
    by_cases readable : wholeKey entry.1
    swap
    · exact .never (fun given => readable given.1) (bind_error (here.badKey readable more))
    have first := here.goodKey readable more
    rcases prefix_append_proper start proper with ⟨inside, different⟩ | ⟨rest, rfl, start, proper⟩
    · have settles := here.cutValue more inside different
      have within : CutEntries wholeKey whole cut writeKey writeValue (entry :: entries) (writeKey entry.1 ++ more) ↔
          entries = [] ∧ cut entry.2 more := by
        constructor
        · rintro ⟨-, other, same, given⟩
          rw [← append_cancel_left same] at given
          refine given.resolve_right ?_
          rintro ⟨-, rest, rfl, -⟩
          exact different (inside.eq_of_length_le (by simp))
        · exact fun given => ⟨readable, more, rfl, .inl given⟩
      by_cases given : cut entry.2 more
      · obtain ⟨value, second⟩ := settles.stops given
        cases entries with
        | nil =>
          exact .ends (within.mpr ⟨rfl, given⟩)
            (by rw [length_singleton, readEntries_step _ _ first second]; rfl)
        | cons next entries =>
          obtain ⟨e, none⟩ := (facts next (by simp)).emptyKey
          refine .never (e := e) (fun both => by simpa using (within.mp both).1) ?_
          rw [length_cons, length_cons, readEntries_step _ _ first second, readEntries, bind_error none]
      · obtain ⟨e, failed⟩ := settles.fails given
        refine .never (e := e) (fun both => given (within.mp both).2) ?_
        rw [length_cons, readEntries, bind_ok first, bind_error failed]
    · have behind : CutEntries wholeKey whole cut writeKey writeValue (entry :: entries)
          (writeKey entry.1 ++ (writeValue entry.2 ++ rest)) ↔
          whole entry.2 ∧ CutEntries wholeKey whole cut writeKey writeValue entries rest := by
        constructor
        · rintro ⟨-, other, same, given⟩
          rw [← append_cancel_left same] at given
          rcases given with ⟨-, inside⟩ | ⟨complete, tail, same, given⟩
          · have less := here.short _ inside
            simp at less
          · rw [append_cancel_left same]
            exact ⟨complete, given⟩
        · exact fun given => ⟨readable, _, rfl, .inr ⟨given.1, rest, rfl, given.2⟩⟩
      by_cases complete : whole entry.2
      · have second := here.goodValue complete rest
        have later := ih (emplace acc entry.1 entry.2) (fun e member => facts e (mem_cons_of_mem _ member))
          start proper
        exact later.rest (by rw [length_cons, readEntries_step _ _ first second])
          (behind.trans (and_iff_right complete))
      · refine .never (e := .readCorruptData) (fun given => complete (behind.mp given).1) ?_
        rw [length_cons, readEntries, bind_ok first, bind_error (here.badValue complete rest)]

omit [DecidableEq α] in
theorem length_cutEntries (short : ∀ e ∈ entries, ∀ part, cut e.2 part → part.length < (writeValue e.2).length)
    (given : CutEntries wholeKey whole cut writeKey writeValue entries part) :
    part.length < (entries.flatMap (writeEntry writeKey writeValue)).length := by
  induction entries generalizing part with
  | nil => exact given.elim
  | cons entry entries ih =>
    obtain ⟨-, more, rfl, ⟨-, inside⟩ | ⟨-, rest, rfl, later⟩⟩ := given
    · have less := short entry mem_cons_self more inside
      simp only [flatMap_cons, writeEntry, length_append]
      omega
    · have less := ih (fun e member => short e (mem_cons_of_mem _ member)) later
      simp only [flatMap_cons, writeEntry, length_append]
      omega

end Entries

section Headers

variable {α : Type} {form : Lengths} {count : Nat} {text part : Bytes} {cut : Bytes → Prop} {loop : Nat → Read α}

theorem length_headed (short : ∀ part, cut part → part.length < text.length) (given : Headed form count cut part) :
    part.length < (form.write count ++ text).length := by
  obtain ⟨-, more, rfl, -, inside⟩ := given
  have less := short more inside
  simp only [length_append]
  omega

theorem header_settles (small : count < 2 ^ 32) (start : part <+: form.write count ++ text)
    (proper : part ≠ form.write count ++ text)
    (settles : ∀ part, part <+: text → part ≠ text → Settles (loop count) part (cut part)) :
    Settles ((do let len ← form.read; checkLength len; return len : Read Nat) >>= loop) part
      (Headed form count cut part) := by
  rcases prefix_append_proper start proper with ⟨inside, different⟩ | ⟨more, rfl, start, proper⟩
  · obtain ⟨e, failed⟩ := (meets_lengths form small).cut part inside different
    refine .never ?_ (bind_error (bind_error failed))
    rintro ⟨-, more, rfl, -⟩
    exact absurd (inside.eq_of_length_le (by simp)) different
  · have header := (meets_lengths form small).ok more
    have within : Headed form count cut (form.write count ++ more) ↔
        (count < 2 ^ 31 ∧ count ≤ more.length) ∧ cut more := by
      constructor
      · rintro ⟨few, other, same, enough, given⟩
        rw [append_cancel_left same]
        exact ⟨⟨few, enough⟩, given⟩
      · rintro ⟨⟨few, enough⟩, given⟩
        exact ⟨few, more, rfl, enough, given⟩
    by_cases fits : count < 2 ^ 31 ∧ count ≤ more.length
    · exact (settles more start proper).rest (bind_ok (header_whole form fits.1 fits.2))
        (within.trans (and_iff_right fits))
    · refine .never (e := .readCorruptData) (fun given => fits (within.mp given).1) (bind_error ?_)
      rw [bind_ok header]
      exact bind_error (if_neg fits)

end Headers

namespace Shape

theorem read_nil : ∀ (s : Shape) (v : s.Val), s.Valid v → ∃ e, s.read [] = .error e
  | .leaf l, v, valid => by
    have filled : [] ≠ l.write v := (l.filled v valid).symm
    by_cases fits : l.Fits v
    · exact (l.meets v valid fits).cut [] nil_prefix filled
    · exact (l.refused v valid fits).cut [] nil_prefix filled
  | .vector _, _, _ => ⟨.readPastEnd, rfl⟩
  | .set _, _, _ => ⟨.readPastEnd, rfl⟩
  | .map _ _, _, _ => ⟨.readPastEnd, rfl⟩

theorem length_cut : ∀ (s : Shape) (v : s.Val) (part : Bytes), s.Valid v → s.Counts (2 ^ 32) v → Cut s v part →
    part.length < (s.write v).length
  | .leaf _, _, _, _, _, given => given.elim
  | .vector item, items, part, valid, counts, given => by
    have short := length_headed (fun part => length_cutItems (fun i member => item.write_filled i (valid i member))
      (fun i member part => item.length_cut i part (valid i member) (counts.2 i member))) given
    rwa [← Nat.mod_eq_of_lt counts.1] at short
  | .set item, items, part, valid, counts, given => by
    have short := length_headed (fun part => length_cutItems (fun i member => item.write_filled i (valid.2 i member))
      (fun i member part => item.length_cut i part (valid.2 i member) (counts.2 i member))) given
    rwa [← Nat.mod_eq_of_lt counts.1] at short
  | .map key value, entries, part, valid, counts, given => by
    have short := length_headed (fun part => length_cutEntries
      (fun e member part => value.length_cut e.2 part (valid.2 e member).2 (counts.2 e member).2)) given
    rwa [← Nat.mod_eq_of_lt counts.1] at short

theorem items_settle {item : Shape} {items : List item.Val} {add : List item.Val → item.Val → List item.Val}
    {part : Bytes} (valid : Every item.Valid items) (fits : Every item.Fits items)
    (counts : items.length < 2 ^ 32 ∧ Every (item.Counts (2 ^ 32)) items)
    (inner : ∀ i ∈ items, ∀ part, part <+: item.write i → part ≠ item.write i →
      Settles item.read part (Cut item i part))
    (start : part <+: writeArrayHeader (items.length % 2 ^ 32) ++ items.flatMap item.write)
    (proper : part ≠ writeArrayHeader (items.length % 2 ^ 32) ++ items.flatMap item.write) :
    Settles (readArrayHeader >>= fun len => readItems add item.read len []) part
      (Headed .array items.length (CutItems (item.Counts (2 ^ 31)) (Cut item) item.write items) part) := by
  rw [Nat.mod_eq_of_lt counts.1] at start proper
  refine header_settles counts.1 start proper (fun part start proper => ?_)
  exact readItems_settles [] inner
    (fun i member small rest => item.read_write i rest (valid i member) (fits i member) small)
    (fun i member large rest =>
      item.read_refused i rest (valid i member) (counts.2 i member) (fun both => large both.2))
    (fun i member part => item.length_cut i part (valid i member) (counts.2 i member)) start proper

/-- A value of which the end is missing is refused unless the cut is one of those. -/
theorem settles : ∀ (s : Shape) (v : s.Val) (part : Bytes), s.Valid v → s.Fits v → s.Counts (2 ^ 32) v →
    part <+: s.write v → part ≠ s.write v → Settles s.read part (Cut s v part)
  | .leaf l, v, part, valid, fits, _, start, proper =>
    ⟨False.elim, fun _ => (l.meets v valid fits).cut part start proper⟩
  | .vector item, _, _, valid, fits, counts, start, proper =>
    items_settle valid fits counts (fun i member part =>
      item.settles i part (valid i member) (fits i member) (counts.2 i member)) start proper
  | .set item, _, _, valid, fits, counts, start, proper =>
    items_settle valid.2 fits counts (fun i member part =>
      item.settles i part (valid.2 i member) (fits i member) (counts.2 i member)) start proper
  | .map key value, entries, part, valid, fits, counts, start, proper => by
    have facts : Every (EntryFacts (key.Counts (2 ^ 31)) (value.Counts (2 ^ 31)) (Cut value) key.write value.write
        key.read value.read) entries := fun e member =>
      { emptyKey := key.read_nil e.1 (valid.2 e member).1
        emptyValue := value.read_nil e.2 (valid.2 e member).2
        cutKey := fun part start proper => ⟨_, key.settles e.1 part (valid.2 e member).1 (fits e member).1
          (counts.2 e member).1 start proper⟩
        cutValue := fun part => value.settles e.2 part (valid.2 e member).2 (fits e member).2 (counts.2 e member).2
        goodKey := fun small rest => key.read_write e.1 rest (valid.2 e member).1 (fits e member).1 small
        badKey := fun large rest => key.read_refused e.1 rest (valid.2 e member).1 (counts.2 e member).1
          (fun both => large both.2)
        goodValue := fun small rest => value.read_write e.2 rest (valid.2 e member).2 (fits e member).2 small
        badValue := fun large rest => value.read_refused e.2 rest (valid.2 e member).2 (counts.2 e member).2
          (fun both => large both.2)
        short := fun part => value.length_cut e.2 part (valid.2 e member).2 (counts.2 e member).2 }
    change part <+: Lengths.map.write (entries.length % 2 ^ 32) ++
      entries.flatMap (writeEntry key.write value.write) at start
    change part ≠ Lengths.map.write (entries.length % 2 ^ 32) ++
      entries.flatMap (writeEntry key.write value.write) at proper
    rw [Nat.mod_eq_of_lt counts.1] at start proper
    exact header_settles counts.1 start proper (fun part start proper => readEntries_settles [] facts start proper)

end Shape

/-- A value without its last bytes is refused exactly if it does not end between two items of a
vector or a set in that way. -/
theorem truncated_refused_iff {s : Shape} {v : s.Val} {part : Bytes} (valid : s.Valid v) (fits : s.Fits v)
    (counts : s.Counts (2 ^ 32) v) (start : part <+: s.write v) (proper : part ≠ s.write v) :
    (∀ result, s.read (ofData part) ≠ .ok result) ↔ ¬ Cut s v (ofData part) := by
  have shorter : ofData part <+: part := Bencode.available_prefix part
  have different : ofData part ≠ s.write v := fun same =>
    proper (start.eq_of_length_le (same ▸ shorter.length_le))
  obtain ⟨stops, fails⟩ := s.settles v (ofData part) valid fits counts (shorter.trans start) different
  constructor
  · intro refused cut
    obtain ⟨value, read⟩ := stops cut
    exact refused _ read
  · intro other result read
    obtain ⟨e, failed⟩ := fails other
    rw [failed] at read
    cases read

def pairShape : Shape := .vector (.leaf (intLeaf .u16 .u16))

def pairItems : List Int := [300, 300]

theorem pairItems_valid : pairShape.Valid pairItems := by
  change ∀ i ∈ pairItems, IntType.u16.Holds i
  decide

theorem pairItems_fits : pairShape.Fits pairItems := by
  change ∀ i ∈ pairItems, IntType.u16.Holds i
  decide

/-- A header without any item is refused. -/
theorem truncated_header :
    pairShape.Valid pairItems ∧ ∀ result, pairShape.read (ofData [0x92]) ≠ .ok result := by
  have counts : pairShape.Counts (2 ^ 32) pairItems := by
    change pairItems.length < 2 ^ 32 ∧ ∀ i ∈ pairItems, True
    decide
  refine ⟨pairItems_valid,
    (truncated_refused_iff pairItems_valid pairItems_fits counts (by decide) (by decide)).mpr ?_⟩
  rintro ⟨-, more, same, enough, -⟩
  have length := congrArg length same
  simp only [length_append] at length
  change 1 = 1 + more.length at length
  change 2 ≤ more.length at enough
  omega

/-- The first of two numbers alone is accepted. -/
theorem truncated_pair : pairShape.Valid pairItems ∧ pairShape.Fits pairItems ∧
    pairShape.write pairItems = [0x92, 0xcd, 0x01, 0x2c, 0xcd, 0x01, 0x2c] ∧
    pairShape.read (ofData [0x92, 0xcd, 0x01, 0x2c]) = .ok (([300] : List Int), []) :=
  ⟨pairItems_valid, pairItems_fits, by decide, rfl⟩

end Qtng.MsgPack
