import Qtng.Bencode.Stream

namespace Qtng.Bencode

open BigEndian Decimal List

variable {rest front more digits : Bytes} {d after : Stream} {n fuel : Nat} {c : UInt8}

/-- The literals that readInteger takes: a sign or none, and digits. A zero stands alone; of other
digits there are at most twenty, the sign included. -/
def Spelled (literal : Bytes) : Prop :=
  ∃ sign digits, literal = sign ++ digits ∧ (sign = [] ∨ sign = [45]) ∧ digits ≠ [] ∧
    (∀ c ∈ digits, isDigit c = true) ∧ (digits = [48] ∨ digits.head? ≠ some 48 ∧ literal.length ≤ 20)

theorem consumeByte_eq_ok {expected : UInt8} {bytes : Bytes} :
    consumeByte expected bytes = .ok rest ↔ bytes = expected :: rest := by
  cases bytes with
  | nil => simp [consumeByte]
  | cons c more =>
    by_cases same : c = expected
    · simp [consumeByte, same]
    · simp [consumeByte, same]

theorem account_eq_ok :
    account n d = .ok after ↔
      after = { d with bytesAllocated := d.bytesAllocated + n } ∧ d.bytesAllocated + n ≤ allocLimit := by
  unfold account
  split_ifs with full
  · simp only [false_iff, not_and]
    omega
  · rw [Except.ok.injEq, eq_comm]
    exact ⟨fun same => ⟨same, by omega⟩, fun both => both.1⟩

theorem isDigit_ne {other : UInt8} (digit : isDigit c = true) (stop : isDigit other = false) : c ≠ other := by
  rintro rfl
  simp [digit] at stop

theorem integerDigits_literal (all : ∀ c ∈ more, isDigit c = true) (short : more ≠ [] → (front ++ more).length ≤ 20) :
    integerDigits front (more ++ 101 :: rest) = .ok (front ++ more, rest) := by
  induction more generalizing front with
  | nil => simp [integerDigits]
  | cons c more ih =>
    have digit := all c (by simp)
    have fits := short (by simp)
    have next : (front ++ [c]).length ≤ 20 := by simp at fits ⊢; omega
    rw [cons_append, integerDigits, if_neg (isDigit_ne digit rfl), if_neg (by simp [digit]), if_neg (by omega),
      ih (fun d member => all d (by simp [member])) (fun _ => by simpa using fits)]
    simp

theorem literal_of_integerDigits {bytes : Bytes} (read : integerDigits front bytes = .ok (digits, rest)) :
    ∃ more, digits = front ++ more ∧ bytes = more ++ 101 :: rest ∧
      (∀ c ∈ more, isDigit c = true) ∧ (more ≠ [] → (front ++ more).length ≤ 20) := by
  induction bytes generalizing front with
  | nil => simp [integerDigits] at read
  | cons c bytes ih =>
    rw [integerDigits] at read
    split_ifs at read with ends other long
    · cases read
      exact ⟨[], by simp [ends]⟩
    · obtain ⟨more, rfl, rfl, all, short⟩ := ih read
      have digit : isDigit c = true := by simpa using other
      refine ⟨c :: more, by simp, by simp, forall_mem_cons.mpr ⟨digit, all⟩, fun _ => ?_⟩
      by_cases empty : more = []
      · simpa [empty] using Nat.not_lt.mp long
      · simpa using short empty

theorem readDigits_literal {sign : Bytes} (signed : sign = [] ∨ sign = [45])
    (filled : digits ≠ []) (all : ∀ c ∈ digits, isDigit c = true)
    (shape : digits = [48] ∨ digits.head? ≠ some 48 ∧ (sign ++ digits).length ≤ 20) :
    readDigits sign (digits ++ 101 :: rest) = .ok (strtoll (sign ++ digits), rest) := by
  obtain ⟨c, more, rfl⟩ := exists_cons_of_ne_nil filled
  have digit := all c (by simp)
  rw [cons_append, readDigits, if_neg (by simp [digit])]
  by_cases zero : c = 48
  · have alone : more = [] := by
      rcases shape with same | ⟨lead, -⟩
      · simpa [zero] using same
      · exact absurd (by simp [zero]) lead
    subst zero alone
    rcases signed with rfl | rfl <;> rfl
  · have fits : (sign ++ c :: more).length ≤ 20 := by
      rcases shape with same | ⟨-, fits⟩
      · cases same
        exact absurd rfl zero
      · exact fits
    rw [if_neg zero, integerDigits_literal (fun d member => all d (by simp [member])) (fun _ => by simpa using fits)]
    have other : sign ++ [c] ++ more ≠ [45, 48] := by
      rcases signed with rfl | rfl
      · intro same
        simp only [nil_append, singleton_append, cons.injEq] at same
        rw [same.1] at digit
        exact absurd digit (by decide)
      · simp [zero]
    dsimp only
    rw [if_neg other, append_assoc, singleton_append]

theorem literal_of_readDigits {sign bytes : Bytes} {i : Int64} (signed : sign = [] ∨ sign = [45])
    (read : readDigits sign bytes = .ok (i, rest)) :
    ∃ digits, bytes = digits ++ 101 :: rest ∧ i = strtoll (sign ++ digits) ∧ digits ≠ [] ∧
      (∀ c ∈ digits, isDigit c = true) ∧ (digits = [48] ∨ digits.head? ≠ some 48 ∧ (sign ++ digits).length ≤ 20) := by
  cases bytes with
  | nil => simp [readDigits] at read
  | cons c bytes =>
    rw [readDigits] at read
    split_ifs at read with other zero
    · subst zero
      cases ends : consumeByte 101 bytes with
      | error e => simp [ends, Except.map] at read
      | ok more =>
        rw [ends] at read
        cases read
        rw [consumeByte_eq_ok.mp ends]
        refine ⟨[48], rfl, ?_, by simp, by simp [isDigit], .inl rfl⟩
        rcases signed with rfl | rfl <;> rfl
    · cases loop : integerDigits (sign ++ [c]) bytes with
      | error e => simp [loop] at read
      | ok result =>
        obtain ⟨digits, more⟩ := result
        rw [loop] at read
        dsimp only at read
        split_ifs at read
        cases read
        obtain ⟨tail, rfl, rfl, all, short⟩ := literal_of_integerDigits loop
        refine ⟨c :: tail, by simp, by simp, by simp, forall_mem_cons.mpr ⟨by simpa using other, all⟩,
          .inr ⟨by simpa using zero, ?_⟩⟩
        by_cases empty : tail = []
        · rcases signed with rfl | rfl <;> simp [empty]
        · simpa using short empty

theorem readInteger_eq_ok {bytes : Bytes} {i : Int64} :
    readInteger bytes = .ok (i, rest) ↔
      ∃ literal, Spelled literal ∧ bytes = 105 :: literal ++ 101 :: rest ∧ i = strtoll literal := by
  constructor
  · intro read
    unfold readInteger at read
    split at read
    · cases read
    · cases read
    case h_3 c more start =>
      rw [consumeByte_eq_ok.mp start]
      split_ifs at read with minus
      · obtain ⟨digits, rfl, rfl, filled, all, shape⟩ := literal_of_readDigits (.inr rfl) read
        exact ⟨45 :: digits, ⟨[45], digits, rfl, .inr rfl, filled, all, shape⟩, by simp [minus], rfl⟩
      · obtain ⟨digits, same, rfl, filled, all, shape⟩ := literal_of_readDigits (.inl rfl) read
        exact ⟨digits, ⟨[], digits, rfl, .inl rfl, filled, all, shape⟩, by simp [same], rfl⟩
  · rintro ⟨literal, ⟨sign, digits, rfl, signed, filled, all, shape⟩, rfl, rfl⟩
    have read : readDigits sign (digits ++ 101 :: rest) = .ok (strtoll (sign ++ digits), rest) :=
      readDigits_literal signed filled all shape
    rcases signed with rfl | rfl
    · obtain ⟨c, more, rfl⟩ := exists_cons_of_ne_nil filled
      have digit : c ≠ 45 := isDigit_ne (all c (by simp)) rfl
      simpa [readInteger, consumeByte, digit] using read
    · simpa [readInteger, consumeByte] using read

theorem lengthDigits_literal (all : ∀ c ∈ more, isDigit c = true) (short : more ≠ [] → (front ++ more).length ≤ 10) :
    lengthDigits front (more ++ 58 :: rest) = .ok (front ++ more, 58 :: rest) := by
  induction more generalizing front with
  | nil => simp [lengthDigits, isDigit]
  | cons c more ih =>
    have digit := all c (by simp)
    have fits := short (by simp)
    have next : (front ++ [c]).length ≤ 10 := by simp at fits ⊢; omega
    rw [cons_append, lengthDigits, if_pos digit, if_neg (by omega),
      ih (fun d member => all d (by simp [member])) (fun _ => by simpa using fits)]
    simp

theorem literal_of_lengthDigits {bytes : Bytes} (read : lengthDigits front bytes = .ok (digits, rest)) :
    ∃ more, digits = front ++ more ∧ bytes = more ++ rest ∧ ∀ c ∈ more, isDigit c = true := by
  induction bytes generalizing front with
  | nil =>
    cases read
    exact ⟨[], by simp⟩
  | cons c bytes ih =>
    rw [lengthDigits] at read
    split_ifs at read with digit long
    · obtain ⟨more, rfl, rfl, all⟩ := ih read
      exact ⟨c :: more, by simp, by simp, forall_mem_cons.mpr ⟨digit, all⟩⟩
    · cases read
      exact ⟨[], by simp⟩

theorem readLength_eq_ok {bytes : Bytes} :
    readLength bytes = .ok (n, rest) ↔ bytes = decimal n ++ 58 :: rest ∧ n ≤ allocLimit := by
  constructor
  · intro read
    unfold readLength at read
    split at read
    · cases read
    case h_2 digits behind loop =>
      obtain ⟨more, same, rfl, all⟩ := literal_of_lengthDigits loop
      rw [nil_append] at same
      subst same
      split at read
      · cases read
      case isFalse even =>
        split at read
        · cases read
        case h_2 body colon =>
          split_ifs at read with large
          cases read
          have filled : digits ≠ [] := fun empty => even (.inl empty)
          have lead : digits.head? ≠ some 48 ∨ digits.length = 1 := by
            by_contra other
            push Not at other
            have long := length_pos_iff.mpr filled
            exact even (.inr ⟨by omega, other.1⟩)
          rw [decimal_value filled all lead, consumeByte_eq_ok.mp colon]
          exact ⟨rfl, Nat.not_lt.mp large⟩
  · rintro ⟨rfl, fits⟩
    have short : (decimal n).length ≤ 10 := (length_decimal_le (by decide)).mpr (by unfold allocLimit at fits; omega)
    have loop : lengthDigits [] (decimal n ++ 58 :: rest) = .ok (decimal n, 58 :: rest) :=
      lengthDigits_literal (fun c => isDigit_of_mem_decimal) (fun _ => short)
    have even : ¬ (decimal n = [] ∨ (decimal n).length > 1 ∧ (decimal n).head? = some 48) := by
      rintro (empty | ⟨long, zero⟩)
      · exact decimal_ne_nil n empty
      · have null : n = 0 := by
          by_contra positive
          exact head_decimal positive zero
        subst null
        exact absurd long (by decide)
    rw [readLength, loop]
    simp [even, consumeByte, Nat.not_lt.mpr fits]

theorem readString_eq_ok {s : Bytes} :
    readString d = .ok (s, after) ↔ d.rest = writeString s ++ after.rest ∧
      after.bytesAllocated = d.bytesAllocated + s.length ∧ after.bytesAllocated ≤ allocLimit := by
  constructor
  · intro read
    unfold readString at read
    split at read
    · cases read
    case h_2 c _ start =>
      split at read
      · cases read
      split at read
      · cases read
      case h_2 len rest length =>
        obtain ⟨text, -⟩ := readLength_eq_ok.mp length
        split at read
        · cases read
        case h_2 d' paid =>
          obtain ⟨rfl, fits⟩ := account_eq_ok.mp paid
          split_ifs at read with enough
          cases read
          have size : (rest.take len).length = len := by simpa using enough
          refine ⟨?_, by rw [size], fits⟩
          rw [writeString, size, text, append_assoc, cons_append, take_append_drop]
  · rintro ⟨text, paid, fits⟩
    obtain ⟨c, more, head⟩ := exists_cons_of_ne_nil (decimal_ne_nil s.length)
    have digit : isDigit c = true := isDigit_of_mem_decimal (n := s.length) (by simp [head])
    have length : readLength d.rest = .ok (s.length, s ++ after.rest) := by
      refine readLength_eq_ok.mpr ⟨?_, by omega⟩
      rw [text, writeString, append_assoc, cons_append]
    have start : d.rest = c :: (more ++ 58 :: s ++ after.rest) := by
      rw [text, writeString, head]
      simp
    have charged : account s.length { d with rest := s ++ after.rest } =
        .ok ⟨s ++ after.rest, d.bytesAllocated + s.length⟩ := account_eq_ok.mpr ⟨rfl, by rwa [← paid]⟩
    unfold readString
    rw [length, start]
    simp [digit, charged, ← paid]

/-- The text of a value as the reader goes through it: literals as they are written, and the
entries of dictionaries in their order. -/
inductive Text
  | integer (literal : Bytes)
  | string (content : Bytes)
  | list (items : List Text)
  | dict (entries : List (Bytes × Text))

namespace Text

mutual
def bytes : Text → Bytes
  | .integer literal => 105 :: literal ++ [101]
  | .string content => writeString content
  | .list items => 108 :: itemsBytes items ++ [101]
  | .dict entries => 100 :: entriesBytes entries ++ [101]

def itemsBytes : List Text → Bytes
  | [] => []
  | item :: items => item.bytes ++ itemsBytes items

def entriesBytes : List (Bytes × Text) → Bytes
  | [] => []
  | (key, item) :: entries => writeString key ++ item.bytes ++ entriesBytes entries
end

mutual
def value : Text → Bencode
  | .integer literal => .integer (strtoll literal)
  | .string content => .string content
  | .list items => .list (itemsValue items)
  | .dict entries => .dict (entriesValue [] entries)

def itemsValue : List Text → List Bencode
  | [] => []
  | item :: items => item.value :: itemsValue items

def entriesValue : List (Bytes × Bencode) → List (Bytes × Text) → List (Bytes × Bencode)
  | done, [] => done
  | done, (key, item) :: entries => entriesValue (assign key item.value done) entries
end

mutual
def cost : Text → Nat
  | .integer _ => 0
  | .string content => content.length
  | .list items => itemsCost items
  | .dict entries => entriesCost entries

def itemsCost : List Text → Nat
  | [] => 0
  | item :: items => item.cost + 1 + itemsCost items

def entriesCost : List (Bytes × Text) → Nat
  | [] => 0
  | (key, item) :: entries => key.length + item.cost + 1 + entriesCost entries
end

mutual
def Literals (P : Bytes → Prop) : Text → Prop
  | .integer literal => P literal
  | .string _ => True
  | .list items => ItemsLiterals P items
  | .dict entries => EntriesLiterals P entries

def ItemsLiterals (P : Bytes → Prop) : List Text → Prop
  | [] => True
  | item :: items => item.Literals P ∧ ItemsLiterals P items

def EntriesLiterals (P : Bytes → Prop) : List (Bytes × Text) → Prop
  | [] => True
  | (_, item) :: entries => item.Literals P ∧ EntriesLiterals P entries
end

attribute [simp] bytes itemsBytes entriesBytes value itemsValue entriesValue cost itemsCost entriesCost
  Literals ItemsLiterals EntriesLiterals

theorem writeString_head (content : Bytes) : ∃ c more, writeString content = c :: more ∧ isDigit c = true := by
  obtain ⟨c, more, head⟩ := exists_cons_of_ne_nil (decimal_ne_nil content.length)
  have member : c ∈ decimal content.length := by simp [head]
  exact ⟨c, more ++ 58 :: content, by simp [writeString, head], isDigit_of_mem_decimal member⟩

theorem bytes_head (t : Text) : ∃ c more, t.bytes = c :: more ∧ c ≠ 101 := by
  cases t with
  | integer literal => exact ⟨105, literal ++ [101], by simp, by decide⟩
  | string content =>
    obtain ⟨c, more, text, digit⟩ := writeString_head content
    exact ⟨c, more, by simp [text], isDigit_ne digit rfl⟩
  | list items => exact ⟨108, itemsBytes items ++ [101], by simp, by decide⟩
  | dict entries => exact ⟨100, entriesBytes entries ++ [101], by simp, by decide⟩

end Text

theorem account_fits {used : Nat} (fits : used + n ≤ allocLimit) :
    account n ⟨rest, used⟩ = .ok ⟨rest, used + n⟩ := account_eq_ok.mpr ⟨rfl, fits⟩

theorem readString_text {s : Bytes} {used : Nat} (fits : used + s.length ≤ allocLimit) :
    readString ⟨writeString s ++ rest, used⟩ = .ok (s, ⟨rest, used + s.length⟩) :=
  readString_eq_ok.mpr ⟨rfl, rfl, fits⟩

theorem readItems_item {done : List Bencode} {behind paid : Stream} {item : Bencode} (start : d.rest = c :: more)
    (other : c ≠ 101) (read : readValue fuel d = .ok (item, behind))
    (charged : account 1 behind = .ok paid) :
    readItems (fuel + 1) done d = readItems fuel (done ++ [item]) paid := by
  rw [readItems, start]
  simp [other, read, charged]

theorem readEntries_entry {done : List (Bytes × Bencode)} {named behind paid : Stream} {key : Bytes}
    {item : Bencode} (start : d.rest = c :: more) (other : c ≠ 101)
    (name : readString d = .ok (key, named)) (read : readValue fuel named = .ok (item, behind))
    (charged : account 1 behind = .ok paid) :
    readEntries (fuel + 1) done d = readEntries fuel (assign key item done) paid := by
  rw [readEntries, start]
  simp [other, name, read, charged]

mutual
/-- With enough calls the reader gets the value of every text whose literals are spelled as it
takes them and that fits into the limit. -/
theorem readValue_text : ∀ (t : Text) (fuel : Nat) (rest : Bytes) (used : Nat), t.Literals Spelled →
    2 * t.bytes.length ≤ fuel → used + t.cost ≤ allocLimit →
    readValue fuel ⟨t.bytes ++ rest, used⟩ = .ok (t.value, ⟨rest, used + t.cost⟩)
  | .integer literal, fuel, rest, used, spelled, enough, fits => by
    simp only [Text.bytes, length_append, length_cons, length_nil] at enough
    obtain ⟨fuel, rfl⟩ : ∃ n, fuel = n + 1 := ⟨fuel - 1, by omega⟩
    have read : readInteger (105 :: literal ++ 101 :: rest) = .ok (strtoll literal, rest) :=
      readInteger_eq_ok.mpr ⟨literal, by simpa using spelled, rfl, rfl⟩
    rw [cons_append] at read
    simp [readValue, read, Except.map]
  | .string content, fuel, rest, used, spelled, enough, fits => by
    obtain ⟨c, more, text, digit⟩ := Text.writeString_head content
    simp only [Text.bytes, text, length_cons] at enough
    obtain ⟨fuel, rfl⟩ : ∃ n, fuel = n + 1 := ⟨fuel - 1, by omega⟩
    have read : readString ⟨writeString content ++ rest, used⟩ = .ok (content, ⟨rest, used + content.length⟩) :=
      readString_text (by simpa using fits)
    have other : c ≠ 105 ∧ c ≠ 108 ∧ c ≠ 100 := ⟨isDigit_ne digit rfl, isDigit_ne digit rfl, isDigit_ne digit rfl⟩
    simp only [Text.bytes, Text.value, Text.cost]
    rw [text] at read ⊢
    simp only [cons_append] at read ⊢
    simp [readValue, other, digit, read, Except.map]
  | .list items, fuel, rest, used, spelled, enough, fits => by
    simp only [Text.bytes, length_append, length_cons, length_nil] at enough
    obtain ⟨fuel, rfl⟩ : ∃ n, fuel = n + 1 := ⟨fuel - 1, by omega⟩
    have read := readItems_text items fuel [] rest used (by simpa using spelled) (by omega)
      (by simpa using fits)
    simp [readValue, read]
  | .dict entries, fuel, rest, used, spelled, enough, fits => by
    simp only [Text.bytes, length_append, length_cons, length_nil] at enough
    obtain ⟨fuel, rfl⟩ : ∃ n, fuel = n + 1 := ⟨fuel - 1, by omega⟩
    have read := readEntries_text entries fuel [] rest used (by simpa using spelled) (by omega)
      (by simpa using fits)
    simp [readValue, read]

theorem readItems_text : ∀ (items : List Text) (fuel : Nat) (done : List Bencode) (rest : Bytes) (used : Nat),
    Text.ItemsLiterals Spelled items → 2 * (Text.itemsBytes items).length + 1 ≤ fuel →
    used + Text.itemsCost items ≤ allocLimit →
    readItems fuel done ⟨Text.itemsBytes items ++ 101 :: rest, used⟩ =
      .ok (.list (done ++ Text.itemsValue items), ⟨rest, used + Text.itemsCost items⟩)
  | [], fuel, done, rest, used, spelled, enough, fits => by
    obtain ⟨fuel, rfl⟩ : ∃ n, fuel = n + 1 := ⟨fuel - 1, by omega⟩
    simp [readItems]
  | item :: items, fuel, done, rest, used, spelled, enough, fits => by
    obtain ⟨fuel, rfl⟩ : ∃ n, fuel = n + 1 := ⟨fuel - 1, by omega⟩
    obtain ⟨c, more, text, other⟩ := item.bytes_head
    have positive : 0 < item.bytes.length := by simp [text]
    simp only [Text.itemsBytes, length_append] at enough
    simp only [Text.itemsCost] at fits
    obtain ⟨first, others⟩ : item.Literals Spelled ∧ Text.ItemsLiterals Spelled items := by
      simpa using spelled
    have head := readValue_text item fuel (Text.itemsBytes items ++ 101 :: rest) used first (by omega) (by omega)
    have tail := readItems_text items fuel (done ++ [item.value]) rest (used + item.cost + 1) others
      (by omega) (by omega)
    simp only [Text.itemsBytes, Text.itemsValue, Text.itemsCost, append_assoc]
    rw [readItems_item (by rw [text]; rfl) other head (account_fits (by omega)), tail]
    simp [Nat.add_assoc]

theorem readEntries_text : ∀ (entries : List (Bytes × Text)) (fuel : Nat) (done : List (Bytes × Bencode))
    (rest : Bytes) (used : Nat),
    Text.EntriesLiterals Spelled entries → 2 * (Text.entriesBytes entries).length + 1 ≤ fuel →
    used + Text.entriesCost entries ≤ allocLimit →
    readEntries fuel done ⟨Text.entriesBytes entries ++ 101 :: rest, used⟩ =
      .ok (.dict (Text.entriesValue done entries), ⟨rest, used + Text.entriesCost entries⟩)
  | [], fuel, done, rest, used, spelled, enough, fits => by
    obtain ⟨fuel, rfl⟩ : ∃ n, fuel = n + 1 := ⟨fuel - 1, by omega⟩
    simp [readEntries]
  | (key, item) :: entries, fuel, done, rest, used, spelled, enough, fits => by
    obtain ⟨fuel, rfl⟩ : ∃ n, fuel = n + 1 := ⟨fuel - 1, by omega⟩
    obtain ⟨c, more, text, digit⟩ := Text.writeString_head key
    have positive : 0 < (writeString key).length := by simp [text]
    simp only [Text.entriesBytes, length_append] at enough
    simp only [Text.entriesCost] at fits
    obtain ⟨first, others⟩ : item.Literals Spelled ∧ Text.EntriesLiterals Spelled entries := by
      simpa using spelled
    have head := readValue_text item fuel (Text.entriesBytes entries ++ 101 :: rest) (used + key.length) first
      (by omega) (by omega)
    have tail := readEntries_text entries fuel (assign key item.value done) rest (used + key.length + item.cost + 1)
      others (by omega) (by omega)
    simp only [Text.entriesBytes, Text.entriesValue, Text.entriesCost, append_assoc]
    rw [readEntries_entry (by rw [text]; rfl) (isDigit_ne digit rfl) (readString_text (by omega)) head
      (account_fits (by omega)), tail]
    simp [Nat.add_assoc]
end

structure Read (t : Text) (d after : Stream) : Prop where
  spelled : t.Literals Spelled
  bytes : d.rest = t.bytes ++ after.rest
  charged : after.bytesAllocated = d.bytesAllocated + t.cost
  fits : d.bytesAllocated ≤ allocLimit → after.bytesAllocated ≤ allocLimit

theorem readItems_cases {done : List Bencode} {result : Bencode × Stream}
    (read : readItems (fuel + 1) done d = .ok result) :
    (∃ rest, d.rest = 101 :: rest ∧ result = (.list done, { d with rest })) ∨
      ∃ item behind, readValue fuel d = .ok (item, behind) ∧ behind.bytesAllocated + 1 ≤ allocLimit ∧
        readItems fuel (done ++ [item]) { behind with bytesAllocated := behind.bytesAllocated + 1 } = .ok result := by
  rw [readItems] at read
  split at read
  · cases read
  case h_2 c rest start =>
    split_ifs at read with ends
    · cases read
      exact .inl ⟨rest, ends ▸ start, rfl⟩
    · split at read
      · cases read
      case h_2 item behind value =>
        split at read
        · cases read
        case h_2 paid charge =>
          obtain ⟨rfl, fits⟩ := account_eq_ok.mp charge
          exact .inr ⟨item, behind, value, fits, read⟩

theorem readEntries_cases {done : List (Bytes × Bencode)} {result : Bencode × Stream}
    (read : readEntries (fuel + 1) done d = .ok result) :
    (∃ rest, d.rest = 101 :: rest ∧ result = (.dict done, { d with rest })) ∨
      ∃ key named item behind, readString d = .ok (key, named) ∧ readValue fuel named = .ok (item, behind) ∧
        behind.bytesAllocated + 1 ≤ allocLimit ∧
        readEntries fuel (assign key item done) { behind with bytesAllocated := behind.bytesAllocated + 1 } =
          .ok result := by
  rw [readEntries] at read
  split at read
  · cases read
  case h_2 c rest start =>
    split_ifs at read with ends
    · cases read
      exact .inl ⟨rest, ends ▸ start, rfl⟩
    · split at read
      · cases read
      case h_2 key named name =>
        split at read
        · cases read
        case h_2 item behind value =>
          split at read
          · cases read
          case h_2 paid charge =>
            obtain ⟨rfl, fits⟩ := account_eq_ok.mp charge
            exact .inr ⟨key, named, item, behind, name, value, fits, read⟩

theorem readValue_cases {v : Bencode} (read : readValue (fuel + 1) d = .ok (v, after)) :
    (∃ i rest, readInteger d.rest = .ok (i, rest) ∧ v = .integer i ∧ after = { d with rest }) ∨
      (∃ rest, d.rest = 108 :: rest ∧ readItems fuel [] { d with rest } = .ok (v, after)) ∨
      (∃ rest, d.rest = 100 :: rest ∧ readEntries fuel [] { d with rest } = .ok (v, after)) ∨
      ∃ s, readString d = .ok (s, after) ∧ v = .string s := by
  rw [readValue] at read
  split at read
  · cases read
  case h_2 c rest start =>
    split_ifs at read with integer list dict string
    · cases number : readInteger d.rest with
      | error e => simp [number, Except.map] at read
      | ok result =>
        rw [number] at read
        cases read
        exact .inl ⟨_, _, rfl, rfl, rfl⟩
    · exact .inr (.inl ⟨rest, list ▸ start, read⟩)
    · exact .inr (.inr (.inl ⟨rest, dict ▸ start, read⟩))
    · cases text : readString d with
      | error e => simp [text, Except.map] at read
      | ok result =>
        rw [text] at read
        cases read
        exact .inr (.inr (.inr ⟨_, rfl, rfl⟩))

theorem text_of_read (fuel : Nat) :
    (∀ d v after, readValue fuel d = .ok (v, after) → ∃ t, Read t d after ∧ v = t.value) ∧
    (∀ done d v after, readItems fuel done d = .ok (v, after) → ∃ items, v = .list (done ++ Text.itemsValue items) ∧
      Text.ItemsLiterals Spelled items ∧ d.rest = Text.itemsBytes items ++ 101 :: after.rest ∧
      after.bytesAllocated = d.bytesAllocated + Text.itemsCost items ∧
      (d.bytesAllocated ≤ allocLimit → after.bytesAllocated ≤ allocLimit)) ∧
    ∀ done d v after, readEntries fuel done d = .ok (v, after) →
      ∃ entries, v = .dict (Text.entriesValue done entries) ∧
      Text.EntriesLiterals Spelled entries ∧ d.rest = Text.entriesBytes entries ++ 101 :: after.rest ∧
      after.bytesAllocated = d.bytesAllocated + Text.entriesCost entries ∧
      (d.bytesAllocated ≤ allocLimit → after.bytesAllocated ≤ allocLimit) := by
  induction fuel with
  | zero => simp [readValue, readItems, readEntries]
  | succ fuel ih =>
    obtain ⟨values, items, entries⟩ := ih
    refine ⟨?_, ?_, ?_⟩
    · intro d v after read
      rcases readValue_cases read with
        ⟨i, rest, number, rfl, rfl⟩ | ⟨rest, start, loop⟩ | ⟨rest, start, loop⟩ | ⟨s, text, rfl⟩
      · obtain ⟨literal, spelled, same, rfl⟩ := readInteger_eq_ok.mp number
        exact ⟨.integer literal, ⟨by simpa using spelled, by simpa using same,
          by simp, id⟩, by simp⟩
      · obtain ⟨parts, rfl, spelled, same, charged, fits⟩ := items _ _ _ _ loop
        exact ⟨.list parts, ⟨by simpa using spelled, by simpa [start] using same,
          by simpa using charged, fits⟩, by simp⟩
      · obtain ⟨parts, rfl, spelled, same, charged, fits⟩ := entries _ _ _ _ loop
        exact ⟨.dict parts, ⟨by simpa using spelled, by simpa [start] using same,
          by simpa using charged, fits⟩, by simp⟩
      · obtain ⟨same, charged, fits⟩ := readString_eq_ok.mp text
        exact ⟨.string s, ⟨by simp, by simpa using same,
          by simpa using charged, fun _ => fits⟩, by simp⟩
    · intro done d v after read
      rcases readItems_cases read with ⟨rest, start, ends⟩ | ⟨item, behind, value, limit, loop⟩
      · cases ends
        exact ⟨[], by simp [start]⟩
      · obtain ⟨t, first, rfl⟩ := values _ _ _ value
        obtain ⟨parts, rfl, spelled, same, charged, fits⟩ := items _ _ _ _ loop
        refine ⟨t :: parts, by simp, by simp [first.spelled, spelled], ?_, ?_,
          fun _ => fits limit⟩
        · rw [first.bytes, Text.itemsBytes, append_assoc]
          exact congrArg _ same
        · rw [charged, first.charged, Text.itemsCost]
          dsimp only
          omega
    · intro done d v after read
      rcases readEntries_cases read with ⟨rest, start, ends⟩ | ⟨key, named, item, behind, name, value, limit, loop⟩
      · cases ends
        exact ⟨[], by simp [start]⟩
      · obtain ⟨keyed, paid, -⟩ := readString_eq_ok.mp name
        obtain ⟨t, first, rfl⟩ := values _ _ _ value
        obtain ⟨parts, rfl, spelled, same, charged, fits⟩ := entries _ _ _ _ loop
        refine ⟨(key, t) :: parts, by simp,
          by simp [first.spelled, spelled], ?_, ?_, fun _ => fits limit⟩
        · rw [keyed, first.bytes, Text.entriesBytes, append_assoc, append_assoc]
          exact congrArg _ (congrArg _ same)
        · rw [charged, first.charged, paid, Text.entriesCost]
          dsimp only
          omega

section Unique

variable {rest behind : Bytes}

theorem append_stop_inj {stop : UInt8} {front other : Bytes} (clear : stop ∉ front) (free : stop ∉ other)
    (same : front ++ stop :: rest = other ++ stop :: behind) : front = other ∧ rest = behind := by
  have first : (front ++ stop :: rest).takeWhile (fun c => c != stop) = front := by
    rw [takeWhile_append_of_pos (fun c member => by
      have differs : c ≠ stop := fun equal => clear (equal ▸ member)
      simpa using differs)]
    simp
  have second : (other ++ stop :: behind).takeWhile (fun c => c != stop) = other := by
    rw [takeWhile_append_of_pos (fun c member => by
      have differs : c ≠ stop := fun equal => free (equal ▸ member)
      simpa using differs)]
    simp
  rw [same, second] at first
  subst first
  simpa using same

theorem Spelled.not_mem_end {literal : Bytes} (spelled : Spelled literal) : (101 : UInt8) ∉ literal := by
  obtain ⟨sign, digits, rfl, signed, -, all, -⟩ := spelled
  intro member
  rcases mem_append.mp member with front | digit
  · rcases signed with rfl | rfl <;> simp at front
  · exact absurd (all _ digit) (by decide)

theorem writeString_inj {s other : Bytes} (same : writeString s ++ rest = writeString other ++ behind) :
    s = other ∧ rest = behind := by
  have clear : ∀ n, (58 : UInt8) ∉ decimal n := fun n member =>
    absurd (isDigit_of_mem_decimal member) (by decide)
  simp only [writeString, append_assoc, cons_append] at same
  obtain ⟨lengths, bodies⟩ := append_stop_inj (clear _) (clear _) same
  have equal : s.length = other.length := by
    have values := congrArg Decimal.value lengths
    simpa using values
  exact append_inj bodies equal

/-- The letter of a text; all digits count as one. -/
def Text.kind : Text → UInt8
  | .integer _ => 105
  | .string _ => 48
  | .list _ => 108
  | .dict _ => 100

theorem kind_of_head (t : Text) (rest : Bytes) :
    (t.bytes ++ rest).head?.map (fun c => if isDigit c then 48 else c) = some t.kind := by
  cases t with
  | integer literal => simp [Text.kind, isDigit]
  | string content =>
    obtain ⟨c, more, text, digit⟩ := Text.writeString_head content
    simp [Text.kind, text, digit]
  | list items => simp [Text.kind, isDigit]
  | dict entries => simp [Text.kind, isDigit]

theorem kind_eq {t other : Text} (same : t.bytes ++ rest = other.bytes ++ behind) :
    t.kind = other.kind := by
  have first := kind_of_head t rest
  rw [same, kind_of_head other behind] at first
  exact (Option.some.inj first).symm

mutual
theorem bytes_inj : ∀ (t other : Text) (rest behind : Bytes), t.Literals Spelled → other.Literals Spelled →
    t.bytes ++ rest = other.bytes ++ behind → t = other ∧ rest = behind
  | .integer literal, other, rest, behind, spelled, well, same => by
    have kinds := kind_eq same
    cases other
    case integer another =>
      simp only [Text.Literals] at spelled well
      simp only [Text.bytes, cons_append, append_assoc, cons.injEq, true_and] at same
      obtain ⟨rfl, rfl⟩ := append_stop_inj spelled.not_mem_end well.not_mem_end same
      exact ⟨rfl, rfl⟩
    all_goals exact absurd kinds (by simp [Text.kind])
  | .string content, other, rest, behind, spelled, well, same => by
    have kinds := kind_eq same
    cases other
    case string another =>
      simp only [Text.bytes] at same
      obtain ⟨rfl, rfl⟩ := writeString_inj same
      exact ⟨rfl, rfl⟩
    all_goals exact absurd kinds (by simp [Text.kind])
  | .list items, other, rest, behind, spelled, well, same => by
    have kinds := kind_eq same
    cases other
    case list others =>
      simp only [Text.Literals] at spelled well
      simp only [Text.bytes, cons_append, append_assoc, cons.injEq, true_and] at same
      obtain ⟨rfl, rfl⟩ := itemsBytes_inj items others rest behind spelled well same
      exact ⟨rfl, rfl⟩
    all_goals exact absurd kinds (by simp [Text.kind])
  | .dict entries, other, rest, behind, spelled, well, same => by
    have kinds := kind_eq same
    cases other
    case dict others =>
      simp only [Text.Literals] at spelled well
      simp only [Text.bytes, cons_append, append_assoc, cons.injEq, true_and] at same
      obtain ⟨rfl, rfl⟩ := entriesBytes_inj entries others rest behind spelled well same
      exact ⟨rfl, rfl⟩
    all_goals exact absurd kinds (by simp [Text.kind])

theorem itemsBytes_inj : ∀ (items others : List Text) (rest behind : Bytes), Text.ItemsLiterals Spelled items →
    Text.ItemsLiterals Spelled others →
    Text.itemsBytes items ++ 101 :: rest = Text.itemsBytes others ++ 101 :: behind → items = others ∧ rest = behind
  | [], [], rest, behind, spelled, well, same => by simpa using same
  | [], other :: others, rest, behind, spelled, well, same => by
    obtain ⟨c, more, text, differs⟩ := other.bytes_head
    rw [Text.itemsBytes, Text.itemsBytes, text] at same
    simp at same
    exact absurd same.1.symm differs
  | item :: items, [], rest, behind, spelled, well, same => by
    obtain ⟨c, more, text, differs⟩ := item.bytes_head
    rw [Text.itemsBytes, Text.itemsBytes, text] at same
    simp at same
    exact absurd same.1 differs
  | item :: items, other :: others, rest, behind, spelled, well, same => by
    simp only [Text.itemsBytes, append_assoc] at same
    simp only [Text.ItemsLiterals] at spelled well
    obtain ⟨rfl, later⟩ := bytes_inj item other _ _ spelled.1 well.1 same
    obtain ⟨rfl, rfl⟩ := itemsBytes_inj items others rest behind spelled.2 well.2 later
    exact ⟨rfl, rfl⟩

theorem entriesBytes_inj : ∀ (entries others : List (Bytes × Text)) (rest behind : Bytes),
    Text.EntriesLiterals Spelled entries → Text.EntriesLiterals Spelled others →
    Text.entriesBytes entries ++ 101 :: rest = Text.entriesBytes others ++ 101 :: behind →
    entries = others ∧ rest = behind
  | [], [], rest, behind, spelled, well, same => by simpa using same
  | [], (key, other) :: others, rest, behind, spelled, well, same => by
    obtain ⟨c, more, text, digit⟩ := Text.writeString_head key
    rw [Text.entriesBytes, Text.entriesBytes, text] at same
    simp at same
    exact absurd same.1.symm (isDigit_ne digit rfl)
  | (key, item) :: entries, [], rest, behind, spelled, well, same => by
    obtain ⟨c, more, text, digit⟩ := Text.writeString_head key
    rw [Text.entriesBytes, Text.entriesBytes, text] at same
    simp at same
    exact absurd same.1 (isDigit_ne digit rfl)
  | (key, item) :: entries, (name, other) :: others, rest, behind, spelled, well, same => by
    simp only [Text.entriesBytes, append_assoc] at same
    simp only [Text.EntriesLiterals] at spelled well
    obtain ⟨rfl, values⟩ := writeString_inj same
    obtain ⟨rfl, later⟩ := bytes_inj item other _ _ spelled.1 well.1 values
    obtain ⟨rfl, rfl⟩ := entriesBytes_inj entries others rest behind spelled.2 well.2 later
    exact ⟨rfl, rfl⟩
end

end Unique

end Qtng.Bencode
