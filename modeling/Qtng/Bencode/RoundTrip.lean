import Qtng.Bencode.Text

namespace Qtng.Bencode

open BigEndian Decimal List Text

section Literals

theorem number_digits {digits : Bytes} (all : ∀ c ∈ digits, isDigit c = true) : number digits = value digits := by
  unfold number
  split
  case h_1 rest => exact absurd (all 45 (by simp)) (by decide)
  · rfl

@[simp]
theorem number_toText (i : Int64) : number (toText i) = i.toInt := by
  unfold toText
  split_ifs with negative
  · simp only [number, value_decimal]
    omega
  · rw [number_digits (fun c => isDigit_of_mem_decimal), value_decimal]
    omega

theorem toInt_strtoll {literal : Bytes} (least : -2 ^ 63 ≤ number literal) (most : number literal < 2 ^ 63) :
    (strtoll literal).toInt = number literal :=
  Int64.toInt_ofIntClamp (by simpa using least) (by rw [Int64.toInt_maxValue]; omega)

@[simp]
theorem strtoll_toText (i : Int64) : strtoll (toText i) = i := by
  apply Int64.toInt_inj.mp
  rw [toInt_strtoll (by simpa using i.le_toInt) (by simpa using i.toInt_lt), number_toText]

theorem spelled_toText (i : Int64) : Spelled (toText i) := by
  have least := i.le_toInt
  have most := i.toInt_lt
  have short : (decimal i.toInt.natAbs).length ≤ 19 := (length_decimal_le (by decide)).mpr (by omega)
  have shape : decimal i.toInt.natAbs = [48] ∨ (decimal i.toInt.natAbs).head? ≠ some 48 := by
    by_cases zero : i.toInt.natAbs = 0
    · rw [zero]
      exact .inl rfl
    · exact .inr (head_decimal zero)
  unfold toText
  split_ifs
  · refine ⟨[45], _, rfl, .inr rfl, decimal_ne_nil _, fun c => isDigit_of_mem_decimal, shape.imp id ?_⟩
    exact fun lead => ⟨lead, by simp; omega⟩
  · refine ⟨[], _, rfl, .inl rfl, decimal_ne_nil _, fun c => isDigit_of_mem_decimal, shape.imp id ?_⟩
    exact fun lead => ⟨lead, by omega⟩

/-- A literal that denotes the decoded number and is not the second way to write zero. -/
def Exact (literal : Bytes) : Prop := literal ≠ [45, 48] ∧ -2 ^ 63 ≤ number literal ∧ number literal < 2 ^ 63

theorem exact_iff {literal : Bytes} (spelled : Spelled literal) :
    toText (strtoll literal) = literal ↔ Exact literal := by
  constructor
  · intro same
    have denotes := number_toText (strtoll literal)
    rw [same] at denotes
    refine ⟨?_, by rw [denotes]; exact Int64.le_toInt _, by rw [denotes]; exact Int64.toInt_lt _⟩
    rintro rfl
    exact absurd same (by decide)
  · rintro ⟨other, least, most⟩
    have denotes := toInt_strtoll least most
    obtain ⟨sign, digits, rfl, signed, filled, all, shape⟩ := spelled
    have lead : digits.head? ≠ some 48 ∨ digits.length = 1 := by
      rcases shape with rfl | ⟨lead, -⟩
      · exact .inr rfl
      · exact .inl lead
    have digitsOf := decimal_value filled all lead
    rw [toText, denotes]
    rcases signed with rfl | rfl
    · simp only [nil_append] at *
      rw [number_digits all, if_neg (by omega), Int.natAbs_natCast, digitsOf]
    · have minus : number ([45] ++ digits) = -(value digits : Int) := rfl
      have positive : value digits ≠ 0 := by
        intro zero
        rw [zero] at digitsOf
        rw [← digitsOf] at other
        exact other rfl
      rw [minus, if_pos (by omega), Int.natAbs_neg, Int.natAbs_natCast, digitsOf]
      rfl

end Literals

section Written

mutual
/-- The keys of every dictionary stand in the order that they have in a map. -/
def Text.Increasing : Text → Prop
  | .integer _ => True
  | .string _ => True
  | .list items => ItemsIncreasing items
  | .dict entries => (entries.map Prod.fst).Pairwise (· < ·) ∧ EntriesIncreasing entries

def Text.ItemsIncreasing : List Text → Prop
  | [] => True
  | item :: items => item.Increasing ∧ ItemsIncreasing items

def Text.EntriesIncreasing : List (Bytes × Text) → Prop
  | [] => True
  | (_, item) :: entries => item.Increasing ∧ EntriesIncreasing entries
end

mutual
/-- The text with every literal written as the decoded number is written. -/
def Text.normal : Text → Text
  | .integer literal => .integer (toText (strtoll literal))
  | .string content => .string content
  | .list items => .list (itemsNormal items)
  | .dict entries => .dict (entriesNormal entries)

def Text.itemsNormal : List Text → List Text
  | [] => []
  | item :: items => item.normal :: itemsNormal items

def Text.entriesNormal : List (Bytes × Text) → List (Bytes × Text)
  | [] => []
  | (key, item) :: entries => (key, item.normal) :: entriesNormal entries
end

attribute [simp] Text.Increasing Text.ItemsIncreasing Text.EntriesIncreasing normal itemsNormal
  entriesNormal

theorem assign_last {V : Type*} {key : Bytes} {item : V} {done : List (Bytes × V)}
    (behind : ∀ entry ∈ done, entry.1 < key) : assign key item done = done ++ [(key, item)] := by
  induction done with
  | nil => rfl
  | cons entry done ih =>
    obtain ⟨other, old⟩ := entry
    have less : other < key := behind (other, old) (by simp)
    have differs : key ≠ other := fun same => List.lt_irrefl key (same ▸ less)
    rw [assign, if_neg (List.lt_asymm less), if_neg differs, ih (fun entry member => behind entry (by simp [member]))]
    rfl

theorem entriesValue_sorted {entries : List (Bytes × Text)} {done : List (Bytes × Bencode)}
    (sorted : (entries.map Prod.fst).Pairwise (· < ·))
    (behind : ∀ entry ∈ done, ∀ key ∈ entries.map Prod.fst, entry.1 < key) :
    entriesValue done entries = done ++ entries.map (fun entry => (entry.1, entry.2.value)) := by
  induction entries generalizing done with
  | nil => simp
  | cons entry entries ih =>
    obtain ⟨key, item⟩ := entry
    rw [map_cons, pairwise_cons] at sorted
    have last : assign key item.value done = done ++ [(key, item.value)] :=
      assign_last (fun entry member => behind entry member key (by simp))
    rw [entriesValue, last, ih sorted.2]
    · simp
    · intro entry member other listed
      rcases mem_append.mp member with old | new
      · exact behind entry old other (mem_cons_of_mem _ listed)
      · rw [mem_singleton.mp new]
        exact sorted.1 other listed

mutual
theorem writeValue_value : ∀ t : Text, t.Increasing → writeValue t.value = (t.normal.bytes, true)
  | .integer literal, _ => by simp [writeValue, writeInteger]
  | .string content, _ => by simp [writeValue]
  | .list items, increasing => by
    have body := writeItems_value items (by simpa using increasing)
    simp [writeValue, body]
  | .dict entries, increasing => by
    simp only [Text.Increasing] at increasing
    have body := writeEntries_value entries increasing.2
    have sorted : Text.entriesValue [] entries = entries.map (fun entry => (entry.1, entry.2.value)) :=
      entriesValue_sorted increasing.1 (by simp)
    rw [Text.value, sorted]
    simp [writeValue, body]

theorem writeItems_value : ∀ items : List Text, Text.ItemsIncreasing items →
    writeItems (itemsValue items) = (itemsBytes (itemsNormal items), true)
  | [], _ => by simp [writeItems]
  | item :: items, increasing => by
    simp only [Text.ItemsIncreasing] at increasing
    have first := writeValue_value item increasing.1
    have others := writeItems_value items increasing.2
    simp [writeItems, first, others]

theorem writeEntries_value : ∀ entries : List (Bytes × Text), Text.EntriesIncreasing entries →
    writeEntries (entries.map (fun entry => (entry.1, entry.2.value))) =
      (entriesBytes (entriesNormal entries), true)
  | [], _ => by simp [writeEntries]
  | (key, item) :: entries, increasing => by
    simp only [Text.EntriesIncreasing] at increasing
    have first := writeValue_value item increasing.1
    have others := writeEntries_value entries increasing.2
    simp [writeEntries, first, others]
end

mutual
theorem spelled_normal : ∀ t : Text, t.normal.Literals Spelled
  | .integer literal => by simpa using spelled_toText _
  | .string content => by simp
  | .list items => by simpa using spelled_itemsNormal items
  | .dict entries => by simpa using spelled_entriesNormal entries

theorem spelled_itemsNormal : ∀ items : List Text, Text.ItemsLiterals Spelled (itemsNormal items)
  | [] => by simp
  | item :: items => by
    simpa using ⟨spelled_normal item, spelled_itemsNormal items⟩

theorem spelled_entriesNormal : ∀ entries : List (Bytes × Text),
    Text.EntriesLiterals Spelled (entriesNormal entries)
  | [] => by simp
  | (key, item) :: entries => by
    simpa using ⟨spelled_normal item, spelled_entriesNormal entries⟩
end

mutual
theorem normal_eq_iff : ∀ t : Text, t.normal = t ↔ t.Literals (fun literal => toText (strtoll literal) = literal)
  | .integer literal => by simp
  | .string content => by simp
  | .list items => by simpa using itemsNormal_eq_iff items
  | .dict entries => by simpa using entriesNormal_eq_iff entries

theorem itemsNormal_eq_iff : ∀ items : List Text,
    itemsNormal items = items ↔ Text.ItemsLiterals (fun literal => toText (strtoll literal) = literal) items
  | [] => by simp
  | item :: items => by
    simp [normal_eq_iff item, itemsNormal_eq_iff items]

theorem entriesNormal_eq_iff : ∀ entries : List (Bytes × Text),
    entriesNormal entries = entries ↔
      Text.EntriesLiterals (fun literal => toText (strtoll literal) = literal) entries
  | [] => by simp
  | (key, item) :: entries => by
    simp [normal_eq_iff item, entriesNormal_eq_iff entries]
end

mutual
theorem Text.Literals.congr {P Q R : Bytes → Prop} (agree : ∀ literal, R literal → (P literal ↔ Q literal)) :
    ∀ t : Text, t.Literals R → (t.Literals P ↔ t.Literals Q)
  | .integer literal, holds => by simpa using agree literal (by simpa using holds)
  | .string content, _ => by simp
  | .list items, holds => by
    simpa using Text.ItemsLiterals.congr agree items (by simpa using holds)
  | .dict entries, holds => by
    simpa using Text.EntriesLiterals.congr agree entries (by simpa using holds)

theorem Text.ItemsLiterals.congr {P Q R : Bytes → Prop} (agree : ∀ literal, R literal → (P literal ↔ Q literal)) :
    ∀ items : List Text, Text.ItemsLiterals R items → (Text.ItemsLiterals P items ↔ Text.ItemsLiterals Q items)
  | [], _ => by simp
  | item :: items, holds => by
    simp only [Text.ItemsLiterals] at holds ⊢
    exact and_congr (Text.Literals.congr agree item holds.1) (Text.ItemsLiterals.congr agree items holds.2)

theorem Text.EntriesLiterals.congr {P Q R : Bytes → Prop} (agree : ∀ literal, R literal → (P literal ↔ Q literal)) :
    ∀ entries : List (Bytes × Text), Text.EntriesLiterals R entries →
      (Text.EntriesLiterals P entries ↔ Text.EntriesLiterals Q entries)
  | [], _ => by simp
  | (key, item) :: entries, holds => by
    simp only [Text.EntriesLiterals] at holds ⊢
    exact and_congr (Text.Literals.congr agree item holds.1) (Text.EntriesLiterals.congr agree entries holds.2)
end

theorem encode_value_iff {t : Text} (spelled : t.Literals Spelled) (increasing : t.Increasing) :
    encode t.value = t.bytes ↔ t.Literals Exact := by
  rw [encode, writeValue_value t increasing,
    ← Text.Literals.congr (fun literal literal_spelled => exact_iff literal_spelled) t spelled, ← normal_eq_iff]
  constructor
  · intro same
    exact (bytes_inj t.normal t [] [] (spelled_normal t) spelled (by simpa using same)).1
  · intro same
    rw [same]

end Written

section Values

mutual
/-- A value without an invalid part, its dictionaries in the order of a map. -/
def Valid : Bencode → Prop
  | .invalid => False
  | .integer _ => True
  | .string _ => True
  | .list items => ItemsValid items
  | .dict entries => (entries.map Prod.fst).Pairwise (· < ·) ∧ EntriesValid entries

def ItemsValid : List Bencode → Prop
  | [] => True
  | item :: items => item.Valid ∧ ItemsValid items

def EntriesValid : List (Bytes × Bencode) → Prop
  | [] => True
  | (_, item) :: entries => item.Valid ∧ EntriesValid entries
end

mutual
/-- What a value counts against the length limit: the bytes of its strings, and one for each item
and each entry. -/
def cost : Bencode → Nat
  | .invalid => 0
  | .integer _ => 0
  | .string s => s.length
  | .list items => itemsCost items
  | .dict entries => entriesCost entries

def itemsCost : List Bencode → Nat
  | [] => 0
  | item :: items => item.cost + 1 + itemsCost items

def entriesCost : List (Bytes × Bencode) → Nat
  | [] => 0
  | (key, item) :: entries => key.length + item.cost + 1 + entriesCost entries
end

mutual
def text : Bencode → Text
  | .invalid => .string []
  | .integer i => .integer (toText i)
  | .string s => .string s
  | .list items => .list (itemsText items)
  | .dict entries => .dict (entriesText entries)

def itemsText : List Bencode → List Text
  | [] => []
  | item :: items => item.text :: itemsText items

def entriesText : List (Bytes × Bencode) → List (Bytes × Text)
  | [] => []
  | (key, item) :: entries => (key, item.text) :: entriesText entries
end

attribute [simp] cost itemsCost entriesCost text itemsText entriesText

theorem keys_entriesText (entries : List (Bytes × Bencode)) :
    (entriesText entries).map Prod.fst = entries.map Prod.fst := by
  induction entries with
  | nil => rfl
  | cons entry entries ih => simp [ih]

/-- A written text is that of its value: it has the value, increasing keys, the cost of the value,
and its literals are those of numbers. -/
structure Written (v : Bencode) : Prop where
  value : v.text.value = v
  increasing : v.text.Increasing
  cost : v.text.cost = v.cost
  literals : ∀ P : Bytes → Prop, (∀ i, P (toText i)) → v.text.Literals P

mutual
theorem Valid.written : ∀ v : Bencode, v.Valid → v.Written
  | .invalid, valid => by simp [Valid] at valid
  | .integer i, _ => ⟨by simp, by simp, by simp,
      fun P holds => by simpa using holds i⟩
  | .string s, _ => ⟨by simp, by simp, by simp,
      fun P _ => by simp⟩
  | .list items, valid => by
    obtain ⟨same, increasing, paid, literals⟩ := ItemsValid.written items (by simpa [Valid] using valid)
    exact ⟨by simpa using same, by simpa using increasing,
      by simpa using paid, fun P holds => by simpa using literals P holds⟩
  | .dict entries, valid => by
    simp only [Valid] at valid
    obtain ⟨same, increasing, paid, literals⟩ := EntriesValid.written entries valid.2
    have sorted : ((entriesText entries).map Prod.fst).Pairwise (· < ·) := by
      rw [keys_entriesText]
      exact valid.1
    refine ⟨?_, by simpa using ⟨by simpa using sorted, increasing⟩,
      by simpa using paid, fun P holds => by simpa using literals P holds⟩
    rw [text, Text.value, entriesValue_sorted sorted (by simp), nil_append, same]

theorem ItemsValid.written : ∀ items : List Bencode, ItemsValid items →
    Text.itemsValue (itemsText items) = items ∧ Text.ItemsIncreasing (itemsText items) ∧
      Text.itemsCost (itemsText items) = itemsCost items ∧
      ∀ P : Bytes → Prop, (∀ i, P (toText i)) → Text.ItemsLiterals P (itemsText items)
  | [], _ => by simp
  | item :: items, valid => by
    simp only [ItemsValid] at valid
    have first := Valid.written item valid.1
    obtain ⟨same, increasing, paid, literals⟩ := ItemsValid.written items valid.2
    refine ⟨by simp [first.value, same],
      by simp [first.increasing, increasing],
      by simp [first.cost, paid], fun P holds => ?_⟩
    simp only [itemsText, Text.ItemsLiterals]
    exact ⟨first.literals P holds, literals P holds⟩

theorem EntriesValid.written : ∀ entries : List (Bytes × Bencode), EntriesValid entries →
    (entriesText entries).map (fun entry => (entry.1, entry.2.value)) = entries ∧
      Text.EntriesIncreasing (entriesText entries) ∧
      Text.entriesCost (entriesText entries) = entriesCost entries ∧
      ∀ P : Bytes → Prop, (∀ i, P (toText i)) → Text.EntriesLiterals P (entriesText entries)
  | [], _ => by simp
  | (key, item) :: entries, valid => by
    simp only [EntriesValid] at valid
    have first := Valid.written item valid.1
    obtain ⟨same, increasing, paid, literals⟩ := EntriesValid.written entries valid.2
    refine ⟨by simp [first.value, same],
      by simp [first.increasing, increasing],
      by simp [first.cost, paid], fun P holds => ?_⟩
    simp only [entriesText, Text.EntriesLiterals]
    exact ⟨first.literals P holds, literals P holds⟩
end

theorem length_toText (i : Int64) : (toText i).length ≤ 20 := by
  have least := i.le_toInt
  have most := i.toInt_lt
  have short : (decimal i.toInt.natAbs).length ≤ 19 := (length_decimal_le (by decide)).mpr (by omega)
  unfold toText
  split_ifs
  · simp only [length_cons]
    omega
  · omega

theorem length_writeString (s : Bytes) : (writeString s).length ≤ 2 * s.length + 2 := by
  have digits : (decimal s.length).length ≤ s.length + 1 :=
    (length_decimal_le (by omega)).mpr (Nat.lt_of_lt_of_le (Nat.lt_succ_self _) (Nat.lt_pow_self (by decide)).le)
  simp only [writeString, length_append, length_cons]
  omega

mutual
theorem length_writeValue : ∀ v : Bencode, (writeValue v).1.length ≤ 24 * v.cost + 22
  | .invalid => by simp [writeValue]
  | .integer i => by
    have short := length_toText i
    simp [writeValue, writeInteger]
    omega
  | .string s => by
    have short := length_writeString s
    simp only [writeValue, cost]
    omega
  | .list items => by
    have short := length_writeItems items
    simp only [writeValue, cost]
    split_ifs <;> simp <;> omega
  | .dict entries => by
    have short := length_writeEntries entries
    simp only [writeValue, cost]
    split_ifs <;> simp <;> omega

theorem length_writeItems : ∀ items : List Bencode, (writeItems items).1.length ≤ 24 * itemsCost items
  | [] => by simp [writeItems]
  | item :: items => by
    have first := length_writeValue item
    have others := length_writeItems items
    simp only [writeItems, itemsCost]
    split_ifs <;> simp <;> omega

theorem length_writeEntries : ∀ entries : List (Bytes × Bencode),
    (writeEntries entries).1.length ≤ 24 * entriesCost entries
  | [] => by simp [writeEntries]
  | (key, item) :: entries => by
    have name := length_writeString key
    have first := length_writeValue item
    have others := length_writeEntries entries
    simp only [writeEntries, entriesCost]
    split_ifs <;> simp <;> omega
end

theorem entriesCost_assign (key : Bytes) (item : Bencode) (done : List (Bytes × Bencode)) :
    entriesCost (assign key item done) ≤ entriesCost done + key.length + item.cost + 1 := by
  induction done with
  | nil => simp [assign]
  | cons entry done ih =>
    obtain ⟨other, old⟩ := entry
    rw [assign]
    split_ifs with before same
    · simp only [entriesCost]
      omega
    · simp only [entriesCost]
      omega
    · simp only [entriesCost]
      omega

mutual
theorem cost_value : ∀ t : Text, t.value.cost ≤ t.cost
  | .integer literal => by simp
  | .string content => by simp
  | .list items => by simpa using itemsCost_value items
  | .dict entries => by simpa using entriesCost_value entries []

theorem itemsCost_value : ∀ items : List Text, itemsCost (Text.itemsValue items) ≤ Text.itemsCost items
  | [] => by simp
  | item :: items => by
    have first := cost_value item
    have others := itemsCost_value items
    simp only [Text.itemsValue, itemsCost, Text.itemsCost]
    omega

theorem entriesCost_value : ∀ (entries : List (Bytes × Text)) (done : List (Bytes × Bencode)),
    entriesCost (Text.entriesValue done entries) ≤ entriesCost done + Text.entriesCost entries
  | [], done => by simp
  | (key, item) :: entries, done => by
    have first := cost_value item
    have others := entriesCost_value entries (assign key item.value done)
    have added := entriesCost_assign key item.value done
    simp only [Text.entriesValue, Text.entriesCost]
    omega
end

theorem mem_keys_assign {key other : Bytes} {item : Bencode} {done : List (Bytes × Bencode)}
    (member : other ∈ (assign key item done).map Prod.fst) : other = key ∨ other ∈ done.map Prod.fst := by
  induction done with
  | nil => simpa [assign] using member
  | cons entry done ih =>
    rw [assign] at member
    split_ifs at member <;> grind

theorem Valid.assign {key : Bytes} {item : Bencode} {done : List (Bytes × Bencode)} (valid : item.Valid)
    (old : (dict done).Valid) : (dict (assign key item done)).Valid := by
  induction done with
  | nil => simpa [Bencode.assign, Valid, EntriesValid] using valid
  | cons entry done ih =>
    simp only [Valid, EntriesValid, map_cons, pairwise_cons] at old ih ⊢
    obtain ⟨⟨behind, sorted⟩, first, others⟩ := old
    rw [Bencode.assign]
    split_ifs with before same
    · have least := fun name later => List.lt_trans before (behind name later)
      exact ⟨.cons (forall_mem_cons.mpr ⟨before, least⟩) (.cons behind sorted), valid, first, others⟩
    · exact ⟨.cons (same ▸ behind) sorted, valid, others⟩
    · obtain ⟨increasing, all⟩ := ih ⟨sorted, others⟩
      refine ⟨.cons ?_ increasing, first, all⟩
      intro name member
      rcases mem_keys_assign member with rfl | later
      · exact Std.lt_of_le_of_ne (Std.not_lt.mp before) (Ne.symm same)
      · exact behind name later

mutual
theorem valid_value : ∀ t : Text, t.value.Valid
  | .integer literal => by simp [Valid]
  | .string content => by simp [Valid]
  | .list items => by simpa [Valid] using valid_itemsValue items
  | .dict entries => by simpa using valid_entriesValue entries [] (by simp [Valid, EntriesValid])

theorem valid_itemsValue : ∀ items : List Text, ItemsValid (itemsValue items)
  | [] => by simp [ItemsValid]
  | item :: items => by simpa [ItemsValid] using ⟨valid_value item, valid_itemsValue items⟩

theorem valid_entriesValue : ∀ (entries : List (Bytes × Text)) (done : List (Bytes × Bencode)),
    (dict done).Valid → (dict (entriesValue done entries)).Valid
  | [], _, old => by simpa using old
  | (key, item) :: entries, done, old => valid_entriesValue entries _ ((valid_value item).assign old)
end

end Values

section Decode

theorem decode_text {t : Text} (spelled : t.Literals Spelled) (fits : t.cost ≤ allocLimit)
    (short : t.bytes.length < 2 ^ 31) : decode t.bytes = .ok t.value := by
  have read := readValue_text t (2 * t.bytes.length + 2) [] 0 spelled (by omega) (by omega)
  rw [append_nil] at read
  rw [decode, available_of_short short, read]
  rfl

theorem text_of_decode {s : Bytes} {v : Bencode} (decoded : decode s = .ok v) :
    ∃ t : Text, t.Literals Spelled ∧ v = t.value ∧ available s = t.bytes ∧ t.cost ≤ allocLimit := by
  unfold decode at decoded
  split at decoded
  · cases decoded
  case h_2 w after read =>
    split_ifs at decoded with ends
    cases decoded
    obtain ⟨t, got, rfl⟩ := (text_of_read _).1 _ _ _ read
    have bytes := got.bytes
    rw [ends, append_nil] at bytes
    have fits := got.fits (Nat.zero_le _)
    rw [got.charged] at fits
    exact ⟨t, got.spelled, rfl, bytes, by simpa using fits⟩

def Ordered (s : Bytes) : Prop := ∀ t : Text, t.Literals Spelled → t.bytes = s → t.Increasing

def ExactLiterals (s : Bytes) : Prop := ∀ t : Text, t.Literals Spelled → t.bytes = s → t.Literals Exact

theorem decode_encode {v : Bencode} (valid : v.Valid) (fits : v.cost ≤ allocLimit) : decode (encode v) = .ok v := by
  have written := valid.written
  have spelled := written.literals Spelled spelled_toText
  have exact : v.text.Literals Exact :=
    written.literals Exact (fun i => (exact_iff (spelled_toText i)).mp (by simp))
  have bytes : encode v = v.text.bytes := by
    have same := (encode_value_iff spelled written.increasing).mpr exact
    rwa [written.value] at same
  have short : v.text.bytes.length < 2 ^ 31 := by
    have bound := length_writeValue v
    rw [← bytes, encode]
    unfold allocLimit at fits
    omega
  have decoded := decode_text spelled (by rw [written.cost]; exact fits) short
  rw [bytes, decoded, written.value]

theorem bytes_of_decode {s : Bytes} {v : Bencode} (decoded : decode s = .ok v) (short : s.length < 2 ^ 32) :
    ∃ t : Text, t.Literals Spelled ∧ v = t.value ∧ t.bytes = s := by
  obtain ⟨t, spelled, same, read, -⟩ := text_of_decode decoded
  refine ⟨t, spelled, same, ?_⟩
  obtain ⟨c, more, text, -⟩ := t.bytes_head
  have whole : s.length % 2 ^ 32 = s.length := Nat.mod_eq_of_lt short
  rw [available, whole] at read
  split_ifs at read
  · rw [← read, take_length]
  · rw [text] at read
    cases read

/-- An accepted text whose keys increase is written again as it was, exactly if it is not longer
than the limit of a stream can tell and its integer literals are exact. -/
theorem encode_decode_iff {s : Bytes} {v : Bencode} (ordered : Ordered s) (decoded : decode s = .ok v) :
    encode v = s ↔ s.length < 2 ^ 32 ∧ ExactLiterals s := by
  constructor
  · intro same
    have short : s.length < 2 ^ 32 := by
      obtain ⟨t, -, rfl, -, fits⟩ := text_of_decode decoded
      have bound := length_writeValue t.value
      have less := cost_value t
      rw [← same, encode]
      unfold allocLimit at fits
      omega
    obtain ⟨t, spelled, rfl, rfl⟩ := bytes_of_decode decoded short
    have exact := (encode_value_iff spelled (ordered t spelled rfl)).mp same
    refine ⟨short, fun other well bytes => ?_⟩
    rw [(bytes_inj other t [] [] well spelled (by simpa using bytes)).1]
    exact exact
  · rintro ⟨short, exact⟩
    obtain ⟨t, spelled, rfl, rfl⟩ := bytes_of_decode decoded short
    exact (encode_value_iff spelled (ordered t spelled rfl)).mpr (exact t spelled rfl)

/-- Every value within the limit is decoded again, and of the accepted texts with increasing keys
exactly those are written again that are short enough and have exact literals. -/
theorem decode_faithful_iff (v : Bencode) (s : Bytes) :
    (v.Valid → v.cost ≤ allocLimit → decode (encode v) = .ok v) ∧
      ((Ordered s → ∀ w, decode s = .ok w → encode w = s) ↔
        (Ordered s → (∃ w, decode s = .ok w) → s.length < 2 ^ 32 ∧ ExactLiterals s)) := by
  refine ⟨decode_encode, ?_, ?_⟩
  · rintro faithful ordered ⟨w, decoded⟩
    exact (encode_decode_iff ordered decoded).mp (faithful ordered w decoded)
  · intro condition ordered w decoded
    exact (encode_decode_iff ordered decoded).mpr (condition ordered ⟨w, decoded⟩)

/-- `i-0e` is accepted as zero. -/
theorem negativeZero_accepted :
    Ordered [105, 45, 48, 101] ∧ decode [105, 45, 48, 101] = .ok (.integer 0) ∧
      encode (.integer 0) ≠ [105, 45, 48, 101] := by
  refine ⟨?_, rfl, by decide⟩
  intro t spelled bytes
  have zero : Spelled [45, 48] := ⟨[45], [48], rfl, .inr rfl, by simp, by simp [isDigit], .inl rfl⟩
  have same : t.bytes ++ [] = (Text.integer [45, 48]).bytes ++ [] := by rw [bytes, Text.bytes]; rfl
  rw [(bytes_inj t (.integer [45, 48]) [] [] spelled (by simpa using zero) same).1]
  simp

/-- Whatever text is accepted, with its keys in any order or repeated, the value read from it is
well formed and is read again from the text that encode makes of it. -/
theorem decode_encode_decoded {s : Bytes} {v : Bencode} (decoded : decode s = .ok v) :
    v.Valid ∧ decode (encode v) = .ok v := by
  obtain ⟨t, -, rfl, -, fits⟩ := text_of_decode decoded
  exact ⟨valid_value t, decode_encode (valid_value t) ((cost_value t).trans fits)⟩

/-- `d1:b0:1:ai2e1:b0:e` has its keys out of order, and one of them twice. -/
theorem decode_encode_decoded_unordered :
    decode (encode (.dict [([97], .integer 2), ([98], .string [])])) =
      .ok (.dict [([97], .integer 2), ([98], .string [])]) :=
  (@decode_encode_decoded [100, 49, 58, 98, 48, 58, 49, 58, 97, 105, 50, 101, 49, 58, 98, 48, 58, 101] _ rfl).2

end Decode

end Qtng.Bencode
