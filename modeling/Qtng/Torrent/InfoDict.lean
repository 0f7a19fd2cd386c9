import Qtng.Torrent.Arithmetic

namespace Qtng.Torrent

open BigEndian Decimal Bencode List

section Reported

variable {V : Type*}

theorem lookup_cons_ite (key other : Bytes) (item : V) (rest : List (Bytes × V)) :
    lookup other ((key, item) :: rest) = if other = key then some item else rest.lookup other := by
  rw [lookup_cons]
  by_cases same : other = key
  · simp [same]
  · simp [same, beq_eq_false_iff_ne.mpr same]

theorem lookup_assign (key other : Bytes) (item : V) (done : List (Bytes × V)) :
    (assign key item done).lookup other = if other = key then some item else done.lookup other := by
  induction done with
  | nil => rw [assign, lookup_cons_ite]
  | cons entry done ih =>
    obtain ⟨name, old⟩ := entry
    rw [assign]
    split_ifs <;> simp_all [lookup_cons_ite]

theorem lookup_entriesValue (key : Bytes) (entries : List (Bytes × Text)) (done : List (Bytes × Bencode)) :
    (Text.entriesValue done entries).lookup key =
      ((entries.reverse.lookup key).map Text.value).or (done.lookup key) := by
  induction entries generalizing done with
  | nil => simp
  | cons entry entries ih =>
    obtain ⟨name, item⟩ := entry
    rw [Text.entriesValue, ih, lookup_assign, reverse_cons, lookup_append, lookup_cons_ite]
    cases entries.reverse.lookup key <;> by_cases same : key = name <;> simp [same]

end Reported

section Lands

variable {bytes rest : Bytes}

/-- A scan fails, or it stops behind its start and not behind the end. -/
def Landed (bytes : Bytes) (result : Except Stop Bytes) : Prop :=
  result = .error .failed ∨ ∃ rest, result = .ok rest ∧ rest <:+ bytes ∧ rest.length < bytes.length

/-- No digits with a colon somewhere behind them stand for a number of more than 31 bits. -/
def Sized (bytes : Bytes) : Prop :=
  ∀ digits behind, digits ++ behind <:+ bytes → (∀ c ∈ digits, isDigit c = true) → 58 ∈ behind →
    value digits < 2 ^ 31

theorem Sized.suffix (sized : Sized bytes) (suffix : rest <:+ bytes) : Sized rest :=
  fun digits behind begins => sized digits behind (begins.trans suffix)

theorem skipString_undefined {digits behind : Bytes} (run : ∀ c ∈ digits, isDigit c = true) (colon : 58 ∈ behind)
    (large : 2 ^ 31 ≤ value digits) : skipString (digits ++ behind) = .error .undefined := by
  have front : (digits ++ behind).takeWhile isDigit = digits ++ behind.takeWhile isDigit := takeWhile_append_of_pos run
  have found : (digits ++ behind).dropWhile (fun c => c != 58) ≠ [] := by
    rw [ne_eq, dropWhile_eq_nil_iff]
    intro none
    exact absurd (none 58 (mem_append_right _ colon)) (by decide)
  unfold skipString
  split
  · exact absurd ‹_› found
  · rw [front]
    exact if_pos (large.trans (value_le_append _ _))

theorem Landed.behind {result : Except Stop Bytes} (landed : Landed rest result)
    (suffix : rest <:+ bytes) : Landed bytes result := by
  rcases landed with failed | ⟨left, done, within, shorter⟩
  · exact .inl failed
  · exact .inr ⟨left, done, within.trans suffix, shorter.trans_le suffix.length_le⟩

theorem landed_dropWhile {stop : UInt8} {c : UInt8}
    (found : bytes.dropWhile (fun c => c != stop) = c :: rest) : rest <:+ bytes ∧ rest.length < bytes.length := by
  have suffix := dropWhile_suffix (l := bytes) (fun c => c != stop)
  rw [found] at suffix
  exact ⟨(suffix_cons c rest).trans suffix, suffix.length_le⟩

theorem landed_skipString (sized : Sized bytes) : Landed bytes (skipString bytes) := by
  unfold skipString
  split
  · exact .inl rfl
  case h_2 c rest found =>
    obtain ⟨suffix, shorter⟩ := landed_dropWhile found
    have colon : 58 ∈ bytes := by
      by_contra none
      have whole := dropWhile_eq_nil_iff.mpr fun c member => bne_iff_ne.mpr (ne_of_mem_of_not_mem member none)
      exact absurd (found.symm.trans whole) (by simp)
    have behind : 58 ∈ bytes.dropWhile isDigit := by
      rw [← takeWhile_append_dropWhile (p := isDigit) (l := bytes)] at colon
      exact (mem_append.mp colon).resolve_left fun member => absurd (mem_takeWhile_imp member) (by decide)
    have small := sized (bytes.takeWhile isDigit) (bytes.dropWhile isDigit) (by simp)
      (fun c member => mem_takeWhile_imp member) behind
    dsimp only
    split_ifs with large digits fits
    · omega
    · exact .inr ⟨_, rfl, (drop_suffix _ _).trans suffix, (drop_suffix _ _).length_le.trans_lt shorter⟩
    · exact .inl rfl
    · exact .inl rfl

theorem landed_scans (fuel : Nat) :
    (∀ bytes, Sized bytes → 2 * bytes.length + 1 ≤ fuel → Landed bytes (btSkipBencodeValue fuel bytes)) ∧
    (∀ bytes, Sized bytes → 2 * bytes.length + 2 ≤ fuel → Landed bytes (skipItems fuel bytes)) ∧
    ∀ bytes, Sized bytes → 2 * bytes.length + 2 ≤ fuel → Landed bytes (skipEntries fuel bytes) := by
  induction fuel with
  | zero => simp
  | succ fuel ih =>
    obtain ⟨values, items, entries⟩ := ih
    refine ⟨?_, ?_, ?_⟩
    · intro bytes sized enough
      cases bytes with
      | nil => exact .inl rfl
      | cons t more =>
        have tail : more <:+ t :: more := suffix_cons t more
        rw [length_cons] at enough
        rw [btSkipBencodeValue]
        split_ifs
        · split
          · exact .inl rfl
          case h_2 c rest found =>
            obtain ⟨suffix, shorter⟩ := landed_dropWhile found
            exact .inr ⟨rest, rfl, suffix.trans tail, shorter.trans_le tail.length_le⟩
        · exact landed_skipString sized
        · exact (items more (sized.suffix tail) (by omega)).behind tail
        · exact (entries more (sized.suffix tail) (by omega)).behind tail
        · exact .inl rfl
    · intro bytes sized enough
      cases bytes with
      | nil => exact .inl rfl
      | cons c more =>
        rw [skipItems]
        split_ifs
        · exact .inr ⟨more, rfl, suffix_cons c more, by simp⟩
        · rcases values (c :: more) sized (by omega) with failed | ⟨rest, done, suffix, shorter⟩
          · rw [failed]
            exact .inl rfl
          · rw [done]
            exact (items rest (sized.suffix suffix) (by omega)).behind suffix
    · intro bytes sized enough
      cases bytes with
      | nil => exact .inl rfl
      | cons c more =>
        rw [skipEntries]
        split_ifs
        · exact .inr ⟨more, rfl, suffix_cons c more, by simp⟩
        · rcases values (c :: more) sized (by omega) with failed | ⟨named, done, suffix, shorter⟩
          · rw [failed]
            exact .inl rfl
          · rw [done]
            rcases values named (sized.suffix suffix) (by omega) with failed | ⟨rest, ended, within, less⟩
            · simp only [failed]
              exact .inl rfl
            · simp only [ended]
              exact (entries rest ((sized.suffix suffix).suffix within) (by omega)).behind (within.trans suffix)

theorem extractEntries_ends {fuel : Nat} (sized : Sized bytes) (enough : 2 * bytes.length + 2 ≤ fuel) :
    ∃ found, extractEntries fuel bytes = .ok found := by
  induction fuel generalizing bytes with
  | zero => omega
  | succ fuel ih =>
    cases bytes with
    | nil => exact ⟨[], rfl⟩
    | cons c more =>
      rw [extractEntries]
      split_ifs
      · exact ⟨[], rfl⟩
      · rcases (landed_scans fuel).1 (c :: more) sized (by omega) with failed | ⟨named, done, suffix, shorter⟩
        · rw [failed]
          exact ⟨[], rfl⟩
        · rw [done]
          rcases (landed_scans fuel).1 named (sized.suffix suffix) (by omega) with failed | ⟨rest, ended, within, less⟩
          · simp only [failed]
            exact ⟨[], rfl⟩
          · simp only [ended]
            split_ifs
            · exact ⟨_, rfl⟩
            · exact ih ((sized.suffix suffix).suffix within) (by omega)

theorem btExtractInfoDict_ends {data : Bytes} (sized : Sized data) : ∃ found, btExtractInfoDict data = .ok found := by
  cases data with
  | nil => exact ⟨[], rfl⟩
  | cons c more =>
    rw [btExtractInfoDict]
    split_ifs
    · exact extractEntries_ends (sized.suffix (suffix_cons c more)) (by simp)
    · exact ⟨[], rfl⟩

/-- Digits that make a length too large are met as the start of a string. -/
theorem not_landed_of_undefined (undefined : skipString bytes = .error .undefined) (fuel : Nat) :
    ¬ Landed bytes (btSkipBencodeValue fuel bytes) := by
  have scanned : btSkipBencodeValue fuel bytes = .error .undefined ∨
      btSkipBencodeValue fuel bytes = .error .unfinished := by
    cases fuel with
    | zero => exact .inr rfl
    | succ fuel =>
      cases bytes with
      | nil => cases undefined
      | cons t more =>
        have digit : isDigit t = true := by
          by_contra other
          simp only [skipString, takeWhile_cons_of_neg other, value, foldl_nil] at undefined
          split at undefined
          · cases undefined
          · split_ifs at undefined <;> first | omega | cases undefined
        have letter : t ≠ 105 := isDigit_ne digit rfl
        exact .inl (by simpa [btSkipBencodeValue, letter, digit] using undefined)
  rintro (failed | ⟨rest, done, -⟩)
  · rcases scanned with same | same <;> simp [same] at failed
  · rcases scanned with same | same <;> simp [same] at done

end Lands

/-- The scan finds the bytes of the value that the decoder reports exactly if the first and the last
entry `info` have the same bytes. Over arbitrary bytes it lands from every start exactly if no length
has 31 bits or more, and then its caller ends. -/
theorem infoDict_exact_iff (data : Bytes) :
    (∀ root, decode data = .ok (.dict root) → ∃ (entries : List (Bytes × Text)) (rest : Bytes),
      Text.EntriesLiterals Spelled entries ∧ data = (Text.dict entries).bytes ++ rest ∧
      root.lookup infoKey = (entries.reverse.lookup infoKey).map Text.value ∧
      (btExtractInfoDict data = .ok (entryBytes (entries.reverse.lookup infoKey)) ↔
        entryBytes (entries.lookup infoKey) = entryBytes (entries.reverse.lookup infoKey))) ∧
    (((∀ start, start <:+ data → ∃ fuel, Landed start (btSkipBencodeValue fuel start)) ∧
      ∃ found, btExtractInfoDict data = .ok found) ↔ Sized data) := by
  constructor
  · intro root decoded
    obtain ⟨entries, rest, spelled, text, rfl, scanned⟩ := entries_of_decode decoded
    refine ⟨entries, rest, spelled, text, ?_, ?_⟩
    · rw [lookup_entriesValue, lookup_nil, Option.or_none]
    · rw [scanned, Except.ok.injEq]
  · constructor
    · rintro ⟨lands, -⟩ digits behind begins run colon
      obtain ⟨fuel, landed⟩ := lands (digits ++ behind) begins
      by_contra large
      exact not_landed_of_undefined (skipString_undefined run colon (not_lt.mp large)) fuel landed
    · intro sized
      refine ⟨fun start begins => ⟨2 * start.length + 1, ?_⟩, btExtractInfoDict_ends sized⟩
      exact (landed_scans _).1 start (sized.suffix begins) le_rfl

/-- `d4:infoi1e4:infoi2ee`: the decoder reports 2 and the scan finds the bytes of 1. The length of
`4294967285:` does not fit; as a 32-bit number it would lead back to its own start. -/
theorem infoDict_repeated :
    let data := [100, 52, 58, 105, 110, 102, 111, 105, 49, 101, 52, 58, 105, 110, 102, 111, 105, 50, 101, 101]
    decode data = .ok (.dict [(infoKey, .integer 2)]) ∧ btExtractInfoDict data = .ok [105, 49, 101] ∧
      btSkipBencodeValue 1 [52, 50, 57, 52, 57, 54, 55, 50, 56, 53, 58] = .error .undefined := ⟨rfl, rfl, rfl⟩

end Qtng.Torrent
