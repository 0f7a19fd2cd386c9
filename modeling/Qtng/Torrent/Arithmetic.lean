import Qtng.Bencode.RoundTrip
import Qtng.Torrent.Meta

namespace Qtng.Torrent

open BigEndian Decimal Bencode List Option

section Scans

variable {front content data : Bytes} {stop : UInt8}

theorem all_bne (clear : stop ∉ front) : ∀ c ∈ front, (c != stop) = true := fun _ member =>
  bne_iff_ne.mpr fun same => clear (same ▸ member)

theorem dropWhile_stop (rest : Bytes) (clear : stop ∉ front) :
    (front ++ stop :: rest).dropWhile (fun c => c != stop) = stop :: rest := by
  rw [dropWhile_append_of_pos (all_bne clear), dropWhile_cons_of_neg (by simp)]

theorem takeWhile_stop (rest : Bytes) (clear : stop ∉ front) :
    (front ++ stop :: rest).takeWhile (fun c => c != stop) = front := by
  rw [takeWhile_append_of_pos (all_bne clear), takeWhile_cons_of_neg (by simp), append_nil]

theorem colon_not_mem_decimal (n : Nat) : (58 : UInt8) ∉ decimal n := fun member =>
  absurd (isDigit_of_mem_decimal member) (by decide)

theorem skipString_text (rest : Bytes) (fits : content.length ≤ allocLimit) :
    skipString (writeString content ++ rest) = .ok rest := by
  have text : writeString content ++ rest = decimal content.length ++ 58 :: (content ++ rest) := by simp [writeString]
  have digits : (decimal content.length).all isDigit = true :=
    all_eq_true.mpr (fun c => isDigit_of_mem_decimal)
  have run : (decimal content.length ++ 58 :: (content ++ rest)).takeWhile isDigit = decimal content.length := by
    rw [takeWhile_append_of_pos (fun c => isDigit_of_mem_decimal), takeWhile_cons_of_neg (by decide), append_nil]
  have small : content.length < 2147483648 := by
    unfold allocLimit at fits
    omega
  rw [text, skipString, dropWhile_stop _ (colon_not_mem_decimal _)]
  simp [takeWhile_stop _ (colon_not_mem_decimal _), run, digits, small]

theorem btSkipBencodeValue_string (content : Bytes) (fuel : Nat) (rest : Bytes) (fits : content.length ≤ allocLimit)
    (enough : 0 < fuel) : btSkipBencodeValue fuel (writeString content ++ rest) = .ok rest := by
  obtain ⟨fuel, rfl⟩ : ∃ n, fuel = n + 1 := ⟨fuel - 1, by omega⟩
  obtain ⟨c, more, text, digit⟩ := Text.writeString_head content
  have other : c ≠ 105 := isDigit_ne digit rfl
  have skipped := skipString_text rest fits
  rw [text, cons_append] at skipped ⊢
  simp [btSkipBencodeValue, other, digit, skipped]

mutual
theorem btSkipBencodeValue_text : ∀ (t : Text) (fuel : Nat) (rest : Bytes), t.Literals Spelled →
    t.cost ≤ allocLimit → 2 * t.bytes.length ≤ fuel → btSkipBencodeValue fuel (t.bytes ++ rest) = .ok rest
  | .integer literal, fuel, rest, spelled, fits, enough => by
    simp only [Text.bytes, length_append, length_cons, length_nil] at enough
    obtain ⟨fuel, rfl⟩ : ∃ n, fuel = n + 1 := ⟨fuel - 1, by omega⟩
    simp only [Text.Literals] at spelled
    simp [btSkipBencodeValue, dropWhile_stop rest spelled.not_mem_end]
  | .string content, fuel, rest, spelled, fits, enough => by
    simp only [Text.bytes, Text.cost] at *
    obtain ⟨c, more, text, -⟩ := Text.writeString_head content
    exact btSkipBencodeValue_string content fuel rest fits (by simp only [text, length_cons] at enough; omega)
  | .list items, fuel, rest, spelled, fits, enough => by
    simp only [Text.bytes, length_append, length_cons, length_nil] at enough
    obtain ⟨fuel, rfl⟩ : ∃ n, fuel = n + 1 := ⟨fuel - 1, by omega⟩
    simp only [Text.Literals] at spelled
    simp only [Text.cost] at fits
    have loop := skipItems_text items fuel rest spelled fits (by omega)
    simp [btSkipBencodeValue, isDigit, loop]
  | .dict entries, fuel, rest, spelled, fits, enough => by
    simp only [Text.bytes, length_append, length_cons, length_nil] at enough
    obtain ⟨fuel, rfl⟩ : ∃ n, fuel = n + 1 := ⟨fuel - 1, by omega⟩
    simp only [Text.Literals] at spelled
    simp only [Text.cost] at fits
    have loop := skipEntries_text entries fuel rest spelled fits (by omega)
    simp [btSkipBencodeValue, isDigit, loop]

theorem skipItems_text : ∀ (items : List Text) (fuel : Nat) (rest : Bytes), Text.ItemsLiterals Spelled items →
    Text.itemsCost items ≤ allocLimit → 2 * (Text.itemsBytes items).length + 1 ≤ fuel →
    skipItems fuel (Text.itemsBytes items ++ 101 :: rest) = .ok rest
  | [], fuel, rest, spelled, fits, enough => by
    obtain ⟨fuel, rfl⟩ : ∃ n, fuel = n + 1 := ⟨fuel - 1, by omega⟩
    simp [skipItems]
  | item :: items, fuel, rest, spelled, fits, enough => by
    obtain ⟨fuel, rfl⟩ : ∃ n, fuel = n + 1 := ⟨fuel - 1, by omega⟩
    obtain ⟨c, more, text, other⟩ := item.bytes_head
    have positive : 0 < item.bytes.length := by simp [text]
    simp only [Text.ItemsLiterals] at spelled
    simp only [Text.itemsCost] at fits
    simp only [Text.itemsBytes, length_append] at enough
    have first := btSkipBencodeValue_text item fuel (Text.itemsBytes items ++ 101 :: rest) spelled.1 (by omega)
      (by omega)
    have others := skipItems_text items fuel rest spelled.2 (by omega) (by omega)
    rw [Text.itemsBytes, append_assoc]
    rw [text, cons_append] at first ⊢
    simp [skipItems, other, first, others]

theorem skipEntries_text : ∀ (entries : List (Bytes × Text)) (fuel : Nat) (rest : Bytes),
    Text.EntriesLiterals Spelled entries → Text.entriesCost entries ≤ allocLimit →
    2 * (Text.entriesBytes entries).length + 1 ≤ fuel →
    skipEntries fuel (Text.entriesBytes entries ++ 101 :: rest) = .ok rest
  | [], fuel, rest, spelled, fits, enough => by
    obtain ⟨fuel, rfl⟩ : ∃ n, fuel = n + 1 := ⟨fuel - 1, by omega⟩
    simp [skipEntries]
  | (key, item) :: entries, fuel, rest, spelled, fits, enough => by
    obtain ⟨fuel, rfl⟩ : ∃ n, fuel = n + 1 := ⟨fuel - 1, by omega⟩
    obtain ⟨c, more, text, digit⟩ := Text.writeString_head key
    have positive : 0 < (writeString key).length := by simp [text]
    simp only [Text.EntriesLiterals] at spelled
    simp only [Text.entriesCost] at fits
    simp only [Text.entriesBytes, length_append] at enough
    have other : c ≠ 101 := isDigit_ne digit rfl
    have name := btSkipBencodeValue_string key fuel (item.bytes ++ (Text.entriesBytes entries ++ 101 :: rest))
      (by omega) (by omega)
    have first := btSkipBencodeValue_text item fuel (Text.entriesBytes entries ++ 101 :: rest) spelled.1 (by omega)
      (by omega)
    have others := skipEntries_text entries fuel rest spelled.2 (by omega) (by omega)
    rw [Text.entriesBytes, append_assoc, append_assoc]
    rw [text, cons_append] at name ⊢
    simp [skipEntries, other, name, first, others]
end

theorem upTo_append (front rest : Bytes) : upTo (front ++ rest) rest = front := by simp [upTo]

def entryBytes (entry : Option Text) : Bytes := entry.elim [] Text.bytes

theorem extractEntries_text (entries : List (Bytes × Text)) (fuel : Nat) (rest : Bytes)
    (spelled : Text.EntriesLiterals Spelled entries) (fits : Text.entriesCost entries ≤ allocLimit)
    (enough : 2 * (Text.entriesBytes entries).length + 1 ≤ fuel) :
    extractEntries fuel (Text.entriesBytes entries ++ 101 :: rest) = .ok (entryBytes (entries.lookup infoKey)) := by
  induction entries generalizing fuel with
  | nil =>
    obtain ⟨fuel, rfl⟩ : ∃ n, fuel = n + 1 := ⟨fuel - 1, by omega⟩
    simp [extractEntries, entryBytes]
  | cons entry entries ih =>
    obtain ⟨key, item⟩ := entry
    obtain ⟨fuel, rfl⟩ : ∃ n, fuel = n + 1 := ⟨fuel - 1, by omega⟩
    obtain ⟨c, more, text, digit⟩ := Text.writeString_head key
    have positive : 0 < (writeString key).length := by simp [text]
    have other : c ≠ 101 := isDigit_ne digit rfl
    simp only [Text.EntriesLiterals] at spelled
    simp only [Text.entriesCost] at fits
    simp only [Text.entriesBytes, length_append] at enough
    have name := btSkipBencodeValue_string key fuel (item.bytes ++ (Text.entriesBytes entries ++ 101 :: rest))
      (by omega) (by omega)
    have first := btSkipBencodeValue_text item fuel (Text.entriesBytes entries ++ 101 :: rest) spelled.1 (by omega)
      (by omega)
    have loop := ih fuel spelled.2 (by omega) (by omega)
    have keyText : ((writeString key).dropWhile (fun c => c != 58)).drop 1 = key := by
      rw [writeString, dropWhile_stop _ (colon_not_mem_decimal _), drop_one, tail_cons]
    have cut := upTo_append (writeString key) (item.bytes ++ (Text.entriesBytes entries ++ 101 :: rest))
    rw [Text.entriesBytes, append_assoc, append_assoc, lookup_cons]
    rw [text, cons_append] at name cut ⊢
    rw [extractEntries]
    simp only [other, if_false, name, first, loop, cut, upTo_append, ← text, keyText]
    by_cases same : key = infoKey
    · simp [same, entryBytes]
    · simp [same, beq_eq_false_iff_ne.mpr (Ne.symm same)]

theorem prefix_of_decode {v : Bencode} (decoded : decode data = .ok v) :
    ∃ (t : Text) (rest : Bytes), t.Literals Spelled ∧ v = t.value ∧ data = t.bytes ++ rest ∧ t.cost ≤ allocLimit := by
  obtain ⟨t, spelled, same, read, fits⟩ := text_of_decode decoded
  obtain ⟨c, more, text, -⟩ := t.bytes_head
  rw [available] at read
  split_ifs at read
  · exact ⟨t, data.drop (data.length % 2 ^ 32), spelled, same, by rw [← read, take_append_drop], fits⟩
  · rw [text] at read
    cases read

/-- A dictionary is the value of a text, and the scan finds the first entry of that. -/
theorem entries_of_decode {root : List (Bytes × Bencode)} (decoded : decode data = .ok (.dict root)) :
    ∃ (entries : List (Bytes × Text)) (rest : Bytes), Text.EntriesLiterals Spelled entries ∧
      data = (Text.dict entries).bytes ++ rest ∧ root = Text.entriesValue [] entries ∧
      btExtractInfoDict data = .ok (entryBytes (entries.lookup infoKey)) := by
  obtain ⟨t, rest, spelled, same, rfl, fits⟩ := prefix_of_decode decoded
  cases t with
  | dict entries =>
    simp only [Text.Literals] at spelled
    simp only [Text.cost] at fits
    have loop := extractEntries_text entries (2 * ((Text.dict entries).bytes ++ rest).length + 2) rest spelled fits
      (by simp; omega)
    exact ⟨entries, rest, spelled, rfl, by simpa using same, by simpa [btExtractInfoDict] using loop⟩
  | integer literal => simp at same
  | string content => simp at same
  | list items => simp at same

end Scans

section Sums

def sumLengths (files : List TorrentFileInfo) : Int := (files.map (fun f => f.length.toInt)).sum

theorem foldl_add_toInt {lengths : List Int64} {start : Int64} (signs : ∀ n ∈ lengths, 0 ≤ n.toInt)
    (small : start.toInt + (lengths.map Int64.toInt).sum < 2 ^ 63) :
    (lengths.foldl (· + ·) start).toInt = start.toInt + (lengths.map Int64.toInt).sum := by
  induction lengths generalizing start with
  | nil => simp
  | cons n lengths ih =>
    have first := signs n (by simp)
    have others : 0 ≤ (lengths.map Int64.toInt).sum := by
      refine sum_nonneg (fun m member => ?_)
      obtain ⟨k, listed, rfl⟩ := mem_map.mp member
      exact signs k (by simp [listed])
    rw [map_cons, sum_cons] at small
    have least := start.le_toInt
    have sum : (start + n).toInt = start.toInt + n.toInt := by
      rw [Int64.toInt_add]
      exact Int.bmod_eq_of_le (by omega) (by omega)
    rw [foldl_cons, ih (fun m member => signs m (by simp [member])) (by rw [sum]; omega), sum, map_cons,
      sum_cons]
    omega

theorem toInt_addLengths {files : List TorrentFileInfo} (signs : ∀ f ∈ files, 0 ≤ f.length.toInt)
    (small : sumLengths files < 2 ^ 63) : (addLengths files).toInt = sumLengths files := by
  have total : ((files.map TorrentFileInfo.length).map Int64.toInt).sum = sumLengths files := by
    simp [sumLengths, Function.comp_def]
  rw [addLengths, foldl_add_toInt, total]
  · simp
  · intro n member
    obtain ⟨f, listed, rfl⟩ := mem_map.mp member
    exact signs f listed
  · rw [total]
    simpa using small

end Sums

section Pieces

structure Consistent (pieceLength : Int64) (torrent : TorrentMeta) : Prop where
  positive : 0 < torrent.pieceLength.toInt
  stated : torrent.pieceLength.toInt = pieceLength.toInt
  lengths : ∀ f ∈ torrent.files, 0 ≤ f.length.toInt
  sum : torrent.totalSize.toInt = sumLengths torrent.files
  lower : (torrent.pieceCount.toInt - 1) * torrent.pieceLength.toInt < torrent.totalSize.toInt
  upper : torrent.totalSize.toInt ≤ torrent.pieceCount.toInt * torrent.pieceLength.toInt

/-- The fields have the numbers that the computation was written for. -/
structure InRange (fields : InfoFields) : Prop where
  pieceLength : fields.pieceLength.toInt < 2 ^ 31
  lengths : ∀ f ∈ fields.files, 0 ≤ f.length.toInt
  sum : sumLengths fields.files < 2 ^ 63

/-- The division goes well, and its result is not the number of the hashes. -/
def Mismatched (fields : InfoFields) : Prop :=
  let pieceLength := fields.pieceLength.toInt32
  let dividend := addLengths fields.files + pieceLength.toInt64 - 1
  ¬ (pieceLength = 0 ∨ pieceLength = -1 ∧ dividend = Int64.minValue) ∧
    Int64.ofNat (fields.pieces.length / 20) ≠ dividend / pieceLength.toInt64

theorem length_cutHashes (pieces : Bytes) : (cutHashes pieces).length = pieces.length / 20 := by
  simp [cutHashes]

/-- If the 64-bit dividend is the exact one, the quotient is the number of pieces; otherwise it is not positive. -/
theorem quotient_cases (total : Int64) (pieceLength : Int32) (size : 0 ≤ total.toInt)
    (positive : 0 < pieceLength.toInt) :
    let quotient := (total + pieceLength.toInt64 - 1) / pieceLength.toInt64
    quotient.toInt ≤ 0 ∨ ((quotient.toInt - 1) * pieceLength.toInt < total.toInt ∧
      total.toInt ≤ quotient.toInt * pieceLength.toInt) := by
  intro quotient
  have most := total.toInt_lt
  have narrow := pieceLength.toInt_lt
  have wide : pieceLength.toInt64.toInt = pieceLength.toInt := Int32.toInt_toInt64 pieceLength
  have divisor : pieceLength.toInt64 ≠ -1 := by
    intro same
    have number := congrArg Int64.toInt same
    rw [wide] at number
    have minus : (-1 : Int64).toInt = -1 := rfl
    omega
  have divided : quotient.toInt = (total + pieceLength.toInt64 - 1).toInt.tdiv pieceLength.toInt := by
    rw [← wide]
    exact Int64.toInt_div_of_ne_right _ _ divisor
  have wrapped : (total + pieceLength.toInt64 - 1).toInt = (total.toInt + pieceLength.toInt - 1).bmod (2 ^ 64) := by
    have one : (1 : Int64).toInt = 1 := rfl
    rw [Int64.toInt_sub, Int64.toInt_add, wide, one, Int.bmod_sub_bmod]
  rw [divided, wrapped]
  by_cases fits : total.toInt + pieceLength.toInt - 1 < 2 ^ 63
  · right
    rw [Int.bmod_eq_of_le (by omega) (by omega), Int.tdiv_eq_ediv_of_nonneg (by omega)]
    have parts := Int.mul_ediv_add_emod (total.toInt + pieceLength.toInt - 1) pieceLength.toInt
    have least := Int.emod_nonneg (total.toInt + pieceLength.toInt - 1) (by omega : pieceLength.toInt ≠ 0)
    have rest := Int.emod_lt_of_pos (total.toInt + pieceLength.toInt - 1) positive
    rw [Int.sub_mul, Int.mul_comm _ pieceLength.toInt]
    omega
  · left
    have negative : (total.toInt + pieceLength.toInt - 1).bmod (2 ^ 64) ≤ 0 := by
      rw [Int.bmod_def]
      split_ifs <;> omega
    have quotient := Int.tdiv_nonneg (Int.neg_nonneg_of_nonpos negative) positive.le
    rw [Int.neg_tdiv] at quotient
    omega

theorem countPieces_cases (infoHash infoRaw : Bytes) (fields : InfoFields) :
    countPieces infoHash infoRaw fields = .trap ∨ Mismatched fields ∨
      ∃ torrent, countPieces infoHash infoRaw fields = .valid torrent ∧ torrent.files = fields.files := by
  rw [countPieces, length_cutHashes]
  split_ifs with trap mismatch
  · exact .inl rfl
  · exact .inr (.inl ⟨trap, mismatch⟩)
  · exact .inr (.inr ⟨_, rfl, rfl⟩)

theorem countPieces_mismatched (infoHash infoRaw : Bytes) {fields : InfoFields} (mismatch : Mismatched fields) :
    countPieces infoHash infoRaw fields = .invalid .pieceCountMismatch := by
  rw [countPieces, length_cutHashes, if_neg mismatch.1, if_pos mismatch.2]

theorem countPieces_inRange (infoHash infoRaw : Bytes) {fields : InfoFields} (range : InRange fields)
    (positive : 0 < fields.pieceLength.toInt) (full : 0 < fields.pieces.length / 20)
    (short : fields.pieces.length ≤ allocLimit) :
    (∃ e, countPieces infoHash infoRaw fields = .invalid e) ∨
      ∃ torrent, countPieces infoHash infoRaw fields = .valid torrent ∧ Consistent fields.pieceLength torrent := by
  have narrow : fields.pieceLength.toInt32.toInt = fields.pieceLength.toInt := by
    rw [Int64.toInt_toInt32]
    exact Int.bmod_eq_of_le (by omega) (by have := range.pieceLength; omega)
  have size : 0 ≤ sumLengths fields.files := by
    refine sum_nonneg (fun n member => ?_)
    obtain ⟨f, listed, rfl⟩ := mem_map.mp member
    exact range.lengths f listed
  have total := toInt_addLengths range.lengths range.sum
  have nonzero : ¬ (fields.pieceLength.toInt32 = 0 ∨ fields.pieceLength.toInt32 = -1 ∧
      addLengths fields.files + fields.pieceLength.toInt32.toInt64 - 1 = Int64.minValue) := by
    have zero : (0 : Int32).toInt = 0 := rfl
    have minus : (-1 : Int32).toInt = -1 := rfl
    rintro (same | ⟨same, -⟩)
    · rw [same] at narrow
      omega
    · rw [same] at narrow
      omega
  rw [countPieces, if_neg nonzero]
  split_ifs with mismatch
  · exact .inl ⟨_, rfl⟩
  · refine .inr ⟨_, rfl, ?_⟩
    have count : fields.pieces.length / 20 < 2 ^ 31 := by
      unfold allocLimit at short
      omega
    have counted := congrArg Int64.toInt (not_not.mp mismatch)
    rw [length_cutHashes, Int64.toInt_ofNat_of_lt (by omega)] at counted
    have pieces : (Int32.ofNat (cutHashes fields.pieces).length).toInt = (fields.pieces.length / 20 : Nat) := by
      rw [length_cutHashes, Int32.toInt_ofNat_of_lt count]
    rcases quotient_cases (addLengths fields.files) fields.pieceLength.toInt32 (by omega) (by omega) with
      none | ⟨lower, upper⟩
    · rw [← counted] at none
      omega
    · rw [← counted] at lower upper
      refine ⟨by rw [narrow]; exact positive, narrow, range.lengths, total, ?_, ?_⟩
      · simpa only [TorrentMeta.pieceCount, pieces] using lower
      · simpa only [TorrentMeta.pieceCount, pieces] using upper

end Pieces

section Sound

theorem length_le_of_lookup {key s : Bytes} {entries : List (Bytes × Bencode)}
    (found : entries.lookup key = some (.string s)) : s.length ≤ entriesCost entries := by
  induction entries with
  | nil => simp at found
  | cons entry entries ih =>
    obtain ⟨other, item⟩ := entry
    rw [lookup_cons] at found
    split at found
    · cases found
      simp only [entriesCost, Bencode.cost]
      omega
    · have later := ih found
      simp only [entriesCost]
      omega

theorem readFields_ok {info : Bencode} {fields : InfoFields} (read : readFields info = .ok fields) :
    ∃ im, info = .dict im ∧ im.lookup pieceLengthKey = some (.integer fields.pieceLength) ∧
      0 < fields.pieceLength.toInt ∧ im.lookup piecesKey = some (.string fields.pieces) ∧
      0 < fields.pieces.length / 20 := by
  unfold readFields at read
  split at read
  case h_2 => cases read
  case h_1 im =>
    refine ⟨im, rfl, ?_⟩
    dsimp only at read
    split at read
    case h_2 => cases read
    case h_1 pieceLength stated =>
      split_ifs at read with sign
      split at read
      case h_2 => cases read
      case h_1 pieces given =>
        split_ifs at read with shape
        have whole : 0 < pieces.length / 20 := by
          have some : 0 < pieces.length := length_pos_iff.mpr (fun empty => shape (.inr empty))
          have twenty : pieces.length % 20 = 0 := by
            by_contra other
            exact shape (.inl other)
          omega
        have same : fields.pieceLength = pieceLength ∧ fields.pieces = pieces := by
          split at read
          case h_1 entries _ =>
            cases files : readFiles _ entries with
            | error e =>
              rw [files] at read
              cases read
            | ok listed =>
              rw [files] at read
              cases read
              exact ⟨rfl, rfl⟩
          case h_2 =>
            split at read
            · cases read
              exact ⟨rfl, rfl⟩
            · cases read
        rw [same.1, same.2]
        exact ⟨stated, by omega, given, whole⟩

variable (digest : Bytes → Option Bytes)

def infoOf (data : Bytes) : Option Bencode :=
  match infoBytes data with
  | .error _ => none
  | .ok infoRaw => (decode infoRaw).toOption

/-- Parsing ends, and accepted metadata is consistent with the info dictionary. -/
def Sound (data : Bytes) : Prop :=
  fromBytes digest data ≠ .trap ∧ (∀ stop, fromBytes digest data ≠ .stuck stop) ∧
    ∀ torrent, fromBytes digest data = .valid torrent →
      ∃ im pieceLength, infoOf data = some (.dict im) ∧ im.lookup pieceLengthKey = some (.integer pieceLength) ∧
        Consistent pieceLength torrent

theorem infoBytes_error {data : Bytes} {outcome : Outcome} (failed : infoBytes data = .error outcome) :
    ∃ e, outcome = .invalid e := by
  unfold infoBytes at failed
  split at failed
  · cases failed
    exact ⟨_, rfl⟩
  case h_2 root decoded =>
    obtain ⟨entries, -, -, -, -, scanned⟩ := entries_of_decode decoded
    rw [scanned] at failed
    split at failed
    case h_1 stop stuck => cases stuck
    · split at failed
      · cases failed
      · cases failed
        exact ⟨_, rfl⟩
    · cases failed
  · cases failed
    exact ⟨_, rfl⟩

variable {digest}

variable (digest) in
/-- The data lead to these fields of an info dictionary with a digest. -/
def HasFields (data : Bytes) (fields : InfoFields) : Prop :=
  ∃ infoRaw info, infoBytes data = .ok infoRaw ∧ (digest infoRaw).isSome ∧ decode infoRaw = .ok info ∧
    readFields info = .ok fields

theorem fromBytes_of_fields {data : Bytes} {fields : InfoFields} (has : HasFields digest data fields) :
    ∃ infoHash infoRaw im, infoOf data = some (.dict im) ∧
      im.lookup pieceLengthKey = some (.integer fields.pieceLength) ∧ 0 < fields.pieceLength.toInt ∧
      0 < fields.pieces.length / 20 ∧ fields.pieces.length ≤ allocLimit ∧
      fromBytes digest data = countPieces infoHash infoRaw fields := by
  obtain ⟨infoRaw, info, bytes, valid, decoded, read⟩ := has
  obtain ⟨infoHash, hash⟩ := isSome_iff_exists.mp valid
  obtain ⟨im, rfl, stated, positive, pieces, full⟩ := readFields_ok read
  obtain ⟨entries, rest, -, text, -⟩ := entries_of_decode decoded
  have head : infoRaw.head? = some 100 := by simp [text]
  refine ⟨infoHash, infoRaw, im, ?_, stated, positive, full, ?_, ?_⟩
  · rw [infoOf, bytes]
    simp only [decoded]
    rfl
  · obtain ⟨t, -, same, -, fits⟩ := text_of_decode decoded
    exact (length_le_of_lookup pieces).trans ((congrArg Bencode.cost same).trans_le ((cost_value t).trans fits))
  · rw [fromBytes, bytes]
    simp only [parseInfoDictBytes, head, hash, decoded, read, ne_eq, not_true_eq_false, if_false]

theorem fromBytes_refused {data : Bytes} (none : ∀ fields, ¬ HasFields digest data fields) :
    ∃ e, fromBytes digest data = .invalid e := by
  cases bytes : infoBytes data with
  | error outcome =>
    obtain ⟨e, rfl⟩ := infoBytes_error bytes
    exact ⟨e, by rw [fromBytes, bytes]⟩
  | ok infoRaw =>
    have parsed : fromBytes digest data = parseInfoDictBytes digest infoRaw := by rw [fromBytes, bytes]
    rw [parsed, parseInfoDictBytes]
    split_ifs
    · exact ⟨_, rfl⟩
    cases hash : digest infoRaw with
    | none => exact ⟨_, rfl⟩
    | some infoHash =>
      cases decoded : decode infoRaw with
      | error e => exact ⟨_, rfl⟩
      | ok info =>
        cases read : readFields info with
        | error e => exact ⟨e, by simp only [read]⟩
        | ok fields => exact absurd ⟨infoRaw, info, bytes, by simp [hash], decoded, read⟩ (none fields)

variable (digest) in
/-- Metadata is sound exactly if its fields, where they are complete, have numbers in range or
another number of hashes than the division gives. -/
theorem sound_iff (data : Bytes) :
    Sound digest data ↔ ∀ fields, HasFields digest data fields → InRange fields ∨ Mismatched fields := by
  constructor
  · rintro ⟨calm, -, accepted⟩ fields has
    obtain ⟨infoHash, infoRaw, im, given, stated, -, -, -, parsed⟩ := fromBytes_of_fields has
    rw [parsed] at calm accepted
    rcases countPieces_cases infoHash infoRaw fields with trapped | mismatch | ⟨torrent, valid, files⟩
    · exact absurd trapped calm
    · exact .inr mismatch
    · obtain ⟨listed, pieceLength, same, again, consistent⟩ := accepted torrent valid
      rw [given, some.injEq] at same
      cases same
      rw [stated, some.injEq] at again
      cases again
      refine .inl ⟨?_, files ▸ consistent.lengths, ?_⟩
      · rw [← consistent.stated]
        exact Int32.toInt_lt _
      · rw [← files, ← consistent.sum]
        exact Int64.toInt_lt _
  · intro condition
    by_cases complete : ∃ fields, HasFields digest data fields
    · obtain ⟨fields, has⟩ := complete
      obtain ⟨infoHash, infoRaw, im, given, stated, positive, full, short, parsed⟩ := fromBytes_of_fields has
      have refuse (e : ParseError) (refused : countPieces infoHash infoRaw fields = .invalid e) :
          Sound digest data := by
        simp [Sound, parsed, refused]
      rcases condition fields has with range | mismatch
      · rcases countPieces_inRange infoHash infoRaw range positive full short with
          ⟨e, refused⟩ | ⟨torrent, accepted, consistent⟩
        · exact refuse e refused
        · refine ⟨by simp [parsed, accepted], by simp [parsed, accepted], fun other valid => ?_⟩
          rw [parsed, accepted] at valid
          cases valid
          exact ⟨im, _, given, stated, consistent⟩
      · exact refuse _ (countPieces_mismatched infoHash infoRaw mismatch)
    · obtain ⟨e, refused⟩ := fromBytes_refused (not_exists.mp complete)
      simp [Sound, refused]

/-- `d4:infod6:lengthi1e12:piece lengthi4294967296e6:pieces20:aaaaaaaaaaaaaaaaaaaaee`: the piece
length is zero once it has 32 bits. -/
def zeroPieceLength : Bytes :=
  [100, 52, 58, 105, 110, 102, 111, 100, 54, 58, 108, 101, 110, 103, 116, 104, 105, 49, 101, 49, 50, 58, 112, 105, 101,
    99, 101, 32, 108, 101, 110, 103, 116, 104, 105, 52, 50, 57, 52, 57, 54, 55, 50, 57, 54, 101, 54, 58, 112, 105, 101,
    99, 101, 115, 50, 48, 58, 97, 97, 97, 97, 97, 97, 97, 97, 97, 97, 97, 97, 97, 97, 97, 97, 97, 97, 97, 97, 101, 101]

theorem zeroPieceLength_traps : fromBytes some zeroPieceLength = .trap ∧ ¬ Sound some zeroPieceLength := by
  have trapped : fromBytes some zeroPieceLength = .trap := rfl
  exact ⟨trapped, fun sound => sound.1 trapped⟩

end Sound

end Qtng.Torrent
