import Qtng.General.Decimal

namespace Qtng

open BigEndian Decimal List

/-- A value; the entries of a dictionary are in the order of their keys. -/
inductive Bencode
  | invalid
  | integer (i : Int64)
  | string (s : Bytes)
  | list (items : List Bencode)
  | dict (entries : List (Bytes × Bencode))

namespace Bencode

/-- The assignment `m_dict[key] = value`. -/
def assign {V : Type*} (key : Bytes) (value : V) : List (Bytes × V) → List (Bytes × V)
  | [] => [(key, value)]
  | (other, old) :: rest =>
    if key < other then (key, value) :: (other, old) :: rest
    else if key = other then (key, value) :: rest
    else (other, old) :: assign key value rest

/-- A failed read. The last case is only in the model, where a reader has a bound on its calls. -/
inductive Status
  | readPastEnd
  | readCorruptData
  | unfinished
deriving DecidableEq

/-- The bytes that have not been read and the number of bytes allocated so far. -/
structure Stream where
  rest : Bytes
  bytesAllocated : Nat := 0

def allocLimit : Nat := 16 * 1024 * 1024

def consumeByte (expected : UInt8) : Bytes → Except Status Bytes
  | [] => .error .readPastEnd
  | c :: rest => if c = expected then .ok rest else .error .readCorruptData

def account (n : Nat) (d : Stream) : Except Status Stream :=
  if d.bytesAllocated > allocLimit ∨ n > allocLimit - d.bytesAllocated then .error .readCorruptData
  else .ok { d with bytesAllocated := d.bytesAllocated + n }

def number (literal : Bytes) : Int :=
  match literal with
  | 45 :: digits => -(value digits : Int)
  | digits => value digits

/-- strtoll for a sign and digits: a number that is too large becomes the largest one. -/
def strtoll (literal : Bytes) : Int64 := Int64.ofIntClamp (number literal)

/-- The digits of a literal from the second one on, up to `e`. -/
def integerDigits (digits : Bytes) : Bytes → Except Status (Bytes × Bytes)
  | [] => .error .readPastEnd
  | c :: rest =>
    if c = 101 then .ok (digits, rest)
    else if !isDigit c then .error .readCorruptData
    else if (digits ++ [c]).length > 20 then .error .readCorruptData
    else integerDigits (digits ++ [c]) rest

def readDigits (sign : Bytes) : Bytes → Except Status (Int64 × Bytes)
  | [] => .error .readPastEnd
  | c :: rest =>
    if !isDigit c then .error .readCorruptData
    else if c = 48 then (consumeByte 101 rest).map (fun rest => (0, rest))
    else
      match integerDigits (sign ++ [c]) rest with
      | .error e => .error e
      | .ok (digits, rest) =>
        if digits = [45, 48] then .error .readCorruptData else .ok (strtoll digits, rest)

def readInteger (bytes : Bytes) : Except Status (Int64 × Bytes) :=
  match consumeByte 105 bytes with
  | .error e => .error e
  | .ok [] => .error .readPastEnd
  | .ok (c :: rest) => if c = 45 then readDigits [45] rest else readDigits [] (c :: rest)

def lengthDigits (digits : Bytes) : Bytes → Except Status (Bytes × Bytes)
  | [] => .ok (digits, [])
  | c :: rest =>
    if isDigit c then
      if (digits ++ [c]).length > 10 then .error .readCorruptData else lengthDigits (digits ++ [c]) rest
    else .ok (digits, c :: rest)

def readLength (bytes : Bytes) : Except Status (Nat × Bytes) :=
  match lengthDigits [] bytes with
  | .error e => .error e
  | .ok (digits, rest) =>
    if digits = [] ∨ digits.length > 1 ∧ digits.head? = some 48 then .error .readCorruptData
    else
      match consumeByte 58 rest with
      | .error e => .error e
      | .ok rest => if value digits > allocLimit then .error .readCorruptData else .ok (value digits, rest)

def readString (d : Stream) : Except Status (Bytes × Stream) :=
  match d.rest with
  | [] => .error .readPastEnd
  | c :: _ =>
    if !isDigit c then .error .readCorruptData
    else
      match readLength d.rest with
      | .error e => .error e
      | .ok (len, rest) =>
        match account len { d with rest } with
        | .error e => .error e
        | .ok d =>
          if len ≤ d.rest.length then .ok (d.rest.take len, { d with rest := d.rest.drop len })
          else .error .readPastEnd

mutual
/-- readValue, with a bound on the depth of calls. -/
def readValue : Nat → Stream → Except Status (Bencode × Stream)
  | 0, _ => .error .unfinished
  | fuel + 1, d =>
    match d.rest with
    | [] => .error .readPastEnd
    | c :: rest =>
      if c = 105 then (readInteger d.rest).map (fun (i, rest) => (.integer i, { d with rest }))
      else if c = 108 then readItems fuel [] { d with rest }
      else if c = 100 then readEntries fuel [] { d with rest }
      else if isDigit c then (readString d).map (fun (s, d) => (.string s, d))
      else .error .readCorruptData

/-- The loop of readValue for a list, with the items read so far. -/
def readItems : Nat → List Bencode → Stream → Except Status (Bencode × Stream)
  | 0, _, _ => .error .unfinished
  | fuel + 1, items, d =>
    match d.rest with
    | [] => .error .readPastEnd
    | c :: rest =>
      if c = 101 then .ok (.list items, { d with rest })
      else
        match readValue fuel d with
        | .error e => .error e
        | .ok (item, d) =>
          match account 1 d with
          | .error e => .error e
          | .ok d => readItems fuel (items ++ [item]) d

/-- The loop of readValue for a dictionary. A key that occurs again replaces its value. -/
def readEntries : Nat → List (Bytes × Bencode) → Stream → Except Status (Bencode × Stream)
  | 0, _, _ => .error .unfinished
  | fuel + 1, entries, d =>
    match d.rest with
    | [] => .error .readPastEnd
    | c :: rest =>
      if c = 101 then .ok (.dict entries, { d with rest })
      else
        match readString d with
        | .error e => .error e
        | .ok (key, d) =>
          match readValue fuel d with
          | .error e => .error e
          | .ok (item, d) =>
            match account 1 d with
            | .error e => .error e
            | .ok d => readEntries fuel (assign key item entries) d
end

/-- The bytes that a stream can read. Its limit has 32 bits, and the position of its device is a
signed number of 32 bits. -/
def available (data : Bytes) : Bytes :=
  if data.length % 2 ^ 32 < 2 ^ 31 then data.take (data.length % 2 ^ 32) else []

theorem available_prefix (data : Bytes) : available data <+: data := by
  unfold available
  split
  · exact take_prefix _ _
  · exact nil_prefix

theorem available_of_short {data : Bytes} (short : data.length < 2 ^ 31) : available data = data := by
  have whole : data.length % 2 ^ 32 = data.length := Nat.mod_eq_of_lt (by omega)
  rw [available, whole, if_pos short, take_length]

theorem length_available_lt (data : Bytes) : (available data).length < 2 ^ 31 := by
  unfold available
  split
  · rename_i small
    exact (length_take_le _ _).trans_lt small
  · exact Nat.two_pow_pos 31

inductive DecodeError
  | invalidInput
  | trailingData
deriving DecidableEq

def decode (data : Bytes) : Except DecodeError Bencode :=
  match readValue (2 * data.length + 2) { rest := available data } with
  | .error _ => .error .invalidInput
  | .ok (v, d) => if d.rest = [] then .ok v else .error .trailingData

def toText (i : Int64) : Bytes := if i.toInt < 0 then 45 :: decimal i.toInt.natAbs else decimal i.toInt.natAbs

def writeInteger (i : Int64) : Bytes := 105 :: toText i ++ [101]

def writeString (s : Bytes) : Bytes := decimal s.length ++ 58 :: s

mutual
/-- The bytes written, and whether the value could be written. -/
def writeValue : Bencode → Bytes × Bool
  | .integer i => (writeInteger i, true)
  | .string s => (writeString s, true)
  | .list items =>
    let (body, done) := writeItems items
    if done then (108 :: body ++ [101], true) else (108 :: body, false)
  | .dict entries =>
    let (body, done) := writeEntries entries
    if done then (100 :: body ++ [101], true) else (100 :: body, false)
  | .invalid => ([], false)

def writeItems : List Bencode → Bytes × Bool
  | [] => ([], true)
  | item :: items =>
    let (first, done) := writeValue item
    if done then (first ++ (writeItems items).1, (writeItems items).2) else (first, false)

def writeEntries : List (Bytes × Bencode) → Bytes × Bool
  | [] => ([], true)
  | (key, item) :: entries =>
    let (first, done) := writeValue item
    if done then (writeString key ++ first ++ (writeEntries entries).1, (writeEntries entries).2)
    else (writeString key ++ first, false)
end

def encode (v : Bencode) : Bytes := (writeValue v).1

end Bencode
end Qtng
