import Qtng.Bencode.Text
import Qtng.General.Path

namespace Qtng.Torrent

open BigEndian Decimal

/-- Why a scan over bencoded bytes has no result. A length beyond 31 bits is undefined behaviour,
and `unfinished` is only in the model, where a scan has a bound on its calls. -/
inductive Stop
  | failed
  | undefined
  | unfinished
deriving DecidableEq

/-- The length of a string, for which the scan looks for the next colon. The length overflows
before another byte than a digit is met. -/
def skipString (bytes : Bytes) : Except Stop Bytes :=
  match bytes.dropWhile (fun c => c != 58) with
  | [] => .error .failed
  | _ :: rest =>
    let len := value (bytes.takeWhile isDigit)
    if len ≥ 2 ^ 31 then .error .undefined
    else if (bytes.takeWhile (fun c => c != 58)).all isDigit then
      if len ≤ rest.length then .ok (rest.drop len) else .error .failed
    else .error .failed

mutual
/-- btSkipBencodeValue: the bytes behind a value. -/
def btSkipBencodeValue : Nat → Bytes → Except Stop Bytes
  | 0, _ => .error .unfinished
  | fuel + 1, bytes =>
    match bytes with
    | [] => .error .failed
    | t :: more =>
      if t = 105 then
        match more.dropWhile (fun c => c != 101) with
        | [] => .error .failed
        | _ :: rest => .ok rest
      else if isDigit t then skipString bytes
      else if t = 108 then skipItems fuel more
      else if t = 100 then skipEntries fuel more
      else .error .failed

def skipItems : Nat → Bytes → Except Stop Bytes
  | 0, _ => .error .unfinished
  | fuel + 1, bytes =>
    match bytes with
    | [] => .error .failed
    | c :: more =>
      if c = 101 then .ok more
      else
        match btSkipBencodeValue fuel bytes with
        | .error e => .error e
        | .ok rest => skipItems fuel rest

def skipEntries : Nat → Bytes → Except Stop Bytes
  | 0, _ => .error .unfinished
  | fuel + 1, bytes =>
    match bytes with
    | [] => .error .failed
    | c :: more =>
      if c = 101 then .ok more
      else
        match btSkipBencodeValue fuel bytes with
        | .error e => .error e
        | .ok named =>
          match btSkipBencodeValue fuel named with
          | .error e => .error e
          | .ok rest => skipEntries fuel rest
end

/-- The bytes of a text up to where another part of it begins. -/
def upTo (bytes rest : Bytes) : Bytes := bytes.take (bytes.length - rest.length)

/-- `info`. -/
def infoKey : Bytes := [105, 110, 102, 111]

/-- The loop of btExtractInfoDict. Its result is empty if there is no such entry or a scan fails. -/
def extractEntries : Nat → Bytes → Except Stop Bytes
  | 0, _ => .error .unfinished
  | fuel + 1, bytes =>
    match bytes with
    | [] => .ok []
    | c :: _ =>
      if c = 101 then .ok []
      else
        match btSkipBencodeValue fuel bytes with
        | .error .failed => .ok []
        | .error e => .error e
        | .ok named =>
          let keyText := ((upTo bytes named).dropWhile (fun c => c != 58)).drop 1
          match btSkipBencodeValue fuel named with
          | .error .failed => .ok []
          | .error e => .error e
          | .ok rest => if keyText = infoKey then .ok (upTo named rest) else extractEntries fuel rest

def btExtractInfoDict (data : Bytes) : Except Stop Bytes :=
  match data with
  | [] => .ok []
  | c :: more => if c = 100 then extractEntries (2 * data.length + 2) more else .ok []

inductive ParseError
  | infoNotDict
  | missingPieceLength
  | missingPieces
  | invalidPiecesLength
  | invalidFileEntry
  | missingLength
  | pieceCountMismatch
  | invalidInfoDict
  | badInfoHash
  | missingInfoDict
  | undecodable (error : Option Bencode.DecodeError)
deriving DecidableEq

structure TorrentFileInfo where
  path : Bytes
  length : Int64
deriving DecidableEq

structure TorrentMeta where
  name : Bytes
  pieceLength : Int32
  pieceHashes : List Bytes
  files : List TorrentFileInfo
  totalSize : Int64
  infoHash : Bytes
  infoDict : Bytes
deriving DecidableEq

def TorrentMeta.pieceCount (torrent : TorrentMeta) : Int32 := Int32.ofNat torrent.pieceHashes.length

/-- The fields of an info dictionary as they are before anything is computed from them. -/
structure InfoFields where
  name : Bytes
  pieceLength : Int64
  pieces : Bytes
  files : List TorrentFileInfo

/-- `path`. -/
def pathKey : Bytes := [112, 97, 116, 104]
/-- `name`. -/
def nameKey : Bytes := [110, 97, 109, 101]
/-- `files`. -/
def filesKey : Bytes := [102, 105, 108, 101, 115]
/-- `length`. -/
def lengthKey : Bytes := [108, 101, 110, 103, 116, 104]
/-- `pieces`. -/
def piecesKey : Bytes := [112, 105, 101, 99, 101, 115]
/-- `piece length`. -/
def pieceLengthKey : Bytes := [112, 105, 101, 99, 101, 32, 108, 101, 110, 103, 116, 104]
/-- `torrent`. -/
def defaultName : Bytes := [116, 111, 114, 114, 101, 110, 116]

/-- The parts of a path that are strings, with separators between them. -/
def joinParts (parts : List Bencode) : Bytes :=
  parts.foldl (fun path part =>
    match part with
    | .string text => (if path.isEmpty then path else path ++ [Path.slash]) ++ text
    | _ => path) []

/-- The entries of `files`. What is not a dictionary is passed over. -/
def readFiles (name : Bytes) : List Bencode → Except ParseError (List TorrentFileInfo)
  | [] => .ok []
  | .dict entry :: rest =>
    match entry.lookup lengthKey, entry.lookup pathKey with
    | some (.integer length), some (.list parts) =>
      (readFiles name rest).map (fun files => ⟨name ++ Path.slash :: joinParts parts, length⟩ :: files)
    | _, _ => .error .invalidFileEntry
  | _ :: rest => readFiles name rest

def readFields (info : Bencode) : Except ParseError InfoFields :=
  match info with
  | .dict im =>
    let name := match im.lookup nameKey with
      | some (.string name) => name
      | _ => defaultName
    match im.lookup pieceLengthKey with
    | some (.integer pieceLength) =>
      if pieceLength.toInt ≤ 0 then .error .missingPieceLength
      else
        match im.lookup piecesKey with
        | some (.string pieces) =>
          if pieces.length % 20 ≠ 0 ∨ pieces = [] then .error .invalidPiecesLength
          else
            match im.lookup filesKey with
            | some (.list entries) => (readFiles name entries).map (fun files => ⟨name, pieceLength, pieces, files⟩)
            | _ =>
              match im.lookup lengthKey with
              | some (.integer length) => .ok ⟨name, pieceLength, pieces, [⟨name, length⟩]⟩
              | _ => .error .missingLength
        | _ => .error .missingPieces
    | _ => .error .missingPieceLength
  | _ => .error .infoNotDict

/-- What parsing comes to. `trap` is a division that the processor refuses. -/
inductive Outcome
  | invalid (error : ParseError)
  | trap
  | stuck (stop : Stop)
  | valid (torrent : TorrentMeta)
deriving DecidableEq

def cutHashes (pieces : Bytes) : List Bytes :=
  (List.range (pieces.length / 20)).map (fun i => (pieces.drop (20 * i)).take 20)

def addLengths (files : List TorrentFileInfo) : Int64 := (files.map TorrentFileInfo.length).foldl (· + ·) 0

/-- The end of parseInfoDictFields, where the number of pieces is computed. -/
def countPieces (infoHash infoRaw : Bytes) (fields : InfoFields) : Outcome :=
  let pieceLength := fields.pieceLength.toInt32
  let pieceHashes := cutHashes fields.pieces
  let totalSize := addLengths fields.files
  let dividend := totalSize + pieceLength.toInt64 - 1
  if pieceLength = 0 ∨ pieceLength = -1 ∧ dividend = Int64.minValue then .trap
  else if Int64.ofNat pieceHashes.length ≠ dividend / pieceLength.toInt64 then .invalid .pieceCountMismatch
  else .valid ⟨fields.name, pieceLength, pieceHashes, fields.files, totalSize, infoHash, infoRaw⟩

section Parsing

-- the digest of an info dictionary, if it is a valid one
variable (digest : Bytes → Option Bytes)

def parseInfoDictBytes (infoRaw : Bytes) : Outcome :=
  if infoRaw.head? ≠ some 100 then .invalid .invalidInfoDict
  else
    match digest infoRaw with
    | none => .invalid .badInfoHash
    | some infoHash =>
      match Bencode.decode infoRaw with
      | .error _ => .invalid .infoNotDict
      | .ok info =>
        match readFields info with
        | .error e => .invalid e
        | .ok fields => countPieces infoHash infoRaw fields

def infoBytes (data : Bytes) : Except Outcome Bytes :=
  match Bencode.decode data with
  | .error e => .error (.invalid (.undecodable (some e)))
  | .ok (.dict root) =>
    match btExtractInfoDict data with
    | .error stop => .error (.stuck stop)
    | .ok [] =>
      match root.lookup infoKey with
      | some (.dict info) => .ok (Bencode.dict info).encode
      | _ => .error (.invalid .missingInfoDict)
    | .ok infoRaw => .ok infoRaw
  | .ok _ => .error (.invalid (.undecodable none))

def fromBytes (data : Bytes) : Outcome :=
  match infoBytes data with
  | .error outcome => outcome
  | .ok infoRaw => parseInfoDictBytes digest infoRaw

end Parsing

end Qtng.Torrent
