import Qtng.Quic.Frame

namespace Qtng

open BigEndian List Option QuicFrameType QuicFrame

variable {bytes : Bytes} {frame : QuicFrame}

/-- The types for which quicEncodeFrame has a case. -/
def QuicFrameType.encodable : QuicFrameType → Bool
  | .ackEcn | .newToken | .maxStreamsBidi | .maxStreamsUni | .dataBlocked | .streamDataBlocked | .streamsBlockedBidi
  | .streamsBlockedUni | .connectionCloseApp | .unknown => false
  | _ => true

/-- The types that quicDecodeFrames produces. -/
def QuicFrameType.decodable (type : QuicFrameType) : Bool := type != .unknown

namespace QuicFrame

/-- The first byte of a frame; a STREAM frame always carries its length. -/
def typeByte (frame : QuicFrame) : UInt8 :=
  match frame.type with
  | .padding => 0x00
  | .ping => 0x01
  | .ack => 0x02
  | .ackEcn => 0x03
  | .resetStream => 0x04
  | .stopSending => 0x05
  | .crypto => 0x06
  | .newToken => 0x07
  | .stream => 0x08 ||| 0x02 ||| (if frame.offset ≠ 0 then 0x04 else 0) ||| (if frame.fin then 0x01 else 0)
  | .maxData => 0x10
  | .maxStreamData => 0x11
  | .maxStreamsBidi => 0x12
  | .maxStreamsUni => 0x13
  | .dataBlocked => 0x14
  | .streamDataBlocked => 0x15
  | .streamsBlockedBidi => 0x16
  | .streamsBlockedUni => 0x17
  | .newConnectionId => 0x18
  | .retireConnectionId => 0x19
  | .pathChallenge => 0x1a
  | .pathResponse => 0x1b
  | .connectionClose => 0x1c
  | .connectionCloseApp => 0x1d
  | .handshakeDone => 0x1e
  | .unknown => 0xff

/-- The frame with the fields that belong to its type, and no others. -/
def onWire (frame : QuicFrame) : QuicFrame :=
  let blank : QuicFrame := { type := frame.type, rawType := frame.typeByte }
  match frame.type with
  | .padding | .ping | .handshakeDone | .unknown => blank
  | .ack | .ackEcn =>
    { blank with
      largestAcknowledged := frame.largestAcknowledged, ackDelay := frame.ackDelay,
      firstAckRange := frame.firstAckRange, ackRanges := frame.ackRanges }
  | .resetStream =>
    { blank with
      streamId := frame.streamId, applicationErrorCode := frame.applicationErrorCode, finalSize := frame.finalSize }
  | .stopSending => { blank with streamId := frame.streamId, applicationErrorCode := frame.applicationErrorCode }
  | .crypto => { blank with offset := frame.offset, data := frame.data }
  | .newToken => { blank with data := frame.data }
  | .stream =>
    { blank with
      streamId := frame.streamId, offset := frame.offset, data := frame.data, fin := frame.fin, hasLength := true }
  | .maxData | .maxStreamsBidi | .maxStreamsUni | .dataBlocked | .streamsBlockedBidi | .streamsBlockedUni =>
    { blank with maxData := frame.maxData }
  | .maxStreamData | .streamDataBlocked => { blank with streamId := frame.streamId, maxData := frame.maxData }
  | .newConnectionId =>
    { blank with
      sequenceNumber := frame.sequenceNumber, retirePriorTo := frame.retirePriorTo, connectionId := frame.connectionId,
      statelessResetToken := frame.statelessResetToken }
  | .retireConnectionId => { blank with sequenceNumber := frame.sequenceNumber }
  | .pathChallenge | .pathResponse => { blank with pathData := frame.pathData }
  | .connectionClose =>
    { blank with errorCode := frame.errorCode, frameType := frame.frameType, reasonPhrase := frame.reasonPhrase }
  | .connectionCloseApp => { blank with errorCode := frame.errorCode, reasonPhrase := frame.reasonPhrase }

theorem onWire_type (frame : QuicFrame) : frame.onWire.type = frame.type := by
  unfold onWire
  cases type : frame.type <;> rfl

/-- The fields of the type fit into varints, and connection ids, tokens and path data have
their length. -/
def InRange (frame : QuicFrame) : Prop :=
  match frame.type with
  | .padding | .ping | .handshakeDone | .unknown => True
  | .ack | .ackEcn =>
    frame.largestAcknowledged < 2 ^ 62 ∧ frame.ackDelay < 2 ^ 62 ∧ frame.ackRanges.length < 2 ^ 62 ∧
      frame.firstAckRange < 2 ^ 62 ∧ ∀ range ∈ frame.ackRanges, range.gap < 2 ^ 62 ∧ range.ackRangeLength < 2 ^ 62
  | .resetStream => frame.streamId < 2 ^ 62 ∧ frame.applicationErrorCode < 2 ^ 62 ∧ frame.finalSize < 2 ^ 62
  | .stopSending => frame.streamId < 2 ^ 62 ∧ frame.applicationErrorCode < 2 ^ 62
  | .crypto => frame.offset < 2 ^ 62 ∧ frame.data.length < 2 ^ 62
  | .newToken => frame.data.length < 2 ^ 62
  | .stream => frame.streamId < 2 ^ 62 ∧ frame.offset < 2 ^ 62 ∧ frame.data.length < 2 ^ 62
  | .maxData | .maxStreamsBidi | .maxStreamsUni | .dataBlocked | .streamsBlockedBidi | .streamsBlockedUni =>
    frame.maxData < 2 ^ 62
  | .maxStreamData | .streamDataBlocked => frame.streamId < 2 ^ 62 ∧ frame.maxData < 2 ^ 62
  | .newConnectionId =>
    frame.sequenceNumber < 2 ^ 62 ∧ frame.retirePriorTo < 2 ^ 62 ∧ frame.connectionId.bytes ≠ [] ∧
      frame.connectionId.bytes.length ≤ 20 ∧ frame.statelessResetToken.length = 16
  | .retireConnectionId => frame.sequenceNumber < 2 ^ 62
  | .pathChallenge | .pathResponse => frame.pathData.length = 8
  | .connectionClose => frame.errorCode < 2 ^ 62 ∧ frame.frameType < 2 ^ 62 ∧ frame.reasonPhrase.length < 2 ^ 62
  | .connectionCloseApp => frame.errorCode < 2 ^ 62 ∧ frame.reasonPhrase.length < 2 ^ 62

end QuicFrame

theorem takeBytes_append (content rest : Bytes) :
    takeBytes content.length (content ++ rest) = some (content, rest) := by
  simp [takeBytes]

section Decoding

variable {frame : QuicFrame} {bytes : Bytes}

theorem streamByte_parts (offset fin : Bool) :
    let t : UInt8 := 0x08 ||| 0x02 ||| (if offset then 0x04 else 0) ||| (if fin then 0x01 else 0)
    (t ≠ 0x00 ∧ t ≠ 0x01 ∧ t ≠ 0x02 ∧ t ≠ 0x03 ∧ t ≠ 0x06 ∧ t ≠ 0x07 ∧ t &&& 0xf8 = 0x08) ∧
      (t &&& 0x04 ≠ 0 ↔ offset = true) ∧ (t &&& 0x01 ≠ 0 ↔ fin = true) ∧ t &&& 0x02 ≠ 0 := by
  revert offset fin
  decide

theorem decodeFrame_encodeStream (isStream : frame.type = .stream) (encoded : quicEncodeFrame frame = some bytes)
    (rest : Bytes) : ∃ t body, bytes = t :: body ∧ decodeFrame t (body ++ rest) = some (frame.onWire, rest) := by
  have first : frame.typeByte =
      0x08 ||| 0x02 ||| (if frame.offset ≠ 0 then 0x04 else 0) ||| (if frame.fin then 0x01 else 0) := by
    simp only [typeByte, isStream]
  simp only [quicEncodeFrame, isStream, bind_eq_bind] at encoded
  obtain ⟨id, idIs, encoded⟩ := bind_eq_some_iff.mp encoded
  obtain ⟨offset, offsetIs, size, sizeIs, encoded⟩ : ∃ offset,
      (if frame.offset ≠ 0 then quicEncodeVarint frame.offset else some []) = some offset ∧
      ∃ size, quicEncodeVarint frame.data.length = some size ∧
        some (frame.typeByte :: (id ++ (offset ++ (size ++ frame.data)))) = some bytes := by
    rw [first]
    by_cases moved : frame.offset ≠ 0
    · simp only [if_pos moved] at encoded ⊢
      exact (bind_eq_some_iff.mp encoded).imp fun _ found => found.imp_right bind_eq_some_iff.mp
    · simp only [if_neg moved] at encoded ⊢
      exact (bind_eq_some_iff.mp encoded).imp fun _ found => found.imp_right bind_eq_some_iff.mp
  have parts := streamByte_parts (decide (frame.offset ≠ 0)) frame.fin
  simp only [decide_eq_true_eq] at parts
  refine ⟨_, _, (some.inj encoded).symm, ?_⟩
  have wire : frame.onWire = {
      type := .stream, rawType := frame.typeByte, streamId := frame.streamId, offset := frame.offset
      data := frame.data, fin := frame.fin, hasLength := true } := by
    simp only [onWire, isStream]
  rw [wire]
  rw [← first] at parts
  obtain ⟨⟨zero, one, two, three, six, seven, family⟩, hasOffset, hasFin, hasLength⟩ := parts
  have fin : decide (frame.typeByte &&& 0x01 ≠ 0) = frame.fin := by
    rw [Bool.eq_iff_iff, decide_eq_true_eq]
    exact hasFin
  have length : decide (frame.typeByte &&& 0x02 ≠ 0) = true := decide_eq_true hasLength
  simp only [decodeFrame, zero, one, two, three, six, seven, family, if_false, if_true, or_false, decodeStream,
    append_assoc, quicDecodeVarint_encode idIs, bind_eq_bind, bind_some, fin, length, if_pos hasLength]
  by_cases moved : frame.offset ≠ 0
  · rw [if_pos moved] at offsetIs
    rw [if_pos (hasOffset.mpr moved), quicDecodeVarint_encode offsetIs]
    simp only [bind_some, quicDecodeVarint_encode sizeIs, takeBytes_append]
  · rw [if_neg moved] at offsetIs
    cases offsetIs
    rw [if_neg (fun set => moved (hasOffset.mp set)), not_not.mp moved]
    simp only [bind_some, nil_append, quicDecodeVarint_encode sizeIs, takeBytes_append]

/-- A frame that was encoded is decoded, whatever follows it; the padding behind a PADDING frame
would be part of it. -/
theorem decodeFrame_encode (encoded : quicEncodeFrame frame = some bytes) (rest : Bytes)
    (apart : frame.type = .padding → rest.head? ≠ some 0x00) :
    ∃ t body, bytes = t :: body ∧ decodeFrame t (body ++ rest) = some (frame.onWire, rest) := by
  cases type : frame.type with
  | padding =>
    simp only [quicEncodeFrame, type, some.injEq] at encoded
    refine ⟨_, _, encoded.symm, ?_⟩
    have stays : rest.dropWhile (· = 0x00) = rest := by
      cases rest with
      | nil => rfl
      | cons first more => simpa using apart type
    simp +decide [decodeFrame, onWire, typeByte, type, stays]
  | ping =>
    simp only [quicEncodeFrame, type, some.injEq] at encoded
    refine ⟨_, _, encoded.symm, ?_⟩
    simp +decide [decodeFrame, onWire, typeByte, type]
  | ack =>
    simp only [quicEncodeFrame, type, bind_eq_bind, bind_eq_some_iff, some.injEq] at encoded
    obtain ⟨largest, largestIs, delay, delayIs, count, countIs, first, firstIs, ranges, rangesIs, rfl⟩ := encoded
    refine ⟨_, _, rfl, ?_⟩
    simp [decodeFrame_ack, decodeAck, onWire, typeByte, type, quicDecodeVarint_encode largestIs,
      quicDecodeVarint_encode delayIs, quicDecodeVarint_encode countIs, quicDecodeVarint_encode firstIs,
      decodeAckRanges_encode rangesIs]
  | crypto =>
    simp only [quicEncodeFrame, type, bind_eq_bind, bind_eq_some_iff, some.injEq] at encoded
    obtain ⟨offset, offsetIs, size, sizeIs, rfl⟩ := encoded
    refine ⟨_, _, rfl, ?_⟩
    simp +decide [decodeFrame, onWire, typeByte, type, quicDecodeVarint_encode offsetIs,
      quicDecodeVarint_encode sizeIs, takeBytes_append]
  | stream => exact decodeFrame_encodeStream type encoded rest
  | resetStream =>
    simp only [quicEncodeFrame, type, bind_eq_bind, bind_eq_some_iff, some.injEq] at encoded
    obtain ⟨id, idIs, code, codeIs, size, sizeIs, rfl⟩ := encoded
    refine ⟨_, _, rfl, ?_⟩
    simp +decide [decodeFrame, onWire, typeByte, type, quicDecodeVarint_encode idIs,
      quicDecodeVarint_encode codeIs, quicDecodeVarint_encode sizeIs]
  | stopSending =>
    simp only [quicEncodeFrame, type, bind_eq_bind, bind_eq_some_iff, some.injEq] at encoded
    obtain ⟨id, idIs, code, codeIs, rfl⟩ := encoded
    refine ⟨_, _, rfl, ?_⟩
    simp +decide [decodeFrame, onWire, typeByte, type, quicDecodeVarint_encode idIs,
      quicDecodeVarint_encode codeIs]
  | maxData =>
    simp only [quicEncodeFrame, type, bind_eq_bind, bind_eq_some_iff, some.injEq] at encoded
    obtain ⟨limit, limitIs, rfl⟩ := encoded
    refine ⟨_, _, rfl, ?_⟩
    simp +decide [decodeFrame, onWire, typeByte, type, quicDecodeVarint_encode limitIs]
  | maxStreamData =>
    simp only [quicEncodeFrame, type, bind_eq_bind, bind_eq_some_iff, some.injEq] at encoded
    obtain ⟨id, idIs, limit, limitIs, rfl⟩ := encoded
    refine ⟨_, _, rfl, ?_⟩
    simp +decide [decodeFrame, onWire, typeByte, type, quicDecodeVarint_encode idIs,
      quicDecodeVarint_encode limitIs]
  | pathChallenge | pathResponse =>
    simp only [quicEncodeFrame, type, ite_none_left_eq_some, some.injEq] at encoded
    obtain ⟨size, rfl⟩ := encoded
    have read := takeBytes_append frame.pathData rest
    rw [not_not.mp size] at read
    refine ⟨_, _, rfl, ?_⟩
    simp +decide [decodeFrame, onWire, typeByte, type, read]
  | connectionClose =>
    simp only [quicEncodeFrame, type, bind_eq_bind, bind_eq_some_iff, some.injEq] at encoded
    obtain ⟨code, codeIs, kind, kindIs, size, sizeIs, rfl⟩ := encoded
    refine ⟨_, _, rfl, ?_⟩
    simp +decide [decodeFrame, onWire, typeByte, type, quicDecodeVarint_encode codeIs,
      quicDecodeVarint_encode kindIs, quicDecodeVarint_encode sizeIs, takeBytes_append]
  | handshakeDone =>
    simp only [quicEncodeFrame, type, some.injEq] at encoded
    refine ⟨_, _, encoded.symm, ?_⟩
    simp +decide [decodeFrame, onWire, typeByte, type]
  | newConnectionId =>
    simp only [quicEncodeFrame, type, bind_eq_bind, bind_eq_some_iff, ite_none_left_eq_some,
      some.injEq, not_or] at encoded
    obtain ⟨number, numberIs, prior, priorIs, ⟨present, short, token⟩, rfl⟩ := encoded
    have filled := length_pos_iff.mpr present
    have size : (UInt8.ofNat frame.connectionId.bytes.length).toNat = frame.connectionId.bytes.length := by
      rw [UInt8.toNat_ofNat_of_lt']
      show _ < 256
      omega
    have read := takeBytes_append frame.statelessResetToken rest
    rw [not_not.mp token] at read
    refine ⟨_, _, rfl, ?_⟩
    simp +decide [decodeFrame, decodeNewConnectionId, onWire, typeByte, type,
      quicDecodeVarint_encode numberIs, quicDecodeVarint_encode priorIs, size, takeBytes_append, read]
    exact ⟨present, by omega⟩
  | retireConnectionId =>
    simp only [quicEncodeFrame, type, bind_eq_bind, bind_eq_some_iff, some.injEq] at encoded
    obtain ⟨number, numberIs, rfl⟩ := encoded
    refine ⟨_, _, rfl, ?_⟩
    simp +decide [decodeFrame, onWire, typeByte, type, quicDecodeVarint_encode numberIs]
  | _ => simp [quicEncodeFrame, type] at encoded

end Decoding

theorem any_const {α : Type} (x : Option α) (holds : Bool) : (x.any fun _ => holds) = (x.isSome && holds) := by
  cases x <;> simp

theorem encodeAckRanges_isSome_iff (ranges : List QuicAckRange) :
    (encodeAckRanges ranges).isSome ↔ ∀ range ∈ ranges, range.gap < 2 ^ 62 ∧ range.ackRangeLength < 2 ^ 62 := by
  induction ranges with
  | nil => simp [encodeAckRanges]
  | cons range others ih =>
    simp only [encodeAckRanges, bind_eq_bind, isSome_bind, any_const, isSome_some, Bool.and_true,
      Bool.and_eq_true, quicEncodeVarint_isSome_iff, ih, forall_mem_cons, and_assoc]

theorem isSome_ite_none {p : Prop} [Decidable p] :
    (if p then none else some bytes).isSome = decide ¬p := by
  split <;> simp [*]

theorem quicEncodeFrame_isSome_iff (frame : QuicFrame) :
    (quicEncodeFrame frame).isSome ↔ frame.type.encodable = true ∧ frame.InRange := by
  cases type : frame.type
  case stream =>
    by_cases moved : frame.offset ≠ 0
    · simp only [quicEncodeFrame, InRange, type, QuicFrameType.encodable, bind_eq_bind, true_and,
        if_pos moved, isSome_bind, any_const, isSome_some, Bool.and_true, Bool.and_eq_true,
        quicEncodeVarint_isSome_iff]
    · have small : frame.offset < 2 ^ 62 := by omega
      simp only [quicEncodeFrame, InRange, type, QuicFrameType.encodable, bind_eq_bind, true_and,
        if_neg moved, bind_some, isSome_bind, any_const, isSome_some, Bool.and_true,
        Bool.and_eq_true, quicEncodeVarint_isSome_iff, small]
  all_goals
    simp only [quicEncodeFrame, InRange, type, QuicFrameType.encodable, bind_eq_bind, true_and,
      isSome_bind, any_const, isSome_some, isSome_none, Bool.and_true, Bool.and_eq_true,
      Bool.false_eq_true, false_and, quicEncodeVarint_isSome_iff, encodeAckRanges_isSome_iff, isSome_ite_none,
      decide_eq_true_eq, not_or, not_lt, not_not, ne_eq, gt_iff_lt]

def encodeFrames : List QuicFrame → Option Bytes
  | [] => some []
  | frame :: rest => do
    let bytes ← quicEncodeFrame frame
    let others ← encodeFrames rest
    some (bytes ++ others)

def PaddingApart (frames : List QuicFrame) : Prop :=
  frames.IsChain fun first second => ¬(first.type = .padding ∧ second.type = .padding)

theorem encode_head (encoded : quicEncodeFrame frame = some bytes)
    (first : bytes.head? = some 0x00) : frame.type = .padding := by
  obtain ⟨t, body, rfl, decoded⟩ := decodeFrame_encode encoded [] (by simp)
  cases some.inj first
  have wire := congrArg (Option.map fun result => result.1.type) decoded
  rw [decodeFrame, if_pos rfl] at wire
  exact frame.onWire_type.symm.trans (some.inj wire).symm

theorem decodeLoop_encodeFrames {frames : List QuicFrame} (encoded : encodeFrames frames = some bytes)
    (apart : PaddingApart frames) {fuel : Nat} (enough : bytes.length ≤ fuel) :
    decodeLoop fuel bytes = some (frames.map onWire) := by
  induction frames generalizing bytes fuel with
  | nil =>
    cases encoded
    cases fuel <;> rfl
  | cons frame rest ih =>
    simp only [encodeFrames, bind_eq_bind, bind_eq_some_iff, some.injEq] at encoded
    obtain ⟨mine, mineIs, others, othersIs, rfl⟩ := encoded
    have behind : frame.type = .padding → others.head? ≠ some 0x00 := by
      intro padding zero
      cases rest with
      | nil =>
        cases othersIs
        simp at zero
      | cons next more =>
        simp only [encodeFrames, bind_eq_bind, bind_eq_some_iff, some.injEq] at othersIs
        obtain ⟨second, secondIs, _, _, rfl⟩ := othersIs
        obtain ⟨t, body, rfl, _⟩ := decodeFrame_encode secondIs [] (by simp)
        exact (isChain_cons_cons.mp apart).1 ⟨padding, encode_head secondIs zero⟩
    obtain ⟨t, body, rfl, decoded⟩ := decodeFrame_encode mineIs others behind
    cases fuel with
    | zero => simp at enough
    | succ fuel =>
      have shorter : others.length ≤ fuel := by
        simp only [cons_append, length_cons, length_append] at enough
        omega
      have later := ih othersIs apart.tail shorter
      simp [decodeLoop, decoded, later]

def appendAll : List (Option Bytes) → Bytes → Bool × Bytes
  | [], out => (true, out)
  | none :: _, out => (false, out)
  | some bytes :: rest, out => appendAll rest (out ++ bytes)

/-- What quicEncodeFrame appends to its output. A check of its own is part of the append behind it. -/
def QuicFrame.appends (frame : QuicFrame) : List (Option Bytes) :=
  match frame.type with
  | .padding => [some [0x00]]
  | .ping => [some [0x01]]
  | .ack =>
    [some [0x02], quicEncodeVarint frame.largestAcknowledged, quicEncodeVarint frame.ackDelay,
      quicEncodeVarint frame.ackRanges.length, quicEncodeVarint frame.firstAckRange] ++
      frame.ackRanges.flatMap fun range => [quicEncodeVarint range.gap, quicEncodeVarint range.ackRangeLength]
  | .crypto =>
    [some [0x06], quicEncodeVarint frame.offset, quicEncodeVarint frame.data.length, some frame.data]
  | .stream =>
    [some [0x08 ||| 0x02 ||| (if frame.offset ≠ 0 then 0x04 else 0) ||| (if frame.fin then 0x01 else 0)],
      quicEncodeVarint frame.streamId, if frame.offset ≠ 0 then quicEncodeVarint frame.offset else some [],
      quicEncodeVarint frame.data.length, some frame.data]
  | .resetStream =>
    [some [0x04], quicEncodeVarint frame.streamId, quicEncodeVarint frame.applicationErrorCode,
      quicEncodeVarint frame.finalSize]
  | .stopSending => [some [0x05], quicEncodeVarint frame.streamId, quicEncodeVarint frame.applicationErrorCode]
  | .maxData => [some [0x10], quicEncodeVarint frame.maxData]
  | .maxStreamData => [some [0x11], quicEncodeVarint frame.streamId, quicEncodeVarint frame.maxData]
  | .pathChallenge => [some [0x1a], if frame.pathData.length ≠ 8 then none else some frame.pathData]
  | .pathResponse => [some [0x1b], if frame.pathData.length ≠ 8 then none else some frame.pathData]
  | .connectionClose =>
    [some [0x1c], quicEncodeVarint frame.errorCode, quicEncodeVarint frame.frameType,
      quicEncodeVarint frame.reasonPhrase.length, some frame.reasonPhrase]
  | .handshakeDone => [some [0x1e]]
  | .newConnectionId =>
    [some [0x18], quicEncodeVarint frame.sequenceNumber, quicEncodeVarint frame.retirePriorTo,
      if frame.connectionId.bytes = [] ∨ frame.connectionId.bytes.length > 20 ∨
        frame.statelessResetToken.length ≠ 16 then
        none
      else
        some (UInt8.ofNat frame.connectionId.bytes.length :: (frame.connectionId.bytes ++ frame.statelessResetToken))]
  | .retireConnectionId => [some [0x19], quicEncodeVarint frame.sequenceNumber]
  | _ => [none]

/-- quicEncodeFrame with its output string: what it returns and what it leaves there. -/
def quicEncodeFrameOnto (frame : QuicFrame) (out : Bytes) : Bool × Bytes := appendAll frame.appends out

def joinAll : List (Option Bytes) → Option Bytes
  | [] => some []
  | bytes :: rest => bytes.bind fun bytes => (joinAll rest).bind fun others => some (bytes ++ others)

theorem appendAll_eq (appends : List (Option Bytes)) (out : Bytes) :
    (appendAll appends out).1 = (joinAll appends).isSome ∧ out <+: (appendAll appends out).2 ∧
      ∀ bytes, joinAll appends = some bytes → (appendAll appends out).2 = out ++ bytes := by
  induction appends generalizing out with
  | nil => exact ⟨rfl, prefix_rfl, fun bytes same => by cases same; exact (append_nil out).symm⟩
  | cons first rest ih =>
    cases first with
    | none => exact ⟨rfl, prefix_rfl, fun bytes same => by simp [joinAll] at same⟩
    | some mine =>
      obtain ⟨accepted, grows, whole⟩ := ih (out ++ mine)
      refine ⟨?_, (prefix_append out mine).trans grows, ?_⟩
      · rw [appendAll, accepted]
        simp only [joinAll, bind_some]
        cases joinAll rest <;> rfl
      · intro bytes same
        simp only [joinAll, bind_some, bind_eq_some_iff, some.injEq] at same
        obtain ⟨others, othersIs, rfl⟩ := same
        rw [appendAll, whole others othersIs, append_assoc]

theorem joinAll_append (first second : List (Option Bytes)) :
    joinAll (first ++ second) =
      (joinAll first).bind fun bytes => (joinAll second).bind fun others => some (bytes ++ others) := by
  induction first with
  | nil =>
    simp only [nil_append, joinAll, bind_some]
    cases joinAll second <;> rfl
  | cons piece rest ih =>
    simp only [cons_append, joinAll, ih, bind_assoc, bind_some, append_assoc]

theorem joinAll_ranges (ranges : List QuicAckRange) :
    joinAll (ranges.flatMap fun range => [quicEncodeVarint range.gap, quicEncodeVarint range.ackRangeLength]) =
      encodeAckRanges ranges := by
  induction ranges with
  | nil => rfl
  | cons range rest ih =>
    rw [flatMap_cons, joinAll_append, ih]
    simp only [joinAll, encodeAckRanges, bind_eq_bind, bind_assoc, bind_some, append_nil,
      append_assoc]

theorem joinAll_appends (frame : QuicFrame) : joinAll frame.appends = quicEncodeFrame frame := by
  cases type : frame.type
  all_goals
    simp only [QuicFrame.appends, quicEncodeFrame, type, joinAll, joinAll_ranges, bind_eq_bind,
      bind_assoc, bind_some, bind_none, append_nil, cons_append, nil_append]
  case stream => split <;> simp only [bind_some, nil_append]
  all_goals split <;> simp

theorem quicEncodeFrameOnto_accepts (frame : QuicFrame) (out : Bytes) :
    (quicEncodeFrameOnto frame out).1 = true ↔ frame.type.encodable = true ∧ frame.InRange := by
  rw [quicEncodeFrameOnto, (appendAll_eq frame.appends out).1, joinAll_appends, quicEncodeFrame_isSome_iff]

/-- The type byte is written before anything is checked. -/
theorem quicEncodeFrameOnto_grows (encodable : frame.type.encodable = true) (out : Bytes) :
    (quicEncodeFrameOnto frame out).2 ≠ out := by
  obtain ⟨t, rest, first⟩ : ∃ t rest, frame.appends = some [t] :: rest := by
    unfold QuicFrame.appends
    cases type : frame.type <;> simp [type, QuicFrameType.encodable] at encodable <;> exact ⟨_, _, rfl⟩
  rw [quicEncodeFrameOnto, first, appendAll]
  intro same
  have grows := (appendAll_eq rest (out ++ [t])).2.1.length_le
  rw [same, List.length_append, List.length_singleton] at grows
  omega

/-- A frame that quicDecodeFrames can produce from a STREAM frame with its length or from any other
frame: it has the fields of its type, and they are in range. The raw type is left open. -/
def QuicFrame.Legal (frame : QuicFrame) : Prop :=
  frame.type.decodable = true ∧ { frame.onWire with rawType := frame.rawType } = frame ∧ frame.InRange

theorem QuicFrame.Legal.onWire (legal : frame.Legal) :
    frame.onWire = { frame with rawType := frame.typeByte } := by
  have raw : frame.onWire.rawType = frame.typeByte := by
    unfold QuicFrame.onWire
    cases type : frame.type <;> rfl
  have fields := legal.2.1
  rw [← raw]
  generalize frame.onWire = wire at fields ⊢
  rw [← fields]

theorem encodeFrames_isSome_iff (frames : List QuicFrame) :
    (encodeFrames frames).isSome ↔ ∀ frame ∈ frames, frame.type.encodable = true ∧ frame.InRange := by
  induction frames with
  | nil => simp [encodeFrames]
  | cons frame rest ih =>
    rw [forall_mem_cons, ← ih, ← quicEncodeFrame_isSome_iff]
    simp only [encodeFrames, bind_eq_bind, isSome_bind, any_const, isSome_some, Bool.and_true,
      Bool.and_eq_true]

/-- Frames of the types for which quicEncodeFrame has a case come back from the wire, and only these.
A call that fails leaves its output alone only where it has no case for the type. -/
theorem frames_roundTrip_iff (frames : List QuicFrame) (legal : ∀ frame ∈ frames, frame.Legal)
    (apart : PaddingApart frames) (frame : QuicFrame) (out : Bytes) :
    ((∃ bytes, encodeFrames frames = some bytes ∧
        quicDecodeFrames bytes = some (frames.map fun frame => { frame with rawType := frame.typeByte })) ↔
      ∀ frame ∈ frames, frame.type.encodable = true) ∧
    (((quicEncodeFrameOnto frame out).1 = false → (quicEncodeFrameOnto frame out).2 = out) ↔
      frame.type.encodable = false ∨ frame.InRange) := by
  constructor
  · constructor
    · rintro ⟨bytes, encoded, _⟩ frame member
      exact ((encodeFrames_isSome_iff frames).mp (by simp [encoded]) frame member).1
    · intro encodable
      have accepted := (encodeFrames_isSome_iff frames).mpr fun frame member =>
        ⟨encodable frame member, (legal frame member).2.2⟩
      obtain ⟨bytes, encoded⟩ := isSome_iff_exists.mp accepted
      have same : frames.map onWire = frames.map fun frame => { frame with rawType := frame.typeByte } :=
        List.map_congr_left fun frame member => (legal frame member).onWire
      exact ⟨bytes, encoded, same ▸ decodeLoop_encodeFrames encoded apart (Nat.le_refl _)⟩
  · have accepts := quicEncodeFrameOnto_accepts frame out
    cases encodable : frame.type.encodable with
    | false =>
      have nothing : frame.appends = [none] := by
        unfold QuicFrame.appends
        cases type : frame.type <;> simp [type, QuicFrameType.encodable] at encodable <;> rfl
      simp [quicEncodeFrameOnto, nothing, appendAll]
    | true =>
      have grows := quicEncodeFrameOnto_grows encodable out
      rw [encodable] at accepts
      constructor
      · intro unchanged
        by_contra wrong
        have refused : (quicEncodeFrameOnto frame out).1 = false :=
          Bool.eq_false_of_not_eq_true fun taken => wrong (Or.inr (accepts.mp taken).2)
        exact grows (unchanged refused)
      · rintro (other | fits) refused
        · simp at other
        · simp [accepts.mpr ⟨rfl, fits⟩] at refused

/-- A STREAM frame at offset 3 with its last byte, and a PING. -/
theorem frames_roundTrip_stream :
    ∃ bytes, encodeFrames [{ type := .stream, streamId := 4, offset := 3, data := [7], fin := true, hasLength := true },
        { type := .ping }] = some bytes ∧
      quicDecodeFrames bytes = some [
        { type := .stream, rawType := 0x0f, streamId := 4, offset := 3, data := [7], fin := true, hasLength := true },
        { type := .ping, rawType := 0x01 }] := by
  have both := (frames_roundTrip_iff
    [{ type := .stream, streamId := 4, offset := 3, data := [7], fin := true, hasLength := true }, { type := .ping }]
    (by simp [QuicFrame.Legal, onWire, InRange, QuicFrameType.decodable])
    (by simp [PaddingApart]) { type := .ping } []).1.mpr (by simp [QuicFrameType.encodable])
  exact both

/-- A NEW_TOKEN frame as the server sends it after the handshake is refused, and a PATH_CHALLENGE
without its data leaves a byte behind. -/
theorem frames_refused :
    QuicFrame.Legal { type := .newToken, data := [1, 2, 3] } ∧
      encodeFrames [{ type := .newToken, data := [1, 2, 3] }] = none ∧
      quicEncodeFrameOnto { type := .pathChallenge } [] = (false, [0x1a]) := by
  refine ⟨?_, by decide, by decide⟩
  simp [QuicFrame.Legal, onWire, InRange, decodable]

end Qtng
