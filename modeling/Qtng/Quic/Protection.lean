import Qtng.Quic.FrameRoundTrip
import Qtng.Quic.Send

namespace Qtng

open BigEndian List Option

variable {first : UInt8} {token : Bytes}

/-- The AEAD and the block cipher of the header protection, under valid keys. What was
sealed is opened under the same packet number and header, and the tag has 16 bytes. -/
structure PacketCipher where
  Keys : Type
  sealPayload : Keys → Nat → Bytes → Bytes → Bytes
  openPayload : Keys → Nat → Bytes → Bytes → Option Bytes
  mask : Keys → Bytes → Bytes
  open_seal : ∀ keys pn aad payload, openPayload keys pn aad (sealPayload keys pn aad payload) = some payload
  length_seal : ∀ keys pn aad payload, (sealPayload keys pn aad payload).length = payload.length + 16

structure QuicPacketHeader where
  isLong : Bool := false
  longType : QuicLongPacketType := .initial
  version : Nat := 0
  dcid : QuicConnectionId := {}
  scid : QuicConnectionId := {}
  token : Bytes := []
  packetNumber : Nat := 0
  pnLength : Nat := 0
  headerLength : Nat := 0
  pnOffset : Nat := 0
  payloadLength : Nat := 0
  keyPhase : Bool := false
deriving DecidableEq

def longTypeBits (first : UInt8) : QuicLongPacketType :=
  match ((first >>> 4) &&& 0x3).toNat with
  | 0 => .initial
  | 1 => .zeroRtt
  | 2 => .handshake
  | _ => .retry

def decodeConnId : Bytes → Option (QuicConnectionId × Bytes)
  | [] => none
  | len :: rest =>
    if len.toNat > 20 then none else (takeBytes len.toNat rest).map fun (bytes, rest) => (⟨bytes⟩, rest)

/-- Only an Initial packet carries a token. -/
def decodeToken (longType : QuicLongPacketType) (data : Bytes) : Option (Bytes × Bytes) :=
  if longType = .initial then (quicDecodeVarint data).bind fun (tokenLen, rest) => takeBytes tokenLen rest
  else some ([], data)

/-- The header up to the packet number, which is still protected: every caller sets skipPn. -/
def quicParsePacketHeader : Bytes → Option QuicPacketHeader
  | [] => none
  | first :: body =>
    if first &&& 0x80 ≠ 0 then do
      let (version, rest) ← takeBytes 4 body
      let (dcid, rest) ← decodeConnId rest
      let (scid, rest) ← decodeConnId rest
      let (token, rest) ← decodeToken (longTypeBits first) rest
      let (length, rest) ← quicDecodeVarint rest
      let off := body.length + 1 - rest.length
      some {
        isLong := true, longType := longTypeBits first, version := readOn 0 version, dcid, scid, token
        payloadLength := length, pnOffset := off, pnLength := (first &&& 0x03).toNat + 1, headerLength := off }
    else some { pnLength := (first &&& 0x03).toNat + 1, pnOffset := 1, headerLength := 1 }

/-- Four bits of the first byte are masked in a long header, five in a short one. -/
def maskFirst (mask : Bytes) (first : UInt8) : UInt8 :=
  if first &&& 0x80 ≠ 0 then first ^^^ (mask.headD 0 &&& 0x0f) else first ^^^ (mask.headD 0 &&& 0x1f)

/-- The loop of applyHeaderProtection from byte i of the packet number on. -/
def maskLoop (mask : Bytes) (pnOffset : Nat) : Nat → Nat → Bytes → Option Bytes
  | _, 0, header => some header
  | i, rounds + 1, header =>
    if pnOffset + i ≥ header.length then none
    else maskLoop mask pnOffset (i + 1) rounds (header.modify (pnOffset + i) (· ^^^ mask.getD (1 + i) 0))

def quicDecodePacketNumber (largestPn truncated pnLength : Nat) : Nat :=
  let pnNbits := pnLength * 8
  let expectedPn := (largestPn + 1) % 2 ^ 64
  let pnWin := 1 <<< pnNbits
  let pnHwin := pnWin / 2
  -- the bits of the mask are cleared by shifting them out
  let candidate := ((expectedPn >>> pnNbits) <<< pnNbits) ||| truncated
  if (candidate + pnHwin) % 2 ^ 64 ≤ expectedPn ∧ (candidate + pnWin) % 2 ^ 64 < 1 <<< 62 then
    (candidate + pnWin) % 2 ^ 64
  else if candidate > (expectedPn + pnHwin) % 2 ^ 64 ∧ candidate ≥ pnWin then candidate - pnWin
  else candidate

namespace PacketCipher

variable (C : PacketCipher)

def applyHeaderProtection (keys : C.Keys) (sample header : Bytes) (pnOffset pnLength : Nat) : Option Bytes :=
  if sample.length < 16 ∨ pnOffset ≥ header.length then none
  else
    let mask := C.mask keys (sample.take 16)
    maskLoop mask pnOffset 0 pnLength (header.modify 0 (maskFirst mask))

/-- The header with its packet number, and the additional data of the AEAD. -/
def removeHeaderProtection (keys : C.Keys) (data : Bytes) (h : QuicPacketHeader) (expectedPn : Nat) :
    Option (QuicPacketHeader × Bytes) :=
  if data.length < h.pnOffset + 4 + 16 then none
  else
    let sample := (data.drop (h.pnOffset + 4)).take 16
    (C.applyHeaderProtection keys sample (data.take (h.pnOffset + 4)) h.pnOffset 4).map fun unprotected =>
      let first := unprotected.headD 0
      let pnLength := (first &&& 0x03).toNat + 1
      let truncated := readOn 0 ((unprotected.drop h.pnOffset).take pnLength)
      let headerLength := h.pnOffset + pnLength
      ({ h with
          pnLength, keyPhase := first &&& 0x04 ≠ 0, headerLength
          packetNumber := quicDecodePacketNumber expectedPn truncated pnLength
          longType := if h.isLong then longTypeBits first else h.longType },
        unprotected.take headerLength)

/-- The bytes of the packet, or none where it is too short for the sample. -/
def quicProtectPacket (keys : C.Keys) (header payload : Bytes) (packetNumber pnLength : Nat) : Option Bytes :=
  if pnLength < 1 ∨ pnLength > 4 then none
  else
    let sealed := C.sealPayload keys packetNumber header payload
    let pnOffset := header.length - pnLength
    let packet := header ++ sealed
    if packet.length < pnOffset + 4 + 16 then none
    else
      let sample := (packet.drop (pnOffset + 4)).take 16
      (C.applyHeaderProtection keys sample header pnOffset pnLength).map (· ++ sealed)

/-- The header, the payload and how much of the data was consumed. The length of the
destination connection id of a short header is known to the caller. -/
def quicUnprotectPacket (keys : C.Keys) (data : Bytes) (dcidLen expectedPn : Nat) :
    Option (QuicPacketHeader × Bytes × Nat) :=
  if data.length < 20 then none
  else
    (quicParsePacketHeader data).bind fun h =>
      if h.isLong then
        if data.length < h.pnOffset + h.payloadLength ∨ h.payloadLength < 20 then none
        else
          let packetLen := h.pnOffset + h.payloadLength
          (C.removeHeaderProtection keys data h expectedPn).bind fun (h, aad) =>
            if h.payloadLength < h.pnLength + 16 then none
            else
              let ctLen := h.payloadLength - h.pnLength
              if h.headerLength + ctLen > packetLen then none
              else
                (C.openPayload keys h.packetNumber aad ((data.drop h.headerLength).take ctLen)).map
                  fun plain => (h, plain, packetLen)
      else if data.length < 1 + dcidLen + 1 then none
      else
        let h := { h with dcid := ⟨(data.drop 1).take dcidLen⟩, pnOffset := 1 + dcidLen }
        (C.removeHeaderProtection keys data h expectedPn).bind fun (h, aad) =>
          (C.openPayload keys h.packetNumber aad (data.drop h.headerLength)).map
            fun plain => (h, plain, data.length)

end PacketCipher

def maskNumber (mask : Bytes) : Nat → Bytes → Bytes
  | _, [] => []
  | i, byte :: rest => (byte ^^^ mask.getD (1 + i) 0) :: maskNumber mask (i + 1) rest

@[simp]
theorem length_maskNumber (mask : Bytes) (i : Nat) (number : Bytes) :
    (maskNumber mask i number).length = number.length := by
  induction number generalizing i with
  | nil => rfl
  | cons byte rest ih => rw [maskNumber, length_cons, ih, length_cons]

theorem maskNumber_append (mask : Bytes) (i : Nat) (xs ys : Bytes) :
    maskNumber mask i (xs ++ ys) = maskNumber mask i xs ++ maskNumber mask (i + xs.length) ys := by
  induction xs generalizing i with
  | nil => rfl
  | cons byte rest ih =>
    rw [cons_append, maskNumber, maskNumber, ih, cons_append, length_cons, Nat.add_right_comm,
      Nat.add_assoc]

theorem xor_twice (byte mask : UInt8) : byte ^^^ mask ^^^ mask = byte := by
  rw [UInt8.xor_assoc, UInt8.xor_self, UInt8.xor_zero]

theorem maskNumber_twice (mask : Bytes) (i : Nat) (number : Bytes) :
    maskNumber mask i (maskNumber mask i number) = number := by
  induction number generalizing i with
  | nil => rfl
  | cons byte rest ih => rw [maskNumber, maskNumber, xor_twice, ih]

theorem xor_and (byte mask bits : UInt8) : (byte ^^^ mask) &&& bits = (byte &&& bits) ^^^ (mask &&& bits) := by
  apply UInt8.toNat_inj.mp
  simp only [UInt8.toNat_and, UInt8.toNat_xor, Nat.and_xor_distrib_right]

theorem maskFirst_form (mask : Bytes) (first : UInt8) : maskFirst mask first &&& 0x80 = first &&& 0x80 := by
  have long : ∀ m : UInt8, (m &&& 0x0f) &&& 0x80 = 0 := by decide +kernel
  have short : ∀ m : UInt8, (m &&& 0x1f) &&& 0x80 = 0 := by decide +kernel
  unfold maskFirst
  split
  · rw [xor_and, long, UInt8.xor_zero]
  · rw [xor_and, short, UInt8.xor_zero]

theorem maskFirst_twice (mask : Bytes) (first : UInt8) : maskFirst mask (maskFirst mask first) = first := by
  have form := maskFirst_form mask first
  by_cases long : first &&& 0x80 ≠ 0
  · rw [maskFirst, if_pos (form ▸ long), maskFirst, if_pos long, xor_twice]
  · rw [maskFirst, if_neg (form ▸ long), maskFirst, if_neg long, xor_twice]

theorem longTypeBits_maskFirst (mask : Bytes) (long : first &&& 0x80 ≠ 0) :
    longTypeBits (maskFirst mask first) = longTypeBits first := by
  have low : ∀ m : UInt8, (m &&& 0x0f) >>> 4 = 0 := by decide +kernel
  rw [longTypeBits, maskFirst, if_pos long, UInt8.shiftRight_xor, low, UInt8.xor_zero, longTypeBits]

theorem modify_append_cons (before : Bytes) (byte : UInt8) (rest : Bytes) (f : UInt8 → UInt8) :
    (before ++ byte :: rest).modify before.length f = before ++ f byte :: rest := by
  have inside : before.length < (before ++ byte :: rest).length := by simp
  rw [modify_eq_take_cons_drop inside]
  simp

theorem maskLoop_eq (mask : Bytes) (pnOffset i : Nat) (before number : Bytes) (place : before.length = pnOffset + i) :
    maskLoop mask pnOffset i number.length (before ++ number) = some (before ++ maskNumber mask i number) := by
  induction number generalizing i before with
  | nil => rfl
  | cons byte rest ih =>
    have inside : ¬ pnOffset + i ≥ (before ++ byte :: rest).length := by
      rw [length_append, length_cons]
      omega
    have next := ih (i + 1) (before ++ [byte ^^^ mask.getD (1 + i) 0]) (by simp [place, Nat.add_assoc])
    rw [append_assoc, singleton_append] at next
    rw [length_cons, maskLoop, if_neg inside, ← place, modify_append_cons, next, maskNumber,
      append_assoc, singleton_append]

theorem PacketCipher.applyHeaderProtection_eq (C : PacketCipher) (keys : C.Keys) {sample : Bytes} (first : UInt8)
    (body number : Bytes) (size : sample.length = 16) (numbered : 0 < number.length) :
    C.applyHeaderProtection keys sample (first :: body ++ number) (1 + body.length) number.length =
      some (maskFirst (C.mask keys sample) first :: body ++ maskNumber (C.mask keys sample) 0 number) := by
  have inside : ¬ (sample.length < 16 ∨ 1 + body.length ≥ (first :: body ++ number).length) := by
    simp only [length_append, length_cons]
    omega
  have whole : sample.take 16 = sample := take_of_length_le size.le
  rw [applyHeaderProtection, if_neg inside]
  simp only [whole, cons_append, modify_zero_cons]
  rw [← cons_append, maskLoop_eq]
  · rfl
  · rw [length_cons]
    omega

section Protection

variable (C : PacketCipher) (keys : C.Keys) (first : UInt8) (body : Bytes) {number : Bytes}

/-- The mask under which a packet number of two bytes stands. The sample lies four bytes
behind the start of the number, so that it leaves out the first two sealed bytes. -/
def PacketCipher.maskOf (sealed : Bytes) : Bytes := C.mask keys ((sealed.drop 2).take 16)

def PacketCipher.onWire (number sealed : Bytes) : Bytes :=
  maskFirst (C.maskOf keys sealed) first :: body ++ maskNumber (C.maskOf keys sealed) 0 number ++ sealed

theorem PacketCipher.quicProtectPacket_eq (payload : Bytes) (pn : Nat) (two : number.length = 2) :
    C.quicProtectPacket keys (first :: body ++ number) payload pn 2 =
      if payload.length < 2 then none
      else some (C.onWire keys first body number (C.sealPayload keys pn (first :: body ++ number) payload)) := by
  have size := C.length_seal keys pn (first :: body ++ number) payload
  set sealed := C.sealPayload keys pn (first :: body ++ number) payload with sealedIs
  have place : (first :: body ++ number).length - 2 = 1 + body.length := by
    simp only [length_append, length_cons, two]
    omega
  have behind : 1 + body.length + 4 = (first :: body ++ number).length + 2 := by
    simp only [length_append, length_cons, two]
    omega
  have short : (first :: body ++ number ++ sealed).length < 1 + body.length + 4 + 16 ↔ payload.length < 2 := by
    simp only [length_append, length_cons, two, size]
    omega
  rw [quicProtectPacket, if_neg (by decide)]
  simp only [← sealedIs, place, short]
  split
  · rfl
  · have sampled : ((sealed.drop 2).take 16).length = 16 := by
      rw [length_take, length_drop]
      omega
    have masked := C.applyHeaderProtection_eq keys first body number sampled (by omega)
    rw [two] at masked
    rw [behind, drop_append, drop_of_length_le (by omega), nil_append, Nat.add_sub_cancel_left, masked]
    rfl

theorem PacketCipher.removeHeaderProtection_eq (h : QuicPacketHeader) (largest : Nat) (sealed rest : Bytes)
    (place : h.pnOffset = 1 + body.length) (two : number.length = 2) (bits : first &&& 0x03 = 1)
    (enough : 18 ≤ sealed.length) :
    C.removeHeaderProtection keys (C.onWire keys first body number sealed ++ rest) h largest =
      some ({ h with
        pnLength := 2, keyPhase := first &&& 0x04 ≠ 0, headerLength := 1 + body.length + 2
        packetNumber := quicDecodePacketNumber largest (readOn 0 number) 2
        longType := if h.isLong then longTypeBits first else h.longType }, first :: body ++ number) := by
  set mask := C.maskOf keys sealed with maskIs
  have head : C.onWire keys first body number sealed ++ rest =
      (maskFirst mask first :: body ++ (maskNumber mask 0 number ++ sealed.take 2)) ++ (sealed.drop 2 ++ rest) := by
    simp only [onWire, ← maskIs, append_assoc, cons_append, ← append_assoc (sealed.take 2),
      take_append_drop]
  have pair : (sealed.take 2).length = 2 := by
    rw [length_take]
    omega
  have four : (maskNumber mask 0 number ++ sealed.take 2).length = 4 := by
    rw [length_append, length_maskNumber, two, pair]
  have span : (maskFirst mask first :: body ++ (maskNumber mask 0 number ++ sealed.take 2)).length =
      1 + body.length + 4 := by
    rw [length_append, length_cons, four]
    omega
  have long : ¬ (C.onWire keys first body number sealed ++ rest).length < 1 + body.length + 4 + 16 := by
    rw [head, length_append, span, length_append, length_drop]
    omega
  have sampled : ((sealed.drop 2).take 16).length = 16 := by
    rw [length_take, length_drop]
    omega
  have sample : (sealed.drop 2 ++ rest).take 16 = (sealed.drop 2).take 16 := by
    rw [take_append_of_le_length]
    rw [length_drop]
    omega
  have masked := C.applyHeaderProtection_eq keys (maskFirst mask first) body
    (maskNumber mask 0 number ++ sealed.take 2) sampled (by omega)
  rw [four, ← maskOf, ← maskIs, maskNumber_append, maskNumber_twice, maskFirst_twice] at masked
  generalize maskNumber mask (0 + (maskNumber mask 0 number).length) (sealed.take 2) = extra at masked
  rw [← append_assoc (first :: body)] at masked
  rw [removeHeaderProtection, place, if_neg long, head, drop_left' span, take_left' span, sample]
  have numbered : (first :: body ++ number ++ extra).drop (1 + body.length) = number ++ extra := by
    rw [append_assoc, drop_left' (by rw [length_cons, Nat.add_comm])]
  have header : (first :: body ++ number ++ extra).take (1 + body.length + 2) = first :: body ++ number :=
    take_left' (by rw [length_append, length_cons, two, Nat.add_comm body.length])
  have lead : (first :: body ++ number ++ extra).headD 0 = first := rfl
  have count : (1 : UInt8).toNat + 1 = 2 := rfl
  simp only [masked, map_some, lead, bits, count, numbered, header, take_left' two]

end Protection

theorem decodeConnId_encode {id : QuicConnectionId} (fits : id.bytes.length ≤ 20) (rest : Bytes) :
    decodeConnId (encodeConnId id ++ rest) = some (id, rest) := by
  have count : (UInt8.ofNat id.bytes.length).toNat = id.bytes.length :=
    UInt8.toNat_ofNat_of_lt' (show id.bytes.length < 256 by omega)
  rw [encodeConnId, if_neg (Nat.not_lt.mpr fits), cons_append, decodeConnId, count, if_neg (Nat.not_lt.mpr fits),
    takeBytes_append, map_some]

/-- The part of a long header between its first byte and the packet number. -/
def longBody (type : QuicLongPacketType) (version : Nat) (dcid scid : QuicConnectionId) (token : Bytes) (length : Nat) :
    Bytes :=
  [byteAt version 24, byteAt version 16, byteAt version 8, byteAt version 0] ++ (encodeConnId dcid ++
    (encodeConnId scid ++ ((if type = .initial then (quicEncodeVarint token.length).getD [] ++ token else []) ++
      (quicEncodeVarint length).getD [])))

def longFirst (type : QuicLongPacketType) : UInt8 := UInt8.ofNat (0xc0 ||| (type.toNat &&& 0x3) <<< 4 ||| 1)

def shortFirst (keyPhase : Bool) : UInt8 := UInt8.ofNat (0x40 ||| (if keyPhase then 0x04 else 0) ||| 1)

theorem quicBuildLongHeader_eq (type : QuicLongPacketType) (version : Nat) (dcid scid : QuicConnectionId)
    (token : Bytes)
    (pn length : Nat) : quicBuildLongHeader type version dcid scid token pn 2 length =
      longFirst type :: longBody type version dcid scid token (length + 2) ++ writePn pn 2 := by
  simp only [quicBuildLongHeader, longFirst, longBody, append_assoc, cons_append, nil_append]
  rfl

theorem longFirst_parts (type : QuicLongPacketType) :
    longFirst type &&& 0x80 ≠ 0 ∧ longFirst type &&& 0x03 = 1 ∧ longTypeBits (longFirst type) = type := by
  cases type <;> decide

theorem shortFirst_parts (keyPhase : Bool) : shortFirst keyPhase &&& 0x80 = 0 ∧ shortFirst keyPhase &&& 0x03 = 1 := by
  cases keyPhase <;> decide

theorem quicDecodeVarint_getD {value : Nat} (bound : value < 2 ^ 62) (rest : Bytes) :
    quicDecodeVarint ((quicEncodeVarint value).getD [] ++ rest) = some (value, rest) := by
  obtain ⟨bytes, encoded⟩ := isSome_iff_exists.mp ((quicEncodeVarint_isSome_iff value).mpr bound)
  rw [encoded, getD_some]
  exact quicDecodeVarint_encode encoded rest

theorem decodeToken_encode (type : QuicLongPacketType) (bound : token.length < 2 ^ 62) (rest : Bytes) :
    decodeToken type ((if type = .initial then (quicEncodeVarint token.length).getD [] ++ token else []) ++ rest) =
      some (if type = .initial then token else [], rest) := by
  unfold decodeToken
  split
  · rw [append_assoc, quicDecodeVarint_getD bound, bind_some]
    exact takeBytes_append token rest
  · rfl

theorem quicParsePacketHeader_long (version : Nat) {type : QuicLongPacketType} {dcid scid : QuicConnectionId}
    {length : Nat} (dcidFits : dcid.bytes.length ≤ 20) (scidFits : scid.bytes.length ≤ 20)
    (tokenFits : token.length < 2 ^ 62) (lengthFits : length < 2 ^ 62) (long : first &&& 0x80 ≠ 0)
    (bits : longTypeBits first = type) (rest : Bytes) :
    ∃ h, quicParsePacketHeader (first :: longBody type version dcid scid token length ++ rest) = some h ∧
      h.isLong = true ∧ h.payloadLength = length ∧
      h.pnOffset = 1 + (longBody type version dcid scid token length).length ∧
      h.longType = type ∧ h.dcid = dcid ∧ h.token = if type = .initial then token else [] := by
  have place (xs : Bytes) : (xs ++ rest).length + 1 - rest.length = 1 + xs.length := by
    rw [length_append]
    omega
  have read : quicParsePacketHeader (first :: (longBody type version dcid scid token length ++ rest)) = some
      { isLong := true, longType := type
        version := readOn 0 [byteAt version 24, byteAt version 16, byteAt version 8, byteAt version 0]
        dcid := dcid, scid := scid, token := if type = .initial then token else [], payloadLength := length
        pnOffset := 1 + (longBody type version dcid scid token length).length, pnLength := (first &&& 0x03).toNat + 1
        headerLength := 1 + (longBody type version dcid scid token length).length } := by
    have tail : longBody type version dcid scid token length ++ rest =
        [byteAt version 24, byteAt version 16, byteAt version 8, byteAt version 0] ++ (encodeConnId dcid ++
          (encodeConnId scid ++ ((if type = .initial then (quicEncodeVarint token.length).getD [] ++ token else []) ++
            ((quicEncodeVarint length).getD [] ++ rest)))) := by
      simp only [longBody, append_assoc]
    have four := takeBytes_append [byteAt version 24, byteAt version 16, byteAt version 8, byteAt version 0]
      (encodeConnId dcid ++ (encodeConnId scid ++
        ((if type = .initial then (quicEncodeVarint token.length).getD [] ++ token else []) ++
          ((quicEncodeVarint length).getD [] ++ rest))))
    rw [← tail] at four
    rw [quicParsePacketHeader, if_pos long, bits]
    change (takeBytes 4 _).bind _ = _
    rw [show takeBytes 4 _ = _ from four, bind_some]
    simp only [decodeConnId_encode dcidFits, decodeConnId_encode scidFits, decodeToken_encode type tokenFits,
      quicDecodeVarint_getD lengthFits, bind_eq_bind, bind_some, place]
  exact ⟨_, read, rfl, rfl, rfl, rfl, rfl, rfl⟩

theorem quicParsePacketHeader_short (short : ¬ first &&& 0x80 ≠ 0) (rest : Bytes) :
    quicParsePacketHeader (first :: rest) =
      some { pnLength := (first &&& 0x03).toNat + 1, pnOffset := 1, headerLength := 1 } :=
  if_neg short

theorem readOn_writePn (pn : Nat) : readOn 0 (writePn pn 2) = pn % 2 ^ 16 := by
  have low : (byteAt pn 0).toNat < 2 ^ 8 := (byteAt pn 0).toNat_lt
  simp only [writePn, readOn_cons, readOn_nil, Nat.mul_one, Nat.mul_zero, Nat.zero_shiftLeft, Nat.zero_or]
  rw [← Nat.shiftLeft_add_eq_or_of_lt low, toNat_byteAt, toNat_byteAt, Nat.shiftLeft_eq, Nat.shiftRight_zero,
    Nat.shiftRight_eq_div_pow]
  omega

/-- Two bytes give back a packet number that is not far above the largest one received. -/
theorem quicDecodePacketNumber_near {pn largest : Nat} (bound : pn < 2 ^ 62) (low : largest ≤ pn)
    (high : pn ≤ largest + 2 ^ 15) : quicDecodePacketNumber largest (pn % 2 ^ 16) 2 = pn := by
  have small : pn % 2 ^ 16 < 2 ^ 16 := Nat.mod_lt _ (by decide)
  have expected : (largest + 1) % 2 ^ 64 = largest + 1 := Nat.mod_eq_of_lt (by omega)
  have candidate : (largest + 1) >>> 16 <<< 16 ||| pn % 2 ^ 16 = (largest + 1) / 2 ^ 16 * 2 ^ 16 + pn % 2 ^ 16 := by
    rw [← Nat.shiftLeft_add_eq_or_of_lt small, Nat.shiftLeft_eq, Nat.shiftRight_eq_div_pow]
  simp only [quicDecodePacketNumber, expected, Nat.reduceMul, candidate, Nat.reduceShiftLeft, Nat.reduceDiv]
  split
  · omega
  split <;> omega

/-- The headers that the connection builds, apart from their packet number. -/
inductive PacketShape
  | long (type : QuicLongPacketType) (version : Nat) (dcid scid : QuicConnectionId) (token : Bytes)
  | short (dcid : QuicConnectionId) (keyPhase : Bool)

namespace PacketShape

def isLong : PacketShape → Bool
  | long .. => true
  | short .. => false

def dcid : PacketShape → QuicConnectionId
  | long _ _ dcid _ _ => dcid
  | short dcid _ => dcid

/-- The header with a packet number of two bytes, before a payload of some length. -/
def header (pn payloadLength : Nat) : PacketShape → Bytes
  | long type version dcid scid token => quicBuildLongHeader type version dcid scid token pn 2 (payloadLength + 16)
  | short dcid keyPhase => quicBuildShortHeader dcid pn 2 keyPhase

def Fits : PacketShape → Prop
  | long _ _ dcid scid token => dcid.bytes.length ≤ 20 ∧ scid.bytes.length ≤ 20 ∧ token.length < 2 ^ 62
  | short _ _ => True

/-- The packet is protected, and a receiver that has seen the largest packet number gets
back its payload and its number and consumes no byte behind it. -/
def Recovered (shape : PacketShape) (C : PacketCipher) (keys : C.Keys) (pn largest : Nat)
    (payload rest : Bytes) : Prop :=
  ∃ packet h, C.quicProtectPacket keys (shape.header pn payload.length) payload pn 2 = some packet ∧
    C.quicUnprotectPacket keys (packet ++ rest) shape.dcid.bytes.length largest = some (h, payload, packet.length) ∧
    h.packetNumber = pn

end PacketShape

section Unprotection

variable (C : PacketCipher) (keys : C.Keys) {pn largest : Nat}
variable {body payload : Bytes} {first : UInt8}

theorem PacketCipher.length_onWire (first : UInt8) (body number sealed : Bytes) :
    (C.onWire keys first body number sealed).length = 1 + body.length + number.length + sealed.length := by
  simp only [onWire, length_append, length_cons, length_maskNumber]
  omega

theorem PacketCipher.drop_onWire (first : UInt8) (body : Bytes) {number : Bytes} (two : number.length = 2)
    (sealed rest : Bytes) :
    (C.onWire keys first body number sealed ++ rest).drop (1 + body.length + 2) = sealed ++ rest := by
  rw [onWire, append_assoc, drop_left']
  simp only [length_append, length_cons, length_maskNumber, two]
  omega

theorem length_writePn (pn : Nat) : (writePn pn 2).length = 2 := rfl

variable {h : QuicPacketHeader}

theorem PacketCipher.removeHeaderProtection_near {sealed : Bytes}
    (place : h.pnOffset = 1 + body.length) (bits : first &&& 0x03 = 1) (enough : 18 ≤ sealed.length)
    (near : quicDecodePacketNumber largest (pn % 2 ^ 16) 2 = pn) (rest : Bytes) :
    ∃ g, C.removeHeaderProtection keys (C.onWire keys first body (writePn pn 2) sealed ++ rest) h largest =
        some (g, first :: body ++ writePn pn 2) ∧
      g.packetNumber = pn ∧ g.pnLength = 2 ∧ g.headerLength = 1 + body.length + 2 ∧
      g.payloadLength = h.payloadLength := by
  have unmasked :=
    C.removeHeaderProtection_eq keys first body h largest sealed rest place (length_writePn pn) bits enough
  rw [readOn_writePn, near] at unmasked
  exact ⟨_, unmasked, rfl, rfl, rfl, rfl⟩

theorem quicUnprotectPacket_long (type : QuicLongPacketType) (version : Nat) {dcid scid : QuicConnectionId}
    {token : Bytes} (dcidFits : dcid.bytes.length ≤ 20) (scidFits : scid.bytes.length ≤ 20)
    (tokenFits : token.length < 2 ^ 62) (small : payload.length ≤ 1200) (enough : 2 ≤ payload.length)
    (near : quicDecodePacketNumber largest (pn % 2 ^ 16) 2 = pn) (rest : Bytes) :
    (PacketShape.long type version dcid scid token).Recovered C keys pn largest payload rest := by
  obtain ⟨form, bits, typed⟩ := longFirst_parts type
  rw [PacketShape.Recovered, PacketShape.header, quicBuildLongHeader_eq,
    C.quicProtectPacket_eq keys _ _ payload pn (length_writePn pn), if_neg (Nat.not_lt.mpr enough)]
  set first := longFirst type
  set body := longBody type version dcid scid token (payload.length + 16 + 2) with bodyIs
  have size := C.length_seal keys pn (first :: body ++ writePn pn 2) payload
  have opens := C.open_seal keys pn (first :: body ++ writePn pn 2) payload
  set sealed := C.sealPayload keys pn (first :: body ++ writePn pn 2) payload
  set mask := C.maskOf keys sealed with maskIs
  have maskedForm : maskFirst mask first &&& 0x80 ≠ 0 := by rwa [maskFirst_form]
  have maskedType : longTypeBits (maskFirst mask first) = type := by rw [longTypeBits_maskFirst mask form, typed]
  obtain ⟨h, read, isLong, lengthIs, offset, -⟩ := quicParsePacketHeader_long version dcidFits scidFits
    tokenFits (show payload.length + 16 + 2 < 2 ^ 62 by omega) maskedForm maskedType
    (maskNumber mask 0 (writePn pn 2) ++ sealed ++ rest)
  rw [← bodyIs] at read offset
  have parsed : quicParsePacketHeader (C.onWire keys first body (writePn pn 2) sealed ++ rest) = some h := by
    rw [← read, PacketCipher.onWire, ← maskIs]
    simp
  have length : (C.onWire keys first body (writePn pn 2) sealed).length = h.pnOffset + h.payloadLength := by
    rw [C.length_onWire, length_writePn, offset, lengthIs, size]
    omega
  obtain ⟨g, unmasked, numberIs, pnLengthIs, headerIs, sameLength⟩ :=
    C.removeHeaderProtection_near keys offset bits (show 18 ≤ sealed.length by omega) near rest
  have ciphertext : ((C.onWire keys first body (writePn pn 2) sealed ++ rest).drop g.headerLength).take
      (g.payloadLength - g.pnLength) = sealed := by
    rw [headerIs, C.drop_onWire keys first body (length_writePn pn) sealed rest, take_left']
    rw [sameLength, lengthIs, pnLengthIs, size]
    omega
  refine ⟨_, g, rfl, ?_, numberIs⟩
  rw [PacketCipher.quicUnprotectPacket, if_neg (by rw [length_append, length]; omega), parsed, bind_some,
    if_pos isLong, if_neg (by rw [length_append, length]; omega)]
  simp only [unmasked, bind_some, ciphertext, numberIs, opens, map_some, length]
  rw [if_neg (by omega), if_neg (by omega)]

/-- A short header tells nothing about where its packet ends. -/
theorem quicUnprotectPacket_short (dcid : QuicConnectionId) (keyPhase : Bool)
    (enough : 2 ≤ payload.length) (near : quicDecodePacketNumber largest (pn % 2 ^ 16) 2 = pn) :
    (PacketShape.short dcid keyPhase).Recovered C keys pn largest payload [] := by
  obtain ⟨form, bits⟩ := shortFirst_parts keyPhase
  rw [PacketShape.Recovered, PacketShape.header, show quicBuildShortHeader dcid pn 2 keyPhase =
      shortFirst keyPhase :: dcid.bytes ++ writePn pn 2 from rfl,
    C.quicProtectPacket_eq keys _ _ payload pn (length_writePn pn), if_neg (Nat.not_lt.mpr enough)]
  set first := shortFirst keyPhase
  have size := C.length_seal keys pn (first :: dcid.bytes ++ writePn pn 2) payload
  have opens := C.open_seal keys pn (first :: dcid.bytes ++ writePn pn 2) payload
  set sealed := C.sealPayload keys pn (first :: dcid.bytes ++ writePn pn 2) payload
  have maskedForm : ¬ maskFirst (C.maskOf keys sealed) first &&& 0x80 ≠ 0 := by
    rw [maskFirst_form, form]
    decide
  obtain ⟨h, parsed, isShort⟩ : ∃ h,
      quicParsePacketHeader (C.onWire keys first dcid.bytes (writePn pn 2) sealed) = some h ∧ h.isLong = false :=
    ⟨_, quicParsePacketHeader_short maskedForm _, rfl⟩
  have length := C.length_onWire keys first dcid.bytes (writePn pn 2) sealed
  have offset : ({ h with
      dcid := ⟨((C.onWire keys first dcid.bytes (writePn pn 2) sealed).drop 1).take dcid.bytes.length⟩
      pnOffset := 1 + dcid.bytes.length } : QuicPacketHeader).pnOffset = 1 + dcid.bytes.length := rfl
  obtain ⟨g, unmasked, numberIs, -, headerIs, -⟩ :=
    C.removeHeaderProtection_near keys offset bits (show 18 ≤ sealed.length by omega) near []
  have ciphertext : (C.onWire keys first dcid.bytes (writePn pn 2) sealed).drop g.headerLength = sealed := by
    have dropped := C.drop_onWire keys first dcid.bytes (length_writePn pn) sealed []
    rwa [append_nil, append_nil, ← headerIs] at dropped
  rw [append_nil] at unmasked
  refine ⟨_, g, rfl, ?_, numberIs⟩
  rw [length_writePn] at length
  rw [append_nil, PacketCipher.quicUnprotectPacket, if_neg (by omega), parsed, bind_some, PacketShape.dcid,
    if_neg (by rw [isShort]; decide), if_neg (by omega)]
  simp only [unmasked, bind_some, ciphertext, numberIs, opens, map_some]

theorem PacketCipher.quicUnprotectPacket_rest (short : ¬ first &&& 0x80 ≠ 0) {plain : Bytes} {dcidLen consumed : Nat}
    (unprotects : C.quicUnprotectPacket keys (first :: body) dcidLen largest = some (h, plain, consumed)) :
    consumed = (first :: body).length := by
  rw [quicUnprotectPacket, quicParsePacketHeader_short short, ite_none_left_eq_some, bind_some,
    if_neg Bool.false_ne_true, ite_none_left_eq_some, bind_eq_some_iff] at unprotects
  obtain ⟨-, -, ⟨g, aad⟩, -, opened⟩ := unprotects
  obtain ⟨_, -, same⟩ := map_eq_some_iff.mp opened
  exact (congrArg (·.2.2) same).symm

theorem PacketShape.header_eq (shape : PacketShape) (pn payloadLength : Nat) :
    ∃ first body, shape.header pn payloadLength = first :: body ++ writePn pn 2 := by
  cases shape with
  | long type version dcid scid token => exact ⟨_, _, quicBuildLongHeader_eq type version dcid scid token pn _⟩
  | short dcid keyPhase => exact ⟨_, _, rfl⟩

/-- The bytes of a packet that a sender has sealed, with the keys of a cipher for those of the
schedule. -/
def QuicSealedPacket.bytes {K : KeySchedule} (C : PacketCipher) (derive : K.Keys → C.Keys)
    (packet : QuicSealedPacket K) : Bytes :=
  (C.quicProtectPacket (derive packet.keys) packet.header packet.payload packet.packetNumber 2).getD []

/-- The sender seals exactly the packets that have bytes. -/
theorem PacketShape.protect_sealed {K : KeySchedule} (derive : K.Keys → C.Keys) (longType : Option QuicLongPacketType)
    (keys : K.Keys) (shape : PacketShape) (payload : Bytes) :
    C.quicProtectPacket (derive keys) (shape.header pn payload.length) payload pn 2 =
      (quicProtectPacket longType keys (shape.header pn payload.length) payload pn 2).map
        (QuicSealedPacket.bytes C derive) := by
  obtain ⟨first, body, header⟩ := shape.header_eq pn payload.length
  have short : (first :: body ++ writePn pn 2).length + (payload.length + 16) <
      (first :: body ++ writePn pn 2).length - 2 + 4 + 16 ↔ payload.length < 2 := by
    simp only [length_append, length_cons, length_writePn]
    omega
  have bytes := C.quicProtectPacket_eq (derive keys) first body payload pn (length_writePn pn)
  rw [header, quicProtectPacket]
  simp only [short]
  split
  · rename_i less
    rw [bytes, if_pos less, map_none]
  · rename_i enough
    rw [map_some, QuicSealedPacket.bytes, bytes, if_neg enough, getD_some]

theorem packet_recovered_iff (shape : PacketShape) (fits : shape.Fits) (payload rest : Bytes)
    (small : payload.length ≤ 1200) (bound : pn < 2 ^ 62) (low : largest ≤ pn) (high : pn ≤ largest + 2 ^ 15) :
    shape.Recovered C keys pn largest payload rest ↔ 2 ≤ payload.length ∧ (shape.isLong = true ∨ rest = []) := by
  have near := quicDecodePacketNumber_near bound low high
  constructor
  · rintro ⟨packet, h, protects, unprotects, -⟩
    obtain ⟨first, body, header⟩ := shape.header_eq pn payload.length
    rw [header, C.quicProtectPacket_eq keys _ _ payload pn (length_writePn pn), ite_none_left_eq_some] at protects
    refine ⟨Nat.not_lt.mp protects.1, ?_⟩
    cases shape with
    | long => exact .inl rfl
    | short dcid keyPhase =>
      -- all of the datagram is consumed
      obtain ⟨rfl, -⟩ := cons.inj header
      set sealed := C.sealPayload keys pn (shortFirst keyPhase :: body ++ writePn pn 2) payload
      have form : ¬ maskFirst (C.maskOf keys sealed) (shortFirst keyPhase) &&& 0x80 ≠ 0 := by
        rw [maskFirst_form, (shortFirst_parts keyPhase).1]
        decide
      obtain rfl := some.inj protects.2
      have whole : (C.onWire keys (shortFirst keyPhase) body (writePn pn 2) sealed).length =
          (C.onWire keys (shortFirst keyPhase) body (writePn pn 2) sealed ++ rest).length :=
        C.quicUnprotectPacket_rest keys form unprotects
      rw [length_append] at whole
      exact .inr (eq_nil_of_length_eq_zero (by omega))
  · rintro ⟨enough, ends⟩
    cases shape with
    | long type version dcid scid token =>
      exact quicUnprotectPacket_long C keys type version fits.1 fits.2.1 fits.2.2 small enough near rest
    | short dcid keyPhase =>
      obtain rfl := ends.resolve_left Bool.false_ne_true
      exact quicUnprotectPacket_short C keys dcid keyPhase enough near

end Unprotection

/-- No secrecy at all: the sample itself is the mask. -/
def plainCipher : PacketCipher where
  Keys := Unit
  sealPayload _ _ _ payload := payload ++ List.replicate 16 0
  openPayload _ _ _ sealed := some (sealed.take (sealed.length - 16))
  mask _ sample := sample
  open_seal _ _ _ payload := by simp
  length_seal _ _ _ payload := by simp

/-- Two frames behind a short header, with a number that has wrapped around its two bytes. -/
theorem packet_recovered_wrapped :
    (PacketShape.short ⟨[1, 2, 3, 4, 5, 6, 7, 8]⟩ true).Recovered plainCipher () 0x10005 0xfffe [0x1e, 0x01] [] :=
  (packet_recovered_iff plainCipher () (.short ⟨[1, 2, 3, 4, 5, 6, 7, 8]⟩ true) trivial [0x1e, 0x01] [] (by decide)
    (by decide) (by decide) (by decide)).mpr ⟨by decide, .inr rfl⟩

/-- A lone HANDSHAKE_DONE is too short. -/
theorem handshakeDone_unprotected :
    ¬ (PacketShape.short ⟨[1, 2, 3, 4, 5, 6, 7, 8]⟩ false).Recovered plainCipher () 0 0 [0x1e] [] := by
  rintro ⟨packet, h, protects, -⟩
  have refused : plainCipher.quicProtectPacket () ((PacketShape.short ⟨[1, 2, 3, 4, 5, 6, 7, 8]⟩ false).header 0 1)
      [0x1e] 0 2 = none := by decide
  exact absurd (refused.symm.trans protects) (by simp)

end Qtng
