import Qtng.WebSocket.Messages
import Qtng.General.Settle

namespace Qtng.WebSocket

open BigEndian Utf8 Transition Settle List

variable {rest packet : Bytes} {frameMasked : Bool} {payloadSize : Nat} {f : WebSocketFrame}

theorem toInt_of_lt {n : Nat} (small : n < 2 ^ 31) : toInt n = n := Int.bmod_eq_of_le (by omega) (by omega)

theorem maskFrom_maskFrom (maskbuf : Bytes) (j : Nat) (bytes : Bytes) :
    maskFrom maskbuf j (maskFrom maskbuf j bytes) = bytes := by
  induction bytes generalizing j with
  | nil => rfl
  | cons b rest ih => simp [maskFrom, ih]

namespace WebSocketFrame

variable {f : WebSocketFrame}

def maskedPayload (f : WebSocketFrame) : Bytes :=
  if f.maskkey ≠ 0 then maskFrom (word32 f.maskkey) 0 f.payload else f.payload

/-- Frames that can be sent: the reserved bits are clear, the opcode is known, and the
buffer's size fits into an int. -/
structure Sendable (f : WebSocketFrame) : Prop where
  rsv : f.rsv1 = false ∧ f.rsv2 = false ∧ f.rsv3 = false
  opcode : f.opcode ∈ [continuationFrame, textFrame, binaryFrame, closeFrame, pingFrame, pongFrame]
  short : f.payload.length + 18 < 2 ^ 31

theorem length_lengthBytes (hasMask : Bool) (len : Nat) :
    (lengthBytes hasMask len).length = if len ≤ 125 then 1 else if len ≤ 65535 then 3 else 9 := by
  unfold lengthBytes
  split_ifs <;> rfl

theorem length_headerBytes (f : WebSocketFrame) :
    f.headerBytes.length =
      (if f.payload.length ≤ 125 then 2 else if f.payload.length ≤ 65535 then 4 else 10) +
        if f.maskkey ≠ 0 then 4 else 0 := by
  simp only [headerBytes, length_append, length_cons, length_lengthBytes]
  split_ifs <;> rfl

theorem length_maskedPayload (f : WebSocketFrame) : f.maskedPayload.length = f.payload.length := by
  unfold maskedPayload
  split
  · exact length_maskFrom _ _ _
  · rfl

theorem toByteArray_eq (short : f.payload.length + 18 < 2 ^ 31) :
    f.toByteArray = f.headerBytes ++ f.maskedPayload := by
  have size := f.length_headerBytes
  have header : f.headerBytes.length ≤ 14 := by
    rw [size]
    split_ifs <;> omega
  have whole : toInt (f.headerBytes.length + f.payload.length) % 2 ^ 64 = f.headerBytes.length + f.payload.length := by
    rw [toInt_of_lt (by omega)]
    omega
  unfold toByteArray
  dsimp only
  rw [whole]
  have cut : ((f.headerBytes.length : Int) + f.payload.length).toNat = (f.headerBytes ++ f.maskedPayload).length := by
    rw [length_append, length_maskedPayload]
    omega
  rw [cut]
  by_cases masked : f.maskkey = 0
  · rw [if_neg (by simp [masked])]
    have plain : f.maskedPayload = f.payload := by simp [maskedPayload, masked]
    rw [plain]
    exact take_left
  · rw [if_pos masked]
    have room : toInt (f.payload.length + 32 - f.headerBytes.length) =
        (f.payload.length + 32 - f.headerBytes.length : Nat) := by
      refine toInt_of_lt ?_
      rw [size, if_pos masked]
      split_ifs <;> omega
    have full : (min (toInt (f.payload.length + 32 - f.headerBytes.length)) (toInt f.payload.length)).toNat =
        f.payload.length := by
      rw [room, toInt_of_lt (by omega)]
      omega
    unfold applyMaskTo
    rw [full]
    unfold maskInto
    have masks : maskFrom (word32 f.maskkey) 0 (f.payload.take f.payload.length) = f.maskedPayload := by
      simp [maskedPayload, masked]
    rw [masks, take_left]
    exact take_left

theorem firstByte (fin : Bool) {opcode : UInt8}
    (known : opcode ∈ [continuationFrame, textFrame, binaryFrame, closeFrame, pingFrame, pongFrame]) :
    decide (((if fin then 0x80 else 0) ||| opcode : UInt8) &&& 0x80 ≠ 0) = fin ∧
      ((if fin then 0x80 else 0) ||| opcode : UInt8) &&& 0x40 = 0 ∧
      ((if fin then 0x80 else 0) ||| opcode : UInt8) &&& 0x20 = 0 ∧
      ((if fin then 0x80 else 0) ||| opcode : UInt8) &&& 0x10 = 0 ∧
      ((if fin then 0x80 else 0) ||| opcode : UInt8) &&& 0x0f = opcode := by
  simp only [mem_cons, not_mem_nil, or_false] at known
  rcases known with rfl | rfl | rfl | rfl | rfl | rfl <;> cases fin <;> decide

theorem secondByte (hasMask : Bool) (n : Fin 128) :
    decide (((if hasMask then 0x80 else 0) ||| UInt8.ofNat n : UInt8) &&& 0x80 ≠ 0) = hasMask ∧
      (((if hasMask then 0x80 else 0) ||| UInt8.ofNat n : UInt8) &&& 0x7f).toNat = n := by
  revert n
  cases hasMask <;> decide

theorem feedMaskkey_word32 (f : WebSocketFrame) (len : Nat) (rest : Bytes) :
    feedMaskkey { f with maskkey := 0 } len (decide (f.maskkey ≠ 0))
        ((if f.maskkey ≠ 0 then word32 f.maskkey else []) ++ rest) =
      .header f len (decide (f.maskkey ≠ 0)) rest := by
  unfold feedMaskkey
  by_cases zero : f.maskkey = 0
  · have same : { f with maskkey := 0 } = f := by rw [← zero]
    simp [zero, same]
  · have front : (word32 f.maskkey ++ rest).take 4 = word32 f.maskkey := take_left' (length_word32 _)
    have back : (word32 f.maskkey ++ rest).drop 4 = rest := drop_left' (length_word32 _)
    simp [zero, front, back]

def ofFirstByte (b0 : UInt8) : WebSocketFrame :=
  { fin := b0 &&& 0x80 ≠ 0, rsv1 := b0 &&& 0x40 ≠ 0, rsv2 := b0 &&& 0x20 ≠ 0, rsv3 := b0 &&& 0x10 ≠ 0,
    opcode := b0 &&& 0x0f }

theorem feedHeader_lengthBytes (b0 : UInt8) (hasMask : Bool) {len : Nat} (small : len < 2 ^ 63) (rest : Bytes) :
    feedHeader (b0 :: lengthBytes hasMask len ++ rest) = feedMaskkey (ofFirstByte b0) len hasMask rest := by
  unfold lengthBytes
  dsimp only
  split
  · rename_i tiny
    obtain ⟨mask, value⟩ := secondByte hasMask ⟨len, by omega⟩
    dsimp only at mask value
    unfold feedHeader
    simp only [cons_append, nil_append]
    rw [mask, value, if_pos tiny]
    rfl
  rename_i notTiny
  split
  · rename_i medium
    obtain ⟨mask, value⟩ : decide (((if hasMask then 0x80 else 0) ||| 126 : UInt8) &&& 0x80 ≠ 0) = hasMask ∧
        (((if hasMask then 0x80 else 0) ||| 126 : UInt8) &&& 0x7f).toNat = 126 := secondByte hasMask 126
    have front : (word16 (UInt16.ofNat len) ++ rest).take 2 = word16 (UInt16.ofNat len) :=
      take_left' (length_word16 _)
    have back : (word16 (UInt16.ofNat len) ++ rest).drop 2 = rest := drop_left' (length_word16 _)
    have read : (UInt16.ofNat len).toNat = len := UInt16.toNat_ofNat_of_lt' (by rw [UInt16.size]; omega)
    unfold feedHeader
    simp only [cons_append]
    rw [mask, value, front, back, readWord16_word16, read]
    rw [if_neg (by decide), if_pos rfl, if_pos (by simp)]
    rfl
  · obtain ⟨mask, value⟩ : decide (((if hasMask then 0x80 else 0) ||| 127 : UInt8) &&& 0x80 ≠ 0) = hasMask ∧
        (((if hasMask then 0x80 else 0) ||| 127 : UInt8) &&& 0x7f).toNat = 127 := secondByte hasMask 127
    have front : (word64 (UInt64.ofNat len) ++ rest).take 8 = word64 (UInt64.ofNat len) :=
      take_left' (length_word64 _)
    have back : (word64 (UInt64.ofNat len) ++ rest).drop 8 = rest := drop_left' (length_word64 _)
    have read : (UInt64.ofNat len).toNat = len := UInt64.toNat_ofNat_of_lt' (by rw [UInt64.size]; omega)
    unfold feedHeader
    simp only [cons_append]
    rw [mask, value, front, back, readWord64_word64, read]
    rw [if_neg (by decide), if_neg (by decide), if_pos (by simp), if_neg (by omega)]
    rfl

theorem feedHeader_toByteArray (sendable : f.Sendable) (rest : Bytes) :
    feedHeader (f.toByteArray ++ rest) =
      .header { f with payload := [] } f.payload.length (decide (f.maskkey ≠ 0)) (f.maskedPayload ++ rest) := by
  obtain ⟨⟨rsv1, rsv2, rsv3⟩, opcode, short⟩ := sendable
  obtain ⟨fin, bit1, bit2, bit3, code⟩ := firstByte f.fin opcode
  have fields : ofFirstByte ((if f.fin then 0x80 else 0) ||| f.opcode) = { f with payload := [], maskkey := 0 } := by
    simp only [ofFirstByte, fin, bit1, bit2, bit3, code, rsv1, rsv2, rsv3]
    rfl
  rw [toByteArray_eq short]
  unfold headerBytes
  rw [append_assoc, append_assoc, cons_append, ← cons_append, feedHeader_lengthBytes _ _ (by omega),
    fields]
  exact feedMaskkey_word32 { f with payload := [] } _ _

end WebSocketFrame

theorem feedMaskkey_append {g : WebSocketFrame} {len : Nat} {hasMask : Bool} {bytes : Bytes}
    (more : Bytes) (fed : feedMaskkey g len hasMask bytes = .header f payloadSize frameMasked rest) :
    rest.length ≤ bytes.length ∧
      feedMaskkey g len hasMask (bytes ++ more) = .header f payloadSize frameMasked (rest ++ more) := by
  unfold feedMaskkey at fed ⊢
  split at fed
  · split at fed
    · rename_i enough
      cases fed
      rw [if_pos ‹_›, if_pos (by simp; omega), take_append_of_le_length enough, drop_append_of_le_length enough]
      exact ⟨by simp, rfl⟩
    · cases fed
  · cases fed
    rw [if_neg ‹_›]
    exact ⟨le_rfl, rfl⟩

theorem feedHeader_append (more : Bytes) (fed : feedHeader packet = .header f payloadSize frameMasked rest) :
    rest.length + 2 ≤ packet.length ∧
      feedHeader (packet ++ more) = .header f payloadSize frameMasked (rest ++ more) := by
  unfold feedHeader at fed
  split at fed
  · rename_i b0 b1 bytes
    dsimp only at fed
    unfold feedHeader
    simp only [cons_append]
    split at fed
    · rename_i tiny
      obtain ⟨shorter, same⟩ := feedMaskkey_append more fed
      rw [if_pos tiny]
      exact ⟨by simpa using shorter, same⟩
    rename_i notTiny
    split at fed
    · rename_i medium
      split at fed
      · rename_i enough
        obtain ⟨shorter, same⟩ := feedMaskkey_append more fed
        rw [if_neg notTiny, if_pos medium, if_pos (by simp; omega), take_append_of_le_length enough,
          drop_append_of_le_length enough]
        rw [length_drop] at shorter
        exact ⟨by simp; omega, same⟩
      · cases fed
    rename_i large
    split at fed
    · rename_i enough
      split at fed
      · cases fed
      · rename_i legal
        obtain ⟨shorter, same⟩ := feedMaskkey_append more fed
        rw [if_neg notTiny, if_neg large, if_pos (by simp; omega), take_append_of_le_length enough,
          drop_append_of_le_length enough, if_neg legal]
        rw [length_drop] at shorter
        exact ⟨by simp; omega, same⟩
    · cases fed
  · cases fed

theorem feedHeader_violation (more : Bytes) (fed : feedHeader packet = .violation) :
    2 ≤ packet.length ∧ feedHeader (packet ++ more) = .violation := by
  have never : ∀ {g : WebSocketFrame} {len : Nat} {hasMask : Bool} {bytes : Bytes},
      feedMaskkey g len hasMask bytes ≠ .violation := by
    intro g len hasMask bytes
    unfold feedMaskkey
    split_ifs <;> simp
  unfold feedHeader at fed
  split at fed
  · rename_i b0 b1 bytes
    dsimp only at fed
    unfold feedHeader
    simp only [cons_append]
    split at fed
    · exact absurd fed never
    rename_i notTiny
    split at fed
    · split at fed
      · exact absurd fed never
      · cases fed
    rename_i large
    split at fed
    · rename_i enough
      split at fed
      · rename_i illegal
        rw [if_neg notTiny, if_neg large, if_pos (by simp; omega), take_append_of_le_length enough, if_pos illegal]
        exact ⟨by simp, rfl⟩
      · exact absurd fed never
    · cases fed
  · cases fed

namespace Receiver

variable {config : Config} {r : Receiver} {f : WebSocketFrame} {payloadSize : Nat} {frameMasked : Bool} {state : State}
variable {g : WebSocketFrame}

theorem handleFrame_more (r : Receiver) (state : State) (f : WebSocketFrame) (chunk : Bytes) :
    (r.more chunk).handleFrame state f = ((r.handleFrame state f).1.more chunk, (r.handleFrame state f).2) := by
  have start : ∀ type, (r.more chunk).startMessage type f =
      ((r.startMessage type f).1.more chunk, (r.startMessage type f).2) := by
    intro type
    unfold startMessage
    split_ifs <;> first | rfl | contradiction
  unfold handleFrame
  split
  · unfold continueMessage
    cases type : r.tmpType with
    | none => simp [more, type]
    | some type' =>
      simp only [more, type]
      split_ifs <;> rfl
  split
  · exact start .text
  split
  · exact start .binary
  split
  · unfold closeReceived
    cases state <;> rfl
  split_ifs <;> rfl

theorem handleFrame_buf (r : Receiver) (state : State) (f : WebSocketFrame) :
    (r.handleFrame state f).1.buf = r.buf ∧ (r.handleFrame state f).1.phase = r.phase := by
  have start : ∀ type, (r.startMessage type f).1.buf = r.buf ∧ (r.startMessage type f).1.phase = r.phase := by
    intro type
    unfold startMessage
    split_ifs <;> exact ⟨rfl, rfl⟩
  unfold handleFrame
  split
  · unfold continueMessage
    split
    · exact ⟨rfl, rfl⟩
    · dsimp only
      split_ifs <;> exact ⟨rfl, rfl⟩
  split
  · exact start .text
  split
  · exact start .binary
  split
  · unfold closeReceived
    cases state <;> exact ⟨rfl, rfl⟩
  split_ifs <;> exact ⟨rfl, rfl⟩

theorem takePayload_buf (taken : (r.takePayload f payloadSize frameMasked).2 = some g) :
    (r.takePayload f payloadSize frameMasked).1.buf.length ≤ r.buf.length ∧
      (r.takePayload f payloadSize frameMasked).1.phase = .header := by
  unfold takePayload at taken ⊢
  dsimp only at taken ⊢
  split at taken
  · cases taken
  · rename_i enough
    rw [if_neg enough]
    exact ⟨by simp, rfl⟩

theorem takePayload_later (short : f.payload.length + r.buf.length < payloadSize) (chunk : Bytes) :
    (r.more chunk).takePayload f payloadSize frameMasked =
      takePayload
        { r with buf := chunk, phase := .payload { f with payload := f.payload ++ r.buf } payloadSize frameMasked }
        { f with payload := f.payload ++ r.buf } payloadSize frameMasked := by
  have size : min (payloadSize - f.payload.length) (r.buf ++ chunk).length =
      r.buf.length + min (payloadSize - (f.payload ++ r.buf).length) chunk.length := by
    rw [length_append, length_append]
    omega
  unfold takePayload more
  simp only [size, take_length_add_append, drop_length_add_append, append_assoc]

theorem round_of_payload (config : Config) (state : State) {r' : Receiver} {f' : WebSocketFrame}
    (phase : r.phase = .payload f payloadSize frameMasked) (phase' : r'.phase = .payload f' payloadSize frameMasked)
    (same : r.takePayload f payloadSize frameMasked = r'.takePayload f' payloadSize frameMasked) :
    r.round config state = r'.round config state := by
  simp only [round, phase, phase', same]

theorem takePayload_more (taken : (r.takePayload f payloadSize frameMasked).2 = some g) (chunk : Bytes) :
    (r.more chunk).takePayload f payloadSize frameMasked =
      ((r.takePayload f payloadSize frameMasked).1.more chunk, some g) := by
  unfold takePayload at taken
  dsimp only at taken
  split at taken
  · cases taken
  · rename_i enough
    have few : payloadSize - f.payload.length ≤ r.buf.length := by
      rw [length_append, length_take] at enough
      omega
    have size : min (payloadSize - f.payload.length) (r.more chunk).buf.length =
        min (payloadSize - f.payload.length) r.buf.length := by
      have longer : (r.more chunk).buf.length = r.buf.length + chunk.length := length_append
      omega
    have le := Nat.min_le_right (payloadSize - f.payload.length) r.buf.length
    have front : (r.more chunk).buf.take (min (payloadSize - f.payload.length) r.buf.length) =
        r.buf.take (min (payloadSize - f.payload.length) r.buf.length) := take_append_of_le_length le
    have back : (r.more chunk).buf.drop (min (payloadSize - f.payload.length) r.buf.length) =
        r.buf.drop (min (payloadSize - f.payload.length) r.buf.length) ++ chunk := drop_append_of_le_length le
    unfold takePayload
    simp only [size, front, back, if_neg enough]
    rw [← taken]
    rfl

end Receiver

namespace Reception

variable {config : Config} {w : Reception}

/-- A round on an open connection that sends what it has to. -/
def listen (config : Config) (w : Reception) : Reception := w.advance config .open true

/-- A header takes at least two bytes, and a payload ends the phase. -/
def work (w : Reception) : Nat :=
  if w.ended then 0
  else 2 * w.receiver.buf.length + match w.receiver.phase with
    | .header => 0
    | .payload .. => 1

/-- The bytes come in pieces, and the rounds go on until there are none left. -/
def receive (config : Config) (chunks : List Bytes) : Reception :=
  chunks.foldl (fun w chunk => Settle.settle (listen config) work (w.arrive chunk)) {}

theorem react_arrive (w : Reception) (ok : Bool) (verdict : Verdict) (chunk : Bytes) :
    (w.arrive chunk).react ok verdict = (w.react ok verdict).arrive chunk := by
  cases verdict <;> rfl

theorem work_le (w : Reception) : w.work ≤ 2 * w.receiver.buf.length + 1 := by
  unfold work
  split
  · omega
  · split <;> omega

theorem work_le_of_header (phase : w.receiver.phase = .header) : w.work ≤ 2 * w.receiver.buf.length := by
  unfold work
  split
  · omega
  · simp [phase]

theorem work_of_ended (ended : w.ended = true) : w.work = 0 := by simp [work, ended]

theorem work_of_header (alive : w.ended = false) (phase : w.receiver.phase = .header) :
    w.work = 2 * w.receiver.buf.length := by simp [work, alive, phase]

theorem work_of_payload {f : WebSocketFrame} {payloadSize : Nat} {frameMasked : Bool} (alive : w.ended = false)
    (phase : w.receiver.phase = .payload f payloadSize frameMasked) : w.work = 2 * w.receiver.buf.length + 1 := by
  simp [work, alive, phase]

theorem listen_eq (config : Config) (alive : w.ended = false) :
    w.listen config =
      { w with receiver := (w.receiver.round config .open).1, frames := w.frames ++ w.completed.toList }.react true
        (w.receiver.round config .open).2 := by
  simp [listen, advance, alive]

theorem descends (config : Config) (w : Reception) : w.listen config = w ∨ (w.listen config).work < w.work := by
  cases alive : w.ended with
  | true => exact Or.inl (by simp [listen, advance, alive])
  | false =>
    rw [listen_eq config alive]
    have round := Receiver.round_cases config w.receiver .open
    revert round
    generalize w.receiver.round config .open = result
    intro round
    cases round with
    | starved phase fed =>
      rw [completed_of_header phase]
      exact Or.inl (by simp [react])
    | violated phase fed =>
      refine Or.inr ?_
      have long := (feedHeader_violation [] fed).1
      rw [work_of_ended rfl, work_of_header alive phase]
      omega
    | refused phase fed checked =>
      refine Or.inr ?_
      have long := (feedHeader_append [] fed).1
      rw [ended_of_checkHeader checked, work_of_ended rfl, work_of_header alive phase]
      omega
    | accepted phase fed checked =>
      refine Or.inr ?_
      have long := (feedHeader_append [] fed).1
      rw [work_of_header alive phase]
      refine lt_of_le_of_lt (work_le _) ?_
      dsimp only [react]
      omega
    | @partly f payloadSize frameMasked phase taken =>
      obtain ⟨same, short⟩ := Receiver.takePayload_of_partly taken
      rw [completed_of_payload phase, taken, same]
      cases empty : w.receiver.buf with
      | nil =>
        refine Or.inl ?_
        have back : ({ w.receiver with buf := [], phase := .payload f payloadSize frameMasked } : Receiver) =
            w.receiver := by
          rw [← phase, ← empty]
        simp [react, back]
      | cons b rest =>
        refine Or.inr ?_
        rw [work_of_payload alive phase]
        refine lt_of_le_of_lt (work_le _) ?_
        simp [react, empty]
    | @complete f payloadSize frameMasked g phase taken =>
      refine Or.inr ?_
      obtain ⟨buf, header⟩ := Receiver.handleFrame_buf (w.receiver.takePayload f payloadSize frameMasked).1 .open g
      obtain ⟨shorter, ends⟩ := Receiver.takePayload_buf taken
      rw [work_of_payload alive phase]
      refine lt_of_le_of_lt (work_le_of_header ?_) ?_
      · rw [react_receiver]
        exact header.trans ends
      · rw [react_receiver]
        change 2 * ((w.receiver.takePayload f payloadSize frameMasked).1.handleFrame .open g).1.buf.length < _
        rw [buf]
        omega

/-- More bytes may come before a round or after it, or the round waits for them. -/
theorem listen_arrive (config : Config) (w : Reception) (chunk : Bytes) :
    (w.arrive chunk).listen config = (w.listen config).arrive chunk ∨
      (w.arrive chunk).listen config = ((w.listen config).arrive chunk).listen config := by
  cases alive : w.ended with
  | true =>
    have same : w.listen config = w := by simp [listen, advance, alive]
    exact Or.inr (by rw [same])
  | false =>
    have alive' : (w.arrive chunk).ended = false := alive
    rw [listen_eq config alive', listen_eq config alive]
    have round := Receiver.round_cases config w.receiver .open
    revert round
    generalize w.receiver.round config .open = result
    intro round
    cases round with
    | starved phase fed =>
      refine Or.inr ?_
      rw [completed_of_header phase]
      have same : react { w with receiver := w.receiver, frames := w.frames ++ Option.toList none } true .recv = w := by
        simp [react]
      rw [same, listen_eq config alive']
    | violated phase fed =>
      refine Or.inl ?_
      have phase' : (w.arrive chunk).receiver.phase = .header := phase
      have fed' : feedHeader (w.arrive chunk).receiver.buf = .violation := (feedHeader_violation chunk fed).2
      have round : (w.arrive chunk).receiver.round config .open = (w.receiver.more chunk, .abort protocolError) := by
        simp only [Receiver.round, phase', fed']
        rfl
      rw [round, completed_of_header phase, completed_of_header phase']
      rfl
    | @refused f payloadSize frameMasked rest verdict phase fed checked =>
      refine Or.inl ?_
      have phase' : (w.arrive chunk).receiver.phase = .header := phase
      have fed' : feedHeader (w.arrive chunk).receiver.buf = .header f payloadSize frameMasked (rest ++ chunk) :=
        (feedHeader_append chunk fed).2
      have round : (w.arrive chunk).receiver.round config .open =
          ({ w.receiver with buf := rest ++ chunk }, verdict) := by
        simp only [Receiver.round, phase', fed', checked, phase]
        rfl
      rw [round, completed_of_header phase, completed_of_header phase', ← react_arrive]
      rfl
    | @accepted f payloadSize frameMasked rest phase fed checked =>
      refine Or.inl ?_
      have phase' : (w.arrive chunk).receiver.phase = .header := phase
      have fed' : feedHeader (w.arrive chunk).receiver.buf = .header f payloadSize frameMasked (rest ++ chunk) :=
        (feedHeader_append chunk fed).2
      have round : (w.arrive chunk).receiver.round config .open =
          ({ w.receiver with buf := rest ++ chunk, phase := .payload f payloadSize frameMasked }, .go) := by
        simp only [Receiver.round, phase', fed', checked]
        rfl
      rw [round, completed_of_header phase, completed_of_header phase']
      rfl
    | @partly f payloadSize frameMasked phase taken =>
      refine Or.inr ?_
      obtain ⟨same, short⟩ := Receiver.takePayload_of_partly taken
      have phase' : (w.arrive chunk).receiver.phase = .payload f payloadSize frameMasked := phase
      have later : (w.arrive chunk).receiver.takePayload f payloadSize frameMasked = _ :=
        Receiver.takePayload_later short chunk
      have round := Receiver.round_of_payload config .open phase' rfl later
      rw [completed_of_payload phase, taken, same, round, completed_of_payload phase', later]
      simp only [react, Option.toList_none, append_nil]
      rw [listen_eq config (by exact alive), completed_of_payload rfl]
      rfl
    | @complete f payloadSize frameMasked g phase taken =>
      refine Or.inl ?_
      have phase' : (w.arrive chunk).receiver.phase = .payload f payloadSize frameMasked := phase
      have taken' : (w.arrive chunk).receiver.takePayload f payloadSize frameMasked =
          ((w.receiver.takePayload f payloadSize frameMasked).1.more chunk, some g) :=
            Receiver.takePayload_more taken chunk
      have round : (w.arrive chunk).receiver.round config .open =
          (((w.receiver.takePayload f payloadSize frameMasked).1.handleFrame .open g).1.more chunk,
            ((w.receiver.takePayload f payloadSize frameMasked).1.handleFrame .open g).2) := by
        simp only [Receiver.round, phase', taken']
        exact Receiver.handleFrame_more _ _ _ _
      rw [round, completed_of_payload phase, completed_of_payload phase', taken, taken', ← react_arrive]
      rfl

theorem settle_listen_arrive (config : Config) (w : Reception) (chunk : Bytes) :
    Settle.settle (listen config) work ((w.listen config).arrive chunk) =
      Settle.settle (listen config) work (w.arrive chunk) := by
  have once := settle_apply (descends config)
  rcases listen_arrive config w chunk with early | late
  · rw [← early, once]
  · rw [← once (w.arrive chunk), late, once]

theorem settle_arrive (config : Config) (w : Reception) (chunk : Bytes) :
    Settle.settle (listen config) work ((Settle.settle (listen config) work w).arrive chunk) =
      Settle.settle (listen config) work (w.arrive chunk) := by
  have rounds : ∀ n, Settle.settle (listen config) work (((listen config)^[n] w).arrive chunk) =
      Settle.settle (listen config) work (w.arrive chunk) := by
    intro n
    induction n with
    | zero => rfl
    | succ n ih => rw [Function.iterate_succ_apply', settle_listen_arrive, ih]
  exact rounds _

theorem arrive_arrive (w : Reception) (a b : Bytes) : (w.arrive a).arrive b = w.arrive (a ++ b) := by
  simp [arrive, Receiver.more]

/-- The pieces in which the bytes come make no difference. -/
theorem receive_eq (config : Config) (chunks : List Bytes) :
    receive config chunks = Settle.settle (listen config) work (arrive {} chunks.flatten) := by
  unfold receive
  have general : ∀ (before : Bytes), chunks.foldl (fun w chunk => Settle.settle (listen config) work (w.arrive chunk))
      (Settle.settle (listen config) work (arrive {} before)) =
        Settle.settle (listen config) work (arrive {} (before ++ chunks.flatten)) := by
    induction chunks with
    | nil => simp
    | cons chunk rest ih =>
      intro before
      rw [foldl_cons, settle_arrive, arrive_arrive, ih, flatten_cons, append_assoc]
  exact general []

end Reception

end Qtng.WebSocket
