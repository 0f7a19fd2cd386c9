import Qtng.WebSocket.RoundTrip

namespace Qtng.WebSocket

open BigEndian Utf8 Transition Settle List Option

variable {f : WebSocketFrame} {config : Config}

/-- Frames that a connection takes, whatever it makes of their order. -/
structure WebSocketFrame.Acceptable (config : Config) (f : WebSocketFrame) : Prop where
  sendable : f.Sendable
  checked : checkHeader config { f with payload := [] } f.payload.length (decide (f.maskkey ≠ 0)) = none
  notClose : f.opcode ≠ closeFrame

theorem checkHeader_eq_none {payloadSize : Nat} {frameMasked : Bool}
    (small : payloadSize ≤ config.maxPayloadSize) (masked : frameMasked = decide (config.side = .server))
    (rsv : f.rsv1 = false ∧ f.rsv2 = false ∧ f.rsv3 = false) (known : isOpCodeReserved f.opcode = false)
    (control : isControl f = true → f.fin = true ∧ payloadSize ≤ 125 ∧ f.opcode ≠ closeFrame) :
    checkHeader config f payloadSize frameMasked = none := by
  have controls : ¬ ((f.opcode = closeFrame ∨ f.opcode = pingFrame ∨ f.opcode = pongFrame) ∧
      (¬ f.fin ∨ payloadSize > 125 ∨ f.opcode = closeFrame ∧ payloadSize = 1)) := by
    rintro ⟨opcode, illegal⟩
    obtain ⟨fin, short, notClose⟩ := control (by simpa [isControl] using opcode)
    rcases illegal with unfinished | long | ⟨close, _⟩
    · exact unfinished fin
    · omega
    · exact notClose close
  unfold checkHeader
  rw [if_neg (by omega), if_neg (by simp [masked]), if_neg (by simp [rsv.1, rsv.2.1, rsv.2.2]),
    if_neg (by simp [known]),
    if_neg controls]

namespace Receiver

theorem takePayload_maskedPayload {f : WebSocketFrame} (short : f.payload.length + 18 < 2 ^ 31) (r : Receiver)
    (rest : Bytes) :
    takePayload { r with buf := f.maskedPayload ++ rest } { f with payload := [] } f.payload.length
        (decide (f.maskkey ≠ 0)) = ({ r with buf := rest, phase := .header }, some f) := by
  have length := f.length_maskedPayload
  have size : min (f.payload.length - ([] : Bytes).length) (f.maskedPayload ++ rest).length =
      f.maskedPayload.length := by
    rw [length_append, length, length_nil]
    omega
  unfold takePayload
  dsimp only
  rw [size, take_left, drop_left, nil_append, if_neg (by omega)]
  by_cases masked : f.maskkey = 0
  · have plain : f.maskedPayload = f.payload := by simp [WebSocketFrame.maskedPayload, masked]
    have same : { f with payload := f.payload, maskkey := 0 } = f := by rw [← masked]
    simp [masked, plain, same]
  · have all : (min (toInt f.payload.length) (toInt f.maskedPayload.length)).toNat = f.maskedPayload.length := by
      rw [length, toInt_of_lt (by omega)]
      omega
    have undone : maskFrom (word32 f.maskkey) 0 f.maskedPayload = f.payload := by
      unfold WebSocketFrame.maskedPayload
      rw [if_pos masked, maskFrom_maskFrom]
    simp [masked, WebSocketFrame.applyMaskTo, all, WebSocketFrame.maskInto, undone]

end Receiver

namespace Conversation

variable {c : Conversation} {f : WebSocketFrame}

theorem order_of_add {next : Conversation} (added : c.add f = some next) : c.partly = none ∨ startType f = none := by
  cases start : startType f with
  | none => exact Or.inr rfl
  | some type =>
    have data : isControl f = false := by
      unfold startType at start
      split_ifs at start with text binary
      · simp [isControl, text, textFrame, closeFrame, pingFrame, pongFrame]
      · simp [isControl, binary, binaryFrame, closeFrame, pingFrame, pongFrame]
    rw [add_start data start] at added
    split at added
    · exact Or.inl ‹_›
    · cases added

theorem foldlM_filter (frames : List WebSocketFrame) (c : Conversation) :
    frames.foldlM add c = (frames.filter fun f => !isControl f).foldlM add c := by
  induction frames generalizing c with
  | nil => rfl
  | cons f rest ih =>
    cases control : isControl f with
    | true =>
      rw [filter_cons_of_neg (by simp [control]), foldlM_cons, add_control control]
      exact ih c
    | false =>
      rw [filter_cons_of_pos (by simp [control]), foldlM_cons, foldlM_cons]
      exact congrArg _ (funext ih)

end Conversation

namespace Reception

variable {config : Config} {w : Reception} {f : WebSocketFrame} {c next : Conversation}
variable {rest : Bytes}

theorem listen_listen (alive : w.ended = false) (phase : w.receiver.phase = .header)
    (buf : w.receiver.buf = f.toByteArray ++ rest) (acceptable : f.Acceptable config) :
    (w.listen config).listen config =
      { w with receiver := (Receiver.handleFrame { w.receiver with buf := rest } .open f).1,
               frames := w.frames ++ [f] }.react true
        (Receiver.handleFrame { w.receiver with buf := rest } .open f).2 := by
  obtain ⟨⟨bytes, phase', tmpType, tmpPayload⟩, ended, frames, delivered⟩ := w
  dsimp only at alive phase buf
  subst phase alive
  have fed := f.feedHeader_toByteArray acceptable.sendable rest
  rw [← buf] at fed
  have first : listen config ⟨⟨bytes, .header, tmpType, tmpPayload⟩, false, frames, delivered⟩ =
      ⟨⟨f.maskedPayload ++ rest, .payload { f with payload := [] } f.payload.length (decide (f.maskkey ≠ 0)), tmpType,
        tmpPayload⟩, false, frames, delivered⟩ := by
    rw [listen_eq config rfl, completed_of_header rfl]
    simp only [Receiver.round, fed, acceptable.checked, react, Option.toList_none, append_nil]
  rw [first, listen_eq config rfl, completed_of_payload rfl]
  have taken := Receiver.takePayload_maskedPayload acceptable.sendable.short
    ⟨[], .payload { f with payload := [] } f.payload.length (decide (f.maskkey ≠ 0)), tmpType, tmpPayload⟩ rest
  dsimp only at taken
  simp only [Receiver.round, taken, Option.toList_some]

/-- Between two frames: what is known of the message in progress and of the complete
ones. -/
structure Between (c : Conversation) (w : Reception) : Prop where
  alive : w.ended = false
  header : w.receiver.phase = .header
  clean : w.receiver.Clean
  conversation : c = ⟨w.receiver.partly, w.delivered⟩

theorem Between.frame (inv : Between c w) (buf : w.receiver.buf = f.toByteArray ++ rest)
    (acceptable : f.Acceptable config) (added : c.add f = some next) :
    Between next ((w.listen config).listen config) ∧
      ((w.listen config).listen config).receiver.buf = rest := by
  obtain ⟨alive, header, clean, rfl⟩ := inv
  rw [listen_listen alive header buf acceptable]
  obtain ⟨sameBuf, samePhase⟩ := Receiver.handleFrame_buf { w.receiver with buf := rest } .open f
  have order : w.receiver.tmpType = none ∨ startType f = none ∨ f.fin = false := by
    rcases Conversation.order_of_add added with idle | control
    · exact Or.inl (by simpa [Receiver.partly] using idle)
    · exact Or.inr (Or.inl control)
  have agrees := Receiver.agrees_handleFrame (r := { w.receiver with buf := rest }) w.delivered .open clean order
  refine ⟨?_, by rw [react_receiver]; exact sameBuf⟩
  revert agrees samePhase
  generalize Receiver.handleFrame { w.receiver with buf := rest } .open f = result
  obtain ⟨r, verdict⟩ := result
  intro samePhase agrees
  have header' : r.phase = .header := samePhase.trans header
  cases verdict with
  | recv | go | send | put =>
    obtain ⟨next', clean'⟩ := agrees
    exact ⟨by simp [react, alive], header', clean', some.inj (added.symm.trans next')⟩
  | sendAndAbort | abort =>
    rcases agrees with violated | ⟨close, _⟩
    · exact absurd (added.symm.trans violated) (by simp)
    · exact absurd close acceptable.notClose

theorem Between.frames {frames : List WebSocketFrame} (inv : Between c w)
    (buf : w.receiver.buf = frames.flatMap WebSocketFrame.toByteArray)
    (acceptable : ∀ f ∈ frames, f.Acceptable config) (legal : frames.foldlM Conversation.add c = some next) :
    Between next (Settle.settle (listen config) work w) := by
  induction frames generalizing c w with
  | nil =>
    have idle : w.work = 0 := by rw [work_of_header inv.alive inv.header, buf]; rfl
    cases legal
    unfold Settle.settle
    rw [idle]
    exact inv
  | cons f rest ih =>
    rw [foldlM_cons] at legal
    obtain ⟨c', added, legal⟩ := bind_eq_some_iff.mp legal
    rw [flatMap_cons] at buf
    obtain ⟨inv', buf'⟩ := inv.frame buf (acceptable f mem_cons_self) added
    rw [← settle_apply (descends config) w, ← settle_apply (descends config) (w.listen config)]
    exact ih inv' buf' (fun g member => acceptable g (mem_cons_of_mem _ member)) legal

end Reception

section Fragments

variable {packet : PacketToWrite} {blockSize : Nat} {mustMask : Bool} {keys : Nat → UInt32}
variable {i : Nat}

def frameCount (size blockSize : Nat) : Nat := max ((size + blockSize - 1) / blockSize) 1

theorem le_frameCount (size : Nat) (positive : 0 < blockSize) : size ≤ blockSize * frameCount size blockSize := by
  have whole := Nat.div_add_mod (size + blockSize - 1) blockSize
  have less := Nat.mod_lt (size + blockSize - 1) positive
  have more : blockSize * ((size + blockSize - 1) / blockSize) ≤ blockSize * frameCount size blockSize :=
    Nat.mul_le_mul_left _ (Nat.le_max_left _ _)
  omega

def fragment (packet : PacketToWrite) (blockSize : Nat) (mustMask : Bool) (keys : Nat → UInt32) (i : Nat) :
    WebSocketFrame :=
  { fin := i + 1 = frameCount packet.payload.length blockSize
    opcode := if i = 0 then packet.type.opcode else continuationFrame
    maskkey := if mustMask then keys i else 0
    payload :=
      if frameCount packet.payload.length blockSize = 1 then packet.payload
      else (packet.payload.drop (blockSize * i)).take (min (packet.payload.length - blockSize * i) blockSize) }

theorem fragmentFrame_eq (packet : PacketToWrite) (blockSize : Nat) (mustMask : Bool) (keys : Nat → UInt32) :
    fragmentFrame packet blockSize mustMask keys =
      (range (frameCount packet.payload.length blockSize)).map (fragment packet blockSize mustMask keys) := rfl

theorem take_append_fragment (positive : 0 < blockSize) (inside : i < frameCount packet.payload.length blockSize) :
    packet.payload.take (blockSize * i) ++ (fragment packet blockSize mustMask keys i).payload =
      packet.payload.take (blockSize * (i + 1)) := by
  unfold fragment
  dsimp only
  split
  · rename_i single
    have whole := le_frameCount packet.payload.length positive
    have zero : i = 0 := by omega
    subst zero
    rw [single] at whole
    rw [Nat.mul_zero, take_zero, nil_append, take_of_length_le (by omega)]
  · have same : (packet.payload.drop (blockSize * i)).take (min (packet.payload.length - blockSize * i) blockSize) =
        (packet.payload.drop (blockSize * i)).take blockSize := by
      rw [← length_drop, take_eq_take_iff]
      omega
    rw [same, Nat.mul_succ, take_add]

theorem length_fragment (positive : 0 < blockSize) :
    (fragment packet blockSize mustMask keys i).payload.length ≤ min packet.payload.length blockSize := by
  unfold fragment
  dsimp only
  split
  · rename_i single
    have whole := le_frameCount packet.payload.length positive
    rw [single] at whole
    omega
  · rw [length_take, length_drop]
    omega

theorem startType_of_opcode {f : WebSocketFrame} {type : MessageType} (opcode : f.opcode = type.opcode) :
    startType f = some type ∧ isControl f = false := by
  cases type <;>
    simp [startType, isControl, opcode, MessageType.opcode, textFrame, binaryFrame, closeFrame, pingFrame, pongFrame]

theorem add_fragment (positive : 0 < blockSize) (inside : i < frameCount packet.payload.length blockSize)
    (complete : List PacketToRead) :
    Conversation.add ⟨if i = 0 then none else some (packet.type, packet.payload.take (blockSize * i)), complete⟩
        (fragment packet blockSize mustMask keys i) =
      Conversation.extend ⟨if i = 0 then none else some (packet.type, packet.payload.take (blockSize * i)), complete⟩
        (fragment packet blockSize mustMask keys i) packet.type (packet.payload.take (blockSize * (i + 1))) := by
  have part : _ ++ (fragment packet blockSize mustMask keys i).payload = _ := take_append_fragment positive inside
  cases i with
  | zero =>
    have opcode : (fragment packet blockSize mustMask keys 0).opcode = packet.type.opcode := rfl
    obtain ⟨start, data⟩ := startType_of_opcode opcode
    rw [Nat.mul_zero, take_zero, nil_append] at part
    rw [Conversation.add_start data start, part]
    exact if_pos rfl
  | succ i =>
    have opcode : (fragment packet blockSize mustMask keys (i + 1)).opcode = continuationFrame := by simp [fragment]
    rw [Conversation.add_continuation opcode, ← part]
    rfl

theorem conversation_fragments (positive : 0 < blockSize) (inside : i < frameCount packet.payload.length blockSize) :
    conversation ((range i).map (fragment packet blockSize mustMask keys)) =
      some ⟨if i = 0 then none else some (packet.type, packet.payload.take (blockSize * i)), []⟩ := by
  induction i with
  | zero => rfl
  | succ i ih =>
    have more : (fragment packet blockSize mustMask keys i).fin = false := by
      have last : i + 1 ≠ frameCount packet.payload.length blockSize := by omega
      simp [fragment, last]
    rw [range_succ, map_append, map_singleton, conversation_append, ih (by omega), bind_some,
      add_fragment positive (by omega), if_neg (Nat.succ_ne_zero i)]
    simp [Conversation.extend, more]

theorem conversation_fragmentFrame (positive : 0 < blockSize)
    (valid : packet.type = .text → isValidUtf8 packet.payload) :
    conversation (fragmentFrame packet blockSize mustMask keys) = some ⟨none, [⟨packet.type, packet.payload⟩]⟩ := by
  have whole := le_frameCount packet.payload.length positive
  rw [fragmentFrame_eq]
  obtain ⟨i, count⟩ : ∃ i, frameCount packet.payload.length blockSize = i + 1 :=
    Nat.exists_eq_add_of_le' (Nat.le_max_right _ _)
  have last : (fragment packet blockSize mustMask keys i).fin = true := by simp [fragment, count]
  have text : ¬ (packet.type = .text ∧ ¬ isValidUtf8 packet.payload = true) := fun bad => bad.2 (valid bad.1)
  rw [count] at whole ⊢
  rw [range_succ, map_append, map_singleton, conversation_append,
    conversation_fragments positive (by omega), Option.bind_some, add_fragment positive (by omega),
    take_of_length_le whole]
  simp only [Conversation.extend, last, if_true, Conversation.finish, if_neg text, nil_append]

theorem acceptable_fragment {config : Config} (positive : 0 < blockSize) (keyed : ∀ i, keys i ≠ 0)
    (small : packet.payload.length ≤ config.maxPayloadSize) (fits : min packet.payload.length blockSize + 18 < 2 ^ 31)
    (i : Nat) : (fragment packet blockSize (config.side = .server) keys i).Acceptable config := by
  have size : (fragment packet blockSize (config.side = .server) keys i).payload.length ≤ _ := length_fragment positive
  have opcode : (fragment packet blockSize (config.side = .server) keys i).opcode ∈
      [continuationFrame, textFrame, binaryFrame] := by
    unfold fragment MessageType.opcode
    dsimp only
    split
    · cases packet.type <;> simp
    · simp
  have masked : decide ((fragment packet blockSize (config.side = .server) keys i).maskkey ≠ 0) =
      decide (config.side = .server) := by
    by_cases server : config.side = .server <;> simp [fragment, server, keyed]
  have rsv : (fragment packet blockSize (config.side = .server) keys i).rsv1 = false ∧
      (fragment packet blockSize (config.side = .server) keys i).rsv2 = false ∧
      (fragment packet blockSize (config.side = .server) keys i).rsv3 = false := ⟨rfl, rfl, rfl⟩
  revert size opcode masked rsv
  generalize fragment packet blockSize (config.side = .server) keys i = f
  rintro size opcode masked ⟨rsv1, rsv2, rsv3⟩
  have data : isOpCodeReserved f.opcode = false ∧ f.opcode ≠ closeFrame ∧ f.opcode ≠ pingFrame ∧
      f.opcode ≠ pongFrame := by
    simp only [mem_cons, not_mem_nil, or_false] at opcode
    rcases opcode with code | code | code <;> rw [code] <;> decide
  obtain ⟨known, notClose, notPing, notPong⟩ := data
  refine ⟨⟨⟨rsv1, rsv2, rsv3⟩, ?_, by omega⟩, ?_, notClose⟩
  · simp only [mem_cons, not_mem_nil, or_false] at opcode ⊢
    tauto
  · refine checkHeader_eq_none (by omega) masked ⟨rsv1, rsv2, rsv3⟩ known fun control => ?_
    simp [isControl, notClose, notPing, notPong] at control

end Fragments

/-- A ping or pong as the peer may send it. -/
structure WebSocketFrame.Interleaved (config : Config) (f : WebSocketFrame) : Prop where
  opcode : f.opcode = pingFrame ∨ f.opcode = pongFrame
  fin : f.fin = true
  rsv : f.rsv1 = false ∧ f.rsv2 = false ∧ f.rsv3 = false
  short : f.payload.length ≤ 125
  masked : f.maskkey ≠ 0 ↔ config.side = .server

theorem WebSocketFrame.Interleaved.acceptable (frame : f.Interleaved config) :
    f.Acceptable config := by
  obtain ⟨opcode, fin, ⟨rsv1, rsv2, rsv3⟩, short, masked⟩ := frame
  have least := config.least
  have known : isOpCodeReserved f.opcode = false ∧ f.opcode ≠ closeFrame := by
    rcases opcode with code | code <;> rw [code] <;> decide
  obtain ⟨known, notClose⟩ := known
  refine ⟨⟨⟨rsv1, rsv2, rsv3⟩, ?_, by omega⟩, ?_, notClose⟩
  · simp only [mem_cons, not_mem_nil, or_false]
    tauto
  · exact checkHeader_eq_none (by omega) (decide_eq_decide.mpr masked) ⟨rsv1, rsv2, rsv3⟩ known
      fun _ => ⟨fin, short, notClose⟩

/-- What the peer gets of a message: its fragments with pings and pongs in between, cut
into pieces as the transport likes. -/
structure Transmission (config : Config) (packet : PacketToWrite) (blockSize : Nat) (chunks : List Bytes) where
  keys : Nat → UInt32
  keyed : ∀ i, keys i ≠ 0
  frames : List WebSocketFrame
  fragments : (frames.filter fun f => !isControl f) = fragmentFrame packet blockSize (config.side = .server) keys
  controls : ∀ f ∈ frames, isControl f = true → f.Interleaved config
  bytes : chunks.flatten = frames.flatMap WebSocketFrame.toByteArray

theorem Transmission.delivered {packet : PacketToWrite} {blockSize : Nat} {chunks : List Bytes}
    (sent : Transmission config packet blockSize chunks) (positive : 0 < blockSize)
    (small : packet.payload.length ≤ config.maxPayloadSize) (fits : min packet.payload.length blockSize + 18 < 2 ^ 31)
    (valid : packet.type = .text → isValidUtf8 packet.payload) :
    (Reception.receive config chunks).delivered = [⟨packet.type, packet.payload⟩] ∧
      (Reception.receive config chunks).ended = false := by
  have acceptable : ∀ f ∈ sent.frames, f.Acceptable config := by
    intro f member
    cases control : isControl f with
    | true => exact (sent.controls f member control).acceptable
    | false =>
      have fragment : f ∈ sent.frames.filter fun f => !isControl f := mem_filter.mpr ⟨member, by simp [control]⟩
      rw [sent.fragments, fragmentFrame_eq] at fragment
      obtain ⟨i, _, rfl⟩ := mem_map.mp fragment
      exact acceptable_fragment positive sent.keyed small fits i
  have legal : sent.frames.foldlM Conversation.add {} = some ⟨none, [⟨packet.type, packet.payload⟩]⟩ := by
    rw [Conversation.foldlM_filter, sent.fragments]
    exact conversation_fragmentFrame positive valid
  rw [Reception.receive_eq, sent.bytes]
  have start : Reception.Between {} (Reception.arrive {} (sent.frames.flatMap WebSocketFrame.toByteArray)) :=
    ⟨rfl, rfl, fun _ => rfl, rfl⟩
  have done := start.frames rfl acceptable legal
  exact ⟨(congrArg Conversation.complete done.conversation).symm, done.alive⟩

/-- Messages get through, and, where no message that is complete in one frame comes inside
another one, only legal sequences of frames do. -/
theorem exchange_faithful (config : Config) :
    (∀ (packet : PacketToWrite) (blockSize : Nat) (chunks : List Bytes), Transmission config packet blockSize chunks →
      0 < blockSize → packet.payload.length ≤ config.maxPayloadSize →
      min packet.payload.length blockSize + 18 < 2 ^ 31 → (packet.type = .text → isValidUtf8 packet.payload) →
      (Reception.receive config chunks).delivered = [⟨packet.type, packet.payload⟩] ∧
        (Reception.receive config chunks).ended = false) ∧
    ∀ (history : List (Reception × ReceptionEvent)) (w s : Reception), Run (receptionSystem config) history w →
      (∀ entry ∈ history, entry.1.orderly entry.2 = true) → Visited history w s → Conforms s := by
  refine ⟨fun packet blockSize chunks sent => sent.delivered, ?_⟩
  intro history w s run order visited
  have inv : Reception.Following s := by
    refine run.visited_of_guard (fun w e => w.orderly e = true) order ?_ ?_ visited
    · rintro _ rfl
      exact .new
    · intro w e t inv order step
      cases e with
      | arrive chunk =>
        cases step
        exact inv.arrive chunk
      | round state ok =>
        cases step
        exact inv.advance order
  exact inv.conforms

/-- A text in two fragments with a ping in between, which comes in two pieces. -/
def pingedText :
    Transmission smallClient ⟨.text, [0x61, 0x62]⟩ 1 [[0x01, 0x01], [0x61, 0x89, 0x00, 0x80, 0x01, 0x62]] where
  keys := fun _ => 1
  keyed := fun _ => by decide
  frames := [{ opcode := textFrame, payload := [0x61] }, { fin := true, opcode := pingFrame },
    { fin := true, opcode := continuationFrame, payload := [0x62] }]
  fragments := by decide
  controls := by
    intro f member control
    simp only [List.mem_cons, List.not_mem_nil, or_false] at member
    rcases member with rfl | rfl | rfl
    · cases control
    · exact ⟨Or.inl rfl, rfl, ⟨rfl, rfl, rfl⟩, by decide, by decide⟩
    · cases control
  bytes := by decide +kernel

theorem exchange_faithful_pingedText :
    (Reception.receive smallClient [[0x01, 0x01], [0x61, 0x89, 0x00, 0x80, 0x01, 0x62]]).delivered =
      [⟨.text, [0x61, 0x62]⟩] ∧
    ∃ history w, Run (receptionSystem smallClient) history w ∧
      (∀ entry ∈ history, entry.1.orderly entry.2 = true) ∧ w.delivered.map (·.payload.length) = [1024] ∧
        Conforms w := by
  obtain ⟨messages, sequences⟩ := exchange_faithful smallClient
  refine ⟨(messages _ _ _ pingedText (by decide) (by decide) (by decide) (by decide)).1, ?_⟩
  obtain ⟨history, w, run, _, order, sizes⟩ :=
    Run.of_exec_guarded (receptionSystem smallClient) (fun w e => w.orderly e) rfl
      (twoParts 512) rfl (fun w => w.delivered.map (·.payload.length) = [1024]) (by decide +kernel)
  exact ⟨history, w, run, order, sizes, sequences history w w run order (Or.inl rfl)⟩

/-- The first frame of a text, a binary message in one frame, and the last frame of the
text. -/
def nested : List ReceptionEvent :=
  [.arrive [0x01, 0x01, 0x61, 0x82, 0x01, 0x62, 0x80, 0x01, 0x63], .round .open true, .round .open true,
    .round .open true, .round .open true, .round .open true, .round .open true]

/-- Both messages are delivered, the second one first. -/
theorem nested_message : ∃ history w, Run (receptionSystem smallClient) history w ∧
    history.map Prod.snd = nested.reverse ∧
    w.delivered = [⟨.binary, [0x62]⟩, ⟨.text, [0x61, 0x63]⟩] ∧ ¬ Conforms w := by
  obtain ⟨history, w, run, labels, alive, frames, delivered⟩ :=
    Run.of_exec (receptionSystem smallClient) rfl nested rfl
      (fun w => w.ended = false ∧ conversation w.frames = none ∧
        w.delivered = [⟨.binary, [0x62]⟩, ⟨.text, [0x61, 0x63]⟩])
      (by decide +kernel)
  refine ⟨history, w, run, labels, delivered, ?_⟩
  rintro (⟨c, legal, _⟩ | ⟨ended, _⟩)
  · exact absurd (frames.symm.trans legal) (by simp)
  · exact absurd (alive.symm.trans ended) (by simp)

end Qtng.WebSocket
