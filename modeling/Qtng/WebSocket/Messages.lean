import Qtng.WebSocket.Receive

namespace Qtng.WebSocket

open BigEndian Utf8 Transition List Option

/-- What the standard makes of a sequence of frames: the message in progress, and the
complete ones. -/
structure Conversation where
  partly : Option (MessageType × Bytes) := none
  complete : List PacketToRead := []
deriving DecidableEq

def startType (f : WebSocketFrame) : Option MessageType :=
  if f.opcode = textFrame then some .text else if f.opcode = binaryFrame then some .binary else none

def isControl (f : WebSocketFrame) : Bool := f.opcode = closeFrame ∨ f.opcode = pingFrame ∨ f.opcode = pongFrame

namespace Conversation

def finish (c : Conversation) (type : MessageType) (payload : Bytes) : Option Conversation :=
  if type = .text ∧ ¬ isValidUtf8 payload then none else some ⟨none, c.complete ++ [⟨type, payload⟩]⟩

/-- The next part of a message, which is the last one where the frame says so. -/
def extend (c : Conversation) (f : WebSocketFrame) (type : MessageType) (payload : Bytes) : Option Conversation :=
  if f.fin then c.finish type payload else some { c with partly := some (type, payload) }

/-- The next frame. Between the frames of a message there are only control frames. -/
def add (c : Conversation) (f : WebSocketFrame) : Option Conversation :=
  if isControl f then some c
  else
    match c.partly, startType f with
    | none, some type => c.extend f type f.payload
    | some (type, payload), none =>
      if f.opcode = continuationFrame then c.extend f type (payload ++ f.payload) else none
    | _, _ => none

end Conversation

def conversation (frames : List WebSocketFrame) : Option Conversation := frames.foldlM Conversation.add {}

theorem conversation_append (frames : List WebSocketFrame) (f : WebSocketFrame) :
    conversation (frames ++ [f]) = (conversation frames).bind (·.add f) := by
  simp only [conversation, foldlM_append, foldlM_cons, foldlM_nil, bind_pure]
  rfl

/-- The messages in the queue are those of the frames, and the first frame that does not
go on with the sequence ends the connection. -/
def Conforms (w : Reception) : Prop :=
  (∃ c, conversation w.frames = some c ∧ c.complete = w.delivered) ∨
    w.ended = true ∧ ∃ frames f c, w.frames = frames ++ [f] ∧ conversation frames = some c ∧ c.add f = none ∧
      c.complete = w.delivered

namespace Receiver

def partly (r : Receiver) : Option (MessageType × Bytes) := r.tmpType.map fun type => (type, r.tmpPayload)

def Clean (r : Receiver) : Prop := r.tmpType = none → r.tmpPayload = []

end Receiver

namespace Reception

variable {config : Config} {w : Reception} {state : State} {ok : Bool} {f : WebSocketFrame}

theorem ended_of_checkHeader {payloadSize : Nat} {frameMasked : Bool} {verdict : Verdict}
    (checked : checkHeader config f payloadSize frameMasked = some verdict) (w : Reception) :
    w.react ok verdict = { w with ended := true } := by
  unfold checkHeader at checked
  split_ifs at checked <;> cases checked <;> rfl

theorem completed_of_header (phase : w.receiver.phase = .header) : w.completed = none := by
  simp only [completed, phase]

theorem completed_of_payload {payloadSize : Nat} {frameMasked : Bool}
    (phase : w.receiver.phase = .payload f payloadSize frameMasked) :
    w.completed = (w.receiver.takePayload f payloadSize frameMasked).2 := by
  simp only [completed, phase]

theorem advance_cases (config : Config) (w : Reception) (state : State) (ok : Bool) (alive : w.ended = false) :
    (w.completed = none ∧ ∃ (receiver : Receiver) (ended : Bool), receiver.tmpType = w.receiver.tmpType ∧
      receiver.tmpPayload = w.receiver.tmpPayload ∧ w.advance config state ok = { w with receiver, ended }) ∨
    ∃ (f : WebSocketFrame) (r : Receiver), w.completed = some f ∧ r.tmpType = w.receiver.tmpType ∧
      r.tmpPayload = w.receiver.tmpPayload ∧
      w.advance config state ok =
        { w with receiver := (r.handleFrame state f).1, frames := w.frames ++ [f] }.react ok
          (r.handleFrame state f).2 := by
  unfold advance
  rw [if_neg (by simp [alive])]
  have round := Receiver.round_cases config w.receiver state
  revert round
  generalize w.receiver.round config state = result
  intro round
  cases round with
  | starved phase fed =>
    rw [completed_of_header phase]
    exact .inl ⟨rfl, w.receiver, w.ended, rfl, rfl, by simp [react]⟩
  | violated phase fed =>
    rw [completed_of_header phase]
    exact .inl ⟨rfl, w.receiver, true, rfl, rfl, by simp [react]⟩
  | @refused _ _ _ rest _ phase fed checked =>
    rw [completed_of_header phase, ended_of_checkHeader checked]
    exact .inl ⟨rfl, { w.receiver with buf := rest }, true, rfl, rfl, by simp⟩
  | @accepted f payloadSize frameMasked rest phase fed checked =>
    rw [completed_of_header phase]
    exact .inl ⟨rfl, { w.receiver with buf := rest, phase := .payload f payloadSize frameMasked }, w.ended, rfl, rfl, by
      simp [react]⟩
  | @partly f payloadSize frameMasked phase taken =>
    rw [completed_of_payload phase, taken]
    exact .inl ⟨rfl, (w.receiver.takePayload f payloadSize frameMasked).1, w.ended,
      w.receiver.takePayload_tmpType .., w.receiver.takePayload_tmpPayload .., by simp [react]⟩
  | complete phase taken =>
    rw [completed_of_payload phase, taken]
    exact .inr ⟨_, _, rfl, w.receiver.takePayload_tmpType .., w.receiver.takePayload_tmpPayload .., rfl⟩

end Reception

namespace Conversation

variable {c : Conversation} {f : WebSocketFrame}

theorem add_control (control : isControl f = true) : c.add f = some c := by
  unfold add
  rw [if_pos control]

theorem add_start {type : MessageType} (data : isControl f = false) (start : startType f = some type) :
    c.add f = if c.partly = none then c.extend f type f.payload else none := by
  obtain ⟨partly, complete⟩ := c
  unfold add
  rw [if_neg (by simp [data]), start]
  cases partly <;> rfl

theorem add_continuation (opcode : f.opcode = continuationFrame) :
    c.add f = c.partly.bind fun (type, payload) => c.extend f type (payload ++ f.payload) := by
  have data : isControl f = false := by simp [isControl, opcode, continuationFrame, closeFrame, pingFrame, pongFrame]
  have start : startType f = none := by simp [startType, opcode, continuationFrame, textFrame, binaryFrame]
  obtain ⟨partly, complete⟩ := c
  unfold add
  rw [if_neg (by simp [data]), start]
  cases partly with
  | none => rfl
  | some entry => simp [opcode]

end Conversation

namespace Receiver

variable {r : Receiver} {f : WebSocketFrame} {state : State}

/-- What a frame leads to, compared with the standard: the same, or an end where the
standard does not go on or the peer closes. -/
def Agrees (c : Conversation) (f : WebSocketFrame) (r : Receiver) : Verdict → Prop
  | .recv | .go | .send .. => c.add f = some ⟨r.partly, c.complete⟩ ∧ r.Clean
  | .put packet => c.add f = some ⟨r.partly, c.complete ++ [packet]⟩ ∧ r.Clean
  | .sendAndAbort .. | .abort _ => c.add f = none ∨ f.opcode = closeFrame ∧ c.add f = some c

theorem agrees_startMessage {type : MessageType} (complete : List PacketToRead) (clean : r.Clean)
    (data : isControl f = false) (start : startType f = some type) (order : r.tmpType = none ∨ f.fin = false) :
    Agrees ⟨r.partly, complete⟩ f (r.startMessage type f).1 (r.startMessage type f).2 := by
  have added := Conversation.add_start (c := ⟨r.partly, complete⟩) data start
  unfold startMessage
  cases fin : f.fin with
  | true =>
    have idle : r.tmpType = none := order.resolve_right (by simp [fin])
    have idle' : r.partly = none := by simp [partly, idle]
    rw [if_pos rfl]
    simp only [idle', if_true, Conversation.extend, fin, Conversation.finish] at added
    split
    · rename_i invalid
      rw [if_pos invalid] at added
      exact .inl (idle' ▸ added)
    · rename_i valid
      rw [if_neg valid] at added
      refine ⟨?_, clean⟩
      rw [idle']
      exact added
  | false =>
    rw [if_neg (by simp)]
    split
    · rename_i busy
      refine .inl ?_
      have started : r.tmpType ≠ none := busy.elim id fun some none => some (clean none)
      rw [added, if_neg]
      simpa [partly] using started
    · rename_i idle
      have idle' : r.partly = none := by
        have := not_or.mp idle
        simp only [not_not] at this
        simp [partly, this.1]
      refine ⟨?_, by simp [Clean]⟩
      rw [added, if_pos idle']
      simp [Conversation.extend, fin, partly]

theorem agrees_continueMessage (complete : List PacketToRead) (opcode : f.opcode = continuationFrame) :
    Agrees ⟨r.partly, complete⟩ f (r.continueMessage f).1 (r.continueMessage f).2 := by
  have added := Conversation.add_continuation (c := ⟨r.partly, complete⟩) opcode
  unfold continueMessage
  cases type : r.tmpType with
  | none =>
    refine .inl ?_
    rw [added]
    simp [partly, type]
  | some type' =>
    simp only [partly, type, map_some, bind_some] at added
    dsimp only
    cases fin : f.fin with
    | true =>
      simp only [Conversation.extend, fin, if_true, Conversation.finish] at added
      rw [if_pos rfl]
      split
      · rename_i invalid
        rw [if_pos invalid] at added
        exact .inl (by simpa [partly, type] using added)
      · rename_i valid
        rw [if_neg valid] at added
        exact ⟨by simpa [partly, type] using added, fun _ => rfl⟩
    | false =>
      simp only [Conversation.extend, fin, Bool.false_eq_true, if_false] at added
      rw [if_neg (by simp)]
      exact ⟨by simpa [partly, type] using added, by simp [Clean]⟩

theorem agrees_handleFrame (complete : List PacketToRead) (state : State) (clean : r.Clean)
    (order : r.tmpType = none ∨ startType f = none ∨ f.fin = false) :
    Agrees ⟨r.partly, complete⟩ f (r.handleFrame state f).1 (r.handleFrame state f).2 := by
  unfold handleFrame
  split
  · exact agrees_continueMessage complete ‹_›
  rename_i notContinuation
  split
  · rename_i opcode
    have data : isControl f = false := by simp [isControl, opcode, textFrame, closeFrame, pingFrame, pongFrame]
    have start : startType f = some .text := by simp [startType, opcode]
    exact agrees_startMessage complete clean data start (by simpa [start] using order)
  rename_i notText
  split
  · rename_i opcode
    have data : isControl f = false := by simp [isControl, opcode, binaryFrame, closeFrame, pingFrame, pongFrame]
    have start : startType f = some .binary := by simp [startType, opcode, binaryFrame, textFrame]
    exact agrees_startMessage complete clean data start (by simpa [start] using order)
  rename_i notBinary
  split
  · rename_i opcode
    have control : isControl f = true := by simp [isControl, opcode]
    have added := Conversation.add_control (c := ⟨r.partly, complete⟩) control
    unfold closeReceived
    cases state with
    | «open» => exact .inr ⟨opcode, added⟩
    | closing => exact .inr ⟨opcode, added⟩
    | closed => exact ⟨added, clean⟩
  rename_i notClose
  split
  · rename_i opcode
    exact ⟨Conversation.add_control (by simp [isControl, opcode]), clean⟩
  rename_i notPing
  split
  · rename_i opcode
    exact ⟨Conversation.add_control (by simp [isControl, opcode]), clean⟩
  rename_i notPong
  refine .inl ?_
  have data : isControl f = false := by simp [isControl, notClose, notPing, notPong]
  have start : startType f = none := by simp [startType, notText, notBinary]
  unfold Conversation.add
  rw [if_neg (by simp [data]), start]
  cases r.partly with
  | none => rfl
  | some entry => simp [notContinuation]

end Receiver

namespace Reception

variable {config : Config} {w : Reception} {state : State} {ok : Bool}

/-- The frames are in order where no message that is complete in one frame comes inside
another one. -/
def orderly (w : Reception) : ReceptionEvent → Bool
  | .round .. => w.completed.all fun f => w.receiver.tmpType = none ∨ startType f = none ∨ f.fin = false
  | .arrive _ => true

/-- A connection that goes on has the message in progress that the frames have. -/
structure Following (w : Reception) : Prop where
  conforms : Conforms w
  goesOn : w.ended = false → w.receiver.Clean ∧ conversation w.frames = some ⟨w.receiver.partly, w.delivered⟩

theorem partly_of_same {r t : Receiver} (type : t.tmpType = r.tmpType) (payload : t.tmpPayload = r.tmpPayload) :
    t.partly = r.partly := by
  simp only [Receiver.partly, type, payload]

theorem Following.frame {f : WebSocketFrame} {r : Receiver} {verdict : Verdict}
    (known : conversation w.frames = some ⟨w.receiver.partly, w.delivered⟩)
    (agrees : Receiver.Agrees ⟨w.receiver.partly, w.delivered⟩ f r verdict) :
    Following ({ w with receiver := r, frames := w.frames ++ [f] }.react ok verdict) := by
  have added := conversation_append w.frames f
  rw [known, bind_some] at added
  have stops : ∀ {v : Reception}, v.frames = w.frames ++ [f] → v.delivered = w.delivered → v.ended = true →
      (∃ c, conversation v.frames = some c ∧ c.complete = v.delivered) ∨
        Conversation.add ⟨w.receiver.partly, w.delivered⟩ f = none →
      Following v := by
    intro v frames delivered ended outcome
    refine ⟨?_, by simp [ended]⟩
    rcases outcome with legal | violated
    · exact .inl legal
    · exact .inr ⟨ended, w.frames, f, _, frames, known, violated, delivered.symm⟩
  cases verdict with
  | recv | go =>
    obtain ⟨next, clean⟩ := agrees
    exact ⟨.inl ⟨_, added.trans next, rfl⟩, fun _ => ⟨clean, added.trans next⟩⟩
  | put packet =>
    obtain ⟨next, clean⟩ := agrees
    exact ⟨.inl ⟨_, added.trans next, rfl⟩, fun _ => ⟨clean, added.trans next⟩⟩
  | send opcode payload =>
    obtain ⟨next, clean⟩ := agrees
    exact ⟨.inl ⟨_, added.trans next, rfl⟩, fun _ => ⟨clean, added.trans next⟩⟩
  | sendAndAbort | abort =>
    refine stops rfl rfl rfl ?_
    rcases agrees with violated | ⟨_, next⟩
    · exact .inr violated
    · exact .inl ⟨_, added.trans next, rfl⟩

theorem Following.advance (inv : Following w) (order : w.orderly (.round state ok) = true) :
    Following (w.advance config state ok) := by
  cases alive : w.ended with
  | true =>
    have same : w.advance config state ok = w := by simp [Reception.advance, alive]
    rw [same]
    exact inv
  | false =>
    obtain ⟨clean, known⟩ := inv.goesOn alive
    rcases advance_cases config w state ok alive with ⟨_, receiver, ended, type, payload, equal⟩ |
      ⟨f, r, completes, type, payload, equal⟩
    · rw [equal]
      refine ⟨?_, fun _ => ⟨?_, ?_⟩⟩
      · exact .inl ⟨_, known, rfl⟩
      · intro idle
        rw [payload]
        exact clean (type ▸ idle)
      · rw [partly_of_same type payload]
        exact known
    · rw [equal]
      have inOrder : r.tmpType = none ∨ startType f = none ∨ f.fin = false := by
        rw [type]
        simpa [orderly, completes] using order
      have cleaned : r.Clean := by
        intro idle
        rw [payload]
        exact clean (type ▸ idle)
      have agrees := Receiver.agrees_handleFrame w.delivered state cleaned inOrder
      rw [partly_of_same type payload] at agrees
      exact Following.frame known agrees

theorem Following.arrive (inv : Following w) (chunk : Bytes) : Following (w.arrive chunk) :=
  ⟨inv.conforms, inv.goesOn⟩

theorem Following.new : Following {} := ⟨.inl ⟨_, rfl, rfl⟩, fun _ => ⟨fun _ => rfl, rfl⟩⟩

end Reception

theorem length_maskFrom (maskbuf : Bytes) (j : Nat) (bytes : Bytes) :
    (maskFrom maskbuf j bytes).length = bytes.length := by
  induction bytes generalizing j with
  | nil => rfl
  | cons b rest ih => simp [maskFrom, ih]

theorem WebSocketFrame.length_maskInto (f : WebSocketFrame) (n : Nat) :
    (f.maskInto f.payload 0 n).length = f.payload.length := by
  simp only [maskInto, take_zero, nil_append, length_append, length_maskFrom, length_take,
    length_drop]
  omega

namespace Receiver

variable {config : Config} {r : Receiver} {f : WebSocketFrame} {payloadSize : Nat} {frameMasked : Bool} {state : State}

theorem takePayload_complete {g : WebSocketFrame} (fits : f.payload.length ≤ payloadSize)
    (taken : (r.takePayload f payloadSize frameMasked).2 = some g) :
    g.payload.length = payloadSize ∧ g.opcode = f.opcode ∧
      (r.takePayload f payloadSize frameMasked).1.phase = .header ∧
      payloadSize ≤ f.payload.length + r.buf.length := by
  unfold takePayload at taken ⊢
  dsimp only at taken ⊢
  split at taken
  · cases taken
  · rename_i enough
    rw [if_neg enough]
    have whole : (f.payload ++ r.buf.take (min (payloadSize - f.payload.length) r.buf.length)).length =
        payloadSize := by
      rw [length_append, length_take] at enough ⊢
      omega
    have present : payloadSize ≤ f.payload.length + r.buf.length := by
      rw [length_append, length_take] at whole
      omega
    cases taken
    split
    · exact ⟨(WebSocketFrame.length_maskInto _ _).trans whole, rfl, rfl, present⟩
    · exact ⟨whole, rfl, rfl, present⟩

theorem takePayload_of_partly (taken : (r.takePayload f payloadSize frameMasked).2 = none) :
    (r.takePayload f payloadSize frameMasked).1 =
      { r with buf := [], phase := .payload { f with payload := f.payload ++ r.buf } payloadSize frameMasked } ∧
    f.payload.length + r.buf.length < payloadSize := by
  unfold takePayload at taken ⊢
  dsimp only at taken ⊢
  split at taken
  · rename_i short
    rw [length_append, length_take] at short
    have all : min (payloadSize - f.payload.length) r.buf.length = r.buf.length := by omega
    rw [all, take_length, drop_length]
    have less : f.payload.length + r.buf.length < payloadSize := by omega
    rw [if_pos (by rw [length_append]; exact less)]
    exact ⟨rfl, less⟩
  · cases taken

theorem payload_of_feedHeader {packet rest : Bytes} (fed : feedHeader packet = .header f payloadSize frameMasked rest) :
    f.payload = [] := by
  have masked : ∀ {g : WebSocketFrame} {len : Nat} {hasMask : Bool} {bytes : Bytes}, g.payload = [] →
      feedMaskkey g len hasMask bytes = .header f payloadSize frameMasked rest → f.payload = [] := by
    intro g len hasMask bytes empty fed
    unfold feedMaskkey at fed
    split_ifs at fed <;> cases fed <;> exact empty
  unfold feedHeader at fed
  split at fed
  · dsimp only at fed
    split_ifs at fed <;> exact masked rfl fed
  · cases fed

theorem small_of_checkHeader (checked : checkHeader config f payloadSize frameMasked = none) :
    payloadSize ≤ config.maxPayloadSize := by
  unfold checkHeader at checked
  split at checked
  · cases checked
  · omega

/-- The parts of a message that is not complete fit into the limit, and so does the frame
in progress. -/
structure InLimit (config : Config) (r : Receiver) : Prop where
  kept : r.tmpPayload.length ≤ config.maxPayloadSize
  frame : ∀ f payloadSize frameMasked, r.phase = .payload f payloadSize frameMasked →
    f.payload.length ≤ payloadSize ∧ payloadSize ≤ config.maxPayloadSize

theorem inLimit_handleFrame (kept : r.tmpPayload.length ≤ config.maxPayloadSize) (header : r.phase = .header)
    (small : f.payload.length ≤ config.maxPayloadSize)
    (fits : f.opcode = continuationFrame → r.tmpType ≠ none →
      r.tmpPayload.length + f.payload.length ≤ config.maxPayloadSize) :
    InLimit config (r.handleFrame state f).1 ∧
      ∀ packet, (r.handleFrame state f).2 = .put packet → packet.payload.length ≤ config.maxPayloadSize := by
  have idle : ∀ {t : Receiver}, t.tmpPayload.length ≤ config.maxPayloadSize → t.phase = .header → InLimit config t := by
    intro t kept phase
    exact ⟨kept, by simp [phase]⟩
  have started : ∀ type, InLimit config (r.startMessage type f).1 ∧
      ∀ packet, (r.startMessage type f).2 = .put packet → packet.payload.length ≤ config.maxPayloadSize := by
    intro type
    unfold startMessage
    split_ifs
    · exact ⟨idle kept header, by simp⟩
    · refine ⟨idle kept header, ?_⟩
      rintro packet equal
      cases equal
      exact small
    · exact ⟨idle kept header, by simp⟩
    · exact ⟨idle small header, by simp⟩
  unfold handleFrame
  split
  · rename_i opcode
    unfold continueMessage
    split
    · exact ⟨idle kept header, by simp⟩
    · rename_i type started
      have whole : (r.tmpPayload ++ f.payload).length ≤ config.maxPayloadSize := by
        rw [length_append]
        exact fits opcode (by simp [started])
      dsimp only
      split_ifs
      · exact ⟨idle whole header, by simp⟩
      · refine ⟨idle (Nat.zero_le _) header, ?_⟩
        rintro packet equal
        cases equal
        exact whole
      · exact ⟨idle whole header, by simp⟩
  split
  · exact started .text
  split
  · exact started .binary
  split
  · unfold closeReceived
    cases state <;> exact ⟨idle kept header, by simp⟩
  split_ifs <;> exact ⟨idle kept header, by simp⟩

/-- The limit has room for the continuation frame that the next round completes, if it
completes one and a message is in progress. -/
def roomy (config : Config) (r : Receiver) : Bool :=
  match r.phase with
  | .header => true
  | .payload f payloadSize _ =>
    f.opcode ≠ continuationFrame ∨ r.tmpType = none ∨ f.payload.length + r.buf.length < payloadSize ∨
      r.tmpPayload.length + payloadSize ≤ config.maxPayloadSize

theorem InLimit.round (inv : InLimit config r) (room : r.roomy config = true) (state : State) :
    InLimit config (r.round config state).1 ∧
      ∀ packet, (r.round config state).2 = .put packet → packet.payload.length ≤ config.maxPayloadSize := by
  have round := round_cases config r state
  revert round
  generalize r.round config state = result
  intro round
  cases round with
  | starved | violated => exact ⟨inv, by simp⟩
  | refused phase fed checked =>
    refine ⟨⟨inv.kept, by simp [phase]⟩, ?_⟩
    unfold checkHeader at checked
    split_ifs at checked <;> cases checked <;> simp
  | accepted phase fed checked =>
    refine ⟨⟨inv.kept, ?_⟩, by simp⟩
    intro f' n m equal
    cases equal
    rw [payload_of_feedHeader fed]
    exact ⟨Nat.zero_le _, small_of_checkHeader checked⟩
  | partly phase taken =>
    obtain ⟨same, short⟩ := takePayload_of_partly taken
    rw [same]
    refine ⟨⟨inv.kept, ?_⟩, by simp⟩
    intro f' n m equal
    cases equal
    exact ⟨by rw [length_append]; exact short.le, (inv.frame _ _ _ phase).2⟩
  | @complete _ payloadSize _ _ phase taken =>
    obtain ⟨fits, small⟩ := inv.frame _ _ _ phase
    obtain ⟨whole, opcode, header, present⟩ := takePayload_complete fits taken
    refine inLimit_handleFrame (by simpa using inv.kept) header (whole ▸ small) ?_
    intro continuation started
    rw [takePayload_tmpType] at started
    rw [takePayload_tmpPayload, whole]
    simpa [roomy, phase, ← opcode, continuation, started, present.not_gt] using room

theorem InLimit.roomy_of_round (inv : InLimit config r)
    (kept : (r.round config state).1.tmpPayload.length ≤ config.maxPayloadSize)
    (put : ∀ packet, (r.round config state).2 = .put packet → packet.payload.length ≤ config.maxPayloadSize) :
    r.roomy config = true := by
  have round := round_cases config r state
  revert round kept put
  generalize r.round config state = result
  intro kept put round
  cases round with
  | starved phase | violated phase | refused phase | accepted phase => simp [roomy, phase]
  | partly phase taken => simp [roomy, phase, (takePayload_of_partly taken).2]
  | @complete f payloadSize _ g phase taken =>
    obtain ⟨whole, opcode, -⟩ := takePayload_complete (inv.frame _ _ _ phase).1 taken
    simp only [roomy, phase, decide_eq_true_eq]
    refine or_iff_not_imp_left.mpr fun continuation => or_iff_not_imp_left.mpr fun started => .inr ?_
    obtain ⟨type, started⟩ := Option.ne_none_iff_exists'.mp started
    rw [handleFrame, if_pos (opcode.trans (not_not.mp continuation))] at kept put
    -- the whole message is kept, or put into the queue
    simp only [continueMessage, takePayload_tmpType, takePayload_tmpPayload, started] at kept put
    rw [← whole, ← length_append]
    split_ifs at kept put
    · exact kept
    · exact put _ rfl
    · exact kept

end Receiver

/-- The messages in the queue fit into the limit, and what is kept for a message that is
not complete exceeds it by the frame in progress at most. -/
structure Limited (config : Config) (w : Reception) : Prop where
  messages : ∀ packet ∈ w.delivered, packet.payload.length ≤ config.maxPayloadSize
  incomplete : w.receiver.tmpPayload.length ≤ config.maxPayloadSize
  excess : ∀ f payloadSize frameMasked, w.receiver.phase = .payload f payloadSize frameMasked →
    w.receiver.tmpPayload.length + f.payload.length ≤ config.maxPayloadSize + payloadSize

namespace Reception

variable {config : Config} {w : Reception}

/-- The limit has room for every frame that goes on with a message. -/
def frugal (config : Config) (w : Reception) : ReceptionEvent → Bool
  | .round .. => w.ended || w.receiver.roomy config
  | .arrive _ => true

/-- The messages in the queue and the frame in progress are within the limit. -/
structure InLimit (config : Config) (w : Reception) : Prop where
  messages : ∀ packet ∈ w.delivered, packet.payload.length ≤ config.maxPayloadSize
  receiver : w.receiver.InLimit config

theorem react_receiver (w : Reception) (ok : Bool) (verdict : Verdict) :
    (w.react ok verdict).receiver = w.receiver := by
  cases verdict <;> rfl

theorem mem_react {ok : Bool} {verdict : Verdict} {packet : PacketToRead} :
    packet ∈ (w.react ok verdict).delivered ↔ packet ∈ w.delivered ∨ verdict = .put packet := by
  cases verdict <;> simp [react, eq_comm]

variable {t : Reception} {e : ReceptionEvent}

theorem InLimit.step (inv : InLimit config w) (room : w.frugal config e = true)
    (step : w.step config e = some t) : InLimit config t := by
  cases e with
  | arrive chunk =>
    cases step
    exact ⟨inv.messages, inv.receiver.kept, inv.receiver.frame⟩
  | round state ok =>
    cases step
    unfold advance
    split
    · exact inv
    · rename_i alive
      obtain ⟨receiver, put⟩ := inv.receiver.round (by simpa [frugal, alive] using room) state
      refine ⟨fun packet member => ?_, by rw [react_receiver]; exact receiver⟩
      rcases mem_react.mp member with old | new
      · exact inv.messages packet old
      · exact put packet new

theorem InLimit.frugal_of_step (inv : InLimit config w) (step : w.step config e = some t)
    (limited : Limited config t) : w.frugal config e = true := by
  cases e with
  | arrive chunk => rfl
  | round state ok =>
    cases step
    rw [frugal, Bool.or_eq_true, or_iff_not_imp_left]
    intro alive
    obtain ⟨messages, kept, -⟩ := limited
    rw [advance, if_neg alive] at messages kept
    rw [react_receiver] at kept
    exact inv.receiver.roomy_of_round kept fun packet put => messages packet (mem_react.mpr (.inr put))

/-- The messages stay within the limit, and so does what is kept of one at any time, exactly
if there is room for each frame that goes on with a message. -/
theorem limited_iff_frugal {history : List (Reception × ReceptionEvent)}
    (run : Run (receptionSystem config) history w) :
    (∀ s, Visited history w s → Limited config s) ↔ ∀ entry ∈ history, entry.1.frugal config entry.2 = true := by
  refine run.everywhere_iff_of_guard (fun _ _ => True) (fun w e => w.frugal config e = true) (InLimit config) _
    (fun _ _ => trivial) ?_ ?_ ?_ ?_
  · rintro _ rfl
    exact ⟨by simp, Nat.zero_le _, by simp⟩
  · intro s inv
    refine ⟨inv.messages, inv.receiver.kept, ?_⟩
    intro f payloadSize frameMasked phase
    have kept := inv.receiver.kept
    have frame := inv.receiver.frame _ _ _ phase
    omega
  · exact fun s e t inv _ room step => inv.step room step
  · exact fun s e t inv _ step limited => inv.frugal_of_step step limited

end Reception

/-- A client with the smallest limit that a configuration takes. -/
def smallClient : Config := ⟨.client, 1024, le_rfl, by decide⟩

def twoParts (n : Nat) : List ReceptionEvent :=
  [.arrive ([0x02, 126, UInt8.ofNat (n / 256), UInt8.ofNat n] ++ .replicate n 0), .round .open true, .round .open true,
    .arrive ([0x80, 126, UInt8.ofNat (n / 256), UInt8.ofNat n] ++ .replicate n 0), .round .open true, .round .open true]

theorem limited_iff_frugal_twoParts : ∃ history w, Run (receptionSystem smallClient) history w ∧
    (∀ entry ∈ history, entry.1.frugal smallClient entry.2 = true) ∧
    w.delivered.map (·.payload.length) = [1024] ∧ Limited smallClient w := by
  obtain ⟨history, w, run, _, room, sizes⟩ :=
    Run.of_exec_guarded (receptionSystem smallClient) (fun w e => w.frugal smallClient e) rfl
      (twoParts 512) rfl (fun w => w.delivered.map (·.payload.length) = [1024]) (by decide +kernel)
  exact ⟨history, w, run, room, sizes, (Reception.limited_iff_frugal run).mpr room w (.inl rfl)⟩

/-- Two frames of 1000 bytes make a message of 2000 bytes. -/
theorem message_too_large : ∃ history w, Run (receptionSystem smallClient) history w ∧
    history.map Prod.snd = (twoParts 1000).reverse ∧ w.delivered.map (·.payload.length) = [2000] ∧
    ¬ Limited smallClient w := by
  obtain ⟨history, w, run, labels, sizes⟩ := Run.of_exec (receptionSystem smallClient) rfl
    (twoParts 1000) rfl (fun w => w.delivered.map (·.payload.length) = [2000]) (by decide +kernel)
  refine ⟨history, w, run, labels, sizes, fun limited => ?_⟩
  obtain ⟨packet, member, size⟩ := mem_map.mp (sizes ▸ mem_singleton.mpr rfl : 2000 ∈ w.delivered.map _)
  have small : packet.payload.length ≤ 1024 := limited.messages packet member
  omega

end Qtng.WebSocket
