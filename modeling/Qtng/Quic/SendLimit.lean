import Qtng.Quic.DataLimit

namespace Qtng

open BigEndian Finset List Option Transition

variable {before after : List QuicFrame}

def kMaxStreamChunk : Nat := 1000

/-- The transport parameters of the peer that limit what may be sent to it. -/
structure QuicTransportParams where
  initialMaxData : Nat := 0
  initialMaxStreamDataBidiLocal : Nat := 0
  initialMaxStreamDataBidiRemote : Nat := 0
  initialMaxStreamDataUni : Nat := 0
deriving DecidableEq

structure QuicStreamSender where
  sendOffset : Nat := 0
  finSent : Bool := false
  reset : Bool := false
  zeroRttStartOffset : Nat := 0
  sentZeroRtt : Bool := false
  zeroRttData : Bytes := []
deriving DecidableEq

/-- The part of QuicConnectionPrivate that sends stream data, with the STREAM frames that it
has put into packets, the latest one first. -/
structure QuicFlowSender where
  isClient : Bool
  hasAppKeys : Bool := false
  hasEarlyKeys : Bool := false
  maxDataRemote : Nat := 0
  dataSent : Nat := 0
  maxStreamDataRemote : Std.ExtTreeMap Nat Nat := ∅
  streamInitialLimitRemote : Nat := 0
  streams : Std.ExtTreeMap Nat QuicStreamSender := ∅
  sent : List QuicFrame := []

def streamFrame (id offset : Nat) (data : Bytes) (fin : Bool) : QuicFrame :=
  { type := .stream, streamId := id, offset, data, hasLength := true, fin }

namespace QuicFlowSender

/-- The state of a stream, or the state in which it will be created. -/
def stream (conn : QuicFlowSender) (id : Nat) : QuicStreamSender := conn.streams[id]?.getD {}

def setStream (conn : QuicFlowSender) (id : Nat) (sd : QuicStreamSender) : QuicFlowSender :=
  { conn with streams := conn.streams.insert id sd }

def streamSendLimit (conn : QuicFlowSender) (id : Nat) : Nat :=
  conn.maxStreamDataRemote[id]?.getD conn.streamInitialLimitRemote

/-- What waitForSendWindow returns once it is not 0. -/
def sendWindow (conn : QuicFlowSender) (id : Nat) (sd : QuicStreamSender) : Nat :=
  min (conn.streamSendLimit id - sd.sendOffset) (conn.maxDataRemote - conn.dataSent)

/-- The frame goes into a packet, unless its encoding is too short to be protected. -/
def putFrame (conn : QuicFlowSender) (frame : QuicFrame) : QuicFlowSender × Bool :=
  if 2 ≤ ((quicEncodeFrame frame).getD []).length then ({ conn with sent := frame :: conn.sent }, true)
  else (conn, false)

/-- The 0-RTT loop of send. Each round takes bytes off the data, so that its length bounds
the rounds. -/
def sendEarly (id : Nat) : Nat → Bytes → QuicFlowSender → QuicStreamSender → QuicFlowSender × QuicStreamSender
  | 0, _, conn, sd => (conn, sd)
  | rounds + 1, data, conn, sd =>
    if data = [] then (conn, sd)
    else
      let chunk := data.take kMaxStreamChunk
      match conn.putFrame (streamFrame id sd.sendOffset chunk false) with
      | (conn, false) => (conn, sd)
      | (conn, true) =>
        sendEarly id rounds (data.drop kMaxStreamChunk) conn
          { sd with sendOffset := sd.sendOffset + chunk.length, zeroRttData := sd.zeroRttData ++ chunk }

def replayLoop (id : Nat) : Nat → Bytes → QuicFlowSender → QuicStreamSender → QuicFlowSender × QuicStreamSender
  | 0, _, conn, sd => (conn, sd)
  | rounds + 1, data, conn, sd =>
    if data = [] then (conn, sd)
    else
      let chunk := data.take kMaxStreamChunk
      replayLoop id rounds (data.drop kMaxStreamChunk) (conn.putFrame (streamFrame id sd.sendOffset chunk false)).1
        { sd with sendOffset := sd.sendOffset + chunk.length }

def replayZeroRtt (conn : QuicFlowSender) (id : Nat) (sd : QuicStreamSender) : QuicFlowSender :=
  match replayLoop id sd.zeroRttData.length sd.zeroRttData conn { sd with sendOffset := sd.zeroRttStartOffset } with
  | (conn, sd) =>
    let conn := if sd.finSent then (conn.putFrame (streamFrame id sd.sendOffset [] true)).1 else conn
    conn.setStream id { sd with zeroRttData := [] }

def replayStream (conn : QuicFlowSender) (id : Nat) : QuicFlowSender :=
  match conn.streams[id]? with
  | none => conn
  | some sd => if sd.sentZeroRtt ∧ sd.sendOffset > sd.zeroRttStartOffset then conn.replayZeroRtt id sd else conn

/-- The keys and limits that driveTls sets when TLS has the application secrets. -/
def withAppKeys (conn : QuicFlowSender) (pp : QuicTransportParams) : QuicFlowSender :=
  { conn with
    hasAppKeys := true, maxDataRemote := pp.initialMaxData
    streamInitialLimitRemote :=
      if conn.isClient then pp.initialMaxStreamDataBidiRemote else pp.initialMaxStreamDataBidiLocal }

/-- What driveTls does then. If the server has rejected 0-RTT data, it is replayed. -/
def takeAppKeys (conn : QuicFlowSender) (pp : QuicTransportParams) (earlyDataAccepted : Bool) : QuicFlowSender :=
  let conn := conn.withAppKeys pp
  if conn.isClient ∧ conn.hasEarlyKeys ∧ !earlyDataAccepted then
    { conn.streams.keys.foldl replayStream conn with hasEarlyKeys := false }
  else conn

def onMaxData (conn : QuicFlowSender) (maxData : Nat) : QuicFlowSender :=
  if maxData > conn.maxDataRemote then { conn with maxDataRemote := maxData } else conn

/-- The entry of the stream is created with 0 if it is missing. -/
def onMaxStreamData (conn : QuicFlowSender) (id maxData : Nat) : QuicFlowSender :=
  let v := conn.maxStreamDataRemote[id]?.getD 0
  { conn with maxStreamDataRemote := conn.maxStreamDataRemote.insert id (if maxData > v then maxData else v) }

/-- One round of the loop of send with 1-RTT keys, with what is left of the data. There is no
result while the window is closed. -/
def sendRound (conn : QuicFlowSender) (id : Nat) (data : Bytes) : Option (QuicFlowSender × Bytes) :=
  match conn.streams[id]? with
  | none => none
  | some sd =>
    let avail := conn.sendWindow id sd
    if avail = 0 then none
    else
      let chunk := data.take (min avail kMaxStreamChunk)
      let conn := { conn with dataSent := conn.dataSent + chunk.length }
      match conn.putFrame (streamFrame id sd.sendOffset chunk false) with
      | (conn, false) => some (conn, [])
      | (conn, true) =>
        some (conn.setStream id { sd with sendOffset := sd.sendOffset + chunk.length }, data.drop chunk.length)

end QuicFlowSender

/-- A call of a coroutine that waits: send with the data that is left, close for the window,
and close for the queue to drain. -/
inductive SendCall
  | send (id : Nat) (data : Bytes)
  | close (id : Nat)
  | drain (id : Nat)
deriving DecidableEq

/-- A sender with the calls in progress, the parameters of its peer and the MAX_DATA and
MAX_STREAM_DATA frames that have arrived, the latest one first. -/
structure SendWorld where
  conn : QuicFlowSender
  params : QuicTransportParams
  calls : List SendCall := []
  limits : List QuicFrame := []

inductive SendWorldEvent
  | openStream (id : Nat)
  | earlyKeys
  | appKeys (earlyDataAccepted : Bool)
  | maxData (maxData : Nat)
  | maxStreamData (id maxData : Nat)
  | send (id : Nat) (data : Bytes)
  | close (id : Nat)
  | reset (id : Nat)
  | resume (k : Nat)
  | giveUp (k : Nat)
deriving DecidableEq

namespace SendWorld

def setFin (conn : QuicFlowSender) (id : Nat) : QuicFlowSender :=
  conn.setStream id { conn.stream id with finSent := true }

def send (s : SendWorld) (id : Nat) (data : Bytes) : Option SendWorld :=
  s.conn.streams[id]?.map fun sd =>
    if sd.finSent ∨ sd.reset ∨ data = [] then s
    else if !s.conn.hasAppKeys ∧ s.conn.isClient ∧ s.conn.hasEarlyKeys then
      let sd := if sd.sentZeroRtt then sd else { sd with zeroRttStartOffset := sd.sendOffset, sentZeroRtt := true }
      let (conn, sd) := QuicFlowSender.sendEarly id data.length data s.conn sd
      { s with conn := conn.setStream id sd }
    else if !s.conn.hasAppKeys then s
    else { s with calls := s.calls ++ [.send id data] }

def close (s : SendWorld) (id : Nat) : Option SendWorld :=
  s.conn.streams[id]?.map fun sd =>
    if sd.finSent then s
    else if !s.conn.hasAppKeys ∧ s.conn.isClient ∧ s.conn.hasEarlyKeys then
      match s.conn.putFrame (streamFrame id sd.sendOffset [] true) with
      | (_, false) => s
      | (conn, true) => { s with conn := setFin conn id }
    else if !s.conn.hasAppKeys then { s with conn := setFin s.conn id }
    else { s with calls := s.calls ++ [.close id] }

def resume (s : SendWorld) (k : Nat) : Option SendWorld :=
  match s.calls[k]? with
  | none => none
  | some (.send id data) =>
    if data = [] then some { s with calls := s.calls.eraseIdx k }
    else (s.conn.sendRound id data).map fun (conn, rest) =>
      { s with conn := conn, calls := s.calls.set k (.send id rest) }
  | some (.close id) =>
    if s.conn.sendWindow id (s.conn.stream id) = 0 then none
    else
      some { s with
        conn := (s.conn.putFrame (streamFrame id (s.conn.stream id).sendOffset [] true)).1
        calls := s.calls.set k (.drain id) }
  | some (.drain id) => some { s with conn := setFin s.conn id, calls := s.calls.eraseIdx k }

def giveUp (s : SendWorld) (k : Nat) : Option SendWorld :=
  match s.calls[k]? with
  | none => none
  | some (.send _ _) => some { s with calls := s.calls.eraseIdx k }
  | some (.close id) => some { s with conn := setFin s.conn id, calls := s.calls.eraseIdx k }
  | some (.drain id) => some { s with conn := setFin s.conn id, calls := s.calls.eraseIdx k }

def step (s : SendWorld) : SendWorldEvent → Option SendWorld
  | .openStream id => if id ∈ s.conn.streams then none else some { s with conn := s.conn.setStream id {} }
  | .earlyKeys => some { s with conn := { s.conn with hasEarlyKeys := true } }
  | .appKeys earlyDataAccepted =>
    if s.conn.hasAppKeys then none else some { s with conn := s.conn.takeAppKeys s.params earlyDataAccepted }
  | .maxData maxData =>
    some { s with conn := s.conn.onMaxData maxData, limits := { type := .maxData, maxData } :: s.limits }
  | .maxStreamData id maxData =>
    some { s with
      conn := s.conn.onMaxStreamData id maxData
      limits := { type := .maxStreamData, streamId := id, maxData } :: s.limits }
  | .send id data => s.send id data
  | .close id => s.close id
  | .reset id => s.conn.streams[id]?.map fun sd => { s with conn := s.conn.setStream id { sd with reset := true } }
  | .resume k => s.resume k
  | .giveUp k => s.giveUp k

/-- The transport parameter that limits a stream at first: another one for each kind of
stream, and for bidirectional streams it depends on who has opened the stream. -/
def initialLimit (s : SendWorld) (id : Nat) : Nat :=
  if id &&& 2 ≠ 0 then s.params.initialMaxStreamDataUni
  else if (id &&& 1 = 0) = (s.conn.isClient = true) then s.params.initialMaxStreamDataBidiRemote
  else s.params.initialMaxStreamDataBidiLocal

def streamAdvertised (s : SendWorld) (id : Nat) : Nat := QuicReceiver.largestLimit (s.initialLimit id) id s.limits

def largestData (initial : Nat) : List QuicFrame → Nat
  | [] => initial
  | frame :: earlier =>
    if frame.type = .maxData then max frame.maxData (largestData initial earlier) else largestData initial earlier

def dataAdvertised (s : SendWorld) : Nat := largestData s.params.initialMaxData s.limits

end SendWorld

def offsetsOf (id : Nat) : List QuicFrame → Finset Nat
  | [] => ∅
  | frame :: earlier =>
    if frame.streamId = id then Finset.Ico frame.offset frame.endOffset ∪ offsetsOf id earlier else offsetsOf id earlier

def distinctTotal (frames : List QuicFrame) : Nat := ∑ id ∈ streamsOf frames, (offsetsOf id frames).card

namespace SendWorld

structure Within (s : SendWorld) : Prop where
  streams : ∀ id, (offsetsOf id s.conn.sent).card ≤ s.streamAdvertised id
  total : distinctTotal s.conn.sent ≤ s.dataAdvertised

def unusedEarly (s : SendWorld) : Bool := s.conn.streams.toList.all fun entry => !entry.2.sentZeroRtt

/-- 0-RTT data respects the limits by itself, and so does all that is sent after it, a stream is
limited by a parameter that is meant for it, and no MAX_STREAM_DATA frame is the first one
for its stream and below the parameter that counts so far. -/
def respectsLimits (s : SendWorld) : SendWorldEvent → Bool
  | .send id data =>
    s.conn.hasAppKeys || !s.conn.isClient || !s.conn.hasEarlyKeys ||
      ((s.conn.stream id).sendOffset + data.length ≤ s.streamAdvertised id &&
        distinctTotal s.conn.sent + data.length ≤ s.dataAdvertised)
  | .resume k =>
    match s.calls[k]? with
    | some (.send id data) =>
      (id ∈ s.conn.maxStreamDataRemote || s.conn.streamInitialLimitRemote ≤ s.initialLimit id) &&
        (s.unusedEarly || distinctTotal s.conn.sent + data.length ≤ s.dataAdvertised)
    | _ => true
  | .maxStreamData id maxData => id ∈ s.conn.maxStreamDataRemote || s.conn.streamInitialLimitRemote ≤ maxData
  | _ => true

end SendWorld

theorem offsetsOf_of_absent (frames : List QuicFrame) (id : Nat) (absent : id ∉ streamsOf frames) :
    offsetsOf id frames = ∅ := by
  induction frames with
  | nil => rfl
  | cons frame earlier ih =>
    have both : id ≠ frame.streamId ∧ id ∉ streamsOf earlier := by simpa [streamsOf] using absent
    rw [offsetsOf, if_neg (Ne.symm both.1), ih both.2]

theorem distinctTotal_change (id : Nat)
    (others : ∀ other, other ≠ id → offsetsOf other after = offsetsOf other before) :
    distinctTotal after + (offsetsOf id before).card = distinctTotal before + (offsetsOf id after).card :=
  sum_streamsOf_change before after (fun id frames => (offsetsOf id frames).card) id
    (fun frames other absent => by rw [offsetsOf_of_absent frames other absent, card_empty])
    (fun other different => by rw [others other different])

theorem distinctTotal_congr (same : ∀ id, offsetsOf id after = offsetsOf id before) :
    distinctTotal after = distinctTotal before := by
  have change := distinctTotal_change 0 (fun other _ => same other)
  rw [same 0] at change
  omega

theorem offsetsOf_streamFrame (id offset : Nat) (data : Bytes) (fin : Bool) (frames : List QuicFrame) :
    offsetsOf id (streamFrame id offset data fin :: frames) =
      Finset.Ico offset (offset + data.length) ∪ offsetsOf id frames :=
  if_pos rfl

theorem offsetsOf_streamFrame_of_ne {id other : Nat} (different : other ≠ id) (offset : Nat) (data : Bytes) (fin : Bool)
    (frames : List QuicFrame) : offsetsOf other (streamFrame id offset data fin :: frames) = offsetsOf other frames :=
  if_neg different.symm

theorem offsetsOf_fin (id other offset : Nat) (frames : List QuicFrame) :
    offsetsOf other (streamFrame id offset [] true :: frames) = offsetsOf other frames := by
  by_cases own : other = id
  · rw [own, offsetsOf_streamFrame, length_nil, Nat.add_zero, Finset.Ico_self, empty_union]
  · exact offsetsOf_streamFrame_of_ne own offset [] true frames

theorem range_grows (offset length : Nat) :
    Finset.Ico offset (offset + length) ∪ Finset.range offset = Finset.range (offset + length) := by
  ext o
  simp only [Finset.mem_union, Finset.mem_Ico, Finset.mem_range]
  omega

theorem range_covers {offset length bound : Nat} (below : offset + length ≤ bound) :
    Finset.Ico offset (offset + length) ∪ Finset.range bound = Finset.range bound := by
  refine union_eq_right.mpr fun o member => ?_
  rw [mem_Ico] at member
  exact Finset.mem_range.mpr (by omega)

namespace QuicStreamSender

/-- What a stream keeps for the replay ends at sendOffset. -/
def Replayable (sd : QuicStreamSender) : Prop :=
  if sd.sentZeroRtt = true then sd.sendOffset = sd.zeroRttStartOffset + sd.zeroRttData.length else sd.zeroRttData = []

/-- Nothing is sent on the stream, and before the 1-RTT keys it stays ready for a replay. -/
structure Same (keys : Bool) (sd after : QuicStreamSender) : Prop where
  sendOffset : after.sendOffset = sd.sendOffset
  used : after.sentZeroRtt = sd.sentZeroRtt
  replayable : keys = false → sd.Replayable → after.Replayable

theorem Same.refl {keys : Bool} (sd : QuicStreamSender) : Same keys sd sd := ⟨rfl, rfl, fun _ ready => ready⟩

end QuicStreamSender

namespace QuicFlowSender

variable {conn : QuicFlowSender}
variable {id : Nat}

theorem stream_setStream (conn : QuicFlowSender) (id other : Nat) (sd : QuicStreamSender) :
    (conn.setStream id sd).stream other = if other = id then sd else conn.stream other := by
  unfold stream setStream
  dsimp only
  rw [NatMap.getElem?_insert]
  split <;> rfl

variable {sd : QuicStreamSender}

theorem stream_of_present (present : conn.streams[id]? = some sd) :
    conn.stream id = sd := by
  rw [stream, present, getD_some]

theorem putFrame_cases (conn : QuicFlowSender) (frame : QuicFrame) :
    conn.putFrame frame = (conn, false) ∨ conn.putFrame frame = ({ conn with sent := frame :: conn.sent }, true) := by
  unfold putFrame
  split
  · exact .inr rfl
  · exact .inl rfl

/-- Every byte up to sendOffset has been put into a frame, and no other one. -/
def Placed (conn : QuicFlowSender) : Prop := ∀ id, offsetsOf id conn.sent = Finset.range (conn.stream id).sendOffset

theorem sendEarly_frames (id rounds : Nat) (data : Bytes) (conn : QuicFlowSender) (sd : QuicStreamSender) :
    ∃ sent, (sendEarly id rounds data conn sd).1 = { conn with sent := sent } := by
  induction rounds generalizing data conn sd with
  | zero => exact ⟨conn.sent, rfl⟩
  | succ rounds ih =>
    unfold sendEarly
    split
    · exact ⟨conn.sent, rfl⟩
    dsimp only
    rcases conn.putFrame_cases (streamFrame id sd.sendOffset (data.take kMaxStreamChunk) false) with failed | worked
    · rw [failed]
      exact ⟨conn.sent, rfl⟩
    · rw [worked]
      exact ih _ _ _

/-- What the 0-RTT loop does: it puts a front part of the data into frames. -/
structure SentEarly (id : Nat) (data : Bytes) (conn after : QuicFlowSender) (sd later : QuicStreamSender) : Prop where
  placed : offsetsOf id after.sent = Finset.range later.sendOffset
  others : ∀ other, other ≠ id → offsetsOf other after.sent = offsetsOf other conn.sent
  grows : sd.sendOffset ≤ later.sendOffset
  bounded : later.sendOffset ≤ sd.sendOffset + data.length
  used : later.sentZeroRtt = sd.sentZeroRtt
  start : later.zeroRttStartOffset = sd.zeroRttStartOffset
  kept : later.zeroRttData.length + sd.sendOffset = sd.zeroRttData.length + later.sendOffset

theorem sendEarly_spec (id rounds : Nat) (data : Bytes) (conn : QuicFlowSender) (sd : QuicStreamSender)
    (placed : offsetsOf id conn.sent = Finset.range sd.sendOffset) :
    SentEarly id data conn (sendEarly id rounds data conn sd).1 sd (sendEarly id rounds data conn sd).2 := by
  have idle : SentEarly id data conn conn sd sd :=
    ⟨placed, fun _ _ => rfl, le_rfl, Nat.le_add_right _ _, rfl, rfl, rfl⟩
  induction rounds generalizing data conn sd with
  | zero => exact idle
  | succ rounds ih =>
    unfold sendEarly
    split
    · exact idle
    dsimp only
    set chunk := data.take kMaxStreamChunk with chunkIs
    have lengths : chunk.length + (data.drop kMaxStreamChunk).length = data.length := by
      rw [chunkIs, ← List.length_append, List.take_append_drop]
    rcases conn.putFrame_cases (streamFrame id sd.sendOffset chunk false) with failed | worked
    · rw [failed]
      exact idle
    · rw [worked]
      have more : offsetsOf id (streamFrame id sd.sendOffset chunk false :: conn.sent) =
          Finset.range (sd.sendOffset + chunk.length) := by
        rw [offsetsOf_streamFrame, placed, range_grows]
      have further :=
        ih (data.drop kMaxStreamChunk) { conn with sent := streamFrame id sd.sendOffset chunk false :: conn.sent }
        { sd with sendOffset := sd.sendOffset + chunk.length, zeroRttData := sd.zeroRttData ++ chunk } more
        ⟨more, fun _ _ => rfl, le_rfl, Nat.le_add_right _ _, rfl, rfl, rfl⟩
      dsimp only
      generalize sendEarly id rounds (data.drop kMaxStreamChunk) _ _ = result at further ⊢
      obtain ⟨allPlaced, others, grows, bounded, used, start, kept⟩ := further
      dsimp only at grows bounded used start kept
      rw [List.length_append] at kept
      refine ⟨allPlaced, ?_, by omega, by omega, used, start, by omega⟩
      intro other different
      rw [others other different, offsetsOf_streamFrame_of_ne different]

/-- The loop of replayZeroRtt sends nothing that has not been sent before. -/
theorem replayLoop_spec (id bound rounds : Nat) (data : Bytes) (conn : QuicFlowSender) (sd : QuicStreamSender)
    (enough : data.length ≤ rounds) (below : sd.sendOffset + data.length ≤ bound)
    (placed : offsetsOf id conn.sent = Finset.range bound) :
    ∃ sent, replayLoop id rounds data conn sd =
        ({ conn with sent := sent }, { sd with sendOffset := sd.sendOffset + data.length }) ∧
      ∀ other, offsetsOf other sent = offsetsOf other conn.sent := by
  induction rounds generalizing data conn sd with
  | zero =>
    obtain rfl := eq_nil_of_length_eq_zero (Nat.le_zero.mp enough)
    exact ⟨conn.sent, rfl, fun _ => rfl⟩
  | succ rounds ih =>
    by_cases empty : data = []
    · subst empty
      exact ⟨conn.sent, by simp [replayLoop], fun _ => rfl⟩
    have nonempty := length_pos_of_ne_nil empty
    set chunk := data.take kMaxStreamChunk with chunkIs
    have lengths : chunk.length + (data.drop kMaxStreamChunk).length = data.length := by
      rw [chunkIs, ← length_append, take_append_drop]
    have taken : 0 < chunk.length := by
      rw [chunkIs, length_take, kMaxStreamChunk]
      omega
    have put : ∃ sent, (conn.putFrame (streamFrame id sd.sendOffset chunk false)).1 = { conn with sent := sent } ∧
        ∀ other, offsetsOf other sent = offsetsOf other conn.sent := by
      rcases conn.putFrame_cases (streamFrame id sd.sendOffset chunk false) with failed | worked
      · exact ⟨conn.sent, by rw [failed], fun _ => rfl⟩
      · refine ⟨_, by rw [worked], fun other => ?_⟩
        by_cases own : other = id
        · rw [own, offsetsOf_streamFrame, placed, range_covers (by omega)]
        · rw [offsetsOf_streamFrame_of_ne own]
    obtain ⟨sent, putIs, same⟩ := put
    obtain ⟨more, loop, sameMore⟩ := ih (data.drop kMaxStreamChunk) { conn with sent := sent }
      { sd with sendOffset := sd.sendOffset + chunk.length } (by omega) (by dsimp only; omega)
      (by rw [← placed]; exact same id)
    refine ⟨more, ?_, fun other => (sameMore other).trans (same other)⟩
    rw [replayLoop, if_neg empty]
    dsimp only
    rw [← chunkIs, putIs, loop]
    dsimp only
    rw [show sd.sendOffset + chunk.length + (data.drop kMaxStreamChunk).length = sd.sendOffset + data.length by omega]

def terms (conn : QuicFlowSender) : Bool × Bool × Nat × Std.ExtTreeMap Nat Nat × Nat :=
  (conn.isClient, conn.hasAppKeys, conn.maxDataRemote, conn.maxStreamDataRemote, conn.streamInitialLimitRemote)

structure SameAccounts (conn after : QuicFlowSender) : Prop where
  terms : after.terms = conn.terms
  dataSent : after.dataSent = conn.dataSent
  offsets : ∀ id, offsetsOf id after.sent = offsetsOf id conn.sent
  streams : ∀ id, (conn.stream id).Same conn.hasAppKeys (after.stream id)

namespace SameAccounts

variable {after later : QuicFlowSender}

theorem refl (conn : QuicFlowSender) : SameAccounts conn conn := ⟨rfl, rfl, fun _ => rfl, fun _ => .refl _⟩

theorem keys (same : SameAccounts conn after) : after.hasAppKeys = conn.hasAppKeys := congrArg (·.2.1) same.terms

theorem trans (first : SameAccounts conn after) (second : SameAccounts after later) : SameAccounts conn later where
  terms := second.terms.trans first.terms
  dataSent := second.dataSent.trans first.dataSent
  offsets id := (second.offsets id).trans (first.offsets id)
  streams id := by
    have before := first.streams id
    have behind := first.keys ▸ second.streams id
    exact ⟨behind.sendOffset.trans before.sendOffset, behind.used.trans before.used,
      fun early ready => behind.replayable early (before.replayable early ready)⟩

theorem setStream (conn : QuicFlowSender) {id : Nat} {sd : QuicStreamSender}
    (same : (conn.stream id).Same conn.hasAppKeys sd) : SameAccounts conn (conn.setStream id sd) := by
  refine ⟨rfl, rfl, fun _ => rfl, fun other => ?_⟩
  rw [stream_setStream]
  split
  · rename_i own
    exact own ▸ same
  · exact .refl _

theorem sent (conn : QuicFlowSender) {sent : List QuicFrame} (same : ∀ id, offsetsOf id sent = offsetsOf id conn.sent) :
    SameAccounts conn { conn with sent := sent } :=
  ⟨rfl, rfl, same, fun _ => .refl _⟩

theorem fin (conn : QuicFlowSender) (id offset : Nat) :
    SameAccounts conn (conn.putFrame (streamFrame id offset [] true)).1 := by
  rcases conn.putFrame_cases (streamFrame id offset [] true) with failed | worked
  · rw [failed]
    exact refl conn
  · rw [worked]
    exact sent conn fun other => offsetsOf_fin id other offset conn.sent

theorem setFin (conn : QuicFlowSender) (id : Nat) : SameAccounts conn (SendWorld.setFin conn id) :=
  setStream conn ⟨rfl, rfl, fun _ ready => ready⟩

theorem placed (same : SameAccounts conn after) (placed : conn.Placed) : after.Placed := by
  intro id
  rw [same.offsets, (same.streams id).sendOffset, placed id]

end SameAccounts

theorem replayZeroRtt_same (keys : conn.hasAppKeys = true)
    (present : conn.streams[id]? = some sd) (placed : conn.Placed)
    (ready : sd.sendOffset = sd.zeroRttStartOffset + sd.zeroRttData.length) :
    SameAccounts conn (conn.replayZeroRtt id sd) ∧
      ∀ other, other ≠ id → (conn.replayZeroRtt id sd).stream other = conn.stream other := by
  have current := stream_of_present present
  obtain ⟨sent, loop, again⟩ := replayLoop_spec id sd.sendOffset sd.zeroRttData.length sd.zeroRttData conn
    { sd with sendOffset := sd.zeroRttStartOffset } le_rfl ready.ge (by rw [placed id, current])
  have replayed := SameAccounts.sent conn again
  have offset : sd.zeroRttStartOffset + sd.zeroRttData.length = (conn.stream id).sendOffset := by rw [current, ready]
  obtain ⟨after, afterIs, same, streams⟩ : ∃ after,
      (if sd.finSent = true then
        (putFrame { conn with sent := sent } (streamFrame id (sd.zeroRttStartOffset + sd.zeroRttData.length) [] true)).1
      else { conn with sent := sent }) = after ∧ SameAccounts conn after ∧ after.streams = conn.streams := by
    refine ⟨_, rfl, ?_⟩
    split
    · refine ⟨replayed.trans (.fin _ id _), ?_⟩
      rcases putFrame_cases { conn with sent := sent }
        (streamFrame id (sd.zeroRttStartOffset + sd.zeroRttData.length) [] true)
        with failed | worked
      · rw [failed]
      · rw [worked]
    · exact ⟨replayed, rfl⟩
  have result : conn.replayZeroRtt id sd = after.setStream id
      { sd with sendOffset := sd.zeroRttStartOffset + sd.zeroRttData.length, zeroRttData := [] } := by
    simp only [replayZeroRtt, loop, afterIs]
  rw [result]
  constructor
  · refine same.trans (.setStream after ⟨?_, ?_, fun early => ?_⟩)
    · rw [(same.streams id).sendOffset, ← offset]
    · rw [(same.streams id).used, current]
    · rw [same.keys, keys] at early
      cases early
  · intro other different
    rw [stream_setStream, if_neg different, stream, streams]
    rfl

theorem replayStream_same (keys : conn.hasAppKeys = true) (placed : conn.Placed)
    (ready : (conn.stream id).sentZeroRtt = true →
      (conn.stream id).sendOffset = (conn.stream id).zeroRttStartOffset + (conn.stream id).zeroRttData.length) :
    SameAccounts conn (conn.replayStream id) ∧
      ∀ other, other ≠ id → (conn.replayStream id).stream other = conn.stream other := by
  rcases present : conn.streams[id]? with _ | sd
  · have idle : conn.replayStream id = conn := by simp only [replayStream, present]
    rw [idle]
    exact ⟨.refl conn, fun _ _ => rfl⟩
  · rw [stream_of_present present] at ready
    by_cases both : sd.sentZeroRtt = true ∧ sd.sendOffset > sd.zeroRttStartOffset
    · have replays : conn.replayStream id = conn.replayZeroRtt id sd := by
        simp only [replayStream, present, if_pos both]
      rw [replays]
      exact replayZeroRtt_same keys present placed (ready both.1)
    · have idle : conn.replayStream id = conn := by simp only [replayStream, present, if_neg both]
      rw [idle]
      exact ⟨.refl conn, fun _ _ => rfl⟩

theorem replayAll_same (ids : List Nat) (conn : QuicFlowSender) (distinct : ids.Nodup) (keys : conn.hasAppKeys = true)
    (placed : conn.Placed)
    (ready : ∀ id ∈ ids, (conn.stream id).sentZeroRtt = true →
      (conn.stream id).sendOffset = (conn.stream id).zeroRttStartOffset + (conn.stream id).zeroRttData.length) :
    SameAccounts conn (ids.foldl replayStream conn) := by
  induction ids generalizing conn with
  | nil => exact .refl conn
  | cons id rest ih =>
    obtain ⟨fresh, distinct⟩ := nodup_cons.mp distinct
    obtain ⟨same, others⟩ := replayStream_same keys placed (ready id mem_cons_self)
    refine same.trans (ih _ distinct (same.keys.trans keys) (same.placed placed) ?_)
    intro other member
    rw [others other (fun own => fresh (own ▸ member))]
    exact ready other (mem_cons_of_mem _ member)

theorem keys_nodup (conn : QuicFlowSender) : conn.streams.keys.Nodup := by
  refine (Std.ExtTreeMap.distinct_keys (t := conn.streams)).imp ?_
  intro a b different same
  exact different (by rw [same]; exact Nat.compare_eq_eq.mpr rfl)

/-- So many bytes of one stream have been put into frames, from sendOffset on. -/
structure Grows (conn after : QuicFlowSender) (id n : Nat) : Prop where
  terms : after.terms = conn.terms
  placed : offsetsOf id after.sent = Finset.range ((conn.stream id).sendOffset + n)
  others : ∀ other, other ≠ id → offsetsOf other after.sent = offsetsOf other conn.sent
  offset : (after.stream id).sendOffset = (conn.stream id).sendOffset + n
  streams : ∀ other, other ≠ id → after.stream other = conn.stream other

/-- A round of send takes bytes that both limits allow. They are charged, and put into a frame
unless that fails. -/
theorem sendRound_cases {after : QuicFlowSender} {data rest : Bytes} (placed : conn.Placed)
    (returned : conn.sendRound id data = some (after, rest)) :
    ∃ n, n ≤ data.length ∧ (conn.stream id).sendOffset + n ≤ conn.streamSendLimit id ∧
      conn.dataSent + n ≤ conn.maxDataRemote ∧
      (after = { conn with dataSent := conn.dataSent + n } ∨
        Grows conn after id n ∧ after.dataSent = conn.dataSent + n ∧
          ∀ other, (after.stream other).sentZeroRtt = (conn.stream other).sentZeroRtt) := by
  unfold sendRound at returned
  rcases present : conn.streams[id]? with _ | sd
  · simp [present] at returned
  simp only [present, ite_none_left_eq_some] at returned
  obtain ⟨nonzero, returned⟩ := returned
  have current := stream_of_present present
  set chunk := data.take (min (conn.sendWindow id sd) kMaxStreamChunk) with chunkIs
  have window : chunk.length ≤ conn.sendWindow id sd ∧ chunk.length ≤ data.length := by
    rw [chunkIs, length_take]
    omega
  have avail : conn.sendWindow id sd ≤ conn.streamSendLimit id - sd.sendOffset ∧
      conn.sendWindow id sd ≤ conn.maxDataRemote - conn.dataSent := by
    unfold sendWindow
    omega
  refine ⟨chunk.length, window.2, by rw [current]; omega, by omega, ?_⟩
  rcases putFrame_cases { conn with dataSent := conn.dataSent + chunk.length }
    (streamFrame id sd.sendOffset chunk false) with failed | worked
  · rw [failed] at returned
    cases returned
    exact .inl rfl
  · rw [worked] at returned
    cases returned
    have newStream (other : Nat) := stream_setStream { conn with
      dataSent := conn.dataSent + chunk.length
      sent := streamFrame id sd.sendOffset chunk false :: conn.sent } id other
        { sd with sendOffset := sd.sendOffset + chunk.length }
    refine .inr ⟨⟨rfl, ?_, ?_, ?_, ?_⟩, rfl, ?_⟩
    · rw [current, ← range_grows, ← current, ← placed id, current]
      exact offsetsOf_streamFrame id sd.sendOffset chunk false conn.sent
    · exact fun other different => offsetsOf_streamFrame_of_ne different ..
    · rw [newStream, if_pos rfl, current]
    · intro other different
      rw [newStream, if_neg different]
      rfl
    · intro other
      rw [newStream]
      split
      · rename_i own
        rw [own, current]
      · rfl

end QuicFlowSender

namespace SendWorld

open QuicFlowSender

variable {s t : SendWorld}
variable {id k : Nat} {data : Bytes}

/-- The books of a sender whose steps have respected the limits. -/
structure Sound (s : SendWorld) : Prop where
  placed : s.conn.Placed
  streams : ∀ id, (s.conn.stream id).sendOffset ≤ s.streamAdvertised id
  total : distinctTotal s.conn.sent ≤ s.dataAdvertised
  charged : (∀ id, (s.conn.stream id).sentZeroRtt = false) → distinctTotal s.conn.sent ≤ s.conn.dataSent
  maxData : s.conn.maxDataRemote ≤ s.dataAdvertised
  limits : ∀ id v, s.conn.maxStreamDataRemote[id]? = some v → v ≤ s.streamAdvertised id
  early : s.conn.hasAppKeys = false → ∀ id, (s.conn.stream id).Replayable
  initial : s.conn.hasAppKeys = false → s.conn.streamInitialLimitRemote = 0
  calling : s.conn.hasAppKeys = false → s.calls = []

theorem Sound.within (inv : s.Sound) : s.Within := by
  refine ⟨fun id => ?_, inv.total⟩
  rw [inv.placed id, card_range]
  exact inv.streams id

/-- The books are right after a step, and no stream has a smaller limit. -/
structure Progress (s t : SendWorld) : Prop where
  sound : t.Sound
  limits : ∀ id, s.conn.streamSendLimit id ≤ t.conn.streamSendLimit id

theorem Sound.idle (inv : s.Sound) : Progress s s := ⟨inv, fun _ => le_rfl⟩

theorem Sound.change (inv : s.Sound) (params : t.params = s.params) (limits : t.limits = s.limits)
    (terms : t.conn.terms = s.conn.terms) (placed : t.conn.Placed)
    (streams : ∀ id, (t.conn.stream id).sendOffset ≤ s.streamAdvertised id)
    (total : distinctTotal t.conn.sent ≤ s.dataAdvertised)
    (charged : (∀ id, (t.conn.stream id).sentZeroRtt = false) → distinctTotal t.conn.sent ≤ t.conn.dataSent)
    (early : s.conn.hasAppKeys = false → ∀ id, (t.conn.stream id).Replayable)
    (calling : s.conn.hasAppKeys = false → t.calls = []) : Progress s t := by
  obtain ⟨isClient, keys, maxData, streamLimits, initial⟩ : t.conn.isClient = s.conn.isClient ∧
      t.conn.hasAppKeys = s.conn.hasAppKeys ∧ t.conn.maxDataRemote = s.conn.maxDataRemote ∧
      t.conn.maxStreamDataRemote = s.conn.maxStreamDataRemote ∧
      t.conn.streamInitialLimitRemote = s.conn.streamInitialLimitRemote := by
    simpa [QuicFlowSender.terms] using terms
  have advertised (id : Nat) : t.streamAdvertised id = s.streamAdvertised id := by
    simp only [streamAdvertised, initialLimit, params, limits, isClient]
  have data : t.dataAdvertised = s.dataAdvertised := by simp only [dataAdvertised, params, limits]
  refine ⟨⟨placed, ?_, data ▸ total, charged, ?_, ?_, keys ▸ early, ?_, keys ▸ calling⟩, fun id => ?_⟩
  · exact fun id => advertised id ▸ streams id
  · rw [maxData, data]
    exact inv.maxData
  · intro id v
    rw [streamLimits, advertised]
    exact inv.limits id v
  · rw [keys, initial]
    exact inv.initial
  · simp only [streamSendLimit, streamLimits, initial, le_refl]

theorem Sound.same (inv : s.Sound) (same : SameAccounts s.conn t.conn) (params : t.params = s.params)
    (limits : t.limits = s.limits) (calling : s.conn.hasAppKeys = false → t.calls = []) : Progress s t := by
  have total := distinctTotal_congr same.offsets
  refine inv.change params limits same.terms (same.placed inv.placed) ?_ (total ▸ inv.total) ?_ ?_ calling
  · intro id
    rw [(same.streams id).sendOffset]
    exact inv.streams id
  · intro unused
    rw [total, same.dataSent]
    exact inv.charged fun id => (same.streams id).used.symm.trans (unused id)
  · exact fun early id => (same.streams id).replayable early (inv.early early id)

theorem initial_le_largestData (initial : Nat) (limits : List QuicFrame) : initial ≤ largestData initial limits := by
  induction limits with
  | nil => exact le_rfl
  | cons frame earlier ih =>
    unfold largestData
    split
    · exact ih.trans (le_max_right _ _)
    · exact ih

theorem Sound.streamSendLimit_le (inv : s.Sound)
    (meant : id ∈ s.conn.maxStreamDataRemote ∨ s.conn.streamInitialLimitRemote ≤ s.initialLimit id) :
    s.conn.streamSendLimit id ≤ s.streamAdvertised id := by
  unfold streamSendLimit
  rcases told : s.conn.maxStreamDataRemote[id]? with _ | v
  · have untold : id ∉ s.conn.maxStreamDataRemote := by simpa using told
    exact (meant.resolve_left untold).trans (QuicReceiver.initial_le_largestLimit _ _ _)
  · exact inv.limits id v told

theorem unusedEarly_iff (s : SendWorld) : s.unusedEarly = true ↔ ∀ id, (s.conn.stream id).sentZeroRtt = false := by
  simp only [unusedEarly, List.all_eq_true, Bool.not_eq_true', Prod.forall,
    Std.ExtTreeMap.mem_toList_iff_getElem?_eq_some]
  constructor
  · intro unused id
    rcases present : s.conn.streams[id]? with _ | sd
    · simp [stream, present]
    · rw [stream_of_present present]
      exact unused id sd present
  · intro unused id sd present
    rw [← stream_of_present present]
    exact unused id

theorem Sound.grow (inv : s.Sound) {n : Nat} (params : t.params = s.params) (limits : t.limits = s.limits)
    (grows : Grows s.conn t.conn id n) (allowed : (s.conn.stream id).sendOffset + n ≤ s.streamAdvertised id)
    (fits : distinctTotal s.conn.sent + n ≤ s.dataAdvertised)
    (charged : (∀ id, (t.conn.stream id).sentZeroRtt = false) → distinctTotal s.conn.sent + n ≤ t.conn.dataSent)
    (early : s.conn.hasAppKeys = false → (t.conn.stream id).Replayable)
    (calling : s.conn.hasAppKeys = false → t.calls = []) : Progress s t := by
  have total : distinctTotal t.conn.sent = distinctTotal s.conn.sent + n := by
    have change := distinctTotal_change id grows.others
    rw [grows.placed, inv.placed id, card_range, card_range] at change
    omega
  refine inv.change params limits grows.terms ?_ ?_ (total ▸ fits) (total ▸ charged) ?_ calling
  · intro other
    by_cases own : other = id
    · rw [own, grows.placed, grows.offset]
    · rw [grows.others other own, grows.streams other own, inv.placed other]
  · intro other
    by_cases own : other = id
    · rw [own, grows.offset]
      exact allowed
    · rw [grows.streams other own]
      exact inv.streams other
  · intro before other
    by_cases own : other = id
    · exact own ▸ early before
    · rw [grows.streams other own]
      exact inv.early before other

theorem Sound.sendRound (inv : s.Sound) {after : QuicFlowSender} {rest : Bytes} {calls : List SendCall}
    (keys : s.conn.hasAppKeys = true) (returned : s.conn.sendRound id data = some (after, rest))
    (meant : id ∈ s.conn.maxStreamDataRemote ∨ s.conn.streamInitialLimitRemote ≤ s.initialLimit id)
    (fits : s.unusedEarly = true ∨ distinctTotal s.conn.sent + data.length ≤ s.dataAdvertised) :
    Progress s { s with conn := after, calls := calls } := by
  have limit := inv.streamSendLimit_le meant
  have maxData := inv.maxData
  have late : s.conn.hasAppKeys = false → False := fun early => by simp [keys] at early
  obtain ⟨n, short, streamLimit, dataLimit, rfl | ⟨grows, dataSent, used⟩⟩ := sendRound_cases inv.placed returned
  · exact ⟨⟨inv.placed, inv.streams, inv.total, fun unused => (inv.charged unused).trans (Nat.le_add_right _ _),
      inv.maxData, inv.limits, inv.early, inv.initial, fun early => (late early).elim⟩, fun _ => le_rfl⟩
  · refine inv.grow (t := { s with conn := after, calls := calls }) rfl rfl grows (by omega) ?_ ?_
      (fun early => (late early).elim) (fun early => (late early).elim)
    · rcases fits with unused | fits
      · have charged := inv.charged ((unusedEarly_iff s).mp unused)
        omega
      · omega
    · intro unused
      have charged := inv.charged fun other => (used other).symm.trans (unused other)
      change _ ≤ after.dataSent
      omega

variable {conn : QuicFlowSender}

variable (inv : s.Sound)
include inv

theorem Sound.sendEarly {sd : QuicStreamSender}
    (present : s.conn.streams[id]? = some sd) (early : s.conn.hasAppKeys = false)
    (allowed : (s.conn.stream id).sendOffset + data.length ≤ s.streamAdvertised id)
    (fits : distinctTotal s.conn.sent + data.length ≤ s.dataAdvertised) {first after : QuicStreamSender}
    (start : first = if sd.sentZeroRtt = true then sd else
      { sd with zeroRttStartOffset := sd.sendOffset, sentZeroRtt := true })
    (loop : QuicFlowSender.sendEarly id data.length data s.conn first = (conn, after)) :
    Progress s { s with conn := conn.setStream id after } := by
  have current := stream_of_present present
  have replayable := inv.early early id
  rw [current] at replayable allowed
  have used : first.sentZeroRtt = true := by
    rw [start]
    split
    · rename_i used
      exact used
    · rfl
  have offset : first.sendOffset = sd.sendOffset := by
    rw [start]
    split <;> rfl
  have kept : first.sendOffset = first.zeroRttStartOffset + first.zeroRttData.length := by
    rw [start]
    unfold QuicStreamSender.Replayable at replayable
    split
    · rename_i used
      rwa [if_pos used] at replayable
    · rename_i unused
      rw [if_neg unused] at replayable
      simp [replayable]
  have spec := sendEarly_spec id data.length data s.conn first (by rw [inv.placed id, current, offset])
  obtain ⟨sent, frames⟩ := sendEarly_frames id data.length data s.conn first
  rw [loop] at spec frames
  obtain rfl := frames
  obtain ⟨placed, others, grows, bounded, sameUsed, sameStart, sameKept⟩ := spec
  dsimp only at placed others grows bounded sameUsed sameStart sameKept
  have newStream (other : Nat) := stream_setStream { s.conn with sent := sent } id other after
  have growth : Grows s.conn ({ s.conn with sent := sent }.setStream id after) id
      (after.sendOffset - first.sendOffset) := by
    have sum : (s.conn.stream id).sendOffset + (after.sendOffset - first.sendOffset) = after.sendOffset := by
      rw [current]
      omega
    refine ⟨rfl, ?_, others, ?_, ?_⟩
    · rw [sum]
      exact placed
    · rw [sum, newStream, if_pos rfl]
    · intro other different
      rw [newStream, if_neg different]
      rfl
  refine inv.grow rfl rfl growth (by rw [current]; omega) (by omega) ?_ ?_ inv.calling
  · intro unused
    have own := unused id
    dsimp only at own
    rw [newStream, if_pos rfl, sameUsed, used] at own
    cases own
  · intro _
    dsimp only
    rw [newStream, if_pos rfl, QuicStreamSender.Replayable, if_pos (sameUsed.trans used)]
    omega

theorem Sound.withAppKeys : Sound { s with conn := s.conn.withAppKeys s.params } where
  placed := inv.placed
  streams := inv.streams
  total := inv.total
  charged := inv.charged
  maxData := initial_le_largestData _ _
  limits := inv.limits
  early early := by cases early
  initial early := by cases early
  calling early := by cases early

theorem Sound.takeAppKeys_same (early : s.conn.hasAppKeys = false) (earlyDataAccepted : Bool) :
    SameAccounts (s.conn.withAppKeys s.params) (s.conn.takeAppKeys s.params earlyDataAccepted) := by
  unfold QuicFlowSender.takeAppKeys
  dsimp only
  split
  · have replayed :=
      replayAll_same (s.conn.withAppKeys s.params).streams.keys (s.conn.withAppKeys s.params) (keys_nodup _)
      rfl inv.withAppKeys.placed (by
      intro id _ used
      have replayable := inv.early early id
      rw [QuicStreamSender.Replayable, if_pos (show (s.conn.stream id).sentZeroRtt = true from used)] at replayable
      exact replayable)
    exact ⟨replayed.terms, replayed.dataSent, replayed.offsets, replayed.streams⟩
  · exact .refl _

theorem Sound.onMaxData (maxData : Nat) :
    Progress s { s with conn := s.conn.onMaxData maxData, limits := { type := .maxData, maxData } :: s.limits } := by
  set t : SendWorld := { s with
    conn := s.conn.onMaxData maxData, limits := { type := .maxData, maxData } :: s.limits } with tIs
  obtain ⟨limit, limitIs, conn⟩ : ∃ limit, limit ≤ max maxData s.conn.maxDataRemote ∧
      s.conn.onMaxData maxData = { s.conn with maxDataRemote := limit } := by
    unfold QuicFlowSender.onMaxData
    split
    · exact ⟨maxData, le_max_left _ _, rfl⟩
    · exact ⟨s.conn.maxDataRemote, le_max_right _ _, rfl⟩
  have data : t.dataAdvertised = max maxData s.dataAdvertised := rfl
  have streams (id : Nat) : t.streamAdvertised id = s.streamAdvertised id := by
    have isClient : t.initialLimit id = s.initialLimit id := by
      simp only [tIs, initialLimit, conn]
    rw [streamAdvertised, isClient, tIs, QuicReceiver.largestLimit, if_neg (by simp)]
    rfl
  have less := inv.maxData
  have total := inv.total
  simp only [tIs, conn] at streams data ⊢
  refine ⟨?_, fun _ => le_rfl⟩
  constructor
  · exact inv.placed
  · exact fun id => (streams id).symm ▸ inv.streams id
  · rw [data]
    exact total.trans (le_max_right _ _)
  · exact inv.charged
  · rw [data]
    dsimp only
    omega
  · exact fun id v told => (streams id).symm ▸ inv.limits id v told
  · exact inv.early
  · exact inv.initial
  · exact inv.calling

theorem Sound.onMaxStreamData (id maxData : Nat) :
    Sound { s with
      conn := s.conn.onMaxStreamData id maxData
      limits := { type := .maxStreamData, streamId := id, maxData } :: s.limits } := by
  set t : SendWorld := { s with
    conn := s.conn.onMaxStreamData id maxData
    limits := { type := .maxStreamData, streamId := id, maxData } :: s.limits } with tIs
  have streams (other : Nat) : t.streamAdvertised other =
      if id = other then max maxData (s.streamAdvertised other) else s.streamAdvertised other := by
    have initial : t.initialLimit other = s.initialLimit other := rfl
    rw [streamAdvertised, initial, tIs, QuicReceiver.largestLimit]
    simp only [true_and]
    rfl
  have more (other : Nat) : s.streamAdvertised other ≤ t.streamAdvertised other := by
    rw [streams]
    split
    · exact le_max_right _ _
    · exact le_rfl
  constructor
  · exact inv.placed
  · exact fun other => (inv.streams other).trans (more other)
  · exact inv.total
  · exact inv.charged
  · exact inv.maxData
  · intro other v told
    have entry := NatMap.getElem?_insert s.conn.maxStreamDataRemote id other
      (if maxData > s.conn.maxStreamDataRemote[id]?.getD 0 then maxData else s.conn.maxStreamDataRemote[id]?.getD 0)
    have found := entry.symm.trans told
    by_cases own : other = id
    · subst own
      rw [if_pos rfl] at found
      have before : s.conn.maxStreamDataRemote[other]?.getD 0 ≤ s.streamAdvertised other := by
        rcases present : s.conn.maxStreamDataRemote[other]? with _ | w
        · exact Nat.zero_le _
        · exact inv.limits other w present
      rw [streams, if_pos rfl, ← some.inj found]
      split
      · exact le_max_left _ _
      · exact before.trans (le_max_right _ _)
    · rw [if_neg own] at found
      exact (inv.limits other v found).trans (more other)
  · exact inv.early
  · exact inv.initial
  · exact inv.calling

theorem Sound.send (respects : s.respectsLimits (.send id data) = true)
    (stepped : s.send id data = some t) : Progress s t := by
  obtain ⟨sd, present, rfl⟩ := map_eq_some_iff.mp stepped
  split
  · exact inv.idle
  split
  · rename_i early
    simp only [respectsLimits, early.2.1, early.2.2, show s.conn.hasAppKeys = false by simpa using early.1,
      Bool.not_true, Bool.false_or, Bool.and_eq_true, decide_eq_true_eq] at respects
    exact inv.sendEarly present (by simpa using early.1) respects.1 respects.2 rfl rfl
  split
  · exact inv.idle
  · rename_i keys
    exact inv.same (.refl _) rfl rfl fun early => by simp [early] at keys

theorem Sound.close (stepped : s.close id = some t) : Progress s t := by
  obtain ⟨sd, present, rfl⟩ := map_eq_some_iff.mp stepped
  split
  · exact inv.idle
  split
  · rcases s.conn.putFrame_cases (streamFrame id sd.sendOffset [] true) with failed | worked
    · rw [failed]
      exact inv.idle
    · have same := SameAccounts.fin s.conn id sd.sendOffset
      rw [worked] at same ⊢
      exact inv.same (same.trans (.setFin _ id)) rfl rfl inv.calling
  split
  · exact inv.same (.setFin _ id) rfl rfl inv.calling
  · rename_i keys
    exact inv.same (.refl _) rfl rfl fun early => by simp [early] at keys

theorem Sound.keys_of_call {call : SendCall} (pending : s.calls[k]? = some call) :
    s.conn.hasAppKeys = true := by
  by_contra early
  simp [inv.calling (by simpa using early)] at pending

theorem Sound.resume (respects : s.respectsLimits (.resume k) = true)
    (stepped : s.resume k = some t) : Progress s t := by
  rcases pending : s.calls[k]? with _ | call
  · simp [SendWorld.resume, pending] at stepped
  have keys := inv.keys_of_call pending
  have late : ∀ {calls : List SendCall}, s.conn.hasAppKeys = false → calls = [] := fun early => by simp [keys] at early
  simp only [SendWorld.resume, pending] at stepped
  cases call with
  | send id data =>
    dsimp only at stepped
    split at stepped
    · cases stepped
      exact inv.same (.refl _) rfl rfl late
    · obtain ⟨⟨after, rest⟩, returned, rfl⟩ := map_eq_some_iff.mp stepped
      simp only [respectsLimits, pending, Bool.and_eq_true, Bool.or_eq_true, decide_eq_true_eq] at respects
      exact inv.sendRound keys returned respects.1 respects.2
  | close id =>
    obtain ⟨_, rest⟩ := ite_none_left_eq_some.mp stepped
    cases rest
    exact inv.same (.fin _ id _) rfl rfl late
  | drain id =>
    cases stepped
    exact inv.same (.setFin _ id) rfl rfl late

theorem Sound.giveUp (stepped : s.giveUp k = some t) : Progress s t := by
  rcases pending : s.calls[k]? with _ | call
  · simp [SendWorld.giveUp, pending] at stepped
  have keys := inv.keys_of_call pending
  have late : ∀ {calls : List SendCall}, s.conn.hasAppKeys = false → calls = [] := fun early => by simp [keys] at early
  simp only [SendWorld.giveUp, pending] at stepped
  cases call with
  | send id data =>
    cases stepped
    exact inv.same (.refl _) rfl rfl late
  | close id =>
    cases stepped
    exact inv.same (.setFin _ id) rfl rfl late
  | drain id =>
    cases stepped
    exact inv.same (.setFin _ id) rfl rfl late

theorem Sound.limit_le_appKeys (early : s.conn.hasAppKeys = false) (earlyDataAccepted : Bool) (id : Nat) :
    s.conn.streamSendLimit id ≤ (s.conn.takeAppKeys s.params earlyDataAccepted).streamSendLimit id := by
  have limits : (s.conn.takeAppKeys s.params earlyDataAccepted).maxStreamDataRemote = s.conn.maxStreamDataRemote :=
    congrArg (·.2.2.2.1) (inv.takeAppKeys_same early earlyDataAccepted).terms
  unfold streamSendLimit
  rw [limits, inv.initial early]
  cases s.conn.maxStreamDataRemote[id]? with
  | none => exact Nat.zero_le _
  | some v => exact le_rfl

omit inv

/-- A frame for a stream that has no entry yet replaces the transport parameter. -/
theorem limit_le_onMaxStreamData {maxData : Nat}
    (respects : id ∈ conn.maxStreamDataRemote ∨ conn.streamInitialLimitRemote ≤ maxData) (other : Nat) :
    conn.streamSendLimit other ≤ (conn.onMaxStreamData id maxData).streamSendLimit other := by
  unfold streamSendLimit QuicFlowSender.onMaxStreamData
  dsimp only
  rw [NatMap.getElem?_insert]
  by_cases own : other = id
  · subst own
    rw [if_pos rfl, getD_some]
    rcases told : conn.maxStreamDataRemote[other]? with _ | v
    · have untold : other ∉ conn.maxStreamDataRemote := by simpa using told
      have above := respects.resolve_left untold
      simp only [getD_none]
      split <;> omega
    · simp only [getD_some]
      split <;> omega
  · rw [if_neg own]

theorem Sound.step (inv : s.Sound) {e : SendWorldEvent} (respects : s.respectsLimits e = true)
    (stepped : s.step e = some t) : Progress s t := by
  cases e with
  | openStream id =>
    obtain ⟨absent, rest⟩ := ite_none_left_eq_some.mp stepped
    cases rest
    have missing : s.conn.streams[id]? = none := by simpa using absent
    have blank : s.conn.stream id = {} := by
      rw [stream, missing]
      rfl
    exact inv.same (.setStream s.conn (blank ▸ .refl _)) rfl rfl inv.calling
  | earlyKeys =>
    cases stepped
    exact ⟨⟨inv.placed, inv.streams, inv.total, inv.charged, inv.maxData, inv.limits, inv.early, inv.initial,
      inv.calling⟩,
      fun _ => le_rfl⟩
  | appKeys earlyDataAccepted =>
    obtain ⟨early, rest⟩ := ite_none_left_eq_some.mp stepped
    cases rest
    have early' : s.conn.hasAppKeys = false := by simpa using early
    have after : Progress _ { s with conn := s.conn.takeAppKeys s.params earlyDataAccepted } :=
      inv.withAppKeys.same (inv.takeAppKeys_same early' earlyDataAccepted) rfl rfl nofun
    exact ⟨after.sound, inv.limit_le_appKeys early' earlyDataAccepted⟩
  | maxData maxData =>
    cases stepped
    exact inv.onMaxData maxData
  | maxStreamData id maxData =>
    cases stepped
    simp only [respectsLimits, Bool.or_eq_true, decide_eq_true_eq] at respects
    exact ⟨inv.onMaxStreamData id maxData, limit_le_onMaxStreamData respects⟩
  | send id data => exact inv.send respects stepped
  | close id => exact inv.close stepped
  | reset id =>
    obtain ⟨sd, present, rfl⟩ := map_eq_some_iff.mp stepped
    exact inv.same (.setStream s.conn (stream_of_present present ▸ ⟨rfl, rfl, fun _ ready => ready⟩))
      rfl rfl inv.calling
  | resume k => exact inv.resume respects stepped
  | giveUp k => exact inv.giveUp stepped

end SendWorld

def sendWorldSystem : System SendWorld SendWorldEvent :=
  .ofStep (fun s => ∃ isClient params, s = { conn := { isClient }, params }) SendWorld.step

theorem sender_within_limits {history : List (SendWorld × SendWorldEvent)} {t : SendWorld}
    (run : Run sendWorldSystem history t)
    (respects : ∀ entry ∈ history, entry.1.respectsLimits entry.2 = true) :
    t.Within ∧ ∀ entry ∈ history, ∀ after, entry.1.step entry.2 = some after →
      ∀ id, entry.1.conn.streamSendLimit id ≤ after.conn.streamSendLimit id := by
  have start : ∀ s, sendWorldSystem.start s → s.Sound := by
    rintro s ⟨isClient, params, rfl⟩
    refine ⟨fun id => ?_, fun id => ?_, Nat.zero_le _, fun _ => le_rfl, Nat.zero_le _, ?_, fun _ id => ?_, fun _ => rfl,
      fun _ => rfl⟩
    · simp [QuicFlowSender.stream, offsetsOf]
    · simp [QuicFlowSender.stream]
    · intro id v told
      simp at told
    · simp [QuicFlowSender.stream, QuicStreamSender.Replayable]
  have sound : ∀ s, Visited history t s → s.Sound := fun s visited =>
    run.visited_of_guard (fun s e => s.respectsLimits e = true) respects start
      (fun _ _ _ inv respects stepped => (inv.step respects stepped).sound) visited
  refine ⟨(sound t (.inl rfl)).within, ?_⟩
  intro entry member after stepped id
  exact ((sound entry.1 (.inr ⟨entry.2, member⟩)).step (respects entry member) stepped).limits id

/-- A client sends two bytes as 0-RTT data, which the server rejects, and three more bytes once
the peer has raised its limits. -/
def replayed : List SendWorldEvent :=
  [.openStream 0, .earlyKeys, .send 0 [1, 2], .appKeys false, .maxStreamData 0 8, .maxData 12, .send 0 [3, 4, 5],
    .resume 0,
    .resume 0]

theorem sender_within_limits_replayed :
    ∃ history t, Run sendWorldSystem history t ∧ history.map Prod.snd = replayed.reverse ∧
      (offsetsOf 0 t.conn.sent).card = 5 ∧ t.conn.sent.length = 3 ∧ t.Within := by
  obtain ⟨history, t, run, labels, guarded, bytes, frames⟩ :=
    Run.of_exec_guarded sendWorldSystem SendWorld.respectsLimits rfl replayed
      ⟨true, { initialMaxData := 10, initialMaxStreamDataBidiRemote := 5 }, rfl⟩
      (fun t => (offsetsOf 0 t.conn.sent).card = 5 ∧ t.conn.sent.length = 3) (by decide +kernel)
  exact ⟨history, t, run, labels, bytes, frames, (sender_within_limits run guarded).1⟩

/-- A client sends two bytes as 0-RTT data, and three bytes on another stream afterwards. -/
def earlyUncharged : List SendWorldEvent :=
  [.openStream 0, .openStream 4, .earlyKeys, .send 0 [1, 2], .appKeys true, .send 4 [1, 2, 3], .resume 0]

def unidirectional : List SendWorldEvent := [.openStream 2, .appKeys true, .send 2 [1], .resume 0]

/-- 0-RTT data is not charged, a unidirectional stream is limited by the parameter for
bidirectional ones, and the first MAX_STREAM_DATA frame lowers the limit of its stream. -/
theorem sender_beyond_limits :
    (∃ history t, Run sendWorldSystem history t ∧ history.map Prod.snd = earlyUncharged.reverse ∧
      t.dataAdvertised < distinctTotal t.conn.sent) ∧
    (∃ history t, Run sendWorldSystem history t ∧ history.map Prod.snd = unidirectional.reverse ∧
      t.streamAdvertised 2 < (offsetsOf 2 t.conn.sent).card) ∧
    ∃ history t after, Run sendWorldSystem history t ∧ t.step (.maxStreamData 0 1) = some after ∧
      after.conn.streamSendLimit 0 < t.conn.streamSendLimit 0 := by
  refine ⟨?_, ?_, ?_⟩
  · exact Run.of_exec sendWorldSystem rfl earlyUncharged
      ⟨true, { initialMaxData := 3, initialMaxStreamDataBidiRemote := 3 }, rfl⟩
      (fun t => t.dataAdvertised < distinctTotal t.conn.sent) (by decide +kernel)
  · exact Run.of_exec sendWorldSystem rfl unidirectional
      ⟨true, { initialMaxData := 3, initialMaxStreamDataBidiRemote := 3 }, rfl⟩
      (fun t => t.streamAdvertised 2 < (offsetsOf 2 t.conn.sent).card) (by decide +kernel)
  · obtain ⟨history, t, run, -, lowered⟩ :=
      Run.of_exec sendWorldSystem rfl [.openStream 0, .appKeys true]
        ⟨true, { initialMaxData := 3, initialMaxStreamDataBidiRemote := 3 }, rfl⟩
        (fun t => (t.conn.onMaxStreamData 0 1).streamSendLimit 0 < t.conn.streamSendLimit 0) (by decide +kernel)
    exact ⟨history, t, _, run, rfl, lowered⟩

end Qtng
