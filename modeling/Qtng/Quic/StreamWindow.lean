import Qtng.Quic.Stream

namespace Qtng

open BigEndian Transition QuicReceiver List Option Function

namespace QuicStreamPrivate

theorem drain_consumed (rounds : Nat) (sd : QuicStreamPrivate) : (drain rounds sd).consumed = sd.consumed := by
  induction rounds generalizing sd with
  | zero => rfl
  | succ rounds ih =>
    unfold drain
    split
    · rfl
    · rw [ih]
      unfold consumed
      dsimp only
      rw [length_append]
      omega

theorem receive_consumed (sd : QuicStreamPrivate) (frame : QuicFrame) : (sd.receive frame).consumed = sd.consumed := by
  have reassembled : (sd.reassemble frame).consumed = sd.consumed := by
    unfold reassemble
    dsimp only
    split
    · exact drain_consumed _ _
    · rfl
  have noted : ((sd.reassemble frame).noteFin frame).consumed = (sd.reassemble frame).consumed := by
    unfold noteFin
    split <;> rfl
  have declared : (sd.receive frame).consumed = ((sd.reassemble frame).noteFin frame).consumed := by
    unfold receive declareFin
    split <;> rfl
  rw [declared, noted, reassembled]

theorem consume_consumed (sd : QuicStreamPrivate) (n : Nat) :
    (sd.consume n).consumed = sd.consumed + (sd.recvBuf.take n).length := by
  have buffered := sd.buffered
  unfold consumed consume
  simp only [length_drop, length_take]
  omega

theorem length_take_readable (sd : QuicStreamPrivate) (size : Int) :
    (sd.recvBuf.take (sd.readable size).toNat).length = (sd.readable size).toNat := by
  have cast : Int.bmod sd.recvBuf.length (2 ^ 32) ≤ sd.recvBuf.length := by
    unfold Int.bmod
    dsimp only
    split <;> omega
  unfold readable
  rw [length_take]
  omega

end QuicStreamPrivate

namespace QuicReceiver

variable {conn after : QuicReceiver} {id other : Nat}
variable {frame : QuicFrame} {sd : QuicStreamPrivate}

def largestLimit (initial id : Nat) : List QuicFrame → Nat
  | [] => initial
  | frame :: earlier =>
    if frame.type = .maxStreamData ∧ frame.streamId = id then max frame.maxData (largestLimit initial id earlier)
    else largestLimit initial id earlier

def advertised (conn : QuicReceiver) (id : Nat) : Nat := largestLimit conn.config.m_maxStreamData id conn.sent

theorem initial_le_largestLimit (initial id : Nat) (sent : List QuicFrame) :
    initial ≤ largestLimit initial id sent := by
  induction sent with
  | nil => exact le_rfl
  | cons frame earlier ih =>
    unfold largestLimit
    split
    · exact ih.trans (le_max_right _ _)
    · exact ih

def rejects (conn : QuicReceiver) (frame : QuicFrame) : Prop :=
  ({ conn with transportErrorCode := QuicErrNoError }.onStreamFrame frame).transportErrorCode = QuicErrFlowControlError

theorem rejects_iff (opened : frame.streamId ∈ conn.streams) :
    conn.rejects frame ↔ conn.maxStreamDataLocal < frame.endOffset := by
  obtain ⟨sd, present⟩ := isSome_iff_exists.mp (Std.ExtTreeMap.mem_iff_isSome_getElem?.mp opened)
  unfold rejects onStreamFrame getOrCreateStream
  simp only [present]
  split_ifs with above
  · exact iff_of_true rfl above
  · exact iff_of_false (by simp [setStream, QuicErrNoError, QuicErrFlowControlError]) (by omega)

theorem rejects_exactly_iff (opened : id ∈ conn.streams) :
    (∀ frame : QuicFrame, frame.streamId = id → (conn.rejects frame ↔ conn.advertised id < frame.endOffset)) ↔
      conn.maxStreamDataLocal = conn.advertised id := by
  constructor
  · intro exactly
    -- two empty frames that end at the one and at the other limit
    have first := exactly { type := .stream, streamId := id, offset := conn.advertised id } rfl
    have second := exactly { type := .stream, streamId := id, offset := conn.maxStreamDataLocal } rfl
    rw [rejects_iff opened] at first second
    simp only [QuicFrame.endOffset, length_nil, Nat.add_zero] at first second
    omega
  · intro same frame own
    rw [rejects_iff (own ▸ opened), same]

def Told (conn : QuicReceiver) : Prop := ∀ id ∈ conn.streams, conn.maxStreamDataLocal = conn.advertised id

/-- The common limit stays when a stream has consumed so many bytes, or no other
stream is open and the new limit can be sent. -/
def raisesAlone (conn : QuicReceiver) (id consumed : Nat) : Prop :=
  consumed + conn.streamWindow ≤ conn.maxStreamDataLocal ∨
    conn.hasAppKeys = true ∧ id < 2 ^ 62 ∧ consumed + conn.streamWindow < 2 ^ 62 ∧
      ∀ other ∈ conn.streams.keys, other = id

instance (conn : QuicReceiver) (id consumed : Nat) : Decidable (conn.raisesAlone id consumed) :=
  inferInstanceAs (Decidable (_ ∨ _))

theorem maxStreamData_encodes (id limit : Nat) :
    (quicEncodeFrame { type := .maxStreamData, streamId := id, maxData := limit }).isSome ↔
      id < 2 ^ 62 ∧ limit < 2 ^ 62 := by
  rw [← quicEncodeVarint_isSome_iff, ← quicEncodeVarint_isSome_iff]
  unfold quicEncodeFrame
  dsimp only
  cases quicEncodeVarint id <;> cases quicEncodeVarint limit <;> simp

theorem sendFrame_maxStreamDataLocal (conn : QuicReceiver) (frame : QuicFrame) :
    (conn.sendFrame frame).maxStreamDataLocal = conn.maxStreamDataLocal := by
  unfold sendFrame
  split <;> rfl

theorem advertised_sendFrame (conn : QuicReceiver) (id other limit : Nat) :
    (conn.sendFrame { type := .maxStreamData, streamId := id, maxData := limit }).advertised other =
      if other = id ∧ conn.hasAppKeys = true ∧ id < 2 ^ 62 ∧ limit < 2 ^ 62 then max limit (conn.advertised other)
      else conn.advertised other := by
  have encodes := maxStreamData_encodes id limit
  unfold sendFrame
  by_cases sent : (id < 2 ^ 62 ∧ limit < 2 ^ 62) ∧ conn.hasAppKeys = true
  · rw [if_pos ⟨encodes.mpr sent.1, sent.2⟩]
    by_cases own : other = id
    · rw [if_pos ⟨own, sent.2, sent.1⟩]
      simp [advertised, largestLimit, own]
    · rw [if_neg (fun told => own told.1)]
      simp [advertised, largestLimit, Ne.symm own]
  · rw [if_neg (fun both => sent ⟨encodes.mp both.1, both.2⟩), if_neg (fun told => sent ⟨told.2.2, told.2.1⟩)]

theorem maybeIncreaseMaxStreamData_cases (opened : id ∈ conn.streams) :
    (conn.stream id).consumed + conn.streamWindow ≤ conn.maxStreamDataLocal ∧
        conn.maybeIncreaseMaxStreamData id = conn ∨
      conn.maxStreamDataLocal < (conn.stream id).consumed + conn.streamWindow ∧
        (conn.maybeIncreaseMaxStreamData id).maxStreamDataLocal = (conn.stream id).consumed + conn.streamWindow ∧
        ∀ other, (conn.maybeIncreaseMaxStreamData id).advertised other =
          if other = id ∧ conn.hasAppKeys = true ∧ id < 2 ^ 62 ∧
            (conn.stream id).consumed + conn.streamWindow < 2 ^ 62 then
            max ((conn.stream id).consumed + conn.streamWindow) (conn.advertised other)
          else conn.advertised other := by
  obtain ⟨sd, present⟩ := isSome_iff_exists.mp (Std.ExtTreeMap.mem_iff_isSome_getElem?.mp opened)
  have current : conn.stream id = sd := by simp [stream, present]
  unfold maybeIncreaseMaxStreamData
  simp only [present, current]
  split_ifs with above
  · exact .inr ⟨above, sendFrame_maxStreamDataLocal _ _, fun other => advertised_sendFrame _ id other _⟩
  · exact .inl ⟨by omega, rfl⟩

/-- Consumption on one stream keeps all streams told exactly if the limit need not
change or no other stream is open. -/
theorem told_maybeIncrease_iff (opened : id ∈ conn.streams) (told : conn.Told) :
    (conn.maybeIncreaseMaxStreamData id).Told ↔ conn.raisesAlone id (conn.stream id).consumed := by
  obtain ⟨enough, same⟩ | ⟨above, limit, after⟩ := maybeIncreaseMaxStreamData_cases opened
  · rw [same]
    exact iff_of_true told (.inl enough)
  · unfold Told raisesAlone
    simp only [maybeIncreaseMaxStreamData_streams, limit, after, Std.ExtTreeMap.mem_keys]
    constructor
    · intro all
      right
      have before := told id opened
      have own := all id opened
      split_ifs at own with sent
      · refine ⟨sent.2.1, sent.2.2.1, sent.2.2.2, ?_⟩
        intro other member
        by_contra different
        have elsewhere := all other member
        rw [if_neg (fun same => different same.1), ← told other member] at elsewhere
        omega
      · omega
    · intro allowed other member
      obtain enough | ⟨keys, idBound, limitBound, alone⟩ := allowed
      · omega
      · have before := told other member
        rw [if_pos ⟨alone other member, keys, idBound, limitBound⟩]
        omega

structure SameLimits (conn after : QuicReceiver) : Prop where
  config : after.config = conn.config
  keys : after.hasAppKeys = conn.hasAppKeys
  limit : after.maxStreamDataLocal = conn.maxStreamDataLocal
  advertised : ∀ id, after.advertised id = conn.advertised id

theorem SameLimits.setStream (conn : QuicReceiver) (id : Nat) (sd : QuicStreamPrivate) :
    SameLimits conn (conn.setStream id sd) :=
  ⟨rfl, rfl, rfl, fun _ => rfl⟩

theorem SameLimits.maybeIncreaseMaxData (conn : QuicReceiver) : SameLimits conn conn.maybeIncreaseMaxData := by
  unfold QuicReceiver.maybeIncreaseMaxData
  dsimp only
  split
  · unfold sendFrame
    split
    · exact ⟨rfl, rfl, rfl, fun id => by simp [QuicReceiver.advertised, largestLimit]⟩
    · exact ⟨rfl, rfl, rfl, fun _ => rfl⟩
  · exact ⟨rfl, rfl, rfl, fun _ => rfl⟩

theorem Opened.sameLimits (opened : Opened conn id after) : SameLimits conn after := by
  cases opened with
  | before => exact ⟨rfl, rfl, rfl, fun _ => rfl⟩
  | now => exact .setStream conn id {}

theorem SameLimits.onStreamFrame (conn : QuicReceiver) (frame : QuicFrame) :
    SameLimits conn (conn.onStreamFrame frame) := by
  have outcome := conn.onStreamFrame_cases frame
  generalize conn.onStreamFrame frame = after at outcome ⊢
  cases outcome with
  | refused => exact ⟨rfl, rfl, rfl, fun _ => rfl⟩
  | exceeding opened =>
    have same := opened.sameLimits
    exact ⟨same.config, same.keys, same.limit, same.advertised⟩
  | received opened =>
    have same := opened.sameLimits
    exact ⟨same.config, same.keys, same.limit, same.advertised⟩

theorem mem_setStream :
    other ∈ (conn.setStream id sd).streams ↔ other = id ∨ other ∈ conn.streams :=
  NatMap.mem_insert

theorem mem_setStream_of_mem (sd : QuicStreamPrivate) (opened : id ∈ conn.streams)
    (other : Nat) : other ∈ (conn.setStream id sd).streams ↔ other ∈ conn.streams := by
  refine mem_setStream.trans ⟨?_, .inr⟩
  rintro (same | old)
  · exact same ▸ opened
  · exact old

theorem Opened.mem_streams (opened : Opened conn id after) :
    other ∈ after.streams ↔ other ∈ conn.streams ∨ other = id ∧ conn.tooManyStreams id = false := by
  cases opened with
  | before member =>
    constructor
    · exact .inl
    · rintro (old | ⟨same, _⟩)
      · exact old
      · exact same ▸ member
  | now _ allowed =>
    rw [mem_setStream, or_comm]
    simp [allowed]

theorem Opened.self_mem (opened : Opened conn id after) : id ∈ after.streams := by
  cases opened with
  | before member => exact member
  | now => exact mem_setStream.mpr (.inl rfl)

theorem mem_onStreamFrame :
    id ∈ (conn.onStreamFrame frame).streams ↔
      id ∈ conn.streams ∨ id = frame.streamId ∧ conn.tooManyStreams frame.streamId = false := by
  have outcome := conn.onStreamFrame_cases frame
  generalize conn.onStreamFrame frame = after at outcome ⊢
  cases outcome with
  | refused _ tooMany =>
    simp only [tooMany, Bool.true_eq_false, and_false, or_false]
    rfl
  | exceeding opened => exact opened.mem_streams
  | received opened =>
    rw [← opened.mem_streams]
    exact mem_setStream_of_mem _ opened.self_mem id

/-- What the application has read of a stream either lies within the common limit
with a whole window to spare, or below the initial limit. -/
def Reopened (conn : QuicReceiver) : Prop :=
  ∀ id ∈ conn.streams, (conn.stream id).consumed ≠ 0 →
    (conn.stream id).consumed + conn.streamWindow ≤ conn.maxStreamDataLocal ∨
      (conn.stream id).consumed < conn.config.m_maxStreamData

theorem SameLimits.streamWindow (same : SameLimits conn after) :
    after.streamWindow = conn.streamWindow := by
  unfold QuicReceiver.streamWindow
  rw [same.config]

theorem SameLimits.told_iff (same : SameLimits conn after)
    (members : ∀ id, id ∈ after.streams ↔ id ∈ conn.streams) : after.Told ↔ conn.Told := by
  unfold Told
  simp only [members, same.limit, same.advertised]

theorem maybeIncreaseMaxStreamData_of_unopened (unopened : id ∉ conn.streams) :
    conn.maybeIncreaseMaxStreamData id = conn := by
  have absent : conn.streams[id]? = none := by simpa using unopened
  simp only [maybeIncreaseMaxStreamData, absent]

theorem maybeIncreaseMaxStreamData_same (conn : QuicReceiver) (id : Nat) :
    (conn.maybeIncreaseMaxStreamData id).config = conn.config ∧
      (conn.maybeIncreaseMaxStreamData id).hasAppKeys = conn.hasAppKeys := by
  unfold maybeIncreaseMaxStreamData
  split
  · exact ⟨rfl, rfl⟩
  · split
    · unfold sendFrame
      split <;> exact ⟨rfl, rfl⟩
    · exact ⟨rfl, rfl⟩

theorem stream_maybeIncrease (conn : QuicReceiver) (id other : Nat) :
    (conn.maybeIncreaseMaxStreamData id).stream other = conn.stream other := by
  simp [stream]

theorem reopened_maybeIncrease (opened : id ∈ conn.streams)
    (others : ∀ other ∈ conn.streams, other ≠ id → (conn.stream other).consumed ≠ 0 →
      (conn.stream other).consumed + conn.streamWindow ≤ conn.maxStreamDataLocal ∨
        (conn.stream other).consumed < conn.config.m_maxStreamData) :
    (conn.maybeIncreaseMaxStreamData id).Reopened := by
  have config := (conn.maybeIncreaseMaxStreamData_same id).1
  have window : (conn.maybeIncreaseMaxStreamData id).streamWindow = conn.streamWindow := by
    unfold streamWindow
    rw [config]
  have limits : (conn.stream id).consumed + conn.streamWindow ≤
      (conn.maybeIncreaseMaxStreamData id).maxStreamDataLocal ∧
      conn.maxStreamDataLocal ≤ (conn.maybeIncreaseMaxStreamData id).maxStreamDataLocal := by
    obtain ⟨enough, same⟩ | ⟨above, limit, _⟩ := maybeIncreaseMaxStreamData_cases opened
    · rw [same]
      exact ⟨enough, le_rfl⟩
    · rw [limit]
      exact ⟨le_rfl, above.le⟩
  intro other member read
  rw [maybeIncreaseMaxStreamData_streams] at member
  rw [stream_maybeIncrease] at read ⊢
  rw [window, config]
  by_cases own : other = id
  · subst own
    exact .inl limits.1
  · rcases others other member own read with enough | early
    · exact .inl (by omega)
    · exact .inr early

theorem SameLimits.reopened_iff (same : SameLimits conn after)
    (streams : after.streams = conn.streams) : after.Reopened ↔ conn.Reopened := by
  unfold Reopened stream
  rw [streams, same.streamWindow, same.limit, same.config]

theorem slideWindows_iff (opened : id ∈ conn.streams) (told : conn.Told)
    (others : ∀ other ∈ conn.streams, other ≠ id → (conn.stream other).consumed ≠ 0 →
      (conn.stream other).consumed + conn.streamWindow ≤ conn.maxStreamDataLocal ∨
        (conn.stream other).consumed < conn.config.m_maxStreamData) :
    (conn.slideWindows id).Told ∧ (conn.slideWindows id).Reopened ↔
      if conn.hasAppKeys then conn.raisesAlone id (conn.stream id).consumed
      else (conn.stream id).consumed ≠ 0 →
        (conn.stream id).consumed + conn.streamWindow ≤ conn.maxStreamDataLocal ∨
          (conn.stream id).consumed < conn.config.m_maxStreamData := by
  unfold slideWindows
  split
  · have same := SameLimits.maybeIncreaseMaxData (conn.maybeIncreaseMaxStreamData id)
    rw [same.told_iff (by simp), same.reopened_iff (by simp), ← told_maybeIncrease_iff opened told]
    exact and_iff_left (reopened_maybeIncrease opened others)
  · rw [and_iff_right told]
    constructor
    · intro reopened
      exact reopened id opened
    · intro own other member
      by_cases same : other = id
      · exact same ▸ own
      · exact others other member same

theorem raisesAlone_setStream {consumed : Nat} (opened : id ∈ conn.streams) :
    (conn.setStream id sd).raisesAlone id consumed ↔ conn.raisesAlone id consumed := by
  unfold raisesAlone
  simp only [Std.ExtTreeMap.mem_keys, mem_setStream_of_mem sd opened]
  rfl

theorem advertised_maybeIncrease_of_ne (conn : QuicReceiver) (different : other ≠ id) :
    (conn.maybeIncreaseMaxStreamData id).advertised other = conn.advertised other := by
  by_cases opened : id ∈ conn.streams
  · obtain ⟨_, same⟩ | ⟨_, _, after⟩ := maybeIncreaseMaxStreamData_cases opened
    · rw [same]
    · rw [after, if_neg (fun own => different own.1)]
  · rw [maybeIncreaseMaxStreamData_of_unopened opened]

theorem slideWindows_of_ne (conn : QuicReceiver) (different : other ≠ id) :
    (conn.slideWindows id).advertised other = conn.advertised other ∧ (conn.slideWindows id).config = conn.config := by
  unfold slideWindows
  split
  · have same := SameLimits.maybeIncreaseMaxData (conn.maybeIncreaseMaxStreamData id)
    rw [same.advertised, same.config, conn.advertised_maybeIncrease_of_ne different,
      (conn.maybeIncreaseMaxStreamData_same id).1]
    exact ⟨rfl, rfl⟩
  · exact ⟨rfl, rfl⟩

end QuicReceiver

namespace ReceiveWorld

variable {bytes : Bytes} {after : QuicReceiver} {size n : Int} {id : Nat} {e : ReceiveEvent}

structure Accounted (s : ReceiveWorld) : Prop where
  unopened : ∀ id ∉ s.conn.streams, s.conn.advertised id = s.conn.config.m_maxStreamData
  counted : ∀ id, (s.delivered id).length = (s.conn.stream id).consumed

/-- On each open stream a frame is rejected exactly if it exceeds what the peer has
been told for this stream, and what the peer has been told leaves it a window beyond
the bytes read, or at least the initial limit if less than that has been read. -/
def Independent (s : ReceiveWorld) : Prop :=
  ∀ id ∈ s.conn.streams,
    (∀ frame : QuicFrame, frame.streamId = id → (s.conn.rejects frame ↔ s.conn.advertised id < frame.endOffset)) ∧
    ((s.delivered id).length ≠ 0 →
      (s.delivered id).length + max s.conn.config.m_maxStreamData (256 * 1024) ≤ s.conn.advertised id ∨
        (s.delivered id).length < s.conn.config.m_maxStreamData ∧ s.conn.config.m_maxStreamData ≤ s.conn.advertised id)

/-- A stream is opened while the common limit is still the initial one. The limit is
raised only while a single stream is open and if the new limit can be sent. Before
the 1-RTT keys are there the application reads less than the initial limit, or has
a window to spare. -/
def keepsLimits (s : ReceiveWorld) : ReceiveEvent → Bool
  | .streamFrame frame =>
    frame.streamId ∈ s.conn.streams ∨ s.conn.tooManyStreams frame.streamId = true ∨
      s.conn.maxStreamDataLocal = s.conn.config.m_maxStreamData
  | .streamDataBlocked id => id ∈ s.conn.streams → s.conn.raisesAlone id (s.conn.stream id).consumed
  | .recv id size =>
    let sd := s.conn.stream id
    let consumed := sd.consumed + (sd.readable size).toNat
    sd.recvBuf ≠ [] →
      if s.conn.hasAppKeys then s.conn.raisesAlone id consumed
      else consumed ≠ 0 →
        consumed + s.conn.streamWindow ≤ s.conn.maxStreamDataLocal ∨ consumed < s.conn.config.m_maxStreamData
  | _ => true

variable {s t : ReceiveWorld}

theorem independent_iff (inv : Accounted s) : s.Independent ↔ s.conn.Told ∧ s.conn.Reopened := by
  have initial : ∀ id, s.conn.config.m_maxStreamData ≤ s.conn.advertised id :=
    fun id => initial_le_largestLimit _ id _
  constructor
  · intro independent
    have told : s.conn.Told := fun id opened => (rejects_exactly_iff opened).mp (independent id opened).1
    refine ⟨told, ?_⟩
    intro id opened read
    have reopened := (independent id opened).2
    rw [inv.counted id, ← told id opened] at reopened
    rcases reopened read with enough | early
    · exact .inl enough
    · exact .inr early.1
  · intro ⟨told, reopened⟩ id opened
    refine ⟨(rejects_exactly_iff opened).mpr (told id opened), ?_⟩
    intro read
    rw [inv.counted id] at read ⊢
    rcases reopened id opened read with enough | early
    · exact .inl (told id opened ▸ enough)
    · exact .inr ⟨early, initial id⟩

theorem Accounted.streamFrame (inv : Accounted s) (frame : QuicFrame) :
    (∀ id ∉ (s.conn.onStreamFrame frame).streams,
      (s.conn.onStreamFrame frame).advertised id = (s.conn.onStreamFrame frame).config.m_maxStreamData) ∧
      ∀ id, ((s.conn.onStreamFrame frame).stream id).consumed = (s.conn.stream id).consumed := by
  have same := SameLimits.onStreamFrame s.conn frame
  constructor
  · intro id unopened
    rw [same.advertised, same.config]
    exact inv.unopened id fun old => unopened (mem_onStreamFrame.mpr (.inl old))
  · intro id
    rw [onStreamFrame_stream]
    split
    · exact QuicStreamPrivate.receive_consumed _ frame
    · rfl

/-- The limits stay the same and only a new stream has still to be told of them. -/
theorem independent_streamFrame_iff (inv : Accounted s) (told : s.conn.Told) (reopened : s.conn.Reopened)
    (frame : QuicFrame) :
    (s.conn.onStreamFrame frame).Told ∧ (s.conn.onStreamFrame frame).Reopened ↔
      s.keepsLimits (.streamFrame frame) = true := by
  have same := SameLimits.onStreamFrame s.conn frame
  have consumed := (inv.streamFrame frame).2
  have kept : (s.conn.onStreamFrame frame).Reopened := by
    intro id member read
    rw [consumed] at read ⊢
    rw [same.streamWindow, same.limit, same.config]
    rcases mem_onStreamFrame.mp member with old | ⟨own, _⟩
    · exact reopened id old read
    · by_cases old : id ∈ s.conn.streams
      · exact reopened id old read
      · simp [stream, old, QuicStreamPrivate.consumed] at read
  simp only [keepsLimits, decide_eq_true_eq, kept, and_true]
  constructor
  · intro after
    by_cases old : frame.streamId ∈ s.conn.streams
    · exact .inl old
    · by_cases tooMany : s.conn.tooManyStreams frame.streamId = true
      · exact .inr (.inl tooMany)
      · have own := after frame.streamId (mem_onStreamFrame.mpr (.inr ⟨rfl, by simpa using tooMany⟩))
        rw [same.limit, same.advertised, inv.unopened _ old] at own
        exact .inr (.inr own)
  · intro allowed id member
    rw [same.limit, same.advertised]
    by_cases old : id ∈ s.conn.streams
    · exact told id old
    · rcases mem_onStreamFrame.mp member with before | ⟨rfl, free⟩
      · exact absurd before old
      · rcases allowed with before | tooMany | initial
        · exact absurd before old
        · simp [tooMany] at free
        · rw [inv.unopened _ old]
          exact initial

theorem independent_recv_iff
    (told : s.conn.Told) (reopened : s.conn.Reopened) (returned : s.conn.recv id size = some (after, bytes, n)) :
    after.Told ∧ after.Reopened ↔ s.keepsLimits (.recv id size) = true := by
  obtain ⟨sd, present, ⟨empty, rfl, _⟩ | ⟨filled, counted, _, _, rfl⟩⟩ := recv_cases returned
  · have current : s.conn.stream id = sd := by simp [stream, present]
    exact iff_of_true ⟨told, reopened⟩ (by simp [keepsLimits, current, empty])
  · have current : s.conn.stream id = sd := by simp [stream, present]
    have opened : id ∈ s.conn.streams := NatMap.mem_iff_present.mpr ⟨sd, present⟩
    have length := sd.length_take_readable size
    have allowed : s.keepsLimits (.recv id size) = true ↔
        if s.conn.hasAppKeys then s.conn.raisesAlone id (sd.consumed + (sd.readable size).toNat)
        else sd.consumed + (sd.readable size).toNat ≠ 0 →
          sd.consumed + (sd.readable size).toNat + s.conn.streamWindow ≤ s.conn.maxStreamDataLocal ∨
            sd.consumed + (sd.readable size).toNat < s.conn.config.m_maxStreamData := by
      simp only [keepsLimits, current, decide_eq_true_eq]
      exact imp_iff_right filled
    rw [allowed, counted]
    generalize (sd.readable size).toNat = count at length ⊢
    have same := SameLimits.setStream s.conn id (sd.consume count)
    have members := mem_setStream_of_mem (sd.consume count) opened
    have own : ((s.conn.setStream id (sd.consume count)).stream id).consumed = sd.consumed + count := by
      rw [stream_setStream, if_pos rfl, sd.consume_consumed, length]
    have others : ∀ other ∈ (s.conn.setStream id (sd.consume count)).streams, other ≠ id →
        ((s.conn.setStream id (sd.consume count)).stream other).consumed ≠ 0 →
        ((s.conn.setStream id (sd.consume count)).stream other).consumed + s.conn.streamWindow ≤
            s.conn.maxStreamDataLocal ∨
          ((s.conn.setStream id (sd.consume count)).stream other).consumed < s.conn.config.m_maxStreamData := by
      intro other member different
      rw [stream_setStream, if_neg different]
      exact reopened other ((members other).mp member)
    have slid := slideWindows_iff ((members id).mpr opened) ((same.told_iff members).mpr told) others
    rw [own, raisesAlone_setStream opened] at slid
    exact slid

theorem Accounted.recv (inv : Accounted s) (returned : s.conn.recv id size = some (after, bytes, n)) :
    Accounted { s with conn := after, delivered := update s.delivered id (s.delivered id ++ bytes) } where
  unopened := by
    obtain ⟨sd, present, ⟨_, rfl, _⟩ | ⟨_, _, _, _, rfl⟩⟩ := recv_cases returned
    · exact inv.unopened
    · intro other unopened
      rw [slideWindows_streams, mem_setStream] at unopened
      obtain ⟨different, absent⟩ := not_or.mp unopened
      obtain ⟨told, config⟩ :=
        (s.conn.setStream id (sd.consume n.toNat)).slideWindows_of_ne different
      rw [told, config]
      exact inv.unopened other absent
  counted := by
    obtain ⟨count, copied, streams⟩ := recv_stream returned
    intro other
    have before := inv.counted other
    dsimp only
    rw [streams other]
    by_cases own : other = id
    · subst own
      rw [if_pos rfl, update_self, length_append, QuicStreamPrivate.consume_consumed, copied, before]
    · rw [if_neg own, update_of_ne own]
      exact before

theorem Accounted.step (inv : Accounted s) (stepped : s.step e = some t) : Accounted t := by
  cases e with
  | streamFrame frame =>
    cases stepped
    obtain ⟨unopened, consumed⟩ := inv.streamFrame frame
    exact ⟨unopened, fun id => (inv.counted id).trans (consumed id).symm⟩
  | recv id size =>
    obtain ⟨⟨after, bytes, n⟩, returned, rfl⟩ := map_eq_some_iff.mp stepped
    exact inv.recv returned
  | streamDataBlocked id =>
    cases stepped
    refine ⟨?_, fun other => ?_⟩
    · intro other unopened
      dsimp only at unopened ⊢
      rw [maybeIncreaseMaxStreamData_streams] at unopened
      rw [(s.conn.maybeIncreaseMaxStreamData_same id).1, ← inv.unopened other unopened]
      by_cases own : other = id
      · subst own
        rw [maybeIncreaseMaxStreamData_of_unopened unopened]
      · exact s.conn.advertised_maybeIncrease_of_ne own
    · dsimp only
      rw [s.conn.stream_maybeIncrease]
      exact inv.counted other
  | reset id =>
    obtain ⟨sd, present, rfl⟩ := map_eq_some_iff.mp stepped
    have current : s.conn.stream id = sd := by simp [stream, present]
    refine ⟨?_, fun other => ?_⟩
    · intro other unopened
      exact inv.unopened other fun old => unopened (mem_setStream.mpr (.inr old))
    · dsimp only
      rw [inv.counted other, stream_setStream]
      split_ifs with own
      · rw [own, current]
        rfl
      · rfl
  | appKeys =>
    cases stepped
    exact ⟨inv.unopened, inv.counted⟩

theorem independent_step_iff (inv : Accounted s) (before : s.Independent)
    (stepped : s.step e = some t) : t.Independent ↔ s.keepsLimits e = true := by
  rw [independent_iff (inv.step stepped)]
  obtain ⟨told, reopened⟩ := (independent_iff inv).mp before
  cases e with
  | streamFrame frame =>
    cases stepped
    exact independent_streamFrame_iff inv told reopened frame
  | recv id size =>
    obtain ⟨⟨after, bytes, n⟩, returned, rfl⟩ := map_eq_some_iff.mp stepped
    exact independent_recv_iff told reopened returned
  | streamDataBlocked id =>
    cases stepped
    simp only [keepsLimits, decide_eq_true_eq]
    by_cases opened : id ∈ s.conn.streams
    · rw [imp_iff_right opened, ← told_maybeIncrease_iff opened told]
      exact and_iff_left (reopened_maybeIncrease opened fun other member _ => reopened other member)
    · rw [maybeIncreaseMaxStreamData_of_unopened opened]
      exact iff_of_true ⟨told, reopened⟩ fun member => absurd member opened
  | reset id =>
    obtain ⟨sd, present, rfl⟩ := map_eq_some_iff.mp stepped
    have current : s.conn.stream id = sd := by simp [stream, present]
    have opened : id ∈ s.conn.streams := NatMap.mem_iff_present.mpr ⟨sd, present⟩
    have members := mem_setStream_of_mem { sd with reset := true } opened
    have same := SameLimits.setStream s.conn id { sd with reset := true }
    refine iff_of_true ⟨(same.told_iff members).mpr told, ?_⟩ rfl
    intro other member
    have old := reopened other ((members other).mp member)
    rw [stream_setStream]
    split_ifs with own
    · rw [own, current] at old
      exact old
    · exact old
  | appKeys =>
    cases stepped
    exact iff_of_true ⟨told, reopened⟩ rfl

end ReceiveWorld

def receiveSystem : System ReceiveWorld ReceiveEvent :=
  .ofStep (fun s => ∃ isClient config, s = { conn := .new isClient config }) ReceiveWorld.step

/-- The receive windows are independent of each other and reopen throughout exactly
the runs whose steps keep the limits. -/
theorem stream_windows_independent {history : List (ReceiveWorld × ReceiveEvent)} {t : ReceiveWorld}
    (run : Run receiveSystem history t) :
    (∀ s, Visited history t s → s.Independent) ↔ ∀ entry ∈ history, entry.1.keepsLimits entry.2 = true := by
  refine run.everywhere_iff (fun s e => s.keepsLimits e = true) ReceiveWorld.Accounted ReceiveWorld.Independent ?_ ?_
    (fun _ _ _ inv stepped => inv.step stepped)
    (fun _ _ _ inv before stepped => ReceiveWorld.independent_step_iff inv before stepped)
  · intro s ⟨isClient, config, fresh⟩
    subst fresh
    exact ⟨fun _ _ => rfl, fun _ => rfl⟩
  · intro s ⟨isClient, config, fresh⟩ id opened
    subst fresh
    simp [new] at opened

/-- One byte arrives on one stream and is read, and the peer reports that it is
blocked. -/
def singleStream : List ReceiveEvent :=
  [.appKeys, .streamFrame { type := .stream, streamId := 0, data := [1] }, .recv 0 1, .streamDataBlocked 0]

theorem stream_windows_independent_singleStream :
    ∃ history t, Run receiveSystem history t ∧ history.map Prod.snd = singleStream.reverse ∧
      t.conn.advertised 0 = 1 + 256 * 1024 ∧ t.Independent := by
  obtain ⟨history, t, run, labels, guarded, told⟩ :=
    Run.of_exec_guarded receiveSystem ReceiveWorld.keepsLimits rfl singleStream
      ⟨false, { m_maxStreamData := 1 }, rfl⟩ (fun t => t.conn.advertised 0 = 1 + 256 * 1024) (by decide)
  exact ⟨history, t, run, labels, told, (stream_windows_independent run).mpr guarded t (.inl rfl)⟩

/-- One byte arrives on each of two streams and is read, and the peer reports that
it is blocked on the second one. -/
def twoStreams : List ReceiveEvent :=
  [.appKeys, .streamFrame { type := .stream, streamId := 0, data := [1] },
    .streamFrame { type := .stream, streamId := 4, data := [1] }, .recv 0 1, .recv 4 1, .streamDataBlocked 4]

/-- The limit of the second stream is never raised: the peer has used it up. A frame
beyond it would be accepted. -/
theorem stream_window_closed_twoStreams :
    ∃ history t, Run receiveSystem history t ∧ history.map Prod.snd = twoStreams.reverse ∧
      (t.delivered 4).length = 1 ∧ t.conn.advertised 4 = 1 ∧ t.conn.config.m_maxStreamData = 1 ∧
      t.conn.maxStreamDataLocal = 1 + 256 * 1024 ∧ ¬ t.Independent := by
  obtain ⟨history, t, run, labels, opened, read, told, initial, limit⟩ :=
    Run.of_exec receiveSystem rfl twoStreams
      ⟨false, { m_maxStreamData := 1 }, rfl⟩
      (fun t => 4 ∈ t.conn.streams ∧ (t.delivered 4).length = 1 ∧ t.conn.advertised 4 = 1 ∧
        t.conn.config.m_maxStreamData = 1 ∧ t.conn.maxStreamDataLocal = 1 + 256 * 1024) (by decide)
  refine ⟨history, t, run, labels, read, told, initial, limit, ?_⟩
  intro independent
  have reopened := (independent 4 opened).2 (by omega)
  omega

end Qtng
