import Qtng.Quic.StreamWindow

namespace Qtng

open BigEndian Transition Option Bool

def highestEnd (id : Nat) : List QuicFrame → Nat
  | [] => 0
  | frame :: earlier =>
    if frame.streamId = id then max frame.endOffset (highestEnd id earlier) else highestEnd id earlier

def streamsOf (frames : List QuicFrame) : Finset Nat := (frames.map (·.streamId)).toFinset

def highestTotal (frames : List QuicFrame) : Nat := ∑ id ∈ streamsOf frames, highestEnd id frames

theorem highestEnd_of_absent {id : Nat} {frames : List QuicFrame} (absent : id ∉ streamsOf frames) :
    highestEnd id frames = 0 := by
  induction frames with
  | nil => rfl
  | cons frame earlier ih =>
    have both : id ≠ frame.streamId ∧ id ∉ streamsOf earlier := by
      simpa [streamsOf] using absent
    rw [highestEnd, if_neg (Ne.symm both.1), ih both.2]

/-- A sum over streams, where what a stream contributes depends on its own frames only. -/
theorem sum_streamsOf_change (before after : List QuicFrame) (value : Nat → List QuicFrame → Nat) (id : Nat)
    (absent : ∀ frames other, other ∉ streamsOf frames → value other frames = 0)
    (others : ∀ other, other ≠ id → value other after = value other before) :
    ∑ other ∈ streamsOf after, value other after + value id before =
      ∑ other ∈ streamsOf before, value other before + value id after := by
  -- both sums run over all the streams that play a part
  set all := insert id (streamsOf before ∪ streamsOf after)
  have whole (frames : List QuicFrame) (subset : streamsOf frames ⊆ all) :
      ∑ other ∈ streamsOf frames, value other frames =
        value id frames + ∑ other ∈ all.erase id, value other frames := by
    rw [Finset.add_sum_erase all (value · frames) (Finset.mem_insert_self _ _)]
    exact Finset.sum_subset subset fun other _ missing => absent frames other missing
  have rest : ∑ other ∈ all.erase id, value other after = ∑ other ∈ all.erase id, value other before :=
    Finset.sum_congr rfl fun other member => others other (Finset.ne_of_mem_erase member)
  rw [whole after (Finset.subset_union_right.trans (Finset.subset_insert _ _)),
    whole before (Finset.subset_union_left.trans (Finset.subset_insert _ _)), rest]
  omega

def highestElsewhere (id : Nat) (frames : List QuicFrame) : Nat :=
  ∑ other ∈ (streamsOf frames).erase id, highestEnd other frames

theorem highestTotal_eq (id : Nat) (frames : List QuicFrame) :
    highestTotal frames = highestElsewhere id frames + highestEnd id frames := by
  unfold highestTotal highestElsewhere
  by_cases present : id ∈ streamsOf frames
  · exact (Finset.sum_erase_add _ _ present).symm
  · rw [Finset.erase_eq_of_notMem present, highestEnd_of_absent present, Nat.add_zero]

theorem highestTotal_cons (frame : QuicFrame) (frames : List QuicFrame) :
    highestTotal (frame :: frames) =
      highestElsewhere frame.streamId frames + max frame.endOffset (highestEnd frame.streamId frames) := by
  have change := sum_streamsOf_change frames (frame :: frames) highestEnd frame.streamId
    (fun _ _ => highestEnd_of_absent) (fun other different => by rw [highestEnd, if_neg different.symm])
  have own : highestEnd frame.streamId (frame :: frames) = max frame.endOffset (highestEnd frame.streamId frames) := by
    rw [highestEnd, if_pos rfl]
  have split := highestTotal_eq frame.streamId frames
  unfold highestTotal at split ⊢
  omega

namespace QuicReceiver

variable {conn after : QuicReceiver}

def opens (conn : QuicReceiver) (id : Nat) : Bool := (conn.getOrCreateStream id).2.isSome

theorem opens_iff (conn : QuicReceiver) (id : Nat) :
    conn.opens id = true ↔ id ∈ conn.streams ∨ conn.tooManyStreams id = false := by
  unfold opens getOrCreateStream
  rcases present : conn.streams[id]? with _ | sd
  · have absent : id ∉ conn.streams := by simpa using present
    cases refused : conn.tooManyStreams id <;> simp [absent]
  · simp [NatMap.mem_iff_present.mpr ⟨sd, present⟩]

structure Raised (conn after : QuicReceiver) : Prop where
  code : after.transportErrorCode = conn.transportErrorCode
  limit : conn.maxDataLocal ≤ after.maxDataLocal
  streamLimit : conn.maxStreamDataLocal ≤ after.maxStreamDataLocal
  total : after.recvDataTotal = conn.recvDataTotal

theorem Raised.refl (conn : QuicReceiver) : Raised conn conn := ⟨rfl, le_rfl, le_rfl, rfl⟩

theorem Raised.trans {last : QuicReceiver} (first : Raised conn after) (second : Raised after last) :
    Raised conn last :=
  ⟨second.code.trans first.code, first.limit.trans second.limit, first.streamLimit.trans second.streamLimit,
    second.total.trans first.total⟩

theorem Raised.sendFrame (raised : Raised conn after) (frame : QuicFrame) :
    Raised conn (after.sendFrame frame) := by
  unfold QuicReceiver.sendFrame
  split
  · exact ⟨raised.code, raised.limit, raised.streamLimit, raised.total⟩
  · exact raised

theorem Opened.raised {id : Nat} (opened : Opened conn id after) :
    conn.opens id = true ∧ after.maxDataLocal = conn.maxDataLocal ∧
      after.maxStreamDataLocal = conn.maxStreamDataLocal ∧ after.transportErrorCode = conn.transportErrorCode ∧
      after.recvDataTotal = conn.recvDataTotal := by
  cases opened with
  | before present => exact ⟨(conn.opens_iff id).mpr (.inl present), rfl, rfl, rfl, rfl⟩
  | now _ allowed => exact ⟨(conn.opens_iff id).mpr (.inr allowed), rfl, rfl, rfl, rfl⟩

/-- The error that onStreamFrame leaves, and the bytes it counts. The limit of the
connection plays no part in it. -/
theorem onStreamFrame_code (conn : QuicReceiver) (frame : QuicFrame) :
    (conn.onStreamFrame frame).maxDataLocal = conn.maxDataLocal ∧
      (conn.onStreamFrame frame).maxStreamDataLocal = conn.maxStreamDataLocal ∧
      ((conn.onStreamFrame frame).transportErrorCode =
        if conn.opens frame.streamId = true then
          if conn.maxStreamDataLocal < frame.endOffset then QuicErrFlowControlError else conn.transportErrorCode
        else QuicErrStreamLimitError) ∧
      (conn.onStreamFrame frame).recvDataTotal =
        conn.recvDataTotal + if conn.accepts frame = true then frame.data.length else 0 := by
  have outcome := conn.onStreamFrame_cases frame
  generalize conn.onStreamFrame frame = after at outcome ⊢
  cases outcome with
  | refused absent refused rejected =>
    have closed : ¬ conn.opens frame.streamId = true := by
      rw [opens_iff]
      rintro (present | allowed)
      · exact absent present
      · rw [refused] at allowed
        cases allowed
    exact ⟨rfl, rfl, (if_neg closed).symm, by simp [rejected, setError]⟩
  | exceeding opened above rejected =>
    obtain ⟨opens, limit, streamLimit, _, total⟩ := opened.raised
    refine ⟨limit, streamLimit, ?_, ?_⟩
    · rw [if_pos opens, if_pos above]
      rfl
    · simpa [rejected, setError] using total
  | received opened below accepted =>
    obtain ⟨opens, limit, streamLimit, code, total⟩ := opened.raised
    refine ⟨limit, streamLimit, ?_, ?_⟩
    · rw [if_pos opens, if_neg (Nat.not_lt.mpr below)]
      exact code
    · rw [if_pos accepted, ← total]

theorem maybeIncreaseMaxData_raised (conn : QuicReceiver) : Raised conn conn.maybeIncreaseMaxData := by
  unfold maybeIncreaseMaxData
  dsimp only
  split_ifs with more
  · refine Raised.sendFrame ?_ _
    exact ⟨rfl, Nat.le_of_lt more, le_rfl, rfl⟩
  · exact .refl conn

theorem maybeIncreaseMaxStreamData_raised (conn : QuicReceiver) (id : Nat) :
    Raised conn (conn.maybeIncreaseMaxStreamData id) := by
  unfold maybeIncreaseMaxStreamData
  split
  · exact .refl conn
  · split
    · rename_i more
      refine Raised.sendFrame ?_ _
      exact ⟨rfl, le_rfl, Nat.le_of_lt more, rfl⟩
    · exact .refl conn

theorem recv_raised {id : Nat} {size n : Int} {bytes : Bytes}
    (returned : conn.recv id size = some (after, bytes, n)) : Raised conn after := by
  obtain ⟨sd, -, ⟨-, rfl, -⟩ | ⟨-, -, -, -, rfl⟩⟩ := recv_cases returned
  · exact .refl _
  · have kept : Raised conn (conn.setStream id (sd.consume n.toNat)) := ⟨rfl, le_rfl, le_rfl, rfl⟩
    unfold slideWindows
    split
    · exact (kept.trans (maybeIncreaseMaxStreamData_raised _ id)).trans (maybeIncreaseMaxData_raised _)
    · exact kept

end QuicReceiver

/-- The receiving half of a connection with the STREAM frames that belong to a stream,
whether it takes them or not. It is remembered whether the flow-control error has been set,
and whether the highest end offsets together have exceeded maxDataLocal. -/
structure LimitWorld where
  world : ReceiveWorld
  received : List QuicFrame := []
  failed : Bool := false
  exceeded : Bool := false

inductive LimitEvent
  | receive (e : ReceiveEvent)
  | dataBlocked
deriving DecidableEq

namespace LimitWorld

/-- The frames received, when this event comes next. -/
def receivedWith (s : LimitWorld) : LimitEvent → List QuicFrame
  | .receive (.streamFrame frame) =>
    if s.world.conn.opens frame.streamId then frame :: s.received else s.received
  | _ => s.received

def stepWorld (s : LimitWorld) : LimitEvent → Option ReceiveWorld
  | .receive e => s.world.step e
  | .dataBlocked => some { s.world with conn := s.world.conn.maybeIncreaseMaxData }

def step (s : LimitWorld) (e : LimitEvent) : Option LimitWorld :=
  (s.stepWorld e).map fun world =>
    { world
      received := s.receivedWith e
      failed := s.failed || world.conn.transportErrorCode = QuicErrFlowControlError
      exceeded := s.exceeded || world.conn.maxDataLocal < highestTotal (s.receivedWith e) }

/-- The error has been set exactly if the limit has been exceeded. -/
def Enforced (s : LimitWorld) : Prop := s.failed = true ↔ s.exceeded = true

/-- The limit of the connection leaves a stream as much as the limit for streams does. -/
def Balanced (s : LimitWorld) (id : Nat) : Prop :=
  s.world.conn.maxDataLocal = s.world.conn.maxStreamDataLocal + highestElsewhere id s.received

instance (s : LimitWorld) (id : Nat) : Decidable (s.Balanced id) := inferInstanceAs (Decidable (_ = _))

/-- As long as there was no error, STREAM frames come on balanced streams only. -/
def balanced (s : LimitWorld) : LimitEvent → Bool
  | .receive (.streamFrame frame) =>
    s.failed || !s.world.conn.opens frame.streamId || s.Balanced frame.streamId
  | _ => true

/-- Whatever frame comes next on a stream, it is an error exactly if it exceeds the limit
of the connection. -/
def Judges (s : LimitWorld) (id : Nat) : Prop :=
  ∀ frame : QuicFrame, frame.streamId = id → ∀ t, s.step (.receive (.streamFrame frame)) = some t → t.Enforced

structure Noted (s : LimitWorld) : Prop where
  failed : s.world.conn.transportErrorCode = QuicErrFlowControlError → s.failed = true
  exceeded : s.world.conn.maxDataLocal < highestTotal s.received → s.exceeded = true
  within : s.failed = false → ∀ id, highestEnd id s.received ≤ s.world.conn.maxStreamDataLocal
  total : s.world.conn.recvDataTotal = (s.world.accepted.map (·.data.length)).sum

variable {s t : LimitWorld} {e : LimitEvent}

theorem stepWorld_cases {world : ReceiveWorld} (stepped : s.stepWorld e = some world) :
    (∃ frame, e = .receive (.streamFrame frame)) ∨
      (s.world.conn.Raised world.conn ∧ world.accepted = s.world.accepted ∧ s.receivedWith e = s.received) := by
  cases e with
  | dataBlocked =>
    cases stepped
    exact .inr ⟨s.world.conn.maybeIncreaseMaxData_raised, rfl, rfl⟩
  | receive e =>
    cases e with
    | streamFrame frame => exact .inl ⟨frame, rfl⟩
    | recv id size =>
      obtain ⟨⟨conn, bytes, n⟩, returned, rfl⟩ := map_eq_some_iff.mp stepped
      exact .inr ⟨QuicReceiver.recv_raised returned, rfl, rfl⟩
    | streamDataBlocked id =>
      cases stepped
      exact .inr ⟨s.world.conn.maybeIncreaseMaxStreamData_raised id, rfl, rfl⟩
    | reset id =>
      obtain ⟨sd, -, rfl⟩ := map_eq_some_iff.mp stepped
      exact .inr ⟨⟨rfl, le_rfl, le_rfl, rfl⟩, rfl, rfl⟩
    | appKeys =>
      cases stepped
      exact .inr ⟨⟨rfl, le_rfl, le_rfl, rfl⟩, rfl, rfl⟩

theorem Noted.step (inv : Noted s) (stepped : s.step e = some t) : Noted t := by
  obtain ⟨world, moved, rfl⟩ := map_eq_some_iff.mp stepped
  have old : (s.failed || decide (world.conn.transportErrorCode = QuicErrFlowControlError)) = false →
      ∀ id, highestEnd id s.received ≤ s.world.conn.maxStreamDataLocal := fun clean =>
    inv.within (or_eq_false_iff.mp clean).1
  refine ⟨fun code => (or_eq_true _ _).mpr (.inr (decide_eq_true code)),
    fun above => (or_eq_true _ _).mpr (.inr (decide_eq_true above)), ?_, ?_⟩
  all_goals rcases stepWorld_cases moved with ⟨frame, rfl⟩ | ⟨raised, accepted, received⟩
  · cases moved
    intro clean id
    obtain ⟨-, streamLimit, code, -⟩ := s.world.conn.onStreamFrame_code frame
    have unset := of_decide_eq_false (or_eq_false_iff.mp clean).2
    have old := old clean id
    simp only [receivedWith]
    split
    · rename_i opens
      -- the frame would have set the error if it ended above the limit
      rw [code, if_pos opens] at unset
      have below : frame.endOffset ≤ s.world.conn.maxStreamDataLocal := by
        by_contra above
        rw [if_pos (by omega)] at unset
        exact unset rfl
      rw [highestEnd, streamLimit]
      split <;> omega
    · exact old.trans streamLimit.ge
  · intro clean id
    rw [received]
    exact (old clean id).trans raised.streamLimit
  · cases moved
    obtain ⟨-, -, -, total⟩ := s.world.conn.onStreamFrame_code frame
    dsimp only
    rw [total, inv.total]
    split
    · rw [List.map_cons, List.sum_cons, Nat.add_comm]
    · rw [Nat.add_zero]
  · dsimp only
    rw [raised.total, accepted, inv.total]

theorem enforced_streamFrame_iff {frame : QuicFrame} (inv : Noted s) (clean : s.failed = false)
    (below : s.exceeded = false) (opens : s.world.conn.opens frame.streamId = true)
    (stepped : s.step (.receive (.streamFrame frame)) = some t) :
    t.Enforced ↔ (s.world.conn.maxStreamDataLocal < frame.endOffset ↔
      s.world.conn.maxDataLocal < highestElsewhere frame.streamId s.received +
        max frame.endOffset (highestEnd frame.streamId s.received)) := by
  obtain ⟨world, moved, rfl⟩ := map_eq_some_iff.mp stepped
  cases moved
  obtain ⟨limit, -, code, -⟩ := s.world.conn.onStreamFrame_code frame
  have unset : s.world.conn.transportErrorCode ≠ QuicErrFlowControlError := fun code => by
    simp [inv.failed code] at clean
  have set : (s.world.conn.onStreamFrame frame).transportErrorCode = QuicErrFlowControlError ↔
      s.world.conn.maxStreamDataLocal < frame.endOffset := by
    rw [code, if_pos opens]
    split <;> simp [*]
  simp [Enforced, receivedWith, clean, below, opens, set, limit, highestTotal_cons]

structure Kept (s : LimitWorld) : Prop extends Noted s where
  enforced : s.Enforced

theorem Kept.step (kept : Kept s) (met : s.balanced e = true) (stepped : s.step e = some t) : Kept t := by
  obtain ⟨inv, before⟩ := kept
  refine ⟨inv.step stepped, ?_⟩
  obtain ⟨world, moved, same⟩ := map_eq_some_iff.mp stepped
  cases failed : s.failed with
  | true =>
    subst same
    simp [Enforced, failed, before.mp failed]
  | false =>
    have below : s.exceeded = false := eq_false_iff.mpr fun exceeded => by simp [before.mpr exceeded] at failed
    have small : ¬ s.world.conn.maxDataLocal < highestTotal s.received := fun above => by
      simp [inv.exceeded above] at below
    have unset : s.world.conn.transportErrorCode ≠ QuicErrFlowControlError := fun code => by
      simp [inv.failed code] at failed
    rcases stepWorld_cases moved with ⟨frame, rfl⟩ | ⟨raised, -, received⟩
    · by_cases opens : s.world.conn.opens frame.streamId = true
      · have equal : s.Balanced frame.streamId := by simpa [balanced, failed, opens] using met
        have within := inv.within failed frame.streamId
        rw [enforced_streamFrame_iff inv failed below opens stepped, equal]
        omega
      · -- the frame belongs to no stream
        subst same
        cases moved
        obtain ⟨limit, -, code, -⟩ := s.world.conn.onStreamFrame_code frame
        have other : QuicErrStreamLimitError ≠ QuicErrFlowControlError := by decide
        simp [Enforced, receivedWith, failed, below, opens, code, other, limit, small]
    · subst same
      have still : ¬ world.conn.maxDataLocal < highestTotal s.received := fun above =>
        small (raised.limit.trans_lt above)
      simp [Enforced, failed, below, received, raised.code, unset, still]

/-- Only on a balanced stream are all the frames that may come next judged rightly: otherwise
one that ends at the limit for streams or one byte behind it is not. -/
theorem judges_iff_balanced (inv : Noted s) (clean : s.failed = false) (below : s.exceeded = false) {id : Nat}
    (opens : s.world.conn.opens id = true) : s.Judges id ↔ s.Balanced id := by
  have within := inv.within clean id
  constructor
  · intro judges
    have judged (offset : Nat) : s.world.conn.maxStreamDataLocal < offset ↔
        s.world.conn.maxDataLocal < highestElsewhere id s.received + max offset (highestEnd id s.received) := by
      have enforced := judges { type := .stream, streamId := id, offset } rfl _ rfl
      exact (enforced_streamFrame_iff inv clean below opens rfl).mp enforced
    have atLimit := judged s.world.conn.maxStreamDataLocal
    have behind := judged (s.world.conn.maxStreamDataLocal + 1)
    unfold Balanced
    omega
  · rintro equal frame rfl t stepped
    rw [enforced_streamFrame_iff inv clean below opens stepped, equal]
    omega

end LimitWorld

def limitSystem : System LimitWorld LimitEvent :=
  .ofStep (fun s => ∃ isClient config, s = { world := { conn := .new isClient config } }) LimitWorld.step

/-- The limit of the connection is enforced throughout the runs in which frames come on
balanced streams only. Where a stream is not balanced, some frame that may come next on it is
judged wrongly. The count of bytes received takes every accepted frame whole, also one that
brings the same bytes again. -/
theorem data_limit_enforced_iff {history : List (LimitWorld × LimitEvent)} {t : LimitWorld}
    (run : Run limitSystem history t) :
    ((∀ entry ∈ history, entry.1.balanced entry.2 = true) → ∀ s, Visited history t s → s.Enforced) ∧
      (∀ id, t.failed = false → t.exceeded = false → t.world.conn.opens id = true →
        (t.Judges id ↔ t.Balanced id)) ∧
      t.world.conn.recvDataTotal = (t.world.accepted.map (·.data.length)).sum := by
  have initial : ∀ s, limitSystem.start s → s.Noted := by
    rintro s ⟨isClient, config, rfl⟩
    have clean : QuicErrNoError ≠ QuicErrFlowControlError := by decide
    exact ⟨fun code => absurd code clean, fun above => absurd above (Nat.not_lt_zero _), fun _ _ => Nat.zero_le _, rfl⟩
  have noted : t.Noted := run.invariant initial fun _ _ _ inv stepped => inv.step stepped
  refine ⟨fun met s visited => ?_, fun id clean below opens => LimitWorld.judges_iff_balanced noted clean below opens,
    noted.total⟩
  have kept : s.Kept := by
    refine run.visited_of_guard (fun s e => s.balanced e = true) met ?_
      (fun _ _ _ kept met stepped => kept.step met stepped) visited
    intro s fresh
    refine ⟨initial s fresh, ?_⟩
    obtain ⟨isClient, config, rfl⟩ := fresh
    exact Iff.rfl
  exact kept.enforced

/-- Three bytes arrive twice and are read, which raises both limits to 2 MiB and 3 bytes,
and then a frame that exceeds them. -/
def beyondBoth : List LimitEvent :=
  [.receive .appKeys, .receive (.streamFrame { type := .stream, streamId := 0, data := [1, 2, 3] }),
    .receive (.streamFrame { type := .stream, streamId := 0, data := [1, 2, 3] }), .receive (.recv 0 3), .dataBlocked,
    .receive (.streamFrame { type := .stream, streamId := 0, offset := 2 * 1024 * 1024 + 3, data := [4] })]

theorem data_limit_enforced_beyondBoth :
    ∃ history t, Run limitSystem history t ∧ history.map Prod.snd = beyondBoth.reverse ∧
      t.failed = true ∧ t.world.conn.maxDataLocal = 2 * 1024 * 1024 + 3 ∧ t.world.conn.recvDataTotal = 6 ∧
      ∀ s, Visited history t s → s.Enforced := by
  obtain ⟨history, t, run, labels, guarded, failed, limit, total⟩ :=
    Run.of_exec_guarded limitSystem LimitWorld.balanced rfl beyondBoth
      ⟨false, { m_maxData := 2 * 1024 * 1024, m_maxStreamData := 2 * 1024 * 1024 }, rfl⟩
      (fun t => t.failed = true ∧ t.world.conn.maxDataLocal = 2 * 1024 * 1024 + 3 ∧
        t.world.conn.recvDataTotal = 6) (by decide)
  exact ⟨history, t, run, labels, failed, limit, total, (data_limit_enforced_iff run).1 guarded⟩

/-- The last byte that the limit for streams allows arrives on each of five streams. -/
def fiveStreams : List LimitEvent :=
  [0, 4, 8, 12, 16].map fun id =>
    .receive (.streamFrame { type := .stream, streamId := id, offset := 256 * 1024 - 1, data := [1] })

/-- The frames are all taken, although their ends together exceed the limit of 1 MiB. -/
theorem data_limit_unenforced_fiveStreams :
    ∃ history t, Run limitSystem history t ∧ history.map Prod.snd = fiveStreams.reverse ∧
      t.world.conn.maxDataLocal = 1024 * 1024 ∧ highestTotal t.received = 5 * (256 * 1024) ∧
      t.world.conn.error = .noError ∧ ¬ t.Enforced := by
  obtain ⟨history, t, run, labels, limit, total, clean, failed, exceeded⟩ :=
    Run.of_exec limitSystem rfl fiveStreams ⟨false, {}, rfl⟩
      (fun t => t.world.conn.maxDataLocal = 1024 * 1024 ∧ highestTotal t.received = 5 * (256 * 1024) ∧
        t.world.conn.error = .noError ∧ t.failed = false ∧ t.exceeded = true) (by decide)
  refine ⟨history, t, run, labels, limit, total, clean, ?_⟩
  intro enforced
  rw [enforced.mpr exceeded] at failed
  cases failed

end Qtng
