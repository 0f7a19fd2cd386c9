import Qtng.General.Segments
import Qtng.Quic.Stream

namespace Qtng

open BigEndian Segments QuicReceiver Transition

def Covered (frames : List QuicFrame) (o : Nat) : Prop := ∃ frame ∈ frames, frame.offset ≤ o ∧ o < frame.endOffset

instance (frames : List QuicFrame) (o : Nat) : Decidable (Covered frames o) :=
  inferInstanceAs (Decidable (∃ frame ∈ frames, frame.offset ≤ o ∧ o < frame.endOffset))

theorem covered_cons {frame : QuicFrame} {frames : List QuicFrame} {o : Nat} :
    Covered (frame :: frames) o ↔ frame.offset ≤ o ∧ o < frame.endOffset ∨ Covered frames o := by
  simp [Covered]

namespace QuicStreamPrivate

variable {finAt : Nat} {frame : QuicFrame} {sd : QuicStreamPrivate}
variable {frames : List QuicFrame} {X delivered : Bytes}

theorem drain_fin (rounds : Nat) (sd : QuicStreamPrivate) :
    (drain rounds sd).finReceived = sd.finReceived ∧ (drain rounds sd).hasFinBoundary = sd.hasFinBoundary ∧
      (drain rounds sd).finBoundary = sd.finBoundary := by
  induction rounds generalizing sd with
  | zero => exact ⟨rfl, rfl, rfl⟩
  | succ rounds ih =>
    unfold drain
    split
    · exact ⟨rfl, rfl, rfl⟩
    · exact ih _

/-- The stream as an assembly, behind what the application has read. -/
def assembly (delivered : Bytes) (sd : QuicStreamPrivate) : Assembly UInt8 where
  bytes := delivered ++ sd.recvBuf
  offset := sd.recvOffset
  fragments := sd.recvFragments

theorem drain_assembly (delivered : Bytes) (rounds : Nat) (sd : QuicStreamPrivate) :
    (drain rounds sd).assembly delivered = (sd.assembly delivered).collect rounds := by
  induction rounds generalizing sd with
  | zero => rfl
  | succ rounds ih =>
    unfold drain Assembly.collect
    split
    · rename_i absent
      simp [assembly, absent]
    · rename_i data present
      rw [ih]
      simp [assembly, present]

theorem reassemble_takes (delivered : Bytes) (drained : sd.recvFragments[sd.recvOffset]? = none) (frame : QuicFrame) :
    (sd.assembly delivered).Takes frame.offset frame.data ((sd.reassemble frame).assembly delivered) := by
  have ends : frame.endOffset = frame.offset + frame.data.length := rfl
  unfold reassemble
  dsimp only
  by_cases fresh : sd.recvOffset < frame.endOffset
  · rw [if_pos fresh, drain_assembly]
    by_cases meets : frame.offset ≤ sd.recvOffset
    · have reached : sd.recvOffset + (frame.data.drop (sd.recvOffset - frame.offset)).length = frame.endOffset := by
        rw [List.length_drop]
        omega
      have taken := Assembly.collect_insert (a := sd.assembly delivered) drained
        (frame.data.drop (sd.recvOffset - frame.offset))
      rw [max_eq_right meets, if_pos fresh]
      refine (taken.trans ?_).symm ▸ .meets meets fresh
      exact congrArg (fun offset => Assembly.collect _ { bytes := _, offset, fragments := _ }) reached
    · by_cases proper : frame.data = []
      · rw [if_neg (by simp [ends, proper]), Assembly.collect_of_absent _ drained]
        exact .idle (.inr proper)
      · have long : 0 < frame.data.length := List.length_pos_iff.mpr proper
        rw [max_eq_left (by omega), if_pos (by omega), Nat.sub_self, List.drop_zero, Assembly.collect_of_absent]
        · exact .aside (not_le.mp meets) proper
        · show (sd.recvFragments.insert frame.offset frame.data)[sd.recvOffset]? = none
          rw [NatMap.getElem?_insert, if_neg (by omega)]
          exact drained
  · rw [if_neg fresh]
    exact .idle (.inl (not_lt.mp fresh))

theorem reassemble_fin (sd : QuicStreamPrivate) (frame : QuicFrame) :
    (sd.reassemble frame).finReceived = sd.finReceived ∧ (sd.reassemble frame).hasFinBoundary = sd.hasFinBoundary ∧
      (sd.reassemble frame).finBoundary = sd.finBoundary := by
  unfold reassemble
  dsimp only
  split
  · exact drain_fin _ _
  · exact ⟨rfl, rfl, rfl⟩

/-- The data of a frame stand in the byte stream, and a FIN is where the stream ends. -/
def Genuine (X : Bytes) (finAt : Nat) (frame : QuicFrame) : Prop :=
  IsSegment X frame.offset frame.data ∧ (frame.fin = true → frame.endOffset = finAt)

instance (X : Bytes) (finAt : Nat) (frame : QuicFrame) : Decidable (Genuine X finAt frame) :=
  inferInstanceAs (Decidable (_ ∧ _))

/-- The state of a stream between two calls. A FIN at offset 0 leaves no mark. -/
structure Assembled (X : Bytes) (finAt : Nat) (frames : List QuicFrame) (delivered : Bytes) (sd : QuicStreamPrivate) :
    Prop where
  sound : (sd.assembly delivered).Sound X (Covered frames)
  genuine : ∀ frame ∈ frames, Genuine X finAt frame
  drained : sd.recvFragments[sd.recvOffset]? = none
  boundary : sd.hasFinBoundary = true ↔ ∃ frame ∈ frames, frame.fin = true ∧ 0 < frame.endOffset
  boundaryAt : sd.finBoundary = if sd.hasFinBoundary then finAt else 0
  finished : sd.finReceived = true ↔ sd.hasFinBoundary = true ∧ sd.finBoundary ≤ sd.recvOffset

/-- The bytes read and buffered are those up to the first offset that no frame has
brought, and the end of the stream is known if that offset is the one of a FIN. -/
def MaximalPrefix (X : Bytes) (frames : List QuicFrame) (delivered : Bytes) (sd : QuicStreamPrivate) : Prop :=
  ∃ k, IsGreatest {k | ∀ o < k, Covered frames o} k ∧ delivered ++ sd.recvBuf = X.take k ∧
    (sd.finReceived = true ↔ ∃ frame ∈ frames, frame.fin = true ∧ frame.endOffset ≤ k)

namespace Assembled

variable {X delivered : Bytes} {finAt : Nat} {frames : List QuicFrame} {sd : QuicStreamPrivate}

theorem new (X : Bytes) (finAt : Nat) : Assembled X finAt [] [] {} where
  sound := ⟨rfl, Nat.zero_le _, by simp [assembly], by simp [assembly], by simp [assembly]⟩
  genuine := by simp
  drained := by simp
  boundary := by simp
  boundaryAt := rfl
  finished := by simp

variable (inv : Assembled X finAt frames delivered sd)
include inv

/-- What is read and buffered ends at recvOffset in any case, so only this offset
can be the maximal one. -/
theorem maximalPrefix_iff :
    MaximalPrefix X frames delivered sd ↔
      ¬ Covered frames sd.recvOffset ∧ ∀ frame ∈ frames, frame.fin = true → frame.endOffset ≠ 0 := by
  constructor
  · intro ⟨k, greatest, bytes, fin⟩
    have bounded : ∀ o, Covered frames o → o < X.length := fun o ⟨frame, member, _, last⟩ =>
      last.trans_le (inv.genuine frame member).1.1
    have gap := (inv.sound.greatest_iff bounded).mp ⟨k, greatest, bytes⟩
    obtain rfl := greatest.unique (isGreatest_below_iff.mpr ⟨inv.sound.covered, gap⟩)
    refine ⟨gap, ?_⟩
    intro frame member isFin atZero
    have seen := fin.mpr ⟨frame, member, isFin, atZero.trans_le (Nat.zero_le _)⟩
    obtain ⟨other, otherIn, otherFin, positive⟩ := inv.boundary.mp (inv.finished.mp seen).1
    have first := (inv.genuine frame member).2 isFin
    have second := (inv.genuine other otherIn).2 otherFin
    omega
  · intro ⟨gap, marked⟩
    refine ⟨sd.recvOffset, isGreatest_below_iff.mpr ⟨inv.sound.covered, gap⟩, inv.sound.bytes, ?_⟩
    rw [inv.finished]
    constructor
    · intro ⟨known, reached⟩
      obtain ⟨frame, member, isFin, _⟩ := inv.boundary.mp known
      have ends := (inv.genuine frame member).2 isFin
      rw [inv.boundaryAt, if_pos known] at reached
      exact ⟨frame, member, isFin, ends ▸ reached⟩
    · intro ⟨frame, member, isFin, reached⟩
      have known := inv.boundary.mpr ⟨frame, member, isFin, Nat.pos_of_ne_zero (marked frame member isFin)⟩
      have ends := (inv.genuine frame member).2 isFin
      refine ⟨known, ?_⟩
      rw [inv.boundaryAt, if_pos known]
      omega

theorem consume (n : Nat) :
    Assembled X finAt frames (delivered ++ sd.recvBuf.take n) (sd.consume n) where
  sound := by
    have same : (sd.consume n).assembly (delivered ++ sd.recvBuf.take n) = sd.assembly delivered := by
      simp [assembly, QuicStreamPrivate.consume]
    exact same ▸ inv.sound
  genuine := inv.genuine
  drained := inv.drained
  boundary := inv.boundary
  boundaryAt := inv.boundaryAt
  finished := inv.finished

omit inv

end Assembled

theorem declareFin_finReceived (sd : QuicStreamPrivate)
    (finished : sd.finReceived = true → sd.hasFinBoundary = true ∧ sd.finBoundary ≤ sd.recvOffset) :
    sd.declareFin.finReceived = true ↔ sd.hasFinBoundary = true ∧ sd.finBoundary ≤ sd.recvOffset := by
  unfold declareFin
  split
  · rename_i reached
    simp only [true_iff]
    exact reached.2
  · rename_i missed
    constructor
    · exact finished
    · intro reached
      by_contra pending
      exact missed ⟨by simpa using pending, reached⟩

theorem declareFin_marks (sd : QuicStreamPrivate) :
    sd.declareFin.hasFinBoundary = sd.hasFinBoundary ∧ sd.declareFin.finBoundary = sd.finBoundary ∧
      sd.declareFin.recvOffset = sd.recvOffset ∧ sd.declareFin.recvBuf = sd.recvBuf ∧
      sd.declareFin.recvFragments = sd.recvFragments := by
  unfold declareFin
  split <;> exact ⟨rfl, rfl, rfl, rfl, rfl⟩

theorem noteFin_same (sd : QuicStreamPrivate) (frame : QuicFrame) :
    (sd.noteFin frame).finReceived = sd.finReceived ∧ (sd.noteFin frame).recvOffset = sd.recvOffset ∧
      (sd.noteFin frame).recvBuf = sd.recvBuf ∧ (sd.noteFin frame).recvFragments = sd.recvFragments := by
  unfold noteFin
  split <;> exact ⟨rfl, rfl, rfl, rfl⟩

theorem noteFin_boundary (ends : frame.fin = true → frame.endOffset = finAt)
    (boundaryAt : sd.finBoundary = if sd.hasFinBoundary then finAt else 0)
    (finished : sd.finReceived = true → sd.hasFinBoundary = true) :
    ((sd.noteFin frame).hasFinBoundary = true ↔
        frame.fin = true ∧ 0 < frame.endOffset ∨ sd.hasFinBoundary = true) ∧
      ((sd.noteFin frame).finBoundary = if (sd.noteFin frame).hasFinBoundary then finAt else 0) ∧
      (sd.hasFinBoundary = true → sd.noteFin frame = sd) := by
  by_cases known : sd.hasFinBoundary = true
  · have unchanged : sd.noteFin frame = sd := by
      refine if_neg fun ⟨isFin, _, later⟩ => ?_
      have same := ends isFin
      rw [boundaryAt, if_pos known] at later
      omega
    rw [unchanged]
    exact ⟨by simp [known], boundaryAt, fun _ => rfl⟩
  · have pending : sd.finReceived = false := by
      by_contra seen
      exact known (finished (by simpa using seen))
    rw [if_neg known] at boundaryAt
    by_cases news : frame.fin = true ∧ 0 < frame.endOffset
    · have noted : sd.noteFin frame = { sd with finBoundary := frame.endOffset, hasFinBoundary := true } :=
        if_pos ⟨news.1, by simp [pending], by omega⟩
      rw [noted]
      exact ⟨by simp [news], ends news.1, fun old => absurd old known⟩
    · have unchanged : sd.noteFin frame = sd :=
        if_neg fun ⟨isFin, _, later⟩ => news ⟨isFin, by omega⟩
      rw [unchanged]
      exact ⟨by simp [news], by simp [known, boundaryAt], fun _ => rfl⟩

theorem receive_takes (delivered : Bytes) (drained : sd.recvFragments[sd.recvOffset]? = none) (frame : QuicFrame) :
    (sd.assembly delivered).Takes frame.offset frame.data ((sd.receive frame).assembly delivered) := by
  obtain ⟨_, notedOffset, notedBuf, notedFragments⟩ := (sd.reassemble frame).noteFin_same frame
  obtain ⟨_, _, offset, buf, fragments⟩ := ((sd.reassemble frame).noteFin frame).declareFin_marks
  have same : (sd.receive frame).assembly delivered = (sd.reassemble frame).assembly delivered := by
    simp only [receive, assembly, offset, buf, fragments, notedOffset, notedBuf, notedFragments]
  exact same ▸ reassemble_takes delivered drained frame

theorem Assembled.receive (inv : Assembled X finAt frames delivered sd) (genuine : Genuine X finAt frame) :
    Assembled X finAt (frame :: frames) delivered (sd.receive frame) := by
  have takes := receive_takes delivered inv.drained frame
  have later : sd.recvOffset ≤ (sd.reassemble frame).recvOffset :=
    (reassemble_takes delivered inv.drained frame).le_offset
  obtain ⟨midReceived, midKnown, midBoundary⟩ := sd.reassemble_fin frame
  have boundaryAt := inv.boundaryAt
  rw [← midKnown, ← midBoundary] at boundaryAt
  have finished : (sd.reassemble frame).finReceived = true → (sd.reassemble frame).hasFinBoundary = true ∧
      (sd.reassemble frame).finBoundary ≤ (sd.reassemble frame).recvOffset := by
    intro seen
    obtain ⟨known, reached⟩ := inv.finished.mp (midReceived ▸ seen)
    exact ⟨midKnown ▸ known, by omega⟩
  obtain ⟨notedReceived, -⟩ := (sd.reassemble frame).noteFin_same frame
  obtain ⟨notedKnown, notedAt, notedKept⟩ := noteFin_boundary genuine.2 boundaryAt (fun seen => (finished seen).1)
  obtain ⟨known, boundary, offset, -⟩ := ((sd.reassemble frame).noteFin frame).declareFin_marks
  have declared := declareFin_finReceived ((sd.reassemble frame).noteFin frame) fun seen => by
    have reached := finished (notedReceived ▸ seen)
    rw [notedKept reached.1]
    exact reached
  refine ⟨inv.sound.takes takes genuine.1 fun o brought => covered_cons.mpr brought,
    List.forall_mem_cons.mpr ⟨genuine, inv.genuine⟩, takes.drained inv.drained, ?_, ?_, ?_⟩
  all_goals unfold QuicStreamPrivate.receive
  · rw [known, notedKnown, midKnown, inv.boundary]
    simp
  · rw [boundary, known]
    exact notedAt
  · rw [known, boundary, offset]
    exact declared

/-- A frame beyond recvOffset fits among the fragments that were put aside. -/
def keepsApart (sd : QuicStreamPrivate) (frame : QuicFrame) : Prop :=
  sd.recvOffset < frame.offset → frame.data ≠ [] → Fits sd.recvFragments frame.offset frame.endOffset

instance (sd : QuicStreamPrivate) (frame : QuicFrame) : Decidable (sd.keepsApart frame) :=
  inferInstanceAs (Decidable (_ → _ → _))

/-- The frame is no FIN at offset 0, and if it meets recvOffset, then it ends inside no
fragment unless another fragment starts at its end. -/
def endsClear (sd : QuicStreamPrivate) (frame : QuicFrame) : Prop :=
  (frame.fin = true → frame.endOffset ≠ 0) ∧
    (frame.offset ≤ sd.recvOffset ∧ sd.recvOffset < frame.endOffset →
      sd.recvFragments[frame.endOffset]? = none → Clear sd.recvFragments frame.endOffset)

instance (sd : QuicStreamPrivate) (frame : QuicFrame) : Decidable (sd.endsClear frame) :=
  inferInstanceAs (Decidable (_ ∧ _))

/-- Where the fragments are tidy, what has arrived beyond recvOffset can still be
taken in. -/
structure Tidied (frames : List QuicFrame) (sd : QuicStreamPrivate) : Prop where
  tidy : (sd.assembly []).Tidy (Covered frames)
  clear : Clear sd.recvFragments sd.recvOffset
  marked : ∀ frame ∈ frames, frame.fin = true → frame.endOffset ≠ 0

namespace Tidied

theorem new : Tidied [] {} := ⟨⟨by simp [assembly], by simp [Covered]⟩, by simp [Clear], by simp⟩

theorem maximalPrefix (tidied : sd.Tidied frames) (inv : Assembled X finAt frames delivered sd) :
    MaximalPrefix X frames delivered sd :=
  inv.maximalPrefix_iff.mpr ⟨tidied.tidy.not_arrived inv.drained tidied.clear, tidied.marked⟩

theorem receive (tidied : sd.Tidied frames) (drained : sd.recvFragments[sd.recvOffset]? = none)
    (apart : sd.keepsApart frame) (clear : sd.endsClear frame) :
    (sd.receive frame).Tidied (frame :: frames) := by
  obtain ⟨tidy, ahead⟩ := tidied.tidy.takes (receive_takes [] drained frame) tidied.clear apart
    (fun reaches fresh => clear.2 ⟨reaches, fresh⟩) fun o here => covered_cons.mp here
  exact ⟨tidy, ahead, List.forall_mem_cons.mpr ⟨clear.1, tidied.marked⟩⟩

end Tidied

theorem Assembled.endsClear_of_maximal (inv : Assembled X finAt frames delivered sd) (genuine : Genuine X finAt frame)
    (after : MaximalPrefix X (frame :: frames) delivered (sd.receive frame)) : sd.endsClear frame := by
  obtain ⟨gap, marked⟩ := (inv.receive genuine).maximalPrefix_iff.mp after
  exact ⟨marked frame List.mem_cons_self, fun meets => inv.sound.clear_of_takes
    (receive_takes delivered inv.drained frame) meets.1 meets.2 fun here => gap (covered_cons.mpr (.inr here))⟩

end QuicStreamPrivate

namespace ReceiveWorld

variable {e : ReceiveEvent}

/-- The peer sends on each stream data from one byte stream, with the FIN at one
offset. -/
def admits (X : Nat → Bytes) (finAt : Nat → Nat) : ReceiveEvent → Bool
  | .streamFrame frame => QuicStreamPrivate.Genuine (X frame.streamId) (finAt frame.streamId) frame
  | _ => true

def genuineStep (X : Nat → Bytes) (finAt : Nat → Nat) (s : ReceiveWorld) (e : ReceiveEvent) : Option ReceiveWorld :=
  if admits X finAt e then s.step e else none

def AllAssembled (X : Nat → Bytes) (finAt : Nat → Nat) (s : ReceiveWorld) : Prop :=
  ∀ id, (s.conn.stream id).Assembled (X id) (finAt id) (s.frames id) (s.delivered id)

def AllTidied (s : ReceiveWorld) : Prop := ∀ id, (s.conn.stream id).Tidied (s.frames id)

/-- Each frame that is taken and put aside fits among the fragments of its stream. -/
def keepsApart (s : ReceiveWorld) : ReceiveEvent → Bool
  | .streamFrame frame => s.conn.accepts frame = true → (s.conn.stream frame.streamId).keepsApart frame
  | _ => true

/-- Each frame that is taken and goes on from recvOffset ends clear of the fragments. -/
def endsClear (s : ReceiveWorld) : ReceiveEvent → Bool
  | .streamFrame frame => s.conn.accepts frame = true → (s.conn.stream frame.streamId).endsClear frame
  | _ => true

variable {X : Nat → Bytes} {finAt : Nat → Nat} {s t : ReceiveWorld}

theorem frames_cons (s : ReceiveWorld) (frame : QuicFrame) (id : Nat) :
    { s with accepted := frame :: s.accepted }.frames id =
      if id = frame.streamId then frame :: s.frames id else s.frames id := by
  unfold frames
  rw [List.filter_cons]
  by_cases own : id = frame.streamId
  · simp [own]
  · simp [own, Ne.symm own]

theorem step_accepted {frame : QuicFrame} (taken : s.conn.accepts frame = true)
    (stepped : s.step (.streamFrame frame) = some t) (id : Nat) :
    t.delivered id = s.delivered id ∧
      (t.frames id = if id = frame.streamId then frame :: s.frames id else s.frames id) ∧
      (t.conn.stream id = if id = frame.streamId then (s.conn.stream id).receive frame else s.conn.stream id) := by
  cases stepped
  refine ⟨rfl, ?_, ?_⟩
  · rw [← frames_cons]
    simp [frames, taken]
  · rw [onStreamFrame_stream]
    simp [taken]

/-- A step takes a frame on the stream, or leaves what has arrived on it alone. -/
theorem step_cases (inv : s.AllAssembled X finAt) (stepped : s.step e = some t) (id : Nat) :
    (∃ frame, e = .streamFrame frame ∧ s.conn.accepts frame = true ∧ frame.streamId = id) ∨
      ((t.conn.stream id).Assembled (X id) (finAt id) (t.frames id) (t.delivered id) ∧ t.frames id = s.frames id ∧
        (t.conn.stream id).recvOffset = (s.conn.stream id).recvOffset ∧
        (t.conn.stream id).recvFragments = (s.conn.stream id).recvFragments) := by
  by_cases taking : ∃ frame, e = .streamFrame frame ∧ s.conn.accepts frame = true
  · obtain ⟨frame, rfl, taken⟩ := taking
    by_cases own : frame.streamId = id
    · exact .inl ⟨frame, rfl, taken, own⟩
    · obtain ⟨delivered, frames, stream⟩ := step_accepted taken stepped id
      rw [if_neg (Ne.symm own)] at frames stream
      rw [delivered, frames, stream]
      exact .inr ⟨inv id, rfl, rfl, rfl⟩
  refine .inr ?_
  cases e with
  | streamFrame frame =>
    have refused : s.conn.accepts frame = false := by simpa using taking
    cases stepped
    simp only [refused, Bool.false_eq_true, if_false, onStreamFrame_stream, false_and, and_true]
    exact ⟨inv id, rfl⟩
  | recv other size =>
    obtain ⟨⟨conn, bytes, n⟩, returned, rfl⟩ := Option.map_eq_some_iff.mp stepped
    obtain ⟨count, copied, streams⟩ := recv_stream returned
    dsimp only
    rw [streams id]
    by_cases own : id = other
    · subst own
      rw [if_pos rfl, Function.update_self, copied]
      exact ⟨(inv id).consume count, rfl, rfl, rfl⟩
    · rw [if_neg own, Function.update_of_ne own]
      exact ⟨inv id, rfl, rfl, rfl⟩
  | streamDataBlocked other =>
    cases stepped
    have same : (s.conn.maybeIncreaseMaxStreamData other).stream id = s.conn.stream id := by
      simp [stream]
    dsimp only
    rw [same]
    exact ⟨inv id, rfl, rfl, rfl⟩
  | reset other =>
    obtain ⟨sd, present, rfl⟩ := Option.map_eq_some_iff.mp stepped
    have current : s.conn.stream other = sd := by simp [stream, present]
    dsimp only
    rw [stream_setStream]
    by_cases own : id = other
    · subst own
      have old := inv id
      rw [current] at old
      rw [if_pos rfl, current]
      exact ⟨⟨old.sound, old.genuine, old.drained, old.boundary, old.boundaryAt, old.finished⟩, rfl, rfl, rfl⟩
    · rw [if_neg own]
      exact ⟨inv id, rfl, rfl, rfl⟩
  | appKeys =>
    cases stepped
    exact ⟨inv id, rfl, rfl, rfl⟩

theorem AllAssembled.step (inv : s.AllAssembled X finAt)
    (stepped : s.genuineStep X finAt e = some t) : t.AllAssembled X finAt := by
  obtain ⟨genuine, stepped⟩ := Option.ite_none_right_eq_some.mp stepped
  intro id
  rcases step_cases inv stepped id with ⟨frame, rfl, taken, rfl⟩ | ⟨assembled, -⟩
  · obtain ⟨delivered, frames, stream⟩ := step_accepted taken stepped frame.streamId
    rw [delivered, frames, stream, if_pos rfl, if_pos rfl]
    exact (inv frame.streamId).receive (by simpa [admits] using genuine)
  · exact assembled

theorem AllTidied.step (tidied : s.AllTidied) (inv : s.AllAssembled X finAt) (apart : s.keepsApart e = true)
    (clear : s.endsClear e = true) (stepped : s.genuineStep X finAt e = some t) : t.AllTidied := by
  obtain ⟨-, stepped⟩ := Option.ite_none_right_eq_some.mp stepped
  intro id
  rcases step_cases inv stepped id with ⟨frame, rfl, taken, rfl⟩ | ⟨-, frames, offset, fragments⟩
  · obtain ⟨-, frames, stream⟩ := step_accepted taken stepped frame.streamId
    rw [frames, stream, if_pos rfl, if_pos rfl]
    simp only [keepsApart, endsClear, taken, forall_const, decide_eq_true_eq] at apart clear
    exact (tidied frame.streamId).receive (inv frame.streamId).drained apart clear
  · obtain ⟨⟨ends, kept⟩, ahead, marked⟩ := tidied id
    simp only [QuicStreamPrivate.assembly] at ends kept
    rw [← fragments] at ends ahead
    rw [← offset] at ahead
    rw [frames]
    refine ⟨⟨ends, ?_⟩, ahead, marked⟩
    simpa only [QuicStreamPrivate.assembly, fragments, offset] using kept

theorem endsClear_of_maximal (inv : s.AllAssembled X finAt) (stepped : s.genuineStep X finAt e = some t)
    (after : ∀ id, (t.conn.stream id).MaximalPrefix (X id) (t.frames id) (t.delivered id)) :
    s.endsClear e = true := by
  obtain ⟨genuine, stepped⟩ := Option.ite_none_right_eq_some.mp stepped
  cases e with
  | streamFrame frame =>
    simp only [endsClear, decide_eq_true_eq]
    intro taken
    obtain ⟨delivered, frames, stream⟩ := step_accepted taken stepped frame.streamId
    have own := after frame.streamId
    rw [delivered, frames, stream, if_pos rfl, if_pos rfl] at own
    exact (inv frame.streamId).endsClear_of_maximal (by simpa [admits] using genuine) own
  | _ => rfl

end ReceiveWorld

/-- All runs of the receiving half of a connection whose peer sends on each stream
data from one byte stream. -/
def reassemblySystem (X : Nat → Bytes) (finAt : Nat → Nat) : System ReceiveWorld ReceiveEvent :=
  .ofStep (fun s => ∃ isClient config, s = { conn := .new isClient config }) (ReceiveWorld.genuineStep X finAt)

/-- As long as the frames that are put aside fit among the fragments, what has been
read and what is buffered make up the maximal prefix on every stream exactly if each
frame that goes on from recvOffset ends clear of them, with no FIN at offset 0. -/
theorem stream_reassembly_maximal {X : Nat → Bytes} {finAt : Nat → Nat} {history : List (ReceiveWorld × ReceiveEvent)}
    {t : ReceiveWorld} (run : Run (reassemblySystem X finAt) history t)
    (apart : ∀ entry ∈ history, entry.1.keepsApart entry.2 = true) :
    (∀ s, Visited history t s → ∀ id,
      (s.conn.stream id).MaximalPrefix (X id) (s.frames id) (s.delivered id)) ↔
      ∀ entry ∈ history, entry.1.endsClear entry.2 = true := by
  refine run.everywhere_iff_of_guard (fun s e => s.keepsApart e = true) (fun s e => s.endsClear e = true)
    (fun s => s.AllAssembled X finAt ∧ s.AllTidied) _ apart ?_ ?_ ?_ ?_
  · rintro s ⟨isClient, config, rfl⟩
    exact ⟨fun id => .new (X id) (finAt id), fun _ => .new⟩
  · exact fun s both id => (both.2 id).maximalPrefix (both.1 id)
  · exact fun s e t both fits clear stepped => ⟨both.1.step stepped, both.2.step both.1 fits clear stepped⟩
  · exact fun s e t both _ stepped after => ReceiveWorld.endsClear_of_maximal both.1 stepped after

def threeBytes : Nat → Bytes := fun _ => [1, 2, 3]

/-- The end of the stream comes first, then its beginning, of which the application
reads one byte. -/
def endFirst : List ReceiveEvent :=
  [.streamFrame { type := .stream, streamId := 0, offset := 2, data := [3], fin := true },
    .streamFrame { type := .stream, streamId := 0, offset := 0, data := [1, 2] }, .recv 0 1]

theorem stream_reassembly_maximal_endFirst :
    ∃ history t, Run (reassemblySystem threeBytes fun _ => 3) history t ∧
      history.map Prod.snd = endFirst.reverse ∧ t.delivered 0 = [1] ∧
      (t.conn.stream 0).MaximalPrefix [1, 2, 3] (t.frames 0) (t.delivered 0) := by
  obtain ⟨history, t, run, labels, guarded, delivered⟩ :=
    Run.of_exec_guarded (reassemblySystem threeBytes fun _ => 3) (fun s e => s.keepsApart e && s.endsClear e)
      rfl endFirst ⟨false, {}, rfl⟩ (fun t => t.delivered 0 = [1]) (by decide)
  have both := fun entry member => Bool.and_eq_true_iff.mp (guarded entry member)
  exact ⟨history, t, run, labels, delivered,
    (stream_reassembly_maximal run fun entry member => (both entry member).1).mpr
    (fun entry member => (both entry member).2) t (.inl rfl) 0⟩

/-- Where the FIN stands at the end of the byte stream, the application reads a prefix of it, and
recv returns 0 at an empty buffer only if all of it has been read. -/
theorem stream_delivery_sound {X : Nat → Bytes} {history : List (ReceiveWorld × ReceiveEvent)} {t : ReceiveWorld}
    (run : Run (reassemblySystem X fun id => (X id).length) history t) (id : Nat) :
    t.delivered id ++ (t.conn.stream id).recvBuf <+: X id ∧
      ∀ size, (t.conn.stream id).recvBuf = [] → (t.conn.recv id size).map Prod.snd = some ([], 0) →
        t.delivered id = X id := by
  have inv : t.AllAssembled X fun id => (X id).length := by
    refine run.invariant ?_ fun _ _ _ inv stepped => inv.step stepped
    rintro s ⟨isClient, config, rfl⟩ id
    exact .new _ _
  have whole : t.delivered id ++ (t.conn.stream id).recvBuf = (X id).take (t.conn.stream id).recvOffset :=
    (inv id).sound.bytes
  refine ⟨whole ▸ List.take_prefix _ _, ?_⟩
  intro size empty returned
  have seen : (t.conn.stream id).finReceived = true := by
    unfold recv at returned
    split at returned
    · cases returned
    · rename_i sd present
      rw [stream, present, Option.getD_some] at empty ⊢
      by_contra pending
      simp [empty, pending, apply_ite] at returned
  obtain ⟨known, reached⟩ := (inv id).finished.mp seen
  rw [(inv id).boundaryAt, if_pos known] at reached
  rwa [empty, List.append_nil, List.take_of_length_le reached] at whole

theorem stream_delivery_sound_endFirst :
    ∃ history t, Run (reassemblySystem threeBytes fun id => (threeBytes id).length) history t ∧
      (t.conn.stream 0).recvBuf = [] ∧ t.delivered 0 = threeBytes 0 := by
  obtain ⟨history, t, run, -, empty, returned⟩ :=
    Run.of_exec (reassemblySystem threeBytes fun id => (threeBytes id).length) rfl
      (endFirst ++ [.recv 0 2]) ⟨false, {}, rfl⟩ (fun t : ReceiveWorld =>
        (t.conn.stream 0).recvBuf = [] ∧ (t.conn.recv 0 5).map Prod.snd = some ([], 0)) (by decide)
  exact ⟨history, t, run, empty, (stream_delivery_sound run 0).2 5 empty returned⟩

/-- The second frame overlaps the first one, which was put aside. -/
def overlapping : List ReceiveEvent :=
  [.streamFrame { type := .stream, streamId := 0, offset := 1, data := [2, 3] },
    .streamFrame { type := .stream, streamId := 0, offset := 0, data := [1, 2] }]

/-- All three bytes have arrived but the last one stays among the fragments. -/
theorem stream_reassembly_stuck_overlapping :
    ∃ history t, Run (reassemblySystem threeBytes fun _ => 3) history t ∧
      history.map Prod.snd = overlapping.reverse ∧ t.delivered 0 = [] ∧ (t.conn.stream 0).recvBuf = [1, 2] ∧
      IsGreatest {k | ∀ o < k, Covered (t.frames 0) o} 3 ∧
      ¬ (t.conn.stream 0).MaximalPrefix [1, 2, 3] (t.frames 0) (t.delivered 0) := by
  obtain ⟨history, t, run, labels, delivered, buffer, below, gap⟩ :=
    Run.of_exec (reassemblySystem threeBytes fun _ => 3) rfl overlapping
      ⟨false, {}, rfl⟩ (fun t : ReceiveWorld => t.delivered 0 = [] ∧ (t.conn.stream 0).recvBuf = [1, 2] ∧
        (∀ o : Nat, o < 3 → Covered (t.frames 0) o) ∧ ¬ Covered (t.frames 0) 3) (by decide)
  have three := isGreatest_below_iff.mpr ⟨below, gap⟩
  refine ⟨history, t, run, labels, delivered, buffer, three, ?_⟩
  intro ⟨k, greatest, bytes, _⟩
  cases greatest.unique three
  rw [delivered, buffer] at bytes
  simp at bytes

end Qtng
