import Qtng.Quic.Reassembly
import Qtng.Quic.Recovery

namespace Qtng

open BigEndian Segments Transition List Option

/-- The CRYPTO data of one packet number space. The bytes in order go to TLS at once;
fragments are kept in the Initial and the Handshake space only. -/
abbrev QuicCryptoStream := Assembly UInt8

namespace QuicCryptoStream

def onCryptoFrame (space : QuicPacketNumberSpace) (c : QuicCryptoStream) (frame : QuicFrame) : QuicCryptoStream :=
  if space = .application then
    if frame.endOffset ≤ c.offset then c
    else if frame.offset > c.offset then c
    else
      let skip := c.offset - frame.offset
      { c with bytes := c.bytes ++ frame.data.drop skip, offset := c.offset + (frame.data.length - skip) }
  else if frame.data = [] then c
  else if frame.endOffset ≤ c.offset then c
  else
    let fragments := c.fragments.insert frame.offset frame.data
    Assembly.collect fragments.size { c with fragments }

def meets (c : QuicCryptoStream) (frame : QuicFrame) : Prop := frame.offset ≤ c.offset ∧ c.offset < frame.endOffset

instance (c : QuicCryptoStream) (frame : QuicFrame) : Decidable (c.meets frame) :=
  inferInstanceAs (Decidable (_ ∧ _))

section

variable {space : QuicPacketNumberSpace} {c : QuicCryptoStream} {frame : QuicFrame}

theorem onCryptoFrame_aside (other : space ≠ .application) (drained : c.fragments[c.offset]? = none)
    (start : frame.offset ≠ c.offset) (fresh : c.offset < frame.endOffset) (proper : frame.data ≠ []) :
    c.onCryptoFrame space frame = { c with fragments := c.fragments.insert frame.offset frame.data } := by
  simp only [onCryptoFrame, if_neg other, if_neg proper, if_neg (not_le.mpr fresh)]
  apply Assembly.collect_of_absent
  rw [NatMap.getElem?_insert, if_neg (fun same => start same.symm)]
  exact drained

/-- A frame that starts below the offset is cut off there in the application space only,
where no frame is put aside. -/
theorem onCryptoFrame_takes (drained : c.fragments[c.offset]? = none) (appFree : space = .application → c.fragments = ∅)
    (kept : c.offset < frame.offset → frame.data ≠ [] → space ≠ .application)
    (straight : c.meets frame → space = .application ∨ frame.offset = c.offset) :
    c.Takes frame.offset frame.data (c.onCryptoFrame space frame) := by
  have ends : frame.endOffset = frame.offset + frame.data.length := rfl
  have taken := @Assembly.Takes.meets _ c frame.offset frame.data
  unfold onCryptoFrame
  split_ifs with app old beyond empty old
  · exact .idle (.inl old)
  · refine .idle (.inr ?_)
    by_contra proper
    exact kept beyond proper app
  · have reached : c.offset + (frame.data.length - (c.offset - frame.offset)) = frame.endOffset := by omega
    have none := appFree app
    simpa [Assembly.collect, none, reached, ends] using taken (by omega) (by omega)
  · exact .idle (.inr empty)
  · exact .idle (.inl old)
  · by_cases beyond : c.offset < frame.offset
    · dsimp only
      rw [Assembly.collect_of_absent]
      · exact .aside beyond empty
      · rw [NatMap.getElem?_insert, if_neg beyond.ne]
        exact drained
    · have start := (straight ⟨by omega, by omega⟩).resolve_left app
      dsimp only
      rw [start, Assembly.collect_insert drained]
      simpa [start] using taken (by omega) (by omega)

end

theorem onCryptoFrame_drained (space : QuicPacketNumberSpace) (c : QuicCryptoStream) (frame : QuicFrame)
    (drained : c.fragments[c.offset]? = none) (appFree : space = .application → c.fragments = ∅) :
    (c.onCryptoFrame space frame).fragments[(c.onCryptoFrame space frame).offset]? = none ∧
      (space = .application → (c.onCryptoFrame space frame).fragments = ∅) := by
  unfold onCryptoFrame
  by_cases app : space = .application
  · have none := appFree app
    simp only [app, if_true, true_implies]
    split
    · exact ⟨drained, none⟩
    · split
      · exact ⟨drained, none⟩
      · exact ⟨by simp [none], none⟩
  · simp only [app, if_false, false_implies, and_true]
    split
    · exact drained
    · split
      · exact drained
      · exact Assembly.collect_stops _ _ le_rfl

theorem sound_onCryptoFrame {X : Bytes} {frames : List QuicFrame} {c : QuicCryptoStream} {frame : QuicFrame}
    {space : QuicPacketNumberSpace} (inv : c.Sound X (Covered frames)) (drained : c.fragments[c.offset]? = none)
    (appFree : space = .application → c.fragments = ∅) (genuine : IsSegment X frame.offset frame.data) :
    (c.onCryptoFrame space frame).Sound X (Covered (frame :: frames)) := by
  have later : c.Sound X (Covered (frame :: frames)) := inv.mono fun o old => covered_cons.mpr (Or.inr old)
  unfold onCryptoFrame
  split_ifs with app old beyond
  · exact later
  · exact later
  · have takes := onCryptoFrame_takes drained appFree (fun past => absurd past beyond) fun _ => .inl app
    rw [onCryptoFrame, if_pos app, if_neg old, if_neg beyond] at takes
    exact inv.takes takes genuine fun o => covered_cons.mpr
  · exact later
  · exact later
  · apply Assembly.Sound.collect
    exact later.insert genuine fun o first last => covered_cons.mpr (.inl ⟨first, last⟩)

/-- The bytes that TLS has got are those up to the first offset that no frame has
brought. -/
def Complete (X : Bytes) (frames : List QuicFrame) (c : QuicCryptoStream) : Prop :=
  ∃ k, IsGreatest {k | ∀ o < k, Covered frames o} k ∧ c.bytes = X.take k

/-- A frame beyond the offset fits among the fragments, of which the application space
keeps none. -/
def keepsApart (space : QuicPacketNumberSpace) (c : QuicCryptoStream) (frame : QuicFrame) : Prop :=
  c.offset < frame.offset → frame.data ≠ [] →
    space ≠ .application ∧ Fits c.fragments frame.offset frame.endOffset

instance (space : QuicPacketNumberSpace) (c : QuicCryptoStream) (frame : QuicFrame) :
    Decidable (c.keepsApart space frame) :=
  inferInstanceAs (Decidable (_ → _ → _))

/-- Outside the application space, a frame that brings the byte at the offset starts
there, and ends inside no fragment unless another fragment starts at its end. -/
def endsClear (space : QuicPacketNumberSpace) (c : QuicCryptoStream) (frame : QuicFrame) : Prop :=
  c.meets frame → space = .application ∨
    frame.offset = c.offset ∧ (c.fragments[frame.endOffset]? = none → Clear c.fragments frame.endOffset)

instance (space : QuicPacketNumberSpace) (c : QuicCryptoStream) (frame : QuicFrame) :
    Decidable (c.endsClear space frame) :=
  inferInstanceAs (Decidable (_ → _))

theorem tidy_onCryptoFrame {space : QuicPacketNumberSpace} {c : QuicCryptoStream} {frame : QuicFrame}
    {frames : List QuicFrame} (tidy : c.Tidy (Covered frames)) (clear : Clear c.fragments c.offset)
    (drained : c.fragments[c.offset]? = none) (appFree : space = .application → c.fragments = ∅)
    (apart : c.keepsApart space frame) (endsClear : c.endsClear space frame) :
    (c.onCryptoFrame space frame).Tidy (Covered (frame :: frames)) ∧
      Clear (c.onCryptoFrame space frame).fragments (c.onCryptoFrame space frame).offset := by
  have takes := onCryptoFrame_takes drained appFree (fun beyond proper => (apart beyond proper).1)
    fun meets => (endsClear meets).imp_right And.left
  refine tidy.takes takes clear (fun beyond proper => (apart beyond proper).2) ?_ fun o => covered_cons.mp
  intro reaches fresh
  rcases endsClear ⟨reaches, fresh⟩ with app | ⟨_, behind⟩
  · simp [Clear, appFree app]
  · exact behind

/-- Where the condition is not met, the offset stays at or moves to a byte that has
arrived. -/
theorem endsClear_of_not_covered {X : Bytes} {space : QuicPacketNumberSpace} {c : QuicCryptoStream}
    {frame : QuicFrame} {frames : List QuicFrame} (inv : c.Sound X (Covered frames))
    (drained : c.fragments[c.offset]? = none) (appFree : space = .application → c.fragments = ∅)
    (gap : ¬ Covered (frame :: frames) (c.onCryptoFrame space frame).offset) : c.endsClear space frame := by
  have ends : frame.endOffset = frame.offset + frame.data.length := rfl
  intro meets
  by_cases app : space = .application
  · exact .inl app
  · refine .inr ?_
    by_cases start : frame.offset = c.offset
    · have takes := onCryptoFrame_takes drained appFree (fun _ _ => app) fun _ => .inr start
      exact ⟨start, inv.clear_of_takes takes meets.1 meets.2 fun here => gap (covered_cons.mpr (.inr here))⟩
    · have proper : frame.data ≠ [] := length_pos_iff.mp (by have := meets.1; have := meets.2; omega)
      rw [onCryptoFrame_aside app drained start meets.2 proper] at gap
      exact absurd (covered_cons.mpr (.inl meets)) gap

end QuicCryptoStream

open QuicCryptoStream

/-- The CRYPTO frames of one packet number space, and what has become of their data. -/
structure CryptoWorld where
  stream : QuicCryptoStream := {}
  frames : List QuicFrame := []

namespace CryptoWorld

variable {X : Bytes} {space : QuicPacketNumberSpace} {s t : CryptoWorld}

/-- The data of the frames are parts of one byte string. -/
def step (X : Bytes) (space : QuicPacketNumberSpace) (s : CryptoWorld) (frame : QuicFrame) : Option CryptoWorld :=
  if IsSegment X frame.offset frame.data then
    some { stream := s.stream.onCryptoFrame space frame, frames := frame :: s.frames }
  else none

structure Sound (X : Bytes) (space : QuicPacketNumberSpace) (s : CryptoWorld) : Prop where
  genuine : ∀ frame ∈ s.frames, IsSegment X frame.offset frame.data
  sound : s.stream.Sound X (Covered s.frames)
  drained : s.stream.fragments[s.stream.offset]? = none
  appFree : space = .application → s.stream.fragments = ∅

theorem Sound.complete_iff (inv : s.Sound X space) :
    s.stream.Complete X s.frames ↔ ¬ Covered s.frames s.stream.offset := by
  refine inv.sound.greatest_iff ?_
  intro o covered
  obtain ⟨frame, member, _, last⟩ := covered
  exact Nat.lt_of_lt_of_le last (inv.genuine frame member).1

theorem Sound.step {frame : QuicFrame} (inv : s.Sound X space) (stepped : s.step X space frame = some t) :
    t.Sound X space := by
  obtain ⟨genuine, same⟩ := ite_none_right_eq_some.mp stepped
  cases same
  obtain ⟨drained, appFree⟩ := onCryptoFrame_drained space s.stream frame inv.drained inv.appFree
  refine ⟨?_, sound_onCryptoFrame inv.sound inv.drained inv.appFree genuine, drained, appFree⟩
  intro other member
  rcases mem_cons.mp member with own | old
  · exact own ▸ genuine
  · exact inv.genuine other old

def Tidied (s : CryptoWorld) : Prop :=
  s.stream.Tidy (Covered s.frames) ∧ Clear s.stream.fragments s.stream.offset

def keepsApart (space : QuicPacketNumberSpace) (s : CryptoWorld) (frame : QuicFrame) : Bool :=
  s.stream.keepsApart space frame

def endsClear (space : QuicPacketNumberSpace) (s : CryptoWorld) (frame : QuicFrame) : Bool :=
  s.stream.endsClear space frame

end CryptoWorld

def cryptoSystem (X : Bytes) (space : QuicPacketNumberSpace) : System CryptoWorld QuicFrame :=
  .ofStep (fun s => s = {}) (CryptoWorld.step X space)

/-- As long as the frames beyond the offset fit among the fragments, TLS has got the
maximal prefix after every frame exactly if each frame that brings the byte at the offset
starts there and ends clear of the fragments, or the space is that of the application. -/
theorem crypto_reassembly_complete {X : Bytes} {space : QuicPacketNumberSpace}
    {history : List (CryptoWorld × QuicFrame)} {t : CryptoWorld}
    (run : Run (cryptoSystem X space) history t)
    (apart : ∀ entry ∈ history, entry.1.keepsApart space entry.2 = true) :
    (∀ s, Visited history t s → s.stream.Complete X s.frames) ↔
      ∀ entry ∈ history, entry.1.endsClear space entry.2 = true := by
  refine run.everywhere_iff_of_guard (fun s frame => s.keepsApart space frame = true)
    (fun s frame => s.endsClear space frame = true) (fun s => s.Sound X space ∧ s.Tidied) _ apart ?_ ?_ ?_ ?_
  · intro s fresh
    subst fresh
    exact ⟨⟨by simp, ⟨rfl, Nat.zero_le _, by simp, by simp, by simp⟩, by simp, fun _ => rfl⟩,
      ⟨by simp, by simp [Covered]⟩, by simp [Clear]⟩
  · exact fun s both => both.1.complete_iff.mpr (both.2.1.not_arrived both.1.drained both.2.2)
  · intro s frame t both fits clear stepped
    refine ⟨both.1.step stepped, ?_⟩
    obtain ⟨_, same⟩ := ite_none_right_eq_some.mp stepped
    cases same
    exact tidy_onCryptoFrame both.2.1 both.2.2 both.1.drained both.1.appFree (of_decide_eq_true fits)
      (of_decide_eq_true clear)
  · intro s frame t both _ stepped after
    have gap := (both.1.step stepped).complete_iff.mp after
    obtain ⟨_, same⟩ := ite_none_right_eq_some.mp stepped
    cases same
    exact decide_eq_true (endsClear_of_not_covered both.1.sound both.1.drained both.1.appFree gap)

def cryptoEndFirst : List QuicFrame :=
  [{ type := .crypto, offset := 2, data := [3] }, { type := .crypto, offset := 0, data := [1, 2] },
    { type := .crypto, offset := 0, data := [1, 2] }]

theorem crypto_reassembly_complete_endFirst :
    ∃ history t, Run (cryptoSystem [1, 2, 3] .handshake) history t ∧
      history.map Prod.snd = cryptoEndFirst.reverse ∧ t.stream.bytes = [1, 2, 3] ∧
      t.stream.Complete [1, 2, 3] t.frames := by
  obtain ⟨history, t, run, labels, guarded, bytes⟩ :=
    Run.of_exec_guarded (cryptoSystem [1, 2, 3] .handshake)
      (fun s frame => s.keepsApart .handshake frame && s.endsClear .handshake frame)
      rfl cryptoEndFirst rfl (fun t => t.stream.bytes = [1, 2, 3]) (by decide)
  have both := fun entry member => Bool.and_eq_true_iff.mp (guarded entry member)
  exact ⟨history, t, run, labels, bytes, (crypto_reassembly_complete run fun entry member => (both entry member).1).mpr
    (fun entry member => (both entry member).2) t (Or.inl rfl)⟩

/-- The second frame begins inside what the first one has brought. -/
def cryptoStraddling : List QuicFrame :=
  [{ type := .crypto, offset := 0, data := [1, 2] }, { type := .crypto, offset := 1, data := [2, 3] }]

/-- The three bytes have all arrived, and TLS gets two of them. -/
theorem crypto_reassembly_stuck_straddling :
    ∃ history t, Run (cryptoSystem [1, 2, 3] .initial) history t ∧
      history.map Prod.snd = cryptoStraddling.reverse ∧ t.stream.bytes = [1, 2] ∧
      IsGreatest {k | ∀ o < k, Covered t.frames o} 3 ∧ ¬ t.stream.Complete [1, 2, 3] t.frames := by
  obtain ⟨history, t, run, labels, bytes, below, gap⟩ :=
    Run.of_exec (cryptoSystem [1, 2, 3] .initial) rfl cryptoStraddling rfl
      (fun t : CryptoWorld => t.stream.bytes = [1, 2] ∧ (∀ o : Nat, o < 3 → Covered t.frames o) ∧ ¬ Covered t.frames 3)
      (by decide)
  have three := isGreatest_below_iff.mpr ⟨below, gap⟩
  refine ⟨history, t, run, labels, bytes, three, ?_⟩
  intro complete
  obtain ⟨k, greatest, whole⟩ := complete
  cases greatest.unique three
  rw [bytes] at whole
  simp at whole

end Qtng
