import Qtng.Channel.Stations

namespace Qtng

open BigEndian Transition SubChannel SocketChannelPrivate Function List Option Bool

/-- The end that opens the sub-channel of a number: below 2^31 channels, the numbers of
the two poles stay in the two halves. -/
def openerSide (n : UInt32) : Bool := decide (2 ^ 31 < n.toNat)

namespace ChannelWorld

def view (s : ChannelWorld) (n : UInt32) : SubChannel :=
  .between ((s.ends (openerSide n)).station n) ((s.ends (!openerSide n)).station n)
    (notices n (s.wire (openerSide n))) (notices n (s.wire (!openerSide n)))

def Issued (s : ChannelWorld) (n : UInt32) : Prop :=
  if openerSide n then 2 ^ 32 ≤ n.toNat + (s.ends true).made
  else 2 ≤ n.toNat ∧ n.toNat < 2 + (s.ends false).made

end ChannelWorld

structure SocketChannelPrivate.Counts (d : SocketChannelPrivate) (side : Bool) : Prop where
  pole : d.pole = if side then .negativePole else .positivePole
  few : d.made < 2 ^ 31
  next : d.nextChannelNumber.toNat = if side then 2 ^ 32 - 1 - d.made else 2 + d.made

theorem SocketChannelPrivate.Keeps.counts {limit : UInt32} {d e : SocketChannelPrivate} {side : Bool}
    (keeps : Keeps limit d e)
    (counts : d.Counts side) : e.Counts side := by
  refine ⟨?_, ?_, ?_⟩
  · rw [keeps.pole, counts.pole]
  · rw [keeps.made]
    exact counts.few
  · rw [keeps.next, keeps.made, counts.next]

namespace ChannelWorld

variable {s : ChannelWorld} {n : UInt32} {d : SocketChannelPrivate} {side : Bool}

/-- The two ends are connected and every sub-channel is consistent. The limit is the
smaller one of their two maximum sizes. -/
structure Agreed (limit : UInt32) (s : ChannelWorld) : Prop where
  ready : ∀ side, (s.ends side).Ready limit
  least : ∀ size, (∀ side, size ≤ (s.ends side).maxPayloadSize) → size ≤ limit
  wire : ∀ side, ∀ p ∈ s.wire side, Fair limit p
  counts : ∀ side, (s.ends side).Counts side
  consistent : ∀ n, (s.view n).Consistent
  fresh : ∀ n, ¬s.Issued n → s.view n = .idle

theorem Starts.agreed (starts : s.Starts) : ∃ limit, s.Agreed limit := by
  obtain ⟨capacity, maxPayloadSize, room, rfl⟩ := starts
  have idle : ∀ n, view ⟨fun side => .new (if side then .negativePole else .positivePole) (capacity side)
      (maxPayloadSize side), fun _ => []⟩ n = .idle := by
    intro n
    simp [view, between, station, new, notices, idle]
  obtain ⟨limit, wide, within, least⟩ : ∃ limit, 56 ≤ limit ∧ (∀ side, limit ≤ maxPayloadSize side) ∧
      ∀ size, (∀ side, size ≤ maxPayloadSize side) → size ≤ limit := by
    rcases UInt32.le_total (maxPayloadSize false) (maxPayloadSize true) with less | less
    · refine ⟨maxPayloadSize false, room false, ?_, fun size all => all false⟩
      intro side
      cases side
      · exact UInt32.le_refl _
      · exact less
    · refine ⟨maxPayloadSize true, room true, ?_, fun size all => all true⟩
      intro side
      cases side
      · exact less
      · exact UInt32.le_refl _
  refine ⟨limit, fun side => ⟨rfl, wide, within side, rfl, ?_, ?_⟩, least, ?_, fun side => ⟨rfl, ?_, ?_⟩, fun n => ?_,
    fun n _ => idle n⟩
  · simp [new]
  · simp [new]
  · simp
  · simp [new]
  · cases side <;> rfl
  · rw [idle n]
    exact consistent_idle

variable {limit : UInt32}

theorem view_moves {wire : Bool → List WritingPacket} {told : Option SubCommand} (kept : wire side = s.wire side)
    (read : notices n (s.wire (!side)) = told.toList ++ notices n (wire (!side)))
    (answer : Answers told ((s.ends side).station n) (d.station n)) :
    ((s.view n).Consistent → (view ⟨update s.ends side d, wire⟩ n).Consistent) ∧
      (s.view n = .idle → view ⟨update s.ends side d, wire⟩ n = .idle) := by
  unfold view
  by_cases opener : openerSide n = side
  · subst opener
    simp only [update_self, update_of_ne (not_ne_self _), kept, read]
    constructor
    · intro consistent
      exact consistent.answer_opener answer
    · intro idle
      obtain ⟨first, second, forth, back⟩ := between_eq_idle.mp idle
      obtain ⟨untold, nothing⟩ := append_eq_nil_iff.mp back
      exact between_eq_idle.mpr ⟨answer.idle untold first, second, forth, nothing⟩
  · have other : side = !openerSide n := by
      cases side <;> cases h : openerSide n <;> simp_all
    subst other
    rw [Bool.not_not] at read
    simp only [update_self, update_of_ne (not_ne_self _).symm, kept, read]
    constructor
    · intro consistent
      exact consistent.answer_other answer
    · intro idle
      obtain ⟨first, second, forth, back⟩ := between_eq_idle.mp idle
      obtain ⟨untold, nothing⟩ := append_eq_nil_iff.mp forth
      exact between_eq_idle.mpr ⟨first, answer.idle untold second, nothing, back⟩

theorem Agreed.hears (agreed : s.Agreed limit) {frame : WritingPacket}
    {rest : List WritingPacket} {k : SubCommand} (arrived : s.wire (!side) = frame :: rest)
    (spoken : notice n frame = some k) : s.Issued n ∧ ∃ next, Heard k ((s.ends side).station n) next := by
  have told := notices_cons n frame rest
  rw [← arrived, spoken] at told
  have issued : s.Issued n := by
    by_contra fresh
    obtain ⟨_, _, forth, back⟩ := between_eq_idle.mp (agreed.fresh n fresh)
    cases side <;> cases opener : openerSide n <;> simp_all
  refine ⟨issued, ?_⟩
  have consistent := agreed.consistent n
  unfold view at consistent
  by_cases opener : openerSide n = side
  · subst opener
    rw [told] at consistent
    exact consistent.hears_opener
  · have other : side = !openerSide n := by
      cases side <;> cases h : openerSide n <;> simp_all
    subst other
    rw [Bool.not_not] at told
    rw [told] at consistent
    exact consistent.hears_other

theorem Issued.numbered (issued : s.Issued n) : n ≠ commandChannelNumber := by
  intro zero
  subst zero
  have low : openerSide commandChannelNumber = false := by decide
  rw [Issued, low] at issued
  exact absurd issued.1 (by decide)

theorem Agreed.keeps (agreed : s.Agreed limit)
    {wire : Bool → List WritingPacket} (keeps : SocketChannelPrivate.Keeps limit (s.ends side) d)
    (onWire : ∀ other, ∀ p ∈ wire other, Fair limit p)
    (moves : ∀ n, ((s.view n).Consistent → (view ⟨update s.ends side d, wire⟩ n).Consistent) ∧
      (s.view n = .idle → view ⟨update s.ends side d, wire⟩ n = .idle)) :
    Agreed limit ⟨update s.ends side d, wire⟩ := by
  have kept : ∀ other, (update s.ends side d other).maxPayloadSize = (s.ends other).maxPayloadSize :=
    (forall_update_iff s.ends fun other e => e.maxPayloadSize = (s.ends other).maxPayloadSize).mpr
      ⟨keeps.kept, fun _ _ => rfl⟩
  have made : ∀ other, (update s.ends side d other).made = (s.ends other).made :=
    (forall_update_iff s.ends fun other e => e.made = (s.ends other).made).mpr
      ⟨keeps.made, fun _ _ => rfl⟩
  refine ⟨?_, fun size all => agreed.least size fun other => kept other ▸ all other, onWire, ?_, fun n => ?_,
    fun n fresh => ?_⟩
  · exact (forall_update_iff s.ends fun _ e => e.Ready limit).mpr
      ⟨keeps.ready, fun other _ => agreed.ready other⟩
  · exact (forall_update_iff s.ends fun other e => e.Counts other).mpr
      ⟨keeps.counts (agreed.counts side), fun other _ => agreed.counts other⟩
  · exact (moves n).1 (agreed.consistent n)
  · refine (moves n).2 (agreed.fresh n fun issued => fresh ?_)
    unfold Issued at issued ⊢
    simp only [made]
    exact issued

theorem Agreed.received (agreed : s.Agreed limit) {frame : WritingPacket}
    {rest : List WritingPacket} (arrived : s.wire (!side) = frame :: rest) :
    Agreed limit ⟨update s.ends side ((s.ends side).doReceive frame), update s.wire (!side) rest⟩ := by
  have fair : Fair limit frame := agreed.wire (!side) frame (by simp [arrived])
  have free : ∀ n, notice n frame = some .make → n ∉ (s.ends side).subChannels ∧ n ≠ commandChannelNumber := by
    intro n spoken
    obtain ⟨issued, next, heard⟩ := agreed.hears arrived spoken
    refine ⟨?_, issued.numbered⟩
    intro member
    generalize stationed : (s.ends side).station n = station at heard
    cases heard with
    | make queue => simp [station, member] at stationed
  obtain ⟨keeps, answers⟩ := (agreed.ready side).receive fair free
  refine agreed.keeps keeps ?_ fun n => view_moves ?_ ?_ (answers n)
  · refine (forall_update_iff s.wire fun _ frames => ∀ p ∈ frames, Fair _ p).mpr
      ⟨fun p member => ?_, fun other _ => agreed.wire other⟩
    exact agreed.wire (!side) p (arrived ▸ mem_cons_of_mem frame member)
  · exact update_of_ne (not_ne_self side).symm _ _
  · rw [update_self, arrived, notices_cons]

theorem Agreed.acted (agreed : s.Agreed limit)
    (own : SocketChannelPrivate.Own limit (s.ends side) d) : Agreed limit { s with ends := update s.ends side d } :=
  agreed.keeps own.toKeeps agreed.wire fun n => view_moves rfl rfl (.silent (own.quiet n))

theorem view_sent {sent left : List WritingPacket} (queued : (s.ends side).sendingQueue = sent ++ left) (n : UInt32) :
    view ⟨update s.ends side { s.ends side with sendingQueue := left },
      update s.wire side (s.wire side ++ sent)⟩ n = s.view n := by
  unfold view
  by_cases opener : openerSide n = side
  · subst opener
    simp [between, station, queued]
  · have other : side = !openerSide n := by
      cases side <;> cases h : openerSide n <;> simp_all
    subst other
    simp [between, station, queued]

theorem Agreed.sent (agreed : s.Agreed limit) {sent left : List WritingPacket}
    (queued : (s.ends side).sendingQueue = sent ++ left) :
    Agreed limit ⟨update s.ends side { s.ends side with sendingQueue := left },
      update s.wire side (s.wire side ++ sent)⟩ := by
  have ready := agreed.ready side
  have fair : ∀ p ∈ sent ++ left, Fair limit p := queued ▸ ready.fair
  have keeps : SocketChannelPrivate.Keeps limit (s.ends side) { s.ends side with sendingQueue := left } :=
    ⟨⟨ready.alive, ready.room, ready.within, ready.direct, ready.numbered,
      fun p member => fair p (mem_append_right _ member)⟩, rfl, rfl, rfl, rfl⟩
  refine agreed.keeps keeps ?_ fun n => ?_
  · refine (forall_update_iff s.wire fun _ frames => ∀ p ∈ frames, Fair _ p).mpr
      ⟨fun p member => ?_, fun other _ => agreed.wire other⟩
    rcases mem_append.mp member with old | new
    · exact agreed.wire side p old
    · exact fair p (mem_append_left _ new)
  · rw [view_sent queued]
    exact ⟨id, id⟩

theorem Agreed.next_number (agreed : s.Agreed limit) (few : (s.ends side).made + 1 < 2 ^ 31) :
    openerSide (s.ends side).nextChannelNumber = side ∧ ¬s.Issued (s.ends side).nextChannelNumber ∧
      (s.ends side).nextChannelNumber ≠ commandChannelNumber := by
  have next := (agreed.counts side).next
  have half : openerSide (s.ends side).nextChannelNumber = side := by
    unfold openerSide
    cases side with
    | false =>
      simp only [false_eq_true, if_false] at next
      simp only [decide_eq_false_iff_not]
      omega
    | true =>
      simp only [if_true] at next
      simp only [decide_eq_true_eq]
      omega
  refine ⟨half, ?_, ?_⟩
  · unfold Issued
    rw [half]
    cases side with
    | false =>
      simp only [false_eq_true, if_false] at next ⊢
      omega
    | true =>
      simp only [if_true] at next ⊢
      omega
  · intro zero
    rw [zero] at next
    have value : commandChannelNumber.toNat = 0 := by decide
    rw [value] at next
    cases side with
    | false =>
      simp only [false_eq_true, if_false] at next
      omega
    | true =>
      simp only [if_true] at next
      omega

end ChannelWorld

theorem SocketChannelPrivate.Counts.after {d : SocketChannelPrivate} {side : Bool} (counts : d.Counts side)
    (few : d.made + 1 < 2 ^ 31) :
    (d.pole.after d.nextChannelNumber).toNat = if side then 2 ^ 32 - 1 - (d.made + 1) else 2 + (d.made + 1) := by
  have next := counts.next
  rw [counts.pole]
  cases side with
  | false =>
    simp only [false_eq_true, if_false, DataChannelPole.after, UInt32.toNat_add] at next ⊢
    have one : (1 : UInt32).toNat = 1 := rfl
    omega
  | true =>
    simp only [if_true, DataChannelPole.after] at next ⊢
    have one : (1 : UInt32).toNat = 1 := rfl
    have positive : (1 : UInt32) ≤ d.nextChannelNumber := by
      rw [UInt32.le_iff_toNat_le]
      omega
    rw [UInt32.toNat_sub_of_le _ _ positive]
    omega

namespace ChannelWorld

theorem Agreed.opened {s : ChannelWorld} (agreed : s.Agreed limit) {side : Bool}
    (few : (s.ends side).made + 1 < 2 ^ 31) :
    Agreed limit { s with ends := update s.ends side (s.ends side).makeChannel } := by
  obtain ⟨half, fresh, numbered⟩ := agreed.next_number few
  obtain ⟨ready, same, pole, made, next, stations⟩ := (agreed.ready side).open numbered
  have counts := agreed.counts side
  have kept : ∀ other, (update s.ends side (s.ends side).makeChannel other).maxPayloadSize =
      (s.ends other).maxPayloadSize :=
    (forall_update_iff s.ends fun other e => e.maxPayloadSize = (s.ends other).maxPayloadSize).mpr
      ⟨same, fun _ _ => rfl⟩
  have more : ∀ other, (s.ends other).made ≤ (update s.ends side (s.ends side).makeChannel other).made :=
    (forall_update_iff s.ends fun other e => (s.ends other).made ≤ e.made).mpr
      ⟨by omega, fun _ _ => le_rfl⟩
  have new : view { s with ends := update s.ends side (s.ends side).makeChannel }
      (s.ends side).nextChannelNumber = ⟨true, false, [.make], []⟩ := by
    have idle := agreed.fresh _ fresh
    unfold view at idle ⊢
    rw [half] at idle ⊢
    obtain ⟨first, second, forth, back⟩ := between_eq_idle.mp idle
    simp only [update_self, update_of_ne (not_ne_self side), stations, if_true, first, second,
      forth, back]
    rfl
  have old : ∀ n, (s.ends side).nextChannelNumber ≠ n →
      ((s.view n).Consistent →
          (view { s with ends := update s.ends side (s.ends side).makeChannel } n).Consistent) ∧
        (s.view n = .idle → view { s with ends := update s.ends side (s.ends side).makeChannel } n = .idle) := by
    intro n other
    refine view_moves rfl rfl (.silent ?_)
    rw [stations, if_neg other]
    exact .same _
  refine ⟨?_, fun size all => agreed.least size fun other => kept other ▸ all other, agreed.wire, ?_, fun n => ?_,
    fun n unissued => ?_⟩
  · exact (forall_update_iff s.ends fun _ e => e.Ready limit).mpr ⟨ready, fun other _ => agreed.ready other⟩
  · refine (forall_update_iff s.ends fun other e => e.Counts other).mpr
      ⟨⟨pole.trans counts.pole, by omega, ?_⟩, fun other _ => agreed.counts other⟩
    rw [next, made]
    exact counts.after few
  · by_cases here : (s.ends side).nextChannelNumber = n
    · subst here
      rw [new]
      exact consistent_opened
    · exact (old n here).1 (agreed.consistent n)
  · have grown : s.Issued n → Issued { s with ends := update s.ends side (s.ends side).makeChannel } n := by
      have moreTrue := more true
      have moreFalse := more false
      unfold Issued
      split
      · intro issued
        exact Nat.le_trans issued (Nat.add_le_add_left moreTrue _)
      · rintro ⟨low, high⟩
        exact ⟨low, Nat.lt_of_lt_of_le high (Nat.add_le_add_left moreFalse _)⟩
    have other : (s.ends side).nextChannelNumber ≠ n := by
      intro same
      subst same
      refine unissued ?_
      have value := counts.next
      unfold Issued
      rw [half]
      cases side with
      | false =>
        simp only [false_eq_true, if_false, update_self] at value ⊢
        omega
      | true =>
        simp only [if_true, update_self] at value ⊢
        omega
    exact (old n other).2 (agreed.fresh n fun issued => unissued (grown issued))

/-- The runs of the agreement: no channel is plugged, each end makes fewer than 2^31
sub-channels, and an end sends no data that is too large for the other one. -/
def ordinary (s : ChannelWorld) : ChannelEvent → Bool
  | .act _ .exchange => false
  | .act side .makeChannel => decide ((s.ends side).made + 1 < 2 ^ 31)
  | .act side action =>
    action.payload.all fun payload => decide (packetSize payload ≤ (s.ends side).maxPayloadSize →
      packetSize payload ≤ (s.ends (!side)).maxPayloadSize)
  | _ => true

theorem Agreed.step {s t : ChannelWorld} {e : ChannelEvent} (agreed : s.Agreed limit) (allowed : s.ordinary e = true)
    (stepped : s.step e = some t) : t.Agreed limit := by
  rcases step_cases stepped with ⟨side, action, d, rfl, performed, rfl⟩ | ⟨side, sent, left, rfl, queued, rfl⟩ |
    ⟨side, frame, rest, rfl, arrived, _, _, rfl⟩
  · by_cases opens : action = .makeChannel
    · subst opens
      obtain ⟨_, same⟩ := ite_none_right_eq_some.mp performed
      cases same
      exact agreed.opened (of_decide_eq_true allowed)
    · refine agreed.acted ((agreed.ready side).act performed opens ?_ fun payload member own => ?_)
      · rintro rfl
        simp [ordinary] at allowed
      · have fits : packetSize payload ≤ (s.ends (!side)).maxPayloadSize := by
          cases action with
          | sendPacketAsync packet =>
            cases some.inj member
            exact of_decide_eq_true allowed own
          | sendThrough subChannel channelNumber packet =>
            cases some.inj member
            exact of_decide_eq_true allowed own
          | _ => simp [ChannelAction.payload] at member
        refine agreed.least _ fun other => ?_
        by_cases here : other = side
        · rw [here]
          exact own
        · rw [eq_not.mpr here]
          exact fits
  · exact agreed.sent queued
  · exact agreed.received arrived

end ChannelWorld

/-- The two ends of a SocketChannel agree on the sub-channels. -/
theorem subChannels_agree {history : List (ChannelWorld × ChannelEvent)} {s : ChannelWorld}
    (run : Run channelSystem history s) (allowed : ∀ entry ∈ history, entry.1.ordinary entry.2 = true) :
    (∀ side, (s.ends side).error = none) ∧
      ((∀ side, s.inFlight side = []) → (s.ends false).subChannels = (s.ends true).subChannels) := by
  have initial : ∀ s, channelSystem.start s → ∃ limit, s.Agreed limit := fun _ starts =>
    ChannelWorld.Starts.agreed starts
  obtain ⟨limit, agreed⟩ := run.invariant_of_guard (fun s e => s.ordinary e = true) allowed initial
    fun s e t inv met stepped => inv.imp fun _ agreed => agreed.step met stepped
  refine ⟨fun side => (agreed.ready side).alive, fun quiet => ?_⟩
  ext n
  have silent : ∀ side, notices n (s.wire side) ++ notices n (s.ends side).sendingQueue = [] := by
    intro side
    rw [← notices_append, ← ChannelWorld.inFlight, quiet side]
    rfl
  have same := (agreed.consistent n).settled (silent _) (silent _)
  simp only [ChannelWorld.view, between, station, decide_eq_decide] at same
  cases half : openerSide n with
  | false =>
    rw [half] at same
    exact same
  | true =>
    rw [half] at same
    exact same.symm

/-- Both ends abort one sub-channel while its MADE is underway, and each of them keeps
one that it has opened. -/
theorem subChannels_agree_crossing :
    ∃ history s, Run channelSystem history s ∧ (∀ entry ∈ history, entry.1.ordinary entry.2 = true) ∧
      (∀ side, s.inFlight side = []) ∧ (s.ends false).subChannels = {3, 0xffffffff} ∧
      (s.ends true).subChannels = {3, 0xffffffff} := by
  have initial : channelSystem.start
      ⟨fun side => .new (if side then .negativePole else .positivePole) 131072 65528, fun _ => []⟩ :=
    ⟨fun _ => 131072, fun _ => 65528, by decide, rfl⟩
  obtain ⟨history, s, run, _, allowed, quiet, left⟩ := Run.of_exec_guarded channelSystem ChannelWorld.ordinary
    rfl
    [.act false .makeChannel, .act false .makeChannel, .act true .makeChannel, .doSend false, .doReceive true,
      .doReceive true, .act false (.abortChannel 2), .act true (.abortChannel 2), .doSend true, .doReceive false,
      .doReceive false, .doReceive false, .doReceive false, .doSend false, .doReceive true, .doReceive true,
      .doReceive true]
    initial
    (fun s : ChannelWorld => (∀ side, s.inFlight side = []) ∧ (s.ends false).subChannels = {3, 0xffffffff})
    (by decide +kernel)
  exact ⟨history, s, run, allowed, quiet, left, (subChannels_agree run allowed).2 quiet ▸ left⟩

end Qtng
