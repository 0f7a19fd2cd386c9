import Qtng.General.Run
import Qtng.Quic.Recovery

namespace Qtng

open BigEndian SentPackets List Function Transition

theorem SentPackets.mem_toList {sent : SentPackets} {packet : QuicSentPacket} :
    packet ∈ sent.toList ↔ sent.packets[packet.pn]? = some packet := by
  simp only [toList, mem_map, Prod.exists, Std.ExtTreeMap.mem_toList_iff_getElem?_eq_some]
  constructor
  · intro ⟨pn, found, present, same⟩
    subst same
    rw [sent.keyed pn found present]
    exact present
  · intro present
    exact ⟨packet.pn, packet, present, rfl⟩

namespace QuicLossRecovery

variable {space other : QuicPacketNumberSpace}

variable (recovery : QuicLossRecovery)

theorem acknowledge_sent (space : QuicPacketNumberSpace) (ack : QuicFrame) (nowUs pn : Nat) :
    ((recovery.acknowledge space ack nowUs).1.m_sent space).packets[pn]? =
      if pn ∈ ackedNumbers ack (recovery.m_largestSent space) then none else (recovery.m_sent space).packets[pn]? := by
  have sorted := recovery.ackedList_sorted space ack
  have left := (ackOne_fold (sorted.imp fun less => Nat.ne_of_lt less) (recovery.m_sent space)
    recovery.m_bytesInFlight []).1 pn
  simp only [mem_ackedList] at left
  simp only [acknowledge, update_self]
  exact left

theorem acknowledge_other (ack : QuicFrame) (nowUs : Nat) (different : other ≠ space) :
    (recovery.acknowledge space ack nowUs).1.m_sent other = recovery.m_sent other := by
  simp [acknowledge, different]

theorem detectLostPackets_sent (space : QuicPacketNumberSpace) (nowUs pn : Nat) :
    ((recovery.detectLostPackets space nowUs).1.m_sent space).packets[pn]? =
      (recovery.m_sent space).packets[pn]?.map
        fun packet => if recovery.overdue space nowUs packet then packet.settled else packet := by
  simp only [detectLostPackets, update_self]
  exact clearInFlight_packets _ _ _

theorem detectLostPackets_other (nowUs : Nat) (different : other ≠ space) :
    (recovery.detectLostPackets space nowUs).1.m_sent other = recovery.m_sent other := by
  simp [detectLostPackets, different]

end QuicLossRecovery

/-- The sending side of a connection with what the peer has acknowledged of the
packets sent so far, and all datagrams put on the link. Any of these may be lost
there. -/
structure LossWorld where
  recovery : QuicLossRecovery
  sent : List QuicSentPacket
  acknowledged : List (QuicPacketNumberSpace × Nat)
  emitted : List Bytes

inductive LossEvent
  | sendNow (space : QuicPacketNumberSpace) (pn : Nat) (packet : Bytes) (ackEliciting : Bool) (nowUs : Nat)
  | ack (space : QuicPacketNumberSpace) (frame : QuicFrame) (nowUs : Nat)
  | alarm (space : QuicPacketNumberSpace) (nowUs : Nat)
  | pto (space : QuicPacketNumberSpace) (nowUs : Nat)
deriving DecidableEq

namespace LossWorld

def new : LossWorld := ⟨.new, [], [], []⟩

/-- The packets that a frame acknowledges, among those sent, by its own numbers. -/
def acknowledgedBy (s : LossWorld) (space : QuicPacketNumberSpace) (frame : QuicFrame) :
    List (QuicPacketNumberSpace × Nat) :=
  (s.sent.filter fun packet => packet.space = space ∧ packet.pn ∈ ackedNumbers frame frame.largestAcknowledged).map
    fun packet => (packet.space, packet.pn)

def sendNow (s : LossWorld) (packet : QuicSentPacket) : LossWorld :=
  { s with
    recovery := s.recovery.onPacketSent packet, sent := packet :: s.sent, emitted := s.emitted ++ [packet.raw] }

/-- The ACK case of handleFrame: what is declared lost is sent once more. -/
def handleAck (s : LossWorld) (space : QuicPacketNumberSpace) (frame : QuicFrame) (nowUs : Nat) : LossWorld :=
  let received := s.recovery.onAckReceived space frame nowUs
  let lostBytes := (received.2.2.map List.length).sum
  { s with
    recovery := received.1, acknowledged := s.acknowledgedBy space frame ++ s.acknowledged
    emitted := if lostBytes > 0 then s.emitted ++ received.2.2 else s.emitted }

def alarmDue (s : LossWorld) (space : QuicPacketNumberSpace) (nowUs : Nat) : Bool :=
  s.recovery.m_earliestLostTimeUs space > 0 ∧ nowUs ≥ s.recovery.m_earliestLostTimeUs space

/-- The loss-detection alarm in a round of ptoLoop. -/
def alarm (s : LossWorld) (space : QuicPacketNumberSpace) (nowUs : Nat) : LossWorld :=
  if s.alarmDue space nowUs then
    let detected := s.recovery.detectLostOnAlarm space nowUs
    { s with recovery := detected.1, emitted := s.emitted ++ detected.2.map (·.raw) }
  else s

/-- The probe timeout in a round of ptoLoop. Only the first packet is sent. -/
def pto (s : LossWorld) (space : QuicPacketNumberSpace) (nowUs : Nat) : LossWorld :=
  let lastSent := s.recovery.m_lastSentTimeUs space
  if s.recovery.hasInFlight space ∧ lastSent > 0 ∧ nowUs ≥ lastSent + s.recovery.ptoTimeoutUs space then
    let recovery := s.recovery.onPtoExpired space
    { s with recovery, emitted := s.emitted ++ (recovery.packetsToRetransmitOnPto space).take 1 }
  else s

def step (s : LossWorld) : LossEvent → Option LossWorld
  | .sendNow space pn packet ackEliciting nowUs => some (s.sendNow ⟨pn, space, packet, ackEliciting, true, nowUs⟩)
  | .ack space frame nowUs => some (s.handleAck space frame nowUs)
  | .alarm space nowUs => some (s.alarm space nowUs)
  | .pto space nowUs => some (s.pto space nowUs)

def Tracked (s : LossWorld) (packet : QuicSentPacket) : Prop :=
  (s.recovery.m_sent packet.space).packets[packet.pn]? = some packet ∧ packet.inFlight = true

/-- Every ack-eliciting packet that was sent and not acknowledged is recorded as
in flight. -/
def NothingForgotten (s : LossWorld) : Prop :=
  ∀ packet ∈ s.sent, packet.ackEliciting = true → (packet.space, packet.pn) ∉ s.acknowledged → s.Tracked packet

/-- The packets of a space that are recorded as in flight and that the peer has
still to acknowledge. -/
def outstanding (s : LossWorld) (space : QuicPacketNumberSpace) : List QuicSentPacket :=
  (s.recovery.m_sent space).toList.filter fun packet =>
    packet.inFlight && packet.ackEliciting && (space, packet.pn) ∉ s.acknowledged

/-- No packet is sent under the number of an outstanding one. A frame does not
take the record of an outstanding packet that it does not acknowledge, and neither
a frame nor an alarm finds an outstanding packet past the packet or the time
threshold. -/
def sparesOutstanding (s : LossWorld) : LossEvent → Bool
  | .sendNow space pn packet ackEliciting nowUs =>
    (s.outstanding space).all fun old => old.pn ≠ pn || old = ⟨pn, space, packet, ackEliciting, true, nowUs⟩
  | .ack space frame nowUs =>
    (s.outstanding space).all fun packet =>
      packet.pn ∈ ackedNumbers frame frame.largestAcknowledged ||
        (packet.pn ∉ ackedNumbers frame (s.recovery.m_largestSent space) &&
          !(s.recovery.acknowledge space frame nowUs).1.overdue space nowUs packet)
  | .alarm space nowUs =>
    s.alarmDue space nowUs → (s.outstanding space).all fun packet => !s.recovery.overdue space nowUs packet
  | .pto _ _ => true

/-- Each record is that of a packet sent, which the loss detection may have marked
as no longer in flight. -/
def Logged (s : LossWorld) : Prop :=
  ∀ (space : QuicPacketNumberSpace) (pn : Nat) (record : QuicSentPacket),
    (s.recovery.m_sent space).packets[pn]? = some record →
      ∃ packet ∈ s.sent, packet.space = space ∧ packet.pn = pn ∧ (record = packet ∨ record = packet.settled)

namespace Logged

variable {s t : LossWorld}
variable {space : QuicPacketNumberSpace} {packet : QuicSentPacket}
variable {record : QuicSentPacket} {pn : Nat} {recovery : QuicLossRecovery}

theorem mem_sent_of_record (inv : Logged s)
    (present : (s.recovery.m_sent space).packets[pn]? = some record) (flying : record.inFlight = true) :
    record ∈ s.sent ∧ record.space = space ∧ record.pn = pn := by
  obtain ⟨packet, member, spaceIs, pnIs, same | lost⟩ := inv space pn record present
  · subst same
    exact ⟨member, spaceIs, pnIs⟩
  · simp [lost, QuicSentPacket.settled] at flying

theorem mem_outstanding (inv : Logged s) :
    packet ∈ s.outstanding space ↔ packet ∈ s.sent ∧ packet.space = space ∧ packet.ackEliciting = true ∧
      (packet.space, packet.pn) ∉ s.acknowledged ∧ s.Tracked packet := by
  simp only [outstanding, mem_filter, mem_toList, Bool.and_eq_true, decide_eq_true_eq]
  constructor
  · intro ⟨present, ⟨flying, eliciting⟩, waiting⟩
    obtain ⟨member, spaceIs, _⟩ := inv.mem_sent_of_record present flying
    subst spaceIs
    exact ⟨member, rfl, eliciting, waiting, present, flying⟩
  · intro ⟨member, spaceIs, eliciting, waiting, present, flying⟩
    subst spaceIs
    exact ⟨present, ⟨flying, eliciting⟩, waiting⟩

/-- A step that touches the records of one space only forgets nothing exactly if
each outstanding packet of that space is acknowledged or still in flight. -/
theorem nothingForgotten_iff (inv : Logged s) (kept : s.NothingForgotten) (space : QuicPacketNumberSpace)
    (sent : t.sent = s.sent) (others : ∀ other, other ≠ space → t.recovery.m_sent other = s.recovery.m_sent other)
    (acknowledged : ∀ entry ∈ s.acknowledged, entry ∈ t.acknowledged) :
    t.NothingForgotten ↔ ∀ packet ∈ s.outstanding space, (space, packet.pn) ∈ t.acknowledged ∨ t.Tracked packet := by
  constructor
  · intro after packet member
    obtain ⟨inLog, spaceIs, eliciting, _, _⟩ := inv.mem_outstanding.mp member
    by_cases acked : (space, packet.pn) ∈ t.acknowledged
    · exact .inl acked
    · subst spaceIs
      exact .inr (after packet (sent ▸ inLog) eliciting acked)
  · intro spared packet inLog eliciting waiting
    rw [sent] at inLog
    have before : (packet.space, packet.pn) ∉ s.acknowledged := fun old => waiting (acknowledged _ old)
    have tracked := kept packet inLog eliciting before
    by_cases same : packet.space = space
    · have member := inv.mem_outstanding.mpr ⟨inLog, same, eliciting, before, tracked⟩
      rcases spared packet member with acked | still
      · rw [← same] at acked
        exact absurd acked waiting
      · exact still
    · unfold Tracked
      rw [others _ same]
      exact tracked

theorem sendNow (inv : Logged s) (packet : QuicSentPacket) : Logged (s.sendNow packet) := by
  intro space pn record present
  simp only [LossWorld.sendNow, QuicLossRecovery.onPacketSent, update_apply] at present
  split_ifs at present with same
  · rw [insert_packets] at present
    split_ifs at present with own
    · cases present
      exact ⟨packet, mem_cons_self, same.symm, own.symm, .inl rfl⟩
    · obtain ⟨old, member, facts⟩ := inv packet.space pn record present
      exact ⟨old, mem_cons_of_mem _ member, same ▸ facts⟩
  · obtain ⟨old, member, facts⟩ := inv space pn record present
    exact ⟨old, mem_cons_of_mem _ member, facts⟩

theorem weaken (inv : Logged s) (sent : t.sent = s.sent)
    (records : ∀ space (pn : Nat) (record : QuicSentPacket), (t.recovery.m_sent space).packets[pn]? = some record →
      ∃ old, (s.recovery.m_sent space).packets[pn]? = some old ∧ (record = old ∨ record = old.settled)) :
    Logged t := by
  intro space pn record present
  obtain ⟨old, before, change⟩ := records space pn record present
  obtain ⟨packet, member, spaceIs, pnIs, form⟩ := inv space pn old before
  refine ⟨packet, sent ▸ member, spaceIs, pnIs, ?_⟩
  rcases change with rfl | rfl
  · exact form
  · rcases form with rfl | rfl
    · exact .inr rfl
    · exact .inr rfl

theorem detected_records {other : QuicPacketNumberSpace} {nowUs : Nat}
    (present : ((recovery.detectLostPackets space nowUs).1.m_sent other).packets[pn]? = some record) :
    ∃ old, (recovery.m_sent other).packets[pn]? = some old ∧ (record = old ∨ record = old.settled) := by
  by_cases same : other = space
  · subst same
    rw [QuicLossRecovery.detectLostPackets_sent] at present
    obtain ⟨old, before, change⟩ := Option.map_eq_some_iff.mp present
    refine ⟨old, before, ?_⟩
    split at change
    · exact .inr change.symm
    · exact .inl change.symm
  · rw [recovery.detectLostPackets_other nowUs same] at present
    exact ⟨record, present, .inl rfl⟩

theorem handleAck (inv : Logged s) (space : QuicPacketNumberSpace) (frame : QuicFrame) (nowUs : Nat) :
    Logged (s.handleAck space frame nowUs) := by
  refine inv.weaken rfl ?_
  intro other pn record present
  obtain ⟨old, before, change⟩ := detected_records present
  refine ⟨old, ?_, change⟩
  by_cases same : other = space
  · subst same
    rw [QuicLossRecovery.acknowledge_sent] at before
    split at before
    · simp at before
    · exact before
  · rwa [QuicLossRecovery.acknowledge_other _ _ _ same] at before

theorem alarm (inv : Logged s) (space : QuicPacketNumberSpace) (nowUs : Nat) : Logged (s.alarm space nowUs) := by
  unfold LossWorld.alarm
  split
  · exact inv.weaken rfl (fun _ _ _ present => detected_records present)
  · exact inv

theorem pto (inv : Logged s) (space : QuicPacketNumberSpace) (nowUs : Nat) : Logged (s.pto space nowUs) := by
  unfold LossWorld.pto
  dsimp only
  split
  · exact inv.weaken rfl (fun _ _ record present => ⟨record, present, .inl rfl⟩)
  · exact inv

variable {e : LossEvent}

theorem step (inv : Logged s) (accepted : s.step e = some t) : Logged t := by
  cases e with
  | sendNow space pn packet ackEliciting nowUs =>
    cases accepted
    exact inv.sendNow _
  | ack space frame nowUs =>
    cases accepted
    exact inv.handleAck space frame nowUs
  | alarm space nowUs =>
    cases accepted
    exact inv.alarm space nowUs
  | pto space nowUs =>
    cases accepted
    exact inv.pto space nowUs

theorem tracked_sendNow {old : QuicSentPacket} (flying : packet.inFlight = true) (tracked : s.Tracked old) :
    (s.sendNow packet).Tracked old ↔ (old.space = packet.space → old.pn = packet.pn → old = packet) := by
  unfold Tracked
  simp only [LossWorld.sendNow, QuicLossRecovery.onPacketSent, update_apply]
  by_cases sameSpace : old.space = packet.space
  · rw [if_pos sameSpace, insert_packets]
    by_cases sameNumber : old.pn = packet.pn
    · rw [if_pos sameNumber]
      constructor
      · intro ⟨same, _⟩ _ _
        exact (Option.some.inj same).symm
      · intro reused
        rw [reused sameSpace sameNumber]
        exact ⟨rfl, flying⟩
    · rw [if_neg sameNumber, ← sameSpace]
      exact iff_of_true tracked (fun _ same => absurd same sameNumber)
  · rw [if_neg sameSpace]
    exact iff_of_true tracked (fun same => absurd same sameSpace)

theorem nothingForgotten_sendNow (inv : Logged s) (kept : s.NothingForgotten) (flying : packet.inFlight = true) :
    (s.sendNow packet).NothingForgotten ↔ ∀ old ∈ s.outstanding packet.space, old.pn = packet.pn → old = packet := by
  constructor
  · intro after old member
    obtain ⟨inLog, spaceIs, eliciting, waiting, tracked⟩ := inv.mem_outstanding.mp member
    have still := after old (mem_cons_of_mem _ inLog) eliciting waiting
    exact (tracked_sendNow flying tracked).mp still spaceIs
  · intro spared old member eliciting waiting
    rcases mem_cons.mp member with rfl | inLog
    · unfold Tracked
      simp only [LossWorld.sendNow, QuicLossRecovery.onPacketSent, update_self, insert_packets]
      exact ⟨if_pos trivial, flying⟩
    · have tracked := kept old inLog eliciting waiting
      refine (tracked_sendNow flying tracked).mpr fun spaceIs number => ?_
      exact spared old (inv.mem_outstanding.mpr ⟨inLog, spaceIs, eliciting, waiting, tracked⟩) number

theorem detected_keeps (nowUs : Nat)
    (present : (recovery.m_sent packet.space).packets[packet.pn]? = some packet) (flying : packet.inFlight = true) :
    ((recovery.detectLostPackets packet.space nowUs).1.m_sent packet.space).packets[packet.pn]? = some packet ↔
      recovery.overdue packet.space nowUs packet = false := by
  have settledDiffers : packet.settled ≠ packet := by
    intro same
    rw [← same] at flying
    simp [QuicSentPacket.settled] at flying
  rw [QuicLossRecovery.detectLostPackets_sent, present]
  by_cases lost : recovery.overdue packet.space nowUs packet = true
  · simp [lost, settledDiffers]
  · simp [lost]

theorem tracked_handleAck (frame : QuicFrame) (nowUs : Nat) (tracked : s.Tracked packet) :
    (s.handleAck packet.space frame nowUs).Tracked packet ↔
      packet.pn ∉ ackedNumbers frame (s.recovery.m_largestSent packet.space) ∧
        (s.recovery.acknowledge packet.space frame nowUs).1.overdue packet.space nowUs packet = false := by
  obtain ⟨present, flying⟩ := tracked
  have left := s.recovery.acknowledge_sent packet.space frame nowUs packet.pn
  by_cases acked : packet.pn ∈ ackedNumbers frame (s.recovery.m_largestSent packet.space)
  · rw [if_pos acked] at left
    simp [Tracked, LossWorld.handleAck, QuicLossRecovery.onAckReceived, QuicLossRecovery.detectLostPackets_sent,
      left, acked]
  · rw [if_neg acked, present] at left
    simp only [acked, not_false_eq_true, true_and]
    exact (and_iff_left flying).trans (detected_keeps nowUs left flying)

theorem tracked_alarm (nowUs : Nat) (tracked : s.Tracked packet) :
    (s.alarm packet.space nowUs).Tracked packet ↔
      (s.alarmDue packet.space nowUs = true → s.recovery.overdue packet.space nowUs packet = false) := by
  obtain ⟨present, flying⟩ := tracked
  unfold LossWorld.alarm
  by_cases due : s.alarmDue packet.space nowUs = true
  · simp only [due, if_true, forall_const]
    exact (and_iff_left flying).trans (detected_keeps nowUs present flying)
  · simp [due, Tracked, present, flying]

theorem mem_acknowledged_handleAck (frame : QuicFrame) (nowUs : Nat)
    (member : packet ∈ s.sent) (waiting : (packet.space, packet.pn) ∉ s.acknowledged) :
    (packet.space, packet.pn) ∈ (s.handleAck packet.space frame nowUs).acknowledged ↔
      packet.pn ∈ ackedNumbers frame frame.largestAcknowledged := by
  simp only [LossWorld.handleAck, acknowledgedBy, mem_append, waiting, or_false, mem_map, mem_filter,
    decide_eq_true_eq, Prod.mk.injEq]
  constructor
  · intro ⟨other, ⟨_, _, named⟩, _, same⟩
    rwa [same] at named
  · intro named
    exact ⟨packet, ⟨member, rfl, named⟩, rfl, rfl⟩

theorem nothingForgotten_step (inv : Logged s) (kept : s.NothingForgotten)
    (accepted : s.step e = some t) : t.NothingForgotten ↔ s.sparesOutstanding e = true := by
  cases e with
  | sendNow space pn packet ackEliciting nowUs =>
    cases accepted
    rw [nothingForgotten_sendNow inv kept rfl]
    simp only [sparesOutstanding, all_eq_true, Bool.or_eq_true, decide_eq_true_eq]
    refine forall₂_congr fun old _ => ?_
    exact Decidable.imp_iff_not_or
  | ack space frame nowUs =>
    cases accepted
    have others : ∀ other, other ≠ space →
        (s.handleAck space frame nowUs).recovery.m_sent other = s.recovery.m_sent other := by
      intro other different
      rw [← s.recovery.acknowledge_other frame nowUs different]
      exact QuicLossRecovery.detectLostPackets_other _ nowUs different
    rw [inv.nothingForgotten_iff (t := s.handleAck space frame nowUs) kept space rfl others
      (fun entry old => mem_append_right _ old)]
    simp only [sparesOutstanding, all_eq_true, Bool.or_eq_true, Bool.and_eq_true, decide_eq_true_eq,
      Bool.not_eq_true']
    refine forall₂_congr fun packet member => ?_
    obtain ⟨inLog, rfl, _, waiting, tracked⟩ := inv.mem_outstanding.mp member
    rw [mem_acknowledged_handleAck frame nowUs inLog waiting, tracked_handleAck frame nowUs tracked]
  | alarm space nowUs =>
    cases accepted
    have others : ∀ other, other ≠ space →
        (s.alarm space nowUs).recovery.m_sent other = s.recovery.m_sent other := by
      intro other different
      unfold LossWorld.alarm
      split
      · exact QuicLossRecovery.detectLostPackets_other _ nowUs different
      · rfl
    have sent : (s.alarm space nowUs).sent = s.sent ∧ (s.alarm space nowUs).acknowledged = s.acknowledged := by
      unfold LossWorld.alarm
      split <;> exact ⟨rfl, rfl⟩
    rw [inv.nothingForgotten_iff (t := s.alarm space nowUs) kept space sent.1 others
      (fun entry old => sent.2 ▸ old)]
    simp only [sparesOutstanding, decide_eq_true_eq, all_eq_true, Bool.not_eq_true']
    have swapped : (s.alarmDue space nowUs = true → ∀ packet ∈ s.outstanding space,
        s.recovery.overdue space nowUs packet = false) ↔
        ∀ packet ∈ s.outstanding space, s.alarmDue space nowUs = true →
          s.recovery.overdue space nowUs packet = false :=
      ⟨fun all packet member due => all due packet member, fun all due packet member => all packet member due⟩
    rw [swapped]
    refine forall₂_congr fun packet member => ?_
    obtain ⟨_, rfl, _, waiting, tracked⟩ := inv.mem_outstanding.mp member
    rw [sent.2, tracked_alarm nowUs tracked]
    simp only [waiting, false_or]
  | pto space nowUs =>
    cases accepted
    refine iff_of_true ?_ rfl
    unfold LossWorld.pto
    dsimp only
    split
    · exact kept
    · exact kept

theorem new : Logged .new := by
  intro space pn record present
  simp [LossWorld.new, QuicLossRecovery.new, empty] at present

end Logged

theorem Tracked.retransmitted {s : LossWorld} {packet : QuicSentPacket} (tracked : s.Tracked packet)
    (eliciting : packet.ackEliciting = true) :
    packet.raw ∈ s.recovery.packetsToRetransmitOnPto packet.space := by
  have listed : packet ∈ (s.recovery.m_sent packet.space).toList := mem_toList.mpr tracked.1
  exact mem_map_of_mem (mem_filter.mpr ⟨listed, by simp [tracked.2, eliciting]⟩)

end LossWorld

def lossSystem : System LossWorld LossEvent := .ofStep (· = .new) LossWorld.step

/-- The packets that still await an acknowledgement stay in flight, and so the
probe timeout can return them, throughout exactly the runs in which no number is
reused and no threshold passed while a packet is outstanding. -/
theorem retransmission_never_gives_up {history : List (LossWorld × LossEvent)} {t : LossWorld}
    (run : Run lossSystem history t) :
    (∀ s, Visited history t s → ∀ packet ∈ s.sent, packet.ackEliciting = true →
      (packet.space, packet.pn) ∉ s.acknowledged →
        s.Tracked packet ∧ packet.raw ∈ s.recovery.packetsToRetransmitOnPto packet.space) ↔
      ∀ entry ∈ history, entry.1.sparesOutstanding entry.2 = true := by
  have exactly := run.everywhere_iff (fun s e => s.sparesOutstanding e = true) LossWorld.Logged
    LossWorld.NothingForgotten (by rintro _ rfl; exact .new)
    (by rintro _ rfl; intro packet member; simp [LossWorld.new] at member)
    (fun _ _ _ inv accepted => inv.step accepted)
    (fun _ _ _ inv kept accepted => inv.nothingForgotten_step kept accepted)
  rw [← exactly]
  constructor
  · intro all s visited packet member eliciting waiting
    exact (all s visited packet member eliciting waiting).1
  · intro all s visited packet member eliciting waiting
    have tracked := all s visited packet member eliciting waiting
    exact ⟨tracked, tracked.retransmitted eliciting⟩

def oneAcknowledged : List LossEvent :=
  [.sendNow .application 0 [10] true 1000, .sendNow .application 1 [11] true 1001,
    .sendNow .application 2 [12] true 1002, .ack .application { type := .ack, largestAcknowledged := 2 } 1500]

theorem retransmission_never_gives_up_oneAcknowledged :
    ∃ history t, Run lossSystem history t ∧ history.map Prod.snd = oneAcknowledged.reverse ∧
      t.acknowledged = [(.application, 2)] ∧
      ∀ packet ∈ t.sent, packet.ackEliciting = true → (packet.space, packet.pn) ∉ t.acknowledged →
        t.Tracked packet ∧ packet.raw ∈ t.recovery.packetsToRetransmitOnPto packet.space := by
  obtain ⟨history, t, run, labels, guarded, acknowledged⟩ :=
    Run.of_exec_guarded lossSystem LossWorld.sparesOutstanding rfl
      oneAcknowledged rfl (fun t => t.acknowledged = [(.application, 2)]) (by decide)
  exact ⟨history, t, run, labels, acknowledged, (retransmission_never_gives_up run).mpr guarded t (.inl rfl)⟩

def firstOverdue : List LossEvent :=
  [.sendNow .application 0 [10] true 1000, .sendNow .application 1 [11] true 1001,
    .sendNow .application 2 [12] true 1002, .sendNow .application 3 [13] true 1003,
    .ack .application { type := .ack, largestAcknowledged := 3 } 1500]

/-- The first packet is sent once more and then forgotten, although the peer has
not acknowledged it. -/
theorem retransmission_gives_up_firstOverdue :
    ∃ history t, Run lossSystem history t ∧ history.map Prod.snd = firstOverdue.reverse ∧
      t.emitted = [[10], [11], [12], [13], [10]] ∧
      ∃ packet ∈ t.sent, packet.ackEliciting = true ∧ (packet.space, packet.pn) ∉ t.acknowledged ∧
        ¬ t.Tracked packet ∧ packet.raw ∉ t.recovery.packetsToRetransmitOnPto packet.space := by
  obtain ⟨history, t, run, labels, emitted, packet, member, eliciting, waiting, left, forgotten⟩ :=
    Run.of_exec lossSystem rfl firstOverdue rfl
      (fun t => t.emitted = [[10], [11], [12], [13], [10]] ∧
        ∃ packet ∈ t.sent, packet.ackEliciting = true ∧ (packet.space, packet.pn) ∉ t.acknowledged ∧
          (t.recovery.m_sent packet.space).packets[packet.pn]? ≠ some packet ∧
          packet.raw ∉ t.recovery.packetsToRetransmitOnPto packet.space) (by decide)
  exact ⟨history, t, run, labels, emitted, packet, member, eliciting, waiting, fun tracked => left tracked.1, forgotten⟩

end Qtng
