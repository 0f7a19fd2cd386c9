import Qtng.Quic.Retransmit

namespace Qtng

open BigEndian Transition List

namespace SentPackets

variable {packet : QuicSentPacket}

def bytesInFlight (sent : SentPackets) : Nat := ((sent.toList.filter (·.inFlight)).map (·.raw.length)).sum

def weight (packet : QuicSentPacket) : Nat := if packet.inFlight then packet.raw.length else 0

variable {sent : SentPackets}

theorem sum_weight (packets : List QuicSentPacket) :
    ((packets.filter (·.inFlight)).map (·.raw.length)).sum = (packets.map weight).sum := by
  induction packets with
  | nil => rfl
  | cons packet rest ih =>
    by_cases flying : packet.inFlight = true
    · simp [flying, weight, ih]
    · simp [flying, weight, ih]

theorem bytesInFlight_eq (sent : SentPackets) : sent.bytesInFlight = (sent.toList.map weight).sum := sum_weight _

theorem bytesInFlight_insert (absent : sent.packets[packet.pn]? = none) :
    (sent.insert packet).bytesInFlight = sent.bytesInFlight + weight packet := by
  have listed := (NatMap.toList_insert_of_absent packet absent).map Prod.snd
  rw [bytesInFlight_eq, bytesInFlight_eq]
  exact (listed.map weight).sum_eq.trans (Nat.add_comm _ _)

theorem bytesInFlight_erase {pn : Nat} (present : sent.packets[pn]? = some packet) :
    sent.bytesInFlight = (sent.erase pn).bytesInFlight + weight packet := by
  have listed := (NatMap.toList_of_present present).map Prod.snd
  rw [bytesInFlight_eq, bytesInFlight_eq]
  exact (listed.map weight).sum_eq.trans (Nat.add_comm _ _)

theorem bytesInFlight_clear (sent : SentPackets) {chosen : QuicSentPacket → Bool}
    (flying : ∀ packet, chosen packet = true → packet.inFlight = true) :
    sent.bytesInFlight = (sent.clearInFlight chosen).bytesInFlight +
      ((sent.toList.filter chosen).map (·.raw.length)).sum := by
  have cleared : (sent.clearInFlight chosen).toList =
      sent.toList.map fun packet => if chosen packet then packet.settled else packet := by
    simp [clearInFlight, toList, Std.ExtTreeMap.toList_map]
  rw [bytesInFlight_eq, bytesInFlight_eq, cleared]
  induction sent.toList with
  | nil => rfl
  | cons packet rest ih =>
    by_cases lost : chosen packet = true
    · simp [lost, ih, weight, flying packet lost, QuicSentPacket.settled]
      omega
    · simp [lost, ih, weight]
      omega

theorem bytesInFlight_eq_zero (idle : ∀ packet ∈ sent.toList, packet.inFlight = false) : sent.bytesInFlight = 0 := by
  have none : sent.toList.filter (·.inFlight) = [] := filter_eq_nil_iff.mpr fun packet member => by
    simp [idle packet member]
  rw [bytesInFlight, none]
  rfl

end SentPackets

namespace QuicLossRecovery

def bytesInFlight (recovery : QuicLossRecovery) (space : QuicPacketNumberSpace) : Nat :=
  (recovery.m_sent space).bytesInFlight

/-- The counter is the sum over the records of all spaces. -/
def Exact (recovery : QuicLossRecovery) : Prop :=
  recovery.m_bytesInFlight =
    recovery.bytesInFlight .initial + recovery.bytesInFlight .handshake + recovery.bytesInFlight .application

variable {recovery : QuicLossRecovery} {space : QuicPacketNumberSpace}

theorem Exact.change (exact : recovery.Exact) {next : QuicLossRecovery} {sent : SentPackets}
    (records : next.m_sent = Function.update recovery.m_sent space sent)
    (bytes : next.m_bytesInFlight + recovery.bytesInFlight space = recovery.m_bytesInFlight + sent.bytesInFlight) :
    next.Exact := by
  unfold Exact at *
  simp only [bytesInFlight, records] at *
  cases space <;> simp at bytes ⊢ <;> omega

theorem Exact.onPacketSent (exact : recovery.Exact) {pkt : QuicSentPacket}
    (fresh : (recovery.m_sent pkt.space).packets[pkt.pn]? = none) : (recovery.onPacketSent pkt).Exact := by
  refine exact.change rfl ?_
  rw [SentPackets.bytesInFlight_insert fresh]
  simp only [QuicLossRecovery.onPacketSent, bytesInFlight, SentPackets.weight]
  split <;> omega

/-- Every subtraction of the loop of onAckReceived finds the bytes it takes away. -/
theorem ackOne_bytes (numbers : List Nat) (others : Nat) (state : SentPackets × Nat × List QuicSentPacket)
    (exact : state.2.1 = state.1.bytesInFlight + others) :
    (numbers.foldl ackOne state).2.1 = (numbers.foldl ackOne state).1.bytesInFlight + others := by
  induction numbers generalizing state with
  | nil => exact exact
  | cons pn rest ih =>
    rw [foldl_cons]
    refine ih _ ?_
    unfold ackOne
    split
    · exact exact
    · rename_i packet present
      have parts := SentPackets.bytesInFlight_erase present
      simp only [SentPackets.weight] at parts
      dsimp only
      split <;> rename_i flying <;> simp [flying] at parts <;> omega

theorem Exact.acknowledge (exact : recovery.Exact) (ack : QuicFrame) (nowUs : Nat) :
    (recovery.acknowledge space ack nowUs).1.Exact := by
  obtain ⟨others, total⟩ : ∃ others, recovery.m_bytesInFlight = recovery.bytesInFlight space + others := by
    unfold Exact at exact
    cases space
    · exact ⟨recovery.bytesInFlight .handshake + recovery.bytesInFlight .application, by omega⟩
    · exact ⟨recovery.bytesInFlight .initial + recovery.bytesInFlight .application, by omega⟩
    · exact ⟨recovery.bytesInFlight .initial + recovery.bytesInFlight .handshake, by omega⟩
  have left := ackOne_bytes (recovery.ackedList space ack) others (recovery.m_sent space, recovery.m_bytesInFlight, [])
    total
  refine exact.change rfl ?_
  unfold ackedList at left
  simp only [QuicLossRecovery.acknowledge]
  omega

theorem Exact.detectLostPackets (exact : recovery.Exact) (nowUs : Nat) :
    (recovery.detectLostPackets space nowUs).1.Exact := by
  have flying : ∀ packet, recovery.overdue space nowUs packet = true → packet.inFlight = true := by
    intro packet lost
    simp only [overdue, isLost, decide_eq_true_eq] at lost
    exact lost.1
  have parts := (recovery.m_sent space).bytesInFlight_clear flying
  have lost : (((recovery.m_sent space).toList.filter (recovery.overdue space nowUs)).map QuicSentPacket.settled).map
      (fun packet => packet.raw.length) =
      ((recovery.m_sent space).toList.filter (recovery.overdue space nowUs)).map (·.raw.length) := by
    rw [map_map]
    rfl
  have most : recovery.bytesInFlight space ≤ recovery.m_bytesInFlight := by
    unfold Exact at exact
    cases space <;> omega
  refine exact.change rfl ?_
  simp only [QuicLossRecovery.detectLostPackets, lost, bytesInFlight] at most ⊢
  omega

end QuicLossRecovery

/-- A loss recovery with the packets it was given and the numbers it has reported as acknowledged. -/
structure RecoveryLog where
  recovery : QuicLossRecovery
  sent : List QuicSentPacket
  acked : List (QuicPacketNumberSpace × Nat)

inductive RecoveryCall
  | onPacketSent (pkt : QuicSentPacket)
  | onAckReceived (space : QuicPacketNumberSpace) (ack : QuicFrame) (nowUs : Nat)
  | detectLostOnAlarm (space : QuicPacketNumberSpace) (nowUs : Nat)
  | onPtoExpired (space : QuicPacketNumberSpace)
  | packetsToRetransmitOnPto (space : QuicPacketNumberSpace)
deriving DecidableEq

namespace RecoveryLog

variable {nowUs : Nat} {ack : QuicFrame} {space : QuicPacketNumberSpace} {recovery : QuicLossRecovery}

/-- Packet numbers are distinct in each space. -/
def step (s : RecoveryLog) : RecoveryCall → Option RecoveryLog
  | .onPacketSent pkt =>
    if s.sent.any fun old => old.space = pkt.space ∧ old.pn = pkt.pn then none
    else some { s with recovery := s.recovery.onPacketSent pkt, sent := pkt :: s.sent }
  | .onAckReceived space ack nowUs =>
    let received := s.recovery.onAckReceived space ack nowUs
    some { s with recovery := received.1, acked := received.2.1.map (fun packet => (space, packet.pn)) ++ s.acked }
  | .detectLostOnAlarm space nowUs => some { s with recovery := (s.recovery.detectLostOnAlarm space nowUs).1 }
  | .onPtoExpired space => some { s with recovery := s.recovery.onPtoExpired space }
  | .packetsToRetransmitOnPto _ => some s

/-- The record of a packet stays after it was declared lost, as one of a packet that is not in flight. -/
def OnRecord (recovery : QuicLossRecovery) (packet : QuicSentPacket) : Prop :=
  (recovery.m_sent packet.space).packets[packet.pn]? = some packet ∨
    (recovery.m_sent packet.space).packets[packet.pn]? = some packet.settled

/-- The records are those of the packets that were sent and not acknowledged. -/
structure Recorded (s : RecoveryLog) : Prop where
  exact : s.recovery.Exact
  waiting : ∀ (space : QuicPacketNumberSpace) (pn : Nat) (record : QuicSentPacket),
    (s.recovery.m_sent space).packets[pn]? = some record → (space, pn) ∉ s.acked ∧
      ∃ packet ∈ s.sent, packet.space = space ∧ packet.pn = pn
  reported : ∀ entry ∈ s.acked, ∃ packet ∈ s.sent, packet.space = entry.1 ∧ packet.pn = entry.2
  tracked : ∀ packet ∈ s.sent, (packet.space, packet.pn) ∈ s.acked ∨ OnRecord s.recovery packet

variable {s t : RecoveryLog} {packet : QuicSentPacket}

theorem OnRecord.detected (known : OnRecord recovery packet) (space : QuicPacketNumberSpace) (nowUs : Nat) :
    OnRecord (recovery.detectLostPackets space nowUs).1 packet := by
  unfold OnRecord
  by_cases same : packet.space = space
  · subst same
    rw [QuicLossRecovery.detectLostPackets_sent]
    rcases known with flying | lost
    · rw [flying, Option.map_some]
      split
      · exact .inr rfl
      · exact .inl rfl
    · rw [lost, Option.map_some]
      exact .inr (by split <;> rfl)
  · rw [QuicLossRecovery.detectLostPackets_other _ _ same]
    exact known

theorem OnRecord.received (known : OnRecord recovery packet) (space : QuicPacketNumberSpace) (ack : QuicFrame)
    (nowUs : Nat) : (packet.space = space ∧ ∃ reported ∈ (recovery.onAckReceived space ack nowUs).2.1,
      reported.pn = packet.pn) ∨ OnRecord (recovery.onAckReceived space ack nowUs).1 packet := by
  by_cases same : packet.space = space
  · subst same
    by_cases named : packet.pn ∈ ackedNumbers ack (recovery.m_largestSent packet.space)
    · refine .inl ⟨rfl, packet.settled, ?_, rfl⟩
      rw [QuicLossRecovery.onAckReceived_acked, mem_filterMap]
      refine ⟨packet.pn, QuicLossRecovery.mem_ackedList.mpr named, ?_⟩
      rcases known with flying | lost
      · rw [flying]
        rfl
      · rw [lost]
        rfl
    · refine .inr (OnRecord.detected ?_ _ _)
      unfold OnRecord
      rw [QuicLossRecovery.acknowledge_sent, if_neg named]
      exact known
  · refine .inr (OnRecord.detected ?_ _ _)
    unfold OnRecord
    rw [QuicLossRecovery.acknowledge_other _ _ _ same]
    exact known

theorem received_records {other : QuicPacketNumberSpace} {pn : Nat} {record : QuicSentPacket}
    (present : ((recovery.onAckReceived space ack nowUs).1.m_sent other).packets[pn]? = some record) :
    (∃ old, (recovery.m_sent other).packets[pn]? = some old) ∧
      (other = space → pn ∉ ackedNumbers ack (recovery.m_largestSent space)) := by
  obtain ⟨old, before, _⟩ := LossWorld.Logged.detected_records present
  by_cases same : other = space
  · subst same
    rw [QuicLossRecovery.acknowledge_sent] at before
    split at before
    · cases before
    · rename_i unnamed
      exact ⟨⟨old, before⟩, fun _ => unnamed⟩
  · rw [QuicLossRecovery.acknowledge_other _ _ _ same] at before
    exact ⟨⟨old, before⟩, fun equal => absurd equal same⟩

theorem mem_reported (member : packet ∈ (recovery.onAckReceived space ack nowUs).2.1) :
    packet.pn ∈ ackedNumbers ack (recovery.m_largestSent space) ∧
      ∃ old, (recovery.m_sent space).packets[packet.pn]? = some old := by
  rw [QuicLossRecovery.onAckReceived_acked, mem_filterMap] at member
  obtain ⟨pn, named, found⟩ := member
  obtain ⟨old, present, rfl⟩ := Option.map_eq_some_iff.mp found
  have number : old.settled.pn = pn := (recovery.m_sent space).keyed pn old present
  rw [number]
  exact ⟨QuicLossRecovery.mem_ackedList.mp named, old, present⟩

theorem Recorded.weaken (inv : Recorded s) (exact : recovery.Exact)
    (records : ∀ (space : QuicPacketNumberSpace) (pn : Nat) (record : QuicSentPacket),
      (recovery.m_sent space).packets[pn]? = some record → ∃ old, (s.recovery.m_sent space).packets[pn]? = some old)
    (kept : ∀ packet, OnRecord s.recovery packet → OnRecord recovery packet) : Recorded { s with recovery } := by
  refine ⟨exact, fun space pn record present => ?_, inv.reported,
    fun packet member => (inv.tracked packet member).imp_right (kept packet)⟩
  obtain ⟨old, before⟩ := records space pn record present
  exact inv.waiting space pn old before

variable {call : RecoveryCall}

theorem Recorded.step (inv : Recorded s) (stepped : s.step call = some t) : Recorded t := by
  cases call with
  | onPacketSent pkt =>
    obtain ⟨fresh, taken⟩ := Option.ite_none_left_eq_some.mp stepped
    cases taken
    have new : ∀ old ∈ s.sent, ¬(old.space = pkt.space ∧ old.pn = pkt.pn) := by simpa using fresh
    have absent : (s.recovery.m_sent pkt.space).packets[pkt.pn]? = none := by
      by_contra recorded
      obtain ⟨record, present⟩ := Option.ne_none_iff_exists'.mp recorded
      obtain ⟨_, old, member, space, number⟩ := inv.waiting pkt.space pkt.pn record present
      exact new old member ⟨space, number⟩
    refine ⟨inv.exact.onPacketSent absent, fun space pn record present => ?_, fun entry member => ?_,
      forall_mem_cons.mpr ⟨.inr (.inl ?_), fun packet member => ?_⟩⟩
    · simp only [QuicLossRecovery.onPacketSent, Function.update_apply] at present
      by_cases here : space = pkt.space ∧ pn = pkt.pn
      · obtain ⟨rfl, rfl⟩ := here
        refine ⟨fun member => ?_, pkt, mem_cons_self, rfl, rfl⟩
        obtain ⟨old, known, same⟩ := inv.reported _ member
        exact new old known same
      · have before : (s.recovery.m_sent space).packets[pn]? = some record := by
          split_ifs at present with same
          · rw [SentPackets.insert_packets, if_neg fun number => here ⟨same, number⟩] at present
            rwa [same]
          · exact present
        obtain ⟨unacked, old, known, same⟩ := inv.waiting space pn record before
        exact ⟨unacked, old, mem_cons_of_mem _ known, same⟩
    · obtain ⟨old, known, same⟩ := inv.reported entry member
      exact ⟨old, mem_cons_of_mem _ known, same⟩
    · simp [QuicLossRecovery.onPacketSent, SentPackets.insert_packets]
    · refine (inv.tracked packet member).imp_right fun known => ?_
      unfold OnRecord
      simp only [QuicLossRecovery.onPacketSent, Function.update_apply]
      split_ifs with same
      · rw [SentPackets.insert_packets, if_neg fun number => new packet member ⟨same, number⟩, ← same]
        exact known
      · exact known
  | onAckReceived space ack nowUs =>
    cases stepped
    refine ⟨(inv.exact.acknowledge ack nowUs).detectLostPackets nowUs, fun other pn record present => ?_, ?_,
      fun packet member => ?_⟩
    · obtain ⟨⟨old, before⟩, unnamed⟩ := received_records present
      obtain ⟨unacked, known⟩ := inv.waiting other pn old before
      refine ⟨fun member => ?_, known⟩
      rcases mem_append.mp member with now | earlier
      · obtain ⟨packet, reported, same⟩ := mem_map.mp now
        cases same
        exact unnamed rfl (mem_reported reported).1
      · exact unacked earlier
    · intro entry member
      rcases mem_append.mp member with now | earlier
      · obtain ⟨packet, reported, rfl⟩ := mem_map.mp now
        obtain ⟨_, old, present⟩ := mem_reported reported
        exact (inv.waiting space packet.pn old present).2
      · exact inv.reported entry earlier
    · rcases inv.tracked packet member with acked | known
      · exact .inl (mem_append_right _ acked)
      · refine (known.received space ack nowUs).imp_left ?_
        rintro ⟨rfl, reported, listed, number⟩
        exact mem_append_left _ (mem_map.mpr ⟨reported, listed, by rw [number]⟩)
  | detectLostOnAlarm space nowUs =>
    cases stepped
    refine inv.weaken (inv.exact.detectLostPackets nowUs) (fun other pn record present => ?_)
      fun packet known => known.detected space nowUs
    obtain ⟨old, before, _⟩ := LossWorld.Logged.detected_records present
    exact ⟨old, before⟩
  | onPtoExpired space =>
    cases stepped
    exact inv.weaken inv.exact (fun _ _ record present => ⟨record, present⟩) fun _ known => known
  | packetsToRetransmitOnPto space =>
    cases stepped
    exact inv

def new : RecoveryLog := ⟨.new, [], []⟩

theorem Recorded.new : Recorded .new := by
  have empty : ∀ (pn : Nat), SentPackets.empty.packets[pn]? = none := fun pn => by simp [SentPackets.empty]
  have nothing : SentPackets.empty.bytesInFlight = 0 := by
    refine SentPackets.bytesInFlight_eq_zero fun packet member => ?_
    rw [SentPackets.mem_toList, empty] at member
    cases member
  refine ⟨?_, fun space pn record present => ?_, by simp [RecoveryLog.new], by simp [RecoveryLog.new]⟩
  · simp [QuicLossRecovery.Exact, QuicLossRecovery.bytesInFlight, RecoveryLog.new, QuicLossRecovery.new, nothing]
  · rw [show (RecoveryLog.new.recovery.m_sent space).packets[pn]? = none from empty pn] at present
    cases present

end RecoveryLog

end Qtng
