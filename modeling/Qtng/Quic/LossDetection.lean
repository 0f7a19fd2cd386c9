import Qtng.Quic.Retransmit

namespace Qtng

open BigEndian SentPackets Transition

namespace QuicLossRecovery

/-- A packet below the largest acknowledged number that is so by the packet threshold or has been
underway for the loss delay. -/
structure Justified (recovery : QuicLossRecovery) (space : QuicPacketNumberSpace) (nowUs : Nat)
    (packet : QuicSentPacket) : Prop where
  below : packet.pn < recovery.m_largestAcked space
  threshold : packet.pn + kPacketThreshold ≤ recovery.m_largestAcked space ∨
    packet.timeSentUs + lossDelayUs recovery.m_rtt ≤ nowUs

/-- The packets that are no longer the newest one in flight lie below the largest acknowledged number, and
those that only the clock can declare lost were sent before the newest one. -/
def Overtaken (recovery : QuicLossRecovery) (space : QuicPacketNumberSpace) : Prop :=
  ∀ packet ∈ (recovery.m_sent space).toList, packet.inFlight = true →
    packet.pn < (newestInFlight (recovery.m_sent space)).1 →
      packet.pn < recovery.m_largestAcked space ∧
        (packet.pn + kPacketThreshold ≤ recovery.m_largestAcked space ∨
          packet.timeSentUs ≤ (newestInFlight (recovery.m_sent space)).2)

variable {recovery : QuicLossRecovery} {space : QuicPacketNumberSpace} {nowUs : Nat}

theorem lossDelayUs_pos {rtt : QuicRttStats} : 0 < lossDelayUs rtt ↔ 0 < rtt.smoothedRttUs := by
  unfold lossDelayUs
  split <;> omega

theorem mem_detectLostPackets {packet : QuicSentPacket} :
    packet ∈ (recovery.detectLostPackets space nowUs).2 ↔
      ∃ old ∈ (recovery.m_sent space).toList, recovery.overdue space nowUs old = true ∧ old.settled = packet := by
  simp only [detectLostPackets, List.mem_map, List.mem_filter, and_assoc]

theorem overdue_iff {packet : QuicSentPacket} :
    recovery.overdue space nowUs packet = true ↔ packet.inFlight = true ∧
      (packet.pn + kPacketThreshold ≤ recovery.m_largestAcked space ∨
        (0 < recovery.m_rtt.smoothedRttUs ∧ 0 < (newestInFlight (recovery.m_sent space)).2 ∧
          (newestInFlight (recovery.m_sent space)).2 + lossDelayUs recovery.m_rtt ≤ nowUs ∧
          packet.pn < (newestInFlight (recovery.m_sent space)).1)) := by
  have packets : (recovery.m_largestAcked space ≥ kPacketThreshold ∧
      packet.pn ≤ recovery.m_largestAcked space - kPacketThreshold) ↔
      packet.pn + kPacketThreshold ≤ recovery.m_largestAcked space := by
    omega
  simp [overdue, isLost, packets, lossDelayUs_pos]

theorem overtaken_of_justified
    (justified : ∀ nowUs, ∀ packet ∈ (recovery.detectLostPackets space nowUs).2,
      recovery.Justified space nowUs packet)
    (sampled : recovery.m_rtt.smoothedRttUs ≠ 0) (timed : (newestInFlight (recovery.m_sent space)).2 ≠ 0) :
    recovery.Overtaken space := by
  intro packet member flying older
  -- the first moment at which the clock declares the packet lost
  have lost := justified ((newestInFlight (recovery.m_sent space)).2 + lossDelayUs recovery.m_rtt) packet.settled
    (mem_detectLostPackets.mpr ⟨packet, member, overdue_iff.mpr ⟨flying, .inr ⟨by omega, by omega, le_rfl, older⟩⟩,
      rfl⟩)
  exact ⟨lost.below, lost.threshold.imp_right fun aged => Nat.le_of_add_le_add_right aged⟩

theorem justified_of_overtaken (overtaken : recovery.m_rtt.smoothedRttUs ≠ 0 →
      (newestInFlight (recovery.m_sent space)).2 ≠ 0 → recovery.Overtaken space)
    {packet : QuicSentPacket} (member : packet ∈ (recovery.detectLostPackets space nowUs).2) :
    recovery.Justified space nowUs packet := by
  obtain ⟨old, recorded, overdue, rfl⟩ := mem_detectLostPackets.mp member
  obtain ⟨flying, rule⟩ := overdue_iff.mp overdue
  rcases rule with packets | ⟨sampled, timed, late, older⟩
  · refine ⟨?_, .inl packets⟩
    have three : 0 < kPacketThreshold := by decide
    exact lt_of_lt_of_le (Nat.lt_add_of_pos_right three) packets
  · obtain ⟨below, reason⟩ := overtaken (by omega) (by omega) old recorded flying older
    refine ⟨below, reason.imp_right fun before => ?_⟩
    exact le_trans (Nat.add_le_add_right before _) late

/-- Whatever the clock says, only overtaken packets are declared lost, exactly if there is no round trip
sample yet, the newest packet in flight has no time, or all other packets in flight are overtaken. -/
theorem lost_justified_iff (recovery : QuicLossRecovery) (space : QuicPacketNumberSpace) :
    (∀ nowUs, ∀ packet ∈ (recovery.detectLostPackets space nowUs).2, recovery.Justified space nowUs packet) ↔
      (recovery.m_rtt.smoothedRttUs = 0 ∨ (newestInFlight (recovery.m_sent space)).2 = 0 ∨
        recovery.Overtaken space) := by
  constructor
  · intro justified
    by_cases sampled : recovery.m_rtt.smoothedRttUs = 0
    · exact .inl sampled
    by_cases timed : (newestInFlight (recovery.m_sent space)).2 = 0
    · exact .inr (.inl timed)
    exact .inr (.inr (overtaken_of_justified justified sampled timed))
  · intro condition nowUs packet member
    refine justified_of_overtaken ?_ member
    intro sampled timed
    exact (condition.resolve_left sampled).resolve_left timed

def packetAt (pn timeSentUs : Nat) : QuicSentPacket := ⟨pn, .application, [0], true, true, timeSentUs⟩

/-- The first packet is acknowledged, and two more are sent. -/
def twoUnanswered : QuicLossRecovery :=
  (((QuicLossRecovery.new.onPacketSent (packetAt 1 1000)).onAckReceived .application
    { type := .ack, largestAcknowledged := 1 } 2000).1.onPacketSent (packetAt 2 3000)).onPacketSent (packetAt 3 3001)

/-- The clock alone declares the second packet lost: only the first one has been acknowledged. -/
theorem twoUnanswered_lost : twoUnanswered.m_largestAcked .application = 1 ∧
    (packetAt 2 3000).settled ∈ (twoUnanswered.detectLostPackets .application 5000).2 ∧
    ¬ twoUnanswered.Justified .application 5000 (packetAt 2 3000).settled := by
  refine ⟨by decide, by decide, fun justified => ?_⟩
  exact absurd justified.below (by decide)

/-- Packets in flight with larger numbers were not sent earlier. -/
def InOrder (recovery : QuicLossRecovery) (space : QuicPacketNumberSpace) : Prop :=
  ∀ older ∈ (recovery.m_sent space).toList, ∀ newer ∈ (recovery.m_sent space).toList,
    older.inFlight = true → newer.inFlight = true → older.pn < newer.pn → older.timeSentUs ≤ newer.timeSentUs

theorem newestInFlight_mem (sent : SentPackets) : newestInFlight sent = (0, 0) ∨
    ∃ packet ∈ sent.toList, packet.inFlight = true ∧ newestInFlight sent = (packet.pn, packet.timeSentUs) := by
  refine List.foldlRecOn (motive := fun newest => newest = (0, 0) ∨
    ∃ packet ∈ sent.toList, packet.inFlight = true ∧ newest = (packet.pn, packet.timeSentUs))
    sent.toList _ (.inl rfl) ?_
  intro newest found packet member
  by_cases newer : packet.inFlight = true ∧ packet.pn > newest.1
  · rw [if_pos newer]
    exact .inr ⟨packet, member, newer.1, rfl⟩
  · rw [if_neg newer]
    exact found

theorem InOrder.overtaken_iff (ordered : recovery.InOrder space) :
    recovery.Overtaken space ↔ ∀ packet ∈ (recovery.m_sent space).toList, packet.inFlight = true →
      packet.pn < (newestInFlight (recovery.m_sent space)).1 → packet.pn < recovery.m_largestAcked space := by
  constructor
  · intro overtaken packet member flying older
    exact (overtaken packet member flying older).1
  · intro below packet member flying older
    refine ⟨below packet member flying older, .inr ?_⟩
    rcases newestInFlight_mem (recovery.m_sent space) with none | ⟨newest, recorded, newestFlies, same⟩
    · simp [none] at older
    · rw [same] at older ⊢
      exact ordered packet member newest recorded flying newestFlies older

end QuicLossRecovery

namespace LossWorld

open QuicLossRecovery

variable {s t : LossWorld} {space : QuicPacketNumberSpace} {recovery : QuicLossRecovery}

/-- Within a space numbers grow from one packet to the next and the clock does not run backwards. -/
def sendsInOrder (s : LossWorld) : LossEvent → Bool
  | .sendNow space pn _ _ nowUs => s.sent.all fun old => old.space = space → old.pn < pn ∧ old.timeSentUs ≤ nowUs
  | _ => true

/-- The records that the loss detection goes through: those of an alarm, or what an ACK frame leaves. -/
def Examines (s : LossWorld) (space : QuicPacketNumberSpace) (recovery : QuicLossRecovery) : Prop :=
  recovery = s.recovery ∨ ∃ frame nowUs, recovery = (s.recovery.acknowledge space frame nowUs).1

structure Chronological (s : LossWorld) : Prop where
  logged : Logged s
  ordered : ∀ older ∈ s.sent, ∀ newer ∈ s.sent, older.space = newer.space → older.pn < newer.pn →
    older.timeSentUs ≤ newer.timeSentUs

theorem Chronological.step {e : LossEvent} (inv : Chronological s) (inOrder : s.sendsInOrder e = true)
    (accepted : s.step e = some t) : Chronological t := by
  refine ⟨inv.logged.step accepted, ?_⟩
  cases e with
  | sendNow space pn packet ackEliciting nowUs =>
    cases accepted
    simp only [sendsInOrder, List.all_eq_true, decide_eq_true_eq] at inOrder
    intro older olderIn newer newerIn same less
    rcases List.mem_cons.mp newerIn with rfl | newerIn
    · rcases List.mem_cons.mp olderIn with rfl | olderIn
      · exact le_rfl
      · exact (inOrder older olderIn same).2
    · rcases List.mem_cons.mp olderIn with rfl | olderIn
      · exact absurd less (Nat.lt_asymm (inOrder newer newerIn same.symm).1)
      · exact inv.ordered older olderIn newer newerIn same less
  | ack => cases accepted; exact inv.ordered
  | alarm =>
    cases accepted
    unfold LossWorld.alarm
    split <;> exact inv.ordered
  | pto =>
    cases accepted
    unfold LossWorld.pto
    dsimp only
    split <;> exact inv.ordered

theorem Chronological.inOrder (inv : Chronological s) (examined : s.Examines space recovery) :
    recovery.InOrder space := by
  have recorded : ∀ packet ∈ (recovery.m_sent space).toList,
      (s.recovery.m_sent space).packets[packet.pn]? = some packet := by
    intro packet member
    rw [mem_toList] at member
    rcases examined with rfl | ⟨frame, nowUs, rfl⟩
    · exact member
    · rw [acknowledge_sent] at member
      split at member
      · simp at member
      · exact member
  intro older olderIn newer newerIn olderFlies newerFlies less
  obtain ⟨olderSent, olderSpace, _⟩ := inv.logged.mem_sent_of_record (recorded older olderIn) olderFlies
  obtain ⟨newerSent, newerSpace, _⟩ := inv.logged.mem_sent_of_record (recorded newer newerIn) newerFlies
  exact inv.ordered older olderSent newer newerSent (olderSpace.trans newerSpace.symm) less

/-- In the runs that send in order, whatever the clock says, only overtaken packets are declared lost exactly
if all packets in flight but the newest one are below the largest acknowledged number. This is asked only after
a round trip sample and of a newest packet with a time. -/
theorem lost_justified_of_run_iff {history : List (LossWorld × LossEvent)} (run : Run lossSystem history t)
    (inOrder : ∀ entry ∈ history, entry.1.sendsInOrder entry.2 = true) (visited : Visited history t s)
    (examined : s.Examines space recovery) :
    (∀ nowUs, ∀ packet ∈ (recovery.detectLostPackets space nowUs).2, recovery.Justified space nowUs packet) ↔
      (recovery.m_rtt.smoothedRttUs ≠ 0 → (newestInFlight (recovery.m_sent space)).2 ≠ 0 →
        ∀ packet ∈ (recovery.m_sent space).toList, packet.inFlight = true →
          packet.pn < (newestInFlight (recovery.m_sent space)).1 → packet.pn < recovery.m_largestAcked space) := by
  have inv : Chronological s := run.visited_of_guard (fun s e => s.sendsInOrder e = true) inOrder
    (by rintro _ rfl; exact ⟨.new, by simp [LossWorld.new]⟩)
    (fun _ _ _ inv kept accepted => inv.step kept accepted) visited
  have exactly := (inv.inOrder examined).overtaken_iff
  constructor
  · intro justified sampled timed
    exact exactly.mp (overtaken_of_justified justified sampled timed)
  · intro below nowUs packet member
    exact justified_of_overtaken (fun sampled timed => exactly.mpr (below sampled timed)) member

end LossWorld

end Qtng
