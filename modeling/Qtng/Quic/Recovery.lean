import Qtng.General.Map
import Qtng.Quic.Ack

namespace Qtng

open Std (ExtTreeMap)
open BigEndian

inductive QuicPacketNumberSpace
  | initial
  | handshake
  | application
deriving DecidableEq

structure QuicSentPacket where
  pn : Nat
  space : QuicPacketNumberSpace
  raw : Bytes
  ackEliciting : Bool
  inFlight : Bool
  timeSentUs : Nat
deriving DecidableEq

/-- A packet once it is acknowledged or declared lost. -/
def QuicSentPacket.settled (packet : QuicSentPacket) : QuicSentPacket := { packet with inFlight := false }

structure QuicRttStats where
  latestRttUs : Nat := 0
  minRttUs : Nat := 0
  smoothedRttUs : Nat := 0
  rttvarUs : Nat := 0
  maxAckDelayUs : Nat := 25 * 1000
deriving DecidableEq

def QuicRttStats.onAckSample (rtt : QuicRttStats) (timeSentUs ackDelayUs nowUs : Nat) : QuicRttStats :=
  if timeSentUs = 0 ∨ nowUs < timeSentUs then rtt
  else
    let sample := nowUs - timeSentUs
    let latest := if ackDelayUs < sample then sample - min ackDelayUs rtt.maxAckDelayUs else sample
    let rtt := { rtt with latestRttUs := latest }
    let rtt := if rtt.minRttUs = 0 ∨ latest < rtt.minRttUs then { rtt with minRttUs := latest } else rtt
    if rtt.smoothedRttUs = 0 then { rtt with smoothedRttUs := latest, rttvarUs := latest / 2 }
    else
      let delta := if rtt.smoothedRttUs > latest then rtt.smoothedRttUs - latest else latest - rtt.smoothedRttUs
      { rtt with
        rttvarUs := 3 * rtt.rttvarUs / 4 + delta / 4, smoothedRttUs := 7 * rtt.smoothedRttUs / 8 + latest / 8 }

def QuicRttStats.ptoUs (rtt : QuicRttStats) : Nat := rtt.smoothedRttUs + max 1000 (4 * rtt.rttvarUs) + rtt.maxAckDelayUs

structure SentPackets where
  packets : ExtTreeMap Nat QuicSentPacket
  keyed : ∀ (pn : Nat) (packet : QuicSentPacket), packets[pn]? = some packet → packet.pn = pn

namespace SentPackets

def empty : SentPackets := ⟨∅, by simp⟩

def insert (sent : SentPackets) (packet : QuicSentPacket) : SentPackets where
  packets := sent.packets.insert packet.pn packet
  keyed := by
    intro pn found present
    rw [NatMap.getElem?_insert] at present
    split at present
    · rename_i same
      cases Option.some.inj present
      exact same.symm
    · exact sent.keyed pn found present

def erase (sent : SentPackets) (pn : Nat) : SentPackets where
  packets := sent.packets.erase pn
  keyed := by
    intro other found present
    rw [NatMap.getElem?_erase] at present
    split at present
    · simp at present
    · exact sent.keyed other found present

def clearInFlight (sent : SentPackets) (chosen : QuicSentPacket → Bool) : SentPackets where
  packets := sent.packets.map fun _ packet => if chosen packet then packet.settled else packet
  keyed := by
    intro pn found present
    rw [ExtTreeMap.getElem?_map, Option.map_eq_some_iff] at present
    obtain ⟨packet, atPn, result⟩ := present
    have own := sent.keyed pn packet atPn
    subst result
    split <;> exact own

def toList (sent : SentPackets) : List QuicSentPacket := sent.packets.toList.map Prod.snd

theorem insert_packets (sent : SentPackets) (packet : QuicSentPacket) (k : Nat) :
    (sent.insert packet).packets[k]? = if k = packet.pn then some packet else sent.packets[k]? :=
  NatMap.getElem?_insert _ _ _ _

theorem erase_packets (sent : SentPackets) (pn k : Nat) :
    (sent.erase pn).packets[k]? = if k = pn then none else sent.packets[k]? :=
  NatMap.getElem?_erase _ _ _

theorem clearInFlight_packets (sent : SentPackets) (chosen : QuicSentPacket → Bool) (k : Nat) :
    (sent.clearInFlight chosen).packets[k]? =
      sent.packets[k]?.map fun packet => if chosen packet then packet.settled else packet :=
  ExtTreeMap.getElem?_map

end SentPackets

def kPacketThreshold : Nat := 3

def kTimeThresholdDenominator : Nat := 8

structure QuicLossRecovery where
  m_sent : QuicPacketNumberSpace → SentPackets
  m_largestAcked : QuicPacketNumberSpace → Nat
  m_largestSent : QuicPacketNumberSpace → Nat
  m_lastSentTimeUs : QuicPacketNumberSpace → Nat
  m_ptoCount : QuicPacketNumberSpace → Nat
  m_earliestLostTimeUs : QuicPacketNumberSpace → Nat
  m_bytesInFlight : Nat
  m_rtt : QuicRttStats

namespace QuicLossRecovery

def new : QuicLossRecovery where
  m_sent := fun _ => .empty
  m_largestAcked := fun _ => 0
  m_largestSent := fun _ => 0
  m_lastSentTimeUs := fun _ => 0
  m_ptoCount := fun _ => 0
  m_earliestLostTimeUs := fun _ => 0
  m_bytesInFlight := 0
  m_rtt := {}

def onPacketSent (recovery : QuicLossRecovery) (pkt : QuicSentPacket) : QuicLossRecovery :=
  { recovery with
    m_sent := Function.update recovery.m_sent pkt.space ((recovery.m_sent pkt.space).insert pkt)
    m_largestSent := Function.update recovery.m_largestSent pkt.space (max (recovery.m_largestSent pkt.space) pkt.pn)
    m_lastSentTimeUs :=
      Function.update recovery.m_lastSentTimeUs pkt.space (max (recovery.m_lastSentTimeUs pkt.space) pkt.timeSentUs)
    m_bytesInFlight := if pkt.inFlight then recovery.m_bytesInFlight + pkt.raw.length else recovery.m_bytesInFlight }

/-- The number and the time of the newest packet in flight. The packet with the
number 0 never counts. -/
def newestInFlight (sent : SentPackets) : Nat × Nat :=
  sent.toList.foldl
    (fun newest packet => if packet.inFlight ∧ packet.pn > newest.1 then (packet.pn, packet.timeSentUs) else newest)
    (0, 0)

def lossDelayUs (rtt : QuicRttStats) : Nat :=
  if rtt.smoothedRttUs > 0 then max 1000 (9 * max rtt.latestRttUs rtt.smoothedRttUs / kTimeThresholdDenominator) else 0

/-- Whether detectLostPackets declares a packet lost, by the packet threshold or
by the time threshold. -/
def isLost (largestAcked : Nat) (newest : Nat × Nat) (lossDelay nowUs : Nat) (packet : QuicSentPacket) : Bool :=
  packet.inFlight ∧
    ((largestAcked ≥ kPacketThreshold ∧ packet.pn ≤ largestAcked - kPacketThreshold) ∨
      (lossDelay > 0 ∧ newest.2 > 0 ∧ nowUs ≥ newest.2 + lossDelay ∧ packet.pn < newest.1))

/-- Whether a packet is lost by what the recovery knows at a time. -/
def overdue (recovery : QuicLossRecovery) (space : QuicPacketNumberSpace) (nowUs : Nat) : QuicSentPacket → Bool :=
  isLost (recovery.m_largestAcked space) (newestInFlight (recovery.m_sent space)) (lossDelayUs recovery.m_rtt) nowUs

def detectLostPackets (recovery : QuicLossRecovery) (space : QuicPacketNumberSpace) (nowUs : Nat) :
    QuicLossRecovery × List QuicSentPacket :=
  let sent := recovery.m_sent space
  let newest := newestInFlight sent
  let lossDelay := lossDelayUs recovery.m_rtt
  let isLost := recovery.overdue space nowUs
  let lost := (sent.toList.filter isLost).map QuicSentPacket.settled
  let lossTime := newest.2 + lossDelay
  -- every packet in flight that is not lost sets the same alarm
  let alarm := lossDelay > 0 ∧ newest.2 > 0 ∧ newest.1 > 0 ∧ lossTime > nowUs ∧
    sent.toList.any fun packet => packet.inFlight && !isLost packet
  ({ recovery with
      m_sent := Function.update recovery.m_sent space (sent.clearInFlight isLost)
      m_bytesInFlight := recovery.m_bytesInFlight - (lost.map fun packet => packet.raw.length).sum
      m_earliestLostTimeUs :=
        Function.update recovery.m_earliestLostTimeUs space (if alarm then lossTime else 0) }, lost)

def ackOne (state : SentPackets × Nat × List QuicSentPacket) (pn : Nat) : SentPackets × Nat × List QuicSentPacket :=
  match state.1.packets[pn]? with
  | none => state
  | some packet =>
    let bytes := if packet.inFlight then state.2.1 - packet.raw.length else state.2.1
    (state.1.erase pn, bytes, state.2.2 ++ [packet.settled])

/-- onAckReceived up to the loss detection: the recovery with the acknowledged
packets removed, and these packets. -/
def acknowledge (recovery : QuicLossRecovery) (space : QuicPacketNumberSpace) (ack : QuicFrame) (nowUs : Nat) :
    QuicLossRecovery × List QuicSentPacket :=
  let largest := min ack.largestAcknowledged (recovery.m_largestSent space)
  let sent := recovery.m_sent space
  -- a round trip is sampled if the frame acknowledges a larger number that is recorded
  let sampled := if largest > recovery.m_largestAcked space then sent.packets[largest]? else none
  let rtt := match sampled with
    | some packet => recovery.m_rtt.onAckSample packet.timeSentUs ack.ackDelay nowUs
    | none => recovery.m_rtt
  let ptoCount := if sampled.isSome then Function.update recovery.m_ptoCount space 0 else recovery.m_ptoCount
  let acked := ackedNumbers ack (recovery.m_largestSent space)
  -- the numbers in increasing order
  let done := ((List.range (largest + 1)).filter (· ∈ acked)).foldl ackOne (sent, recovery.m_bytesInFlight, [])
  let newlyAcked := done.2.2.insertionSort fun a b => a.pn ≤ b.pn
  ({ recovery with
      m_rtt := rtt, m_ptoCount := ptoCount, m_sent := Function.update recovery.m_sent space done.1
      m_bytesInFlight := done.2.1
      m_largestAcked := Function.update recovery.m_largestAcked space (max (recovery.m_largestAcked space) largest) },
    newlyAcked)

/-- The recovery afterwards, the newly acknowledged packets, and the packets to
send again. -/
def onAckReceived (recovery : QuicLossRecovery) (space : QuicPacketNumberSpace) (ack : QuicFrame) (nowUs : Nat) :
    QuicLossRecovery × List QuicSentPacket × List Bytes :=
  let acked := recovery.acknowledge space ack nowUs
  let detected := acked.1.detectLostPackets space nowUs
  (detected.1, acked.2, detected.2.map (·.raw))

def detectLostOnAlarm (recovery : QuicLossRecovery) (space : QuicPacketNumberSpace) (nowUs : Nat) :
    QuicLossRecovery × List QuicSentPacket :=
  let detected := recovery.detectLostPackets space nowUs
  ({ detected.1 with m_earliestLostTimeUs := Function.update detected.1.m_earliestLostTimeUs space 0 }, detected.2)

def packetsToRetransmitOnPto (recovery : QuicLossRecovery) (space : QuicPacketNumberSpace) : List Bytes :=
  ((recovery.m_sent space).toList.filter fun packet => packet.inFlight && packet.ackEliciting).map (·.raw)

/-- The backoff doubles eight times at most. -/
def ptoTimeoutUs (recovery : QuicLossRecovery) (space : QuicPacketNumberSpace) : Nat :=
  let base := if recovery.m_rtt.smoothedRttUs > 0 then recovery.m_rtt.ptoUs else 1000 * 1000
  base * 2 ^ min (recovery.m_ptoCount space) 8

def onPtoExpired (recovery : QuicLossRecovery) (space : QuicPacketNumberSpace) : QuicLossRecovery :=
  { recovery with m_ptoCount := Function.update recovery.m_ptoCount space (recovery.m_ptoCount space + 1) }

def hasInFlight (recovery : QuicLossRecovery) (space : QuicPacketNumberSpace) : Bool :=
  (recovery.m_sent space).toList.any (·.inFlight)

theorem ackOne_fold {numbers : List Nat} (distinct : numbers.Nodup) (sent : SentPackets) (bytes : Nat)
    (reported : List QuicSentPacket) :
    (∀ k : Nat, (numbers.foldl ackOne (sent, bytes, reported)).1.packets[k]? =
      if k ∈ numbers then none else sent.packets[k]?) ∧
    (numbers.foldl ackOne (sent, bytes, reported)).2.2 =
      reported ++ numbers.filterMap fun pn => sent.packets[pn]?.map QuicSentPacket.settled := by
  induction numbers generalizing sent bytes reported with
  | nil => simp
  | cons pn rest ih =>
    obtain ⟨outside, distinctRest⟩ := List.nodup_cons.mp distinct
    rw [List.foldl_cons, ackOne]
    cases found : sent.packets[pn]? with
    | none =>
      obtain ⟨left, listed⟩ := ih distinctRest sent bytes reported
      constructor
      · intro k
        rw [left k]
        by_cases same : k = pn
        · simp [same, found]
        · simp [same]
      · rw [listed, List.filterMap_cons, found, Option.map_none]
    | some packet =>
      obtain ⟨left, listed⟩ := ih distinctRest (sent.erase pn)
        (if packet.inFlight then bytes - packet.raw.length else bytes) (reported ++ [packet.settled])
      constructor
      · intro k
        rw [left k, SentPackets.erase_packets]
        by_cases same : k = pn
        · simp [same]
        · simp [same]
      · have others : rest.filterMap (fun k => (sent.erase pn).packets[k]?.map QuicSentPacket.settled) =
            rest.filterMap fun k => sent.packets[k]?.map QuicSentPacket.settled := by
          apply List.filterMap_congr
          intro k member
          have different : k ≠ pn := fun same => outside (same ▸ member)
          rw [SentPackets.erase_packets, if_neg different]
        rw [listed, others, List.filterMap_cons, found, Option.map_some, List.append_assoc, List.singleton_append]

def ackedList (recovery : QuicLossRecovery) (space : QuicPacketNumberSpace) (ack : QuicFrame) : List Nat :=
  (List.range (min ack.largestAcknowledged (recovery.m_largestSent space) + 1)).filter
    (· ∈ ackedNumbers ack (recovery.m_largestSent space))

theorem ackedList_sorted (recovery : QuicLossRecovery) (space : QuicPacketNumberSpace) (ack : QuicFrame) :
    (recovery.ackedList space ack).Pairwise (· < ·) :=
  List.pairwise_lt_range.filter _

theorem mem_ackedList {recovery : QuicLossRecovery} {space : QuicPacketNumberSpace} {ack : QuicFrame} {pn : Nat} :
    pn ∈ recovery.ackedList space ack ↔ pn ∈ ackedNumbers ack (recovery.m_largestSent space) := by
  simp only [ackedList, List.mem_filter, List.mem_range, decide_eq_true_eq, and_iff_right_iff_imp]
  intro member
  have bound := ackedNumbers_le member
  omega

theorem reported_sorted (sent : SentPackets) {numbers : List Nat} (sorted : numbers.Pairwise (· < ·)) :
    (numbers.filterMap fun pn => sent.packets[pn]?.map QuicSentPacket.settled).Pairwise (fun a b => a.pn < b.pn) := by
  rw [List.pairwise_filterMap]
  refine sorted.imp ?_
  intro first second less a atFirst b atSecond
  obtain ⟨p, foundFirst, rfl⟩ := Option.map_eq_some_iff.mp atFirst
  obtain ⟨q, foundSecond, rfl⟩ := Option.map_eq_some_iff.mp atSecond
  have firstKey := sent.keyed first p foundFirst
  have secondKey := sent.keyed second q foundSecond
  simp only [QuicSentPacket.settled]
  omega

theorem onAckReceived_acked (recovery : QuicLossRecovery) (space : QuicPacketNumberSpace) (ack : QuicFrame)
    (nowUs : Nat) :
    (recovery.onAckReceived space ack nowUs).2.1 =
      (recovery.ackedList space ack).filterMap fun pn =>
        (recovery.m_sent space).packets[pn]?.map QuicSentPacket.settled := by
  have sorted := recovery.ackedList_sorted space ack
  have listed := (ackOne_fold (sorted.imp fun less => Nat.ne_of_lt less) (recovery.m_sent space)
    recovery.m_bytesInFlight []).2
  rw [List.nil_append] at listed
  have order := reported_sorted (recovery.m_sent space) sorted
  simp only [onAckReceived, acknowledge]
  simp only [ackedList] at listed order
  rw [listed]
  exact (order.imp fun less => Nat.le_of_lt less).insertionSort_eq

end QuicLossRecovery

end Qtng
