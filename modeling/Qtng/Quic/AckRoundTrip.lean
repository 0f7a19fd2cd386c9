import Qtng.Quic.FrameRoundTrip
import Qtng.Quic.Recovery

namespace Qtng

open Runs

theorem ackRangeLoop_length (received : Finset Nat) (budget prevLow : Nat) :
    (ackRangeLoop received budget prevLow).length ≤ budget := by
  induction budget generalizing prevLow with
  | zero => simp [ackRangeLoop]
  | succ budget ih =>
    simp only [ackRangeLoop]
    split
    · simp
    split
    · simp
    split
    · simp
    · rw [List.length_cons]
      have shorter := ih (descend (· ∈ received) (descend (· ∉ received) (prevLow - 1) - 1))
      omega

theorem ackRangeLoop_bounds {received : Finset Nat} {budget prevLow : Nat} :
    ∀ range ∈ ackRangeLoop received budget prevLow, range.gap ≤ prevLow ∧ range.ackRangeLength ≤ prevLow := by
  induction budget generalizing prevLow with
  | zero => simp [ackRangeLoop]
  | succ budget ih =>
    intro range member
    simp only [ackRangeLoop] at member
    split at member
    · simp at member
    split at member
    · simp at member
    split at member
    · simp at member
    · have gapBound := descend_le (· ∉ received) (prevLow - 1)
      rcases List.mem_cons.mp member with own | later
      · subst own
        simp only
        omega
      · have lowBound := descend_le (· ∈ received) (descend (· ∉ received) (prevLow - 1) - 1)
        obtain ⟨gap, length⟩ := ih range later
        omega

/-- A frame for packet numbers below 2^62 can be written, and what is read back
acknowledges the same numbers. -/
theorem quicBuildAckFrame_wire {R : Finset Nat} (nonempty : R.Nonempty) (numbers : ∀ pn ∈ R, pn < 2 ^ 62) :
    ∃ bytes frame, quicEncodeFrame (quicBuildAckFrame R {}) = some bytes ∧ quicDecodeFrames bytes = some [frame] ∧
      frame.type = .ack ∧
      frame.largestAcknowledged = (quicBuildAckFrame R {}).largestAcknowledged ∧
      frame.firstAckRange = (quicBuildAckFrame R {}).firstAckRange ∧
      frame.ackRanges = (quicBuildAckFrame R {}).ackRanges := by
  have top := numbers _ (R.max'_mem nonempty)
  have low := descend_le (· ∈ R) (R.max' nonempty)
  have isAck : (quicBuildAckFrame R {}).type = .ack := by simp [quicBuildAckFrame, nonempty]
  have encodes : (quicEncodeFrame (quicBuildAckFrame R {})).isSome := by
    refine (quicEncodeFrame_isSome_iff _).mpr ⟨by rw [isAck]; rfl, ?_⟩
    simp only [QuicFrame.InRange, isAck]
    refine ⟨?_, ?_, ?_, ?_, ?_⟩ <;> simp only [quicBuildAckFrame, nonempty, dite_true, List.nil_append]
    · exact top
    · decide
    · have few :=
        ackRangeLoop_length R (max 1 (255 - ([] : List QuicAckRange).length)) (descend (· ∈ R) (R.max' nonempty))
      simp only [List.length_nil] at few ⊢
      omega
    · omega
    · intro range member
      have bounds := ackRangeLoop_bounds range member
      omega
  obtain ⟨bytes, encoded⟩ := Option.isSome_iff_exists.mp encodes
  have whole : encodeFrames [quicBuildAckFrame R {}] = some bytes := by simp [encodeFrames, encoded]
  have decoded := decodeLoop_encodeFrames whole (List.isChain_singleton _) (Nat.le_refl _)
  refine ⟨bytes, _, encoded, decoded, (QuicFrame.onWire_type _).trans isAck, ?_, ?_, ?_⟩ <;>
    simp only [QuicFrame.onWire, isAck]

/-- An ACK frame that is built for the received packet numbers, written, read
back and processed reports the recorded packets of the 256 highest runs, each
once and in increasing order. With at most 256 runs these are all packets
received, and in no case is another packet reported. -/
theorem ack_frame_round_trip (recovery : QuicLossRecovery) (space : QuicPacketNumberSpace) (nowUs : Nat)
    {R : Finset Nat} (nonempty : R.Nonempty) (numbers : ∀ pn ∈ R, pn < 2 ^ 62)
    (sent : R.max' nonempty ≤ recovery.m_largestSent space) :
    ∃ bytes frame, quicEncodeFrame (quicBuildAckFrame R {}) = some bytes ∧ quicDecodeFrames bytes = some [frame] ∧
      frame.type = .ack ∧
      (recovery.onAckReceived space frame nowUs).2.1.Pairwise (fun a b => a.pn < b.pn) ∧
      (∀ packet, packet ∈ (recovery.onAckReceived space frame nowUs).2.1 ↔
        ∃ pn ∈ highest 256 R, ∃ recorded, (recovery.m_sent space).packets[pn]? = some recorded ∧ recorded.pn = pn ∧
          packet = recorded.settled) ∧
      highest 256 R ⊆ R ∧ (count R ≤ 256 → highest 256 R = R) := by
  obtain ⟨bytes, frame, encoded, decoded, isAck, largest, first, ranges⟩ := quicBuildAckFrame_wire nonempty numbers
  have within : ∀ pn ∈ R, pn ≤ recovery.m_largestSent space :=
    fun pn member => (R.le_max' pn member).trans sent
  have acked := ackedNumbers_quicBuildAckFrame nonempty within largest first ranges
  refine ⟨bytes, frame, encoded, decoded, isAck, ?_, ?_, highest_subset 256 R, highest_eq_self⟩
  · rw [recovery.onAckReceived_acked]
    exact QuicLossRecovery.reported_sorted _ (recovery.ackedList_sorted space frame)
  · intro packet
    rw [recovery.onAckReceived_acked, List.mem_filterMap]
    constructor
    · intro ⟨pn, member, found⟩
      obtain ⟨recorded, present, same⟩ := Option.map_eq_some_iff.mp found
      rw [QuicLossRecovery.mem_ackedList, acked] at member
      exact ⟨pn, member, recorded, present, (recovery.m_sent space).keyed pn recorded present, same.symm⟩
    · intro ⟨pn, member, recorded, present, _, same⟩
      refine ⟨pn, ?_, by rw [present, Option.map_some, same]⟩
      rw [QuicLossRecovery.mem_ackedList, acked]
      exact member

/-- Four packets of which the first and the last two have been received. -/
def fourSent : QuicLossRecovery :=
  [0, 1, 2, 3].foldl
    (fun recovery pn => recovery.onPacketSent ⟨pn, .application, [UInt8.ofNat pn], true, true, 1000 + pn⟩) .new

theorem ack_frame_round_trip_fourSent :
    ∃ bytes frame, quicEncodeFrame (quicBuildAckFrame {0, 2, 3} {}) = some bytes ∧
      quicDecodeFrames bytes = some [frame] ∧ count {0, 2, 3} ≤ 256 ∧
      ∀ packet, packet ∈ (fourSent.onAckReceived .application frame 2000).2.1 ↔
        ∃ pn ∈ highest 256 {0, 2, 3}, ∃ recorded, (fourSent.m_sent .application).packets[pn]? = some recorded ∧
          recorded.pn = pn ∧ packet = recorded.settled := by
  obtain ⟨bytes, frame, encoded, decoded, _, _, reported, _⟩ :=
    ack_frame_round_trip fourSent .application 2000 (R := {0, 2, 3}) (by decide) (by decide) (by decide)
  exact ⟨bytes, frame, encoded, decoded, by decide, reported⟩

end Qtng
