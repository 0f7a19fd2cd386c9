import Qtng.MultiStream.Slave

namespace Qtng.MultiStream

open BigEndian Transition Option

/-- A slave with the largest capacity its receiving queue has had and the credit that the
peer was granted: the initial window and every WINDOW_UPDATE. -/
structure WindowLedger where
  slave : MultiStreamSlavePrivate
  largest : UInt32
  granted : Nat

inductive WindowEvent
  | setReceivingCapacity (bytes : UInt32)
  | deliver (payload : Bytes)
  | recvPacket
  | resumeRecv
deriving DecidableEq

namespace WindowLedger

def taken (s : WindowLedger) : Nat := (s.slave.returned.map fun packet => (packetSize packet).toNat).sum

/-- The slave goes on, and the credit it sends is booked. -/
def book (s : WindowLedger) (result : MultiStreamSlavePrivate × Option UInt32) : WindowLedger :=
  { s with slave := result.1, granted := s.granted + (result.2.getD 0).toNat }

def step (s : WindowLedger) : WindowEvent → Option WindowLedger
  | .setReceivingCapacity bytes =>
    some { s.book (s.slave.setReceivingCapacity bytes) with largest := max s.largest bytes }
  | .deliver payload => (s.slave.handleIncomingPacket payload).map fun d => s.book (d, none)
  | .recvPacket => some (s.book s.slave.recvPacket)
  | .resumeRecv => s.slave.resumeRecv.map s.book

def Starts (s : WindowLedger) : Prop :=
  ∃ receivingCapacity, s = ⟨.new receivingCapacity, receivingCapacity, receivingCapacity.toNat⟩

/-- The capacity grows only while it is the largest one so far. -/
def growsAtTop (s : WindowLedger) : WindowEvent → Bool
  | .setReceivingCapacity bytes =>
    decide (bytes > s.slave.receivingCapacity → s.slave.receivingCapacity = s.largest)
  | _ => true

/-- Credit that is pending counts as granted, since it will be. -/
structure Covered (s : WindowLedger) : Prop where
  credit : s.granted + s.slave.windowUpdatePending.toNat ≤ s.largest.toNat + s.taken
  capacity : s.slave.receivingCapacity ≤ s.largest

theorem Covered.taking {s : WindowLedger} (covered : s.Covered) (active : Nat) (packet : Bytes) (rest : List Bytes) :
    (s.book ({ s.slave with activeReceivers := active }.take packet rest)).Covered := by
  obtain ⟨pending, credit, taking, account⟩ :=
    { s.slave with activeReceivers := active }.take_cases packet rest
  rw [taking]
  refine ⟨?_, covered.capacity⟩
  have before := covered.credit
  have more : (s.book ({ s.slave with
      activeReceivers := active
      receivingQueue := s.slave.receivingQueue.pop packetSize packet rest
      returned := s.slave.returned ++ [packet]
      windowUpdatePending := pending }, credit)).taken = s.taken + (packetSize packet).toNat := by
    simp [taken, book]
  have wrapped : (s.slave.windowUpdatePending + packetSize packet).toNat ≤
      s.slave.windowUpdatePending.toNat + (packetSize packet).toNat := by
    rw [UInt32.toNat_add]
    exact Nat.mod_le _ _
  rw [more]
  show s.granted + (credit.getD 0).toNat + pending.toNat ≤ s.largest.toNat + _
  rcases account with ⟨_, rfl, rfl⟩ | ⟨rfl, rfl⟩ | ⟨rfl, rfl⟩
  · simp only [getD_none, UInt32.toNat_zero]
    omega
  · simp only [getD_none, UInt32.toNat_zero]
    omega
  · simp only [getD_some, UInt32.toNat_zero]
    omega

theorem toNat_max (a b : UInt32) : (max a b).toNat = max a.toNat b.toNat := by
  show (if a ≤ b then b else a).toNat = _
  split
  · rename_i ordered
    exact (Nat.max_eq_right (UInt32.le_iff_toNat_le.mp ordered)).symm
  · rename_i reversed
    exact (Nat.max_eq_left (UInt32.le_iff_toNat_le.mp (UInt32.le_of_lt (UInt32.not_le.mp reversed)))).symm

theorem Covered.resized {s : WindowLedger} {bytes : UInt32} (covered : s.Covered)
    (top : bytes > s.slave.receivingCapacity → s.slave.receivingCapacity = s.largest) :
    Covered { s.book (s.slave.setReceivingCapacity bytes) with largest := max s.largest bytes } := by
  have before := covered.credit
  constructor
  · show s.granted + ((s.slave.setReceivingCapacity bytes).2.getD 0).toNat + s.slave.windowUpdatePending.toNat ≤
      (max s.largest bytes).toNat + s.taken
    rw [toNat_max]
    by_cases grows : bytes > s.slave.receivingCapacity
    · have larger : s.largest ≤ bytes := top grows ▸ UInt32.le_of_lt grows
      have bound : ((s.slave.setReceivingCapacity bytes).2.getD 0).toNat ≤ bytes.toNat - s.largest.toNat := by
        simp only [MultiStreamSlavePrivate.setReceivingCapacity]
        split
        · rw [getD_some, UInt32.toNat_sub_of_le _ _ (UInt32.le_of_lt grows), top grows]
        · simp
      have ordered := UInt32.le_iff_toNat_le.mp larger
      omega
    · have none : (s.slave.setReceivingCapacity bytes).2 = none := if_neg fun grown => grows grown.1
      rw [none, getD_none, UInt32.toNat_zero]
      omega
  · show bytes ≤ max s.largest bytes
    rw [UInt32.le_iff_toNat_le, toNat_max]
    exact Nat.le_max_right _ _

theorem Covered.step {s t : WindowLedger} {e : WindowEvent} (covered : s.Covered) (allowed : s.growsAtTop e = true)
    (stepped : s.step e = some t) : t.Covered := by
  cases e with
  | setReceivingCapacity bytes =>
    cases stepped
    exact covered.resized (of_decide_eq_true allowed)
  | deliver payload =>
    obtain ⟨d, handled, rfl⟩ := map_eq_some_iff.mp stepped
    rcases MultiStreamSlavePrivate.handleIncomingPacket_cases handled with ⟨_, rfl⟩ | ⟨_, _, rfl⟩
    · exact ⟨covered.credit, covered.capacity⟩
    · exact ⟨covered.credit, covered.capacity⟩
  | recvPacket =>
    cases stepped
    rcases s.slave.recvPacket_cases with ⟨_, _, same⟩ | ⟨_, _, same⟩ | ⟨packet, rest, _, same⟩
    · rw [same]
      exact ⟨covered.credit, covered.capacity⟩
    · rw [same]
      refine ⟨?_, covered.capacity⟩
      have unchanged : (s.book ({ s.slave with returned := s.slave.returned ++ [[]] }, none)).taken = s.taken := by
        simp [taken, book, packetSize]
      rw [unchanged]
      exact covered.credit
    · rw [same]
      exact covered.taking s.slave.activeReceivers packet rest
  | resumeRecv =>
    obtain ⟨result, resumed, rfl⟩ := map_eq_some_iff.mp stepped
    obtain ⟨packet, rest, _, rfl⟩ := MultiStreamSlavePrivate.resumeRecv_cases resumed
    exact covered.taking _ packet rest

theorem Starts.covered {s : WindowLedger} (starts : s.Starts) : s.Covered := by
  obtain ⟨receivingCapacity, rfl⟩ := starts
  exact ⟨Nat.le_refl _, UInt32.le_refl _⟩

end WindowLedger

def windowSystem : System WindowLedger WindowEvent := .ofStep WindowLedger.Starts WindowLedger.step

/-- A slave that never grows again after it has shrunk does not grant its peer more than
the largest capacity it has had. -/
theorem window_within_largest {history : List (WindowLedger × WindowEvent)} {s : WindowLedger}
    (run : Run windowSystem history s) (allowed : ∀ entry ∈ history, entry.1.growsAtTop entry.2 = true) :
    s.granted ≤ s.largest.toNat + s.taken := by
  have covered := run.invariant_of_guard (fun s e => s.growsAtTop e = true) allowed
    (fun _ starts => WindowLedger.Starts.covered starts) fun _ _ _ inv met stepped => inv.step met stepped
  exact Nat.le_of_add_right_le covered.credit

/-- A slave of capacity 4 grows to 10, gets a packet of 3 bytes, hands it out and shrinks. -/
theorem window_within_largest_grown :
    ∃ history s, Run windowSystem history s ∧ (∀ entry ∈ history, entry.1.growsAtTop entry.2 = true) ∧
      s.largest = 10 ∧ s.granted = 13 ∧ s.granted ≤ s.largest.toNat + s.taken := by
  obtain ⟨history, s, run, _, allowed, largest, granted⟩ := Run.of_exec_guarded windowSystem WindowLedger.growsAtTop
    rfl
    [.setReceivingCapacity 10, .recvPacket, .deliver [1, 2, 3], .resumeRecv, .setReceivingCapacity 2]
    (s := ⟨.new 4, 4, 4⟩) ⟨4, rfl⟩ (fun s : WindowLedger => s.largest = 10 ∧ s.granted = 13)
    (by decide +kernel)
  exact ⟨history, s, run, allowed, largest, granted, window_within_largest run allowed⟩

/-- From 10 down to 4 and back to 10: the peer may send 16 bytes. -/
theorem window_overGranted :
    ∃ history s, Run windowSystem history s ∧ s.largest = 10 ∧ s.taken = 0 ∧
      ¬s.granted ≤ s.largest.toNat + s.taken := by
  obtain ⟨history, s, run, _, largest, taken, exceeded⟩ := Run.of_exec windowSystem rfl
    [.setReceivingCapacity 4, .setReceivingCapacity 10] (s := ⟨.new 10, 10, 10⟩) ⟨10, rfl⟩
    (fun s : WindowLedger => s.largest = 10 ∧ s.taken = 0 ∧ ¬s.granted ≤ s.largest.toNat + s.taken)
    (by decide +kernel)
  exact ⟨history, s, run, largest, taken, exceeded⟩

end Qtng.MultiStream
