import Qtng.Utp.Outgoing

namespace Qtng.Utp

open BigEndian Std Transition UtpOutput List

namespace UtpStream

variable {s : UtpStream} {now : UInt64} {call : UtpSendCall}

/-- The states right before each DATA packet of a part of send. -/
def sendTrace (now : UInt64) : Nat → UtpSendCall → UtpStream → List UtpStream
  | 0, _, _ => []
  | rounds + 1, call, s =>
    if call.rest = [] then []
    else
      let waited := s.awaitWindow now
      if s.full ∧ waited.sendingQueueNotFull = false then []
      else
        let (call, after) := waited.sendChunk now call
        waited :: if call.all then sendTrace now rounds call after else []

/-- A packet that has been sent too often already and is overdue again. -/
def Hopeless (now : UInt64) (p : SentPacket) : Prop :=
  p.needAck = true ∧ p.rto.toUInt64 < (now - p.sentMicros) / 1000 ∧ 5 ≤ p.transmitCount

instance (now : UInt64) : DecidablePred (Hopeless now) := fun _ => inferInstanceAs (Decidable (_ ∧ _ ∧ _))

theorem expired_iff (now : UInt64) (queue : List SentPacket) :
    (flushQueue now queue).expired = true ↔ ∃ p ∈ queue, Hopeless now p := by
  induction queue with
  | nil => simp [flushQueue]
  | cons pkt rest ih =>
    rw [flushQueue, exists_mem_cons_iff]
    split
    · rename_i overdue
      split
      · rename_i often
        exact iff_of_true rfl (Or.inl ⟨overdue.1, overdue.2, by omega⟩)
      · rename_i seldom
        have hopeful : ¬ Hopeless now pkt := fun hopeless => seldom (Nat.lt_succ_of_le hopeless.2.2)
        rw [or_iff_right hopeful]
        exact ih
    · rename_i intime
      have hopeful : ¬ Hopeless now pkt := fun hopeless => intime ⟨hopeless.1, hopeless.2.1⟩
      rw [or_iff_right hopeful]
      exact ih

theorem foldl_resend_eq (resent : List SentPacket) (s : UtpStream) :
    ∃ wire, resent.foldl resend s = { s with wire := wire } := by
  induction resent generalizing s with
  | nil => exact ⟨s.wire, rfl⟩
  | cons p rest ih =>
    obtain ⟨wire, rest⟩ := ih (s.resend p)
    refine ⟨wire, ?_⟩
    rw [foldl_cons, rest, resend, rawSend]
    split <;> rfl

theorem flushOutgoing_eq (hopeful : ¬ ∃ p ∈ s.sendQueue, Hopeless now p) :
    ∃ wire, s.flushOutgoing now = { s with sendQueue := (flushQueue now s.sendQueue).queue, wire := wire } := by
  obtain ⟨wire, resent⟩ := foldl_resend_eq (flushQueue now s.sendQueue).resent
    { s with sendQueue := (flushQueue now s.sendQueue).queue }
  refine ⟨wire, ?_⟩
  rw [flushOutgoing, if_neg (mt (expired_iff now s.sendQueue).mp hopeful)]
  exact resent

theorem close_linked {force : Bool} (open_ : s.state ≠ .unconnected) :
    (s.close now force).linked = false := by
  rw [close, if_neg open_]
  rfl

theorem flushOutgoing_linked (hopeless : ∃ p ∈ s.sendQueue, Hopeless now p)
    (open_ : s.state ≠ .unconnected) : (s.flushOutgoing now).linked = false := by
  obtain ⟨wire, resent⟩ := foldl_resend_eq (flushQueue now s.sendQueue).resent
    { s with sendQueue := (flushQueue now s.sendQueue).queue }
  rw [flushOutgoing, if_pos ((expired_iff now s.sendQueue).mpr hopeless), retransmit, resent]
  exact close_linked open_

/-- The bytes of a packet that is not the last of its call. -/
def payloadSize (s : UtpStream) : Nat := s.effectivePayloadSize.toInt32.toInt.toNat

theorem chunk_toNat (call : UtpSendCall) (s : UtpStream) :
    (s.chunk call).toNat = min s.payloadSize call.rest.length := by
  rw [chunk, payloadSize]
  omega

theorem sendChunk_queue (now : UInt64) (call : UtpSendCall) (s : UtpStream) :
    (∃ p ∈ (s.sendChunk now call).2.sendQueue, Hopeless now p) ↔ ∃ p ∈ s.sendQueue, Hopeless now p := by
  have queue : ∃ sp : SentPacket, (s.sendChunk now call).2.sendQueue = s.sendQueue ++ [sp] ∧ sp.sentMicros = now := by
    by_cases linked : s.linked = true
    · simp [sendChunk, sendPacket, buildPacket, rawSend, linked]
    · simp [sendChunk, sendPacket, buildPacket, rawSend, linked]
  obtain ⟨sp, queue, time⟩ := queue
  have hopeful : ¬ Hopeless now sp := by
    rintro ⟨_, overdue, _⟩
    rw [time] at overdue
    simp at overdue
  rw [queue]
  simp [or_and_right, exists_or, hopeful]

theorem sendChunk_same (now : UInt64) (call : UtpSendCall) (s : UtpStream) :
    (s.sendChunk now call).2.maxWindow = s.maxWindow ∧ (s.sendChunk now call).2.peerWindow = s.peerWindow ∧
      (s.sendChunk now call).2.packetSize = s.packetSize ∧ (s.sendChunk now call).2.linked = s.linked ∧
      (s.sendChunk now call).2.curWindow = s.curWindow + UInt32.ofNat (20 + min s.payloadSize call.rest.length) := by
  have size : utpHeaderSize + (call.rest.take (s.chunk call).toNat).length =
      20 + min s.payloadSize call.rest.length := by
    rw [length_take, chunk_toNat, utpHeaderSize]
    omega
  by_cases linked : s.linked = true
  · simp [sendChunk, sendPacket, buildPacket, rawSend, linked, ← size, -length_take]
  · simp [sendChunk, sendPacket, buildPacket, rawSend, linked, ← size, -length_take]

/-- Every packet that a part of a call sends in the given number of rounds starts
below the smaller window: all but its last packet have full size. -/
def Fits (rounds : Nat) (call : UtpSendCall) (s : UtpStream) : Prop :=
  ∀ j < rounds, j = 0 ∨ call.all = true → j * s.payloadSize < call.rest.length →
    s.curWindow + UInt32.ofNat (j * (20 + s.payloadSize)) < min s.maxWindow s.peerWindow

theorem fits_succ (now : UInt64) (rounds : Nat) (s : UtpStream) (more : call.rest ≠ []) :
    Fits (rounds + 1) call s ↔
      ¬ s.full ∧ (call.all = true → Fits rounds (s.sendChunk now call).1 (s.sendChunk now call).2) := by
  obtain ⟨maxWindow, peerWindow, packetSize, _, curWindow⟩ := sendChunk_same now call s
  have positive := length_pos_of_ne_nil more
  have payload : (s.sendChunk now call).2.payloadSize = s.payloadSize := by
    rw [payloadSize, payloadSize, effectivePayloadSize, effectivePayloadSize, packetSize]
  have rest : (s.sendChunk now call).1.rest.length = call.rest.length - min s.payloadSize call.rest.length := by
    rw [← chunk_toNat]
    exact length_drop
  -- the packet of round j + 1 is the one of round j after the first chunk
  have shift : ∀ j, (j + 1) * s.payloadSize < call.rest.length →
      s.curWindow + UInt32.ofNat ((j + 1) * (20 + s.payloadSize)) =
        (s.sendChunk now call).2.curWindow + UInt32.ofNat (j * (20 + s.payloadSize)) := by
    intro j within
    have whole : min s.payloadSize call.rest.length = s.payloadSize := by
      have := Nat.add_one_mul j s.payloadSize
      omega
    rw [curWindow, whole, UInt32.add_assoc, ← UInt32.ofNat_add]
    congr 2
    ring
  have later : ∀ j, j * s.payloadSize < (s.sendChunk now call).1.rest.length ↔
      (j + 1) * s.payloadSize < call.rest.length := by
    intro j
    rw [rest, Nat.succ_mul]
    omega
  constructor
  · intro fits
    refine ⟨?_, fun all j bound _ within => ?_⟩
    · have first := fits 0 (Nat.succ_pos _) (Or.inl rfl) (by omega)
      rw [full, UInt32.not_le]
      simpa using first
    · rw [payload] at within ⊢
      rw [maxWindow, peerWindow, ← shift j ((later j).mp within)]
      exact fits (j + 1) (Nat.succ_lt_succ bound) (Or.inr all) ((later j).mp within)
  · rintro ⟨room, rest⟩ j bound round within
    cases j with
    | zero =>
      rw [full, UInt32.not_le] at room
      simpa using room
    | succ j =>
      have all : call.all = true := round.resolve_left (Nat.succ_ne_zero j)
      have next := rest all j (Nat.lt_of_succ_lt_succ bound) (Or.inr all) (by
        rw [payload]
        exact (later j).mpr within)
      rw [payload, maxWindow, peerWindow, ← shift j within] at next
      exact next

theorem sendTrace_unlinked (now : UInt64) (rounds : Nat) (call : UtpSendCall) (s : UtpStream)
    (unlinked : s.linked = false) : ∀ before ∈ sendTrace now rounds call s, before.linked = false := by
  induction rounds generalizing call s with
  | zero => simp [sendTrace]
  | succ rounds ih =>
    have waited : (s.awaitWindow now).linked = false :=
      ((awaitWindow_progress now s : Progress 0 false _ _).frozen unlinked).1
    have sent : ((s.awaitWindow now).sendChunk now call).2.linked = false :=
      (sendChunk_same now call _).2.2.2.1.trans waited
    intro before member
    rw [sendTrace] at member
    split at member
    · simp at member
    · dsimp only at member
      split at member
      · simp at member
      · rcases mem_cons.mp member with rfl | later
        · exact waited
        · split at later
          · exact ih _ _ sent before later
          · simp at later

/-- Every packet of a part of send that reaches the link starts below the smaller
window. -/
def Within (now : UInt64) (rounds : Nat) (call : UtpSendCall) (s : UtpStream) : Prop :=
  ∀ before ∈ sendTrace now rounds call s, before.linked = true →
    before.curWindow < min before.maxWindow before.peerWindow

instance (now : UInt64) (rounds : Nat) (call : UtpSendCall) (s : UtpStream) : Decidable (Within now rounds call s) :=
  inferInstanceAs (Decidable (∀ before ∈ sendTrace now rounds call s, _))

/-- Such a packet takes the bytes in flight beyond the smaller window by less than its own
size. -/
theorem Within.inFlight_lt {rounds : Nat} {before : UtpStream} (within : Within now rounds call s)
    (sent : before ∈ sendTrace now rounds call s) (linked : before.linked = true) (part : UtpSendCall) :
    (before.sendChunk now part).2.curWindow.toNat <
      (min before.maxWindow before.peerWindow).toNat + (20 + min before.payloadSize part.rest.length) := by
  have room := UInt32.lt_iff_toNat_lt.mp (within before sent linked)
  rw [(sendChunk_same now part before).2.2.2.2, UInt32.toNat_add, UInt32.toNat_ofNat']
  have wrapped := Nat.mod_le (before.curWindow.toNat + (20 + min before.payloadSize part.rest.length)) (2 ^ 32)
  rw [← Nat.add_mod_mod] at wrapped
  omega

theorem within_of_unlinked {rounds : Nat} (unlinked : s.linked = false) : Within now rounds call s := by
  intro before member linked
  rw [sendTrace_unlinked now rounds call s unlinked before member] at linked
  cases linked

/-- In a round that finds the window full the packet is sent all the same, unless
the flush closes the stream. -/
theorem within_full {rounds : Nat} (more : call.rest ≠ [])
    (full : s.full) (notFull : s.sendingQueueNotFull = true) (linked : s.linked = true)
    (attached : s.state ≠ .unconnected) :
    Within now (rounds + 1) call s ↔ ∃ p ∈ s.sendQueue, Hopeless now p := by
  have waits : s.awaitWindow now = s.flushOutgoing now := if_pos full
  have open_ : (s.awaitWindow now).sendingQueueNotFull = true :=
    (awaitWindow_progress now s : Progress 0 false _ _).notFull_stays notFull
  have trace : sendTrace now (rounds + 1) call s = s.flushOutgoing now ::
      if call.all then sendTrace now rounds ((s.flushOutgoing now).sendChunk now call).1
        ((s.flushOutgoing now).sendChunk now call).2 else [] := by
    rw [sendTrace, if_neg more, if_neg (by simp [open_]), waits]
    rfl
  rw [Within, trace]
  constructor
  · intro within
    by_contra hopeful
    obtain ⟨wire, flushed⟩ := flushOutgoing_eq hopeful
    have head := within _ mem_cons_self
    rw [flushed] at head
    exact absurd (head linked) (UInt32.not_lt.mpr full)
  · intro hopeless before member
    have unlinked := flushOutgoing_linked hopeless attached
    have sent : ((s.flushOutgoing now).sendChunk now call).2.linked = false :=
      (sendChunk_same now call _).2.2.2.1.trans unlinked
    rcases mem_cons.mp member with rfl | later
    · intro linked
      rw [unlinked] at linked
      cases linked
    · split at later
      · exact within_of_unlinked sent before later
      · simp at later

theorem within_iff (now : UInt64) (rounds : Nat) (call : UtpSendCall) (s : UtpStream)
    (notFull : s.sendingQueueNotFull = true) (attached : s.linked = true → s.state ≠ .unconnected) :
    Within now rounds call s ↔
      s.linked = false ∨ (∃ p ∈ s.sendQueue, Hopeless now p) ∨ Fits rounds call s := by
  induction rounds generalizing call s with
  | zero => exact iff_of_true (by simp [Within, sendTrace]) (Or.inr (Or.inr (by simp [Fits])))
  | succ rounds ih =>
    cases linked : s.linked with
    | false => exact iff_of_true (within_of_unlinked linked) (Or.inl rfl)
    | true =>
      simp only [Bool.true_eq_false, false_or]
      by_cases more : call.rest = []
      · refine iff_of_true (by simp [Within, sendTrace, more]) (Or.inr fun j _ _ within => ?_)
        simp [more] at within
      by_cases full : s.full
      · rw [within_full more full notFull linked (attached linked), fits_succ now rounds s more]
        simp [full]
      · have waits : s.awaitWindow now = s := if_neg full
        have change : Progress 0 true s.output (s.sendChunk now call).2.output := sendChunk_progress now call s
        have linked' : (s.sendChunk now call).2.linked = true := (sendChunk_same now call s).2.2.2.1.trans linked
        have attached' : (s.sendChunk now call).2.state ≠ .unconnected :=
          of_decide_eq_true (change.attached (fun here => decide_eq_true (attached here)) linked')
        have rest := ih (s.sendChunk now call).1 (s.sendChunk now call).2 (change.notFull_stays notFull)
          (fun _ => attached')
        rw [linked', sendChunk_queue] at rest
        simp only [Bool.true_eq_false, false_or] at rest
        have trace : sendTrace now (rounds + 1) call s = s ::
            if call.all then sendTrace now rounds (s.sendChunk now call).1 (s.sendChunk now call).2 else [] := by
          rw [sendTrace, if_neg more, if_neg (by simp [full]), waits]
          rfl
        have head : s.curWindow < min s.maxWindow s.peerWindow := UInt32.not_le.mp full
        rw [fits_succ now rounds s more, Within, trace]
        cases all : call.all with
        | false => exact iff_of_true (by simp [head]) (Or.inr ⟨full, fun absurd => Bool.noConfusion absurd⟩)
        | true =>
          simp only [if_true, forall_mem_cons, head, implies_true, true_and, full, not_false_eq_true,
            forall_const]
          exact rest

end UtpStream

namespace UtpEnd

def SendsWithin (e : UtpEnd) : UtpEvent → Prop
  | .runSend now index rounds => ∀ call ∈ e.calls[index]?, UtpStream.Within now rounds call e.stream
  | _ => True

instance (e : UtpEnd) : DecidablePred e.SendsWithin
  | .runSend _ index _ => inferInstanceAs (Decidable (∀ call ∈ e.calls[index]?, _))
  | .datagram _ _ | .timers _ | .idleTimeout _ | .resendSyn _ | .connectTimeout _ | .startSend _ _ | .recv _ _
  | .close _ _ | .setMaxWindow _ | .setPacketSize _ | .setReceiveBufferSize _ | .setDelayTarget _ => isTrue trivial

/-- The stream is closed, or about to be closed for a packet without acknowledgement,
or the packets of this part of send fit into the smaller window, but for the last. -/
def Roomy (e : UtpEnd) : UtpEvent → Prop
  | .runSend now index rounds => ∀ call ∈ e.calls[index]?, e.stream.linked = false ∨
      (∃ p ∈ e.stream.sendQueue, UtpStream.Hopeless now p) ∨ UtpStream.Fits rounds call e.stream
  | _ => True

def Attached (e : UtpEnd) : Prop :=
  e.Sound ∧ (e.stream.output.linked = true → e.stream.output.attached = true)

theorem attached_of_run {history : List (UtpEnd × UtpEvent)} {e : UtpEnd} (run : Run system history e) :
    e.Attached := by
  refine run.invariant ?_ ?_
  · rintro s (⟨now, connId, synSeq, _, positive, rfl⟩ | ⟨now, synConnId, synSeq, rfl⟩)
    · refine ⟨connecting_sound now connId positive, fun _ => ?_⟩
      simp [connecting, UtpStream.connect, UtpStream.sendPacket, UtpStream.buildPacket, UtpStream.rawSend,
        UtpStream.output]
    · exact ⟨accepting_sound now synConnId synSeq, fun _ => rfl⟩
  · rintro s event t ⟨sound, attached⟩ stepped
    obtain ⟨soundNext, _, change⟩ := sound.step stepped
    exact ⟨soundNext, change.attached attached⟩

theorem sendsWithin_iff_roomy {history : List (UtpEnd × UtpEvent)} {s : UtpEnd} (past : Run system history s)
    (event : UtpEvent) : s.SendsWithin event ↔ s.Roomy event := by
  obtain ⟨sound, attached⟩ := attached_of_run past
  cases event with
  | runSend now index rounds =>
    refine forall₂_congr fun call _ => ?_
    exact UtpStream.within_iff now rounds call s.stream sound.2.notFull fun linked =>
      of_decide_eq_true (attached linked)
  | _ => exact Iff.rfl

/-- In a run every DATA packet is sent below the smaller window exactly when every
part of a send call fits into it. -/
theorem sendsWithin_iff {history : List (UtpEnd × UtpEvent)} {e : UtpEnd} (run : Run system history e) :
    (∀ entry ∈ history, entry.1.SendsWithin entry.2) ↔ ∀ entry ∈ history, entry.1.Roomy entry.2 := by
  refine forall₂_congr fun entry member => ?_
  obtain ⟨earlier, past⟩ := run.prefix_of_mem member
  exact sendsWithin_iff_roomy past entry.2

theorem sendsWithin_iff_oneByte :
    ∃ history e, Run system history e ∧ history.length = 2 ∧
      ((∀ entry ∈ history, entry.1.SendsWithin entry.2) ↔ ∀ entry ∈ history, entry.1.Roomy entry.2) := by
  obtain ⟨history, e, run, labels, _⟩ :=
    Run.of_exec system rfl [.startSend [65] true, .runSend 0 0 2]
      (Or.inr ⟨0, 7, 10000, rfl⟩) (fun _ => True) (by decide +kernel)
  exact ⟨history, e, run, by simpa using congrArg length labels, sendsWithin_iff run⟩

/-- As long as the parts fit, no DATA packet that reaches the link takes the bytes in flight
beyond the smaller window by its own size or more. -/
theorem inFlight_lt_of_roomy {history : List (UtpEnd × UtpEvent)} {e s : UtpEnd} (run : Run system history e)
    (roomy : ∀ entry ∈ history, entry.1.Roomy entry.2) {now : UInt64} {index rounds : Nat} {call part : UtpSendCall}
    {before : UtpStream} (member : (s, .runSend now index rounds) ∈ history) (pending : s.calls[index]? = some call)
    (sent : before ∈ UtpStream.sendTrace now rounds call s.stream) (linked : before.linked = true) :
    (before.sendChunk now part).2.curWindow.toNat <
      (min before.maxWindow before.peerWindow).toNat + (20 + min before.payloadSize part.rest.length) := by
  obtain ⟨earlier, past⟩ := run.prefix_of_mem member
  have within := (sendsWithin_iff_roomy past _).mpr (roomy _ member) call pending
  exact within.inFlight_lt sent linked part

/-- The peer advertises an empty window, yet a byte is sent; and with a window of 150
bytes a call sends three packets of 171 bytes at once. -/
theorem sends_beyond_window :
    (∃ history e, Run system history e ∧ e.stream.peerWindow = 0 ∧ e.stream.queued = [[65]] ∧
      ¬ ∀ entry ∈ history, entry.1.SendsWithin entry.2) ∧
    ∃ history e, Run system history e ∧ e.stream.maxWindow = 150 ∧ e.stream.curWindow = 513 ∧
      ¬ ∀ entry ∈ history, entry.1.SendsWithin entry.2 := by
  have last (events : List UtpEvent) (event : UtpEvent) (check : UtpEnd → Prop) [DecidablePred check]
      (executed : (exec step (accepting 0 7 10000) events).any (fun e =>
        decide (¬ e.SendsWithin event) && (e.step event).any fun t => check t) = true) :
      ∃ history t, Run system history t ∧ check t ∧ ¬ ∀ entry ∈ history, entry.1.SendsWithin entry.2 := by
    obtain ⟨history, e, run, _, holds⟩ := Run.of_exec system rfl events
      (Or.inr ⟨0, 7, 10000, rfl⟩)
      (fun e => (decide (¬ e.SendsWithin event) && (e.step event).any fun t => check t) = true)
      (by simpa using executed)
    obtain ⟨beyond, stepped⟩ := Bool.and_eq_true_iff.mp holds
    obtain ⟨t, moved, checked⟩ := (Option.any_eq_true _ _).mp stepped
    refine ⟨(e, event) :: history, t, .next run moved, of_decide_eq_true checked, fun all => ?_⟩
    exact of_decide_eq_true beyond (all _ mem_cons_self)
  constructor
  · obtain ⟨history, t, run, ⟨window, queued⟩, beyond⟩ :=
      last [.datagram 0 (encodeHeader ⟨makeVerType .state, 0, 8, 0, 0, 0, 10001, 0⟩), .startSend [65] true]
        (.runSend 0 0 1) (fun t => t.stream.peerWindow = 0 ∧ t.stream.queued = [[65]]) (by decide +kernel)
    exact ⟨history, t, run, window, queued, beyond⟩
  · obtain ⟨history, t, run, ⟨window, flight⟩, beyond⟩ :=
      last [.setMaxWindow 150, .setPacketSize 171, .startSend (replicate 453 65) true]
        (.runSend 0 0 3) (fun t => t.stream.maxWindow = 150 ∧ t.stream.curWindow = 513) (by decide +kernel)
    exact ⟨history, t, run, window, flight, beyond⟩

end UtpEnd

end Qtng.Utp
