import Qtng.Utp.Outgoing

namespace Qtng.Utp

open BigEndian Std Transition UtpOutput List

theorem dropWhile_eq_filter {α : Type*} {test : α → Bool} {list : List α}
    (leading : list.Pairwise fun x y => test y = true → test x = true) :
    list.dropWhile test = list.filter fun x => !test x := by
  induction list with
  | nil => rfl
  | cons head tail ih =>
    obtain ⟨ahead, rest⟩ := pairwise_cons.mp leading
    cases holds : test head with
    | true =>
      rw [dropWhile_cons_of_pos holds, ih rest]
      simp [holds]
    | false =>
      have none : ∀ x ∈ head :: tail, test x = false := by
        intro x member
        rcases mem_cons.mp member with rfl | later
        · exact holds
        · exact Bool.eq_false_iff.mpr fun holdsThere => by simp [ahead x later holdsThere] at holds
      rw [dropWhile_cons_of_neg (by simp [holds]), filter_eq_self.mpr]
      intro x member
      simp [none x member]

def SentPacket.size (p : SentPacket) : UInt32 := UInt32.ofNat p.bytes.length

namespace UtpStream

theorem popAcked_queue (ackNrNew : UInt16) (curWindow : UInt32) (queue : List SentPacket) :
    (popAcked ackNrNew curWindow queue).2 = queue.dropWhile fun p => decide (0 ≤ seqDiff ackNrNew p.seq) := by
  induction queue generalizing curWindow with
  | nil => rfl
  | cons front rest ih =>
    rw [popAcked]
    split
    · rename_i acked
      rw [ih, dropWhile_cons_of_pos (by simpa using acked)]
    · rename_i later
      rw [dropWhile_cons_of_neg (by simpa using later)]

theorem ackPackets_sendQueue (ackNrNew : UInt16) (s : UtpStream) :
    (s.ackPackets ackNrNew).sendQueue = s.sendQueue.dropWhile fun p => decide (0 ≤ seqDiff ackNrNew p.seq) := by
  rw [← popAcked_queue ackNrNew s.curWindow, ackPackets]
  dsimp only
  split
  · rfl
  · split <;> rfl

theorem sendAck_sendQueue (now : UInt64) (s : UtpStream) : (s.sendAck now).sendQueue = s.sendQueue := by
  by_cases linked : s.linked = true
  · simp [sendAck, sendPacket, buildPacket, rawSend, linked]
  · simp [sendAck, sendPacket, buildPacket, rawSend, linked]

theorem drain_sendQueue (rounds : Nat) (s : UtpStream) : (drain rounds s).sendQueue = s.sendQueue := by
  induction rounds generalizing s with
  | zero => rfl
  | succ rounds ih =>
    rw [drain]
    split
    · rfl
    · exact ih _

theorem takePacket_sendQueue (now : UInt64) (hdr : UtpWireHeader) (payload : Bytes) (s : UtpStream) :
    (s.takePacket now hdr payload).sendQueue = s.sendQueue := by
  rw [takePacket]
  split
  · rw [sendAck_sendQueue, drain_sendQueue]
  · split
    · rw [sendAck_sendQueue]
    · split
      · exact sendAck_sendQueue now s
      · rfl

theorem noteFin_sendQueue (type : UtpPacketType) (s : UtpStream) : (s.noteFin type).sendQueue = s.sendQueue := by
  rw [noteFin]
  split <;> rfl

theorem noteHeader_same (now : UInt64) (hdr : UtpWireHeader) (s : UtpStream) :
    (s.noteHeader now hdr).state = s.state ∧ (s.noteHeader now hdr).ackNr = s.ackNr ∧
      (s.noteHeader now hdr).sendQueue = s.sendQueue := by
  rw [noteHeader, adaptWindow]
  dsimp only
  split <;> exact ⟨rfl, rfl, rfl⟩

theorem close_forced_sendQueue (now : UInt64) (s : UtpStream) : (s.close now true).sendQueue = s.sendQueue := by
  rw [close]
  split
  · rfl
  · rw [if_neg (by simp [finDue])]
    rfl

theorem processAck_sendQueue (hdr : UtpWireHeader) (s : UtpStream) :
    (s.processAck hdr).sendQueue =
      if 0 ≤ seqDiff hdr.ackNr s.ackNr then
        s.sendQueue.dropWhile fun p => decide (0 ≤ seqDiff hdr.ackNr p.seq)
      else s.sendQueue := by
  have same : (0 < seqDiff hdr.ackNr s.ackNr ∨ hdr.ackNr = s.ackNr) ↔ 0 ≤ seqDiff hdr.ackNr s.ackNr := by
    have zero : hdr.ackNr = s.ackNr ↔ seqDiff hdr.ackNr s.ackNr = 0 := by
      have := hdr.ackNr.toNat_lt
      have := s.ackNr.toNat_lt
      rw [seqDiff_eq_bmod, Int.bmod_def, ← UInt16.toNat_inj]
      omega
    rw [zero]
    omega
  rw [processAck]
  simp only [same]
  split
  · exact ackPackets_sendQueue _ s
  · rfl

theorem handlePacket_sendQueue (now : UInt64) (hdr : UtpWireHeader) (payload : Bytes) (s : UtpStream)
    (connected : s.state = .connected) :
    (s.handlePacket now hdr payload).sendQueue =
      if packetType hdr.verType ≠ .syn ∧ packetType hdr.verType ≠ .reset ∧ 0 ≤ seqDiff hdr.ackNr s.ackNr then
        s.sendQueue.dropWhile fun p => decide (0 ≤ seqDiff hdr.ackNr p.seq)
      else s.sendQueue := by
  obtain ⟨state, ackNr, queue⟩ := noteHeader_same now hdr s
  rw [handlePacket, ← queue, ← ackNr]
  rw [← state] at connected
  generalize s.noteHeader now hdr = s at connected ⊢
  dsimp only
  by_cases syn : packetType hdr.verType = .syn
  · rw [if_pos syn, if_neg (by simp [syn])]
    exact sendAck_sendQueue now _
  by_cases reset : packetType hdr.verType = .reset
  · rw [if_neg syn, if_neg (by simp [connected]), if_pos reset, if_neg (by simp [reset])]
    exact close_forced_sendQueue now _
  · rw [if_neg syn, if_neg (by simp [connected]), if_neg reset, if_neg (by simp [connected])]
    simp only [ne_eq, syn, reset, not_false_eq_true, true_and]
    rw [← processAck_sendQueue]
    split
    · rw [noteFin_sendQueue, takePacket_sendQueue]
    · rfl

end UtpStream

namespace Outgoing

variable {first : UInt16} {o : UtpOutput}
variable {p : UtpSent}

theorem serial_bounds (out : Outgoing first o) (member : p ∈ o.sent) :
    p.serial < o.queued.length ∧ o.queued.length ≤ p.serial + o.sent.length := by
  obtain ⟨retired, serials, count⟩ := out.serials
  have listed : p.serial ∈ range' retired o.sent.length := serials ▸ mem_map_of_mem member
  obtain ⟨lower, upper⟩ := mem_range'_1.mp listed
  omega

theorem serials_increase (out : Outgoing first o) : o.sent.Pairwise fun p q => p.serial < q.serial := by
  obtain ⟨retired, serials, _⟩ := out.serials
  rw [← pairwise_map (f := UtpSent.serial), serials]
  exact pairwise_lt_range'

/-- How far a number of this end stands behind the last one sent decides which
packets it covers. -/
theorem upTo_iff (out : Outgoing first o) (short : o.sent.length < 2 ^ 15) {a : UInt16}
    (own : 0 ≤ seqDiff (o.seqNr - 1) a) (member : p ∈ o.sent) :
    0 ≤ seqDiff a p.seq ↔ p.serial + (seqDiff (o.seqNr - 1) a).toNat < o.queued.length := by
  obtain ⟨below, near⟩ := out.serial_bounds member
  have last : ((o.seqNr - 1).toNat : Int) = ((first.toNat : Int) + o.queued.length + 65535) % 65536 := by
    rw [out.next, UInt16.toNat_sub, toNat_numbered]
    simp only [UInt16.toNat_one]
    push_cast
    omega
  have number : (p.seq.toNat : Int) = ((first.toNat : Int) + p.serial) % 65536 := by
    rw [(out.sent p member).2, toNat_numbered]
    push_cast
    rfl
  have small := a.toNat_lt
  rw [seqDiff_eq_bmod, Int.bmod_def] at own ⊢
  rw [seqDiff_eq_bmod, Int.bmod_def]
  rw [last] at own ⊢
  rw [number]
  omega

end Outgoing

namespace UtpEnd

variable {p : SentPacket} {e : UtpEnd} {bound : Nat} {a : UInt16}

/-- The packets up to a number have left the queue, the others stand there, the
window counts those, and no later retransmission sends one of the former. -/
def Retired (e : UtpEnd) (a : UInt16) (after : UtpStream) : Prop :=
  after.sendQueue = e.stream.sendQueue.filter (fun p => seqDiff a p.seq < 0) ∧
    after.curWindow = (after.sendQueue.map SentPacket.size).sum ∧
    ∀ later t, Run (.ofStep (· = { e with stream := after }) step) later t → ∀ now, ∀ p ∈
      (UtpStream.flushQueue now t.stream.sendQueue).resent, ∀ q ∈ e.stream.sendQueue, 0 ≤ seqDiff a q.seq →
        p.serial ≠ q.serial

theorem mem_sent {s : UtpStream} (member : p ∈ s.sendQueue) : p.sent ∈ s.output.sent :=
  mem_map_of_mem member

/-- How many packets this end has sent behind a number of its own. -/
def behind (e : UtpEnd) (a : UInt16) : Nat := (seqDiff (e.stream.seqNr - 1) a).toNat

section Sound

variable {e : UtpEnd} {a : UInt16}

theorem Sound.covered_iff (sound : e.Sound) (outstanding : e.stream.sendQueue.length < 2 ^ 15)
    (own : 0 ≤ seqDiff (e.stream.seqNr - 1) a) {p : SentPacket} (member : p ∈ e.stream.sendQueue) :
    0 ≤ seqDiff a p.seq ↔ p.serial + e.behind a < e.stream.queued.length := by
  have short : e.stream.output.sent.length < 2 ^ 15 :=
    lt_of_eq_of_lt (length_map SentPacket.sent) outstanding
  have covered := sound.2.upTo_iff (a := a) short own (mem_sent member)
  exact covered

theorem Sound.dropWhile_upTo (sound : e.Sound) (outstanding : e.stream.sendQueue.length < 2 ^ 15)
    (own : 0 ≤ seqDiff (e.stream.seqNr - 1) a) :
    e.stream.sendQueue.dropWhile (fun p => decide (0 ≤ seqDiff a p.seq)) =
      e.stream.sendQueue.filter fun p => seqDiff a p.seq < 0 := by
  have increase := sound.2.serials_increase
  rw [UtpStream.output, pairwise_map] at increase
  rw [dropWhile_eq_filter]
  · refine filter_congr fun p _ => ?_
    rw [← decide_not, decide_eq_decide]
    exact Int.not_le
  · refine increase.imp_of_mem fun {p q} memberP memberQ before => ?_
    have ordered : p.serial < q.serial := before
    simp only [decide_eq_true_eq]
    rw [sound.covered_iff outstanding own memberP, sound.covered_iff outstanding own memberQ]
    omega

end Sound

def Floor (bound : Nat) (e : UtpEnd) : Prop :=
  e.Sound ∧ bound ≤ e.stream.queued.length ∧ ∀ q ∈ e.stream.output.sent, bound ≤ q.serial

theorem Floor.of_run {t : UtpEnd} {later : List (UtpEnd × UtpEvent)} (floor : Floor bound e)
    (run : Run (.ofStep (· = e) step) later t) : Floor bound t := by
  refine run.invariant (fun s same => same ▸ floor) ?_
  rintro s event u ⟨sound, queued, sent⟩ stepped
  obtain ⟨soundNext, _, change⟩ := sound.step stepped
  exact ⟨soundNext, change.floor queued sent⟩

theorem Floor.resent (floor : Floor bound e) (now : UInt64)
    (member : p ∈ (UtpStream.flushQueue now e.stream.sendQueue).resent) : bound ≤ p.serial := by
  have queued : p.sent ∈ (UtpStream.flushQueue now e.stream.sendQueue).queue.map SentPacket.sent :=
    mem_map_of_mem (UtpStream.mem_queue_of_mem_resent now member)
  rw [UtpStream.flushQueue_sent] at queued
  exact floor.2.2 p.sent queued

theorem not_retired_of_same {after : UtpStream} (same : after.sendQueue = e.stream.sendQueue)
    {q : SentPacket} (member : q ∈ e.stream.sendQueue) (upTo : 0 ≤ seqDiff a q.seq) : ¬ e.Retired a after := by
  rintro ⟨queue, _⟩
  rw [same] at queue
  rw [queue, mem_filter] at member
  have below : seqDiff a q.seq < 0 := of_decide_eq_true member.2
  omega

theorem retired_of_filtered {now : UInt64} {buf : Bytes} (sound : e.Sound)
    (connected : e.stream.state = .connected) (outstanding : e.stream.sendQueue.length < 2 ^ 15)
    (own : 0 ≤ seqDiff (e.stream.seqNr - 1) a)
    (queue : (e.stream.handleDatagram now buf).sendQueue = e.stream.sendQueue.filter (fun p => seqDiff a p.seq < 0)) :
    e.Retired a (e.stream.handleDatagram now buf) := by
  have stepped : e.step (.datagram now buf) = some { e with stream := e.stream.handleDatagram now buf } :=
    if_pos (by simp [alive, connected])
  obtain ⟨soundAfter, _, change⟩ := sound.step stepped
  have floor : Floor (e.stream.queued.length - e.behind a) { e with stream := e.stream.handleDatagram now buf } := by
    have grown : e.stream.queued.length ≤ (e.stream.handleDatagram now buf).queued.length :=
      change.queued_grows.length_le
    refine ⟨soundAfter, (Nat.sub_le _ _).trans grown, ?_⟩
    · intro q member
      obtain ⟨p, kept, rfl⟩ := mem_map.mp member
      rw [queue, mem_filter] at kept
      have uncovered := mt (sound.covered_iff outstanding own kept.1).mpr (by simpa using kept.2)
      show _ ≤ p.serial
      omega
  refine ⟨queue, ?_, fun later t run at_ p resent q member covered => ?_⟩
  · have total := soundAfter.2.window
    rwa [UtpStream.output, map_map] at total
  · have above := (floor.of_run run).resent at_ resent
    have below := (sound.covered_iff outstanding own member).mp covered
    omega

/-- An acknowledgement retires the packets up to its number exactly when its
number is not behind what this end has acknowledged to the peer, or when it
covers no packet of the queue. -/
theorem retired_iff {history : List (UtpEnd × UtpEvent)} {e : UtpEnd} (run : Run system history e)
    (connected : e.stream.state = .connected) (now : UInt64) (buf : Bytes) (hdr : UtpWireHeader)
    (valid : decodeHeader buf = some hdr) (named : e.stream.accepts hdr)
    (outstanding : e.stream.sendQueue.length < 2 ^ 15) (own : 0 ≤ seqDiff (e.stream.seqNr - 1) hdr.ackNr) :
    e.Retired hdr.ackNr (e.stream.handleDatagram now buf) ↔
      (packetType hdr.verType ≠ .syn ∧ packetType hdr.verType ≠ .reset ∧ 0 ≤ seqDiff hdr.ackNr e.stream.ackNr) ∨
        ∀ q ∈ e.stream.sendQueue, seqDiff hdr.ackNr q.seq < 0 := by
  have sound := sound_of_run run
  have handled : e.stream.handleDatagram now buf = e.stream.handlePacket now hdr (buf.drop utpHeaderSize) := by
    rw [UtpStream.handleDatagram, valid]
    exact if_pos named
  have queueAfter := UtpStream.handlePacket_sendQueue now hdr (buf.drop utpHeaderSize) e.stream connected
  rw [← handled, sound.dropWhile_upTo outstanding own] at queueAfter
  constructor
  · intro retired
    by_contra neither
    obtain ⟨refused, covers⟩ := not_or.mp neither
    rw [if_neg refused] at queueAfter
    push Not at covers
    obtain ⟨q, member, covered⟩ := covers
    exact not_retired_of_same queueAfter member covered retired
  · intro applied
    refine retired_of_filtered sound connected outstanding own ?_
    rw [queueAfter]
    rcases applied with processed | none
    · exact if_pos processed
    · have all : e.stream.sendQueue.filter (fun p => decide (seqDiff hdr.ackNr p.seq < 0)) = e.stream.sendQueue :=
        filter_eq_self.mpr fun q member => decide_eq_true (none q member)
      rw [all]
      exact ite_self _

/-- A slave that took a SYN with number 10000 and has sent one packet, number 1. -/
def oneUnacked : List UtpEvent := [.startSend [65] true, .runSend 0 0 2]

/-- A bare acknowledgement of that packet. -/
def stateAck : UtpWireHeader := ⟨makeVerType .state, 0, 8, 0, 0, 262144, 10001, 1⟩

theorem retired_iff_unacked :
    ∃ history e, Run system history e ∧ e.stream.sendQueue.length = 1 ∧
      (e.Retired 1 (e.stream.handleDatagram 0 (encodeHeader stateAck)) ↔
        (packetType stateAck.verType ≠ .syn ∧ packetType stateAck.verType ≠ .reset ∧
            0 ≤ seqDiff 1 e.stream.ackNr) ∨ ∀ q ∈ e.stream.sendQueue, seqDiff 1 q.seq < 0) := by
  obtain ⟨history, e, run, _, ⟨connected, named, one, own⟩⟩ :=
    Run.of_exec system rfl oneUnacked
      (Or.inr ⟨0, 7, 10000, rfl⟩)
      (fun e => e.stream.state = .connected ∧ e.stream.accepts stateAck ∧
        e.stream.sendQueue.length = 1 ∧ 0 ≤ seqDiff (e.stream.seqNr - 1) stateAck.ackNr)
      (by decide +kernel)
  exact ⟨history, e, run, one, retired_iff run connected 0 _ stateAck
    (by simpa using decodeHeader_encodeHeader stateAck []) named (by omega) own⟩

/-- The peer acknowledges the only packet of the queue; the packet stays there, and
is sent again two seconds later. -/
theorem acknowledged_resent :
    ∃ history e, Run system history e ∧ e.stream.state = .connected ∧
      decodeHeader (encodeHeader stateAck) = some stateAck ∧ e.stream.accepts stateAck ∧
      e.stream.sendQueue.length < 2 ^ 15 ∧ 0 ≤ seqDiff (e.stream.seqNr - 1) stateAck.ackNr ∧
      (∃ q ∈ e.stream.sendQueue, q.seq = stateAck.ackNr) ∧
      (∃ p ∈ (UtpStream.flushQueue 2000000
        (e.stream.handleDatagram 0 (encodeHeader stateAck)).sendQueue).resent, p.seq = stateAck.ackNr) ∧
      ¬ e.Retired stateAck.ackNr (e.stream.handleDatagram 0 (encodeHeader stateAck)) := by
  obtain ⟨history, e, run, _, ⟨connected, named, short, own, covered, resent, same⟩⟩ :=
    Run.of_exec system rfl oneUnacked
      (Or.inr ⟨0, 7, 10000, rfl⟩)
      (fun e => e.stream.state = .connected ∧ e.stream.accepts stateAck ∧ e.stream.sendQueue.length < 2 ^ 15 ∧
        0 ≤ seqDiff (e.stream.seqNr - 1) stateAck.ackNr ∧ (∃ q ∈ e.stream.sendQueue, q.seq = stateAck.ackNr) ∧
        (∃ p ∈ (UtpStream.flushQueue 2000000
          (e.stream.handleDatagram 0 (encodeHeader stateAck)).sendQueue).resent, p.seq = stateAck.ackNr) ∧
        (e.stream.handleDatagram 0 (encodeHeader stateAck)).sendQueue = e.stream.sendQueue)
      (by decide +kernel)
  obtain ⟨q, member, number⟩ := covered
  have upTo : 0 ≤ seqDiff stateAck.ackNr q.seq := by
    rw [number]
    decide
  refine ⟨history, e, run, connected, by decide, named, short, own, ⟨q, member, number⟩, resent, ?_⟩
  exact not_retired_of_same same member upTo

end UtpEnd

end Qtng.Utp
