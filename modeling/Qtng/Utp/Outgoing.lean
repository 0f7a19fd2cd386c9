import Qtng.Utp.Stream

namespace Qtng.Utp

open BigEndian Std Transition SentPacket List Option UtpStream

variable {data : Bool}

/-- What a retransmission leaves as it is in a packet of the queue. -/
structure UtpSent where
  serial : Nat
  seq : UInt16
  bytes : Bytes

def UtpSent.size (p : UtpSent) : UInt32 := UInt32.ofNat p.bytes.length

def UtpSent.datagram (p : UtpSent) : UtpDatagram := ⟨some p.serial, p.bytes⟩

def SentPacket.sent (p : SentPacket) : UtpSent := ⟨p.serial, p.seq, p.bytes⟩

structure UtpOutput where
  slave : Bool
  linked : Bool
  attached : Bool
  seqNr : UInt16
  queued : List Bytes
  handed : List Bytes
  sent : List UtpSent
  curWindow : UInt32
  notFull : Bool
  wire : List UtpDatagram

def UtpStream.output (s : UtpStream) : UtpOutput where
  slave := s.slave
  linked := s.linked
  attached := s.state ≠ .unconnected
  seqNr := s.seqNr
  queued := s.queued
  handed := s.handed
  sent := s.sendQueue.map sent
  curWindow := s.curWindow
  notFull := s.sendingQueueNotFull
  wire := s.wire

namespace UtpOutput

def push (hdr : UtpWireHeader) (payload : Bytes) (o : UtpOutput) : UtpOutput :=
  let p : UtpSent := ⟨o.queued.length, hdr.seqNr, encodeHeader hdr ++ payload⟩
  { o with
    seqNr := seqInc o.seqNr
    queued := o.queued ++ [payload]
    handed := if o.linked then o.handed ++ [payload] else o.handed
    sent := o.sent ++ [p]
    curWindow := o.curWindow + p.size
    wire := if o.linked then o.wire ++ [p.datagram] else o.wire }

def disconnect (o : UtpOutput) : UtpOutput := { o with linked := false, attached := false, notFull := true }

/-- Everything that the functions of a stream do to its output; only some of them
queue DATA. Control packets carry no serial number, a SYN stands right before the
first number, and after a FIN the link is gone. -/
inductive Progress (first : UInt16) (data : Bool) : UtpOutput → UtpOutput → Prop
  | refl (o : UtpOutput) : Progress first data o o
  | trans {o p q : UtpOutput} : Progress first data o p → Progress first data p q → Progress first data o q
  | control {o : UtpOutput} (hdr : UtpWireHeader) : o.linked = true →
      packetType hdr.verType = .state ∨ (packetType hdr.verType = .syn ∧ seqInc hdr.seqNr = first) →
      Progress first data o { o with wire := o.wire ++ [⟨none, encodeHeader hdr⟩] }
  | push {o : UtpOutput} (hdr : UtpWireHeader) (payload : Bytes) : data = true →
      packetType hdr.verType = .data → hdr.seqNr = o.seqNr → Progress first data o (o.push hdr payload)
  | finish {o : UtpOutput} (hdr : UtpWireHeader) :
      packetType hdr.verType = .fin → hdr.seqNr = o.seqNr → Progress first data o (o.push hdr []).disconnect
  | disconnect (o : UtpOutput) : Progress first data o o.disconnect
  | attach (o : UtpOutput) : Progress first data o { o with attached := true }
  | resend {o : UtpOutput} {p : UtpSent} : o.linked = true → p ∈ o.sent →
      Progress first data o { o with wire := o.wire ++ [p.datagram] }
  | pop {o : UtpOutput} {p : UtpSent} {rest : List UtpSent} : o.sent = p :: rest →
      Progress first data o { o with sent := rest, curWindow := o.curWindow - p.size }
  | notFull (o : UtpOutput) : Progress first data o { o with notFull := true }

end UtpOutput

open UtpOutput

namespace UtpStream

variable {first : UInt16} {data : Bool}

theorem rawSend_progress {hdr : UtpWireHeader} (s : UtpStream)
    (type : packetType hdr.verType = .state ∨ (packetType hdr.verType = .syn ∧ seqInc hdr.seqNr = first)) :
    Progress first data s.output (s.rawSend none (encodeHeader hdr)).output := by
  rw [rawSend]
  split_ifs with linked
  · exact .control hdr linked type
  · exact .refl _

theorem sendAck_progress (now : UInt64) (s : UtpStream) : Progress first data s.output (s.sendAck now).output := by
  have sent : s.sendAck now = s.rawSend none (encodeHeader (s.headerOf now .state 0)) := by
    simp [sendAck, sendPacket, buildPacket]
  rw [sent]
  exact rawSend_progress s (.inl packetType_makeVerType_state)

theorem sendSyn_progress (now : UInt64) {synSeq : UInt16} (s : UtpStream) (positive : synSeq ≠ 0)
    (before : seqInc synSeq = first) : Progress first data s.output (s.sendPacket now .syn synSeq [] false).output := by
  have number : (s.headerOf now .syn synSeq).seqNr = synSeq := if_pos positive
  have sent : s.sendPacket now .syn synSeq [] false = s.rawSend none (encodeHeader (s.headerOf now .syn synSeq)) := by
    simp [sendPacket, buildPacket]
  rw [sent]
  exact rawSend_progress s (.inr ⟨packetType_makeVerType_syn, number.symm ▸ before⟩)

theorem sendPacket_output (now : UInt64) {type : UtpPacketType} (payload : Bytes) (s : UtpStream)
    (queues : type = .data ∨ type = .fin) :
    (s.sendPacket now type 0 payload true).output = s.output.push (s.headerOf now type 0) payload := by
  have counted : type ≠ .state ∧ type ≠ .syn := by rcases queues with rfl | rfl <;> decide
  have number : readWord16 (((encodeHeader (s.headerOf now type 0) ++ payload).drop 16).take 2) =
      (s.headerOf now type 0).seqNr := readWord16_word16 _
  by_cases linked : s.linked = true
  · simp [sendPacket, buildPacket, rawSend, linked, output, push, queues, counted, number, SentPacket.sent,
      UtpSent.size, UtpSent.datagram]
  · simp [sendPacket, buildPacket, rawSend, linked, output, push, queues, counted, number, SentPacket.sent,
      UtpSent.size]

theorem popAcked_progress (ackNrNew : UInt16) (o : UtpOutput) (curWindow : UInt32) (queue : List SentPacket) :
    Progress first data { o with sent := queue.map sent, curWindow := curWindow }
      { o with
        sent := (popAcked ackNrNew curWindow queue).2.map sent
        curWindow := (popAcked ackNrNew curWindow queue).1 } := by
  induction queue generalizing curWindow with
  | nil => exact .refl _
  | cons front rest ih =>
    rw [popAcked]
    split
    · exact .trans (.pop rfl) (ih _)
    · exact .refl _

theorem ackPackets_progress (ackNrNew : UInt16) (s : UtpStream) :
    Progress first data s.output (s.ackPackets ackNrNew).output := by
  have popped : Progress first data s.output
      { s.output with
        sent := (popAcked ackNrNew s.curWindow s.sendQueue).2.map sent
        curWindow := (popAcked ackNrNew s.curWindow s.sendQueue).1 } :=
    popAcked_progress ackNrNew s.output s.curWindow s.sendQueue
  rw [ackPackets]
  dsimp only
  split
  · exact .trans popped (.notFull _)
  · split
    · exact popped
    · exact popped

theorem close_progress (now : UInt64) (force : Bool) (s : UtpStream) :
    Progress first data s.output (s.close now force).output := by
  rw [close]
  split
  · exact .refl _
  · split
    · have pushed : (s.sendFin now).disconnect.output = (s.output.push (s.headerOf now .fin 0) []).disconnect :=
        congrArg UtpOutput.disconnect (sendPacket_output now [] s (.inr rfl))
      rw [pushed]
      exact .finish _ packetType_makeVerType_fin rfl
    · exact .disconnect s.output

theorem flushQueue_sent (now : UInt64) (queue : List SentPacket) :
    (flushQueue now queue).queue.map SentPacket.sent = queue.map SentPacket.sent := by
  induction queue with
  | nil => rfl
  | cons pkt rest ih =>
    rw [flushQueue]
    split
    · split
      · rfl
      · simp [ih, SentPacket.sent]
    · simp [ih]

theorem mem_queue_of_mem_resent (now : UInt64) {queue : List SentPacket} {p : SentPacket}
    (member : p ∈ (flushQueue now queue).resent) : p ∈ (flushQueue now queue).queue := by
  induction queue with
  | nil => simp [flushQueue] at member
  | cons pkt rest ih =>
    rw [flushQueue] at member ⊢
    split at member
    · rename_i overdue
      rw [if_pos overdue]
      split at member
      · simp at member
      · rename_i few
        rw [if_neg few]
        rcases mem_cons.mp member with rfl | later
        · exact mem_cons_self
        · exact mem_cons_of_mem _ (ih later)
    · rename_i intime
      rw [if_neg intime]
      exact mem_cons_of_mem _ (ih member)

theorem resend_progress (resent : List SentPacket) (s : UtpStream)
    (queued : ∀ p ∈ resent, p.sent ∈ s.output.sent) :
    Progress first data s.output (resent.foldl resend s).output := by
  induction resent generalizing s with
  | nil => exact .refl _
  | cons p rest ih =>
    have same : (s.resend p).output.sent = s.output.sent := by
      rw [resend, rawSend]
      split <;> rfl
    have one : Progress first data s.output (s.resend p).output := by
      rw [resend, rawSend]
      split
      · rename_i linked
        exact .resend linked (queued p mem_cons_self)
      · exact .refl _
    refine .trans one (ih _ fun q member => ?_)
    rw [same]
    exact queued q (mem_cons_of_mem _ member)

theorem flushOutgoing_progress (now : UInt64) (s : UtpStream) :
    Progress first data s.output (s.flushOutgoing now).output := by
  have same : output { s with sendQueue := (flushQueue now s.sendQueue).queue } = s.output := by
    simp only [output, flushQueue_sent]
  have resent : Progress first data s.output (s.retransmit (flushQueue now s.sendQueue)).output := by
    rw [← same]
    refine resend_progress _ _ fun p member => ?_
    exact mem_map_of_mem (mem_queue_of_mem_resent now member)
  rw [flushOutgoing]
  split
  · refine resent.trans (.trans ?_ (close_progress now true _))
    exact .refl (output _)
  · exact resent

theorem noteHeader_output (now : UInt64) (hdr : UtpWireHeader) (s : UtpStream) :
    (s.noteHeader now hdr).output = s.output := by
  rw [noteHeader, adaptWindow]
  dsimp only
  split <;> rfl

theorem enterConnected_progress (s : UtpStream) : Progress first data s.output s.enterConnected.output :=
  .attach s.output

theorem drain_output (rounds : Nat) (s : UtpStream) : (drain rounds s).output = s.output := by
  induction rounds generalizing s with
  | zero => rfl
  | succ rounds ih =>
    rw [drain]
    split
    · rfl
    · exact ih _

theorem takePacket_progress (now : UInt64) (hdr : UtpWireHeader) (payload : Bytes) (s : UtpStream) :
    Progress first data s.output (s.takePacket now hdr payload).output := by
  rw [takePacket]
  split
  · refine .trans ?_ (sendAck_progress now _)
    rw [drain_output]
    exact .refl s.output
  · split
    · refine .trans ?_ (sendAck_progress now _)
      exact .refl s.output
    · split
      · exact sendAck_progress now s
      · exact .refl _

theorem processAck_progress (hdr : UtpWireHeader) (s : UtpStream) :
    Progress first data s.output (s.processAck hdr).output := by
  rw [processAck]
  split
  · exact ackPackets_progress _ s
  · exact .refl _

theorem noteFin_output (type : UtpPacketType) (s : UtpStream) : (s.noteFin type).output = s.output := by
  rw [noteFin]
  split <;> rfl

theorem handlePacket_progress (now : UInt64) (hdr : UtpWireHeader) (payload : Bytes) (s : UtpStream) :
    Progress first data s.output (s.handlePacket now hdr payload).output := by
  rw [handlePacket, ← noteHeader_output now hdr s]
  generalize s.noteHeader now hdr = s
  dsimp only
  split
  · refine .trans (.trans ?_ (sendAck_progress now _)) (enterConnected_progress _)
    exact .refl s.output
  · split
    · refine .trans ?_ (enterConnected_progress _)
      exact .refl s.output
    · split
      · refine .trans ?_ (close_progress now true _)
        exact .refl s.output
      · split
        · exact .refl _
        · split
          · rw [noteFin_output]
            exact (processAck_progress hdr s).trans (takePacket_progress now hdr payload _)
          · exact processAck_progress hdr s

theorem handleDatagram_progress (now : UInt64) (buf : Bytes) (s : UtpStream) :
    Progress first data s.output (s.handleDatagram now buf).output := by
  rw [handleDatagram]
  split
  · exact .refl _
  · split
    · exact handlePacket_progress now _ _ s
    · exact .refl _

theorem awaitWindow_progress (now : UInt64) (s : UtpStream) :
    Progress first data s.output (s.awaitWindow now).output := by
  rw [awaitWindow]
  split
  · exact flushOutgoing_progress now s
  · exact .refl _

theorem sendChunk_progress (now : UInt64) (call : UtpSendCall) (s : UtpStream) :
    Progress first true s.output (s.sendChunk now call).2.output := by
  rw [sendChunk, sendPacket_output now _ s (.inl rfl)]
  exact .push _ _ rfl packetType_makeVerType_data rfl

theorem sendLoop_progress (now : UInt64) (rounds : Nat) (call : UtpSendCall) (s : UtpStream) :
    Progress first true s.output (sendLoop now rounds call s).2.2.output := by
  induction rounds generalizing call s with
  | zero => exact .refl _
  | succ rounds ih =>
    have waited : Progress first true s.output (s.awaitWindow now).output := awaitWindow_progress now s
    have sent := waited.trans (sendChunk_progress now call _)
    rw [sendLoop]
    split
    · exact .refl _
    · dsimp only
      split
      · exact waited
      · split
        · exact sent.trans (ih _ _)
        · exact sent

end UtpStream

/-- One end of a connection: its stream, the number of its SYN, the calls of send
in progress, and the bytes those calls have turned into packets. -/
structure UtpEnd where
  stream : UtpStream
  synSeq : UInt16 := 0
  calls : List UtpSendCall := []
  passed : Bytes := []

inductive UtpEvent
  | datagram (now : UInt64) (buf : Bytes)
  | timers (now : UInt64)
  | idleTimeout (now : UInt64)
  | resendSyn (now : UInt64)
  | connectTimeout (now : UInt64)
  | startSend (data : Bytes) (all : Bool)
  | runSend (now : UInt64) (index rounds : Nat)
  | recv (size : Nat) (all : Bool)
  | close (now : UInt64) (force : Bool)
  | setMaxWindow (bytes : UInt32)
  | setPacketSize (bytes : UInt32)
  | setReceiveBufferSize (bytes : UInt32)
  | setDelayTarget (micros : UInt32)
deriving DecidableEq

def UtpEvent.sends : UtpEvent → Bool
  | .runSend _ _ _ => true
  | _ => false

namespace UtpEnd

/-- The number of the first packet. A slave starts at 1. -/
def first (e : UtpEnd) : UInt16 := if e.stream.slave then 1 else seqInc e.synSeq

def mapStream (f : UtpStream → UtpStream) (e : UtpEnd) : UtpEnd := { e with stream := f e.stream }

def alive (e : UtpEnd) : Bool := e.stream.state = .connected ∨ e.stream.state = .connecting

def startSend (data : Bytes) (all : Bool) (e : UtpEnd) : UtpEnd :=
  match e.stream.beginSend data with
  | (.error _, stream) => { e with stream := stream }
  | (.ok _, stream) => { e with stream := stream, calls := e.calls ++ [⟨data, 0, all⟩] }

/-- A call goes on for some rounds; it is gone once it has returned. -/
def runSend (now : UInt64) (index rounds : Nat) (call : UtpSendCall) (e : UtpEnd) : UtpEnd :=
  let (result, after, stream) := sendLoop now rounds call e.stream
  { e with
    stream := stream
    calls := if result.isSome then e.calls.eraseIdx index else e.calls.set index after
    passed := e.passed ++ call.rest.take (call.rest.length - after.rest.length) }

def step (e : UtpEnd) : UtpEvent → Option UtpEnd
  | .datagram now buf => if e.alive then some (e.mapStream (·.handleDatagram now buf)) else none
  | .timers now => if e.alive then some (e.mapStream (·.flushOutgoing now)) else none
  | .idleTimeout now =>
    if e.stream.state = .connected then
      some (e.mapStream fun s => (s.fail .socketTimeoutError "uTP idle timeout").close now true)
    else none
  | .resendSyn now =>
    if e.stream.slave = false ∧ e.stream.state = .connecting then
      some (e.mapStream (·.sendPacket now .syn e.synSeq [] false))
    else none
  | .connectTimeout now =>
    if e.stream.slave = false ∧ e.stream.state = .connecting then
      some (e.mapStream fun s => (s.fail .socketTimeoutError "uTP connect timeout").close now true)
    else none
  | .startSend data all => some (e.startSend data all)
  | .runSend now index rounds => e.calls[index]?.map fun call => e.runSend now index rounds call
  | .recv size all => (e.stream.recv size all).map fun result => { e with stream := result.2 }
  | .close now force => some (e.mapStream (·.close now force))
  | .setMaxWindow bytes => some (e.mapStream (·.setMaxWindow bytes))
  | .setPacketSize bytes => some (e.mapStream (·.setPacketSize bytes))
  | .setReceiveBufferSize bytes => some (e.mapStream (·.setReceiveBufferSize bytes))
  | .setDelayTarget micros => some (e.mapStream (·.setDelayTarget micros))

/-- An end that has just sent its first SYN; connect draws both numbers, and
neither is 0. -/
def connecting (now : UInt64) (connId synSeq : UInt16) : UtpEnd :=
  { stream := .connect now connId synSeq, synSeq := synSeq }

/-- An end that a SYN has just created. -/
def accepting (now : UInt64) (synConnId synSeq : UInt16) : UtpEnd := { stream := .accepted now synConnId synSeq }

def system : System UtpEnd UtpEvent :=
  .ofStep
    (fun e => (∃ now connId synSeq, connId ≠ 0 ∧ synSeq ≠ 0 ∧ e = connecting now connId synSeq) ∨
      ∃ now synConnId synSeq, e = accepting now synConnId synSeq)
    step

theorem startSend_output (data : Bytes) (all : Bool) (e : UtpEnd) :
    (e.startSend data all).stream.output = e.stream.output := by
  rw [startSend, beginSend]
  split_ifs <;> rfl

theorem recv_output {size : Nat} {all : Bool} {s t : UtpStream} {value : Int}
    (received : s.recv size all = some (value, t)) :
    t.output = s.output := by
  rw [recv] at received
  split at received
  · cases received
    rfl
  · split at received
    · cases received
      rfl
    · split at received
      · cases received
        rfl
      · cases received

theorem step_progress {e t : UtpEnd} {event : UtpEvent} (positive : e.stream.slave = false → e.synSeq ≠ 0)
    (stepped : e.step event = some t) : Progress e.first event.sends e.stream.output t.stream.output := by
  cases event with
  | datagram now buf =>
    obtain ⟨_, rfl⟩ := ite_some_none_eq_some.mp stepped
    exact handleDatagram_progress now buf e.stream
  | timers now =>
    obtain ⟨_, rfl⟩ := ite_some_none_eq_some.mp stepped
    exact flushOutgoing_progress now e.stream
  | idleTimeout now =>
    obtain ⟨_, rfl⟩ := ite_some_none_eq_some.mp stepped
    refine .trans ?_ (close_progress now true _)
    exact .refl e.stream.output
  | resendSyn now =>
    obtain ⟨⟨master, _⟩, rfl⟩ := ite_some_none_eq_some.mp stepped
    refine sendSyn_progress now e.stream (positive master) ?_
    rw [first, master]
    rfl
  | connectTimeout now =>
    obtain ⟨_, rfl⟩ := ite_some_none_eq_some.mp stepped
    refine .trans ?_ (close_progress now true _)
    exact .refl e.stream.output
  | startSend data all =>
    cases stepped
    rw [startSend_output]
    exact .refl _
  | runSend now index rounds =>
    obtain ⟨call, _, rfl⟩ := map_eq_some_iff.mp stepped
    exact sendLoop_progress now rounds call e.stream
  | recv size all =>
    obtain ⟨⟨value, stream⟩, received, rfl⟩ := map_eq_some_iff.mp stepped
    rw [recv_output received]
    exact .refl _
  | close now force =>
    cases stepped
    exact close_progress now force e.stream
  | setMaxWindow bytes =>
    cases stepped
    have same : (e.stream.setMaxWindow bytes).output = e.stream.output := by
      rw [setMaxWindow]
      split <;> rfl
    exact same ▸ .refl _
  | setPacketSize bytes =>
    cases stepped
    have same : (e.stream.setPacketSize bytes).output = e.stream.output := by
      rw [setPacketSize]
      split <;> rfl
    exact same ▸ .refl _
  | setReceiveBufferSize bytes =>
    cases stepped
    exact .refl e.stream.output
  | setDelayTarget micros =>
    cases stepped
    exact .refl e.stream.output

theorem synSeq_step {e t : UtpEnd} {event : UtpEvent} (stepped : e.step event = some t) : t.synSeq = e.synSeq := by
  cases event
  case startSend data all =>
    cases stepped
    rw [startSend]
    split <;> rfl
  case runSend now index rounds =>
    obtain ⟨call, _, rfl⟩ := map_eq_some_iff.mp stepped
    rfl
  case recv size all =>
    obtain ⟨result, _, rfl⟩ := map_eq_some_iff.mp stepped
    rfl
  all_goals
    first
    | (cases stepped; rfl)
    | (obtain ⟨_, rfl⟩ := ite_some_none_eq_some.mp stepped; rfl)

end UtpEnd

/-- A datagram that a stream has sent: DATA and FIN show the number and the
payload of their packet. -/
def Genuine (first : UInt16) (queued : List Bytes) (g : UtpDatagram) : Prop :=
  ∃ hdr payload, g.bytes = encodeHeader hdr ++ payload ∧
    ((∃ i, g.serial = some i ∧ queued[i]? = some payload ∧ hdr.seqNr = numbered first i ∧
        (packetType hdr.verType = .data ∨ packetType hdr.verType = .fin)) ∨
      (g.serial = none ∧ payload = [] ∧
        (packetType hdr.verType = .state ∨ (packetType hdr.verType = .syn ∧ seqInc hdr.seqNr = first))))

theorem Genuine.later {first : UInt16} {queued : List Bytes} {g : UtpDatagram} (genuine : Genuine first queued g)
    (more : List Bytes) : Genuine first (queued ++ more) g := by
  obtain ⟨hdr, payload, bytes, ⟨i, serial, here, rest⟩ | control⟩ := genuine
  · have bound := (List.getElem?_eq_some_iff.mp here).1
    exact ⟨hdr, payload, bytes, .inl ⟨i, serial, (getElem?_append_left bound).trans here, rest⟩⟩
  · exact ⟨hdr, payload, bytes, .inr control⟩

/-- The queue holds the latest packets, one number after the other, and the
window counts their bytes. -/
structure Outgoing (first : UInt16) (o : UtpOutput) : Prop where
  next : o.seqNr = numbered first o.queued.length
  wire : ∀ g ∈ o.wire, Genuine first o.handed g
  part : o.handed <+: o.queued
  whole : o.linked = true → o.handed = o.queued
  sent : ∀ p ∈ o.sent, Genuine first o.queued p.datagram ∧ p.seq = numbered first p.serial
  serials : ∃ retired, o.sent.map UtpSent.serial = List.range' retired o.sent.length ∧
    retired + o.sent.length = o.queued.length
  window : o.curWindow = (o.sent.map UtpSent.size).sum
  notFull : o.notFull = true

namespace Outgoing

variable {first : UInt16} {o : UtpOutput}

theorem fresh {slave linked attached : Bool} {wire : List UtpDatagram} (genuine : ∀ g ∈ wire, Genuine first [] g) :
    Outgoing first ⟨slave, linked, attached, first, [], [], [], 0, true, wire⟩ where
  next := by simp [numbered]
  wire := genuine
  part := prefix_rfl
  whole := fun _ => rfl
  sent := by simp
  serials := ⟨0, rfl, rfl⟩
  window := rfl
  notFull := rfl

variable (out : Outgoing first o)
include out

theorem emit {g : UtpDatagram} (genuine : Genuine first o.handed g) :
    Outgoing first { o with wire := o.wire ++ [g] } :=
  { out with
    wire := by
      intro d member
      rcases mem_append.mp member with old | new
      · exact out.wire d old
      · obtain rfl := mem_singleton.mp new
        exact genuine }

theorem push {hdr : UtpWireHeader} (payload : Bytes)
    (type : packetType hdr.verType = .data ∨ packetType hdr.verType = .fin) (number : hdr.seqNr = o.seqNr) :
    Outgoing first (o.push hdr payload) := by
  let p : UtpSent := ⟨o.queued.length, hdr.seqNr, encodeHeader hdr ++ payload⟩
  have position : hdr.seqNr = numbered first o.queued.length := number.trans out.next
  have genuine : Genuine first (o.queued ++ [payload]) p.datagram :=
    ⟨hdr, payload, rfl, .inl ⟨o.queued.length, rfl, by simp, position, type⟩⟩
  obtain ⟨retired, serials, count⟩ := out.serials
  constructor
  · show seqInc o.seqNr = numbered first (o.queued ++ [payload]).length
    rw [out.next, seqInc_numbered, length_append]
    rfl
  · intro g member
    rw [UtpOutput.push] at member ⊢
    dsimp only at member ⊢
    split at member
    · rename_i linked
      rw [if_pos linked]
      rcases mem_append.mp member with earlier | new
      · exact (out.wire g earlier).later _
      · obtain rfl := mem_singleton.mp new
        rw [out.whole linked]
        exact genuine
    · rename_i unlinked
      rw [if_neg unlinked]
      exact out.wire g member
  · show (if o.linked then o.handed ++ [payload] else o.handed) <+: o.queued ++ [payload]
    split
    · rename_i linked
      rw [out.whole linked]
    · exact out.part.trans (prefix_append _ _)
  · intro linked
    show (if o.linked then o.handed ++ [payload] else o.handed) = o.queued ++ [payload]
    rw [if_pos (show o.linked = true from linked), out.whole linked]
  · intro q member
    rcases mem_append.mp member with earlier | new
    · exact ⟨(out.sent q earlier).1.later _, (out.sent q earlier).2⟩
    · obtain rfl := mem_singleton.mp new
      exact ⟨genuine, position⟩
  · refine ⟨retired, ?_, ?_⟩
    · show (o.sent ++ [p]).map UtpSent.serial = range' retired (o.sent ++ [p]).length
      rw [map_append, serials, length_append, length_singleton, range'_concat, Nat.one_mul,
        count]
      rfl
    · show retired + (o.sent ++ [p]).length = (o.queued ++ [payload]).length
      simp only [length_append, length_singleton]
      omega
  · show o.curWindow + p.size = ((o.sent ++ [p]).map UtpSent.size).sum
    rw [out.window]
    simp
  · exact out.notFull

theorem pop {p : UtpSent} {rest : List UtpSent} (front : o.sent = p :: rest) :
    Outgoing first { o with sent := rest, curWindow := o.curWindow - p.size } := by
  obtain ⟨retired, serials, count⟩ := out.serials
  rw [front] at serials count
  have total := out.window
  rw [front, map_cons, sum_cons] at total
  refine { out with sent := fun q member => ?_, serials := ⟨retired + 1, ?_, ?_⟩, window := ?_ }
  · exact out.sent q (front ▸ mem_cons_of_mem _ member)
  · simp only [map_cons, length_cons, range'_succ, cons.injEq] at serials
    exact serials.2
  · simp only [length_cons] at count
    show retired + 1 + rest.length = o.queued.length
    omega
  · show o.curWindow - p.size = _
    rw [total, UInt32.add_comm, UInt32.add_sub_cancel]

theorem disconnect : Outgoing first o.disconnect :=
  { out with whole := fun linked => Bool.noConfusion linked, notFull := rfl }

theorem progress {data : Bool} {p : UtpOutput} (change : Progress first data o p) : Outgoing first p := by
  induction change with
  | refl => exact out
  | trans _ _ ih₁ ih₂ => exact ih₂ (ih₁ out)
  | control hdr _ type => exact out.emit ⟨hdr, [], (append_nil _).symm, .inr ⟨rfl, rfl, type⟩⟩
  | push hdr payload _ type number => exact out.push payload (.inl type) number
  | finish hdr type number => exact (out.push [] (.inr type) number).disconnect
  | disconnect => exact out.disconnect
  | attach => exact { out with }
  | resend linked member => exact out.emit (out.whole linked ▸ (out.sent _ member).1)
  | pop front => exact out.pop front
  | notFull => exact { out with notFull := rfl }

omit out

end Outgoing

variable {o p : UtpOutput}

theorem UtpOutput.Progress.slave {first : UInt16} (change : Progress first data o p) :
    p.slave = o.slave := by
  induction change with
  | trans _ _ ih₁ ih₂ => exact ih₂.trans ih₁
  | _ => rfl

theorem UtpOutput.Progress.queued_grows {first : UInt16} (change : Progress first data o p) :
    o.queued <+: p.queued := by
  induction change with
  | trans _ _ ih₁ ih₂ => exact ih₁.trans ih₂
  | push => exact prefix_append _ _
  | finish => exact prefix_append _ _
  | _ => exact prefix_rfl

theorem UtpOutput.handed_push (o : UtpOutput) (hdr : UtpWireHeader) (payload : Bytes) :
    o.handed <+: (o.push hdr payload).handed := by
  rw [push]
  dsimp only
  split
  · exact prefix_append _ _
  · exact prefix_rfl

theorem UtpOutput.Progress.handed_grows {first : UInt16} (change : Progress first data o p) :
    o.handed <+: p.handed := by
  induction change with
  | trans _ _ ih₁ ih₂ => exact ih₁.trans ih₂
  | push hdr payload => exact handed_push _ hdr payload
  | finish hdr => exact handed_push _ hdr []
  | _ => exact prefix_rfl

theorem UtpOutput.Progress.flatten_queued {first : UInt16} (change : Progress first false o p) :
    p.queued.flatten = o.queued.flatten := by
  induction change with
  | trans _ _ ih₁ ih₂ => exact ih₂.trans ih₁
  | push _ _ allowed => cases allowed
  | finish => simp [UtpOutput.push, UtpOutput.disconnect]
  | _ => rfl

theorem UtpOutput.Progress.frozen {first : UInt16} (change : Progress first data o p)
    (unlinked : o.linked = false) : p.linked = false ∧ p.handed = o.handed ∧ p.wire = o.wire := by
  induction change with
  | refl => exact ⟨unlinked, rfl, rfl⟩
  | trans _ _ ih₁ ih₂ =>
    obtain ⟨linked, handed, wire⟩ := ih₁ unlinked
    obtain ⟨linked', handed', wire'⟩ := ih₂ linked
    exact ⟨linked', handed'.trans handed, wire'.trans wire⟩
  | control _ linked =>
    rw [unlinked] at linked
    cases linked
  | push => exact ⟨unlinked, by simp [UtpOutput.push, unlinked], by simp [UtpOutput.push, unlinked]⟩
  | finish =>
    exact ⟨rfl, by simp [UtpOutput.push, UtpOutput.disconnect, unlinked],
      by simp [UtpOutput.push, UtpOutput.disconnect, unlinked]⟩
  | disconnect => exact ⟨rfl, rfl, rfl⟩
  | attach => exact ⟨unlinked, rfl, rfl⟩
  | resend linked =>
    rw [unlinked] at linked
    cases linked
  | pop => exact ⟨unlinked, rfl, rfl⟩
  | notFull => exact ⟨unlinked, rfl, rfl⟩

theorem UtpOutput.Progress.attached {first : UInt16} (change : Progress first data o p)
    (before : o.linked = true → o.attached = true) : p.linked = true → p.attached = true := by
  induction change with
  | trans _ _ ih₁ ih₂ => exact ih₂ (ih₁ before)
  | finish => exact fun linked => Bool.noConfusion linked
  | disconnect => exact fun linked => Bool.noConfusion linked
  | attach => exact fun _ => rfl
  | _ => exact before

theorem UtpOutput.Progress.notFull_stays {first : UInt16} (change : Progress first data o p)
    (before : o.notFull = true) : p.notFull = true := by
  induction change with
  | trans _ _ ih₁ ih₂ => exact ih₂ (ih₁ before)
  | finish => rfl
  | disconnect => rfl
  | notFull => rfl
  | _ => exact before

theorem UtpOutput.floor_push {bound : Nat} {hdr : UtpWireHeader} {payload : Bytes}
    (queued : bound ≤ o.queued.length) (sent : ∀ q ∈ o.sent, bound ≤ q.serial) :
    bound ≤ (o.push hdr payload).queued.length ∧ ∀ q ∈ (o.push hdr payload).sent, bound ≤ q.serial := by
  refine ⟨?_, fun q member => ?_⟩
  · show bound ≤ (o.queued ++ [payload]).length
    rw [length_append]
    omega
  · rcases mem_append.mp member with old | new
    · exact sent q old
    · obtain rfl := mem_singleton.mp new
      exact queued

/-- Packets that have left the queue do not come back: the serial numbers in it
never fall below a bound they had. -/
theorem UtpOutput.Progress.floor {first : UInt16} {bound : Nat} (change : Progress first data o p)
    (queued : bound ≤ o.queued.length) (sent : ∀ q ∈ o.sent, bound ≤ q.serial) :
    bound ≤ p.queued.length ∧ ∀ q ∈ p.sent, bound ≤ q.serial := by
  induction change with
  | refl => exact ⟨queued, sent⟩
  | trans _ _ ih₁ ih₂ =>
    obtain ⟨queued, sent⟩ := ih₁ queued sent
    exact ih₂ queued sent
  | control => exact ⟨queued, sent⟩
  | push => exact UtpOutput.floor_push queued sent
  | finish => exact UtpOutput.floor_push queued sent
  | disconnect => exact ⟨queued, sent⟩
  | attach => exact ⟨queued, sent⟩
  | resend => exact ⟨queued, sent⟩
  | pop front => exact ⟨queued, fun q member => sent q (front ▸ mem_cons_of_mem _ member)⟩
  | notFull => exact ⟨queued, sent⟩

namespace UtpEnd

def Sound (e : UtpEnd) : Prop := (e.stream.slave = false → e.synSeq ≠ 0) ∧ Outgoing e.first e.stream.output

theorem Sound.step {e t : UtpEnd} {event : UtpEvent} (sound : e.Sound) (stepped : e.step event = some t) :
    t.Sound ∧ t.first = e.first ∧ Progress e.first event.sends e.stream.output t.stream.output := by
  have change := step_progress sound.1 stepped
  have slave : t.stream.slave = e.stream.slave := change.slave
  have synSeq := synSeq_step stepped
  have first : t.first = e.first := by rw [UtpEnd.first, UtpEnd.first, slave, synSeq]
  refine ⟨⟨?_, ?_⟩, first, change⟩
  · rw [slave, synSeq]
    exact sound.1
  · rw [first]
    exact sound.2.progress change

theorem connecting_sound {synSeq : UInt16} (now : UInt64) (connId : UInt16) (positive : synSeq ≠ 0) :
    (connecting now connId synSeq).Sound := by
  let hdr := headerOf now .syn synSeq
    { slave := false, state := .connecting, recvConnId := connId, sendConnId := connId + 1 }
  have number : seqInc hdr.seqNr = seqInc synSeq := congrArg seqInc (if_pos positive)
  have output : (connecting now connId synSeq).stream.output =
      ⟨false, true, true, seqInc synSeq, [], [], [], 0, true, [⟨none, encodeHeader hdr⟩]⟩ := by
    simp [connecting, connect, sendPacket, buildPacket, rawSend,
      output, hdr]
  have master : (connecting now connId synSeq).stream.slave = false := congrArg UtpOutput.slave output
  have first : (connecting now connId synSeq).first = seqInc synSeq := by
    rw [UtpEnd.first, master]
    rfl
  refine ⟨fun _ => positive, ?_⟩
  rw [output, first]
  refine Outgoing.fresh fun g member => ?_
  obtain rfl := mem_singleton.mp member
  exact ⟨hdr, [], (append_nil _).symm, .inr ⟨rfl, rfl, .inr ⟨packetType_makeVerType_syn, number⟩⟩⟩

theorem accepting_sound (now : UInt64) (synConnId synSeq : UInt16) : (accepting now synConnId synSeq).Sound := by
  let hdr := headerOf now .state 0
    { slave := true, recvConnId := synConnId + 1, sendConnId := synConnId, ackNr := synSeq }
  have output : (accepting now synConnId synSeq).stream.output =
      ⟨true, true, true, 1, [], [], [], 0, true, [⟨none, encodeHeader hdr⟩]⟩ := rfl
  refine ⟨fun master => Bool.noConfusion master, ?_⟩
  rw [output]
  refine Outgoing.fresh fun g member => ?_
  obtain rfl := mem_singleton.mp member
  exact ⟨hdr, [], (append_nil _).symm, .inr ⟨rfl, rfl, .inl packetType_makeVerType_state⟩⟩

theorem sound_of_run {history : List (UtpEnd × UtpEvent)} {e : UtpEnd} (run : Run system history e) : e.Sound := by
  refine run.invariant ?_ fun s event t sound stepped => (sound.step stepped).1
  rintro s (⟨now, connId, synSeq, _, positive, rfl⟩ | ⟨now, synConnId, synSeq, rfl⟩)
  · exact connecting_sound now connId positive
  · exact accepting_sound now synConnId synSeq

end UtpEnd

end Qtng.Utp
