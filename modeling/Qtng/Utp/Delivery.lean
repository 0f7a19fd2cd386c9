import Qtng.Utp.Outgoing

namespace Qtng.Utp

open BigEndian Std Transition UtpOutput Option List UtpStream

variable {event : UtpEvent} {e t : UtpEnd}

structure UtpInput where
  ackNr : UInt16
  outOfOrder : ExtTreeMap Nat Bytes
  inOrder : Nat
  appended : Bytes
  finReceived : Bool
  returned : Bytes

def UtpStream.input (s : UtpStream) : UtpInput :=
  ⟨s.ackNr, s.outOfOrder, s.inOrder, s.appended, s.finReceived, s.returned⟩

namespace UtpStream

theorem rawSend_input (serial : Option Nat) (bytes : Bytes) (s : UtpStream) :
    (s.rawSend serial bytes).input = s.input := by
  rw [rawSend]
  split <;> rfl

theorem sendPacket_input (now : UInt64) (type : UtpPacketType) (seqOverride : UInt16) (payload : Bytes)
    (advanceSeq : Bool) (s : UtpStream) : (s.sendPacket now type seqOverride payload advanceSeq).input = s.input := by
  have built : (s.buildPacket now type seqOverride payload advanceSeq).2.input = s.input := by
    rw [buildPacket]
    dsimp only
    split <;> rfl
  rw [sendPacket]
  dsimp only
  split
  · rw [rawSend_input]
    exact built
  · rw [rawSend_input]
    exact built

theorem sendAck_input (now : UInt64) (s : UtpStream) : (s.sendAck now).input = s.input :=
  sendPacket_input now .state 0 [] false s

theorem ackPackets_input (ackNrNew : UInt16) (s : UtpStream) : (s.ackPackets ackNrNew).input = s.input := by
  rw [ackPackets]
  dsimp only
  split
  · rfl
  · split <;> rfl

theorem processAck_input (hdr : UtpWireHeader) (s : UtpStream) : (s.processAck hdr).input = s.input := by
  rw [processAck]
  split
  · exact ackPackets_input _ s
  · rfl

theorem close_input (now : UInt64) (force : Bool) (s : UtpStream) : (s.close now force).input = s.input := by
  rw [close]
  split
  · rfl
  · split
    · exact sendPacket_input now .fin 0 [] true s
    · rfl

theorem resend_input (resent : List SentPacket) (s : UtpStream) : (resent.foldl resend s).input = s.input := by
  induction resent generalizing s with
  | nil => rfl
  | cons p rest ih => exact (ih _).trans (rawSend_input _ _ s)

theorem flushOutgoing_input (now : UInt64) (s : UtpStream) : (s.flushOutgoing now).input = s.input := by
  have resent : (s.retransmit (flushQueue now s.sendQueue)).input = s.input := resend_input _ _
  rw [flushOutgoing]
  split
  · exact (close_input now true _).trans resent
  · exact resent

theorem sendLoop_input (now : UInt64) (rounds : Nat) (call : UtpSendCall) (s : UtpStream) :
    (sendLoop now rounds call s).2.2.input = s.input := by
  induction rounds generalizing call s with
  | zero => rfl
  | succ rounds ih =>
    have waited : (s.awaitWindow now).input = s.input := by
      rw [awaitWindow]
      split
      · exact flushOutgoing_input now s
      · rfl
    have sent : ((s.awaitWindow now).sendChunk now call).2.input = s.input :=
      (sendPacket_input now .data 0 _ true _).trans waited
    rw [sendLoop]
    split
    · rfl
    · dsimp only
      split
      · exact waited
      · split
        · exact (ih _ _).trans sent
        · exact sent

theorem recv_input {size : Nat} {all : Bool} {s t : UtpStream} {value : Int}
    (received : s.recv size all = some (value, t)) :
    t.input = { s.input with returned := t.returned } := by
  rw [recv] at received
  split at received
  · cases received
    rfl
  · split at received
    · cases received
      rfl
    · split at received
      · cases received
        simp [input, appended]
      · cases received

theorem noteHeader_input (now : UInt64) (hdr : UtpWireHeader) (s : UtpStream) :
    (s.noteHeader now hdr).input = s.input := by
  rw [noteHeader, adaptWindow]
  dsimp only
  split <;> rfl

end UtpStream

theorem UtpEnd.step_input (stepped : e.step event = some t)
    (own : ∀ now buf, event ≠ .datagram now buf) (quiet : ∀ size all, event ≠ .recv size all) :
    t.stream.input = e.stream.input := by
  cases event with
  | datagram now buf => exact absurd rfl (own now buf)
  | recv size all => exact absurd rfl (quiet size all)
  | timers now =>
    obtain ⟨_, rfl⟩ := ite_some_none_eq_some.mp stepped
    exact flushOutgoing_input now e.stream
  | idleTimeout now =>
    obtain ⟨_, rfl⟩ := ite_some_none_eq_some.mp stepped
    exact close_input now true _
  | resendSyn now =>
    obtain ⟨_, rfl⟩ := ite_some_none_eq_some.mp stepped
    exact sendPacket_input now .syn e.synSeq [] false e.stream
  | connectTimeout now =>
    obtain ⟨_, rfl⟩ := ite_some_none_eq_some.mp stepped
    exact close_input now true _
  | startSend data all =>
    cases stepped
    rw [startSend, beginSend]
    split_ifs <;> rfl
  | runSend now index rounds =>
    obtain ⟨call, _, rfl⟩ := map_eq_some_iff.mp stepped
    exact sendLoop_input now rounds call e.stream
  | close now force =>
    cases stepped
    exact close_input now force e.stream
  | setMaxWindow bytes =>
    cases stepped
    show (e.stream.setMaxWindow bytes).input = _
    rw [setMaxWindow]
    split <;> rfl
  | setPacketSize bytes =>
    cases stepped
    show (e.stream.setPacketSize bytes).input = _
    rw [setPacketSize]
    split <;> rfl
  | setReceiveBufferSize bytes =>
    cases stepped
    rfl
  | setDelayTarget micros =>
    cases stepped
    rfl

theorem UtpEnd.own_input (stepped : e.step event = some t) (own : ∀ now buf, event ≠ .datagram now buf) :
    t.stream.input = { e.stream.input with returned := t.stream.returned } := by
  by_cases quiet : ∀ size all, event ≠ .recv size all
  · have same := step_input stepped own quiet
    have returned : t.stream.returned = e.stream.returned := congrArg UtpInput.returned same
    rw [same, returned]
    rfl
  · push Not at quiet
    obtain ⟨size, all, rfl⟩ := quiet
    obtain ⟨⟨value, stream⟩, received, rfl⟩ := map_eq_some_iff.mp stepped
    exact recv_input received

/-- A receiver holds the first packets of its peer, in order and once each, and
keeps some of the later ones under their numbers. The bound says how far the kept
ones are ahead at least. -/
structure Receipts (ahead : Nat) (first : UInt16) (queued : List Bytes) (i : UtpInput) : Prop where
  taken : i.inOrder ≤ queued.length
  next : seqInc i.ackNr = numbered first i.inOrder
  bytes : i.appended = (queued.take i.inOrder).flatten
  kept : ∀ key payload, i.outOfOrder[key]? = some payload →
    ∃ n, i.inOrder + ahead ≤ n ∧ queued[n]? = some payload ∧ key = (numbered first n).toNat

namespace Receipts

variable {first : UInt16} {queued : List Bytes}
variable {s : UtpStream} {ahead : Nat}
variable {payload : Bytes}

theorem noteFin (receipts : Receipts ahead first queued s.input) (type : UtpPacketType) :
    Receipts ahead first queued (s.noteFin type).input := by
  rw [UtpStream.noteFin]
  split
  · exact { receipts with }
  · exact receipts

variable {i : UtpInput}

theorem read (receipts : Receipts ahead first queued i) (returned : Bytes) :
    Receipts ahead first queued { i with returned := returned } := { receipts with }

theorem appended_part (receipts : Receipts ahead first queued i) :
    i.appended <+: queued.flatten := by
  refine ⟨(queued.drop i.inOrder).flatten, ?_⟩
  rw [receipts.bytes, ← flatten_append, take_append_drop]

theorem grow {later : List Bytes} (receipts : Receipts ahead first queued i)
    (grows : queued <+: later) : Receipts ahead first later i := by
  obtain ⟨more, rfl⟩ := grows
  refine { receipts with taken := ?_, bytes := ?_, kept := fun key payload here => ?_ }
  · rw [length_append]
    exact receipts.taken.trans (Nat.le_add_right _ _)
  · rw [take_append_of_le_length receipts.taken]
    exact receipts.bytes
  · obtain ⟨n, behind, listed, number⟩ := receipts.kept key payload here
    have bound := (List.getElem?_eq_some_iff.mp listed).1
    exact ⟨n, behind, (getElem?_append_left bound).trans listed, number⟩

theorem loosen (receipts : Receipts 1 first queued i) : Receipts 0 first queued i := by
  refine { receipts with kept := fun key payload here => ?_ }
  obtain ⟨n, behind, rest⟩ := receipts.kept key payload here
  exact ⟨n, by omega, rest⟩

theorem take {t : UtpStream} (receipts : Receipts 0 first queued s.input)
    (listed : queued[s.inOrder]? = some payload) (ackNr : t.ackNr = seqInc s.ackNr)
    (inOrder : t.inOrder = s.inOrder + 1) (appended : t.appended = s.appended ++ payload)
    (kept : ∀ key other, t.outOfOrder[key]? = some other →
      s.outOfOrder[key]? = some other ∧ key ≠ (numbered first s.inOrder).toNat) : Receipts 0 first queued t.input := by
  obtain ⟨bound, value⟩ := List.getElem?_eq_some_iff.mp listed
  constructor
  · show t.inOrder ≤ queued.length
    omega
  · show seqInc t.ackNr = numbered first t.inOrder
    rw [ackNr, show seqInc s.ackNr = _ from receipts.next, seqInc_numbered, inOrder]
    rfl
  · show t.appended = (queued.take t.inOrder).flatten
    rw [appended, inOrder, take_add_one, listed, show s.appended = _ from receipts.bytes]
    simp [input]
  · intro key other here
    obtain ⟨old, distinct⟩ := kept key other here
    obtain ⟨n, behind, there, number⟩ := receipts.kept key other old
    have behind : s.inOrder ≤ n := behind
    refine ⟨n, ?_, there, number⟩
    show t.inOrder + 0 ≤ n
    have other : n ≠ s.inOrder := fun same => distinct (same ▸ number)
    omega

theorem drain (rounds : Nat) (enough : s.outOfOrder.size ≤ rounds)
    (near : queued.length ≤ s.inOrder + 2 ^ 15) (receipts : Receipts 0 first queued s.input) :
    Receipts 1 first queued (drain rounds s).input := by
  induction rounds generalizing s with
  | zero =>
    refine { receipts with kept := fun key payload here => ?_ }
    have smaller : (s.outOfOrder.erase key).size + 1 = s.outOfOrder.size := NatMap.size_erase_of_present here
    omega
  | succ rounds ih =>
    have next : seqInc s.ackNr = numbered first s.inOrder := receipts.next
    rw [drain]
    split
    · rename_i missing
      refine { receipts with kept := fun key payload here => ?_ }
      obtain ⟨n, behind, listed, number⟩ := receipts.kept key payload here
      have behind : s.inOrder ≤ n := behind
      refine ⟨n, ?_, listed, number⟩
      show s.inOrder + 1 ≤ n
      have other : n ≠ s.inOrder := by
        rintro rfl
        rw [next, ← number] at missing
        exact absurd (missing.symm.trans here) (by simp)
      omega
    · rename_i payload here
      obtain ⟨n, behind, listed, number⟩ := receipts.kept _ payload here
      have behind : s.inOrder ≤ n := behind
      have bound := (List.getElem?_eq_some_iff.mp listed).1
      have same : n = s.inOrder := by
        rw [next] at number
        have := numbered_inj (UInt16.toNat_inj.mp number)
        omega
      subst same
      refine ih ?_ ?_ ?_
      · have smaller := NatMap.size_erase_of_present here
        show (s.outOfOrder.erase _).size ≤ rounds
        omega
      · show queued.length ≤ s.inOrder + 1 + 2 ^ 15
        omega
      · refine receipts.take listed rfl rfl (by simp [appended]) fun key other there => ?_
        rw [NatMap.getElem?_erase] at there
        split at there
        · cases there
        · rename_i distinct
          exact ⟨there, next ▸ distinct⟩

/-- A packet of the peer, unless it is a copy from more than half the sequence
space ago. -/
theorem takePacket (now : UInt64) {hdr : UtpWireHeader} {n : Nat}
    (receipts : Receipts 1 first queued s.input) (listed : queued[n]? = some payload)
    (number : hdr.seqNr = numbered first n) (near : queued.length ≤ s.inOrder + (2 ^ 15 - 1))
    (recent : s.inOrder ≤ n + 2 ^ 15) : Receipts 1 first queued (s.takePacket now hdr payload).input := by
  have next : seqInc s.ackNr = numbered first s.inOrder := receipts.next
  have bound := (List.getElem?_eq_some_iff.mp listed).1
  rw [UtpStream.takePacket]
  split
  · rename_i expected
    rw [sendAck_input]
    have same : n = s.inOrder := by
      rw [number, next] at expected
      have := numbered_inj expected
      omega
    subst same
    refine drain _ le_rfl ?_ (receipts.loosen.take listed ?_ rfl ?_ fun key other here => ⟨here, ?_⟩)
    · show queued.length ≤ s.inOrder + 1 + 2 ^ 15
      omega
    · exact expected
    · simp [appended]
    · obtain ⟨m, behind, there, label⟩ := receipts.kept key other here
      have behind : s.inOrder + 1 ≤ m := behind
      have within := (List.getElem?_eq_some_iff.mp there).1
      rintro rfl
      have := numbered_inj (UInt16.toNat_inj.mp label)
      omega
  · split
    · rename_i ahead
      rw [sendAck_input]
      have later : s.inOrder + 1 ≤ n := by
        rw [number, next, seqDiff_numbered, Int.bmod_def] at ahead
        omega
      refine { receipts with kept := fun key other here => ?_ }
      have here : (s.outOfOrder.insert hdr.seqNr.toNat payload)[key]? = some other := here
      rw [NatMap.getElem?_insert] at here
      split at here
      · rename_i label
        cases here
        exact ⟨n, later, listed, label.trans (congrArg UInt16.toNat number)⟩
      · exact receipts.kept key other here
    · split
      · rw [sendAck_input]
        exact receipts
      · exact receipts

end Receipts

/-- A copy that does not upset the numbers of its receiver: a SYN or the first
STATE names the packet received last, and DATA or FIN is not from more than half
the sequence space ago. -/
def Timely (receiver : UtpStream) (g : UtpDatagram) : Prop :=
  (∀ hdr ∈ decodeHeader g.bytes,
    (packetType hdr.verType = .syn → hdr.seqNr = receiver.ackNr) ∧
      (packetType hdr.verType = .state → receiver.state = .connecting → hdr.seqNr - 1 = receiver.ackNr)) ∧
    ∀ i ∈ g.serial, receiver.inOrder ≤ i + 2 ^ 15

instance (receiver : UtpStream) (g : UtpDatagram) : Decidable (Timely receiver g) :=
  inferInstanceAs (Decidable (_ ∧ _))

namespace Receipts

variable {first : UInt16} {queued : List Bytes}
variable {s : UtpStream}
variable {hdr : UtpWireHeader}

theorem handleData (now : UInt64) {payload : Bytes} {n : Nat}
    (receipts : Receipts 1 first queued s.input) (listed : queued[n]? = some payload)
    (number : hdr.seqNr = numbered first n) (near : queued.length ≤ s.inOrder + (2 ^ 15 - 1))
    (recent : s.inOrder ≤ n + 2 ^ 15) (type : packetType hdr.verType = .data ∨ packetType hdr.verType = .fin) :
    Receipts 1 first queued (s.handlePacket now hdr payload).input := by
  have noted := noteHeader_input now hdr s
  have counted : (s.noteHeader now hdr).inOrder = s.inOrder := congrArg UtpInput.inOrder noted
  rw [← noted] at receipts
  rw [← counted] at near recent
  rw [handlePacket]
  generalize s.noteHeader now hdr = s at receipts near recent
  dsimp only
  have plain : packetType hdr.verType ≠ .syn ∧ packetType hdr.verType ≠ .state ∧ packetType hdr.verType ≠ .reset := by
    rcases type with type | type <;> simp [type]
  rw [if_neg plain.1, if_neg (by simp [plain.2.1]), if_neg plain.2.2]
  split
  · exact receipts
  · have acked := processAck_input hdr s
    have same : (s.processAck hdr).inOrder = s.inOrder := congrArg UtpInput.inOrder acked
    rw [← acked] at receipts
    rw [← same] at near recent
    exact (receipts.takePacket now listed number near recent).noteFin _

theorem handleControl (now : UInt64) (payload : Bytes)
    (type : packetType hdr.verType = .state ∨ packetType hdr.verType = .syn)
    (syn : packetType hdr.verType = .syn → hdr.seqNr = s.ackNr)
    (state : packetType hdr.verType = .state → s.state = .connecting → hdr.seqNr - 1 = s.ackNr) :
    (s.handlePacket now hdr payload).input = s.input := by
  have noted := noteHeader_input now hdr s
  have ackNr : (s.noteHeader now hdr).ackNr = s.ackNr := congrArg UtpInput.ackNr noted
  have same : (s.noteHeader now hdr).state = s.state := by
    rw [noteHeader, adaptWindow]
    dsimp only
    split <;> rfl
  rw [← ackNr] at syn state
  rw [← same] at state
  rw [handlePacket, ← noted]
  generalize s.noteHeader now hdr = s at syn state
  dsimp only
  rcases type with type | type
  · rw [if_neg (by simp [type])]
    split
    · rename_i connecting
      rw [state type connecting.1]
      rfl
    · rw [if_neg (by simp [type])]
      split
      · rfl
      · rw [if_neg (by simp [type])]
        exact processAck_input hdr s
  · rw [if_pos type, syn type]
    exact sendAck_input now _

theorem handleDatagram (now : UInt64) {g : UtpDatagram} (receipts : Receipts 1 first queued s.input)
    (genuine : Genuine first queued g) (timely : Timely s g) (near : queued.length ≤ s.inOrder + (2 ^ 15 - 1)) :
    Receipts 1 first queued (s.handleDatagram now g.bytes).input := by
  obtain ⟨hdr, payload, bytes, kind⟩ := genuine
  have decoded : decodeHeader g.bytes = some hdr := bytes ▸ decodeHeader_encodeHeader hdr payload
  have rest : g.bytes.drop utpHeaderSize = payload := bytes ▸ drop_encodeHeader hdr payload
  obtain ⟨syn, state⟩ := timely.1 hdr decoded
  rw [UtpStream.handleDatagram, decoded, rest]
  dsimp only
  split
  · rcases kind with ⟨n, serial, listed, number, type⟩ | ⟨_, _, type⟩
    · exact receipts.handleData now listed number near (timely.2 n serial) type
    · rw [handleControl now payload (type.imp_right And.left) syn state]
      exact receipts
  · exact receipts

end Receipts

namespace UtpStream

theorem sendLoop_taken (now : UInt64) (rounds : Nat) (call : UtpSendCall) (s : UtpStream) :
    ∃ taken, call.rest = taken ++ (sendLoop now rounds call s).2.1.rest ∧
      (sendLoop now rounds call s).2.2.queued.flatten = s.queued.flatten ++ taken := by
  induction rounds generalizing call s with
  | zero => exact ⟨[], rfl, (append_nil _).symm⟩
  | succ rounds ih =>
    have waited : (s.awaitWindow now).queued.flatten = s.queued.flatten :=
      UtpOutput.Progress.flatten_queued (awaitWindow_progress now s : Progress 0 false _ _)
    have sent : ((s.awaitWindow now).sendChunk now call).2.queued.flatten = s.queued.flatten ++
        call.rest.take ((s.awaitWindow now).chunk call).toNat := by
      have pushed := congrArg UtpOutput.queued (sendPacket_output now
        (call.rest.take ((s.awaitWindow now).chunk call).toNat) (s.awaitWindow now) (Or.inl rfl))
      rw [← waited]
      exact (congrArg flatten pushed).trans (by simp [UtpOutput.push, output])
    rw [sendLoop]
    split
    · exact ⟨[], rfl, (append_nil _).symm⟩
    · dsimp only
      split
      · exact ⟨[], rfl, by rw [waited, append_nil]⟩
      · split
        · obtain ⟨taken, rest, flat⟩ :=
            ih ((s.awaitWindow now).sendChunk now call).1 ((s.awaitWindow now).sendChunk now call).2
          refine ⟨call.rest.take ((s.awaitWindow now).chunk call).toNat ++ taken, ?_, ?_⟩
          · rw [append_assoc, ← rest]
            exact (take_append_drop _ _).symm
          · rw [flat, sent, append_assoc]
        · exact ⟨_, (take_append_drop _ _).symm, sent⟩

end UtpStream

namespace UtpEnd

variable {event : UtpEvent} {e t : UtpEnd}

/-- What send was given is what the queued packets carry. -/
def Accounted (e : UtpEnd) : Prop := e.passed = e.stream.queued.flatten

theorem passed_step (stepped : e.step event = some t) (idle : event.sends = false) :
    t.passed = e.passed := by
  cases event
  case startSend data all =>
    cases stepped
    rw [startSend]
    split <;> rfl
  case runSend => cases idle
  case recv size all =>
    obtain ⟨result, _, rfl⟩ := map_eq_some_iff.mp stepped
    rfl
  all_goals
    first
    | (cases stepped; rfl)
    | (obtain ⟨_, rfl⟩ := ite_some_none_eq_some.mp stepped; rfl)

theorem Accounted.step (accounted : e.Accounted) (sound : e.Sound) (stepped : e.step event = some t) : t.Accounted := by
  cases sends : event.sends with
  | false =>
    have change := (sound.step stepped).2.2
    rw [sends] at change
    rw [Accounted, passed_step stepped sends, show e.passed = _ from accounted]
    exact change.flatten_queued.symm
  | true =>
    cases event <;> try cases sends
    rename_i now index rounds
    obtain ⟨call, _, rfl⟩ := map_eq_some_iff.mp stepped
    obtain ⟨taken, rest, flat⟩ := sendLoop_taken now rounds call e.stream
    show e.passed ++ call.rest.take (call.rest.length - (sendLoop now rounds call e.stream).2.1.rest.length) =
      (sendLoop now rounds call e.stream).2.2.queued.flatten
    have count : call.rest.length - (sendLoop now rounds call e.stream).2.1.rest.length = taken.length := by
      have := congrArg length rest
      rw [length_append] at this
      omega
    rw [flat, count, show e.passed = _ from accounted]
    congr 1
    rw [rest]
    exact take_left

end UtpEnd

/-- A master and the slave that a listening peer makes for its SYN, with all the
datagrams they have sent. -/
structure UtpWorld where
  client : UtpEnd
  server : Option UtpEnd := none

inductive UtpWorldEvent
  | client (event : UtpEvent)
  | server (event : UtpEvent)
  | toServer (now : UInt64) (index : Nat)
  | toClient (now : UInt64) (index : Nat)
deriving DecidableEq

def UtpEvent.isDatagram : UtpEvent → Bool
  | .datagram _ _ => true
  | _ => false

namespace UtpWorld

variable {event : UtpEvent} {e : UtpEnd}

/-- pumpDatagram of the listening master: only a SYN makes a slave. -/
def pumpDatagram (now : UInt64) (buf : Bytes) (w : UtpWorld) : UtpWorld :=
  match decodeHeader buf with
  | none => w
  | some hdr =>
    if packetType hdr.verType = .syn then { w with server := some (.accepting now hdr.connId hdr.seqNr) } else w

/-- Datagrams may be lost, copied, delayed and overtake each other: any one ever
sent may arrive at any time. -/
def step (w : UtpWorld) : UtpWorldEvent → Option UtpWorld
  | .client event => if event.isDatagram then none else (w.client.step event).map fun e => { w with client := e }
  | .server event =>
    if event.isDatagram then none
    else w.server.bind fun srv => (srv.step event).map fun e => { w with server := some e }
  | .toServer now index =>
    w.client.stream.wire[index]?.bind fun g =>
      match w.server with
      | none => some (w.pumpDatagram now g.bytes)
      | some srv => (srv.step (.datagram now g.bytes)).map fun e => { w with server := some e }
  | .toClient now index =>
    w.server.bind fun srv => srv.stream.wire[index]?.bind fun g =>
      (w.client.step (.datagram now g.bytes)).map fun e => { w with client := e }

def system : System UtpWorld UtpWorldEvent :=
  .ofStep (fun w => ∃ now connId synSeq, connId ≠ 0 ∧ synSeq ≠ 0 ∧ w = ⟨.connecting now connId synSeq, none⟩) step

/-- The datagrams that arrive do not upset the numbers of their receiver. -/
def Orderly (w : UtpWorld) : UtpWorldEvent → Prop
  | .toServer _ index => ∀ srv ∈ w.server, ∀ g ∈ w.client.stream.wire[index]?, Timely srv.stream g
  | .toClient _ index => ∀ srv ∈ w.server, ∀ g ∈ srv.stream.wire[index]?, Timely w.client.stream g
  | _ => True

instance (w : UtpWorld) : DecidablePred w.Orderly
  | .client _ | .server _ => isTrue trivial
  | .toServer _ index => inferInstanceAs (Decidable (∀ srv ∈ w.server, ∀ g ∈ w.client.stream.wire[index]?, _))
  | .toClient _ index => inferInstanceAs (Decidable (∀ srv ∈ w.server, ∀ g ∈ srv.stream.wire[index]?, _))

/-- At most 2^15 - 1 packets of each end have not been taken by the other. -/
def Bounded (w : UtpWorld) : Prop :=
  ∀ srv ∈ w.server,
    w.client.stream.handed.length ≤ srv.stream.inOrder + (2 ^ 15 - 1) ∧
      srv.stream.handed.length ≤ w.client.stream.inOrder + (2 ^ 15 - 1)

instance : DecidablePred Bounded := fun w => inferInstanceAs (Decidable (∀ srv ∈ w.server, _))

def InStep (w : UtpWorld) : Prop :=
  (w.server.isNone → w.client.stream.appended = []) ∧ ∀ srv ∈ w.server,
    srv.stream.appended <+: w.client.passed ∧ w.client.stream.appended <+: srv.passed

instance : DecidablePred InStep := fun w =>
  inferInstanceAs (Decidable ((w.server.isNone → w.client.stream.appended = []) ∧ ∀ srv ∈ w.server, _ ∧ _))

structure Inv (w : UtpWorld) : Prop where
  client : w.client.Sound ∧ w.client.Accounted
  server : ∀ srv, w.server = some srv → (srv.Sound ∧ srv.Accounted) ∧ srv.first = 1 ∧
    Receipts 1 w.client.first w.client.stream.handed srv.stream.input ∧
    Receipts 1 1 srv.stream.handed w.client.stream.input
  alone : w.server = none → ∃ returned, w.client.stream.input = ⟨0, ∅, 0, [], false, returned⟩

theorem Receipts.fresh {first ackNr : UInt16} (queued : List Bytes) (returned : Bytes) (next : seqInc ackNr = first) :
    Receipts 1 first queued ⟨ackNr, ∅, 0, [], false, returned⟩ where
  taken := Nat.zero_le _
  next := by simp [next, numbered]
  bytes := rfl
  kept := by simp

variable {w : UtpWorld}

theorem Inv.start (start : system.start w) : w.Inv := by
  obtain ⟨now, connId, synSeq, _, positive, rfl⟩ := start
  refine ⟨⟨UtpEnd.connecting_sound now connId positive, ?_⟩, fun srv here => by simp at here, fun _ => ?_⟩
  · show [] = (connect now connId synSeq).queued.flatten
    simp [connect, sendPacket, buildPacket, rawSend]
  · exact ⟨[], sendPacket_input now .syn synSeq [] false
      { slave := false, state := .connecting, recvConnId := connId, sendConnId := connId + 1 }⟩

theorem Inv.client_step (inv : w.Inv) (stepped : w.client.step event = some e)
    (alone : w.server = none → e.stream.input = { w.client.stream.input with returned := e.stream.returned })
    (received : ∀ srv, w.server = some srv → Receipts 1 1 srv.stream.handed e.stream.input) :
    Inv { w with client := e } := by
  obtain ⟨sound, first, change⟩ := inv.client.1.step stepped
  refine ⟨⟨sound, inv.client.2.step inv.client.1 stepped⟩, fun srv here => ?_, fun absent => ?_⟩
  · obtain ⟨good, one, receipts, _⟩ := inv.server srv here
    refine ⟨good, one, ?_, received srv here⟩
    show Receipts 1 e.first e.stream.handed srv.stream.input
    rw [first]
    exact receipts.grow change.handed_grows
  · obtain ⟨returned, before⟩ := inv.alone absent
    refine ⟨e.stream.returned, (alone absent).trans ?_⟩
    rw [before]

theorem Inv.server_step {srv : UtpEnd} (inv : w.Inv) (here : w.server = some srv)
    (stepped : srv.step event = some e) (received : Receipts 1 w.client.first w.client.stream.handed e.stream.input) :
    Inv { w with server := some e } := by
  obtain ⟨good, one, _, receipts⟩ := inv.server srv here
  obtain ⟨sound, first, change⟩ := good.1.step stepped
  refine ⟨inv.client, fun other same => ?_, fun absent => by simp at absent⟩
  cases same
  exact ⟨⟨sound, good.2.step good.1 stepped⟩, first.trans one, received, receipts.grow change.handed_grows⟩

theorem Inv.pumpDatagram (now : UInt64) {g : UtpDatagram} (inv : w.Inv) (absent : w.server = none)
    (genuine : Genuine w.client.first w.client.stream.handed g) : (w.pumpDatagram now g.bytes).Inv := by
  obtain ⟨hdr, payload, bytes, kind⟩ := genuine
  have decoded : decodeHeader g.bytes = some hdr := bytes ▸ decodeHeader_encodeHeader hdr payload
  rw [UtpWorld.pumpDatagram, decoded]
  dsimp only
  split
  · rename_i syn
    have before : seqInc hdr.seqNr = w.client.first := by
      rcases kind with ⟨_, _, _, _, type⟩ | ⟨_, _, type⟩
      · simp [syn] at type
      · exact (type.resolve_left (by simp [syn])).2
    refine ⟨inv.client, fun srv same => ?_, fun absent => by simp at absent⟩
    cases same
    refine ⟨⟨UtpEnd.accepting_sound now hdr.connId hdr.seqNr, rfl⟩, rfl, Receipts.fresh _ [] before, ?_⟩
    obtain ⟨returned, input⟩ := inv.alone absent
    rw [input]
    exact Receipts.fresh _ returned rfl
  · exact inv

/-- What a step can do, with what made it possible. -/
inductive Step (w : UtpWorld) : UtpWorldEvent → UtpWorld → Prop
  | client {event : UtpEvent} {e : UtpEnd} (own : ∀ now buf, event ≠ .datagram now buf)
    (moved : w.client.step event = some e) : Step w (.client event) { w with client := e }
  | server {event : UtpEvent} {srv e : UtpEnd} (own : ∀ now buf, event ≠ .datagram now buf)
    (here : w.server = some srv) (moved : srv.step event = some e) : Step w (.server event) { w with server := some e }
  | accept {now index g} (sent : w.client.stream.wire[index]? = some g) (absent : w.server = none) :
    Step w (.toServer now index) (w.pumpDatagram now g.bytes)
  | toServer {now index g} {srv e : UtpEnd} (sent : w.client.stream.wire[index]? = some g)
    (here : w.server = some srv) (moved : srv.step (.datagram now g.bytes) = some e) :
    Step w (.toServer now index) { w with server := some e }
  | toClient {now index g} {srv e : UtpEnd} (here : w.server = some srv)
    (sent : srv.stream.wire[index]? = some g) (moved : w.client.step (.datagram now g.bytes) = some e) :
    Step w (.toClient now index) { w with client := e }

theorem step_cases {t : UtpWorld} {event : UtpWorldEvent} (stepped : w.step event = some t) : w.Step event t := by
  cases event with
  | client event =>
    obtain ⟨own, stepped⟩ := ite_none_left_eq_some.mp stepped
    obtain ⟨e, moved, rfl⟩ := map_eq_some_iff.mp stepped
    exact .client (by rintro now buf rfl; exact own rfl) moved
  | server event =>
    obtain ⟨own, stepped⟩ := ite_none_left_eq_some.mp stepped
    obtain ⟨srv, here, stepped⟩ := bind_eq_some_iff.mp stepped
    obtain ⟨e, moved, rfl⟩ := map_eq_some_iff.mp stepped
    exact .server (by rintro now buf rfl; exact own rfl) here moved
  | toServer now index =>
    obtain ⟨g, sent, stepped⟩ := bind_eq_some_iff.mp stepped
    cases here : w.server with
    | none =>
      rw [here] at stepped
      cases stepped
      exact .accept sent here
    | some srv =>
      rw [here] at stepped
      obtain ⟨e, moved, rfl⟩ := map_eq_some_iff.mp stepped
      exact .toServer sent here moved
  | toClient now index =>
    obtain ⟨srv, here, stepped⟩ := bind_eq_some_iff.mp stepped
    obtain ⟨g, sent, stepped⟩ := bind_eq_some_iff.mp stepped
    obtain ⟨e, moved, rfl⟩ := map_eq_some_iff.mp stepped
    exact .toClient here sent moved

theorem Inv.step {t : UtpWorld} {event : UtpWorldEvent} (inv : w.Inv) (orderly : w.Orderly event)
    (bounded : w.Bounded) (stepped : w.step event = some t) : t.Inv := by
  cases step_cases stepped with
  | client own moved =>
    have same := UtpEnd.own_input moved own
    refine inv.client_step moved (fun _ => same) fun srv here => ?_
    rw [same]
    exact (inv.server srv here).2.2.2.read _
  | @server _ srv _ own here moved =>
    refine inv.server_step here moved ?_
    rw [UtpEnd.own_input moved own]
    exact (inv.server srv here).2.2.1.read _
  | @accept now _ g sent absent => exact inv.pumpDatagram now absent (inv.client.1.2.wire g (mem_of_getElem? sent))
  | @toServer now _ g srv _ sent here moved =>
    refine inv.server_step here moved ?_
    obtain ⟨_, rfl⟩ := ite_some_none_eq_some.mp moved
    exact (inv.server srv here).2.2.1.handleDatagram now (inv.client.1.2.wire g (mem_of_getElem? sent))
      (orderly srv here g sent) (bounded srv here).1
  | @toClient now _ g srv _ here sent moved =>
    obtain ⟨good, one, _, receipts⟩ := inv.server srv here
    have genuine := good.1.2.wire g (mem_of_getElem? sent)
    rw [one] at genuine
    refine inv.client_step moved (fun absent => ?_) fun other same => ?_
    · rw [here] at absent
      cases absent
    · obtain rfl : srv = other := some.inj (here.symm.trans same)
      obtain ⟨_, rfl⟩ := ite_some_none_eq_some.mp moved
      exact receipts.handleDatagram now genuine (orderly srv here g sent) (bounded srv here).2

theorem Inv.inStep (inv : w.Inv) : w.InStep := by
  refine ⟨fun absent => ?_, fun srv here => ?_⟩
  · obtain ⟨returned, input⟩ := inv.alone (isNone_iff_eq_none.mp absent)
    exact congrArg UtpInput.appended input
  obtain ⟨good, _, toServer, toClient⟩ := inv.server srv here
  rw [show srv.passed = _ from good.2, show w.client.passed = _ from inv.client.2]
  have client := good.1.2.part.flatten
  have server := inv.client.1.2.part.flatten
  exact ⟨toServer.appended_part.trans server, toClient.appended_part.trans client⟩

/-- Every copy that arrives is timely and the packets outstanding stay few: then
what each end has received is at all times a first part of what the other was
given to send. -/
theorem inStep_of_orderly {history : List (UtpWorld × UtpWorldEvent)} {t : UtpWorld} (run : Run system history t)
    (bounded : ∀ w, Visited history t w → w.Bounded) (orderly : ∀ entry ∈ history, entry.1.Orderly entry.2) :
    ∀ w, Visited history t w → w.InStep := by
  intro w visited
  have inv : w.Inv := by
    refine run.visited_of_guard (fun w event => w.Orderly event ∧ w.Bounded) (fun entry member => ?_)
      (fun w start => Inv.start start) (fun w event u inv guard stepped => inv.step guard.1 guard.2 stepped) visited
    exact ⟨orderly entry member, bounded entry.1 (Or.inr ⟨entry.2, member⟩)⟩
  exact inv.inStep

/-- The handshake, then two bytes of the client and one of the server arrive. -/
def exchange : List UtpWorldEvent :=
  [.toServer 0 0, .toClient 0 0, .client (.startSend [65, 66] true), .client (.runSend 0 0 2),
    .server (.startSend [90] true), .server (.runSend 0 0 2), .toServer 0 1, .toClient 0 1]

theorem inStep_of_orderly_exchange :
    ∃ history t, Run system history t ∧ history.length = 8 ∧ ∀ w, Visited history t w → w.InStep := by
  obtain ⟨history, t, run, labels, guarded, last⟩ :=
    Run.of_exec_guarded system (fun w event => w.Orderly event ∧ w.Bounded) rfl exchange
      ⟨0, 7, 100, by decide, by decide, rfl⟩ Bounded (by decide +kernel)
  have guarded : ∀ entry ∈ history, entry.1.Orderly entry.2 ∧ entry.1.Bounded := fun entry member =>
    of_decide_eq_true (guarded entry member)
  refine ⟨history, t, run, by simpa [exchange] using congrArg length labels, inStep_of_orderly run ?_ ?_⟩
  · rintro w (rfl | ⟨event, member⟩)
    · exact last
    · exact (guarded _ member).2
  · exact fun entry member => (guarded entry member).1

/-- A late copy of the SYN takes the slave back to its first packet, and a copy of
that packet is appended once more. -/
theorem bytes_twice :
    ∃ history t, Run system history t ∧ (∀ w, Visited history t w → w.Bounded) ∧
      t.client.passed = [65, 66] ∧ (∃ srv ∈ t.server, srv.stream.appended = [65, 66, 65, 66]) ∧ ¬ t.InStep := by
  obtain ⟨history, t, run, _, guarded, ⟨last, passed, appended, broken⟩⟩ :=
    Run.of_exec_guarded system (fun w _ => w.Bounded) rfl
      [.toServer 0 0, .toClient 0 0, .client (.startSend [65, 66] true), .client (.runSend 0 0 2), .toServer 0 1,
        .toServer 0 0, .toServer 0 1]
      ⟨0, 7, 100, by decide, by decide, rfl⟩
      (fun t => t.Bounded ∧ t.client.passed = [65, 66] ∧
        (∃ srv ∈ t.server, srv.stream.appended = [65, 66, 65, 66]) ∧ ¬ t.InStep)
      (by decide +kernel)
  refine ⟨history, t, run, ?_, passed, appended, broken⟩
  rintro w (rfl | ⟨event, member⟩)
  · exact last
  · exact of_decide_eq_true (guarded _ member)

end UtpWorld

end Qtng.Utp
