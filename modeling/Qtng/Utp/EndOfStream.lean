import Qtng.Utp.Delivery

namespace Qtng.Utp

open BigEndian Std Transition UtpOutput List Option UtpStream

def UtpDatagram.isFin (g : UtpDatagram) : Prop := ∃ hdr ∈ decodeHeader g.bytes, packetType hdr.verType = .fin

instance : DecidablePred UtpDatagram.isFin := fun g =>
  inferInstanceAs (Decidable (∃ hdr ∈ decodeHeader g.bytes, _))

theorem isFin_iff {serial : Option Nat} {hdr : UtpWireHeader} {payload : Bytes} :
    UtpDatagram.isFin ⟨serial, encodeHeader hdr ++ payload⟩ ↔ packetType hdr.verType = .fin := by
  simp [UtpDatagram.isFin, decodeHeader_encodeHeader]

/-- The FIN is the last packet that the link takes. -/
structure FinLast (o : UtpOutput) : Prop where
  before : o.linked = true → (∀ g ∈ o.wire, ¬ g.isFin) ∧ ∀ p ∈ o.sent, ¬ p.datagram.isFin
  last : ∀ g ∈ o.wire, g.isFin → ∃ k, g.serial = some k ∧ o.handed.length = k + 1 ∧ o.handed[k]? = some []

namespace FinLast

variable {first : UInt16} {o : UtpOutput}
variable {g : UtpDatagram} {hdr : UtpWireHeader}

theorem emit (fin : FinLast o) (linked : o.linked = true) (other : ¬ g.isFin) :
    FinLast { o with wire := o.wire ++ [g] } := by
  have none : ∀ d ∈ o.wire ++ [g], ¬ d.isFin := by
    intro d member
    rcases mem_append.mp member with old | new
    · exact (fin.before linked).1 d old
    · exact mem_singleton.mp new ▸ other
  exact ⟨fun _ => ⟨none, (fin.before linked).2⟩, fun d member isFin => absurd isFin (none d member)⟩

theorem push (fin : FinLast o) (payload : Bytes) (type : packetType hdr.verType = .data) :
    FinLast (o.push hdr payload) := by
  have other : ∀ serial, ¬ UtpDatagram.isFin ⟨serial, encodeHeader hdr ++ payload⟩ := fun serial isFin => by
    rw [isFin_iff, type] at isFin
    cases isFin
  cases linked : o.linked with
  | true =>
    obtain ⟨wire, sent⟩ := fin.before linked
    have none : ∀ g ∈ (o.push hdr payload).wire, ¬ g.isFin := by
      intro g member
      simp only [UtpOutput.push, linked, if_true] at member
      rcases mem_append.mp member with old | new
      · exact wire g old
      · exact mem_singleton.mp new ▸ other _
    refine ⟨fun _ => ⟨none, fun p member => ?_⟩, fun g member isFin => absurd isFin (none g member)⟩
    rcases mem_append.mp member with old | new
    · exact sent p old
    · exact mem_singleton.mp new ▸ other _
  | false =>
    refine ⟨fun open_ => ?_, fun g member isFin => ?_⟩
    · rw [show (o.push hdr payload).linked = o.linked from rfl, linked] at open_
      cases open_
    · simp only [UtpOutput.push, linked] at member ⊢
      exact fin.last g member isFin

theorem finish (fin : FinLast o) (out : Outgoing first o) :
    FinLast (o.push hdr []).disconnect := by
  refine ⟨fun linked => Bool.noConfusion linked, fun g member isFin => ?_⟩
  simp only [UtpOutput.push, UtpOutput.disconnect] at member ⊢
  split at member
  · rename_i linked
    rcases mem_append.mp member with old | new
    · exact absurd isFin ((fin.before linked).1 g old)
    · obtain rfl := mem_singleton.mp new
      refine ⟨o.queued.length, rfl, ?_⟩
      rw [if_pos linked, out.whole linked]
      simp
  · rename_i unlinked
    rw [if_neg unlinked]
    exact fin.last g member isFin

theorem progress {data : Bool} {p : UtpOutput} (fin : FinLast o) (out : Outgoing first o)
    (change : Progress first data o p) : FinLast p := by
  induction change with
  | refl => exact fin
  | trans left _ ih₁ ih₂ => exact ih₂ (ih₁ fin out) (out.progress left)
  | control hdr linked type =>
    refine fin.emit linked fun isFin => ?_
    rw [← append_nil (encodeHeader hdr), isFin_iff] at isFin
    simp [isFin] at type
  | push hdr payload _ type => exact fin.push payload type
  | finish hdr => exact fin.finish out
  | disconnect => exact ⟨fun linked => Bool.noConfusion linked, fin.last⟩
  | attach => exact ⟨fin.before, fin.last⟩
  | resend linked member => exact fin.emit linked ((fin.before linked).2 _ member)
  | pop front =>
    refine ⟨fun linked => ⟨(fin.before linked).1, fun p member => ?_⟩, fin.last⟩
    exact (fin.before linked).2 p (front ▸ mem_cons_of_mem _ member)
  | notFull => exact ⟨fin.before, fin.last⟩

theorem fresh (out : Outgoing first o) (handed : o.handed = []) (sent : o.sent = []) : FinLast o := by
  have none : ∀ g ∈ o.wire, ¬ g.isFin := by
    intro g member isFin
    obtain ⟨hdr, payload, bytes, kind⟩ := out.wire g member
    obtain ⟨serial, _⟩ := g
    obtain rfl := bytes
    rw [isFin_iff] at isFin
    rcases kind with ⟨i, _, listed, _⟩ | ⟨_, _, type⟩
    · simp [handed] at listed
    · simp [isFin] at type
  exact ⟨fun _ => ⟨none, by simp [sent]⟩, fun g member isFin => absurd isFin (none g member)⟩

theorem flatten_take (fin : FinLast o) (member : g ∈ o.wire) (isFin : g.isFin) {n : Nat}
    (reached : o.handed.length ≤ n + 1) : (o.handed.take n).flatten = o.handed.flatten := by
  obtain ⟨k, _, length, last⟩ := fin.last g member isFin
  rcases Nat.lt_or_ge n o.handed.length with short | all
  · obtain rfl : n = k := by omega
    have whole : o.handed.take n ++ [[]] = o.handed := by
      have all := take_of_length_le (l := o.handed) (i := n + 1) (by omega)
      rwa [take_add_one, last] at all
    calc (o.handed.take n).flatten = (o.handed.take n ++ [[]]).flatten := by simp
      _ = o.handed.flatten := by rw [whole]
  · rw [take_of_length_le all]

end FinLast

/-- How a datagram moves an input on: packets are only ever taken, nothing is
returned, and only a FIN is noted. -/
structure Forward (fin : Prop) (i j : UtpInput) : Prop where
  order : i.inOrder ≤ j.inOrder
  returned : j.returned = i.returned
  stays : i.finReceived = true → j.finReceived = true
  noted : j.finReceived = true → i.finReceived = true ∨ fin

namespace UtpStream

theorem drain_forward (rounds : Nat) (s : UtpStream) : Forward False s.input (drain rounds s).input := by
  induction rounds generalizing s with
  | zero => exact ⟨le_rfl, rfl, id, .inl⟩
  | succ rounds ih =>
    rw [drain]
    split
    · exact ⟨le_rfl, rfl, id, .inl⟩
    · rename_i payload here
      obtain ⟨order, returned, stays, noted⟩ := ih { s with
        receivingBuffer := s.receivingBuffer ++ payload
        ackNr := seqInc s.ackNr
        outOfOrder := s.outOfOrder.erase (seqInc s.ackNr).toNat
        inOrder := s.inOrder + 1 }
      exact ⟨(Nat.le_succ _).trans order, returned, stays, noted⟩

theorem takePacket_forward (now : UInt64) (hdr : UtpWireHeader) (payload : Bytes) (s : UtpStream) :
    Forward False s.input (s.takePacket now hdr payload).input := by
  rw [takePacket]
  split
  · rw [sendAck_input]
    obtain ⟨order, returned, stays, noted⟩ := drain_forward s.outOfOrder.size
      { s with receivingBuffer := s.receivingBuffer ++ payload, ackNr := hdr.seqNr, inOrder := s.inOrder + 1 }
    exact ⟨(Nat.le_succ _).trans order, returned, stays, noted⟩
  · split
    · rw [sendAck_input]
      exact ⟨le_rfl, rfl, id, .inl⟩
    · split
      · rw [sendAck_input]
        exact ⟨le_rfl, rfl, id, .inl⟩
      · exact ⟨le_rfl, rfl, id, .inl⟩

theorem handlePacket_forward (now : UInt64) (hdr : UtpWireHeader) (payload : Bytes) (s : UtpStream) :
    Forward (packetType hdr.verType = .fin) s.input (s.handlePacket now hdr payload).input := by
  rw [handlePacket, ← noteHeader_input now hdr s]
  generalize s.noteHeader now hdr = s
  have still : Forward (packetType hdr.verType = .fin) s.input s.input := ⟨le_rfl, rfl, id, .inl⟩
  dsimp only
  split
  · rw [show ∀ t : UtpStream, t.enterConnected.input = t.input from fun _ => rfl, sendAck_input]
    exact ⟨le_rfl, rfl, id, .inl⟩
  · split
    · exact ⟨le_rfl, rfl, id, .inl⟩
    · split
      · rw [close_input]
        exact still
      · split
        · exact still
        · split
          · obtain ⟨order, returned, stays, noted⟩ := takePacket_forward now hdr payload (s.processAck hdr)
            rw [processAck_input] at order returned stays noted
            rw [noteFin]
            split
            · rename_i isFin
              exact ⟨order, returned, fun _ => rfl, fun _ => .inr isFin⟩
            · exact ⟨order, returned, stays, fun here => .inl ((noted here).resolve_right id)⟩
          · rw [processAck_input]
            exact still

theorem handleDatagram_forward (now : UInt64) (g : UtpDatagram) (s : UtpStream) :
    Forward g.isFin s.input (s.handleDatagram now g.bytes).input := by
  rw [handleDatagram]
  split
  · exact ⟨le_rfl, rfl, id, .inl⟩
  · rename_i hdr decoded
    split
    · obtain ⟨order, returned, stays, noted⟩ := handlePacket_forward now hdr (g.bytes.drop utpHeaderSize) s
      exact ⟨order, returned, stays, fun here => (noted here).imp_right fun isFin => ⟨hdr, decoded, isFin⟩⟩
    · exact ⟨le_rfl, rfl, id, .inl⟩

end UtpStream

/-- One direction of a connection: the FIN comes last, and a receiver that has
noted it has taken every packet before it. -/
structure Ending (sender : UtpOutput) (receiver : UtpInput) : Prop where
  last : FinLast sender
  taken : receiver.finReceived = true → (∃ g ∈ sender.wire, g.isFin) ∧ sender.handed.length ≤ receiver.inOrder + 1

namespace Ending

variable {first : UInt16} {sender : UtpOutput} {receiver : UtpInput}

variable (ending : Ending sender receiver)
include ending

theorem sends {data : Bool} {later : UtpOutput} (out : Outgoing first sender)
    (change : Progress first data sender later) : Ending later receiver := by
  refine ⟨ending.last.progress out change, fun noted => ?_⟩
  obtain ⟨⟨g, member, isFin⟩, reached⟩ := ending.taken noted
  have unlinked : sender.linked = false :=
    Bool.eq_false_iff.mpr fun linked => (ending.last.before linked).1 g member isFin
  obtain ⟨_, handed, wire⟩ := change.frozen unlinked
  rw [handed, wire]
  exact ⟨⟨g, member, isFin⟩, reached⟩

theorem reads (returned : Bytes) :
    Ending sender { receiver with returned := returned } := ⟨ending.last, ending.taken⟩

theorem arrives {g : UtpDatagram} {later : UtpInput} (sent : g ∈ sender.wire)
    (forward : Forward g.isFin receiver later) (prompt : g.isFin → ∀ k ∈ g.serial, k ≤ receiver.inOrder) :
    Ending sender later := by
  refine ⟨ending.last, fun noted => ?_⟩
  have order := forward.order
  rcases forward.noted noted with before | isFin
  · obtain ⟨fin, reached⟩ := ending.taken before
    exact ⟨fin, by omega⟩
  · obtain ⟨k, serial, length, _⟩ := ending.last.last g sent isFin
    have := prompt isFin k serial
    exact ⟨⟨g, sent, isFin⟩, by omega⟩

theorem appended_all {ahead : Nat}
    (receipts : Receipts ahead first sender.handed receiver) (noted : receiver.finReceived = true) :
    receiver.appended = sender.handed.flatten := by
  obtain ⟨⟨g, member, isFin⟩, reached⟩ := ending.taken noted
  rw [receipts.bytes]
  exact ending.last.flatten_take member isFin reached

omit ending

end Ending

namespace UtpWorld

variable {w : UtpWorld} {event : UtpEvent} {e : UtpEnd}

/-- A FIN arrives only when every packet before it has been taken. -/
def Prompt (w : UtpWorld) : UtpWorldEvent → Prop
  | .toServer _ index => ∀ srv ∈ w.server, ∀ g ∈ w.client.stream.wire[index]?,
      g.isFin → ∀ k ∈ g.serial, k ≤ srv.stream.inOrder
  | .toClient _ index => ∀ srv ∈ w.server, ∀ g ∈ srv.stream.wire[index]?,
      g.isFin → ∀ k ∈ g.serial, k ≤ w.client.stream.inOrder
  | _ => True

instance (w : UtpWorld) : DecidablePred w.Prompt
  | .client _ | .server _ => isTrue trivial
  | .toServer _ index => inferInstanceAs (Decidable (∀ srv ∈ w.server, ∀ g ∈ w.client.stream.wire[index]?, _))
  | .toClient _ index => inferInstanceAs (Decidable (∀ srv ∈ w.server, ∀ g ∈ srv.stream.wire[index]?, _))

structure Ended (w : UtpWorld) : Prop extends Inv w where
  clientLast : FinLast w.client.stream.output
  endings : ∀ srv ∈ w.server, Ending w.client.stream.output srv.stream.input ∧
    Ending srv.stream.output w.client.stream.input

theorem Ended.start (start : system.start w) : w.Ended := by
  have inv := Inv.start start
  refine { inv with clientLast := FinLast.fresh inv.client.1.2 ?_ ?_, endings := ?_ }
  all_goals obtain ⟨now, connId, synSeq, _, _, rfl⟩ := start
  · simp [UtpEnd.connecting, connect, sendPacket, buildPacket, rawSend,
      output]
  · simp [UtpEnd.connecting, connect, sendPacket, buildPacket, rawSend,
      output]
  · exact fun srv here => by simp at here

theorem Ended.client_step (ended : w.Ended) (stepped : w.client.step event = some e) (inv : Inv { w with client := e })
    (received : ∀ srv ∈ w.server, Ending srv.stream.output e.stream.input) : Ended { w with client := e } := by
  obtain ⟨_, _, change⟩ := ended.client.1.step stepped
  refine { inv with clientLast := ended.clientLast.progress ended.client.1.2 change, endings := fun srv here => ?_ }
  exact ⟨(ended.endings srv here).1.sends ended.client.1.2 change, received srv here⟩

theorem Ended.server_step {srv : UtpEnd} (ended : w.Ended)
    (here : w.server = some srv) (stepped : srv.step event = some e) (inv : Inv { w with server := some e })
    (received : Ending w.client.stream.output e.stream.input) : Ended { w with server := some e } := by
  have good := (ended.server srv here).1.1
  obtain ⟨_, _, change⟩ := good.step stepped
  refine { inv with clientLast := ended.clientLast, endings := fun other same => ?_ }
  cases same
  exact ⟨received, (ended.endings srv here).2.sends good.2 change⟩

theorem pumpDatagram_cases (now : UInt64) (buf : Bytes) (w : UtpWorld) :
    w.pumpDatagram now buf = w ∨
      ∃ connId seqNr, w.pumpDatagram now buf = { w with server := some (.accepting now connId seqNr) } := by
  rw [UtpWorld.pumpDatagram]
  split
  · exact .inl rfl
  · split
    · exact .inr ⟨_, _, rfl⟩
    · exact .inl rfl

theorem Ended.pumpDatagram (now : UInt64) {buf : Bytes} (ended : w.Ended) (absent : w.server = none)
    (inv : (w.pumpDatagram now buf).Inv) : (w.pumpDatagram now buf).Ended := by
  obtain ⟨returned, input⟩ := ended.alone absent
  rcases pumpDatagram_cases now buf w with same | ⟨connId, seqNr, made⟩
  · rw [same]
    exact ended
  · rw [made] at inv ⊢
    refine { inv with clientLast := ended.clientLast, endings := fun srv here => ?_ }
    cases here
    have sound := UtpEnd.accepting_sound now connId seqNr
    refine ⟨⟨ended.clientLast, fun noted => Bool.noConfusion noted⟩, FinLast.fresh sound.2 rfl rfl, fun noted => ?_⟩
    rw [show UtpStream.input _ = _ from input] at noted
    cases noted

theorem Ended.step {t : UtpWorld} {event : UtpWorldEvent} (ended : w.Ended) (orderly : w.Orderly event)
    (prompt : w.Prompt event) (bounded : w.Bounded) (stepped : w.step event = some t) : t.Ended := by
  have inv := ended.toInv.step orderly bounded stepped
  cases step_cases stepped with
  | client own moved =>
    refine ended.client_step moved inv fun srv here => ?_
    rw [UtpEnd.own_input moved own]
    exact (ended.endings srv here).2.reads _
  | @server _ srv _ own here moved =>
    refine ended.server_step here moved inv ?_
    rw [UtpEnd.own_input moved own]
    exact (ended.endings srv here).1.reads _
  | @accept now _ _ _ absent => exact ended.pumpDatagram now absent inv
  | @toServer now _ g srv _ sent here moved =>
    refine ended.server_step here moved inv ?_
    obtain ⟨_, rfl⟩ := ite_some_none_eq_some.mp moved
    exact (ended.endings srv here).1.arrives (mem_of_getElem? sent) (handleDatagram_forward now g srv.stream)
      (prompt srv here g sent)
  | @toClient now _ g srv _ here sent moved =>
    refine ended.client_step moved inv fun other same => ?_
    obtain rfl : srv = other := some.inj (here.symm.trans same)
    obtain ⟨_, rfl⟩ := ite_some_none_eq_some.mp moved
    exact (ended.endings srv here).2.arrives (mem_of_getElem? sent) (handleDatagram_forward now g w.client.stream)
      (prompt srv here g sent)

end UtpWorld

inductive UtpSide
  | client
  | server
deriving DecidableEq

def UtpSide.other : UtpSide → UtpSide
  | .client => .server
  | .server => .client

def UtpWorldEvent.reads : UtpWorldEvent → UtpSide → Bool
  | .client (.recv _ _), .client => true
  | .server (.recv _ _), .server => true
  | _, _ => false

namespace UtpEnd

theorem step_returned {e t : UtpEnd} {event : UtpEvent} (stepped : e.step event = some t)
    (quiet : ∀ size all, event ≠ .recv size all) :
    t.stream.returned = e.stream.returned ∧ (e.stream.finReceived = true → t.stream.finReceived = true) := by
  by_cases own : ∀ now buf, event ≠ .datagram now buf
  · have same := step_input stepped own quiet
    have noted : t.stream.finReceived = e.stream.finReceived := congrArg UtpInput.finReceived same
    exact ⟨congrArg UtpInput.returned same, fun before => noted.trans before⟩
  · push Not at own
    obtain ⟨now, buf, rfl⟩ := own
    obtain ⟨_, rfl⟩ := ite_some_none_eq_some.mp stepped
    have forward := handleDatagram_forward now ⟨none, buf⟩ e.stream
    exact ⟨forward.returned, forward.stays⟩

end UtpEnd

namespace UtpWorld

def ends (w : UtpWorld) : UtpSide → Option UtpEnd
  | .client => some w.client
  | .server => w.server

theorem step_end {w t : UtpWorld} {event : UtpWorldEvent} {side : UtpSide} {e : UtpEnd}
    (stepped : w.step event = some t)
    (here : w.ends side = some e) : ∃ e', t.ends side = some e' ∧ (e' = e ∨ ∃ own, e.step own = some e' ∧
      (event.reads side = false → ∀ size all, own ≠ .recv size all)) := by
  have served : ∀ srv, w.server = some srv → w.ends .server = some e → srv = e :=
    fun srv present here => some.inj (present.symm.trans here)
  cases step_cases stepped with
  | @client event c _ moved =>
    cases side with
    | client =>
      obtain rfl := some.inj here
      refine ⟨c, rfl, .inr ⟨event, moved, ?_⟩⟩
      rintro quiet size all rfl
      cases quiet
    | server => exact ⟨e, here, .inl rfl⟩
  | @server event srv c _ present moved =>
    cases side with
    | client => exact ⟨e, here, .inl rfl⟩
    | server =>
      obtain rfl := served srv present here
      refine ⟨c, rfl, .inr ⟨event, moved, ?_⟩⟩
      rintro quiet size all rfl
      cases quiet
  | @accept now _ g _ absent =>
    cases side with
    | client =>
      refine ⟨e, ?_, .inl rfl⟩
      rcases pumpDatagram_cases now g.bytes w with same | ⟨connId, seqNr, made⟩
      · rw [same]
        exact here
      · rw [made]
        exact here
    | server => exact absurd (absent.symm.trans here) (by simp)
  | @toServer _ _ _ srv c _ present moved =>
    cases side with
    | client => exact ⟨e, here, .inl rfl⟩
    | server =>
      obtain rfl := served srv present here
      exact ⟨c, rfl, .inr ⟨_, moved, fun _ _ _ => by simp⟩⟩
  | @toClient _ _ _ _ c _ _ moved =>
    cases side with
    | client =>
      obtain rfl := some.inj here
      exact ⟨c, rfl, .inr ⟨_, moved, fun _ _ _ => by simp⟩⟩
    | server => exact ⟨e, here, .inl rfl⟩

/-- Arrivals upset no numbers, a FIN comes after the packets before it, and few
packets are outstanding. -/
def Guarded (w : UtpWorld) (event : UtpWorldEvent) : Prop := w.Orderly event ∧ w.Prompt event ∧ w.Bounded

instance (w : UtpWorld) : DecidablePred w.Guarded := fun _ => inferInstanceAs (Decidable (_ ∧ _ ∧ _))

/-- A recv for all of a number of bytes returns sooner or later, when no other recv
takes bytes away. -/
def Returns (w : UtpWorld) (side : UtpSide) (size : Nat) : Prop :=
  ∃ later t receiver, Run (.ofStep (· = w) step) later t ∧
    (∀ entry ∈ later, entry.1.Guarded entry.2 ∧ entry.2.reads side = false) ∧ t.ends side = some receiver ∧
    (receiver.stream.recv size true).isSome

/-- A recv of at least one byte returns 0 only when every byte queued before the FIN of
the peer has been returned. -/
def EndsLast (w : UtpWorld) : Prop :=
  ∀ side receiver, w.ends side = some receiver → ∀ size all s, 0 < size →
    receiver.stream.recv size all = some (0, s) → ∃ sender, w.ends side.other = some sender ∧
      (∃ g ∈ sender.stream.wire, g.isFin) ∧ ∀ g ∈ sender.stream.wire, g.isFin → ∀ k ∈ g.serial,
        (sender.stream.queued.take k).flatten <+: receiver.stream.returned

section Ended

variable {w : UtpWorld} {side : UtpSide} {receiver : UtpEnd}
variable {t : UtpWorld}

theorem Ended.peer (ended : w.Ended) (here : w.ends side = some receiver)
    (noted : receiver.stream.finReceived = true) : ∃ sender, w.ends side.other = some sender ∧ sender.Sound ∧
      Ending sender.stream.output receiver.stream.input ∧
      receiver.stream.appended = sender.stream.handed.flatten := by
  cases side with
  | client =>
    obtain rfl := some.inj here
    cases present : w.server with
    | none =>
      obtain ⟨returned, input⟩ := ended.alone present
      have idle : w.client.stream.finReceived = false := congrArg UtpInput.finReceived input
      rw [noted] at idle
      cases idle
    | some srv =>
      have ending := (ended.endings srv present).2
      obtain ⟨good, _, _, receipts⟩ := ended.server srv present
      exact ⟨srv, present, good.1, ending, ending.appended_all receipts noted⟩
  | server =>
    have ending := (ended.endings receiver here).1
    obtain ⟨_, _, receipts, _⟩ := ended.server receiver here
    exact ⟨w.client, rfl, ended.client.1, ending, ending.appended_all receipts noted⟩

theorem Ended.endsLast (ended : w.Ended) : w.EndsLast := by
  intro side receiver here size all s positive zero
  have drained : receiver.stream.finReceived = true ∧ receiver.stream.receivingBuffer = [] := by
    rw [recv] at zero
    split at zero
    · assumption
    · split at zero
      · cases zero
      · split at zero
        · rename_i ready
          have empty := congrArg Prod.fst (some.inj zero)
          have some := length_pos_of_ne_nil ready.1
          simp only at empty
          omega
        · cases zero
  obtain ⟨sender, peer, sound, ending, appended⟩ := ended.peer here drained.1
  refine ⟨sender, peer, (ending.taken drained.1).1, fun g member isFin k serial => ?_⟩
  obtain ⟨last, same, length, _⟩ := ending.last.last g member isFin
  obtain rfl : k = last := some.inj (serial.symm.trans same)
  have returned : receiver.stream.returned = sender.stream.handed.flatten := by
    rw [← appended, UtpStream.appended, drained.2, append_nil]
  obtain ⟨more, whole⟩ := sound.2.part
  have before : sender.stream.queued.take k = sender.stream.handed.take k := by
    rw [show sender.stream.queued = _ from whole.symm]
    exact take_append_of_le_length (by
      rw [show sender.stream.output.handed.length = _ from length]
      omega)
  rw [returned, before]
  exact (List.take_prefix _ _).flatten

/-- The sender is closed and its log fixed, and nothing has been returned since. -/
def Frozen (side : UtpSide) (handed : List Bytes) (returned : Bytes) (u : UtpWorld) : Prop :=
  u.Ended ∧ ∃ writer reader, u.ends side.other = some writer ∧ writer.Sound ∧
    writer.stream.output.linked = false ∧ writer.stream.handed = handed ∧ u.ends side = some reader ∧
    reader.stream.finReceived = true ∧ reader.stream.returned = returned

theorem Frozen.step {u v : UtpWorld} {event : UtpWorldEvent} {handed : List Bytes} {returned : Bytes}
    (frozen : Frozen side handed returned u) (guard : u.Guarded event) (quiet : event.reads side = false)
    (stepped : u.step event = some v) : Frozen side handed returned v := by
  obtain ⟨ended, writer, reader, peer, sound, unlinked, log, here, noted, before⟩ := frozen
  have later := ended.step guard.1 guard.2.1 guard.2.2 stepped
  obtain ⟨writer', peer', moved⟩ := step_end stepped peer
  obtain ⟨reader', here', read⟩ := step_end stepped here
  have sender : writer'.Sound ∧ writer'.stream.output.linked = false ∧ writer'.stream.handed = handed := by
    rcases moved with rfl | ⟨own, moved, _⟩
    · exact ⟨sound, unlinked, log⟩
    · obtain ⟨sound', _, change⟩ := sound.step moved
      obtain ⟨unlinked', log', _⟩ := change.frozen unlinked
      exact ⟨sound', unlinked', Eq.trans log' log⟩
  have receiver : reader'.stream.finReceived = true ∧ reader'.stream.returned = returned := by
    rcases read with rfl | ⟨own, read, others⟩
    · exact ⟨noted, before⟩
    · obtain ⟨same, stays⟩ := UtpEnd.step_returned read (others quiet)
      exact ⟨stays noted, same.trans before⟩
  exact ⟨later, writer', reader', peer', sender.1, sender.2.1, sender.2.2, here', receiver.1, receiver.2⟩

theorem Ended.buffer_stays {later : List (UtpWorld × UtpWorldEvent)} (ended : w.Ended)
    (here : w.ends side = some receiver) (noted : receiver.stream.finReceived = true)
    (run : Run (.ofStep (· = w) UtpWorld.step) later t)
    (guarded : ∀ entry ∈ later, entry.1.Guarded entry.2 ∧ entry.2.reads side = false) :
    ∃ reader, t.ends side = some reader ∧ reader.stream.finReceived = true ∧
      reader.stream.receivingBuffer = receiver.stream.receivingBuffer := by
  obtain ⟨sender, peer, sound, ending, appended⟩ := ended.peer here noted
  obtain ⟨g, member, isFin⟩ := (ending.taken noted).1
  have unlinked : sender.stream.output.linked = false :=
    Bool.eq_false_iff.mpr fun linked => (ending.last.before linked).1 g member isFin
  have frozen : Frozen side sender.stream.handed receiver.stream.returned t := by
    refine run.invariant_of_guard (fun u event => u.Guarded event ∧ event.reads side = false) guarded ?_ ?_
    · rintro u rfl
      exact ⟨ended, sender, receiver, peer, sound, unlinked, rfl, here, noted, rfl⟩
    · intro u event v frozenU guard stepped
      exact frozenU.step guard.1 guard.2 stepped
  obtain ⟨endedT, writer, reader, peerT, _, _, handed, hereT, notedT, returnedT⟩ := frozen
  refine ⟨reader, hereT, notedT, ?_⟩
  obtain ⟨other, peerO, _, _, appendedT⟩ := endedT.peer hereT notedT
  obtain rfl : writer = other := some.inj (peerT.symm.trans peerO)
  rw [handed, ← appended, UtpStream.appended, UtpStream.appended, returnedT] at appendedT
  exact append_cancel_left appendedT

theorem Ended.returns_iff (ended : w.Ended) (here : w.ends side = some receiver)
    (noted : receiver.stream.finReceived = true) {size : Nat} (more : receiver.stream.receivingBuffer.length < size) :
    w.Returns side size ↔ receiver.stream.receivingBuffer = [] := by
  constructor
  · rintro ⟨later, t, last, run, guarded, there, returned⟩
    obtain ⟨reader, hereT, notedT, buffer⟩ := ended.buffer_stays here noted run guarded
    obtain rfl : reader = last := some.inj (hereT.symm.trans there)
    by_contra left
    rw [← buffer] at left more
    rw [recv, if_neg (by simp [left]), if_neg (by simp [notedT, left]),
      if_neg (by simp only [reduceCtorEq, false_or]; omega)] at returned
    cases returned
  · intro empty
    refine ⟨[], w, receiver, .start rfl, by simp, here, ?_⟩
    rw [recv, if_pos ⟨noted, empty⟩]
    rfl

theorem Ended.of_run {history : List (UtpWorld × UtpWorldEvent)} (run : Run system history t)
    (guarded : ∀ entry ∈ history, entry.1.Guarded entry.2) (visited : Visited history t w) : w.Ended :=
  run.visited_of_guard Guarded guarded (fun _ start => Ended.start start)
    (fun _ _ _ ended guard stepped => ended.step guard.1 guard.2.1 guard.2.2 stepped) visited

end Ended

/-- When arrivals upset no numbers and a FIN comes after all the packets before it, a recv
of some bytes returns 0 only at the end; and with the FIN noted, a recv for more bytes than
remain returns exactly when none remain. -/
theorem endOfStream_of_guarded {history : List (UtpWorld × UtpWorldEvent)} {t : UtpWorld} (run : Run system history t)
    (guarded : ∀ entry ∈ history, entry.1.Guarded entry.2) :
    ∀ w, Visited history t w → w.EndsLast ∧
      ∀ side receiver, w.ends side = some receiver → receiver.stream.finReceived = true →
        ∀ size, receiver.stream.receivingBuffer.length < size →
          (w.Returns side size ↔ receiver.stream.receivingBuffer = []) := by
  intro w visited
  have ended := Ended.of_run run guarded visited
  exact ⟨ended.endsLast, fun side receiver here noted size more => ended.returns_iff here noted more⟩

/-- The handshake, then a byte and the FIN of the client, in order. -/
def closing : List UtpWorldEvent :=
  [.toServer 0 0, .toClient 0 0, .client (.startSend [65] true), .client (.runSend 0 0 2), .client (.close 0 false),
    .toServer 0 1, .toServer 0 2]

theorem endOfStream_of_guarded_closing :
    ∃ history t receiver, Run system history t ∧ t.ends .server = some receiver ∧
      receiver.stream.receivingBuffer = [65] ∧ (t.EndsLast ∧
        ∀ side receiver, t.ends side = some receiver → receiver.stream.finReceived = true →
          ∀ size, receiver.stream.receivingBuffer.length < size →
            (t.Returns side size ↔ receiver.stream.receivingBuffer = [])) := by
  obtain ⟨history, t, run, _, guarded, ⟨receiver, here, buffer⟩⟩ :=
    Run.of_exec_guarded system (fun w event => w.Guarded event) rfl closing
      ⟨0, 7, 100, by decide, by decide, rfl⟩
      (fun t => ∃ receiver ∈ t.server, receiver.stream.receivingBuffer = [65]) (by decide +kernel)
  exact ⟨history, t, receiver, run, here, buffer, endOfStream_of_guarded run
    (fun entry member => of_decide_eq_true (guarded entry member)) t (.inl rfl)⟩

/-- A FIN that overtakes the byte before it makes recv return 0 too early; and with all of
it received in order, a recv for two bytes where one remains waits for ever. -/
theorem endOfStream_broken :
    (∃ history t, Run system history t ∧ (∀ w, Visited history t w → w.Bounded) ∧
      (∃ receiver ∈ t.server, receiver.stream.returned = [] ∧ (receiver.stream.recv 10 false).map Prod.fst = some 0) ∧
      t.client.passed = [65] ∧ ¬ t.EndsLast) ∧
    ∃ history t receiver, Run system history t ∧ (∀ entry ∈ history, entry.1.Guarded entry.2) ∧
      t.ends .server = some receiver ∧ receiver.stream.finReceived = true ∧
      receiver.stream.appended = t.client.passed ∧ receiver.stream.receivingBuffer.length < 2 ∧
      ¬ t.Returns .server 2 := by
  constructor
  · obtain ⟨history, t, run, _, guarded, ⟨last, passed, receiver, here, returned, zero, fin⟩⟩ :=
      Run.of_exec_guarded system (fun w _ => w.Bounded) rfl
        (closing.take 5 ++ [.toServer 0 2]) ⟨0, 7, 100, by decide, by decide, rfl⟩
        (fun t => t.Bounded ∧ t.client.passed = [65] ∧ ∃ receiver ∈ t.server, receiver.stream.returned = [] ∧
          (receiver.stream.recv 10 false).map Prod.fst = some 0 ∧
          ∃ g ∈ t.client.stream.wire, g.isFin ∧ g.serial = some 1 ∧ t.client.stream.queued = [[65], []])
        (by decide +kernel)
    refine ⟨history, t, run, ?_, ⟨receiver, here, returned, zero⟩, passed, fun endsLast => ?_⟩
    · rintro w (rfl | ⟨event, member⟩)
      · exact last
      · exact of_decide_eq_true (guarded _ member)
    · obtain ⟨⟨value, s⟩, received, rfl⟩ := map_eq_some_iff.mp zero
      obtain ⟨g, member, isFin, serial, queued⟩ := fin
      obtain ⟨sender, peer, _, all⟩ := endsLast .server receiver here 10 false s (by decide) received
      obtain rfl : t.client = sender := some.inj peer
      have early := all g member isFin 1 serial
      rw [returned, queued] at early
      exact absurd early (by decide)
  · obtain ⟨history, t, run, _, guarded, ⟨receiver, here, noted, appended, buffer⟩⟩ :=
      Run.of_exec_guarded system (fun w event => w.Guarded event) rfl closing
        ⟨0, 7, 100, by decide, by decide, rfl⟩
        (fun t => ∃ receiver ∈ t.server, receiver.stream.finReceived = true ∧
          receiver.stream.appended = t.client.passed ∧ receiver.stream.receivingBuffer = [65]) (by decide +kernel)
    have guarded : ∀ entry ∈ history, entry.1.Guarded entry.2 := fun entry member =>
      of_decide_eq_true (guarded entry member)
    have ended : t.Ended := Ended.of_run run guarded (.inl rfl)
    have short : receiver.stream.receivingBuffer.length < 2 := by
      rw [buffer]
      decide
    refine ⟨history, t, receiver, run, guarded, here, noted, appended, short, fun returns => ?_⟩
    have present : t.ends .server = some receiver := here
    have empty := (ended.returns_iff present noted short).mp returns
    rw [buffer] at empty
    cases empty

end UtpWorld

end Qtng.Utp
