import Qtng.Channel.Gate

namespace Qtng

open BigEndian Transition Function List Bool

namespace ChannelWorld

def orderly (s : ChannelWorld) : ChannelEvent → Bool
  | .act side action => (s.ends side).orderly action
  | _ => true

/-- A gate is open once the commands that are underway have arrived, unless the other
end has asked to slow down. -/
structure Flowing (s : ChannelWorld) : Prop where
  sane : ∀ side, (s.ends side).Sane
  present : ∀ side, ∀ p ∈ s.wire side, p.packet ≠ []
  makes : ∀ side, ∀ c ∈ commands (s.wire side), c ≠ .makeChannel commandChannelNumber
  gates : ∀ side, (s.ends side).pluggedChannel = false → (s.ends (!side)).slowDownRequested = false →
    settle (s.ends side).goThrough (commands (s.inFlight (!side))) = true

theorem Starts.flowing {s : ChannelWorld} (starts : s.Starts) : s.Flowing := by
  obtain ⟨capacity, maxPayloadSize, room, rfl⟩ := starts
  refine ⟨fun side => ⟨⟨⟨?_, ?_, ?_⟩, room side, ?_, ?_, ?_, ?_⟩, ?_⟩, ?_, ?_, ?_⟩
  all_goals simp [SocketChannelPrivate.new, SizedQueueType.new, inFlight]

theorem Flowing.moves {s : ChannelWorld} (flowing : s.Flowing) {side : Bool} {d : SocketChannelPrivate}
    {heard : List ChannelCommand} {rest : List WritingPacket}
    (moves : SocketChannelPrivate.Moves heard (s.ends side) d)
    (read : commands (s.wire (!side)) = heard ++ commands rest)
    (left : ∀ p ∈ rest, p ∈ s.wire (!side)) :
    Flowing ⟨update s.ends side d, update s.wire (!side) rest⟩ := by
  have other : side ≠ !side := (Bool.not_ne_self side).symm
  refine ⟨?_, ?_, ?_, ?_⟩
  · exact (forall_update_iff s.ends fun _ e => e.Sane).mpr ⟨moves.sane, fun other _ => flowing.sane other⟩
  · exact (forall_update_iff s.wire fun _ frames => ∀ p ∈ frames, p.packet ≠ []).mpr
      ⟨fun p member => flowing.present _ p (left p member), fun other _ => flowing.present other⟩
  · refine (forall_update_iff s.wire fun _ frames => ∀ c ∈ commands frames, c ≠ .makeChannel _).mpr
      ⟨fun c member => ?_, fun other _ => flowing.makes other⟩
    exact flowing.makes (!side) c (read ▸ List.mem_append_right _ member)
  · intro gated free slow
    by_cases here : gated = side
    · -- the end that has moved is the one whose gate is asked for
      subst here
      simp only [inFlight, update_self, update_of_ne other.symm] at free slow ⊢
      obtain ⟨before, gate⟩ := moves.gate free
      have opened := flowing.gates gated before slow
      rw [inFlight, commands_append, read] at opened
      rw [gate, commands_append, ← settle_append, ← List.append_assoc]
      exact opened
    · have there : side = !gated := by
        rw [Bool.eq_not.mpr (Ne.symm here)]
      subst there
      rw [Bool.not_not] at read other
      simp only [inFlight, update_self, update_of_ne here, Bool.not_not,
        update_of_ne other] at free slow ⊢
      rw [commands_append, settle_append]
      refine moves.releases _ (fun calm => ?_) slow
      have opened := flowing.gates gated free calm
      rwa [inFlight, commands_append, settle_append] at opened

theorem Flowing.sent {s : ChannelWorld} (flowing : s.Flowing) {side : Bool} {sent left : List WritingPacket}
    (queued : (s.ends side).sendingQueue = sent ++ left) :
    Flowing ⟨update s.ends side { s.ends side with sendingQueue := left },
      update s.wire side (s.wire side ++ sent)⟩ := by
  have sane := flowing.sane side
  have whole : commands (s.ends side).sendingQueue = commands sent ++ commands left := by
    rw [queued, commands_append]
  have same : ∀ other, inFlight ⟨update s.ends side { s.ends side with sendingQueue := left },
      update s.wire side (s.wire side ++ sent)⟩ other = s.inFlight other := by
    intro other
    by_cases here : other = side
    · subst here
      simp [inFlight, queued]
    · simp only [inFlight, update_of_ne here]
  refine ⟨?_, ?_, ?_, ?_⟩
  · refine (forall_update_iff s.ends fun _ e => e.Sane).mpr
      ⟨⟨⟨⟨sane.numbered, ?_, ?_⟩, sane.room, sane.stored, sane.held, sane.size, sane.through⟩, sane.busy⟩,
        fun other _ => flowing.sane other⟩
    · intro p member
      exact sane.queued p (queued ▸ mem_append_right _ member)
    · intro c member
      exact sane.makes c (whole ▸ mem_append_right _ member)
  · refine (forall_update_iff s.wire fun _ frames => ∀ p ∈ frames, p.packet ≠ []).mpr
      ⟨fun p member => ?_, fun other _ => flowing.present other⟩
    rcases mem_append.mp member with old | new
    · exact flowing.present side p old
    · exact sane.queued p (queued ▸ mem_append_left _ new)
  · refine (forall_update_iff s.wire fun _ frames => ∀ c ∈ commands frames, c ≠ .makeChannel _).mpr
      ⟨fun c member => ?_, fun other _ => flowing.makes other⟩
    rw [commands_append] at member
    rcases mem_append.mp member with old | new
    · exact flowing.makes side c old
    · exact sane.makes c (whole ▸ mem_append_left _ new)
  · have plugged : ∀ other, (update s.ends side { s.ends side with sendingQueue := left } other).pluggedChannel =
        (s.ends other).pluggedChannel :=
      (forall_update_iff s.ends fun other e => e.pluggedChannel = (s.ends other).pluggedChannel).mpr
        ⟨rfl, fun _ _ => rfl⟩
    have slow : ∀ other, (update s.ends side { s.ends side with sendingQueue := left } other).slowDownRequested =
        (s.ends other).slowDownRequested :=
      (forall_update_iff s.ends fun other e => e.slowDownRequested = (s.ends other).slowDownRequested).mpr
        ⟨rfl, fun _ _ => rfl⟩
    have gate : ∀ other, (update s.ends side { s.ends side with sendingQueue := left } other).goThrough =
        (s.ends other).goThrough :=
      (forall_update_iff s.ends fun other e => e.goThrough = (s.ends other).goThrough).mpr
        ⟨rfl, fun _ _ => rfl⟩
    intro other free calm
    rw [same]
    simp only [plugged, slow, gate] at free calm ⊢
    exact flowing.gates other free calm

theorem Flowing.step {s t : ChannelWorld} {e : ChannelEvent}
    (flowing : (∀ side, (s.ends side).error = none) → s.Flowing)
    (orderly : s.orderly e = true) (stepped : s.step e = some t) (connected : ∀ side, (t.ends side).error = none) :
    t.Flowing := by
  rcases step_cases stepped with ⟨side, action, d, rfl, performed, rfl⟩ | ⟨side, sent, left, rfl, queued, rfl⟩ |
    ⟨side, frame, rest, rfl, arrived, alive, free, rfl⟩
  · have before : ∀ side, (s.ends side).error = none := by
      obtain ⟨here, there⟩ := (forall_update_iff s.ends fun _ e => e.error = none).mp connected
      intro other
      by_cases same : other = side
      · rw [same, ← SocketChannelPrivate.perform_error performed]
        exact here
      · exact there other same
    have moves := ((flowing before).sane side).act (before side) performed orderly
    have result : Flowing ⟨update s.ends side d, update s.wire (!side) (s.wire (!side))⟩ :=
      (flowing before).moves moves rfl fun _ member => member
    rwa [update_eq_self] at result
  · have before : ∀ side, (s.ends side).error = none := by
      obtain ⟨here, there⟩ := (forall_update_iff s.ends fun _ e => e.error = none).mp connected
      intro other
      by_cases same : other = side
      · rw [same]
        exact here
      · exact there other same
    exact (flowing before).sent queued
  · obtain ⟨here, there⟩ := (forall_update_iff s.ends fun _ e => e.error = none).mp connected
    have before : ∀ side, (s.ends side).error = none := by
      intro other
      by_cases same : other = side
      · rw [same]
        exact alive
      · exact there other same
    have flows := flowing before
    have present : frame.packet ≠ [] := flows.present (!side) frame (by simp [arrived])
    have read := commands_cons frame rest
    rw [← arrived] at read
    have makes : ∀ c ∈ commandOf frame, c ≠ .makeChannel commandChannelNumber := fun c member =>
      flows.makes (!side) c (read ▸ mem_append_left _ (Option.mem_toList.mpr member))
    refine flows.moves ((flows.sane side).receive alive free present makes here) read ?_
    intro p member
    exact arrived ▸ mem_cons_of_mem frame member

end ChannelWorld

/-- Flow control leaves no sender shut out: with nothing underway, whoever has an empty
queue has the gate of its peer open. -/
theorem flowControl_reopens {history : List (ChannelWorld × ChannelEvent)} {s : ChannelWorld}
    (run : Run channelSystem history s) (orderly : ∀ entry ∈ history, entry.1.orderly entry.2 = true)
    (connected : ∀ side, (s.ends side).error = none)
    (quiet : ∀ side, s.inFlight side = [] ∧ (s.ends side).arriving = none) (sender : Bool)
    (empty : (s.ends (!sender)).receivingQueue.queue = []) : (s.ends sender).goThrough = true := by
  have initial : ∀ s, channelSystem.start s → (∀ side, (s.ends side).error = none) → s.Flowing := fun _ starts _ =>
    ChannelWorld.Starts.flowing starts
  have flowing := run.invariant_of_guard (fun s e => s.orderly e = true) orderly initial
    (fun s e t inv met stepped => ChannelWorld.Flowing.step inv met stepped) connected
  have calm : (s.ends (!sender)).slowDownRequested = false := by
    by_contra slow
    rcases (flowing.sane (!sender)).busy (not_eq_false _ ▸ slow) with stored | held
    · exact stored empty
    · exact held (quiet (!sender)).2
  by_cases plugged : (s.ends sender).pluggedChannel = true
  · exact (flowing.sane sender).through plugged
  · have settled := flowing.gates sender (not_eq_true _ ▸ plugged) calm
    rwa [(quiet (!sender)).1, commands_nil, settle_nil] at settled

/-- A receiving queue of four bytes fills up: the second packet finds three bytes in it and
the sender is told to slow down. -/
def fillUp : List ChannelEvent :=
  [.act false (.sendPacketAsync [1, 2, 3]), .act false (.sendPacketAsync [4]), .doSend false, .doReceive true,
    .doReceive true, .doSend true, .doReceive false]

def smallChannels : ChannelWorld :=
  ⟨fun side => .new (if side then .negativePole else .positivePole) 4 65528, fun _ => []⟩

theorem smallChannels_start : channelSystem.start smallChannels :=
  ⟨fun _ => 4, fun _ => 65528, by decide, rfl⟩

/-- The receiver takes the packets out and hands the channel to exchange afterwards. -/
def exchangeAfterTaking : List ChannelEvent :=
  fillUp ++ [.act true .recvPacket, .act true .recvPacket, .doSend true, .doReceive false, .act true .exchange]

/-- The receiver hands the channel to exchange, which takes the packets out without
GO_THROUGH. -/
def exchangeAtOnce : List ChannelEvent := fillUp ++ [.act true .exchange]

theorem flowControl_reopens_taken :
    ∃ history s, Run channelSystem history s ∧
      history.map Prod.snd = exchangeAfterTaking.reverse ∧ (s.ends false).goThrough = true := by
  obtain ⟨history, s, run, labels, orderly, connected, quiet, empty⟩ :=
    Run.of_exec_guarded channelSystem ChannelWorld.orderly rfl
      exchangeAfterTaking smallChannels_start
      (fun s : ChannelWorld => (∀ side, (s.ends side).error = none) ∧
        (∀ side, s.inFlight side = [] ∧ (s.ends side).arriving = none) ∧ (s.ends true).receivingQueue.queue = [])
      (by decide +kernel)
  exact ⟨history, s, run, labels, flowControl_reopens run orderly connected quiet false empty⟩

theorem flowControl_shut_exchange :
    ∃ history s, Run channelSystem history s ∧ history.map Prod.snd = exchangeAtOnce.reverse ∧
      (∀ side, (s.ends side).error = none) ∧ (∀ side, s.inFlight side = [] ∧ (s.ends side).arriving = none) ∧
      (s.ends true).receivingQueue.queue = [] ∧ (s.ends false).goThrough = false :=
  Run.of_exec channelSystem rfl exchangeAtOnce smallChannels_start
    (fun s : ChannelWorld => (∀ side, (s.ends side).error = none) ∧
      (∀ side, s.inFlight side = [] ∧ (s.ends side).arriving = none) ∧ (s.ends true).receivingQueue.queue = [] ∧
      (s.ends false).goThrough = false)
    (by decide +kernel)

end Qtng
