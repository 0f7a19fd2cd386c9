import Qtng.Channel.DataChannel

namespace Qtng

open BigEndian Transition List

inductive SubCommand
  | make
  | made
  | destroy
deriving DecidableEq

/-- One sub-channel at one end: whether it is registered there, and the commands about
it that the end has queued. -/
abbrev Station := Bool × List SubCommand

/-- What an end does to a sub-channel on its own account. -/
inductive Quiet : Station → Station → Prop
  | same (station : Station) : Quiet station station
  | close (queue : List SubCommand) : Quiet (true, queue) (false, queue ++ [.destroy])

/-- What an end does with a command about a sub-channel. -/
inductive Heard : SubCommand → Station → Station → Prop
  | make (queue : List SubCommand) : Heard .make (false, queue) (true, queue ++ [.made])
  | known (queue : List SubCommand) : Heard .made (true, queue) (true, queue)
  | gone (queue : List SubCommand) : Heard .made (false, queue) (false, queue ++ [.destroy])
  | destroy (registered : Bool) (queue : List SubCommand) : Heard .destroy (registered, queue) (false, queue)

/-- What an end does to a sub-channel while it handles a frame, with the command about the
sub-channel that is in it. -/
inductive Answers : Option SubCommand → Station → Station → Prop
  | silent {a b : Station} : Quiet a b → Answers none a b
  | spoken {k : SubCommand} {a middle b : Station} : Heard k a middle → Quiet middle b → Answers (some k) a b

theorem Quiet.trans {a b c : Station} (first : Quiet a b) (second : Quiet b c) : Quiet a c := by
  cases first with
  | same => exact second
  | close queue =>
    cases second with
    | same => exact .close queue

/-- A sub-channel between the end that opens it and the other end, with the commands
that are underway. -/
structure SubChannel where
  opener : Bool
  other : Bool
  forth : List SubCommand
  back : List SubCommand
deriving DecidableEq

namespace SubChannel

def idle : SubChannel := ⟨false, false, [], []⟩

def between (opener other : Station) (forth back : List SubCommand) : SubChannel :=
  ⟨opener.1, other.1, forth ++ opener.2, back ++ other.2⟩

/-- The opener's commands are at most one MAKE and then DESTROYs. An end that has the
sub-channel has not sent a DESTROY, and one that lacks it while the other has it has
sent one that is still underway. -/
structure Sound (c : SubChannel) (opening : Bool) (closing : Nat) : Prop where
  forth : c.forth = (if opening then [.make] else []) ++ List.replicate closing .destroy
  back : .make ∉ c.back
  opener_kept : c.opener = true → closing = 0
  unseen : opening = true → c.other = false ∧ c.back = []
  opener_told : c.opener = false → c.other = true ∨ opening = true → closing ≠ 0
  other_told : c.opener = true → c.other = false → opening = false → .destroy ∈ c.back
  other_kept : c.other = true → .destroy ∉ c.back

def Consistent (c : SubChannel) : Prop := ∃ opening closing, Sound c opening closing

theorem consistent_idle : Consistent idle := by
  refine ⟨false, 0, ?_⟩
  constructor <;> simp [idle]

theorem consistent_opened : Consistent ⟨true, false, [.make], []⟩ := by
  refine ⟨true, 0, ?_⟩
  constructor <;> simp

theorem Consistent.settled {c : SubChannel} (consistent : c.Consistent) (forth : c.forth = []) (back : c.back = []) :
    c.opener = c.other := by
  obtain ⟨opening, closing, sound⟩ := consistent
  have shape := sound.forth
  rw [forth, eq_comm, append_eq_nil_iff, replicate_eq_nil_iff] at shape
  have settled : opening = false := by
    cases opening with
    | false => rfl
    | true => simp at shape
  have opened := sound.opener_told
  have closed := sound.other_told
  rw [back] at closed
  cases opener : c.opener <;> cases other : c.other
  · rfl
  · exact absurd shape.2 (opened opener (Or.inl other))
  · exact absurd (closed opener other settled) not_mem_nil
  · rfl

variable {forth back : List SubCommand} {opener next other : Station}

theorem Consistent.quiet_opener
    (consistent : (between opener other forth back).Consistent) (moved : Quiet opener next) :
    (between next other forth back).Consistent := by
  cases moved with
  | same => exact consistent
  | close queue =>
    obtain ⟨opening, closing, sound⟩ := consistent
    have none : closing = 0 := sound.opener_kept rfl
    refine ⟨opening, closing + 1, ?_, sound.back, by simp [between], sound.unseen, by simp, by simp [between],
      sound.other_kept⟩
    have shape : forth ++ queue = _ := sound.forth
    simp only [between]
    rw [← append_assoc, shape, replicate_succ', append_assoc]

theorem Consistent.quiet_other (consistent : (between opener other forth back).Consistent) (moved : Quiet other next) :
    (between opener next forth back).Consistent := by
  cases moved with
  | same => exact consistent
  | close queue =>
    obtain ⟨opening, closing, sound⟩ := consistent
    have seen : opening = false := by
      cases opening with
      | false => rfl
      | true => exact absurd (sound.unseen rfl).1 (by simp [between])
    have fine := sound.back
    refine ⟨opening, closing, sound.forth, ?_, sound.opener_kept, by simp [seen], by simp [between, seen], ?_,
      by simp [between]⟩
    · simpa [between] using fine
    · simp [between]

variable {k : SubCommand}

/-- A command of the opener arrives: it is never a MADE, and a MAKE finds the number
free. -/
theorem Consistent.heard_other
    (consistent : (between opener other (k :: forth) back).Consistent) (heard : Heard k other next) :
    (between opener next forth back).Consistent := by
  obtain ⟨opening, closing, sound⟩ := consistent
  have shape : k :: (forth ++ opener.2) = _ := sound.forth
  cases heard with
  | make queue =>
    cases opening with
    | false => cases closing <;> simp [replicate_succ] at shape
    | true =>
      have unseen : back ++ queue = [] := (sound.unseen rfl).2
      obtain ⟨noBack, noQueue⟩ := append_eq_nil_iff.mp unseen
      subst noBack noQueue
      refine ⟨false, closing, by simpa [between] using shape, by simp [between], sound.opener_kept, by simp, ?_,
        by simp [between], by simp [between]⟩
      intro closed _
      exact sound.opener_told closed (Or.inr rfl)
  | known queue => cases opening <;> cases closing <;> simp [replicate_succ] at shape
  | gone queue => cases opening <;> cases closing <;> simp [replicate_succ] at shape
  | destroy registered queue =>
    cases opening with
    | true => simp at shape
    | false =>
      cases closing with
      | zero => simp at shape
      | succ rest =>
        simp only [Bool.false_eq_true, if_false, nil_append, replicate_succ, cons.injEq, true_and]
          at shape
        have gone : opener.1 = false := by
          cases known : opener.1 with
          | false => rfl
          | true => exact absurd (sound.opener_kept known) (by simp)
        exact ⟨false, rest, by simpa [between] using shape, sound.back, by simp [between, gone], by simp,
          by simp [between], by simp [between, gone], by simp [between]⟩

theorem Consistent.heard_opener
    (consistent : (between opener other forth (k :: back)).Consistent) (heard : Heard k opener next) :
    (between next other forth back).Consistent := by
  obtain ⟨opening, closing, sound⟩ := consistent
  have seen : opening = false := by
    cases opening with
    | false => rfl
    | true => exact absurd (sound.unseen rfl).2 (by simp [between])
  subst seen
  have fine : .make ∉ back ++ other.2 := fun member => sound.back (mem_cons_of_mem k member)
  have kept : other.1 = true → .destroy ∉ back ++ other.2 := fun known member =>
    sound.other_kept known (mem_cons_of_mem k member)
  have shape : forth ++ opener.2 = _ := sound.forth
  cases heard with
  | make queue => exact absurd mem_cons_self sound.back
  | known queue =>
    refine ⟨false, closing, shape, fine, sound.opener_kept, by simp, by simp [between], ?_, kept⟩
    intro opened closed _
    have told := sound.other_told opened closed rfl
    simpa [between] using told
  | gone queue =>
    refine ⟨false, closing + 1, ?_, fine, by simp [between], by simp, by simp, by simp [between], kept⟩
    simp only [between]
    rw [← append_assoc, shape, replicate_succ', append_assoc]
  | destroy registered queue =>
    have gone : other.1 = false := by
      cases known : other.1 with
      | false => rfl
      | true => exact absurd mem_cons_self (sound.other_kept known)
    exact ⟨false, closing, shape, fine, by simp [between], by simp, by simp [between, gone], by simp [between],
      by simp [between, gone]⟩

theorem Consistent.hears_other
    (consistent : (between opener other (k :: forth) back).Consistent) : ∃ next, Heard k other next := by
  obtain ⟨registered, queue⟩ := other
  cases k with
  | destroy => exact ⟨_, .destroy registered queue⟩
  | made => cases registered with
    | true => exact ⟨_, .known queue⟩
    | false => exact ⟨_, .gone queue⟩
  | make =>
    obtain ⟨opening, closing, sound⟩ := consistent
    have shape : _ = _ := sound.forth
    cases opening with
    | false => cases closing <;> simp [between, replicate_succ] at shape
    | true =>
      have free : registered = false := (sound.unseen rfl).1
      subst free
      exact ⟨_, .make queue⟩

theorem Consistent.hears_opener
    (consistent : (between opener other forth (k :: back)).Consistent) : ∃ next, Heard k opener next := by
  obtain ⟨registered, queue⟩ := opener
  cases k with
  | destroy => exact ⟨_, .destroy registered queue⟩
  | made => cases registered with
    | true => exact ⟨_, .known queue⟩
    | false => exact ⟨_, .gone queue⟩
  | make =>
    obtain ⟨opening, closing, sound⟩ := consistent
    exact absurd mem_cons_self sound.back

theorem Consistent.answer_opener {told : Option SubCommand}
    (consistent : (between opener other forth (told.toList ++ back)).Consistent) (answer : Answers told opener next) :
    (between next other forth back).Consistent := by
  cases answer with
  | silent moved => exact consistent.quiet_opener moved
  | spoken heard moved => exact (Consistent.heard_opener consistent heard).quiet_opener moved

theorem Consistent.answer_other {told : Option SubCommand}
    (consistent : (between opener other (told.toList ++ forth) back).Consistent) (answer : Answers told other next) :
    (between opener next forth back).Consistent := by
  cases answer with
  | silent moved => exact consistent.quiet_other moved
  | spoken heard moved => exact (Consistent.heard_other consistent heard).quiet_other moved

theorem between_eq_idle :
    between opener other forth back = idle ↔ opener = (false, []) ∧ other = (false, []) ∧ forth = [] ∧ back = [] := by
  obtain ⟨opened, queue⟩ := opener
  obtain ⟨known, answers⟩ := other
  simp only [between, idle, SubChannel.mk.injEq, append_eq_nil_iff, Prod.mk.injEq]
  tauto

end SubChannel

theorem Answers.idle {told : Option SubCommand} {station next : Station} (answer : Answers told station next)
    (untold : told.toList = []) (idle : station = (false, [])) : next = (false, []) := by
  cases answer with
  | spoken => simp at untold
  | silent moved =>
    cases moved with
    | same => exact idle
    | close queue => simp at idle

end Qtng
