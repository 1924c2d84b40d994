import Mathlib.Logic.Relation
import Muster.Proofs.Client.Record

/-! The record of a group as its locks guard it: every thing that it may hold has a slot of its
own, and a slot by itself says nothing of another. What the network side and the calls do to a
record is taken apart into touches, each a change under a single lock, and what holds after every
touch holds at any time. -/
namespace Muster

/-- The slots of a record. The first three stand under one lock, the members under another one,
and the last four, the wait at a sync point, under a third. -/
structure Slots where
  token : Token
  awaiting : Option Int32
  reply : Option Reply
  members : Option (Std.ExtTreeSet NodeId)
  point : Option NodeId
  seq : Option Int32
  acknowledged : Bool
  outcome : Option SyncOutcome

namespace Slots

def fresh (token : Token) : Slots := ⟨token, none, none, none, none, none, false, none⟩

/-- One change under one lock, in the record of a client of this name. -/
inductive Touch (own : NodeId) (s : Slots) : Slots → Prop where
  | request (token : Token) (seq : Int32) :
      Touch own s { s with token, awaiting := some seq, reply := none }
  | abandon : Touch own s { s with awaiting := none }
  | finish {seq : Int32} (awaited : s.awaiting = some seq) (reply : Reply) :
      Touch own s { s with awaiting := none, reply := some reply }
  | cut {seq : Int32} (awaited : s.awaiting = some seq) :
      Touch own s { s with awaiting := none, reply := some .lost }
  | take (seq : Int32) {left : Option Int32}
      (rest : left = if s.awaiting = some seq then none else s.awaiting) :
      Touch own s { s with reply := none, awaiting := left }
  | join : Touch own s { s with members := some ((s.members.getD ∅).insert own) }
  | list {ids : List NodeId} (mem : own ∈ ids) :
      Touch own s { s with members := some (.ofList ids) }
  | expel : Touch own s { s with members := none }
  | begin (free : s.point = none) (point : NodeId) : Touch own s { s with point := some point }
  | mark (seq : Int32) : Touch own s { s with seq := some seq }
  | acknowledge {seq : Int32} {point : NodeId} (asked : s.seq = some seq)
      (there : s.point = some point) : Touch own s { s with acknowledged := true }
  | refuse {seq : Int32} {point : NodeId} {outcome : SyncOutcome} (asked : s.seq = some seq)
      (there : s.point = some point) (refused : outcome = .expired ∨ outcome = .rejected) :
      Touch own s { s with outcome := some outcome }
  | notify {point : NodeId} {code : ProgressCode} {outcome : SyncOutcome}
      (final : SyncOutcome.ofProgress? code = some outcome) (known : s.acknowledged = true)
      (waiting : s.outcome = none) (there : s.point = some point) :
      Touch own s { s with outcome := some outcome }
  | leave {point : NodeId} (waiting : s.outcome = none) (there : s.point = some point) :
      Touch own s { s with outcome := some .left }
  | reset :
      Touch own s { s with point := none, seq := none, acknowledged := false, outcome := none }

structure Sound (own : NodeId) (s : Slots) : Prop where
  member (ids : Std.ExtTreeSet NodeId) (joined : s.members = some ids) : own ∈ ids
  replied (there : s.reply ≠ none) : s.awaiting = none
  waits (news : s.acknowledged = true ∨ s.outcome ≠ none) : s.point ≠ none
  told (met : s.outcome = some .success ∨ s.outcome = some .timeout) : s.acknowledged = true

variable {own : NodeId} {s s' : Slots}

theorem sound_fresh (token : Token) : (fresh token).Sound own where
  member _ joined := nomatch joined
  replied there := absurd rfl there
  waits news := by
    rcases news with known | ended
    · exact nomatch known
    · exact absurd rfl ended
  told met := by
    rcases met with met | met <;> exact nomatch met

theorem Touch.sound (touch : Touch own s s') (sound : s.Sound own) : s'.Sound own := by
  cases touch with
  | request token seq => exact { sound with replied := fun there => absurd rfl there }
  | abandon => exact { sound with replied := fun _ => rfl }
  | finish awaited reply => exact { sound with replied := fun _ => rfl }
  | cut awaited => exact { sound with replied := fun _ => rfl }
  | take _ rest => exact { sound with replied := fun there => absurd rfl there }
  | join =>
    refine { sound with member := fun ids joined => ?_ }
    obtain rfl := Option.some.inj joined
    exact Std.ExtTreeSet.mem_insert_self
  | list mem =>
    refine { sound with member := fun ids joined => ?_ }
    obtain rfl := Option.some.inj joined
    exact Std.ExtTreeSet.mem_ofList.mpr (List.contains_iff_mem.mpr mem)
  | expel => exact { sound with member := fun _ joined => nomatch joined }
  | begin free point => exact { sound with waits := fun _ => nofun }
  | mark seq => exact { sound with }
  | acknowledge asked there =>
    refine { sound with waits := fun _ => ?_, told := fun _ => rfl }
    exact there ▸ nofun
  | refuse asked there refused =>
    refine { sound with waits := fun _ => there ▸ nofun, told := fun met => ?_ }
    rcases refused with rfl | rfl <;> rcases met with met | met <;> exact nomatch met
  | notify final known waiting there =>
    exact { sound with waits := fun _ => there ▸ nofun, told := fun _ => known }
  | leave waiting there =>
    refine { sound with waits := fun _ => there ▸ nofun, told := fun met => ?_ }
    rcases met with met | met <;> exact nomatch met
  | reset =>
    refine { sound with waits := fun news => ?_, told := fun met => ?_ }
    · rcases news with known | ended
      · exact nomatch known
      · exact absurd rfl ended
    · rcases met with met | met <;> exact nomatch met

abbrev Touches (own : NodeId) : Slots → Slots → Prop := Relation.ReflTransGen (Touch own)

theorem Touches.sound (touches : Touches own s s') (sound : s.Sound own) : s'.Sound own := by
  induction touches with
  | refl => exact sound
  | tail _ touch ih => exact touch.sound ih

end Slots

def Exchange.awaited? : Exchange → Option Int32
  | awaiting seq => some seq
  | idle | answered _ => none

def Exchange.reply? : Exchange → Option Reply
  | answered reply => some reply
  | idle | awaiting _ => none

namespace Membership
open Slots (Touch Touches)

def slots (m : Membership) : Slots where
  token := m.token
  awaiting := m.exchange.awaited?
  reply := m.exchange.reply?
  members := m.members
  point := m.wait.map SyncWait.point
  seq := m.wait.bind SyncWait.seq
  acknowledged := (m.wait.map SyncWait.acknowledged).getD false
  outcome := m.wait.bind SyncWait.outcome

variable {own : NodeId}

theorem wait_touches (m : Membership) {f : SyncWait → SyncWait}
    (change : ∀ w,
      Touches own { m with wait := some w }.slots { m with wait := some (f w) }.slots) :
    Touches own m.slots { m with wait := m.wait.map f }.slots := by
  obtain ⟨id, token, exchange, members, wait, busy⟩ := m
  cases wait with
  | none => exact .refl
  | some w => exact change w

/-- The membership ends first, and then the wait. -/
theorem lose_touches (m : Membership) : Touches own m.slots m.lose.slots := by
  have expelled : Touches own m.slots { m with members := none }.slots := .single .expel
  refine expelled.trans (wait_touches { m with members := none } fun w => ?_)
  unfold SyncWait.endWith
  split
  · rename_i waiting
    exact .single (.leave (Option.isNone_iff_eq_none.mp waiting) rfl)
  · exact .refl

theorem joinAnswered_touches (m : Membership) (seq : Int32) (code : JoinCode) :
    Touches own m.slots (m.joinAnswered own seq code).slots := by
  unfold joinAnswered
  split
  · rename_i awaiting
    have awaited : m.exchange.awaited? = some seq := congrArg Exchange.awaited? awaiting
    have finished (members : Option (Std.ExtTreeSet NodeId)) : Touch own { m with members }.slots
        { m with members, exchange := .answered (.join code) }.slots := .finish awaited _
    dsimp only
    split
    · have admitted : Touch own m.slots
          { m with members := some ((m.members.getD ∅).insert own) }.slots := .join
      exact .head admitted (.single (finished _))
    · exact .single (finished _)
  · exact .refl

theorem leaveAnswered_touches (m : Membership) (seq : Int32) :
    Touches own m.slots (m.leaveAnswered seq).slots := by
  unfold leaveAnswered
  split
  · rename_i awaiting
    have awaited : m.lose.exchange.awaited? = some seq := congrArg Exchange.awaited? awaiting
    have finished : Touch own m.lose.slots { m.lose with exchange := .answered .leave }.slots :=
      .finish awaited _
    exact m.lose_touches.tail finished
  · exact .refl

theorem membersChanged_touches (m : Membership) (ids : List NodeId) (code : MembershipCode) :
    Touches own m.slots (m.membersChanged own ids code).slots := by
  unfold membersChanged
  split
  · rename_i here
    exact .single (.list here.2)
  · exact m.lose_touches

theorem syncAnswered_touches (m : Membership) (seq : Int32) (point : NodeId) (code : SyncCode) :
    Touches own m.slots (m.syncAnswered seq point code).slots := by
  refine m.wait_touches fun w => ?_
  unfold SyncWait.answered
  split
  · rename_i asked
    have there : some w.point = some point := congrArg some asked.2
    cases code with
    | created | joined => exact .single (.acknowledge asked.1 there)
    | expired => exact .single (.refuse asked.1 there (.inl rfl))
    | authenticationFailure => exact .single (.refuse asked.1 there (.inr rfl))
  · exact .refl

theorem syncNotified_touches (m : Membership) (point : NodeId) (code : ProgressCode) :
    Touches own m.slots (m.syncNotified point code).slots := by
  refine m.wait_touches fun w => ?_
  unfold SyncWait.notified
  split
  · rename_i outcome final
    split
    · rename_i told
      unfold SyncWait.endWith
      split
      · rename_i waiting
        have waiting : w.outcome = none := Option.isNone_iff_eq_none.mp waiting
        exact .single (.notify final told.1 waiting (congrArg some told.2))
      · exact .refl
    · exact .refl
  · exact .refl

theorem heed_touches (m : Membership) (seq : Int32) (t : Tidings) :
    Touches own m.slots (m.heed own seq t).slots := by
  cases t with
  | members token ids code => exact m.membersChanged_touches ids code
  | progress point code => exact m.syncNotified_touches point code
  | joinAnswer code => exact m.joinAnswered_touches seq code
  | leaveAnswer => exact m.leaveAnswered_touches seq
  | syncAnswer point code => exact m.syncAnswered_touches seq point code

theorem hear_touches (m : Membership) (seq : Int32) (t : Tidings) :
    Touches own m.slots (m.hear own seq t).slots := by
  obtain same | heeded := m.hear_cases own seq t
  · rw [same]
  · rw [heeded]
    exact m.heed_touches seq t

theorem connectionLost_touches (m : Membership) : Touches own m.slots m.connectionLost.slots := by
  obtain ⟨id, token, exchange, members, wait, busy⟩ := m
  cases exchange with
  | idle => exact lose_touches _
  | answered reply => exact lose_touches _
  | awaiting seq =>
    have cut : Touch own (Membership.mk id token (.awaiting seq) members wait busy).slots
        (Membership.mk id token (.answered .lost) members wait busy).slots := .cut rfl
    exact .head cut (lose_touches _)

/-- A call changes what one lock guards at a time. -/
theorem moved_touches {m m' : Membership} {s s' : CallStage} (move : Call.Moved m s m' s') :
    Touches own m.slots m'.slots := by
  cases move with
  | same | enter | exit => exact .refl
  | record => exact .single (.request _ _)
  | abandon =>
    obtain ⟨id, token, exchange, members, wait, busy⟩ := m
    cases exchange with
    | awaiting seq => exact .single .abandon
    | idle | answered reply => exact .refl
  | @take s' seq =>
    obtain ⟨id, token, exchange, members, wait, busy⟩ := m
    cases exchange with
    | idle => exact .refl
    | answered reply => exact .single (.take seq rfl)
    | awaiting n =>
      unfold takeReply Exchange.take
      dsimp only
      by_cases eq : n = seq
      · rw [if_pos eq]
        exact .single (.take seq (if_pos (congrArg some eq)).symm)
      · rw [if_neg eq]
  | beginWait _ _ free =>
    obtain ⟨id, token, exchange, members, wait, busy⟩ := m
    obtain rfl : wait = none := free
    exact .single (.begin rfl _)
  | markWait => exact m.wait_touches fun w => .single (.mark _)
  | endWait => exact .single .reset

end Membership
end Muster
