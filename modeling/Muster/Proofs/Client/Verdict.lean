import Muster.Proofs.Client.SyncCall

/-! How a wait at a sync point ends. The first outcome stays, whatever the network side does
to the record after it, but for one thing: the answer that refuses the wait's own request takes
the place of any outcome. A request has one answer, so this can only happen to a wait that the
end of the membership has ended before the answer came. -/
namespace Muster

namespace Membership

/-- What the network side can do to a record, in any order and with any contents. -/
inductive Input where
  | joinAnswered (own : NodeId) (seq : Int32) (code : JoinCode)
  | leaveAnswered (seq : Int32)
  | membersChanged (own : NodeId) (ids : List NodeId) (code : MembershipCode)
  | syncAnswered (seq : Int32) (point : NodeId) (code : SyncCode)
  | syncNotified (point : NodeId) (code : ProgressCode)
  | connectionLost

def absorb (m : Membership) : Input → Membership
  | .joinAnswered own seq code => m.joinAnswered own seq code
  | .leaveAnswered seq => m.leaveAnswered seq
  | .membersChanged own ids code => m.membersChanged own ids code
  | .syncAnswered seq point code => m.syncAnswered seq point code
  | .syncNotified point code => m.syncNotified point code
  | .connectionLost => m.connectionLost

def absorbAll (m : Membership) (inputs : List Input) : Membership := inputs.foldl absorb m

def outcome? (m : Membership) : Option SyncOutcome := m.wait.bind SyncWait.outcome

end Membership

namespace SyncWait

def answer? (w : SyncWait) : Membership.Input → Option SyncCode
  | .syncAnswered seq point code => if w.seq = some seq ∧ w.point = point then some code else none
  | _ => none

theorem answer?_syncAnswered (w : SyncWait) (seq : Int32) (point : NodeId) (code : SyncCode) :
    w.answer? (.syncAnswered seq point code) =
      if w.seq = some seq ∧ w.point = point then some code else none := rfl

def refusal? (w : SyncWait) (i : Membership.Input) : Option SyncOutcome :=
  (w.answer? i).bind SyncOutcome.ofAnswer?

/-- Whether two waits are at the same sync point and for the answer to the same request. -/
structure SameRequest (w w' : SyncWait) : Prop where
  seq : w'.seq = w.seq
  point : w'.point = w.point

variable {w w' : SyncWait} {o : SyncOutcome}

theorem SameRequest.answer? (same : SameRequest w w') : w'.answer? = w.answer? := by
  funext i
  cases i with
  | syncAnswered seq point code => rw [SyncWait.answer?, SyncWait.answer?, same.seq, same.point]
  | joinAnswered | leaveAnswered | membersChanged | syncNotified | connectionLost => rfl

theorem SameRequest.refusal? (same : SameRequest w w') : w'.refusal? = w.refusal? := by
  funext i
  rw [SyncWait.refusal?, SyncWait.refusal?, same.answer?]

theorem endWith_of_ended (ended : w.outcome = some o) (outcome : SyncOutcome) :
    w.endWith outcome = w := by
  rw [endWith, ended]
  rfl

theorem notified_of_ended (ended : w.outcome = some o) (point : NodeId) (code : ProgressCode) :
    w.notified point code = w := by
  unfold notified
  split
  · rw [endWith_of_ended ended, ite_self]
  · rfl

theorem answered_outcome (w : SyncWait) (seq : Int32) (point : NodeId) (code : SyncCode) :
    (w.answered seq point code).outcome =
      (w.refusal? (.syncAnswered seq point code)).or w.outcome := by
  unfold answered refusal?
  rw [answer?_syncAnswered]
  by_cases own : w.seq = some seq ∧ w.point = point
  · rw [if_pos own, if_pos own]
    cases code <;> rfl
  · rw [if_neg own, if_neg own]
    rfl

inductive Absorbs (i : Membership.Input) (w : SyncWait) : SyncWait → Prop where
  | same (other : w.answer? i = none) : Absorbs i w w
  | left (other : w.answer? i = none) : Absorbs i w (w.endWith .left)
  | notified (point : NodeId) (code : ProgressCode) (notice : i = .syncNotified point code) :
      Absorbs i w (w.notified point code)
  | answered (seq : Int32) (point : NodeId) (code : SyncCode)
      (answer : i = .syncAnswered seq point code) : Absorbs i w (w.answered seq point code)

variable {i : Membership.Input}

theorem Absorbs.sameRequest (absorbs : Absorbs i w w') : SameRequest w w' := by
  cases absorbs with
  | same => exact ⟨rfl, rfl⟩
  | left => exact ⟨w.endWith_seq _, w.endWith_point _⟩
  | notified point code => exact ⟨w.notified_seq point code, w.notified_point point code⟩
  | answered seq point code =>
    exact ⟨w.answered_seq seq point code, w.answered_point seq point code⟩

/-- A wait that has ended keeps its outcome, unless its own request is refused. -/
theorem Absorbs.outcome (absorbs : Absorbs i w w') (ended : w.outcome = some o) :
    w'.outcome = some ((w.refusal? i).getD o) := by
  have stays (other : w.answer? i = none) : some o = some ((w.refusal? i).getD o) := by
    rw [refusal?, other]
    rfl
  cases absorbs with
  | same other => exact ended.trans (stays other)
  | left other =>
    rw [endWith_of_ended ended]
    exact ended.trans (stays other)
  | notified point code notice =>
    rw [notified_of_ended ended]
    exact ended.trans (stays (by rw [notice]; rfl))
  | answered seq point code answer =>
    rw [answered_outcome, answer, ended]
    cases w.refusal? (.syncAnswered seq point code) <;> rfl

/-- Whether nothing but the end of the membership has ended the wait. -/
structure Unanswered (w : SyncWait) : Prop where
  acknowledged : w.acknowledged = false
  outcome : w.outcome = none ∨ w.outcome = some .left

theorem Absorbs.unanswered (absorbs : Absorbs i w w') (h : Unanswered w)
    (other : w.answer? i = none) : Unanswered w' := by
  cases absorbs with
  | same => exact h
  | left =>
    unfold endWith
    split
    · exact ⟨h.acknowledged, .inr rfl⟩
    · exact h
  | notified point code notice =>
    have same : w.notified point code = w := by
      unfold SyncWait.notified
      split
      · rw [if_neg]
        rintro ⟨acknowledged, -⟩
        rw [h.acknowledged] at acknowledged
        contradiction
      · rfl
    rw [same]
    exact h
  | answered seq point code answer =>
    have same : w.answered seq point code = w := by
      unfold SyncWait.answered
      rw [if_neg]
      intro own
      rw [answer, answer?, if_pos own] at other
      contradiction
    rw [same]
    exact h

end SyncWait

namespace Membership
variable {m : Membership} {w : SyncWait} {o : SyncOutcome}

theorem lose_wait (wait : m.wait = some w) : m.lose.wait = some (w.endWith .left) :=
  congrArg (Option.map _) wait

theorem absorb_wait (wait : m.wait = some w) (i : Input) :
    ∃ w', (m.absorb i).wait = some w' ∧ w.Absorbs i w' := by
  cases i with
  | joinAnswered own seq code =>
    refine ⟨w, ?_, .same rfl⟩
    simp only [absorb, joinAnswered]
    split
    · exact wait
    · exact wait
  | leaveAnswered seq =>
    simp only [absorb, leaveAnswered]
    split
    · exact ⟨_, lose_wait wait, .left rfl⟩
    · exact ⟨w, wait, .same rfl⟩
  | membersChanged own ids code =>
    simp only [absorb, membersChanged]
    split
    · exact ⟨w, wait, .same rfl⟩
    · exact ⟨_, lose_wait wait, .left rfl⟩
  | syncAnswered seq point code =>
    exact ⟨_, congrArg (Option.map _) wait, .answered seq point code rfl⟩
  | syncNotified point code => exact ⟨_, congrArg (Option.map _) wait, .notified point code rfl⟩
  | connectionLost => exact ⟨_, lose_wait wait, .left rfl⟩

theorem absorbAll_append (m : Membership) (inputs later : List Input) :
    m.absorbAll (inputs ++ later) = (m.absorbAll inputs).absorbAll later :=
  List.foldl_append

theorem absorbAll_wait (wait : m.wait = some w) (inputs : List Input) :
    ∃ w', (m.absorbAll inputs).wait = some w' ∧ w.SameRequest w' := by
  induction inputs generalizing m w with
  | nil => exact ⟨w, wait, rfl, rfl⟩
  | cons i inputs ih =>
    obtain ⟨w', wait', absorbs⟩ := absorb_wait wait i
    obtain ⟨w'', wait'', same⟩ := ih wait'
    have first := absorbs.sameRequest
    exact ⟨w'', wait'', same.seq.trans first.seq, same.point.trans first.point⟩

/-- The outcome of a wait that has ended is the last refusal of its request; if there is none,
the outcome stays. -/
theorem absorbAll_outcome (wait : m.wait = some w) (ended : w.outcome = some o)
    (inputs : List Input) :
    (m.absorbAll inputs).outcome? = some ((inputs.filterMap w.refusal?).getLast?.getD o) := by
  induction inputs generalizing m w o with
  | nil =>
    show m.wait.bind SyncWait.outcome = some o
    rw [wait]
    exact ended
  | cons i inputs ih =>
    obtain ⟨w', wait', absorbs⟩ := absorb_wait wait i
    have later : ((m.absorb i).absorbAll inputs).outcome? =
        some ((inputs.filterMap w'.refusal?).getLast?.getD ((w.refusal? i).getD o)) :=
      ih wait' (absorbs.outcome ended)
    rw [absorbs.sameRequest.refusal?] at later
    show ((m.absorb i).absorbAll inputs).outcome? = _
    rw [later, List.filterMap_cons]
    cases w.refusal? i with
    | none => rfl
    | some refused =>
      rw [List.getLast?_cons]
      rfl

/-- Without an answer to its request, a wait ends only with the membership. -/
theorem absorbAll_unanswered (wait : m.wait = some w) (fresh : w.Unanswered) {inputs : List Input}
    (silent : ∀ i ∈ inputs, w.answer? i = none) :
    (m.absorbAll inputs).outcome? = none ∨ (m.absorbAll inputs).outcome? = some .left := by
  induction inputs generalizing m w with
  | nil =>
    show m.wait.bind SyncWait.outcome = none ∨ m.wait.bind SyncWait.outcome = some .left
    rw [wait]
    exact fresh.outcome
  | cons i inputs ih =>
    obtain ⟨other, silent⟩ := List.forall_mem_cons.mp silent
    obtain ⟨w', wait', absorbs⟩ := absorb_wait wait i
    apply ih wait' (absorbs.unanswered fresh other)
    rw [absorbs.sameRequest.answer?]
    exact silent

theorem advance_awaitSync (ended : m.outcome? = some o) (c : Client) (now : Nat) (h : Handle)
    (created : Bool) (seq : Int32) (deadline : Nat) :
    Call.advance c now h created m (.awaitSync seq deadline) = some (c, .cancelSync seq o) := by
  have ended : m.wait.bind SyncWait.outcome = some o := ended
  simp only [Call.advance, ended]

/-- An outcome other than that of a lost membership shows that the request was answered, and then
no further answer can refuse it. -/
theorem refusal_of_single_answer (wait : m.wait = some w) (fresh : w.Unanswered)
    {earlier later : List Input} (ended : (m.absorbAll earlier).outcome? = some o)
    (single : ((earlier ++ later).filterMap w.answer?).length ≤ 1) (other : o ≠ .left) :
    later.filterMap w.refusal? = [] := by
  have first : earlier.filterMap w.answer? ≠ [] := by
    intro silent
    obtain none | left := absorbAll_unanswered wait fresh (List.filterMap_eq_nil_iff.mp silent)
    · rw [none] at ended
      contradiction
    · rw [left] at ended
      exact other (Option.some.inj ended).symm
  have rest : later.filterMap w.answer? = [] := by
    rw [List.filterMap_append, List.length_append] at single
    have := List.length_pos_iff.mpr first
    exact List.eq_nil_of_length_eq_zero (by omega)
  rw [List.filterMap_eq_nil_iff] at rest ⊢
  intro i mem
  rw [SyncWait.refusal?, rest i mem]
  rfl

/-- The first outcome of a wait stays and is what the waiting call gets, whatever the network side
does after it, unless an answer to the wait's own request refuses it: then the last refusal takes
its place. A request that is answered once can be refused so late only if the first outcome came
with the end of the membership. -/
theorem first_outcome_stays (wait : m.wait = some w) (waiting : w.outcome = none)
    (earlier later : List Input) (ended : (m.absorbAll earlier).outcome? = some o) :
    let outcome := (later.filterMap w.refusal?).getLast?.getD o
    (m.absorbAll (earlier ++ later)).outcome? = some outcome ∧
      (∀ c now h created seq deadline,
        Call.advance c now h created (m.absorbAll (earlier ++ later)) (.awaitSync seq deadline) =
          some (c, .cancelSync seq outcome)) ∧
      (w.acknowledged = false → ((earlier ++ later).filterMap w.answer?).length ≤ 1 →
        o ≠ .left → outcome = o) := by
  intro outcome
  have final : (m.absorbAll (earlier ++ later)).outcome? = some outcome := by
    obtain ⟨w', wait', same⟩ := absorbAll_wait wait earlier
    have ended' : w'.outcome = some o := by
      rw [outcome?, wait'] at ended
      exact ended
    rw [absorbAll_append, absorbAll_outcome wait' ended', same.refusal?]
  refine ⟨final, fun c now h created seq deadline => ?_, fun unanswered single other => ?_⟩
  · exact advance_awaitSync final c now h created seq deadline
  · have silent := refusal_of_single_answer wait ⟨unanswered, .inl waiting⟩ ended single other
    show (later.filterMap w.refusal?).getLast?.getD o = o
    rw [silent]
    rfl

def samplePoint : NodeId := ⟨"gate", by decide, by decide⟩

def sampleWaiting : Membership :=
  { create ⟨"band", by decide, by decide⟩ .null with
    members := some ∅
    wait := some { SyncWait.begin samplePoint with seq := some 1800 } }

theorem first_outcome_stays_of_timeout :
    let earlier := [.syncAnswered 1800 samplePoint .created, .syncNotified samplePoint .timeout]
    let later := [.syncNotified samplePoint .success, .syncAnswered 1801 samplePoint .expired,
      .membersChanged samplePoint [] .leave, .connectionLost]
    (sampleWaiting.absorbAll earlier).outcome? = some .timeout ∧
      (sampleWaiting.absorbAll (earlier ++ later)).outcome? = some .timeout := by
  intro earlier later
  have wait : sampleWaiting.wait = some { SyncWait.begin samplePoint with seq := some 1800 } := rfl
  have ended : (sampleWaiting.absorbAll earlier).outcome? = some .timeout := rfl
  exact ⟨ended, (first_outcome_stays wait rfl earlier later ended).1⟩

/-- The group is closed while a request to arrive is on its way, and the request is then refused.
How the call ends depends on whether it looks before or after the refusal. -/
theorem refusal_replaces_outcome : ∃ m : Membership, ∃ earlier later : List Input,
    (m.absorbAll earlier).outcome? = some .left ∧
      (m.absorbAll (earlier ++ later)).outcome? = some .rejected ∧
      CallStage.syncResult .left = .ok false ∧
      CallStage.syncResult .rejected = .error .authenticationFailed :=
  ⟨sampleWaiting, [.membersChanged samplePoint [] .close],
    [.syncAnswered 1800 samplePoint .authenticationFailure], rfl, rfl, rfl, rfl⟩

end Membership
end Muster
