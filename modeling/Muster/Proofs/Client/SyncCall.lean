import Muster.Proofs.Client.Record

/-! Calls that wait at a sync point: how they go on from stage to stage, and what the network
side makes of their waits. -/
namespace Muster

namespace SyncWait

def Succeeded (w : SyncWait) : Prop := w.outcome = some .success

instance (w : SyncWait) : Decidable w.Succeeded := inferInstanceAs (Decidable (_ = _))

@[simp] theorem endWith_point (w : SyncWait) (outcome : SyncOutcome) :
    (w.endWith outcome).point = w.point := by
  unfold endWith
  split <;> rfl

@[simp] theorem notified_point (w : SyncWait) (point : NodeId) (code : ProgressCode) :
    (w.notified point code).point = w.point := by
  unfold notified
  split
  · split
    · exact endWith_point w _
    · rfl
  · rfl

@[simp] theorem answered_point (w : SyncWait) (seq : Int32) (point : NodeId) (code : SyncCode) :
    (w.answered seq point code).point = w.point := by
  unfold answered
  split
  · cases code <;> rfl
  · rfl

@[simp] theorem endWith_acknowledged (w : SyncWait) (outcome : SyncOutcome) :
    (w.endWith outcome).acknowledged = w.acknowledged := by
  unfold endWith
  split <;> rfl

@[simp] theorem notified_acknowledged (w : SyncWait) (point : NodeId) (code : ProgressCode) :
    (w.notified point code).acknowledged = w.acknowledged := by
  unfold notified
  split
  · split
    · exact endWith_acknowledged w _
    · rfl
  · rfl

/-- A wait comes to be acknowledged only by the answer to its own request, for its own sync
point. -/
theorem answered_acknowledged {w : SyncWait} {seq : Int32} {point : NodeId} {code : SyncCode}
    (known : (w.answered seq point code).acknowledged = true) : w.acknowledged = true ∨
      w.seq = some seq ∧ w.point = point ∧ (code = .created ∨ code = .joined) := by
  unfold answered at known
  split at known
  · rename_i own
    cases code with
    | created => exact .inr ⟨own.1, own.2, .inl rfl⟩
    | joined => exact .inr ⟨own.1, own.2, .inr rfl⟩
    | expired | authenticationFailure => exact .inl known
  · exact .inl known

theorem endWith_succeeded {w : SyncWait} {outcome : SyncOutcome}
    (h : (w.endWith outcome).Succeeded) : w.Succeeded ∨ outcome = .success := by
  unfold endWith at h
  split at h
  · exact .inr (Option.some.inj h)
  · exact .inl h

theorem earned_succeeded : Earned Succeeded where
  begin point h := nomatch h
  mark w seq h := h
  left w h := by
    obtain before | other := endWith_succeeded h
    · exact before
    · contradiction

/-- A wait succeeds only with the news of success for its sync point, and only after it was
acknowledged. -/
theorem notified_succeeded {w : SyncWait} {point : NodeId} {code : ProgressCode}
    (h : (w.notified point code).Succeeded) :
    w.Succeeded ∨ code = .success ∧ w.Shows none ∧ w.point = point := by
  unfold notified at h
  split at h
  · rename_i outcome final
    split at h
    · rename_i own
      obtain before | rfl := endWith_succeeded h
      · exact .inl before
      · refine .inr ⟨?_, own⟩
        cases code with
        | success => rfl
        | timeout | close | join | leave => exact nomatch final
    · exact .inl h
  · exact .inl h

theorem answered_succeeded {w : SyncWait} {seq : Int32} {point : NodeId} {code : SyncCode}
    (h : (w.answered seq point code).Succeeded) : w.Succeeded := by
  unfold answered at h
  split at h
  · cases code with
    | created => exact h
    | joined => exact h
    | expired => exact nomatch h
    | authenticationFailure => exact nomatch h
  · exact h

end SyncWait

namespace Membership
variable {own : NodeId} {seq : Int32} {t : Tidings}

theorem heed_point {m : Membership} {w : SyncWait} (wait : m.wait = some w) :
    ∃ w', (m.heed own seq t).wait = some w' ∧ w'.point = w.point := by
  obtain ⟨f, eq, cases⟩ := m.heed_wait own seq t
  rw [wait] at eq
  refine ⟨f w, eq, ?_⟩
  obtain rfl | rfl | ⟨point, code, -, rfl⟩ | ⟨point, code, -, rfl⟩ := cases
  · rfl
  · exact w.endWith_point .left
  · exact w.notified_point point code
  · exact w.answered_point seq point code

theorem heed_acknowledged {m : Membership} {w : SyncWait}
    (wait : (m.heed own seq t).wait = some w) (known : w.acknowledged = true) :
    ∃ w₀, m.wait = some w₀ ∧ w.seq = w₀.seq ∧ w.point = w₀.point ∧ (w₀.acknowledged = true ∨
      ∃ code, t = .syncAnswer w₀.point code ∧ w₀.seq = some seq ∧
        (code = .created ∨ code = .joined)) := by
  obtain ⟨f, eq, cases⟩ := m.heed_wait own seq t
  rw [wait] at eq
  obtain ⟨w₀, wait₀, rfl⟩ := Option.map_eq_some_iff.mp eq.symm
  refine ⟨w₀, wait₀, ?_⟩
  obtain rfl | rfl | ⟨point, code, rfl, rfl⟩ | ⟨point, code, rfl, rfl⟩ := cases
  · exact ⟨rfl, rfl, .inl known⟩
  · exact ⟨w₀.endWith_seq _, w₀.endWith_point _,
      .inl ((w₀.endWith_acknowledged _).symm.trans known)⟩
  · exact ⟨w₀.notified_seq _ _, w₀.notified_point _ _,
      .inl ((w₀.notified_acknowledged _ _).symm.trans known)⟩
  · refine ⟨w₀.answered_seq _ _ _, w₀.answered_point _ _ _, ?_⟩
    obtain before | ⟨mark, rfl, taken⟩ := SyncWait.answered_acknowledged known
    · exact .inl before
    · exact .inr ⟨code, rfl, mark, taken⟩

theorem hear_acknowledged {m : Membership} {w : SyncWait}
    (wait : (m.hear own seq t).wait = some w) (known : w.acknowledged = true) :
    ∃ w₀, m.wait = some w₀ ∧ w.seq = w₀.seq ∧ w.point = w₀.point ∧ (w₀.acknowledged = true ∨
      ∃ code, t = .syncAnswer w₀.point code ∧ w₀.seq = some seq ∧
        (code = .created ∨ code = .joined)) := by
  obtain same | heeded := m.hear_cases own seq t
  · rw [same] at wait
    exact ⟨w, wait, rfl, rfl, .inl known⟩
  · rw [heeded] at wait
    exact heed_acknowledged wait known

end Membership

namespace Call
open CallStage

theorem Moved.wait_of_other {m m' : Membership} {s s' : CallStage} (move : Moved m s m' s')
    (other : s.claim ≠ .wait) (held : m.wait ≠ none) : m'.wait = m.wait := by
  cases move with
  | beginWait claim claim' free => exact absurd free held
  | markWait claim | endWait claim => exact absurd claim other
  | same | enter | record | abandon | take | exit => rfl

/-- What a call can do that goes on waiting at a sync point: the record of its group and its
stage before and after a step. -/
inductive Waits (m : Membership) : CallStage → Membership → CallStage → Prop where
  | begin (point : NodeId) (timeout : Nat) : Waits m (.enterSync point timeout)
      { m with wait := some (.begin point) } (.draftSync point timeout)
  | draft (point : NodeId) (timeout : Nat) {p : Packet}
      (body : p.message.body = syncBody m point timeout) :
      Waits m (.draftSync point timeout) m (.recordSync p timeout)
  | record (p : Packet) (timeout : Nat) : Waits m (.recordSync p timeout)
      { m with wait := m.wait.map fun w => { w with seq := some p.seq } } (.sendSync p timeout)
  | sent (p : Packet) (timeout deadline : Nat) :
      Waits m (.sendSync p timeout) m (.awaitSync p.seq deadline)
  | unsent (p : Packet) (timeout : Nat) (e : SyncError) :
      Waits m (.sendSync p timeout) m (.exitSync (.error e))
  | learn (seq : Int32) (deadline : Nat) {outcome : SyncOutcome}
      (ended : m.wait.bind SyncWait.outcome = some outcome) :
      Waits m (.awaitSync seq deadline) m (.cancelSync seq outcome)
  | giveUp (seq : Int32) (deadline : Nat) :
      Waits m (.awaitSync seq deadline) m (.cancelSync seq .timeout)
  | cancel (seq : Int32) (outcome : SyncOutcome) :
      Waits m (.cancelSync seq outcome) m (.exitSync (syncResult outcome))

theorem Waits.wait {m m' : Membership} {s s' : CallStage} (waits : Waits m s m' s') :
    (∃ point timeout, s' = .draftSync point timeout ∧
        ∃ w, m'.wait = some w ∧ w.point = point) ∨
      s.claim = .wait ∧ m'.id = m.id ∧
        ∀ w, m.wait = some w → ∃ w', m'.wait = some w' ∧ w'.point = w.point := by
  cases waits with
  | begin point timeout => exact .inl ⟨point, timeout, rfl, _, rfl, rfl⟩
  | record p timeout =>
    refine .inr ⟨rfl, rfl, fun w wait => ⟨{ w with seq := some p.seq }, ?_, rfl⟩⟩
    show m.wait.map _ = _
    rw [wait]
    rfl
  | draft | sent | unsent | learn | giveUp | cancel =>
    exact .inr ⟨rfl, rfl, fun w wait => ⟨w, wait, rfl⟩⟩

section
variable {c c' : Client} {now : Nat} {h : Handle} {created : Bool} {m : Membership}
  {s s' : CallStage}

theorem advance_enterSync {point : NodeId} {timeout : Nat}
    (step : advance c now h created m (.enterSync point timeout) = some (c', s')) :
    s' = .draftSync point timeout ∨ ∃ e, s' = .done (.waited (.error e)) := by
  simp only [advance] at step
  split at step
  · obtain ⟨rfl, rfl⟩ := Prod.mk.inj (Option.some.inj step)
    exact .inr ⟨_, rfl⟩
  · split at step
    · obtain ⟨rfl, rfl⟩ := Prod.mk.inj (Option.some.inj step)
      exact .inr ⟨_, rfl⟩
    · obtain ⟨rfl, rfl⟩ := Prod.mk.inj (Option.some.inj step)
      exact .inl rfl

theorem advance_of_wait (step : advance c now h created m s = some (c', s'))
    (claim : s.claim = .wait) : s'.claim = .wait ∨
      ∃ result, s = .exitSync result ∧ s' = .done (.waited result) := by
  cases advance_callStep step with
  | endWait _ claim' errand errand' =>
    right
    cases s <;> simp only [CallStage.claim, reduceCtorEq] at claim <;>
      simp only [CallStage.errand, reduceCtorEq] at errand
    case exitSync result _ =>
      obtain ⟨-, rfl⟩ := Prod.mk.inj (Option.some.inj step)
      exact ⟨result, rfl, rfl⟩
  | look same | draft same | sent same | unsent same | cancel same =>
    exact .inl (same.trans claim)
  | markWait _ claim' | stopWait _ claim' => exact .inl claim'
  | enter other | record other | abandon other | giveUp other | finish other | exit other
  | forget other | beginWait other => cases other.symm.trans claim

theorem advance_begin (step : advance c now h created m s = some (c', s')) (free : s.claim = .none)
    (claim' : s'.claim = .wait) : ∃ point timeout, s = .enterSync point timeout := by
  cases s <;> simp only [CallStage.claim, reduceCtorEq] at free
  case enter goal =>
    simp only [advance] at step
    split at step
    · contradiction
    · cases goal <;>
      · obtain ⟨-, rfl⟩ := Prod.mk.inj (Option.some.inj step)
        contradiction
  case lookForget e =>
    obtain ⟨-, rfl⟩ := Prod.mk.inj (Option.some.inj step)
    split at claim' <;> contradiction
  case forget e =>
    obtain ⟨-, rfl⟩ := Prod.mk.inj (Option.some.inj step)
    contradiction
  case lookMembers count deadline =>
    simp only [advance] at step
    split at step
    · split at step <;>
      · obtain ⟨-, rfl⟩ := Prod.mk.inj (Option.some.inj step)
        contradiction
    · obtain ⟨-, rfl⟩ := Prod.mk.inj (Option.some.inj step)
      contradiction
  case awaitMembers count deadline =>
    obtain ⟨result, -, done⟩ := Option.map_eq_some_iff.mp step
    obtain ⟨-, rfl⟩ := Prod.mk.inj done
    contradiction
  case enterSync point timeout => exact ⟨point, timeout, rfl⟩
  case done outcome => cases step

theorem advance_waits (record : c.records[h]? = some m)
    (step : advance c now h created m s = some (c', s')) (claim' : s'.claim = .wait) :
    ∃ m', c'.records[h]? = some m' ∧ Waits m s m' s' := by
  have from_claim : s.claim = .wait ∨ s.claim = .none := by
    cases advance_callStep step with
    | look same | draft same | sent same | unsent same | cancel same =>
      exact .inl (same.symm.trans claim')
    | markWait claim | stopWait claim => exact .inl claim
    | beginWait free => exact .inr free
    | enter _ other | record _ other | abandon _ other | giveUp _ other | finish _ other
    | exit _ other | forget _ other | endWait _ other => cases other.symm.trans claim'
  obtain claim | free := from_claim
  · cases s <;> simp only [CallStage.claim, reduceCtorEq] at claim
    case draftSync point timeout =>
      obtain ⟨rfl, rfl⟩ := Prod.mk.inj (Option.some.inj step)
      exact ⟨m, record, .draft point timeout rfl⟩
    case recordSync p timeout =>
      obtain ⟨rfl, rfl⟩ := Prod.mk.inj (Option.some.inj step)
      exact ⟨_, update_own record rfl, .record p timeout⟩
    case sendSync p timeout =>
      have kept := c.send_records p
      simp only [advance] at step
      split at step
      · rename_i run
        obtain ⟨rfl, rfl⟩ := Prod.mk.inj (Option.some.inj step)
        rw [run] at kept
        exact ⟨m, (congrArg (·[h]?) kept).trans record, .sent p timeout _⟩
      · rename_i run
        obtain ⟨rfl, rfl⟩ := Prod.mk.inj (Option.some.inj step)
        rw [run] at kept
        exact ⟨m, (congrArg (·[h]?) kept).trans record, .unsent p timeout _⟩
    case awaitSync seq deadline =>
      simp only [advance] at step
      split at step
      · rename_i ended
        obtain ⟨rfl, rfl⟩ := Prod.mk.inj (Option.some.inj step)
        exact ⟨m, record, .learn seq deadline ended⟩
      · split at step
        · cases step
        · obtain ⟨rfl, rfl⟩ := Prod.mk.inj (Option.some.inj step)
          exact ⟨m, record, .giveUp seq deadline⟩
    case cancelSync seq outcome =>
      obtain ⟨rfl, rfl⟩ := Prod.mk.inj (Option.some.inj step)
      exact ⟨m, record, .cancel seq outcome⟩
    case exitSync result =>
      obtain ⟨-, rfl⟩ := Prod.mk.inj (Option.some.inj step)
      contradiction
  · obtain ⟨point, timeout, rfl⟩ := advance_begin step free claim'
    simp only [advance] at step
    split at step
    · obtain ⟨-, rfl⟩ := Prod.mk.inj (Option.some.inj step)
      contradiction
    · split at step
      · obtain ⟨-, rfl⟩ := Prod.mk.inj (Option.some.inj step)
        contradiction
      · obtain ⟨rfl, rfl⟩ := Prod.mk.inj (Option.some.inj step)
        exact ⟨_, update_own record rfl, .begin point timeout⟩

end
end Call
end Muster
