import Muster.Client.Call
import Muster.Proofs.Client.Basic

/-! What one step of a call does. The stages are told apart only by what the call has claimed
of the group's record and by how far its request is. -/
namespace Muster

/-- What of a group's record a call has to itself. -/
inductive Claim where
  | none
  /-- Joining and leaving. -/
  | lock
  /-- The wait at a sync point. -/
  | wait
deriving DecidableEq

/-- How far the request of a call is. -/
inductive Errand where
  | none
  | drafted (p : Packet)
  /-- The group's record knows the request's number. -/
  | recorded (p : Packet)
  | awaiting (seq : Int32)
  | cancelling (seq : Int32)
  /-- Only the group's record still knows of the request. -/
  | ended
deriving DecidableEq

namespace CallStage

def claim : CallStage → Claim
  | lookJoined _ | lookLeft _ | draftLeave _ | recordLeave .. | sendLeave .. | abandonLeave ..
  | awaitLeave .. | cancelLeave .. | judgeLeave _ | draftJoin _ | recordJoin .. | sendJoin _
  | abandonJoin _ | awaitJoin .. | cancelJoin _ | exit _ => .lock
  | draftSync .. | recordSync .. | sendSync .. | awaitSync .. | cancelSync .. | exitSync _ => .wait
  | enter _ | lookForget _ | forget _ | lookMembers .. | awaitMembers .. | enterSync .. | done _ =>
    .none

def errand : CallStage → Errand
  | recordLeave _ p | recordJoin _ p | recordSync p _ => .drafted p
  | sendLeave _ p | sendJoin p | sendSync p _ => .recorded p
  | awaitLeave _ seq _ | awaitJoin seq _ | awaitSync seq _ => .awaiting seq
  | cancelLeave _ seq _ | cancelJoin seq | cancelSync seq _ => .cancelling seq
  | abandonLeave .. | abandonJoin _ | exitSync _ => .ended
  | enter _ | lookJoined _ | lookLeft _ | draftLeave _ | judgeLeave _ | draftJoin _ | exit _
  | lookForget _ | forget _ | lookMembers .. | awaitMembers .. | enterSync .. | draftSync ..
  | done _ => .none

def Unsent (s : CallStage) : Prop :=
  (∃ p, s.errand = .drafted p) ∨ (∃ p, s.errand = .recorded p) ∨ s.claim = .lock ∧ s.errand = .ended

/-- Whether the packet of a stage asks for what its call is after. -/
def Asks (m : Membership) : CallStage → Prop
  | recordLeave _ p | sendLeave _ p => p.message.body = .leaveRequest m.ref
  | recordJoin token p => p.message.body = .joinRequest ⟨m.id, token⟩
  | sendJoin p => p.message.body = .joinRequest m.ref
  | recordSync p _ | sendSync p _ =>
    ∃ token terms, p.message.body = .syncRequest ⟨m.id, token⟩ terms
  | _ => True

@[simp] theorem claim_afterLeave (goal : Goal) : (afterLeave goal).claim = .lock := by
  cases goal <;> rfl

@[simp] theorem errand_afterLeave (goal : Goal) : (afterLeave goal).errand = .none := by
  cases goal <;> rfl

@[simp] theorem claim_failLeave (e : LeaveError) (goal : Goal) :
    (failLeave e goal).claim = .lock := by
  cases goal <;> rfl

@[simp] theorem errand_failLeave (e : LeaveError) (goal : Goal) :
    (failLeave e goal).errand = .none := by
  cases goal <;> rfl

/-- The packet of a stage is a request about the group of the call. -/
theorem Asks.body {m : Membership} {s : CallStage} {p : Packet} (asks : s.Asks m)
    (errand : s.errand = .drafted p ∨ s.errand = .recorded p) :
    ∃ token, p.message.body = .joinRequest ⟨m.id, token⟩ ∨
      p.message.body = .leaveRequest ⟨m.id, token⟩ ∨
      ∃ terms, p.message.body = .syncRequest ⟨m.id, token⟩ terms := by
  cases s <;> simp only [CallStage.errand, reduceCtorEq, or_self, Errand.drafted.injEq,
    Errand.recorded.injEq, or_false, false_or] at errand
  case recordLeave | sendLeave =>
    subst errand
    exact ⟨m.token, .inr (.inl asks)⟩
  case recordJoin token p' =>
    subst errand
    exact ⟨token, .inl asks⟩
  case sendJoin =>
    subst errand
    exact ⟨m.token, .inl asks⟩
  case recordSync | sendSync =>
    subst errand
    obtain ⟨token, terms, body⟩ := asks
    exact ⟨token, .inr (.inr ⟨terms, body⟩)⟩

theorem Asks.role {m : Membership} {s : CallStage} {p : Packet} (asks : s.Asks m)
    (errand : s.errand = .drafted p ∨ s.errand = .recorded p) : p.message.role = .request := by
  show p.message.body.kind.role = .request
  obtain ⟨token, body | body | ⟨terms, body⟩⟩ := asks.body errand <;> rw [body] <;> rfl

theorem Asks.ref {m : Membership} {s : CallStage} {p : Packet} (asks : s.Asks m)
    (claim : s.claim = .lock) (errand : s.errand = .recorded p) :
    p.message.body.group? = some m.ref := by
  have about {body : Body} (eq : p.message.body = body) (ref : body.group? = some m.ref) :
      p.message.body.group? = some m.ref := by
    rw [eq]
    exact ref
  cases s <;> simp only [CallStage.errand, reduceCtorEq, Errand.recorded.injEq] at errand
  case sendLeave =>
    subst errand
    exact about asks rfl
  case sendJoin =>
    subst errand
    exact about asks rfl
  case sendSync => exact nomatch claim

/-- Who is about to send a request to join names the token of its record. -/
theorem Asks.join {m : Membership} {s : CallStage} {p : Packet} {ref : GroupRef} (asks : s.Asks m)
    (errand : s.errand = .recorded p) (body : p.message.body = .joinRequest ref) : m.ref = ref := by
  have about {body' : Body} (eq : p.message.body = body') : body' = .joinRequest ref :=
    eq.symm.trans body
  cases s <;> simp only [CallStage.errand, reduceCtorEq, Errand.recorded.injEq] at errand
  case sendLeave =>
    subst errand
    exact nomatch about asks
  case sendJoin =>
    subst errand
    exact Body.joinRequest.inj (about asks)
  case sendSync =>
    subst errand
    obtain ⟨token, terms, eq⟩ := asks
    exact nomatch about eq

theorem Asks.congr {m m' : Membership} {s : CallStage} (asks : s.Asks m) (id : m'.id = m.id)
    (token : m'.token = m.token) : s.Asks m' := by
  have ref : m'.ref = m.ref := by
    unfold Membership.ref
    rw [id, token]
  unfold Asks at *
  split
  · rw [ref]
    exact asks
  · rw [ref]
    exact asks
  · rw [id]
    exact asks
  · rw [ref]
    exact asks
  · rw [id]
    exact asks
  · rw [id]
    exact asks
  · trivial

/-- Only joins and leaves name the group's present token. -/
theorem Asks.of_claim {m m' : Membership} {s : CallStage} (asks : s.Asks m)
    (other : s.claim ≠ .lock) (id : m'.id = m.id) : s.Asks m' := by
  unfold Asks at *
  split
  · exact absurd rfl other
  · exact absurd rfl other
  · exact absurd rfl other
  · exact absurd rfl other
  · rw [id]
    exact asks
  · rw [id]
    exact asks
  · trivial

theorem asks_of_errand {m : Membership} {s : CallStage} (drafted : ∀ p, s.errand ≠ .drafted p)
    (recorded : ∀ p, s.errand ≠ .recorded p) : s.Asks m := by
  unfold Asks
  split
  · exact absurd rfl (drafted _)
  · exact absurd rfl (recorded _)
  · exact absurd rfl (drafted _)
  · exact absurd rfl (recorded _)
  · exact absurd rfl (drafted _)
  · exact absurd rfl (recorded _)
  · trivial

end CallStage

namespace Call
open CallStage

/-- What a step of a call can do to the client, `m` being the group's record before it. -/
inductive CallStep (c : Client) (h : Handle) (m : Membership) (s : CallStage) :
    Client → CallStage → Prop where
  | look {s' : CallStage} (claim : s'.claim = s.claim) (idle : s.errand = .none)
      (idle' : s'.errand = .none) : CallStep c h m s c s'
  | enter {s' : CallStage} {f : Membership → Membership} (claim : s.claim = .none)
      (claim' : s'.claim = .lock) (idle : s.errand = .none) (idle' : s'.errand = .none)
      (free : m.busy = false) (change : f m = { m with busy := true }) :
      CallStep c h m s (c.update h f) s'
  | draft {s' : CallStage} {body : Body} {p : Packet} (claim : s'.claim = s.claim)
      (idle : s.errand = .none) (errand' : s'.errand = .drafted p)
      (message : p.message = ⟨c.token, body⟩) (asks : s'.Asks m) :
      CallStep c h m s (c.draft body).2 s'
  | record {s' : CallStage} {f : Membership → Membership} {p : Packet} {token : Token}
      (claim : s.claim = .lock) (claim' : s'.claim = .lock) (errand : s.errand = .drafted p)
      (errand' : s'.errand = .recorded p)
      (change : f m = { m with token, exchange := .awaiting p.seq })
      (asks : s.Asks m → s'.Asks { m with token, exchange := .awaiting p.seq }) :
      CallStep c h m s (c.update h f) s'
  | sent {c' : Client} {s' : CallStage} {p : Packet} (claim : s'.claim = s.claim)
      (errand : s.errand = .recorded p) (errand' : s'.errand = .awaiting p.seq)
      (run : c.send p = (.ok (), c')) : CallStep c h m s c' s'
  | unsent {c' : Client} {s' : CallStage} {p : Packet} {e : SendError}
      (claim : s'.claim = s.claim) (errand : s.errand = .recorded p) (errand' : s'.errand = .ended)
      (run : c.send p = (.error e, c')) : CallStep c h m s c' s'
  | abandon {s' : CallStage} {f : Membership → Membership} (claim : s.claim = .lock)
      (claim' : s'.claim = .lock) (errand : s.errand = .ended) (errand' : s'.errand = .none)
      (change : f m = { m with exchange := m.exchange.forget }) :
      CallStep c h m s (c.update h f) s'
  | giveUp {s' : CallStage} {f : Membership → Membership} {seq : Int32}
      (claim : s.claim = .lock) (claim' : s'.claim = .lock) (errand : s.errand = .awaiting seq)
      (errand' : s'.errand = .cancelling seq) (change : f m = (m.takeReply seq).2) :
      CallStep c h m s (c.update h f) s'
  | finish {s' : CallStage} {f : Membership → Membership} {seq : Int32} {reply : Reply}
      (claim : s.claim = .lock) (claim' : s'.claim = .lock) (errand : s.errand = .awaiting seq)
      (errand' : s'.errand = .none) (answered : m.exchange = .answered reply)
      (change : f m = (m.takeReply seq).2) : CallStep c h m s (c.update h f) s'
  | cancel {s' : CallStage} {seq : Int32} (claim : s'.claim = s.claim)
      (errand : s.errand = .cancelling seq)
      (errand' : s'.errand = if s.claim = .wait then .ended else .none) :
      CallStep c h m s (c.cancel seq) s'
  | exit {s' : CallStage} {f : Membership → Membership} (claim : s.claim = .lock)
      (claim' : s'.claim = .none) (idle : s.errand = .none) (idle' : s'.errand = .none)
      (change : f m = { m with busy := false }) : CallStep c h m s (c.update h f) s'
  | forget {s' : CallStage} (claim : s.claim = .none) (claim' : s'.claim = .none)
      (idle : s.errand = .none) (idle' : s'.errand = .none) : CallStep c h m s (c.forget h) s'
  | beginWait {s' : CallStage} {f : Membership → Membership} {point : NodeId}
      (claim : s.claim = .none) (claim' : s'.claim = .wait) (idle : s.errand = .none)
      (idle' : s'.errand = .none) (free : m.wait = none)
      (change : f m = { m with wait := some (.begin point) }) :
      CallStep c h m s (c.update h f) s'
  | markWait {s' : CallStage} {f : Membership → Membership} {p : Packet}
      (claim : s.claim = .wait) (claim' : s'.claim = .wait) (errand : s.errand = .drafted p)
      (errand' : s'.errand = .recorded p)
      (change : f m = { m with wait := m.wait.map fun w => { w with seq := some p.seq } })
      (asks : s.Asks m → s'.Asks m) : CallStep c h m s (c.update h f) s'
  | stopWait {s' : CallStage} {seq : Int32} (claim : s.claim = .wait) (claim' : s'.claim = .wait)
      (errand : s.errand = .awaiting seq) (errand' : s'.errand = .cancelling seq) :
      CallStep c h m s c s'
  | endWait {s' : CallStage} {f : Membership → Membership} (claim : s.claim = .wait)
      (claim' : s'.claim = .none) (errand : s.errand = .ended) (errand' : s'.errand = .none)
      (change : f m = { m with wait := none }) : CallStep c h m s (c.update h f) s'

theorem takeReply_some {m m' : Membership} {seq : Int32} {reply : Reply}
    (h : m.takeReply seq = (some reply, m')) :
    m.exchange = .answered reply ∧ m' = { m with exchange := .idle } := by
  unfold Membership.takeReply Exchange.take at h
  cases he : m.exchange with
  | idle =>
    rw [he] at h
    exact nomatch h
  | awaiting n =>
    rw [he] at h
    exact nomatch h
  | answered r =>
    rw [he] at h
    obtain ⟨hr, hm⟩ := Prod.mk.inj h
    obtain rfl := Option.some.inj hr
    exact ⟨rfl, hm.symm⟩

section
variable {c c' : Client} {now : Nat} {h : Handle} {created : Bool} {m : Membership}
  {s s' : CallStage}

theorem CallStep.of_some {c₁ : Client} {s₁ : CallStage} (step : some (c₁, s₁) = some (c', s'))
    (goes : CallStep c h m s c₁ s₁) : CallStep c h m s c' s' := by
  obtain ⟨rfl, rfl⟩ := Prod.mk.inj (Option.some.inj step)
  exact goes

theorem send_callStep {p : Packet} {sent : Client → CallStage} {failed : SendError → CallStage}
    (step : (match c.send p with
      | (.ok (), c) => some (c, sent c)
      | (.error e, c) => some (c, failed e)) = some (c', s'))
    (errand : s.errand = .recorded p)
    (goes : ∀ c, (sent c).claim = s.claim ∧ (sent c).errand = .awaiting p.seq)
    (fails : ∀ e, (failed e).claim = s.claim ∧ (failed e).errand = .ended) :
    CallStep c h m s c' s' := by
  split at step
  · rename_i run
    exact .of_some step (.sent (goes _).1 errand (goes _).2 run)
  · rename_i run
    exact .of_some step (.unsent (fails _).1 errand (fails _).2 run)

theorem enter_callStep {goal : Goal}
    (step : advance c now h created m (.enter goal) = some (c', s')) :
    CallStep c h m (.enter goal) c' s' := by
  unfold advance at step
  dsimp only at step
  split at step
  · contradiction
  · rename_i free
    have free : m.busy = false := Bool.eq_false_iff.mpr free
    cases goal with
    | join token => exact .of_some step (.enter rfl rfl rfl rfl free rfl)
    | leave => exact .of_some step (.enter rfl rfl rfl rfl free rfl)

/-- A join takes the reply to its request, or gives up waiting for it. -/
theorem awaitJoin_callStep {seq : Int32} {deadline : Nat}
    (step : advance c now h created m (.awaitJoin seq deadline) = some (c', s')) :
    CallStep c h m (.awaitJoin seq deadline) c' s' := by
  unfold advance at step
  dsimp only at step
  split at step
  · rename_i reply left taken
    obtain ⟨answered, -⟩ := takeReply_some taken
    obtain ⟨rfl, rfl⟩ := Prod.mk.inj (Option.some.inj step)
    have change : left = (m.takeReply seq).2 := (congrArg Prod.snd taken).symm
    cases reply with
    | join code =>
      cases code with
      | accepted => exact .finish rfl rfl rfl rfl answered change
      | groupFull => exact .finish rfl rfl rfl rfl answered change
      | authenticationFailure => exact .finish rfl rfl rfl rfl answered change
    | leave => exact .giveUp rfl rfl rfl rfl change
    | lost => exact .finish rfl rfl rfl rfl answered change
  · rename_i left taken
    split at step
    · contradiction
    · obtain ⟨rfl, rfl⟩ := Prod.mk.inj (Option.some.inj step)
      exact .giveUp rfl rfl rfl rfl (congrArg Prod.snd taken).symm

theorem exit_callStep {outcome : Outcome}
    (step : advance c now h created m (.exit outcome) = some (c', s')) :
    CallStep c h m (.exit outcome) c' s' := by
  have after : c' = c.update h (fun m => { m with busy := false }) ∧ s'.claim = .none ∧
      s'.errand = .none := by
    unfold advance at step
    dsimp only at step
    split at step
    · obtain ⟨rfl, rfl⟩ := Prod.mk.inj (Option.some.inj step)
      cases created with
      | true => exact ⟨rfl, rfl, rfl⟩
      | false => exact ⟨rfl, rfl, rfl⟩
    · obtain ⟨rfl, rfl⟩ := Prod.mk.inj (Option.some.inj step)
      exact ⟨rfl, rfl, rfl⟩
  obtain ⟨rfl, claim', idle'⟩ := after
  exact .exit rfl claim' rfl idle' rfl

theorem lookJoined_callStep {token : Token}
    (step : advance c now h created m (.lookJoined token) = some (c', s')) :
    CallStep c h m (.lookJoined token) c' s' := by
  unfold advance at step
  dsimp only at step
  split at step
  · exact .of_some step (.look rfl rfl rfl)
  · split at step
    · exact .of_some step (.look rfl rfl rfl)
    · exact .of_some step (.look rfl rfl rfl)

theorem lookLeft_callStep {goal : Goal}
    (step : advance c now h created m (.lookLeft goal) = some (c', s')) :
    CallStep c h m (.lookLeft goal) c' s' := by
  refine .of_some step ?_
  split
  · exact .look rfl rfl rfl
  · exact .look (claim_afterLeave goal) rfl (errand_afterLeave goal)

/-- A leave takes the reply to its request, or gives up waiting for it, and then it cancels the
request either way. -/
theorem awaitLeave_callStep {goal : Goal} {seq : Int32} {deadline : Nat}
    (step : advance c now h created m (.awaitLeave goal seq deadline) = some (c', s')) :
    CallStep c h m (.awaitLeave goal seq deadline) c' s' := by
  unfold advance at step
  dsimp only at step
  split at step
  · rename_i taken
    exact .of_some step (.giveUp rfl rfl rfl rfl (congrArg Prod.snd taken).symm)
  · rename_i taken
    split at step
    · exact nomatch step
    · exact .of_some step (.giveUp rfl rfl rfl rfl (congrArg Prod.snd taken).symm)

theorem cancelLeave_callStep {goal : Goal} {seq : Int32} {reply : Option Reply}
    (step : advance c now h created m (.cancelLeave goal seq reply) = some (c', s')) :
    CallStep c h m (.cancelLeave goal seq reply) c' s' := by
  unfold advance at step
  dsimp only at step
  split at step
  · exact .of_some step (.cancel (claim_afterLeave goal) rfl (errand_afterLeave goal))
  · exact .of_some step (.cancel (claim_afterLeave goal) rfl (errand_afterLeave goal))
  · exact .of_some step (.cancel rfl rfl rfl)

theorem judgeLeave_callStep {goal : Goal}
    (step : advance c now h created m (.judgeLeave goal) = some (c', s')) :
    CallStep c h m (.judgeLeave goal) c' s' := by
  refine .of_some step ?_
  split
  · exact .look (claim_failLeave _ goal) rfl (errand_failLeave _ goal)
  · exact .look (claim_afterLeave goal) rfl (errand_afterLeave goal)

theorem lookMembers_callStep {count : MemberCount} {deadline : Nat}
    (step : advance c now h created m (.lookMembers count deadline) = some (c', s')) :
    CallStep c h m (.lookMembers count deadline) c' s' := by
  unfold advance at step
  dsimp only at step
  split at step
  · split at step
    · exact .of_some step (.look rfl rfl rfl)
    · exact .of_some step (.look rfl rfl rfl)
  · exact .of_some step (.look rfl rfl rfl)

/-- A wait at a sync point begins if there is none. -/
theorem enterSync_callStep {point : NodeId} {timeout : Nat}
    (step : advance c now h created m (.enterSync point timeout) = some (c', s')) :
    CallStep c h m (.enterSync point timeout) c' s' := by
  unfold advance at step
  dsimp only at step
  split at step
  · exact .of_some step (.look rfl rfl rfl)
  · split at step
    · exact .of_some step (.look rfl rfl rfl)
    · rename_i free
      exact .of_some step (.beginWait rfl rfl rfl rfl (by simpa using free) rfl)

theorem awaitSync_callStep {seq : Int32} {deadline : Nat}
    (step : advance c now h created m (.awaitSync seq deadline) = some (c', s')) :
    CallStep c h m (.awaitSync seq deadline) c' s' := by
  unfold advance at step
  dsimp only at step
  split at step
  · exact .of_some step (.stopWait rfl rfl rfl rfl)
  · split at step
    · exact nomatch step
    · exact .of_some step (.stopWait rfl rfl rfl rfl)

/-- Every step of a call is one of these. -/
theorem advance_callStep (step : advance c now h created m s = some (c', s')) :
    CallStep c h m s c' s' := by
  cases s with
  | enter goal => exact enter_callStep step
  | lookJoined token => exact lookJoined_callStep step
  | lookLeft goal => exact lookLeft_callStep step
  | draftLeave goal => exact .of_some step (.draft rfl rfl rfl rfl rfl)
  | recordLeave goal p => exact .of_some step (.record rfl rfl rfl rfl rfl id)
  | sendLeave goal p => exact send_callStep step rfl (fun _ => ⟨rfl, rfl⟩) fun _ => ⟨rfl, rfl⟩
  | abandonLeave goal e =>
    exact .of_some step (.abandon rfl (claim_failLeave _ goal) rfl (errand_failLeave _ goal) rfl)
  | awaitLeave goal seq deadline => exact awaitLeave_callStep step
  | cancelLeave goal seq reply => exact cancelLeave_callStep step
  | judgeLeave goal => exact judgeLeave_callStep step
  | draftJoin token => exact .of_some step (.draft rfl rfl rfl rfl rfl)
  | recordJoin token p => exact .of_some step (.record rfl rfl rfl rfl rfl id)
  | sendJoin p => exact send_callStep step rfl (fun _ => ⟨rfl, rfl⟩) fun _ => ⟨rfl, rfl⟩
  | abandonJoin e => exact .of_some step (.abandon rfl rfl rfl rfl rfl)
  | awaitJoin seq deadline => exact awaitJoin_callStep step
  | cancelJoin seq => exact .of_some step (.cancel rfl rfl rfl)
  | exit outcome => exact exit_callStep step
  | lookForget e =>
    refine .of_some step ?_
    split
    · exact .look rfl rfl rfl
    · exact .look rfl rfl rfl
  | forget e => exact .of_some step (.forget rfl rfl rfl rfl)
  | lookMembers count deadline => exact lookMembers_callStep step
  | awaitMembers count deadline =>
    obtain ⟨result, -, done⟩ := Option.map_eq_some_iff.mp step
    exact .of_some (congrArg some done) (.look rfl rfl rfl)
  | enterSync point timeout => exact enterSync_callStep step
  | draftSync point timeout => exact .of_some step (.draft rfl rfl rfl rfl ⟨_, _, rfl⟩)
  | recordSync p timeout => exact .of_some step (.markWait rfl rfl rfl rfl rfl id)
  | sendSync p timeout => exact send_callStep step rfl (fun _ => ⟨rfl, rfl⟩) fun _ => ⟨rfl, rfl⟩
  | awaitSync seq deadline => exact awaitSync_callStep step
  | cancelSync seq outcome => exact .of_some step (.cancel rfl rfl rfl)
  | exitSync result => exact .of_some step (.endWait rfl rfl rfl rfl rfl)
  | done outcome => exact nomatch step

end

theorem step_advance {c c' : Client} {now : Nat} {call call' : Call}
    (run : call.step c now = some (c', call')) : ∃ m s', c.records[call.handle]? = some m ∧
      advance c now call.handle call.created m call.stage = some (c', s') ∧
      call' = { call with stage := s' } := by
  unfold step at run
  obtain ⟨m, record, run⟩ := Option.bind_eq_some_iff.mp run
  obtain ⟨⟨c₁, s'⟩, advanced, eq⟩ := Option.bind_eq_some_iff.mp run
  obtain ⟨rfl, rfl⟩ := Prod.mk.inj (Option.some.inj eq)
  exact ⟨m, s', record, advanced, rfl⟩

end Call
end Muster
