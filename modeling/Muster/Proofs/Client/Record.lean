import Muster.Proofs.Client.CallStep
import Muster.Proofs.Client.Hearing

/-! What one step of a call does to the record of its group, to its request, and to the link. -/
namespace Muster

def Membership.claimed (m : Membership) : Claim → Bool
  | .none => false
  | .lock => m.busy
  | .wait => m.wait.isSome

/-- Whether a record knows a request by its number: the one of a join or leave, or the one of
a wait. -/
def Membership.Knows (m : Membership) (seq : Int32) : Claim → Prop
  | .none => False
  | .lock => m.exchange = .awaiting seq
  | .wait => m.wait.bind SyncWait.seq = some seq

theorem Membership.knows_of_mark {m : Membership} {w : SyncWait} {seq : Int32}
    (wait : m.wait = some w) (mark : w.seq = some seq) : m.Knows seq .wait := by
  show m.wait.bind SyncWait.seq = _
  rw [wait]
  exact mark

/-- Whether a record that someone has claimed can know the number of the request. -/
def Errand.notes : Errand → Claim → Bool
  | .recorded _, _ | .awaiting _, _ | .ended, _ | .cancelling _, .wait => true
  | .none, _ | .drafted _, _ | .cancelling _, _ => false

namespace Call

/-- What a step of a call can do to the record of its group. -/
inductive Moved (m : Membership) (s : CallStage) : Membership → CallStage → Prop where
  | same {s' : CallStage} (claim : s'.claim = s.claim)
      (notes : s.errand.notes s.claim → s'.errand.notes s.claim)
      (waits : s.claim = .lock → ∀ seq, s.errand ≠ .awaiting seq) : Moved m s m s'
  | enter {s' : CallStage} (claim : s.claim = .none) (claim' : s'.claim = .lock)
      (free : m.busy = false) : Moved m s { m with busy := true } s'
  | record {s' : CallStage} {p : Packet} {token : Token} (claim : s.claim = .lock)
      (claim' : s'.claim = .lock) (errand : s.errand = .drafted p)
      (errand' : s'.errand = .recorded p) :
      Moved m s { m with token, exchange := .awaiting p.seq } s'
  | abandon {s' : CallStage} (claim : s.claim = .lock) (claim' : s'.claim = .lock)
      (errand : s.errand = .ended) : Moved m s { m with exchange := m.exchange.forget } s'
  | take {s' : CallStage} {seq : Int32} (claim : s.claim = .lock) (claim' : s'.claim = .lock)
      (errand : s.errand = .awaiting seq) : Moved m s (m.takeReply seq).2 s'
  | exit {s' : CallStage} (claim : s.claim = .lock) (claim' : s'.claim = .none)
      (idle : s.errand = .none) : Moved m s { m with busy := false } s'
  | beginWait {s' : CallStage} {point : NodeId} (claim : s.claim = .none)
      (claim' : s'.claim = .wait) (free : m.wait = none) :
      Moved m s { m with wait := some (.begin point) } s'
  | markWait {s' : CallStage} {p : Packet} (claim : s.claim = .wait) (claim' : s'.claim = .wait)
      (errand : s.errand = .drafted p) (errand' : s'.errand = .recorded p) :
      Moved m s { m with wait := m.wait.map fun w => { w with seq := some p.seq } } s'
  | endWait {s' : CallStage} (claim : s.claim = .wait) (claim' : s'.claim = .none) :
      Moved m s { m with wait := none } s'

section
variable {c c' : Client} {h k : Handle} {m m' : Membership} {s s' : CallStage}

theorem update_own (record : c.records[h]? = some m) {f : Membership → Membership}
    (change : f m = m') : (c.update h f).records[h]? = some m' := by
  rw [Client.update_records, if_pos rfl, record, Option.map_some, change]

theorem CallStep.frame (step : CallStep c h m s c' s') (ne : k ≠ h) :
    c'.records[k]? = c.records[k]? := by
  have updated (f : Membership → Membership) : (c.update h f).records[k]? = c.records[k]? := by
    rw [Client.update_records, if_neg ne.symm]
  cases step with
  | look => rfl
  | enter => exact updated _
  | draft => rfl
  | record => exact updated _
  | sent claim errand errand' run =>
    have sent := c.send_records ‹Packet›
    rw [run] at sent
    rw [sent]
  | unsent claim errand errand' run =>
    have sent := c.send_records ‹Packet›
    rw [run] at sent
    rw [sent]
  | abandon => exact updated _
  | giveUp => exact updated _
  | finish => exact updated _
  | cancel => rfl
  | exit => exact updated _
  | forget => rw [Client.forget_records]
  | beginWait => exact updated _
  | markWait => exact updated _
  | stopWait => rfl
  | endWait => exact updated _

theorem CallStep.moved (record : c.records[h]? = some m) (step : CallStep c h m s c' s') :
    ∃ m', c'.records[h]? = some m' ∧ Moved m s m' s' := by
  cases step with
  | look claim idle idle' =>
    exact ⟨m, record, .same claim (by simp [idle, Errand.notes]) (by simp [idle])⟩
  | enter claim claim' idle idle' free change =>
    exact ⟨_, update_own record change, .enter claim claim' free⟩
  | draft claim idle errand' message asks =>
    exact ⟨m, record, .same claim (by simp [idle, Errand.notes]) (by simp [idle])⟩
  | record claim claim' errand errand' change asks =>
    exact ⟨_, update_own record change, .record claim claim' errand errand'⟩
  | sent claim errand errand' run =>
    have sent := c.send_records ‹Packet›
    rw [run] at sent
    rw [← sent] at record
    exact ⟨m, record, .same claim (by simp [errand', Errand.notes]) (by simp [errand])⟩
  | unsent claim errand errand' run =>
    have sent := c.send_records ‹Packet›
    rw [run] at sent
    rw [← sent] at record
    exact ⟨m, record, .same claim (by simp [errand', Errand.notes]) (by simp [errand])⟩
  | abandon claim claim' errand errand' change =>
    exact ⟨_, update_own record change, .abandon claim claim' errand⟩
  | giveUp claim claim' errand errand' change =>
    exact ⟨_, update_own record change, .take claim claim' errand⟩
  | finish claim claim' errand errand' answered change =>
    exact ⟨_, update_own record change, .take claim claim' errand⟩
  | cancel claim errand errand' =>
    refine ⟨m, record, .same claim ?_ (by simp [errand])⟩
    intro noted
    rw [errand] at noted
    rw [errand']
    cases hc : s.claim with
    | none => simp [hc, Errand.notes] at noted
    | lock => simp [hc, Errand.notes] at noted
    | wait => rfl
  | exit claim claim' idle idle' change =>
    exact ⟨_, update_own record change, .exit claim claim' idle⟩
  | forget claim claim' idle idle' =>
    refine ⟨m, ?_, .same (claim'.trans claim.symm) (by simp [idle, Errand.notes]) (by simp [idle])⟩
    rw [Client.forget_records]
    exact record
  | beginWait claim claim' idle idle' free change =>
    exact ⟨_, update_own record change, .beginWait claim claim' free⟩
  | markWait claim claim' errand errand' change asks =>
    exact ⟨_, update_own record change, .markWait claim claim' errand errand'⟩
  | stopWait claim claim' errand errand' =>
    refine ⟨m, record, .same (claim'.trans claim.symm) ?_ ?_⟩
    · simp [claim, errand', Errand.notes]
    · simp [claim]
  | endWait claim claim' errand errand' change =>
    exact ⟨_, update_own record change, .endWait claim claim'⟩

end

namespace Moved
variable {m m' : Membership} {s s' : CallStage}

theorem id (move : Moved m s m' s') : m'.id = m.id := by
  cases move <;> rfl

theorem members (move : Moved m s m' s') : m'.members = m.members := by
  cases move <;> rfl

theorem token (move : Moved m s m' s') :
    m'.token = m.token ∨ s.claim = .lock ∧ ∃ p, s.errand = .drafted p := by
  cases move with
  | record claim claim' errand errand' => exact .inr ⟨claim, _, errand⟩
  | same | enter | abandon | take | exit | beginWait | markWait | endWait => exact .inl rfl

theorem claimed {k : Claim} (move : Moved m s m' s') (ne : k ≠ .none) (claim' : s'.claim = k) :
    s.claim = k ∧ m'.claimed k = m.claimed k ∨
      m.claimed k = false ∧ m'.claimed k = true := by
  cases move with
  | same claim notes waits => exact .inl ⟨claim ▸ claim', rfl⟩
  | enter claim eq free =>
    obtain rfl : k = .lock := claim'.symm.trans eq
    exact .inr ⟨free, rfl⟩
  | record claim eq errand errand' =>
    obtain rfl : k = .lock := claim'.symm.trans eq
    exact .inl ⟨claim, rfl⟩
  | abandon claim eq errand =>
    obtain rfl : k = .lock := claim'.symm.trans eq
    exact .inl ⟨claim, rfl⟩
  | take claim eq errand =>
    obtain rfl : k = .lock := claim'.symm.trans eq
    exact .inl ⟨claim, rfl⟩
  | exit claim eq idle => exact absurd (claim'.symm.trans eq) ne
  | beginWait claim eq free =>
    obtain rfl : k = .wait := claim'.symm.trans eq
    exact .inr ⟨congrArg Option.isSome free, rfl⟩
  | markWait claim eq errand errand' =>
    obtain rfl : k = .wait := claim'.symm.trans eq
    exact .inl ⟨claim, Option.isSome_map⟩
  | endWait claim eq => exact absurd (claim'.symm.trans eq) ne

/-- A call leaves alone what it has no claim to. -/
theorem unclaimed (move : Moved m s m' s') (k : Claim) :
    s.claim = k ∨ s'.claim = k ∨ m'.claimed k = m.claimed k := by
  cases move with
  | same => exact .inr (.inr rfl)
  | enter claim claim' free =>
    cases k with
    | lock => exact .inr (.inl claim')
    | none => exact .inr (.inr rfl)
    | wait => exact .inr (.inr rfl)
  | record => cases k <;> exact .inr (.inr rfl)
  | abandon => cases k <;> exact .inr (.inr rfl)
  | take => cases k <;> exact .inr (.inr rfl)
  | exit claim claim' idle =>
    cases k with
    | lock => exact .inl claim
    | none => exact .inr (.inr rfl)
    | wait => exact .inr (.inr rfl)
  | beginWait claim claim' free =>
    cases k with
    | lock => exact .inr (.inr rfl)
    | none => exact .inr (.inr rfl)
    | wait => exact .inr (.inl claim')
  | markWait claim claim' errand errand' =>
    cases k with
    | lock => exact .inr (.inr rfl)
    | none => exact .inr (.inr rfl)
    | wait => exact .inl claim
  | endWait claim claim' =>
    cases k with
    | lock => exact .inr (.inr rfl)
    | none => exact .inr (.inr rfl)
    | wait => exact .inl claim

/-- A record knows a number because the call has just told it, or from before. A call that is
done with a request of this number has the record forget it. -/
theorem knows {seq : Int32} {k : Claim} (move : Moved m s m' s') (known : m'.Knows seq k) :
    (s'.claim = k ∧ ∃ p, s.errand = .drafted p ∧ s'.errand = .recorded p ∧ p.seq = seq) ∨
      m.Knows seq k ∧ (s.claim = k → s.errand.notes k →
        s'.claim = k ∧ s'.errand.notes k ∨ ∃ n, s.errand = .awaiting n ∧ n ≠ seq) := by
  have elsewhere {k' : Claim} (claim : s.claim = k') (ne : k' ≠ k) (same : m.Knows seq k) :
      m.Knows seq k ∧ (s.claim = k → s.errand.notes k →
        s'.claim = k ∧ s'.errand.notes k ∨ ∃ n, s.errand = .awaiting n ∧ n ≠ seq) :=
    ⟨same, fun hc => absurd (claim.symm.trans hc) ne⟩
  cases k with
  | none => exact known.elim
  | lock =>
    cases move with
    | same claim notes waits =>
      right
      refine ⟨known, fun hc noted => .inl ⟨claim.trans hc, ?_⟩⟩
      rw [hc] at notes
      exact notes noted
    | enter claim claim' free => exact .inr (elsewhere claim (by decide) known)
    | record claim claim' errand errand' =>
      exact .inl ⟨claim', _, errand, errand', Exchange.awaiting.inj known⟩
    | abandon claim claim' errand =>
      have known : m.exchange.forget = .awaiting seq := known
      unfold Exchange.forget at known
      split at known
      · exact nomatch known
      · rename_i other
        exact absurd known (other seq)
    | take claim claim' errand =>
      rename_i n
      have known : (m.exchange.take n).2 = .awaiting seq := known
      unfold Exchange.take at known
      split at known
      · exact nomatch known
      · rename_i awaited
        split at known
        · exact nomatch known
        · rename_i ne
          obtain rfl := Exchange.awaiting.inj known
          exact .inr ⟨awaited, fun _ _ => .inr ⟨n, errand, Ne.symm ne⟩⟩
      · exact nomatch known
    | exit claim claim' idle =>
      right
      refine ⟨known, fun _ noted => ?_⟩
      rw [idle] at noted
      exact nomatch noted
    | beginWait claim claim' free => exact .inr (elsewhere claim (by decide) known)
    | markWait claim claim' errand errand' => exact .inr (elsewhere claim (by decide) known)
    | endWait claim claim' => exact .inr (elsewhere claim (by decide) known)
  | wait =>
    cases move with
    | same claim notes waits =>
      right
      refine ⟨known, fun hc noted => .inl ⟨claim.trans hc, ?_⟩⟩
      rw [hc] at notes
      exact notes noted
    | enter claim claim' free => exact .inr (elsewhere claim (by decide) known)
    | record claim claim' errand errand' => exact .inr (elsewhere claim (by decide) known)
    | abandon claim claim' errand => exact .inr (elsewhere claim (by decide) known)
    | take claim claim' errand => exact .inr (elsewhere claim (by decide) known)
    | exit claim claim' idle => exact .inr (elsewhere claim (by decide) known)
    | beginWait claim claim' free => exact nomatch known
    | markWait claim claim' errand errand' =>
      left
      refine ⟨claim', _, errand, errand', ?_⟩
      obtain ⟨w, marked, eq⟩ := Option.bind_eq_some_iff.mp known
      obtain ⟨w₀, -, rfl⟩ := Option.map_eq_some_iff.mp marked
      exact Option.some.inj eq
    | endWait claim claim' => exact nomatch known

theorem answered {reply : Reply} (move : Moved m s m' s') (h : m'.exchange = .answered reply) :
    m.exchange = .answered reply ∧ (s.claim = .lock → ∀ seq, s.errand ≠ .awaiting seq) := by
  cases move with
  | same claim notes waits => exact ⟨h, waits⟩
  | enter claim claim' free => exact ⟨h, fun hc => nomatch claim.symm.trans hc⟩
  | record => exact nomatch h
  | abandon claim claim' errand =>
    have h : m.exchange.forget = .answered reply := h
    unfold Exchange.forget at h
    split at h
    · exact nomatch h
    · refine ⟨h, fun _ seq awaiting => ?_⟩
      rw [errand] at awaiting
      exact nomatch awaiting
  | take claim claim' errand =>
    rename_i n
    have h : (m.exchange.take n).2 = .answered reply := h
    unfold Exchange.take at h
    split at h
    · exact nomatch h
    · split at h
      · exact nomatch h
      · exact nomatch h
    · exact nomatch h
  | exit claim claim' idle =>
    refine ⟨h, fun _ seq awaiting => ?_⟩
    rw [idle] at awaiting
    exact nomatch awaiting
  | beginWait claim claim' free => exact ⟨h, fun hc => nomatch claim.symm.trans hc⟩
  | markWait claim claim' errand errand' => exact ⟨h, fun hc => nomatch claim.symm.trans hc⟩
  | endWait claim claim' => exact ⟨h, fun hc => nomatch claim.symm.trans hc⟩

/-- What a wait has earned stays until the call that waits is over. -/
theorem earned {Q : SyncWait → Prop} (earned : SyncWait.Earned Q) {w' : SyncWait}
    (move : Moved m s m' s') (wait : m'.wait = some w') (h : Q w') :
    ∃ w, m.wait = some w ∧ Q w ∧
      (s.claim = .wait → s.errand.notes .wait → s'.claim = .wait ∧ s'.errand.notes .wait) := by
  cases move with
  | same claim notes waits =>
    refine ⟨w', wait, h, fun hc noted => ⟨claim.trans hc, ?_⟩⟩
    rw [hc] at notes
    exact notes noted
  | enter claim claim' free => exact ⟨w', wait, h, fun hc => nomatch claim.symm.trans hc⟩
  | record claim claim' errand errand' =>
    exact ⟨w', wait, h, fun hc => nomatch claim.symm.trans hc⟩
  | abandon claim claim' errand => exact ⟨w', wait, h, fun hc => nomatch claim.symm.trans hc⟩
  | take claim claim' errand => exact ⟨w', wait, h, fun hc => nomatch claim.symm.trans hc⟩
  | exit claim claim' idle => exact ⟨w', wait, h, fun hc => nomatch claim.symm.trans hc⟩
  | beginWait claim claim' free =>
    obtain rfl := Option.some.inj wait
    exact absurd h (earned.begin _)
  | markWait claim claim' errand errand' =>
    obtain ⟨w, eq, rfl⟩ := Option.map_eq_some_iff.mp wait
    refine ⟨w, eq, earned.mark w _ h, fun _ noted => ?_⟩
    rw [errand] at noted
    exact nomatch noted
  | endWait => exact nomatch wait

end Moved
inductive Next : Errand → Errand → Prop where
  | idle : Next .none .none
  | draft (p : Packet) : Next .none (.drafted p)
  | record (p : Packet) : Next (.drafted p) (.recorded p)
  | send (p : Packet) : Next (.recorded p) (.awaiting p.seq)
  | fail (p : Packet) : Next (.recorded p) .ended
  | stop (seq : Int32) : Next (.awaiting seq) (.cancelling seq)
  | finish (seq : Int32) : Next (.awaiting seq) .none
  | cancel (seq : Int32) : Next (.cancelling seq) .none
  | drop (seq : Int32) : Next (.cancelling seq) .ended
  | forget : Next .ended .none

theorem Next.of_awaiting {seq : Int32} {e : Errand} (next : Next (.awaiting seq) e) :
    e = .cancelling seq ∨ e = .none := by
  cases next with
  | stop => exact .inl rfl
  | finish => exact .inr rfl

namespace CallStep
variable {c c' : Client} {h : Handle} {m : Membership} {s s' : CallStage}

theorem next (step : CallStep c h m s c' s') : Next s.errand s'.errand := by
  cases step with
  | look claim idle idle' =>
    rw [idle, idle']
    exact .idle
  | enter claim claim' idle idle' =>
    rw [idle, idle']
    exact .idle
  | draft claim idle errand' =>
    rw [idle, errand']
    exact .draft _
  | record claim claim' errand errand' =>
    rw [errand, errand']
    exact .record _
  | sent claim errand errand' =>
    rw [errand, errand']
    exact .send _
  | unsent claim errand errand' =>
    rw [errand, errand']
    exact .fail _
  | abandon claim claim' errand errand' =>
    rw [errand, errand']
    exact .forget
  | giveUp claim claim' errand errand' =>
    rw [errand, errand']
    exact .stop _
  | finish claim claim' errand errand' =>
    rw [errand, errand']
    exact .finish _
  | cancel claim errand errand' =>
    rw [errand, errand']
    split
    · exact .drop _
    · exact .cancel _
  | exit claim claim' idle idle' =>
    rw [idle, idle']
    exact .idle
  | forget claim claim' idle idle' =>
    rw [idle, idle']
    exact .idle
  | beginWait claim claim' idle idle' =>
    rw [idle, idle']
    exact .idle
  | markWait claim claim' errand errand' =>
    rw [errand, errand']
    exact .record _
  | stopWait claim claim' errand errand' =>
    rw [errand, errand']
    exact .stop _
  | endWait claim claim' errand errand' =>
    rw [errand, errand']
    exact .forget

theorem link_none (step : CallStep c h m s c' s') (closed : c.link = none) : c'.link = none := by
  cases step with
  | sent claim errand errand' run =>
    have kept := Client.send_link_none c closed (p := ‹Packet›)
    rw [run] at kept
    exact kept
  | unsent claim errand errand' run =>
    have kept := Client.send_link_none c closed (p := ‹Packet›)
    rw [run] at kept
    exact kept
  | cancel =>
    show c.link.map _ = none
    rw [closed]
    rfl
  | forget =>
    rw [Client.forget_link]
    exact closed
  | look | enter | draft | record | abandon | giveUp | finish | exit | beginWait | markWait
  | stopWait | endWait => exact closed

/-- What is outstanding was so before, unless it was just sent. -/
theorem pending {seq : Int32} {message : Message} (step : CallStep c h m s c' s')
    (asks : s.Asks m) (outstanding : c'.pending[seq]? = some message) :
    c.pending[seq]? = some message ∧ s.errand ≠ .cancelling seq ∧
        (∀ p n, s.errand = .recorded p → s'.errand = .awaiting n → p.seq ≠ seq) ∨
      ∃ p, s.errand = .recorded p ∧ s'.errand = .awaiting p.seq ∧ p.seq = seq ∧
        p.message = message := by
  have before (link : c'.link = c.link) (other : s.errand ≠ .cancelling seq ∧
      ∀ p, s.errand ≠ .recorded p) : c.pending[seq]? = some message ∧
        s.errand ≠ .cancelling seq ∧
        (∀ p n, s.errand = .recorded p → s'.errand = .awaiting n → p.seq ≠ seq) := by
    rw [Client.pending_of_link link] at outstanding
    exact ⟨outstanding, other.1, fun p n errand => absurd errand (other.2 p)⟩
  cases step with
  | look claim idle idle' => exact .inl (before rfl (by simp [idle]))
  | enter claim claim' idle idle' => exact .inl (before rfl (by simp [idle]))
  | draft claim idle errand' => exact .inl (before rfl (by simp [idle]))
  | record claim claim' errand errand' => exact .inl (before rfl (by simp [errand]))
  | sent claim errand errand' run =>
    rename_i p
    obtain ⟨-, sent⟩ := Client.send_pending (congrArg Prod.fst run) (asks.role (.inr errand))
    rw [run] at sent
    rw [sent, Table.getElem?_insert] at outstanding
    split at outstanding
    · rename_i eq
      exact .inr ⟨p, errand, errand', eq, Option.some.inj outstanding⟩
    · rename_i ne
      refine .inl ⟨outstanding, by simp [errand], ?_⟩
      intro q n errand₁ _
      obtain rfl := Errand.recorded.inj (errand.symm.trans errand₁)
      exact ne
  | unsent claim errand errand' run =>
    rename_i p e
    have before : c.pending[seq]? = some message := by
      apply Client.unsent_pending (congrArg Prod.fst run)
      rw [run]
      exact outstanding
    refine .inl ⟨before, by simp [errand], ?_⟩
    intro q n _ awaiting
    exact nomatch errand'.symm.trans awaiting
  | abandon claim claim' errand errand' => exact .inl (before rfl (by simp [errand]))
  | giveUp claim claim' errand errand' => exact .inl (before rfl (by simp [errand]))
  | finish claim claim' errand errand' => exact .inl (before rfl (by simp [errand]))
  | cancel claim errand errand' =>
    rename_i n
    rw [Client.cancel_pending, Table.getElem?_erase] at outstanding
    split at outstanding
    · exact nomatch outstanding
    · rename_i ne
      refine .inl ⟨outstanding, ?_, ?_⟩
      · rw [errand]
        exact fun eq => ne (Errand.cancelling.inj eq)
      · intro q n errand₁
        exact nomatch errand.symm.trans errand₁
  | exit claim claim' idle idle' => exact .inl (before rfl (by simp [idle]))
  | forget claim claim' idle idle' =>
    exact .inl (before (c.forget_link h) (by simp [idle]))
  | beginWait claim claim' idle idle' => exact .inl (before rfl (by simp [idle]))
  | markWait claim claim' errand errand' => exact .inl (before rfl (by simp [errand]))
  | stopWait claim claim' errand errand' => exact .inl (before rfl (by simp [errand]))
  | endWait claim claim' errand errand' => exact .inl (before rfl (by simp [errand]))

theorem finished {seq : Int32} (step : CallStep c h m s c' s') (errand : s.errand = .awaiting seq)
    (done : s'.errand = .none) : s.claim = .lock ∧ ∃ reply, m.exchange = .answered reply := by
  cases step with
  | finish claim claim' errand errand' answered => exact ⟨claim, _, answered⟩
  | look claim idle => exact nomatch idle.symm.trans errand
  | enter claim claim' idle => exact nomatch idle.symm.trans errand
  | draft claim idle => exact nomatch idle.symm.trans errand
  | record claim claim' before => exact nomatch before.symm.trans errand
  | sent claim before => exact nomatch before.symm.trans errand
  | unsent claim before => exact nomatch before.symm.trans errand
  | abandon claim claim' before => exact nomatch before.symm.trans errand
  | giveUp claim claim' before after => exact nomatch after.symm.trans done
  | cancel claim before => exact nomatch before.symm.trans errand
  | exit claim claim' idle => exact nomatch idle.symm.trans errand
  | forget claim claim' idle => exact nomatch idle.symm.trans errand
  | beginWait claim claim' idle => exact nomatch idle.symm.trans errand
  | markWait claim claim' before => exact nomatch before.symm.trans errand
  | stopWait claim claim' before after => exact nomatch after.symm.trans done
  | endWait claim claim' before => exact nomatch before.symm.trans errand

theorem unsent_after (step : CallStep c h m s c' s') (unsent : s'.Unsent) :
    s.errand = .none ∧ (∃ p, s'.errand = .drafted p) ∨
      s.Unsent ∧ ∀ seq, s'.errand ≠ .awaiting seq := by
  obtain ⟨p, eq⟩ | ⟨p, eq⟩ | ⟨claim, eq⟩ := unsent
  · left
    have next := step.next
    rw [eq] at next
    cases hs : s.errand <;> rw [hs] at next <;> cases next
    exact ⟨rfl, p, eq⟩
  · right
    have next := step.next
    rw [eq] at next
    cases hs : s.errand <;> rw [hs] at next <;> cases next
    refine ⟨.inl ⟨p, hs⟩, ?_⟩
    rw [eq]
    exact nofun
  · right
    have next := step.next
    refine ⟨?_, by simp [eq]⟩
    rw [eq] at next
    cases hs : s.errand <;> rw [hs] at next <;> cases next
    · exact .inr (.inl ⟨_, hs⟩)
    · exfalso
      cases step <;> simp_all

theorem asks {m' : Membership} (step : CallStep c h m s c' s') (record : c.records[h]? = some m)
    (record' : c'.records[h]? = some m') (asks : s.Asks m) : s'.Asks m' := by
  obtain ⟨m₁, found, move⟩ := step.moved record
  obtain rfl : m₁ = m' := Option.some.inj (found.symm.trans record')
  have quiet (drafted : ∀ p, s'.errand ≠ .drafted p) (recorded : ∀ p, s'.errand ≠ .recorded p) :
      s'.Asks m₁ := CallStage.asks_of_errand drafted recorded
  cases step with
  | draft claim idle errand' message asks' =>
    obtain rfl : m = m₁ := Option.some.inj (record.symm.trans found)
    exact asks'
  | record claim claim' errand errand' change asks' =>
    obtain rfl := Option.some.inj ((update_own record change).symm.trans found)
    exact asks' asks
  | markWait claim claim' errand errand' change asks' =>
    obtain rfl := Option.some.inj ((update_own record change).symm.trans found)
    exact (asks' asks).congr rfl rfl
  | look claim idle idle' => exact quiet (by simp [idle']) (by simp [idle'])
  | enter claim claim' idle idle' => exact quiet (by simp [idle']) (by simp [idle'])
  | sent claim errand errand' => exact quiet (by simp [errand']) (by simp [errand'])
  | unsent claim errand errand' => exact quiet (by simp [errand']) (by simp [errand'])
  | abandon claim claim' errand errand' => exact quiet (by simp [errand']) (by simp [errand'])
  | giveUp claim claim' errand errand' => exact quiet (by simp [errand']) (by simp [errand'])
  | finish claim claim' errand errand' => exact quiet (by simp [errand']) (by simp [errand'])
  | cancel claim errand errand' =>
    apply quiet
    · intro p
      rw [errand']
      split <;> exact nofun
    · intro p
      rw [errand']
      split <;> exact nofun
  | exit claim claim' idle idle' => exact quiet (by simp [idle']) (by simp [idle'])
  | forget claim claim' idle idle' => exact quiet (by simp [idle']) (by simp [idle'])
  | beginWait claim claim' idle idle' => exact quiet (by simp [idle']) (by simp [idle'])
  | stopWait claim claim' errand errand' => exact quiet (by simp [errand']) (by simp [errand'])
  | endWait claim claim' errand errand' => exact quiet (by simp [errand']) (by simp [errand'])

theorem size (step : CallStep c h m s c' s') : c'.records.size = c.records.size := by
  cases step with
  | sent claim errand errand' run =>
    have kept := c.send_records ‹Packet›
    rw [run] at kept
    exact congrArg _ kept
  | unsent claim errand errand' run =>
    have kept := c.send_records ‹Packet›
    rw [run] at kept
    exact congrArg _ kept
  | forget => rw [Client.forget_records]
  | look | draft | cancel | stopWait => rfl
  | enter | record | abandon | giveUp | finish | exit | beginWait | markWait | endWait =>
    exact c.update_size h _

/-- A step may forget a group, but it opens none. -/
theorem known {id : NodeId} {k : Handle} (step : CallStep c h m s c' s')
    (known : c'.groups[id]? = some k) : c.groups[id]? = some k := by
  cases step with
  | sent claim errand errand' run =>
    have kept := c.send_groups ‹Packet›
    rw [run] at kept
    rw [← kept]
    exact known
  | unsent claim errand errand' run =>
    have kept := c.send_groups ‹Packet›
    rw [run] at kept
    rw [← kept]
    exact known
  | forget =>
    unfold Client.forget at known
    split at known
    · split at known
      · rw [Table.getElem?_erase] at known
        split at known
        · exact nomatch known
        · exact known
      · exact known
    · exact known
  | look | enter | draft | record | abandon | giveUp | finish | cancel | exit | beginWait
  | markWait | stopWait | endWait => exact known

theorem frame_standing (step : CallStep c h m s c' s') :
    c'.standing = c.standing ∧ c'.id = c.id := by
  cases step with
  | sent claim errand errand' run =>
    have standing := c.send_standing ‹Packet›
    have id := c.send_id ‹Packet›
    rw [run] at standing id
    exact ⟨standing, id⟩
  | unsent claim errand errand' run =>
    have standing := c.send_standing ‹Packet›
    have id := c.send_id ‹Packet›
    rw [run] at standing id
    exact ⟨standing, id⟩
  | forget => exact ⟨c.forget_standing h, c.forget_id h⟩
  | look | enter | draft | record | abandon | giveUp | finish | cancel | exit | beginWait
  | markWait | stopWait | endWait => exact ⟨rfl, rfl⟩

theorem sender {p : Packet} (step : CallStep c h m s c' s')
    (errand : s'.errand = .drafted p ∨ s'.errand = .recorded p) :
    s.errand = .drafted p ∨ p.message.sender = c.token := by
  cases step with
  | draft claim idle errand' message =>
    right
    rcases errand with errand | errand
    · obtain rfl := Errand.drafted.inj (errand'.symm.trans errand)
      rw [message]
    · exact nomatch errand'.symm.trans errand
  | record claim claim' before errand' =>
    left
    rcases errand with errand | errand
    · exact nomatch errand'.symm.trans errand
    · obtain rfl := Errand.recorded.inj (errand'.symm.trans errand)
      exact before
  | markWait claim claim' before errand' =>
    left
    rcases errand with errand | errand
    · exact nomatch errand'.symm.trans errand
    · obtain rfl := Errand.recorded.inj (errand'.symm.trans errand)
      exact before
  | look claim idle idle' => simp [idle'] at errand
  | enter claim claim' idle idle' => simp [idle'] at errand
  | sent claim before errand' => simp [errand'] at errand
  | unsent claim before errand' => simp [errand'] at errand
  | abandon claim claim' before errand' => simp [errand'] at errand
  | giveUp claim claim' before errand' => simp [errand'] at errand
  | finish claim claim' before errand' => simp [errand'] at errand
  | cancel claim before errand' =>
    rw [errand'] at errand
    split at errand <;> exact errand.elim nofun nofun
  | exit claim claim' idle idle' => simp [idle'] at errand
  | forget claim claim' idle idle' => simp [idle'] at errand
  | beginWait claim claim' idle idle' => simp [idle'] at errand
  | stopWait claim claim' before errand' => simp [errand'] at errand
  | endWait claim claim' before errand' => simp [errand'] at errand

theorem sought {m' : Membership} {r : Body} (step : CallStep c h m s c' s')
    (record : c.records[h]? = some m) (record' : c'.records[h]? = some m') (asks : s.Asks m)
    (claim : s'.claim = .lock) (notes : s'.errand.notes .lock)
    (carries : ∀ p, s.errand = .drafted p → p.message.body = r)
    (before : s.claim = .lock → s.errand.notes .lock → r.group? = some m.ref) :
    r.group? = some m'.ref := by
  have asks' := step.asks record record' asks
  have same (records : c'.records = c.records) (stays : s'.claim = s.claim) {p : Packet}
      (errand : s.errand = .recorded p) : r.group? = some m'.ref := by
    rw [records] at record'
    obtain rfl := Option.some.inj (record.symm.trans record')
    apply before (stays.symm.trans claim)
    rw [errand]
    rfl
  cases step with
  | record claim₀ claim' errand errand' =>
    rw [← carries _ errand]
    exact asks'.ref claim errand'
  | sent stays errand errand' run =>
    have kept := c.send_records ‹Packet›
    rw [run] at kept
    exact same kept stays errand
  | unsent stays errand errand' run =>
    have kept := c.send_records ‹Packet›
    rw [run] at kept
    exact same kept stays errand
  | look stays idle idle' => simp [idle', Errand.notes] at notes
  | enter claim₀ claim' idle idle' => simp [idle', Errand.notes] at notes
  | draft stays idle errand' => simp [errand', Errand.notes] at notes
  | abandon claim₀ claim' errand errand' => simp [errand', Errand.notes] at notes
  | giveUp claim₀ claim' errand errand' => simp [errand', Errand.notes] at notes
  | finish claim₀ claim' errand errand' => simp [errand', Errand.notes] at notes
  | cancel stays errand errand' =>
    have locked : s.claim = .lock := stays.symm.trans claim
    rw [errand', if_neg (by rw [locked]; decide)] at notes
    exact nomatch notes
  | exit claim₀ claim' => exact nomatch claim'.symm.trans claim
  | forget claim₀ claim' => exact nomatch claim'.symm.trans claim
  | beginWait claim₀ claim' => exact nomatch claim'.symm.trans claim
  | markWait claim₀ claim' => exact nomatch claim'.symm.trans claim
  | stopWait claim₀ claim' => exact nomatch claim'.symm.trans claim
  | endWait claim₀ claim' => exact nomatch claim'.symm.trans claim

end CallStep
end Call
end Muster
