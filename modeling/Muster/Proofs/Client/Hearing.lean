import Muster.Client.Connection
import Muster.Client.Intake
import Muster.Proofs.Client.Basic

/-! What the network side of a client does to its records: it takes in deliveries, and it
takes down the connection. -/
namespace Muster

/-- What an answer to an arrival makes of the wait: nothing yet, or an end without a notice. -/
def SyncOutcome.ofAnswer? : SyncCode → Option SyncOutcome
  | .created | .joined => none
  | .expired => some .expired
  | .authenticationFailure => some .rejected

namespace SyncWait

def Shows (w : SyncWait) : Option SyncOutcome → Prop
  | none => w.acknowledged = true
  | some outcome => (outcome = .expired ∨ outcome = .rejected) ∧ w.outcome = some outcome

variable {w : SyncWait} {seq : Int32} {point : NodeId}

@[simp] theorem endWith_seq (w : SyncWait) (outcome : SyncOutcome) :
    (w.endWith outcome).seq = w.seq := by
  unfold endWith
  split <;> rfl

@[simp] theorem notified_seq (w : SyncWait) (point : NodeId) (code : ProgressCode) :
    (w.notified point code).seq = w.seq := by
  unfold notified
  split
  · split
    · exact endWith_seq w _
    · rfl
  · rfl

@[simp] theorem answered_seq (w : SyncWait) (seq : Int32) (point : NodeId) (code : SyncCode) :
    (w.answered seq point code).seq = w.seq := by
  unfold answered
  split
  · cases code <;> rfl
  · rfl

theorem answered_of_ne (code : SyncCode) (other : w.seq ≠ some seq) :
    w.answered seq point code = w := by
  unfold answered
  rw [if_neg (fun h => other h.1)]

theorem endWith_shows {outcome : SyncOutcome} {v : Option SyncOutcome}
    (plain : outcome ≠ .expired ∧ outcome ≠ .rejected) (h : (w.endWith outcome).Shows v) :
    w.Shows v := by
  unfold endWith at h
  split at h
  · cases v with
    | none => exact h
    | some o =>
      obtain ⟨final, eq⟩ := h
      obtain rfl := Option.some.inj eq
      rcases final with eq | eq
      · exact absurd eq plain.1
      · exact absurd eq plain.2
  · exact h

theorem notified_shows {code : ProgressCode} {v : Option SyncOutcome}
    (h : (w.notified point code).Shows v) : w.Shows v := by
  unfold notified at h
  cases code with
  | join => exact h
  | leave => exact h
  | success =>
    simp only [SyncOutcome.ofProgress?] at h
    split at h
    · exact endWith_shows (by decide) h
    · exact h
  | timeout =>
    simp only [SyncOutcome.ofProgress?] at h
    split at h
    · exact endWith_shows (by decide) h
    · exact h
  | close =>
    simp only [SyncOutcome.ofProgress?] at h
    split at h
    · exact endWith_shows (by decide) h
    · exact h

/-- What a wait shows it has shown before or just learned from the answer to its request. -/
theorem answered_shows {code : SyncCode} {v : Option SyncOutcome}
    (h : (w.answered seq point code).Shows v) :
    w.Shows v ∨ w.seq = some seq ∧ SyncOutcome.ofAnswer? code = v := by
  unfold answered at h
  split at h
  · rename_i own
    have news (eq : SyncOutcome.ofAnswer? code = v) : w.Shows v ∨ w.seq = some seq ∧
        SyncOutcome.ofAnswer? code = v := .inr ⟨own.1, eq⟩
    cases v with
    | none =>
      cases code with
      | created => exact news rfl
      | joined => exact news rfl
      | expired => exact .inl h
      | authenticationFailure => exact .inl h
    | some outcome =>
      obtain ⟨final, eq⟩ := h
      cases code with
      | created => exact .inl ⟨final, eq⟩
      | joined => exact .inl ⟨final, eq⟩
      | expired => exact news eq
      | authenticationFailure => exact news eq
  · exact .inl h

/-- Properties of waits that only packets can bring about: no wait begins with one, and none
comes with the number of the request or with the end of the membership. -/
structure Earned (Q : SyncWait → Prop) : Prop where
  begin (point : NodeId) : ¬Q (begin point)
  mark (w : SyncWait) (seq : Option Int32) (h : Q { w with seq }) : Q w
  left (w : SyncWait) (h : Q (w.endWith .left)) : Q w

theorem earned_shows (v : Option SyncOutcome) : Earned (Shows · v) where
  begin point h := by
    cases v with
    | none => exact Bool.false_ne_true h
    | some outcome =>
      have ended : none = some outcome := h.2
      contradiction
  mark w seq h := by
    cases v with
    | none => exact h
    | some outcome => exact h
  left w h := endWith_shows (by decide) h

end SyncWait

def Tidings.reply? : Tidings → Option Reply
  | joinAnswer code => some (.join code)
  | leaveAnswer => some .leave
  | members .. | progress .. | syncAnswer .. => none

def Tidings.syncCode? : Tidings → Option SyncCode
  | syncAnswer _ code => some code
  | members .. | progress .. | joinAnswer _ | leaveAnswer => none

theorem Delivery.role_of_tidings {d : Delivery} {id : NodeId} {t : Tidings}
    (tidings : d.tidings? = some (id, t)) (answer : t.reply?.isSome ∨ t.syncCode?.isSome) :
    d.packet.message.role = .response := by
  show d.packet.message.body.kind.role = .response
  unfold tidings? at tidings
  split at tidings
  · cases tidings
    simp [Tidings.reply?, Tidings.syncCode?] at answer
  · cases tidings
    simp [Tidings.reply?, Tidings.syncCode?] at answer
  · rename_i body _
    rw [body]
    rfl
  · rename_i body _
    rw [body]
    rfl
  · rename_i body _
    rw [body]
    rfl
  · exact nomatch tidings

theorem Delivery.answer_of_role {d : Delivery} {id : NodeId} {t : Tidings}
    (tidings : d.tidings? = some (id, t)) (role : d.packet.message.role = .response) :
    t.reply?.isSome ∨ t.syncCode?.isSome := by
  have role : d.packet.message.body.kind.role = .response := role
  unfold tidings? at tidings
  split at tidings
  · rename_i body
    rw [body] at role
    contradiction
  · rename_i body
    rw [body] at role
    contradiction
  · cases tidings
    exact .inl rfl
  · cases tidings
    exact .inl rfl
  · cases tidings
    exact .inr rfl
  · exact nomatch tidings

namespace Membership

/-- What of a record the network side never changes. A request may stop being awaited. -/
structure Kept (m m' : Membership) : Prop where
  id : m'.id = m.id
  token : m'.token = m.token
  busy : m'.busy = m.busy
  mark : m'.wait.map SyncWait.seq = m.wait.map SyncWait.seq
  awaiting : ∀ seq, m'.exchange = .awaiting seq → m.exchange = .awaiting seq

theorem Kept.refl (m : Membership) : Kept m m := ⟨rfl, rfl, rfl, rfl, fun _ h => h⟩

theorem map_seq {f : SyncWait → SyncWait} (h : ∀ w, (f w).seq = w.seq) (wait : Option SyncWait) :
    (wait.map f).map SyncWait.seq = wait.map SyncWait.seq := by
  cases wait with
  | none => rfl
  | some w => exact congrArg some (h w)

theorem lose_kept (m : Membership) : Kept m m.lose :=
  ⟨rfl, rfl, rfl, map_seq (fun w => w.endWith_seq .left) m.wait, fun _ h => h⟩

theorem connectionLost_kept (m : Membership) : Kept m m.connectionLost := by
  refine ⟨rfl, rfl, rfl, m.lose_kept.mark, ?_⟩
  intro seq h
  unfold connectionLost at h
  cases he : m.exchange with
  | idle =>
    simp only [he] at h
    exact nomatch h
  | awaiting n =>
    simp only [he] at h
    exact nomatch h
  | answered reply =>
    simp only [he] at h
    exact nomatch h

theorem connectionLost_answered {m : Membership} {reply : Reply}
    (answered : m.connectionLost.exchange = .answered reply) :
    m.exchange = .answered reply ∨ reply = .lost := by
  unfold connectionLost at answered
  cases he : m.exchange with
  | idle =>
    simp only [he] at answered
    exact nomatch answered
  | awaiting n =>
    simp only [he] at answered
    exact .inr (Exchange.answered.inj answered).symm
  | answered reply' =>
    simp only [he] at answered
    exact .inl answered

variable {own : NodeId} {seq : Int32} {t : Tidings}

/-- Tidings are heeded, or they are about another group. -/
theorem hear_cases (m : Membership) (own : NodeId) (seq : Int32) (t : Tidings) :
    m.hear own seq t = m ∨ m.hear own seq t = m.heed own seq t := by
  unfold hear
  split
  · split
    · exact .inr rfl
    · exact .inl rfl
  · exact .inr rfl

theorem heed_kept (m : Membership) : Kept m (m.heed own seq t) := by
  cases t with
  | members token ids code =>
    simp only [heed, membersChanged]
    split
    · exact ⟨rfl, rfl, rfl, rfl, fun _ h => h⟩
    · exact m.lose_kept
  | progress point code =>
    exact ⟨rfl, rfl, rfl, map_seq (fun w => w.notified_seq point code) m.wait, fun _ h => h⟩
  | joinAnswer code =>
    simp only [heed, joinAnswered]
    split
    · exact ⟨rfl, rfl, rfl, rfl, nofun⟩
    · exact .refl m
  | leaveAnswer =>
    simp only [heed, leaveAnswered]
    split
    · exact ⟨rfl, rfl, rfl, m.lose_kept.mark, nofun⟩
    · exact .refl m
  | syncAnswer point code =>
    exact ⟨rfl, rfl, rfl, map_seq (fun w => w.answered_seq seq point code) m.wait, fun _ h => h⟩

theorem hear_kept (m : Membership) : Kept m (m.hear own seq t) := by
  obtain same | heeded := m.hear_cases own seq t
  · rw [same]
    exact .refl m
  · rw [heeded]
    exact m.heed_kept

theorem heed_exchange (m : Membership) : (m.heed own seq t).exchange = m.exchange ∨
    m.exchange = .awaiting seq ∧
      ∃ reply, t.reply? = some reply ∧ (m.heed own seq t).exchange = .answered reply := by
  cases t with
  | members token ids code =>
    left
    simp only [heed, membersChanged]
    split <;> rfl
  | progress point code => exact .inl rfl
  | joinAnswer code =>
    simp only [heed, joinAnswered]
    split
    · rename_i awaited
      exact .inr ⟨awaited, .join code, rfl, rfl⟩
    · exact .inl rfl
  | leaveAnswer =>
    simp only [heed, leaveAnswered]
    split
    · rename_i awaited
      exact .inr ⟨awaited, .leave, rfl, rfl⟩
    · exact .inl rfl
  | syncAnswer point code => exact .inl rfl

theorem hear_exchange (m : Membership) : (m.hear own seq t).exchange = m.exchange ∨
    m.exchange = .awaiting seq ∧
      ∃ reply, t.reply? = some reply ∧ (m.hear own seq t).exchange = .answered reply := by
  obtain same | heeded := m.hear_cases own seq t
  · rw [same]
    exact .inl rfl
  · rw [heeded]
    exact m.heed_exchange

theorem syncAnswered_of_ne {m : Membership} (other : m.wait.bind SyncWait.seq ≠ some seq)
    (point : NodeId) (code : SyncCode) : m.syncAnswered seq point code = m := by
  have same : m.wait.map (fun w => w.answered seq point code) = m.wait := by
    cases wait : m.wait with
    | none => rfl
    | some w =>
      rw [wait] at other
      exact congrArg some (SyncWait.answered_of_ne code other)
  rw [syncAnswered, same]

/-- An answer changes a record only if the record awaits an answer of its number, and the
answer to an arrival changes only the wait. -/
theorem heed_answer {m : Membership} (answer : t.reply?.isSome ∨ t.syncCode?.isSome)
    (changed : m.heed own seq t ≠ m) : m.exchange = .awaiting seq ∨
      m.wait.bind SyncWait.seq = some seq ∧
        m.heed own seq t = { m with wait := (m.heed own seq t).wait } := by
  cases t with
  | members token ids code => simp [Tidings.reply?, Tidings.syncCode?] at answer
  | progress point code => simp [Tidings.reply?, Tidings.syncCode?] at answer
  | joinAnswer code =>
    left
    by_contra other
    exact changed (if_neg other)
  | leaveAnswer =>
    left
    by_contra other
    exact changed (if_neg other)
  | syncAnswer point code =>
    right
    refine ⟨?_, rfl⟩
    by_contra other
    exact changed (syncAnswered_of_ne other point code)

/-- What tidings do to a wait: nothing, or they end it with the membership, or they are a notice
of a sync point or the answer to an arrival. -/
theorem heed_wait (m : Membership) (own : NodeId) (seq : Int32) (t : Tidings) :
    ∃ f : SyncWait → SyncWait, (m.heed own seq t).wait = m.wait.map f ∧
      ((f = fun w => w) ∨ (f = fun w => w.endWith .left) ∨
        (∃ point code, t = .progress point code ∧ f = fun w => w.notified point code) ∨
        ∃ point code, t = .syncAnswer point code ∧ f = fun w => w.answered seq point code) := by
  have same : m.wait = m.wait.map fun w => w := by simp
  cases t with
  | members token ids code =>
    simp only [heed, membersChanged]
    split
    · exact ⟨_, same, .inl rfl⟩
    · exact ⟨_, rfl, .inr (.inl rfl)⟩
  | progress point code => exact ⟨_, rfl, .inr (.inr (.inl ⟨point, code, rfl, rfl⟩))⟩
  | joinAnswer code =>
    simp only [heed, joinAnswered]
    split
    · exact ⟨_, same, .inl rfl⟩
    · exact ⟨_, same, .inl rfl⟩
  | leaveAnswer =>
    simp only [heed, leaveAnswered]
    split
    · exact ⟨_, rfl, .inr (.inl rfl)⟩
    · exact ⟨_, same, .inl rfl⟩
  | syncAnswer point code => exact ⟨_, rfl, .inr (.inr (.inr ⟨point, code, rfl, rfl⟩))⟩

/-- What a wait has earned it had before, or it is owed to a notice or to an answer. -/
theorem heed_earned {m : Membership} {Q : SyncWait → Prop} (earned : SyncWait.Earned Q)
    {w' : SyncWait} (wait : (m.heed own seq t).wait = some w') (h : Q w') :
    ∃ w, m.wait = some w ∧ (Q w ∨
      (∃ point code, t = .progress point code ∧ w' = w.notified point code) ∨
      ∃ point code, t = .syncAnswer point code ∧ w' = w.answered seq point code) := by
  obtain ⟨f, eq, cases⟩ := m.heed_wait own seq t
  rw [wait] at eq
  obtain ⟨w, before, rfl⟩ := Option.map_eq_some_iff.mp eq.symm
  refine ⟨w, before, ?_⟩
  obtain rfl | rfl | ⟨point, code, about, rfl⟩ | ⟨point, code, about, rfl⟩ := cases
  · exact .inl h
  · exact .inl (earned.left w h)
  · exact .inr (.inl ⟨point, code, about, rfl⟩)
  · exact .inr (.inr ⟨point, code, about, rfl⟩)

end Membership

namespace Client

variable {c : Client} {d : Delivery}

@[simp] theorem updateGroup_groups (c : Client) (id : NodeId) (f : Membership → Membership) :
    (c.updateGroup id f).groups = c.groups := by
  unfold updateGroup
  split <;> rfl

@[simp] theorem updateGroup_link (c : Client) (id : NodeId) (f : Membership → Membership) :
    (c.updateGroup id f).link = c.link := by
  unfold updateGroup
  split <;> rfl

@[simp] theorem updateGroup_id (c : Client) (id : NodeId) (f : Membership → Membership) :
    (c.updateGroup id f).id = c.id := by
  unfold updateGroup
  split <;> rfl

theorem updateGroup_records (c : Client) (id : NodeId) (f : Membership → Membership)
    (h : Handle) : (c.updateGroup id f).records[h]? =
      if c.groups[id]? = some h then c.records[h]?.map f else c.records[h]? := by
  unfold updateGroup
  split
  · rename_i k known
    simp only [update_records, known, Option.some_inj]
  · rename_i unknown
    rw [if_neg (by rw [unknown]; exact nofun)]

theorem receive_of_tidings {id : NodeId} {t : Tidings} (h : d.tidings? = some (id, t)) :
    c.receive d = c.updateGroup id fun m => m.hear c.id d.packet.seq t := by
  unfold Delivery.tidings? at h
  split at h <;> cases h <;> simp only [receive, *] <;> rfl

@[simp] theorem registerAnswered_records (c : Client) (token : Token) (code : RegisterCode) :
    (c.registerAnswered token code).records = c.records := by
  unfold registerAnswered
  split <;> rfl

@[simp] theorem registerAnswered_groups (c : Client) (token : Token) (code : RegisterCode) :
    (c.registerAnswered token code).groups = c.groups := by
  unfold registerAnswered
  split <;> rfl

@[simp] theorem registerAnswered_link (c : Client) (token : Token) (code : RegisterCode) :
    (c.registerAnswered token code).link = c.link := by
  unfold registerAnswered
  split <;> rfl

@[simp] theorem registerAnswered_id (c : Client) (token : Token) (code : RegisterCode) :
    (c.registerAnswered token code).id = c.id := by
  unfold registerAnswered
  split <;> rfl

/-- A delivery that says nothing about a group changes at most the registration. -/
theorem receive_of_none (h : d.tidings? = none) :
    c.receive d = c ∨ ∃ token code, d.packet.message.body = .registerResponse token code ∧
      c.receive d = c.registerAnswered token code := by
  unfold receive
  split
  · simp only [Delivery.tidings?, *, reduceCtorEq] at h
  · simp only [Delivery.tidings?, *, reduceCtorEq] at h
  · rename_i token code _ body _
    exact .inr ⟨token, code, body, rfl⟩
  · simp only [Delivery.tidings?, *, reduceCtorEq] at h
  · simp only [Delivery.tidings?, *, reduceCtorEq] at h
  · simp only [Delivery.tidings?, *, reduceCtorEq] at h
  · exact .inl rfl

@[simp] theorem receive_groups (c : Client) (d : Delivery) : (c.receive d).groups = c.groups := by
  cases h : d.tidings? with
  | some x =>
    rw [receive_of_tidings h]
    exact updateGroup_groups c _ _
  | none =>
    obtain same | ⟨token, code, -, eq⟩ := receive_of_none (c := c) h
    · rw [same]
    · rw [eq, registerAnswered_groups]

@[simp] theorem receive_link (c : Client) (d : Delivery) : (c.receive d).link = c.link := by
  cases h : d.tidings? with
  | some x =>
    rw [receive_of_tidings h]
    exact updateGroup_link c _ _
  | none =>
    obtain same | ⟨token, code, -, eq⟩ := receive_of_none (c := c) h
    · rw [same]
    · rw [eq, registerAnswered_link]

@[simp] theorem receive_id (c : Client) (d : Delivery) : (c.receive d).id = c.id := by
  cases h : d.tidings? with
  | some x =>
    rw [receive_of_tidings h]
    exact updateGroup_id c _ _
  | none =>
    obtain same | ⟨token, code, -, eq⟩ := receive_of_none (c := c) h
    · rw [same]
    · rw [eq, registerAnswered_id]

theorem receive_record {h : Handle} {m' : Membership}
    (record : (c.receive d).records[h]? = some m') : ∃ m, c.records[h]? = some m ∧
      (m' = m ∨ ∃ id t, d.tidings? = some (id, t) ∧ c.groups[id]? = some h ∧
        m' = m.hear c.id d.packet.seq t) := by
  cases ht : d.tidings? with
  | none =>
    have same : (c.receive d).records = c.records := by
      obtain same | ⟨token, code, -, eq⟩ := receive_of_none (c := c) ht
      · rw [same]
      · rw [eq, registerAnswered_records]
    rw [same] at record
    exact ⟨m', record, .inl rfl⟩
  | some x =>
    obtain ⟨id, t⟩ := x
    rw [receive_of_tidings ht, updateGroup_records] at record
    split at record
    · rename_i known
      obtain ⟨m, eq, rfl⟩ := Option.map_eq_some_iff.mp record
      exact ⟨m, eq, .inr ⟨id, t, rfl, known, rfl⟩⟩
    · exact ⟨m', record, .inl rfl⟩

/-- What the network side leaves alone of all records. -/
structure Kept (c c' : Client) : Prop where
  groups : c'.groups = c.groups
  size : c'.records.size = c.records.size
  record (h : Handle) : Option.Rel Membership.Kept c.records[h]? c'.records[h]?

section
variable {c' : Client} {h : Handle}

theorem Kept.forth {m : Membership} (kept : Kept c c') (record : c.records[h]? = some m) :
    ∃ m', c'.records[h]? = some m' ∧ m.Kept m' := by
  have rel := kept.record h
  rw [record] at rel
  cases hr : c'.records[h]? with
  | none =>
    rw [hr] at rel
    exact nomatch rel
  | some m' =>
    rw [hr] at rel
    cases rel with
    | some change => exact ⟨m', rfl, change⟩

theorem Kept.back {m' : Membership} (kept : Kept c c') (record : c'.records[h]? = some m') :
    ∃ m, c.records[h]? = some m ∧ m.Kept m' := by
  have rel := kept.record h
  rw [record] at rel
  cases hr : c.records[h]? with
  | none =>
    rw [hr] at rel
    exact nomatch rel
  | some m =>
    rw [hr] at rel
    cases rel with
    | some change => exact ⟨m, rfl, change⟩

theorem Kept.of_records (groups : c'.groups = c.groups) (records : c'.records = c.records) :
    Kept c c' := by
  refine ⟨groups, congrArg _ records, fun h => ?_⟩
  rw [records]
  cases c.records[h]? with
  | none => exact .none
  | some m => exact .some (.refl m)

end

theorem update_size (c : Client) (h : Handle) (f : Membership → Membership) :
    (c.update h f).records.size = c.records.size :=
  Std.ExtTreeMap.size_modify

theorem update_kept (c : Client) (h : Handle) {f : Membership → Membership}
    (change : ∀ m : Membership, m.Kept (f m)) : Kept c (c.update h f) := by
  refine ⟨rfl, c.update_size h f, fun k => ?_⟩
  rw [update_records]
  split
  · cases c.records[k]? with
    | none => exact .none
    | some m => exact .some (change m)
  · cases c.records[k]? with
    | none => exact .none
    | some m => exact .some (.refl m)

theorem receive_kept (c : Client) (d : Delivery) : Kept c (c.receive d) := by
  cases ht : d.tidings? with
  | none =>
    obtain same | ⟨token, code, -, eq⟩ := receive_of_none (c := c) ht
    · rw [same]
      exact .of_records rfl rfl
    · rw [eq]
      exact .of_records (registerAnswered_groups c token code)
        (registerAnswered_records c token code)
  | some x =>
    rw [receive_of_tidings ht]
    unfold updateGroup
    split
    · exact c.update_kept _ fun m => m.hear_kept
    · exact .of_records rfl rfl

@[simp] theorem loseRegistration_records (c : Client) :
    c.loseRegistration.records = c.records := by
  unfold loseRegistration
  split <;> rfl

@[simp] theorem loseRegistration_groups (c : Client) : c.loseRegistration.groups = c.groups := by
  unfold loseRegistration
  split <;> rfl

@[simp] theorem loseRegistration_link (c : Client) : c.loseRegistration.link = c.link := by
  unfold loseRegistration
  split <;> rfl

/-- The steps that take a connection down: one drops the link, some tell a record. -/
theorem shutdown_cases (c : Client) (s : Shutdown) :
    (∃ h rest, s = .loseGroups (h :: rest) ∧
        (s.step c).1 = c.update h Membership.connectionLost) ∨
      (s.step c).1.records = c.records ∧ (s.step c).1.groups = c.groups ∧
        ((s.step c).1.link = c.link ∧ s ≠ .dropLink ∨ (s.step c).1.link = none) := by
  cases s with
  | stopRunning => exact .inr ⟨rfl, rfl, .inl ⟨rfl, nofun⟩⟩
  | dropLink => exact .inr ⟨rfl, rfl, .inr rfl⟩
  | loseRegistration =>
    exact .inr ⟨c.loseRegistration_records, c.loseRegistration_groups,
      .inl ⟨c.loseRegistration_link, nofun⟩⟩
  | listGroups => exact .inr ⟨rfl, rfl, .inl ⟨rfl, nofun⟩⟩
  | loseGroups handles =>
    cases handles with
    | nil => exact .inr ⟨rfl, rfl, .inl ⟨rfl, nofun⟩⟩
    | cons h rest => exact .inl ⟨h, rest, rfl, rfl⟩
  | finished => exact .inr ⟨rfl, rfl, .inl ⟨rfl, nofun⟩⟩

theorem shutdown_kept (c : Client) (s : Shutdown) : Kept c (s.step c).1 := by
  obtain ⟨h, rest, -, eq⟩ | ⟨records, groups, -⟩ := c.shutdown_cases s
  · rw [eq]
    exact c.update_kept h fun m => m.connectionLost_kept
  · exact .of_records groups records

theorem shutdown_of_groups (c : Client) (groups : c.groups = ∅) :
    c.shutdown.records = c.records ∧ c.shutdown.groups = ∅ ∧ c.shutdown.link = none := by
  have no : (∅ : Std.ExtTreeMap NodeId Handle).values = [] := by
    rw [List.eq_nil_iff_forall_not_mem]
    intro h mem
    obtain ⟨id, found⟩ := Table.mem_values.mp mem
    simp at found
  have all : c.shutdown = { c with running := false, link := none }.loseRegistration := by
    unfold Client.shutdown
    dsimp only
    rw [loseRegistration_groups, groups, no]
    rfl
  rw [all]
  exact ⟨loseRegistration_records _, (loseRegistration_groups _).trans groups,
    loseRegistration_link _⟩

/-- A client that dials knows of no group, and only its registration is outstanding. -/
theorem dial_cases (id : NodeId) (config : ClientConfig) (numbering : Numbering)
    (stream : Stream) :
    let c := (create id config numbering).dial (.ok stream)
    c.records = ∅ ∧ c.groups = ∅ ∧ ∀ (seq : Int32) (m : Message), c.pending[seq]? = some m →
      m = ⟨.null, .registerRequest id⟩ := by
  intro c
  have start : c = ((create id config numbering).beginRegistration).connected stream := rfl
  unfold connected at start
  dsimp only at start
  split at start
  · rename_i run
    obtain ⟨-, pending⟩ := send_pending run rfl
    rw [start]
    refine ⟨send_records _ _, send_groups _ _, ?_⟩
    intro seq m found
    rw [pending, Table.getElem?_insert] at found
    split at found
    · exact (Option.some.inj found).symm
    · have empty : (∅ : Pending)[seq]? = some m := found
      simp at empty
  · let c₀ : Client := { (create id config numbering).beginRegistration with
      link := some (.ofStream stream), numbering := (numbering.draw .registerRequest).2 }
    let p : Packet :=
      .ofMessage (numbering.draw .registerRequest).1 ⟨.null, .registerRequest id⟩
    have start : c = (c₀.send p).2.shutdown := start
    obtain ⟨records, groups, link⟩ := shutdown_of_groups (c₀.send p).2 (send_groups c₀ p)
    rw [start]
    refine ⟨records.trans (send_records _ _), groups, ?_⟩
    intro seq m found
    rw [Client.pending, link] at found
    simp at found

theorem dial_up (id : NodeId) (config : ClientConfig) (numbering : Numbering) (stream : Stream) :
    let c := (create id config numbering).dial (.ok stream)
    c.link ≠ none → c.standing = .pending ∧ c.id = id := by
  intro c linked
  have start : c = ((create id config numbering).beginRegistration).connected stream := rfl
  unfold connected at start
  dsimp only at start
  split at start
  · rw [start]
    exact ⟨send_standing _ _, send_id _ _⟩
  · apply absurd _ linked
    rw [start]
    let c₀ : Client := { (create id config numbering).beginRegistration with
      link := some (.ofStream stream), numbering := (numbering.draw .registerRequest).2 }
    let p : Packet :=
      .ofMessage (numbering.draw .registerRequest).1 ⟨.null, .registerRequest id⟩
    exact (shutdown_of_groups (c₀.send p).2 (send_groups c₀ p)).2.2

end Client
end Muster
