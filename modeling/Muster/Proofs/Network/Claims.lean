import Muster.Proofs.Client.Record
import Muster.Proofs.Network.Peer

/-! What the calls of a client have claimed of its records. No two calls have the same claim
on the same record, and a record knows only the number of a request of the call that has
claimed it. -/
namespace Muster

/-- How the request of a call agrees with its stage. -/
def Errand.Carries : Errand → Option Request → Prop
  | .none, request => request = .none
  | .drafted p, request | .recorded p, request => ∃ r, request = some r ∧ r.packet = p
  | .awaiting seq, request | .cancelling seq, request =>
    ∃ r, request = some r ∧ r.packet.seq = seq
  | .ended, request => ∃ r, request = some r

namespace Job

abbrev handle (job : Job) : Handle := job.call.handle

abbrev claim (job : Job) : Claim := job.call.stage.claim

abbrev errand (job : Job) : Errand := job.call.stage.errand

/-- The call after a step to a stage, when `made` requests were made before. -/
def next (job : Job) (made : Nat) (s : CallStage) : Job :=
  ⟨{ job.call with stage := s }, Peer.requestAfter made job.request s.errand⟩

end Job

abbrev Records := Std.ExtTreeMap Handle Membership

structure Claims (records : Records) (jobs : List Job) : Prop where
  numbered (h : Handle) (m : Membership) (record : records[h]? = some m) : h < records.size
  known (j : Nat) (job : Job) (here : jobs[j]? = some job) :
    ∃ m, records[job.handle]? = some m ∧ job.call.stage.Asks m
  held (j : Nat) (job : Job) (here : jobs[j]? = some job) (ne : job.claim ≠ .none)
    (m : Membership) (record : records[job.handle]? = some m) : m.claimed job.claim = true
  alone (j j' : Nat) (job job' : Job) (here : jobs[j]? = some job)
    (there : jobs[j']? = some job') (ne : job.claim ≠ .none) (claim : job'.claim = job.claim)
    (handle : job'.handle = job.handle) : j' = j
  carries (j : Nat) (job : Job) (here : jobs[j]? = some job) : job.errand.Carries job.request
  owned (h : Handle) (m : Membership) (record : records[h]? = some m) (k : Claim) (seq : Int32)
    (knows : m.Knows seq k) : ∃ (j : Nat) (job : Job) (r : Request), jobs[j]? = some job ∧
      job.handle = h ∧ job.claim = k ∧ job.errand.notes k ∧ job.request = some r ∧
      r.packet.seq = seq
  sought (j : Nat) (job : Job) (here : jobs[j]? = some job) (claim : job.claim = .lock)
    (notes : job.errand.notes .lock) (r : Request) (request : job.request = some r)
    (m : Membership) (record : records[job.handle]? = some m) :
    r.packet.message.body.group? = some m.ref

theorem getElem?_set_of {α : Type} {xs : List α} {j : Nat} {x : α} (here : xs[j]? = some x)
    (y : α) (k : Nat) : (xs.set j y)[k]? = if j = k then some y else xs[k]? := by
  rw [List.getElem?_set]
  split
  · rename_i eq
    subst eq
    obtain ⟨lt, -⟩ := List.getElem?_eq_some_iff.mp here
    rw [if_pos lt]
  · rfl

theorem getElem?_append_of {α : Type} {xs : List α} {j : Nat} {x : α} (here : xs[j]? = some x)
    (ys : List α) : (xs ++ ys)[j]? = some x := by
  obtain ⟨lt, -⟩ := List.getElem?_eq_some_iff.mp here
  rw [List.getElem?_append_left lt]
  exact here

theorem getElem?_set_cases {α : Type} {xs : List α} {j k : Nat} {x y : α}
    (there : (xs.set j y)[k]? = some x) : k = j ∧ x = y ∨ k ≠ j ∧ xs[k]? = some x := by
  rw [List.getElem?_set] at there
  split at there
  · rename_i same
    split at there
    · exact .inl ⟨same.symm, (Option.some.inj there).symm⟩
    · contradiction
  · rename_i other
    exact .inr ⟨Ne.symm other, there⟩

theorem getElem?_append_cases {α : Type} {xs : List α} {j : Nat} {x y : α}
    (here : (xs ++ [y])[j]? = some x) : xs[j]? = some x ∨ x = y := by
  rw [List.getElem?_append] at here
  split at here
  · exact .inl here
  · exact .inr (List.mem_singleton.mp (List.mem_of_getElem? here))

theorem Errand.Carries.next {made : Nat} {request : Option Request} {e e' : Errand}
    (next : Call.Next e e') (carries : e.Carries request) :
    e'.Carries (Peer.requestAfter made request e') := by
  cases next with
  | idle => rfl
  | draft p => exact ⟨_, rfl, rfl⟩
  | record p => exact carries
  | send p =>
    obtain ⟨r, eq, rfl⟩ := carries
    exact ⟨r, eq, rfl⟩
  | fail p =>
    obtain ⟨r, eq, -⟩ := carries
    exact ⟨r, eq⟩
  | stop seq => exact carries
  | finish seq => rfl
  | cancel seq => rfl
  | drop seq =>
    obtain ⟨r, eq, -⟩ := carries
    exact ⟨r, eq⟩
  | forget => rfl

/-- A request that a record may know of stays with its call. -/
theorem requestAfter_of_notes {e : Errand} {k : Claim} (made : Nat) (request : Option Request)
    (notes : e.notes k) : Peer.requestAfter made request e = request := by
  cases e with
  | none => exact nomatch notes
  | drafted p => exact nomatch notes
  | recorded p => rfl
  | awaiting seq => rfl
  | cancelling seq => rfl
  | ended => rfl

namespace Claims
variable {records records' : Records} {jobs : List Job}

theorem start : Claims ∅ [] where
  numbered h m record := by simp at record
  known j job here := by simp at here
  held j job here := by simp at here
  alone j j' job job' here := by simp at here
  carries j job here := by simp at here
  owned h m record := by simp at record
  sought j job here := by simp at here

/-- The network side takes no claim away, and it lets no record know of another request. -/
theorem kept {c c' : Client} (claims : Claims c.records jobs) (kept : c.Kept c') :
    Claims c'.records jobs where
  numbered h m' record := by
    obtain ⟨m, before, -⟩ := kept.back record
    rw [kept.size]
    exact claims.numbered h m before
  known j job here := by
    obtain ⟨m, before, asks⟩ := claims.known j job here
    obtain ⟨m', after, change⟩ := kept.forth before
    exact ⟨m', after, asks.congr change.id change.token⟩
  held j job here ne m' record := by
    obtain ⟨m, before, change⟩ := kept.back record
    have held := claims.held j job here ne m before
    cases hk : job.claim with
    | none => exact absurd hk ne
    | lock =>
      rw [hk] at held
      exact change.busy.trans held
    | wait =>
      rw [hk] at held
      have same := congrArg Option.isSome change.mark
      rw [Option.isSome_map, Option.isSome_map] at same
      exact same.trans held
  alone := claims.alone
  carries := claims.carries
  owned h m' record k seq knows := by
    obtain ⟨m, before, change⟩ := kept.back record
    apply claims.owned h m before
    cases k with
    | none => exact knows
    | lock => exact change.awaiting seq knows
    | wait =>
      have marks (m : Membership) : m.wait.bind SyncWait.seq =
          (m.wait.map SyncWait.seq).join := by
        cases m.wait <;> rfl
      show m.wait.bind SyncWait.seq = some seq
      rw [marks, ← change.mark, ← marks]
      exact knows
  sought j job here claim notes r request m' record := by
    obtain ⟨m, before, change⟩ := kept.back record
    have ref : m'.ref = m.ref := by
      unfold Membership.ref
      rw [change.id, change.token]
    rw [ref]
    exact claims.sought j job here claim notes r request m before

section Advance
variable {j : Nat} {job : Job} {m m' : Membership} {c c' : Client} {s' : CallStage}
  (claims : Claims c.records jobs) (here : jobs[j]? = some job)
include claims here

/-- A number that a record knew before belongs to the same request, whose call still holds it
unless it has given up just that number. -/
theorem owned_of_known (made : Nat) {h : Handle} {m₀ : Membership}
    (found : c.records[h]? = some m₀) {k : Claim} {seq : Int32} (knows : m₀.Knows seq k)
    (stays : job.handle = h → job.claim = k → job.errand.notes k →
      s'.claim = k ∧ s'.errand.notes k ∨ ∃ n, job.errand = .awaiting n ∧ n ≠ seq) :
    ∃ (j₁ : Nat) (job₁ : Job) (r : Request), (jobs.set j (job.next made s'))[j₁]? = some job₁ ∧
      job₁.handle = h ∧ job₁.claim = k ∧ job₁.errand.notes k ∧ job₁.request = some r ∧
      r.packet.seq = seq := by
  have place (i : Nat) := getElem?_set_of here (job.next made s') i
  obtain ⟨j₀, job₀, r, there, handle, claim, notes, request, number⟩ :=
    claims.owned h m₀ found k seq knows
  by_cases eq : j = j₀
  · subst eq
    obtain rfl := Option.some.inj (here.symm.trans there)
    obtain ⟨claim', notes'⟩ | ⟨n, awaiting, ne⟩ := stays handle claim notes
    · refine ⟨j, _, r, (place j).trans (if_pos rfl), handle, claim', notes', ?_, number⟩
      exact (requestAfter_of_notes made job.request notes').trans request
    · have carries := claims.carries j job here
      rw [awaiting] at carries
      obtain ⟨r', request', number'⟩ := carries
      obtain rfl := Option.some.inj (request'.symm.trans request)
      exact absurd (number'.symm.trans number) ne
  · exact ⟨j₀, job₀, r, (place j₀).trans (if_neg eq ▸ there), handle, claim, notes, request, number⟩

variable (record : c.records[job.handle]? = some m)
include record

/-- Another call on the same record has another claim, so what it claims does not change when a
call takes a step. -/
theorem others {k : Nat} {job' : Job} (move : Call.Moved m job.call.stage m' s') (ne : k ≠ j)
    (there : jobs[k]? = some job') (same : job'.handle = job.handle) (claim : job'.claim ≠ .none) :
    job'.claim ≠ job.claim ∧ job'.claim ≠ s'.claim ∧
      m'.claimed job'.claim = m.claimed job'.claim := by
  have held := claims.held k job' there claim m (same ▸ record)
  have ne₁ : job'.claim ≠ job.claim := by
    intro eq
    exact ne (claims.alone j k job job' here there (eq ▸ claim) eq same)
  have ne₂ : job'.claim ≠ s'.claim := by
    intro eq
    obtain ⟨own, -⟩ | ⟨free, -⟩ := move.claimed claim eq.symm
    · exact ne₁ own.symm
    · rw [free] at held
      contradiction
  refine ⟨ne₁, ne₂, ?_⟩
  obtain own | own | unchanged := move.unclaimed job'.claim
  · exact absurd own.symm ne₁
  · exact absurd own.symm ne₂
  · exact unchanged

/-- The token of a record does not change while another call has locked it. -/
theorem token_of_lock {k : Nat} {job' : Job} (move : Call.Moved m job.call.stage m' s') (ne : k ≠ j)
    (there : jobs[k]? = some job') (same : job'.handle = job.handle) (lock : job'.claim = .lock) :
    m'.token = m.token := by
  obtain token | ⟨locked, -⟩ := move.token
  · exact token
  · have claimed : job'.claim ≠ .none := by
      rw [lock]
      decide
    exact absurd (lock.trans locked.symm) (claims.others here record move ne there same claimed).1

variable (step : Call.CallStep c job.handle m job.call.stage c' s') (made : Nat)
include step

theorem known_advance (k : Nat) (job' : Job)
    (there : (jobs.set j (job.next made s'))[k]? = some job') :
    ∃ m₁, c'.records[job'.handle]? = some m₁ ∧ job'.call.stage.Asks m₁ := by
  obtain ⟨m', record', move⟩ := step.moved record
  obtain ⟨-, rfl⟩ | ⟨ne, there⟩ := getElem?_set_cases there
  · obtain ⟨m₀, found, asks⟩ := claims.known j job here
    obtain rfl := Option.some.inj (record.symm.trans found)
    exact ⟨m', record', step.asks record record' asks⟩
  · obtain ⟨m₀, found, asks⟩ := claims.known k job' there
    by_cases eq : job'.handle = job.handle
    · rw [eq]
      obtain rfl := Option.some.inj (record.symm.trans (eq ▸ found))
      refine ⟨m', record', ?_⟩
      by_cases lock : job'.claim = .lock
      · exact asks.congr move.id (claims.token_of_lock here record move ne there eq lock)
      · exact asks.of_claim lock move.id
    · exact ⟨m₀, (step.frame eq).trans found, asks⟩

theorem held_advance (k : Nat) (job' : Job)
    (there : (jobs.set j (job.next made s'))[k]? = some job') (ne : job'.claim ≠ .none)
    (m₁ : Membership) (found : c'.records[job'.handle]? = some m₁) :
    m₁.claimed job'.claim = true := by
  obtain ⟨m', record', move⟩ := step.moved record
  obtain ⟨-, rfl⟩ | ⟨other, there⟩ := getElem?_set_cases there
  · obtain rfl := Option.some.inj (record'.symm.trans found)
    obtain ⟨same, unchanged⟩ | ⟨-, taken⟩ := move.claimed ne rfl
    · have held := claims.held j job here (fun h => ne (same.symm.trans h)) m record
      rw [show job.claim = s'.claim from same] at held
      exact unchanged.trans held
    · exact taken
  · by_cases eq : job'.handle = job.handle
    · obtain rfl := Option.some.inj (record'.symm.trans (eq ▸ found))
      rw [(claims.others here record move other there eq ne).2.2]
      exact claims.held k job' there ne m (eq ▸ record)
    · rw [step.frame eq] at found
      exact claims.held k job' there ne m₁ found

theorem alone_advance (k k' : Nat) (a b : Job) (ha : (jobs.set j (job.next made s'))[k]? = some a)
    (hb : (jobs.set j (job.next made s'))[k']? = some b) (ne : a.claim ≠ .none)
    (claim : b.claim = a.claim) (handle : b.handle = a.handle) : k' = k := by
  obtain ⟨m', -, move⟩ := step.moved record
  obtain ⟨rfl, rfl⟩ | ⟨other, ha⟩ := getElem?_set_cases ha
  · obtain ⟨rfl, -⟩ | ⟨other, hb⟩ := getElem?_set_cases hb
    · rfl
    · have claimed : b.claim ≠ .none := by
        rw [claim]
        exact ne
      exact absurd claim (claims.others here record move other hb handle claimed).2.1
  · obtain ⟨-, rfl⟩ | ⟨-, hb⟩ := getElem?_set_cases hb
    · exact absurd claim.symm (claims.others here record move other ha handle.symm ne).2.1
    · exact claims.alone k k' a b ha hb ne claim handle

theorem owned_advance (h : Handle) (m₁ : Membership) (found : c'.records[h]? = some m₁) (k : Claim)
    (seq : Int32) (knows : m₁.Knows seq k) :
    ∃ (j₁ : Nat) (job₁ : Job) (r : Request), (jobs.set j (job.next made s'))[j₁]? = some job₁ ∧
      job₁.handle = h ∧ job₁.claim = k ∧ job₁.errand.notes k ∧ job₁.request = some r ∧
      r.packet.seq = seq := by
  obtain ⟨m', record', move⟩ := step.moved record
  by_cases eq : h = job.handle
  · subst eq
    obtain rfl := Option.some.inj (record'.symm.trans found)
    obtain ⟨claim', p, errand, errand', number⟩ | ⟨before, stays⟩ := move.knows knows
    · have notes : s'.errand.notes k := by
        rw [errand']
        rfl
      have carries := claims.carries j job here
      rw [show job.errand = .drafted p from errand] at carries
      obtain ⟨r, request, rfl⟩ := carries
      have there := (getElem?_set_of here (job.next made s') j).trans (if_pos rfl)
      refine ⟨j, _, r, there, rfl, claim', notes, ?_, number⟩
      exact (requestAfter_of_notes made job.request notes).trans request
    · exact claims.owned_of_known here made record before fun _ => stays
  · rw [step.frame eq] at found
    exact claims.owned_of_known here made found knows fun same => absurd same.symm eq

theorem sought_advance (k : Nat) (job' : Job)
    (there : (jobs.set j (job.next made s'))[k]? = some job') (claim : job'.claim = .lock)
    (notes : job'.errand.notes .lock) (r : Request) (request : job'.request = some r)
    (m₁ : Membership) (found : c'.records[job'.handle]? = some m₁) :
    r.packet.message.body.group? = some m₁.ref := by
  obtain ⟨m', record', move⟩ := step.moved record
  obtain ⟨-, rfl⟩ | ⟨other, there⟩ := getElem?_set_cases there
  · obtain rfl := Option.some.inj (record'.symm.trans found)
    obtain ⟨m₀, found₀, asks⟩ := claims.known j job here
    obtain rfl := Option.some.inj (record.symm.trans found₀)
    have request : job.request = some r :=
      (requestAfter_of_notes made job.request notes).symm.trans request
    apply step.sought record record' asks claim notes
    · intro p errand
      have carries := claims.carries j job here
      rw [show job.errand = .drafted p from errand] at carries
      obtain ⟨r', request', rfl⟩ := carries
      obtain rfl := Option.some.inj (request.symm.trans request')
      rfl
    · intro claim₀ notes₀
      exact claims.sought j job here claim₀ notes₀ r request m record
  · by_cases eq : job'.handle = job.handle
    · obtain rfl := Option.some.inj (record'.symm.trans (eq ▸ found))
      have token := claims.token_of_lock here record move other there eq claim
      have ref : m'.ref = m.ref := by
        unfold Membership.ref
        rw [move.id, token]
      rw [ref]
      exact claims.sought k job' there claim notes r request m (eq ▸ record)
    · rw [step.frame eq] at found
      exact claims.sought k job' there claim notes r request m₁ found

/-- A step of a call keeps everybody's claims. -/
theorem advance : Claims c'.records (jobs.set j (job.next made s')) where
  numbered h m₁ found := by
    rw [step.size]
    by_cases eq : h = job.handle
    · rw [eq]
      exact claims.numbered _ m record
    · rw [step.frame eq] at found
      exact claims.numbered h m₁ found
  known := claims.known_advance here record step made
  held := claims.held_advance here record step made
  alone := claims.alone_advance here record step made
  carries k job' there := by
    obtain ⟨-, rfl⟩ | ⟨-, there⟩ := getElem?_set_cases there
    · exact (claims.carries j job here).next step.next
    · exact claims.carries k job' there
  owned := claims.owned_advance here record step made
  sought := claims.sought_advance here record step made

end Advance

theorem create (claims : Claims records jobs) (id : NodeId) (token : Token) :
    Claims (records.insert records.size (.create id token)) jobs := by
  have fresh : records[records.size]? = none := by
    cases found : records[records.size]? with
    | none => rfl
    | some m => exact absurd (claims.numbered _ m found) (Nat.lt_irrefl _)
  have size : (records.insert records.size (.create id token)).size = records.size + 1 := by
    rw [Std.ExtTreeMap.size_insert, if_neg]
    rw [Table.contains_iff, fresh]
    rintro ⟨m, stored⟩
    contradiction
  have old {h : Handle} {m : Membership} (record : records[h]? = some m) :
      (records.insert records.size (.create id token))[h]? = some m := by
    rw [Table.getElem?_insert, if_neg (Nat.ne_of_lt (claims.numbered h m record)).symm]
    exact record
  constructor
  case numbered =>
    intro h m record
    rw [Table.getElem?_insert] at record
    rw [size]
    split at record
    · rename_i eq
      rw [← eq]
      exact Nat.lt_succ_self _
    · exact Nat.lt_succ_of_lt (claims.numbered h m record)
  case known =>
    intro j job here
    obtain ⟨m, record, asks⟩ := claims.known j job here
    exact ⟨m, old record, asks⟩
  case held =>
    intro j job here ne m record
    obtain ⟨m₀, record₀, -⟩ := claims.known j job here
    obtain rfl := Option.some.inj ((old record₀).symm.trans record)
    exact claims.held j job here ne m₀ record₀
  case alone => exact claims.alone
  case carries => exact claims.carries
  case owned =>
    intro h m record k seq knows
    rw [Table.getElem?_insert] at record
    split at record
    · obtain rfl := Option.some.inj record
      cases k with
      | none => exact knows.elim
      | lock => exact nomatch knows
      | wait => exact nomatch knows
    · exact claims.owned h m record k seq knows
  case sought =>
    intro j job here claim notes r request m record
    obtain ⟨m₀, record₀, -⟩ := claims.known j job here
    obtain rfl := Option.some.inj ((old record₀).symm.trans record)
    exact claims.sought j job here claim notes r request m₀ record₀

theorem begin (claims : Claims records jobs) {call : Call}
    (known : ∃ m, records[call.handle]? = some m) (free : call.stage.claim = .none)
    (idle : call.stage.errand = .none) : Claims records (jobs ++ [⟨call, none⟩]) := by
  have cases {j : Nat} {job : Job} (here : (jobs ++ [⟨call, none⟩])[j]? = some job) :
      jobs[j]? = some job ∨ job = ⟨call, none⟩ := getElem?_append_cases here
  constructor
  case numbered => exact claims.numbered
  case known =>
    intro j job here
    obtain here | rfl := cases here
    · exact claims.known j job here
    · obtain ⟨m, record⟩ := known
      refine ⟨m, record, CallStage.asks_of_errand ?_ ?_⟩
      · simp [idle]
      · simp [idle]
  case held =>
    intro j job here ne m record
    obtain here | rfl := cases here
    · exact claims.held j job here ne m record
    · exact absurd free ne
  case alone =>
    intro j j' job job' here there ne claim handle
    obtain here | rfl := cases here
    · obtain there | rfl := cases there
      · exact claims.alone j j' job job' here there ne claim handle
      · exact absurd (claim.symm.trans free) ne
    · exact absurd free ne
  case carries =>
    intro j job here
    obtain here | rfl := cases here
    · exact claims.carries j job here
    · rw [show Job.errand ⟨call, none⟩ = .none from idle]
      rfl
  case owned =>
    intro h m record k seq knows
    obtain ⟨j, job, r, here, rest⟩ := claims.owned h m record k seq knows
    exact ⟨j, job, r, getElem?_append_of here _, rest⟩
  case sought =>
    intro j job here claim notes r request m record
    obtain here | rfl := cases here
    · exact claims.sought j job here claim notes r request m record
    · exact nomatch request

end Claims
end Muster
