import Muster.Proofs.Network.Sound

/-! Waits at sync points and the calls that they belong to. What packets have made of a wait is
known of the request of its call, for as long as the call waits. -/
namespace Muster

/-- Whether a call waits on this record with a request of which something is known. -/
def Attended (jobs : List Job) (h : Handle) (known : Nat → Request → Prop) : Prop :=
  ∃ (j : Nat) (job : Job) (r : Request), jobs[j]? = some job ∧ job.handle = h ∧
    job.claim = .wait ∧ job.errand.notes .wait ∧ job.request = some r ∧ known j r

theorem Attended.mono {jobs : List Job} {h : Handle} {known known' : Nat → Request → Prop}
    (attended : Attended jobs h known) (weaker : ∀ j r, known j r → known' j r) :
    Attended jobs h known' := by
  obtain ⟨j, job, r, here, handle, claim, notes, request, known⟩ := attended
  exact ⟨j, job, r, here, handle, claim, notes, request, weaker j r known⟩

namespace Peer

/-- Whether something is known of the request of every call whose wait has a property. -/
def Marked (p : Peer) (Q : SyncWait → Prop) (known : Handle → Nat → Request → Prop) : Prop :=
  ∀ (h : Handle) (m : Membership) (w : SyncWait), p.client.records[h]? = some m →
    m.wait = some w → Q w → Attended p.jobs h (known h)

/-- The packet that is taken in next says something about the group of a record, and the wait at
a sync point becomes another one. -/
structure Alters (p : Peer) (x : Handed) (t : Tidings) (k : Handle) (m m' : Membership)
    (w w' : SyncWait) : Prop where
  told : x.delivery.tidings? = some (m.id, t)
  heard : p.dispatch.heard = x :: p.heard
  before : p.client.records[k]? = some m
  after : p.dispatch.client.records[k]? = some m'
  wait : m.wait = some w
  wait' : m'.wait = some w'

/-- What a record awaits an answer to is a request of a call, with the number of the answer. -/
theorem Sound.own_number {p : Peer} (h : p.Sound) {x : Handed} (mem : x ∈ p.inbox) {id : NodeId}
    {t : Tidings} (tidings : x.delivery.tidings? = some (id, t))
    (answer : t.reply?.isSome ∨ t.syncCode?.isSome) {k : Handle} {m : Membership}
    (record : p.client.records[k]? = some m) {claim : Claim}
    (knows : m.Knows x.delivery.packet.seq claim) :
    ∃ (j : Nat) (job : Job) (r r' : Request), p.jobs[j]? = some job ∧ job.handle = k ∧
      job.claim = claim ∧ job.errand.notes claim ∧ job.request = some r ∧
      x.request? = some r' ∧ x.delivery.packet.RespondsTo (some r') ∧
      r.packet.seq = r'.packet.seq := by
  have response := Delivery.role_of_tidings tidings answer
  have responds := h.handed x (.inl mem)
  obtain ⟨j, job, r, here, handle, claimed, notes, request, number⟩ :=
    h.claims.owned k m record claim _ knows
  cases hr : x.request? with
  | none =>
    rw [hr] at responds
    exact absurd response responds
  | some r' =>
    rw [hr] at responds
    exact ⟨j, job, r, r', here, handle, claimed, notes, request, rfl, responds,
      number.trans responds.2.1⟩

namespace Marked
variable {p p' : Peer} {Q : SyncWait → Prop} {known known' : Handle → Nat → Request → Prop}

theorem mono (h : p.Marked Q known) (weaker : ∀ k j r, known k j r → known' k j r) :
    p.Marked Q known' :=
  fun k m w record wait q => (h k m w record wait q).mono (weaker k)

theorem congr (h : p.Marked Q known) (records : p'.client.records = p.client.records)
    (jobs : p'.jobs = p.jobs) : p'.Marked Q known := by
  intro k m w record wait q
  rw [records] at record
  rw [jobs]
  exact h k m w record wait q

theorem register (id : NodeId) (config : ClientConfig) (numbering : Numbering) :
    (Peer.register id config numbering).Marked Q known := by
  obtain ⟨records, -, -⟩ := Client.dial_cases id config numbering .empty
  intro k m w record
  have record : (Client.dial _ _).records[k]? = some m := record
  rw [records] at record
  simp at record

theorem moveOn (h : p.Marked Q known) (earned : SyncWait.Earned Q) {j : Nat} {job : Job}
    {m : Membership} {c c' : Client} {s' : CallStage} (here : p.jobs[j]? = some job)
    (client : c = { p.client with numbering := c.numbering })
    (record : c.records[job.handle]? = some m)
    (step : Call.CallStep c job.handle m job.call.stage c' s') :
    (p.moveOn j job c' s').Marked Q known := by
  intro k m₁ w found wait q
  have records : c.records = p.client.records := by
    rw [client]
  obtain ⟨m', record', move⟩ := step.moved record
  have old {m₀ : Membership} {w₀ : SyncWait} (found₀ : p.client.records[k]? = some m₀)
      (wait₀ : m₀.wait = some w₀) (q₀ : Q w₀)
      (stays : k = job.handle → job.claim = .wait → job.errand.notes .wait →
        s'.claim = .wait ∧ s'.errand.notes .wait) :
      Attended (p.moveOn j job c' s').jobs k (known k) := by
    obtain ⟨j₀, job₀, r, there, handle, claim, notes, request, knows⟩ := h k m₀ w₀ found₀ wait₀ q₀
    by_cases eq : j = j₀
    · subst eq
      obtain rfl := Option.some.inj (here.symm.trans there)
      obtain ⟨claim', notes'⟩ := stays handle.symm claim notes
      refine ⟨j, job.next p.made s', r, ?_, handle, claim', notes', ?_, knows⟩
      · exact (getElem?_set_of here _ j).trans (if_pos rfl)
      · exact (requestAfter_of_notes p.made job.request notes').trans request
    · refine ⟨j₀, job₀, r, ?_, handle, claim, notes, request, knows⟩
      exact (getElem?_set_of here _ j₀).trans ((if_neg eq).trans there)
  by_cases eq : k = job.handle
  · subst eq
    obtain rfl := Option.some.inj (record'.symm.trans found)
    obtain ⟨w₀, wait₀, q₀, stays⟩ := move.earned earned wait q
    exact old (records ▸ record) wait₀ q₀ fun _ => stays
  · rw [show (p.moveOn j job c' s').client.records[k]? = c.records[k]? from step.frame eq,
      records] at found
    exact old found wait q fun same => absurd same eq

theorem begin (h : p.Marked Q known) {now : Nat} {a : Ask} {c : Client} {call : Call}
    (run : a.call? p.client now = some (c, call)) :
    Marked { p with client := c, jobs := p.jobs ++ [(⟨call, none⟩ : Job)] } Q known := by
  intro k m w record wait q
  obtain record | ⟨-, none⟩ := Sound.begin_record run record
  · obtain ⟨j, job, r, here, rest⟩ := h k m w record wait q
    exact ⟨j, job, r, getElem?_append_of here _, rest⟩
  · rw [none] at wait
    contradiction

theorem ask (h : p.Marked Q known) (now : Nat) (a : Ask) : (p.ask now a).Marked Q known := by
  unfold Peer.ask
  split
  · rename_i run
    exact h.begin run
  · exact h

theorem advance (h : p.Marked Q known) (earned : SyncWait.Earned Q) (now : Nat) (numbering : Numbering)
    (j : Nat) : (p.advance now numbering j).Marked Q known := by
  obtain same | ⟨job, m, c, c', s', here, rfl, record, step, eq⟩ := p.advance_cases now numbering j
  · rw [same]
    exact h
  · rw [eq]
    exact h.moveOn earned here rfl record step

theorem correlate (h : p.Marked Q known) : p.correlate.Marked Q known := by
  obtain same | ⟨x, rest, link, delivery, pending, -, -, -, eq⟩ := p.correlate_cases
  · rw [same]
    exact h
  · rw [eq]
    exact h.congr rfl rfl

theorem transfer (h : p.Marked Q known) (transfers : p.Transfers p') : p'.Marked Q known := by
  obtain ⟨toServer, toClient, rfl, -, -⟩ := transfers
  exact h.congr rfl rfl

theorem tearDown (h : p.Marked Q known) (earned : SyncWait.Earned Q) (sound : p.Sound) :
    p.tearDown.Marked Q known := by
  intro k m' w record wait q
  obtain ⟨m, found, rfl | ⟨rfl, -⟩⟩ := sound.tearDown_record record
  · exact h k m' w found wait q
  · obtain ⟨w₀, wait₀, rfl⟩ := Option.map_eq_some_iff.mp wait
    exact h k m w₀ found wait₀ (earned.left w₀ q)

/-- What a packet makes of a wait has to be known of the request of its call. -/
theorem dispatch (h : p.Marked Q known) (earned : SyncWait.Earned Q) (sound : p.Sound)
    {x : Handed} {rest : List Handed} (next : p.inbox = x :: rest)
    (noticed : ∀ {k : Handle} {m m' : Membership} {w w' : SyncWait} {point : NodeId}
      {code : ProgressCode}, p.Alters x (.progress point code) k m m' w w' →
        w' = w.notified point code → Q w' → Q w ∨ Attended p.jobs k (known k))
    (answered : ∀ {k : Handle} {m m' : Membership} {w w' : SyncWait} {point : NodeId}
      {code : SyncCode}, p.Alters x (.syncAnswer point code) k m m' w w' →
        w' = w.answered x.delivery.packet.seq point code → Q w' →
          Q w ∨ Attended p.jobs k (known k)) : p.dispatch.Marked Q known := by
  intro k m' w' after wait' q
  rw [p.dispatch_jobs]
  obtain ⟨m, before, rfl | ⟨t, told, -, -, heard, rfl⟩⟩ := sound.dispatch_record next after
  · exact h k m' w' before wait' q
  · obtain ⟨w, wait, old | ⟨point, code, rfl, eq⟩ | ⟨point, code, rfl, eq⟩⟩ :=
      Membership.heed_earned earned wait' q
    · exact h k m w before wait old
    · obtain old | attended := noticed ⟨told, heard, before, after, wait, wait'⟩ eq q
      · exact h k m w before wait old
      · exact attended
    · obtain old | attended := answered ⟨told, heard, before, after, wait, wait'⟩ eq q
      · exact h k m w before wait old
      · exact attended

end Marked
end Peer
end Muster
