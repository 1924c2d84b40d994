import Muster.Proofs.Network.Waits

/-! What holds of a client and its packets in every state, as long as no two live requests have
the same number: responses are taken for what they are, the responses to the requests of calls
that still wait for them. -/
namespace Muster

namespace Handed

/-- Whether a packet was passed on together with its own request. -/
def Genuine (x : Handed) : Prop :=
  x.delivery.packet.RespondsTo x.request? ∧
    x.delivery.request = x.request?.map fun r => r.packet.message

def Brings (x : Handed) (reply : Reply) : Prop :=
  ∃ id t, x.delivery.tidings? = some (id, t) ∧ t.reply? = some reply

def Reveals (x : Handed) (v : Option SyncOutcome) : Prop :=
  ∃ id t code, x.delivery.tidings? = some (id, t) ∧ t.syncCode? = some code ∧
    SyncOutcome.ofAnswer? code = v

end Handed

/-- Whether the call has sent its request and has not cancelled it. -/
def Job.Waits (job : Job) : Prop := ∃ seq, job.errand = .awaiting seq ∨ job.errand = .cancelling seq

namespace Peer

/-- A call that waits for its reply on this record, which has come. -/
def Replied (p : Peer) (h : Handle) (reply : Reply) : Prop :=
  ∃ (j : Nat) (job : Job) (r : Request) (x : Handed), p.jobs[j]? = some job ∧ job.handle = h ∧
    job.claim = .lock ∧ (∃ seq, job.errand = .awaiting seq) ∧ job.request = some r ∧
    x ∈ p.heard ∧ x.request? = some r ∧ x.Brings reply

/-- A call that waits at a sync point and has been told so much. -/
def Shown (p : Peer) (h : Handle) (v : Option SyncOutcome) : Prop :=
  ∃ (j : Nat) (job : Job) (r : Request) (x : Handed), p.jobs[j]? = some job ∧ job.handle = h ∧
    job.claim = .wait ∧ job.errand.notes .wait ∧ job.request = some r ∧
    x ∈ p.heard ∧ x.request? = some r ∧ x.Reveals v

structure Orderly (p : Peer) : Prop where
  claims : Claims p.client.records p.jobs
  listed (id : NodeId) (h : Handle) (known : p.client.groups[id]? = some h) :
    ∃ m, p.client.records[h]? = some m ∧ m.id = id
  trail : Trail p.jobs p.made p.trail
  incoming (x : Incoming) (mem : x ∈ p.toClient) : x.packet.RespondsTo x.request?
  handed (x : Handed) (mem : x ∈ p.inbox ∨ x ∈ p.heard) : x.Genuine
  outstanding (r : Request) (mem : r ∈ p.toServer ∨ r ∈ p.toClient.filterMap Incoming.request?)
    (message : Message) (pending : p.client.pending[r.packet.seq]? = some message) :
    message = r.packet.message ∧
      (r.place = 0 ∨ ∃ (j : Nat) (job : Job), p.jobs[j]? = some job ∧ job.request = some r ∧ job.Waits)
  replied (h : Handle) (m : Membership) (record : p.client.records[h]? = some m) (reply : Reply)
    (answered : m.exchange = .answered reply) :
    reply = .lost ∧ p.client.link = none ∨ p.Replied h reply
  shown (h : Handle) (m : Membership) (record : p.client.records[h]? = some m) (w : SyncWait)
    (wait : m.wait = some w) (v : Option SyncOutcome) (shown : w.Shows v) : p.Shown h v
  down : p.closing = none ∨ p.closing = some .dropLink ∨ p.client.link = none
  turned : p.Turned

theorem shown_iff {p : Peer} {h : Handle} {v : Option SyncOutcome} : p.Shown h v ↔
    Attended p.jobs h fun _ r => ∃ x ∈ p.heard, x.request? = some r ∧ x.Reveals v := by
  constructor
  · rintro ⟨j, job, r, x, here, handle, claim, notes, request, heard, rest⟩
    exact ⟨j, job, r, here, handle, claim, notes, request, x, heard, rest⟩
  · rintro ⟨j, job, r, here, handle, claim, notes, request, x, heard, rest⟩
    exact ⟨j, job, r, x, here, handle, claim, notes, request, heard, rest⟩

namespace Orderly
variable {p : Peer}

theorem marked (h : p.Orderly) (v : Option SyncOutcome) : p.Marked (SyncWait.Shows · v)
    fun _ _ r => ∃ x ∈ p.heard, x.request? = some r ∧ x.Reveals v :=
  fun k m w record wait shown => shown_iff.mp (h.shown k m record w wait v shown)

theorem sound (h : p.Orderly) : p.Sound where
  claims := h.claims
  listed := h.listed
  trail := h.trail
  incoming := h.incoming
  handed x mem := (h.handed x mem).1
  down := h.down
  turned := h.turned

theorem not_heard (h : p.Orderly) {r : Request}
    (mem : r ∈ p.toServer ∨ r ∈ p.toClient.filterMap Incoming.request?) {x : Handed}
    (heard : x ∈ p.heard) : x.request? ≠ some r := by
  intro eq
  have once := h.trail.once
  unfold Peer.trail Peer.underway at once
  obtain ⟨-, -, disjoint⟩ := List.nodup_append'.mp once
  apply disjoint (a := r)
  · rw [List.append_assoc, List.mem_append, List.mem_append]
    rcases mem with mem | mem
    · exact .inl mem
    · exact .inr (.inl mem)
  · exact List.mem_filterMap.mpr ⟨x, heard, eq⟩

theorem elsewhere {jobs : List Job} {j k : Nat} {job job' : Job} (here : jobs[j]? = some job)
    (there : jobs[k]? = some job') (ne : j ≠ k) (next : Job) :
    (jobs.set j next)[k]? = some job' := by
  rw [getElem?_set_of here, if_neg ne]
  exact there

theorem mem_live_of_flight {r : Request}
    (mem : r ∈ p.toServer ∨ r ∈ p.toClient.filterMap Incoming.request?) : r ∈ p.live := by
  apply List.mem_append_right
  unfold Peer.underway
  rw [List.append_assoc, List.mem_append, List.mem_append]
  rcases mem with mem | mem
  · exact .inl mem
  · exact .inr (.inl mem)

section Advance
variable {j : Nat} {job : Job} {m : Membership} {c c' : Client} {s' : CallStage}

/-- A call that is through with its request has not been overtaken by the response. -/
theorem not_finished (h : p.Orderly) (here : p.jobs[j]? = some job)
    (record : p.client.records[job.handle]? = some m)
    (step : Call.CallStep c job.handle m job.call.stage c' s') {r : Request}
    (mem : r ∈ p.toServer ∨ r ∈ p.toClient.filterMap Incoming.request?)
    (request : job.request = some r) {seq : Int32} (errand : job.errand = .awaiting seq)
    (linked : p.client.link ≠ none) : s'.errand ≠ .none := by
  intro done
  obtain ⟨claim, reply, answered⟩ := step.finished errand done
  obtain ⟨-, closed⟩ | ⟨j₀, job₀, r₀, x, there, handle, claim₀, -, request₀, heard, origin, -⟩ :=
    h.replied _ m record reply answered
  · exact linked closed
  · have ne : job.claim ≠ .none := by
      rw [show job.claim = .lock from claim]
      decide
    have eq := h.claims.alone j j₀ job job₀ here there ne (claim₀.trans claim.symm) handle
    subst eq
    obtain rfl := Option.some.inj (here.symm.trans there)
    obtain rfl := Option.some.inj (request.symm.trans request₀)
    exact h.not_heard mem heard origin

/-- The holders of outstanding requests go on to hold them. -/
theorem outstanding_moveOn (h : p.Orderly) (apart : p.Apart) (here : p.jobs[j]? = some job)
    (client : c = { p.client with numbering := c.numbering })
    (record : p.client.records[job.handle]? = some m)
    (step : Call.CallStep c job.handle m job.call.stage c' s') {r : Request}
    (mem : r ∈ (p.moveOn j job c' s').toServer ∨ r ∈ p.toClient.filterMap Incoming.request?)
    {message : Message} (pending : c'.pending[r.packet.seq]? = some message) :
    message = r.packet.message ∧ (r.place = 0 ∨ ∃ (k : Nat) (job' : Job),
      (p.moveOn j job c' s').jobs[k]? = some job' ∧ job'.request = some r ∧ job'.Waits) := by
  have carries := h.claims.carries j job here
  have asks : job.call.stage.Asks m := by
    obtain ⟨m₀, found, asks⟩ := h.claims.known j job here
    obtain rfl := Option.some.inj (record.symm.trans found)
    exact asks
  have place (k : Nat) := getElem?_set_of here (job.next p.made s') k
  have cases : (r ∈ p.toServer ∨ r ∈ p.toClient.filterMap Incoming.request?) ∨
      job.request = some r ∧ job.errand = .recorded r.packet ∧
        ∃ seq, s'.errand = .awaiting seq := by
    rcases mem with mem | mem
    · rcases List.mem_append.mp mem with old | new
      · exact .inl (.inl old)
      · exact .inr (Trail.sentBy_eq carries (Option.mem_toList.mp new))
    · exact .inl (.inr mem)
  obtain ⟨before, kept, unsent⟩ | ⟨q, recorded, awaiting, number, eq⟩ :=
    step.pending asks pending
  · have before : p.client.pending[r.packet.seq]? = some message := by
      rw [client] at before
      exact before
    obtain mem | ⟨-, recorded, seq, awaiting⟩ := cases
    · obtain ⟨eq, holder⟩ := h.outstanding r mem message before
      refine ⟨eq, ?_⟩
      obtain first | ⟨k, job', there, request, waits⟩ := holder
      · exact .inl first
      · right
        by_cases same : j = k
        · subst same
          obtain rfl := Option.some.inj (here.symm.trans there)
          have linked : p.client.link ≠ none := by
            intro closed
            rw [Client.pending, closed] at before
            simp at before
          obtain ⟨seq, awaiting | cancelling⟩ := waits
          · have next := step.next
            rw [show job.call.stage.errand = .awaiting seq from awaiting] at next
            obtain cancelling | done := next.of_awaiting
            · refine ⟨j, job.next p.made s', (place j).trans (if_pos rfl), ?_, seq, .inr cancelling⟩
              show requestAfter p.made job.request s'.errand = some r
              rw [cancelling]
              exact request
            · exact absurd done (h.not_finished here record step mem request awaiting linked)
          · rw [cancelling] at carries
            obtain ⟨r', request', rfl⟩ := carries
            obtain rfl := Option.some.inj (request.symm.trans request')
            exact absurd cancelling kept
        · exact ⟨k, job', (place k).trans ((if_neg same).trans there), request, waits⟩
    · exact absurd rfl (unsent _ _ recorded awaiting)
  · rw [show job.errand = .recorded q from recorded] at carries
    obtain ⟨r₁, request, rfl⟩ := carries
    obtain rfl : r₁ = r := by
      obtain mem | ⟨request', -, -⟩ := cases
      · exact apart r₁ (mem_live_of_job here request) r (mem_live_of_flight mem) number
      · exact Option.some.inj (request.symm.trans request')
    refine ⟨eq.symm, .inr ⟨j, job.next p.made s', (place j).trans (if_pos rfl), ?_, _,
      .inl awaiting⟩⟩
    show requestAfter p.made job.request s'.errand = some r₁
    rw [awaiting]
    exact request

theorem replied_moveOn (h : p.Orderly) (here : p.jobs[j]? = some job)
    (client : c = { p.client with numbering := c.numbering })
    (record : p.client.records[job.handle]? = some m)
    (step : Call.CallStep c job.handle m job.call.stage c' s') {k : Handle} {m₁ : Membership}
    (found : c'.records[k]? = some m₁) {reply : Reply} (answered : m₁.exchange = .answered reply) :
    reply = .lost ∧ c'.link = none ∨ (p.moveOn j job c' s').Replied k reply := by
  have records : c.records = p.client.records := by
    rw [client]
  have closed (closed : p.client.link = none) : c'.link = none := by
    apply step.link_none
    rw [client]
    exact closed
  obtain ⟨m', record', move⟩ := step.moved (records ▸ record)
  have old {m₀ : Membership} (found₀ : p.client.records[k]? = some m₀)
      (answered₀ : m₀.exchange = .answered reply)
      (other : k = job.handle → job.claim = .lock → ∀ seq, job.errand ≠ .awaiting seq) :
      reply = .lost ∧ c'.link = none ∨ (p.moveOn j job c' s').Replied k reply := by
    obtain ⟨lost, gone⟩ | ⟨j₀, job₀, r, x, there, handle, claim, ⟨seq, awaiting⟩, rest⟩ :=
      h.replied k m₀ found₀ reply answered₀
    · exact .inl ⟨lost, closed gone⟩
    · by_cases eq : j = j₀
      · subst eq
        obtain rfl := Option.some.inj (here.symm.trans there)
        exact absurd awaiting (other handle.symm claim seq)
      · exact .inr ⟨j₀, job₀, r, x, elsewhere here there eq _, handle, claim, ⟨seq, awaiting⟩, rest⟩
  by_cases eq : k = job.handle
  · subst eq
    obtain rfl := Option.some.inj (record'.symm.trans found)
    obtain ⟨before, other⟩ := move.answered answered
    exact old record before fun _ => other
  · rw [step.frame eq, records] at found
    exact old found answered fun same => absurd same eq

end Advance

theorem advance (h : p.Orderly) (apart : p.Apart) (now : Nat) (numbering : Numbering) (j : Nat) :
    (p.advance now numbering j).Orderly := by
  obtain same | ⟨job, m, c, c', s', here, rfl, record, step, eq⟩ := p.advance_cases now numbering j
  · rw [same]
    exact h
  · rw [eq]
    have sound := h.sound.moveOn here rfl record step
    constructor
    case claims => exact sound.claims
    case listed => exact sound.listed
    case trail => exact sound.trail
    case incoming => exact sound.incoming
    case handed => exact h.handed
    case outstanding =>
      intro r mem message pending
      exact h.outstanding_moveOn apart here rfl record step mem pending
    case replied =>
      intro k m₁ found reply answered
      exact h.replied_moveOn here rfl record step found answered
    case shown =>
      intro k m₁ found w wait v shown
      exact shown_iff.mpr ((h.marked v).moveOn (SyncWait.earned_shows v) here rfl record step
        k m₁ w found wait shown)
    case down => exact sound.down
    case turned => exact sound.turned

theorem ask (h : p.Orderly) (now : Nat) (a : Ask) : (p.ask now a).Orderly := by
  unfold Peer.ask
  split
  · rename_i c call _ run
    have sound := h.sound.begin run
    have link : c.link = p.client.link := by
      obtain ⟨-, -, ⟨rfl, -⟩ | ⟨id, token, -, rfl, -⟩⟩ := a.call?_cases run
      · rfl
      · rfl
    constructor
    case claims => exact sound.claims
    case listed => exact sound.listed
    case trail => exact sound.trail
    case incoming => exact sound.incoming
    case handed => exact h.handed
    case outstanding =>
      intro r mem message found
      rw [Client.pending_of_link link] at found
      obtain ⟨eq, first | ⟨j, job, here, rest⟩⟩ := h.outstanding r mem message found
      · exact ⟨eq, .inl first⟩
      · exact ⟨eq, .inr ⟨j, job, getElem?_append_of here _, rest⟩⟩
    case replied =>
      intro k m record reply answered
      obtain record | ⟨idle, -⟩ := Sound.begin_record run record
      · obtain lost | ⟨j, job, r, x, here, rest⟩ := h.replied k m record reply answered
        · rw [link]
          exact .inl lost
        · exact .inr ⟨j, job, r, x, getElem?_append_of here _, rest⟩
      · rw [idle] at answered
        contradiction
    case shown =>
      intro k m record w wait v shown
      exact shown_iff.mpr ((h.marked v).begin run k m w record wait shown)
    case down => exact sound.down
    case turned => exact sound.turned
  · exact h

theorem register (id : NodeId) (config : ClientConfig) (numbering : Numbering) :
    (Peer.register id config numbering).Orderly := by
  have sound := Sound.register id config numbering
  obtain ⟨records, -, pending⟩ := Client.dial_cases id config numbering .empty
  constructor
  case claims => exact sound.claims
  case listed => exact sound.listed
  case trail => exact sound.trail
  case incoming => exact sound.incoming
  case handed => exact fun x mem => mem.elim (fun mem => nomatch mem) fun mem => nomatch mem
  case outstanding =>
    intro r mem message found
    rcases mem with mem | mem
    · obtain rfl := List.mem_singleton.mp mem
      exact ⟨pending _ message found, .inl rfl⟩
    · exact nomatch mem
  case replied =>
    intro k m record
    have record : (Client.dial _ _).records[k]? = some m := record
    rw [records] at record
    simp at record
  case shown =>
    intro k m record
    have record : (Client.dial _ _).records[k]? = some m := record
    rw [records] at record
    simp at record
  case down => exact sound.down
  case turned => exact sound.turned

end Orderly
end Peer
end Muster
