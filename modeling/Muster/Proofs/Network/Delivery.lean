import Muster.Proofs.Network.Orderly

/-! Packets that arrive keep a client orderly, and so does the loss of the connection. -/
namespace Muster.Peer.Orderly
variable {p : Peer}

theorem transfer (h : p.Orderly) {p' : Peer} (transfers : p.Transfers p') : p'.Orderly := by
  have sound := h.sound.transfer transfers
  obtain ⟨toServer, toClient, rfl, -, sub⟩ := transfers
  constructor
  case claims => exact sound.claims
  case listed => exact sound.listed
  case trail => exact sound.trail
  case incoming => exact sound.incoming
  case handed => exact h.handed
  case outstanding =>
    intro r mem message pending
    have old := sub.subset (List.mem_append.mpr mem)
    exact h.outstanding r (List.mem_append.mp old) message pending
  case replied => exact h.replied
  case shown => exact h.shown
  case down => exact sound.down
  case turned => exact sound.turned

theorem passed_genuine (h : p.Orderly) {x : Incoming} (mem : x ∈ p.toClient) {d : Delivery}
    (packet : d.packet = x.packet)
    (request : x.packet.message.role = .response ∧
        (∃ request, p.client.pending[x.packet.seq]? = some request ∧ d.request = some request) ∨
      x.packet.message.role ≠ .response ∧ d.request = none) : Handed.Genuine ⟨d, x.origin⟩ := by
  have genuine := h.incoming x mem
  have responds : d.packet.RespondsTo x.request? := by
    rw [packet]
    exact genuine
  refine ⟨responds, ?_⟩
  show d.request = x.request?.map fun r => r.packet.message
  cases hr : x.request? with
  | none =>
    rw [hr] at genuine
    obtain ⟨response, -⟩ | ⟨-, none⟩ := request
    · exact absurd response genuine
    · exact none
  | some r =>
    rw [hr] at genuine
    obtain ⟨response, seq, -⟩ := genuine
    obtain ⟨-, message, found, eq⟩ | ⟨other, -⟩ := request
    · rw [seq] at found
      have own : r ∈ p.toClient.filterMap Incoming.request? :=
        List.mem_filterMap.mpr ⟨x, mem, hr⟩
      rw [eq, (h.outstanding r (.inr own) message found).1]
      rfl
    · exact absurd response other

theorem correlate (h : p.Orderly) : p.correlate.Orderly := by
  have sound := h.sound.correlate
  obtain same | ⟨x, rest, link, delivery, pending, next, linked, run, eq⟩ := p.correlate_cases
  · rw [same]
    exact h
  · rw [eq] at sound ⊢
    obtain ⟨kept, passed⟩ := Pending.pass_cases run
    have outstanding : p.client.pending = link.pending := by
      rw [Client.pending, linked]
      rfl
    have first : x ∈ p.toClient := by
      rw [next]
      exact List.mem_cons_self
    constructor
    case claims => exact sound.claims
    case listed => exact sound.listed
    case trail => exact sound.trail
    case incoming => exact sound.incoming
    case handed =>
      intro y mem
      rcases mem with mem | mem
      · rcases List.mem_append.mp mem with mem | mem
        · exact h.handed y (.inl mem)
        · obtain ⟨d, eq, rfl⟩ := Option.map_eq_some_iff.mp (Option.mem_toList.mp mem)
          obtain ⟨packet, request⟩ := passed d eq
          rw [← outstanding] at request
          exact h.passed_genuine first packet request
      · exact h.handed y (.inr mem)
    case outstanding =>
      intro r mem message found
      apply h.outstanding r _ message
      · rw [outstanding]
        exact kept _ _ found
      · rcases mem with mem | mem
        · exact .inl mem
        · right
          rw [next, List.filterMap_cons]
          split
          · exact mem
          · exact List.mem_cons_of_mem _ mem
    case replied =>
      intro k m record reply answered
      obtain ⟨-, closed⟩ | replied := h.replied k m record reply answered
      · rw [linked] at closed
        contradiction
      · exact .inr replied
    case shown => exact h.shown
    case down => exact sound.down
    case turned => exact sound.turned

section Dispatch
variable {x : Handed} {rest : List Handed}

/-- The answer that a record takes in is the one to the request of the call that awaits it. -/
theorem own_answer (h : p.Orderly) (apart : p.Apart) (next : p.inbox = x :: rest) {id : NodeId}
    {t : Tidings} (tidings : x.delivery.tidings? = some (id, t))
    (answer : t.reply?.isSome ∨ t.syncCode?.isSome) {k : Handle} {m : Membership}
    (record : p.client.records[k]? = some m) {claim : Claim}
    (knows : m.Knows x.delivery.packet.seq claim) :
    ∃ (j : Nat) (job : Job) (r : Request), p.jobs[j]? = some job ∧ job.handle = k ∧
      job.claim = claim ∧ job.errand.notes claim ∧ ¬job.Unsent ∧ job.request = some r ∧
      x.request? = some r := by
  have mem : x ∈ p.inbox := by
    rw [next]
    exact List.mem_cons_self
  obtain ⟨j, job, r, r', here, handle, claimed, notes, request, origin, -, number⟩ :=
    h.sound.own_number mem tidings answer record knows
  have underway := mem_underway_of_inbox mem origin
  obtain rfl : r = r' :=
    apart r (mem_live_of_job here request) r' (List.mem_append_right _ underway) number
  refine ⟨j, job, r, here, handle, claimed, notes, ?_, request, origin⟩
  intro unsent
  exact h.trail.unsent j job here r request unsent (List.mem_append_left _ underway)

/-- A lock holder whose request was sent and is still known waits for its reply. -/
theorem awaits_of_notes {job : Job} (claim : job.claim = .lock) (notes : job.errand.notes .lock)
    (sent : ¬job.Unsent) : ∃ seq, job.errand = .awaiting seq := by
  cases hs : job.errand with
  | none =>
    rw [hs] at notes
    contradiction
  | drafted p => exact absurd (.inl ⟨p, hs⟩) sent
  | recorded p => exact absurd (.inr (.inl ⟨p, hs⟩)) sent
  | awaiting seq => exact ⟨seq, rfl⟩
  | cancelling seq =>
    rw [hs] at notes
    contradiction
  | ended => exact absurd (.inr (.inr ⟨claim, hs⟩)) sent

theorem replied_dispatch (h : p.Orderly) (apart : p.Apart) (next : p.inbox = x :: rest)
    {k : Handle} {m' : Membership} (record' : p.dispatch.client.records[k]? = some m')
    {reply : Reply} (answered : m'.exchange = .answered reply) :
    reply = .lost ∧ p.client.link = none ∨ p.dispatch.Replied k reply := by
  have jobs := p.dispatch_jobs
  have old {m : Membership} (record : p.client.records[k]? = some m)
      (answered : m.exchange = .answered reply) :
      reply = .lost ∧ p.client.link = none ∨ p.dispatch.Replied k reply := by
    obtain lost | ⟨j, job, r, y, here, handle, claim, awaits, request, heard, rest⟩ :=
      h.replied k m record reply answered
    · exact .inl lost
    · exact .inr ⟨j, job, r, y, jobs ▸ here, handle, claim, awaits, request, p.dispatch_heard heard,
        rest⟩
  obtain ⟨m, record, rfl | ⟨t, told, -, -, heard, rfl⟩⟩ := h.sound.dispatch_record next record'
  · exact old record answered
  · obtain same | ⟨awaited, reply', replies, eq⟩ := m.heed_exchange
    · rw [same] at answered
      exact old record answered
    · right
      obtain rfl := Exchange.answered.inj (answered.symm.trans eq)
      have reply : t.reply?.isSome := by
        rw [replies]
        rfl
      have knows : m.Knows x.delivery.packet.seq .lock := awaited
      obtain ⟨j, job, r, here, handle, claim, notes, sent, request, own⟩ :=
        h.own_answer apart next told (.inl reply) record knows
      refine ⟨j, job, r, x, jobs ▸ here, handle, claim, awaits_of_notes claim notes sent, request,
        ?_, own, m.id, t, told, replies⟩
      rw [heard]
      exact List.mem_cons_self

theorem marked_dispatch (h : p.Orderly) (apart : p.Apart) (next : p.inbox = x :: rest)
    (v : Option SyncOutcome) : p.dispatch.Marked (SyncWait.Shows · v)
      fun _ _ r => ∃ y ∈ p.dispatch.heard, y.request? = some r ∧ y.Reveals v := by
  have heard : p.Marked (SyncWait.Shows · v)
      fun _ _ r => ∃ y ∈ p.dispatch.heard, y.request? = some r ∧ y.Reveals v :=
    (h.marked v).mono fun _ _ r ⟨y, mem, rest⟩ => ⟨y, p.dispatch_heard mem, rest⟩
  apply heard.dispatch (SyncWait.earned_shows v) h.sound next
  case noticed =>
    rintro k m m' w w' point code - rfl shown
    exact .inl (SyncWait.notified_shows shown)
  case answered =>
    rintro k m m' w w' point code alters rfl shown
    obtain old | ⟨mark, reveals⟩ := SyncWait.answered_shows shown
    · exact .inl old
    · right
      obtain ⟨j, job, r, here, handle, claim, notes, -, request, own⟩ :=
        h.own_answer apart next alters.told (.inr rfl) alters.before
          (Membership.knows_of_mark alters.wait mark)
      refine ⟨j, job, r, here, handle, claim, notes, request, x, ?_, own, m.id, _, code, alters.told,
        rfl, reveals⟩
      rw [alters.heard]
      exact List.mem_cons_self

end Dispatch

theorem dispatch (h : p.Orderly) (apart : p.Apart) : p.dispatch.Orderly := by
  cases next : p.inbox with
  | nil =>
    rw [dispatch_nil next]
    exact h
  | cons x rest =>
    have sound := h.sound.dispatch
    obtain ⟨toServer, toClient, jobs, link, -⟩ := p.dispatch_frame
    constructor
    case claims => exact sound.claims
    case listed => exact sound.listed
    case trail => exact sound.trail
    case incoming => exact sound.incoming
    case handed => exact fun y mem => h.handed y (dispatch_mem mem)
    case outstanding =>
      intro r mem message found
      rw [toServer, toClient] at mem
      rw [Client.pending_of_link link] at found
      rw [jobs]
      exact h.outstanding r mem message found
    case replied =>
      intro k m' record' reply answered
      rw [link]
      exact h.replied_dispatch apart next record' answered
    case shown =>
      intro k m' record' w wait v shown
      exact shown_iff.mpr (h.marked_dispatch apart next v k m' w record' wait shown)
    case down => exact sound.down
    case turned => exact sound.turned

theorem tearDown (h : p.Orderly) (whole : p.taking = .fresh) : p.tearDown.Orderly := by
  have sound := h.sound.tearDown whole
  have link := Sound.tearDown_link p
  have still (closed : p.client.link = none) : p.tearDown.client.link = none := by
    rcases link with same | none
    · exact same.trans closed
    · exact none
  constructor
  case claims => exact sound.claims
  case listed => exact sound.listed
  case trail => exact sound.trail
  case incoming => exact sound.incoming
  case handed =>
    intro x mem
    unfold Peer.tearDown at mem
    dsimp only at mem
    apply h.handed
    rcases mem with mem | mem
    · split at mem
      · exact .inl mem
      · contradiction
    · exact .inr mem
  case outstanding =>
    intro r mem message found
    rcases link with same | none
    · rw [Client.pending_of_link same] at found
      refine h.outstanding r ?_ message found
      rcases mem with mem | mem
      · exact .inl mem
      · right
        unfold Peer.tearDown at mem
        dsimp only at mem
        split at mem
        · exact mem
        · contradiction
    · rw [Client.pending, none] at found
      simp at found
  case replied =>
    intro k m' record reply answered
    have old {m : Membership} (record : p.client.records[k]? = some m)
        (answered : m.exchange = .answered reply) :
        reply = .lost ∧ p.tearDown.client.link = none ∨ p.tearDown.Replied k reply := by
      obtain ⟨lost, closed⟩ | replied := h.replied k m record reply answered
      · exact .inl ⟨lost, still closed⟩
      · exact .inr replied
    obtain ⟨m, found, rfl | ⟨rfl, gone⟩⟩ := h.sound.tearDown_record record
    · exact old found answered
    · obtain before | lost := Membership.connectionLost_answered answered
      · exact old found before
      · exact .inl ⟨lost, still gone⟩
  case shown =>
    intro k m' record w wait v shown
    have marked := (h.marked v).tearDown (SyncWait.earned_shows v) h.sound
    exact shown_iff.mpr (marked k m' w record wait shown)
  case down => exact sound.down
  case turned => exact sound.turned

end Muster.Peer.Orderly
