import Muster.Proofs.Client.SyncCall
import Muster.Proofs.Network.Basic

/-! Calls that wait at sync points. As long as no two requests to meet others share a number
while one of them is to be answered, a call is told of success only after the answer to its own
request. -/
namespace Muster

namespace Request

abbrev Meets (r : Request) : Prop := r.packet.message.kind = .syncRequest

def Asks (r : Request) (id point : NodeId) : Prop :=
  ∃ token timeout, r.packet.message.body = .syncRequest ⟨id, token⟩ ⟨timeout, point⟩

theorem Asks.meets {r : Request} {id point : NodeId} (asks : r.Asks id point) : r.Meets := by
  obtain ⟨token, timeout, body⟩ := asks
  show r.packet.message.body.kind = _
  rw [body]
  rfl

theorem Asks.unique {r : Request} {id id' point point' : NodeId} (asks : r.Asks id point)
    (asks' : r.Asks id' point') : id' = id ∧ point' = point := by
  obtain ⟨token, timeout, body⟩ := asks
  obtain ⟨token', timeout', body'⟩ := asks'
  obtain ⟨ref, terms⟩ := Body.syncRequest.inj (body'.symm.trans body)
  exact ⟨congrArg GroupRef.id ref, congrArg SyncTerms.point terms⟩

end Request

/-- What is passed on as the answer to an arrival responds to a request to meet others. -/
theorem Delivery.syncAnswer_meets {d : Delivery} {id point : NodeId} {code : SyncCode}
    (tidings : d.tidings? = some (id, .syncAnswer point code)) {r : Request}
    (responds : d.packet.RespondsTo (some r)) : r.Meets := by
  obtain ⟨-, -, answers⟩ := responds
  unfold tidings? at tidings
  split at tidings
  case h_5 body _ =>
    rw [body] at answers
    show r.packet.message.body.kind = _
    cases request : r.packet.message.body with
    | syncRequest ref terms => rfl
    | _ =>
      rw [request] at answers
      exact answers.elim
  all_goals exact nomatch tidings

theorem Delivery.notice_of_progress {d : Delivery} {id point : NodeId} {code : ProgressCode}
    (tidings : d.tidings? = some (id, .progress point code)) :
    ∃ ref ids, d.packet.message.body = .progressNotice ref ids point code ∧ ref.id = id := by
  unfold tidings? at tidings
  split at tidings <;> cases tidings
  exact ⟨_, _, by assumption, rfl⟩

/-- Whether a call is to meet others at this sync point of this group. -/
def Job.Seeks (job : Job) (id point : NodeId) : Prop :=
  (∃ timeout, job.call.stage = .draftSync point timeout) ∨
    ∃ r, job.request = some r ∧ r.Asks id point

theorem Job.Seeks.asks {job : Job} {id point : NodeId} {k : Claim} (seeks : job.Seeks id point)
    (notes : job.errand.notes k) : ∃ r, job.request = some r ∧ r.Asks id point := by
  obtain ⟨timeout, stage⟩ | asks := seeks
  · have idle : job.errand = .none := by
      show job.call.stage.errand = _
      rw [stage]
      rfl
    rw [idle] at notes
    exact nomatch notes
  · exact asks

/-- Whether the call is about to tell its caller that all have met. -/
def CallStage.Succeeds : CallStage → Prop
  | cancelSync _ outcome => outcome = .success
  | exitSync result => result = .ok true
  | _ => False

theorem CallStage.Succeeds.claim {s : CallStage} (succeeds : s.Succeeds) :
    s.claim = .wait ∧ s.errand.notes .wait := by
  cases s with
  | cancelSync seq outcome => exact ⟨rfl, rfl⟩
  | exitSync result => exact ⟨rfl, rfl⟩
  | _ => exact succeeds.elim

/-- A call that goes on waiting goes on seeking the same sync point. -/
theorem Job.Seeks.next {job : Job} {m m' : Membership} {s' : CallStage} {id point : NodeId}
    (seeks : job.Seeks id point) (waits : Call.Waits m job.call.stage m' s')
    (claim : job.claim = .wait) (carries : job.errand.Carries job.request) (made : Nat) :
    ∃ id', (id' = id ∨ id' = m.id) ∧ (job.next made s').Seeks id' point := by
  have errand : job.errand = job.call.stage.errand := rfl
  have claim : job.call.stage.claim = .wait := claim
  have kept (recorded : job.errand ≠ .none)
      (same : Peer.requestAfter made job.request s'.errand = job.request) :
      ∃ id', (id' = id ∨ id' = m.id) ∧ (job.next made s').Seeks id' point := by
    obtain ⟨timeout, stage⟩ | ⟨r, request, asks⟩ := seeks
    · rw [errand, stage] at recorded
      exact absurd rfl recorded
    · exact ⟨id, .inl rfl, .inr ⟨r, same.trans request, asks⟩⟩
  generalize stage : job.call.stage = s at waits errand claim
  cases waits with
  | begin => contradiction
  | @draft point' timeout p body =>
    obtain ⟨timeout', eq⟩ | ⟨r, request, -⟩ := seeks
    · obtain ⟨rfl, -⟩ := CallStage.draftSync.inj (stage.symm.trans eq)
      exact ⟨m.id, .inr rfl, .inr ⟨_, rfl, m.token, _, body⟩⟩
    · rw [errand] at carries
      exact nomatch (show job.request = none from carries).symm.trans request
  | record | sent | unsent | learn | giveUp | cancel =>
    exact kept (by rw [errand]; exact nofun) rfl

namespace Peer
variable {p p' : Peer}

/-- No two requests to meet others have the same number while one of them is to be answered. -/
def SyncApart (p : Peer) : Prop :=
  ∀ r ∈ p.live, ∀ r' ∈ p.underway, r.Meets → r'.Meets → r.packet.seq = r'.packet.seq → r = r'

instance (p : Peer) : Decidable p.SyncApart := inferInstanceAs (Decidable (∀ r ∈ p.live,
  ∀ r' ∈ p.underway, r.Meets → r'.Meets → r.packet.seq = r'.packet.seq → r = r'))

/-- Calls that are to meet others seek what they wait for. -/
def Seeking (p : Peer) : Prop :=
  ∀ (j : Nat) (job : Job) (m : Membership), p.jobs[j]? = some job → job.claim = .wait →
    p.client.records[job.handle]? = some m → ∃ w, m.wait = some w ∧ job.Seeks m.id w.point

namespace Seeking

theorem congr (h : p.Seeking) (jobs : p'.jobs = p.jobs)
    (records : ∀ (k : Handle) (m' : Membership), p'.client.records[k]? = some m' →
      ∃ m, p.client.records[k]? = some m ∧ m'.id = m.id ∧
        ∀ w, m.wait = some w → ∃ w', m'.wait = some w' ∧ w'.point = w.point) : p'.Seeking := by
  intro j job m' here claim record'
  rw [jobs] at here
  obtain ⟨m, record, id, wait⟩ := records _ m' record'
  obtain ⟨w, before, seeks⟩ := h j job m here claim record
  obtain ⟨w', after, point⟩ := wait w before
  rw [← id, ← point] at seeks
  exact ⟨w', after, seeks⟩

theorem register (id : NodeId) (config : ClientConfig) (numbering : Numbering) :
    (Peer.register id config numbering).Seeking := by
  intro j job m here
  exact nomatch (List.getElem?_nil (α := Job)).symm.trans here

theorem moveOn (h : p.Seeking) (sound : p.Sound) {now : Nat} {j : Nat} {job : Job}
    {m : Membership} {c c' : Client} {s' : CallStage} (here : p.jobs[j]? = some job)
    (client : c = { p.client with numbering := c.numbering })
    (record : c.records[job.handle]? = some m)
    (advanced : Call.advance c now job.handle job.call.created m job.call.stage = some (c', s')) :
    (p.moveOn j job c' s').Seeking := by
  intro k job' m₁ there claim found
  have step := Call.advance_callStep advanced
  have records : c.records = p.client.records := by
    rw [client]
  obtain ⟨m', record', move⟩ := step.moved record
  have there : (p.jobs.set j (job.next p.made s'))[k]? = some job' := there
  have found : c'.records[job'.handle]? = some m₁ := found
  obtain ⟨-, rfl⟩ | ⟨ne, there⟩ := getElem?_set_cases there
  · obtain ⟨m'', record'', waits⟩ := Call.advance_waits record advanced claim
    obtain rfl := Option.some.inj (record''.symm.trans found)
    obtain ⟨point, timeout, stage, w', wait', rfl⟩ | ⟨waiting, id, stays⟩ := waits.wait
    · exact ⟨w', wait', .inl ⟨timeout, stage⟩⟩
    · obtain ⟨w, wait, seeks⟩ := h j job m here waiting (records ▸ record)
      obtain ⟨w', wait', point⟩ := stays w wait
      obtain ⟨id', rfl | rfl, seeks'⟩ :=
        seeks.next waits waiting (sound.claims.carries j job here) p.made
      · exact ⟨w', wait', id ▸ point ▸ seeks'⟩
      · exact ⟨w', wait', id ▸ point ▸ seeks'⟩
  · by_cases same : job'.handle = job.handle
    · rw [same] at found
      obtain rfl := Option.some.inj (record'.symm.trans found)
      obtain ⟨w, wait, seeks⟩ := h k job' m there claim (same ▸ records ▸ record)
      have other : job.claim ≠ .wait := by
        intro own
        have claimed : job.claim ≠ .none := by
          rw [own]
          decide
        have both := claim.trans own.symm
        exact ne (sound.claims.alone j k job job' here there claimed both same)
      refine ⟨w, (move.wait_of_other other ?_).trans wait, move.id ▸ seeks⟩
      rw [wait]
      exact nofun
    · rw [step.frame same, records] at found
      exact h k job' m₁ there claim found

theorem advance (h : p.Seeking) (sound : p.Sound) (now : Nat) (numbering : Numbering) (j : Nat) :
    (p.advance now numbering j).Seeking := by
  obtain same | ⟨job, m, c, c', s', here, rfl, record, advanced, eq⟩ := p.advance_stage now numbering j
  · rw [same]
    exact h
  · rw [eq]
    exact h.moveOn sound here rfl record advanced

theorem ask (h : p.Seeking) (sound : p.Sound) (now : Nat) (a : Ask) : (p.ask now a).Seeking := by
  unfold Peer.ask
  split
  · rename_i c call _ run
    intro j job m here claim record
    obtain ⟨free, -, -⟩ := a.call?_cases run
    have here : (p.jobs ++ [⟨call, none⟩])[j]? = some job := here
    rcases getElem?_append_cases here with here | rfl
    · obtain ⟨m₀, before, -⟩ := sound.claims.known j job here
      obtain rfl := Option.some.inj ((sound.begin_kept run before).symm.trans record)
      exact h j job m₀ here claim before
    · exact nomatch free.symm.trans claim
  · exact h

theorem dispatch (h : p.Seeking) (sound : p.Sound) : p.dispatch.Seeking := by
  cases next : p.inbox with
  | nil =>
    rw [dispatch_nil next]
    exact h
  | cons x rest =>
    refine h.congr p.dispatch_jobs fun k m' record' => ?_
    obtain ⟨m, record, rfl | ⟨t, -, -, -, -, rfl⟩⟩ := sound.dispatch_record next record'
    · exact ⟨m', record, rfl, fun w wait => ⟨w, wait, rfl⟩⟩
    · exact ⟨m, record, m.heed_kept.id, fun w wait => Membership.heed_point wait⟩

theorem tearDown (h : p.Seeking) (sound : p.Sound) : p.tearDown.Seeking := by
  refine h.congr ?_ ?_
  · rfl
  intro k m' record'
  obtain ⟨m, record, rfl | ⟨rfl, -⟩⟩ := sound.tearDown_record record'
  · exact ⟨m', record, rfl, fun w wait => ⟨w, wait, rfl⟩⟩
  · refine ⟨m, record, rfl, fun w wait => ⟨w.endWith .left, ?_, w.endWith_point .left⟩⟩
    show m.wait.map _ = _
    rw [wait]
    rfl

theorem correlate (h : p.Seeking) : p.correlate.Seeking := by
  obtain same | ⟨x, rest, link, delivery, pending, -, -, -, eq⟩ := p.correlate_cases
  · rw [same]
    exact h
  · rw [eq]
    exact h

theorem transfer (h : p.Seeking) (transfers : p.Transfers p') : p'.Seeking := by
  obtain ⟨toServer, toClient, rfl, -, -⟩ := transfers
  exact h

end Seeking

/-- What is known of the calls that wait at sync points: those whose wait is acknowledged have
heard the answer to their request, and something is known of the requests of those that have
succeeded. -/
structure Meeting (p : Peer) (known : Handle → Nat → Request → Prop) : Prop where
  seeking : p.Seeking
  acknowledged : p.Marked (SyncWait.Shows · none) fun _ _ r => ∃ x ∈ p.heard, x.request? = some r
  succeeded : p.Marked SyncWait.Succeeded known
  succeeds (j : Nat) (job : Job) (here : p.jobs[j]? = some job)
    (success : job.call.stage.Succeeds) : ∃ r, job.request = some r ∧ known job.handle j r

theorem Sound.attended (h : p.Sound) {j : Nat} {job : Job} (here : p.jobs[j]? = some job)
    (claim : job.claim = .wait) {known : Nat → Request → Prop}
    (attended : Attended p.jobs job.handle known) : ∃ r, job.request = some r ∧ known j r := by
  obtain ⟨j', job', r, there, handle, claim', -, request, known⟩ := attended
  have claimed : job.claim ≠ .none := by
    rw [claim]
    decide
  obtain rfl := h.claims.alone j j' job job' here there claimed (claim'.trans claim.symm) handle
  obtain rfl := Option.some.inj (here.symm.trans there)
  exact ⟨r, request, known⟩

/-- What an acknowledged wait is told has come after the answer to the request of its call. -/
structure Succeeds (p : Peer) (x : Handed) (k : Handle) (j : Nat) (r : Request) (m m' : Membership)
    (w w' : SyncWait) : Prop where
  alters : p.Alters x (.progress w.point .success) k m m' w w'
  fresh : ¬w.Succeeded
  success : w'.Succeeded
  asks : r.Asks m.id w.point
  owned : ∃ job, p.jobs[j]? = some job ∧ job.handle = k ∧ job.claim = .wait ∧
    job.request = some r
  answered : ∃ y ∈ p.heard, y.request? = some r

namespace Meeting
variable {known known' : Handle → Nat → Request → Prop}

theorem mono (h : p.Meeting known) (weaker : ∀ k j r, known k j r → known' k j r) :
    p.Meeting known' where
  seeking := h.seeking
  acknowledged := h.acknowledged
  succeeded := h.succeeded.mono weaker
  succeeds j job here success := by
    obtain ⟨r, request, knows⟩ := h.succeeds j job here success
    exact ⟨r, request, weaker job.handle j r knows⟩

theorem register (id : NodeId) (config : ClientConfig) (numbering : Numbering) :
    (Peer.register id config numbering).Meeting known where
  seeking := .register id config numbering
  acknowledged := .register id config numbering
  succeeded := .register id config numbering
  succeeds _ _ here := nomatch (List.getElem?_nil (α := Job)).symm.trans here

theorem advance (h : p.Meeting known) (sound : p.Sound) (now : Nat) (numbering : Numbering) (j : Nat) :
    (p.advance now numbering j).Meeting known := by
  obtain same | ⟨job, m, c, c', s', here, rfl, record, advanced, eq⟩ := p.advance_stage now numbering j
  · rw [same]
    exact h
  · rw [eq]
    have step := Call.advance_callStep advanced
    constructor
    case seeking => exact h.seeking.moveOn sound here rfl record advanced
    case acknowledged =>
      exact h.acknowledged.moveOn (SyncWait.earned_shows none) here rfl record step
    case succeeded => exact h.succeeded.moveOn SyncWait.earned_succeeded here rfl record step
    case succeeds =>
      intro k job' there success
      replace there : (p.jobs.set j (job.next p.made s'))[k]? = some job' := there
      obtain ⟨same, rfl⟩ | ⟨-, there⟩ := getElem?_set_cases there
      · obtain rfl := same.symm
        have claim : s'.claim = .wait := success.claim.1
        have success : s'.Succeeds := success
        obtain ⟨m', -, waits⟩ := Call.advance_waits record advanced claim
        have kept (knows : ∃ r, job.request = some r ∧ known job.handle j r)
            (same : requestAfter p.made job.request s'.errand = job.request) :
            ∃ r, (job.next p.made s').request = some r ∧ known job.handle j r := by
          obtain ⟨r, request, knows⟩ := knows
          exact ⟨r, same.trans request, knows⟩
        generalize stage : job.call.stage = s at waits
        cases waits with
        | learn seq deadline ended =>
          -- The outcome that the call finds is the one that its own wait has come to.
          obtain rfl : _ = SyncOutcome.success := success
          obtain ⟨w, wait, outcome⟩ := Option.bind_eq_some_iff.mp ended
          have claimed : job.claim = .wait := by
            show job.call.stage.claim = _
            rw [stage]
            rfl
          exact kept (sound.attended here claimed (h.succeeded _ m w record wait outcome)) rfl
        | cancel seq outcome =>
          refine kept (h.succeeds j job here ?_) rfl
          rw [stage]
          cases outcome with
          | success => exact rfl
          | timeout | left | expired | rejected => exact nomatch success
        | unsent p timeout e => exact nomatch success
        | giveUp seq deadline => exact nomatch success
        | begin | draft | record | sent => exact success.elim
      · exact h.succeeds k job' there success

theorem ask (h : p.Meeting known) (sound : p.Sound) (now : Nat) (a : Ask) :
    (p.ask now a).Meeting known := by
  have heard : (p.ask now a).heard = p.heard := by
    unfold Peer.ask
    split <;> rfl
  constructor
  case seeking => exact h.seeking.ask sound now a
  case acknowledged =>
    rw [heard]
    exact h.acknowledged.ask now a
  case succeeded => exact h.succeeded.ask now a
  case succeeds =>
    intro j job here success
    unfold Peer.ask at here
    split at here
    · rename_i c call _ run
      obtain ⟨free, -, -⟩ := a.call?_cases run
      have here : (p.jobs ++ [⟨call, none⟩])[j]? = some job := here
      rcases getElem?_append_cases here with here | rfl
      · exact h.succeeds j job here success
      · exact nomatch free.symm.trans success.claim.1
    · exact h.succeeds j job here success

theorem correlate (h : p.Meeting known) : p.correlate.Meeting known := by
  have same : p.correlate.heard = p.heard ∧ p.correlate.jobs = p.jobs := by
    obtain same | ⟨x, rest, link, delivery, pending, -, -, -, eq⟩ := p.correlate_cases
    · rw [same]
      exact ⟨rfl, rfl⟩
    · rw [eq]
      exact ⟨rfl, rfl⟩
  constructor
  case seeking => exact h.seeking.correlate
  case acknowledged =>
    rw [same.1]
    exact h.acknowledged.correlate
  case succeeded => exact h.succeeded.correlate
  case succeeds =>
    rw [same.2]
    exact h.succeeds

theorem transfer (h : p.Meeting known) (transfers : p.Transfers p') : p'.Meeting known := by
  obtain ⟨toServer, toClient, rfl, -, -⟩ := transfers
  exact ⟨h.seeking, h.acknowledged, h.succeeded, h.succeeds⟩

theorem tearDown (h : p.Meeting known) (sound : p.Sound) : p.tearDown.Meeting known where
  seeking := h.seeking.tearDown sound
  acknowledged := h.acknowledged.tearDown (SyncWait.earned_shows none) sound
  succeeded := h.succeeded.tearDown SyncWait.earned_succeeded sound
  succeeds := h.succeeds

/-- The answer that acknowledges a wait is the one to the request of its call. -/
theorem own_answer (h : p.Meeting known) (sound : p.Sound) (apart : p.SyncApart) {x : Handed}
    (mem : x ∈ p.inbox) {id point : NodeId} {code : SyncCode}
    (tidings : x.delivery.tidings? = some (id, .syncAnswer point code)) {k : Handle}
    {m : Membership} (record : p.client.records[k]? = some m)
    (knows : m.Knows x.delivery.packet.seq .wait) :
    Attended p.jobs k fun _ r => x.request? = some r := by
  obtain ⟨j, job, r, r', here, handle, claim, notes, request, origin, responds, number⟩ :=
    sound.own_number mem tidings (.inr rfl) record knows
  have meets : r.Meets := by
    obtain ⟨w, wait, seeks⟩ := h.seeking j job m here claim (handle ▸ record)
    obtain ⟨r₀, request₀, asks⟩ := seeks.asks notes
    obtain rfl := Option.some.inj (request.symm.trans request₀)
    exact asks.meets
  have meets' : r'.Meets := Delivery.syncAnswer_meets tidings responds
  obtain rfl : r = r' := apart r (mem_live_of_job here request) r'
    (mem_underway_of_inbox mem origin) meets meets' number
  exact ⟨j, job, r, here, handle, claim, notes, request, origin⟩

section Dispatch
variable {x : Handed} {rest : List Handed}

/-- A wait that ends in success was acknowledged, so its call has heard the answer to its
request. -/
theorem succeeded_dispatch (h : p.Meeting known) (sound : p.Sound)
    (marked : p.Marked SyncWait.Succeeded known') (next : p.inbox = x :: rest)
    (told : ∀ {k j r m m' w w'}, p.Succeeds x k j r m m' w w' → known' k j r) :
    p.dispatch.Marked SyncWait.Succeeded known' := by
  apply marked.dispatch SyncWait.earned_succeeded sound next
  case noticed =>
    rintro k m m' w w' point code alters rfl success
    by_cases old : w.Succeeded
    · exact .inl old
    · right
      obtain before | ⟨rfl, shown, rfl⟩ := SyncWait.notified_succeeded success
      · exact absurd before old
      · obtain ⟨j, job, r, here, handle, claim, notes, request, answered⟩ :=
          h.acknowledged k m w alters.before alters.wait shown
        obtain ⟨w₀, wait₀, seeks⟩ := h.seeking j job m here claim (handle ▸ alters.before)
        obtain rfl := Option.some.inj (wait₀.symm.trans alters.wait)
        obtain ⟨r₀, request₀, asks⟩ := seeks.asks notes
        obtain rfl := Option.some.inj (request.symm.trans request₀)
        exact ⟨j, job, r, here, handle, claim, notes, request, told ⟨alters, old, success, asks,
          ⟨job, here, handle, claim, request⟩, answered⟩⟩
  case answered =>
    rintro k m m' w w' point code - rfl success
    exact .inl (SyncWait.answered_succeeded success)

theorem dispatch (h : p.Meeting known) (sound : p.Sound) (apart : p.SyncApart)
    (next : p.inbox = x :: rest)
    (told : ∀ {k j r m m' w w'}, p.Succeeds x k j r m m' w w' → known k j r) :
    p.dispatch.Meeting known := by
  have mem : x ∈ p.inbox := by
    rw [next]
    exact List.mem_cons_self
  have heard : p.Marked (SyncWait.Shows · none)
      fun _ _ r => ∃ y ∈ p.dispatch.heard, y.request? = some r :=
    h.acknowledged.mono fun _ _ r ⟨y, mem, origin⟩ => ⟨y, p.dispatch_heard mem, origin⟩
  constructor
  case seeking => exact h.seeking.dispatch sound
  case acknowledged =>
    apply heard.dispatch (SyncWait.earned_shows none) sound next
    case noticed =>
      rintro k m m' w w' point code - rfl shown
      exact .inl (SyncWait.notified_shows shown)
    case answered =>
      rintro k m m' w w' point code alters rfl shown
      obtain old | ⟨mark, -⟩ := SyncWait.answered_shows shown
      · exact .inl old
      · right
        have knows := Membership.knows_of_mark alters.wait mark
        refine (h.own_answer sound apart mem alters.told alters.before knows).mono
          fun _ r origin => ⟨x, ?_, origin⟩
        rw [alters.heard]
        exact List.mem_cons_self
  case succeeded => exact h.succeeded_dispatch sound h.succeeded next told
  case succeeds =>
    rw [p.dispatch_jobs]
    exact h.succeeds

end Dispatch

/-- Nothing but packets that are taken in can make known what was not. -/
theorem step (h : p.Meeting known) (sound : p.Sound) (step : p.Step p')
    (dispatched : p' = p.dispatch → p.dispatch.Meeting known) : p'.Meeting known := by
  cases step with
  | same => exact h
  | ask now a => exact h.ask sound now a
  | advance now numbering j => exact h.advance sound now numbering j
  | correlate => exact h.correlate
  | dispatch => exact dispatched rfl
  | tearDown => exact h.tearDown sound
  | tell notices => exact h.transfer (p.tell_transfers notices)
  | answer next genuine once => exact h.transfer (answer_transfers next genuine once)
  | hangUp notices => exact h.transfer (p.hangUp_transfers notices)

/-- A step in which a wait ends in success takes in the news of it. -/
theorem succeeding (h : p.Meeting known) (sound : p.Sound) (step : p.Step p') {k : Handle}
    (fresh : ∀ m w, p.client.records[k]? = some m → m.wait = some w → ¬w.Succeeded)
    {m' : Membership} {w' : SyncWait} (record' : p'.client.records[k]? = some m')
    (wait' : m'.wait = some w') (success : w'.Succeeded) : p' = p.dispatch ∧
      ∃ x rest j r m m' w w', p.inbox = x :: rest ∧ p.Succeeds x k j r m m' w w' := by
  have marked : p.Marked SyncWait.Succeeded fun k' _ _ => k' ≠ k := by
    intro k' m w record wait q
    have other : k' ≠ k := by
      rintro rfl
      exact fresh m w record wait q
    exact (h.succeeded k' m w record wait q).mono fun _ _ _ => other
  have same (marked' : p'.Marked SyncWait.Succeeded fun k' _ _ => k' ≠ k) : False := by
    obtain ⟨-, -, -, -, -, -, -, -, other⟩ := marked' k m' w' record' wait' success
    exact other rfl
  cases step with
  | same => exact (same marked).elim
  | ask now a => exact (same (marked.ask now a)).elim
  | advance now numbering j =>
    exact (same (marked.advance SyncWait.earned_succeeded now numbering j)).elim
  | correlate => exact (same marked.correlate).elim
  | tearDown => exact (same (marked.tearDown SyncWait.earned_succeeded sound)).elim
  | tell notices => exact (same (marked.transfer (p.tell_transfers notices))).elim
  | answer next genuine once =>
    exact (same (marked.transfer (answer_transfers next genuine once))).elim
  | hangUp notices => exact (same (marked.transfer (p.hangUp_transfers notices))).elim
  | dispatch =>
    refine ⟨rfl, ?_⟩
    cases next : p.inbox with
    | nil =>
      rw [dispatch_nil next] at same
      exact (same marked).elim
    | cons x rest =>
      by_contra none
      apply same
      apply h.succeeded_dispatch sound marked next
      intro k' j r m m' w w' succeeds
      rintro rfl
      exact none ⟨x, rest, j, r, m, m', w, w', rfl, succeeds⟩

end Meeting
end Peer

/-- How a call fares that is to meet others at a sync point: it has not begun to wait, or it
waits, or it is over. It returns that all have met only if that was true. -/
inductive Job.Fares (job : Job) (point : NodeId) (true_of : Request → Prop) : Prop
  | entering (timeout : Nat) (stage : job.call.stage = .enterSync point timeout)
  | waiting (id : NodeId) (claim : job.claim = .wait) (seeks : job.Seeks id point)
  | done (result : Except SyncError Bool) (stage : job.call.stage = .done (.waited result))
    (truth : result = .ok true → ∃ r id, r.Asks id point ∧ true_of r)

theorem Job.Fares.mono {job : Job} {point : NodeId} {true_of true_of' : Request → Prop}
    (fares : job.Fares point true_of) (weaker : ∀ r, true_of r → true_of' r) :
    job.Fares point true_of' := by
  cases fares with
  | entering timeout stage => exact .entering timeout stage
  | waiting id claim seeks => exact .waiting id claim seeks
  | done result stage truth =>
    refine .done result stage fun ok => ?_
    obtain ⟨r, id, asks, true_of⟩ := truth ok
    exact ⟨r, id, asks, weaker r true_of⟩

/-- A call that waits ends with what is known of its request. -/
theorem Job.Fares.next {p : Peer} {known : Handle → Nat → Request → Prop}
    (meeting : p.Meeting known) (sound : p.Sound) {j : Nat} {job : Job}
    (here : p.jobs[j]? = some job) {now : Nat} {m : Membership} {c c' : Client} {s' : CallStage}
    (record : c.records[job.handle]? = some m)
    (advanced : Call.advance c now job.handle job.call.created m job.call.stage = some (c', s'))
    {point : NodeId} {true_of : Request → Prop} (fares : job.Fares point true_of)
    (learnt : ∀ r, job.claim = .wait → job.request = some r → known job.handle j r → true_of r) :
    (job.next p.made s').Fares point true_of := by
  cases fares with
  | entering timeout stage =>
    rw [stage] at advanced
    obtain rfl | ⟨e, rfl⟩ := Call.advance_enterSync advanced
    · exact .waiting m.id rfl (.inl ⟨timeout, rfl⟩)
    · exact .done (.error e) rfl fun no => nomatch no
  | waiting id claim seeks =>
    obtain claim' | ⟨result, stage, rfl⟩ := Call.advance_of_wait advanced claim
    · obtain ⟨m', -, waits⟩ := Call.advance_waits record advanced claim'
      obtain ⟨id', -, seeks'⟩ := seeks.next waits claim (sound.claims.carries j job here) p.made
      exact .waiting id' claim' seeks'
    · refine .done result rfl ?_
      rintro rfl
      have succeeds : job.call.stage.Succeeds := by
        rw [stage]
        exact rfl
      obtain ⟨r, request, knows⟩ := meeting.succeeds j job here succeeds
      obtain ⟨r', request', asks⟩ := seeks.asks succeeds.claim.2
      obtain rfl := Option.some.inj (request.symm.trans request')
      exact ⟨r, id, asks, learnt r claim request knows⟩
  | done result stage truth =>
    rw [stage] at advanced
    exact nomatch advanced

end Muster
