import Muster.Proofs.Duration
import Muster.Proofs.Network.Success

/-! How long a sync point stays open for a call that waits at it. The timeout of the call goes to
the server in whole milliseconds, the server arms that much or a year, and the client itself waits
for the whole timeout and somewhat longer. -/
namespace Muster

/-- How far a call is that meets others at a sync point, with this timeout. It waits for an answer
only within its budget. -/
inductive CallStage.Bids (point : NodeId) (timeout : Nat) (budget : Nat → Prop) : CallStage → Prop
  | enter : Bids point timeout budget (.enterSync point timeout)
  | draft : Bids point timeout budget (.draftSync point timeout)
  | record (p : Packet) : Bids point timeout budget (.recordSync p timeout)
  | send (p : Packet) : Bids point timeout budget (.sendSync p timeout)
  | await (seq : Int32) {deadline : Nat} (within : budget deadline) :
      Bids point timeout budget (.awaitSync seq deadline)
  | cancel (seq : Int32) (outcome : SyncOutcome) :
      Bids point timeout budget (.cancelSync seq outcome)
  | exit (result : Except SyncError Bool) : Bids point timeout budget (.exitSync result)
  | done (outcome : Outcome) : Bids point timeout budget (.done outcome)

def Request.Bids (r : Request) (point : NodeId) (timeout : Nat) : Prop :=
  ∃ ref, r.packet.message.body = .syncRequest ref ⟨Duration.toWire timeout, point⟩

structure Job.Bids (job : Job) (point : NodeId) (timeout : Nat) (budget : Nat → Prop) : Prop where
  stage : job.call.stage.Bids point timeout budget
  request (r : Request) (made : job.request = some r) : r.Bids point timeout

theorem CallStage.Bids.mono {point : NodeId} {timeout : Nat} {budget budget' : Nat → Prop}
    {s : CallStage} (bids : s.Bids point timeout budget)
    (weaker : ∀ deadline, budget deadline → budget' deadline) : s.Bids point timeout budget' := by
  cases bids with
  | await seq within => exact .await seq (weaker _ within)
  | enter | draft | record | send | cancel | exit | done => constructor

namespace Job.Bids
variable {job : Job} {point : NodeId} {timeout : Nat} {budget : Nat → Prop}

theorem next (bids : job.Bids point timeout budget) {c c' : Client} {now : Nat} {m : Membership}
    {s' : CallStage}
    (advanced : Call.advance c now job.handle job.call.created m job.call.stage = some (c', s'))
    (within : budget (now + Duration.add timeout c.config.syncExtraLatency)) (made : Nat) :
    (job.next made s').Bids point timeout budget := by
  obtain ⟨stage, asks⟩ := bids
  generalize job.call.stage = s at stage advanced
  have kept (stage : s'.Bids point timeout budget)
      (same : Peer.requestAfter made job.request s'.errand = job.request ∨
        Peer.requestAfter made job.request s'.errand = none) :
      (job.next made s').Bids point timeout budget := by
    refine ⟨stage, fun r request => ?_⟩
    have request : Peer.requestAfter made job.request s'.errand = some r := request
    obtain same | none := same
    · exact asks r (same.symm.trans request)
    · exact nomatch none.symm.trans request
  cases stage with
  | enter =>
    obtain rfl | ⟨e, rfl⟩ := Call.advance_enterSync advanced
    · exact kept .draft (.inr rfl)
    · exact kept (.done _) (.inr rfl)
  | draft =>
    obtain ⟨-, rfl⟩ := Prod.mk.inj (Option.some.inj advanced)
    refine ⟨.record _, fun r request => ?_⟩
    obtain rfl := Option.some.inj request
    exact ⟨m.ref, rfl⟩
  | record p =>
    obtain ⟨-, rfl⟩ := Prod.mk.inj (Option.some.inj advanced)
    exact kept (.send p) (.inl rfl)
  | send p =>
    simp only [Call.advance] at advanced
    split at advanced
    · rename_i sent
      obtain ⟨-, rfl⟩ := Prod.mk.inj (Option.some.inj advanced)
      have config := c.send_config p
      rw [sent] at config
      rw [← config] at within
      exact kept (.await _ within) (.inl rfl)
    · obtain ⟨-, rfl⟩ := Prod.mk.inj (Option.some.inj advanced)
      exact kept (.exit _) (.inl rfl)
  | await seq within =>
    simp only [Call.advance] at advanced
    split at advanced
    · obtain ⟨-, rfl⟩ := Prod.mk.inj (Option.some.inj advanced)
      exact kept (.cancel _ _) (.inl rfl)
    · split at advanced
      · contradiction
      · obtain ⟨-, rfl⟩ := Prod.mk.inj (Option.some.inj advanced)
        exact kept (.cancel _ _) (.inl rfl)
  | cancel seq outcome =>
    obtain ⟨-, rfl⟩ := Prod.mk.inj (Option.some.inj advanced)
    exact kept (.exit _) (.inl rfl)
  | exit result =>
    obtain ⟨-, rfl⟩ := Prod.mk.inj (Option.some.inj advanced)
    exact kept (.done _) (.inr rfl)
  | done outcome => contradiction

end Job.Bids

theorem Peer.advance_job (p : Peer) {j : Nat} {job : Job} (there : p.jobs[j]? = some job) (now : Nat)
    (numbering : Numbering) (j' : Nat) :
    (p.advance now numbering j').jobs[j]? = some job ∨
      j' = j ∧ ∃ m c c' s', c.config = p.client.config ∧
        Call.advance c now job.handle job.call.created m job.call.stage = some (c', s') ∧
        (p.advance now numbering j').jobs[j]? = some (job.next p.made s') := by
  obtain same | ⟨job', m, c, c', s', found, client, -, advanced, eq⟩ :=
    p.advance_stage now numbering j'
  · rw [same]
    exact .inl there
  · have jobs : (p.advance now numbering j').jobs = p.jobs.set j' (job'.next p.made s') := by
      rw [eq]
      rfl
    rw [jobs, getElem?_set_of found]
    split
    · rename_i same
      subst same
      obtain rfl := Option.some.inj (found.symm.trans there)
      exact .inr ⟨rfl, m, c, c', s', by rw [client], advanced, rfl⟩
    · exact .inl there

namespace Network
variable {n : Network} {i : ConnId} {j : Nat} {past : List Episode}

theorem change_job {p : Peer} {job : Job} (here : n.peers[i]? = some p)
    (there : p.jobs[j]? = some job) (k : ConnId) {f : Peer → Peer}
    (quiet : (f p).jobs[j]? = some job) :
    ∃ p', (n.change k f).peers[i]? = some p' ∧ p'.jobs[j]? = some job := by
  rw [change_peers]
  split
  · exact ⟨f p, by rw [here]; rfl, quiet⟩
  · exact ⟨p, here, there⟩

theorem deliver_job {p : Peer} {job : Job} (here : n.peers[i]? = some p)
    (there : p.jobs[j]? = some job) (server : Server) (origin : Option Origin) :
    ∃ p', (n.deliver server origin).peers[i]? = some p' ∧ p'.jobs[j]? = some job := by
  refine ⟨p.arrive (arrivals origin server.outbox i), by rw [deliver_peers, here]; rfl, ?_⟩
  unfold Peer.arrive
  split <;> exact there

theorem handle_job {p : Peer} {job : Job} (here : n.peers[i]? = some p)
    (there : p.jobs[j]? = some job) (now : Nat) (k : ConnId) :
    ∃ p', (n.handle now k).peers[i]? = some p' ∧ p'.jobs[j]? = some job := by
  unfold handle
  split
  · exact ⟨p, here, there⟩
  · obtain ⟨p', found, same⟩ := change_job here there k (f := .serve) there
    exact deliver_job found same _ _

theorem lose_job {p : Peer} {job : Job} (here : n.peers[i]? = some p)
    (there : p.jobs[j]? = some job) (now : Nat) (k : ConnId) :
    ∃ p', (n.lose now k).peers[i]? = some p' ∧ p'.jobs[j]? = some job := by
  unfold lose
  split
  · exact ⟨p, here, there⟩
  · obtain ⟨p', found, same⟩ := change_job here there k (f := .hangUp) there
    exact deliver_job found same _ _

theorem act_job {p : Peer} {job : Job} (now : Nat) (a : Action) (here : n.peers[i]? = some p)
    (there : p.jobs[j]? = some job) : ∃ p', (n.act now a).peers[i]? = some p' ∧
      (p'.jobs[j]? = some job ∨ ∃ numbering m c c' s', a = .advance i j numbering ∧
        c.config = p.client.config ∧
        Call.advance c now job.handle job.call.created m job.call.stage = some (c', s') ∧
        p'.jobs[j]? = some (job.next p.made s')) := by
  have still {n' : Network} (kept : ∃ p', n'.peers[i]? = some p' ∧ p'.jobs[j]? = some job) :
      ∃ p', n'.peers[i]? = some p' ∧ (p'.jobs[j]? = some job ∨ ∃ numbering m c c' s',
        a = .advance i j numbering ∧ c.config = p.client.config ∧
        Call.advance c now job.handle job.call.created m job.call.stage = some (c', s') ∧
        p'.jobs[j]? = some (job.next p.made s')) := by
    obtain ⟨p', found, same⟩ := kept
    exact ⟨p', found, .inl same⟩
  cases a with
  | advance k j' numbering =>
    show ∃ p', (n.change k fun p => p.advance now numbering j').peers[i]? = some p' ∧ _
    rw [change_peers]
    by_cases own : k = i
    · subst own
      refine ⟨p.advance now numbering j', by rw [if_pos rfl, here]; rfl, ?_⟩
      obtain same | ⟨rfl, m, c, c', s', client, advanced, next⟩ :=
        p.advance_job there now numbering j'
      · exact .inl same
      · exact .inr ⟨numbering, m, c, c', s', rfl, client, advanced, next⟩
    · exact ⟨p, by rw [if_neg own, here], .inl there⟩
  | connect id config numbering => exact still ⟨p, getElem?_append_of here _, there⟩
  | ask k a =>
    refine still (change_job here there k ?_)
    unfold Peer.ask
    split
    · exact getElem?_append_of there _
    · exact there
  | correlate k =>
    refine still (change_job here there k ?_)
    unfold Peer.correlate
    split <;> exact there
  | dispatch k =>
    exact still (change_job here there k (p.dispatch_jobs ▸ there))
  | close k =>
    refine still (change_job here there k ?_)
    unfold Peer.close
    split <;> exact there
  | expire => exact still (deliver_job here there _ _)
  | handle k => exact still (handle_job here there now k)
  | lose k => exact still (lose_job here there now k)

/-- The deadlines of a call that waits for its timeout and for what its client allows the network,
from the time of one of its steps. -/
def Budget (past : List Episode) (i : ConnId) (j timeout : Nat) (deadline : Nat) : Prop :=
  ∃ e ∈ past, (∃ numbering, e.action = .advance i j numbering) ∧ ∃ p, e.before.peers[i]? = some p ∧
    deadline = e.now + Duration.add timeout p.client.config.syncExtraLatency

/-- A call that meets others keeps to its sync point and its timeout. -/
theorem History.bids {h : Handle} {point : NodeId} {timeout : Nat} (run : History past n)
    (begun : ∃ e ∈ past, e.Begins i j (.waitSync h point timeout)) :
    ∃ p job, n.peers[i]? = some p ∧ p.jobs[j]? = some job ∧
      job.Bids point timeout (Budget past i j timeout) := by
  induction run with
  | start =>
    obtain ⟨e, mem, -⟩ := begun
    exact nomatch mem
  | @act past n run now a ih =>
    obtain ⟨e, mem, begins⟩ := begun
    rcases List.mem_cons.mp mem with rfl | mem
    · obtain ⟨p, after, there⟩ := begins.job
      exact ⟨p, _, after, there, .enter, nofun⟩
    · obtain ⟨p, job, here, there, bids⟩ := ih ⟨e, mem, begins⟩
      have bids : job.Bids point timeout (Budget (⟨now, a, n, n.act now a⟩ :: past) i j timeout) :=
        ⟨bids.stage.mono fun deadline ⟨e, mem, sent⟩ => ⟨e, .tail _ mem, sent⟩, bids.request⟩
      obtain ⟨p', here', same | ⟨numbering, m, c, c', s', rfl, config, advanced, there'⟩⟩ :=
        act_job now a here there
      · exact ⟨p', job, here', same, bids⟩
      · refine ⟨p', _, here', there', bids.next advanced ?_ p.made⟩
        rw [config]
        exact ⟨_, .head past, ⟨numbering, rfl⟩, p, here, rfl⟩

theorem History.job_kept (run : History past n) {s : Network} (mem : s ∈ states past n) {p : Peer}
    {job : Job} (here : s.peers[i]? = some p) (there : p.jobs[j]? = some job) :
    ∃ p' job', n.peers[i]? = some p' ∧ p'.jobs[j]? = some job' := by
  induction run with
  | start =>
    obtain rfl := List.mem_singleton.mp mem
    exact ⟨p, job, here, there⟩
  | @act past n run now a ih =>
    rcases List.mem_cons.mp mem with rfl | mem
    · exact ⟨p, job, here, there⟩
    · obtain ⟨q, job', before, known⟩ := ih mem
      obtain ⟨p', after, same | ⟨-, -, -, -, s', -, -, -, next⟩⟩ := act_job now a before known
      · exact ⟨p', job', after, same⟩
      · exact ⟨p', _, after, next⟩

/-- All that such a call ever asks for is to meet others with its timeout. -/
theorem History.requests_bid {h : Handle} {point : NodeId} {timeout : Nat} (run : History past n)
    (begun : ∃ e ∈ past, e.Begins i j (.waitSync h point timeout)) {s : Network}
    (mem : s ∈ states past n) {p : Peer} {job : Job} {r : Request} (here : s.peers[i]? = some p)
    (there : p.jobs[j]? = some job) (made : job.request = some r) : r.Bids point timeout := by
  induction run with
  | start =>
    obtain ⟨e, mem, -⟩ := begun
    exact nomatch mem
  | @act past n run now a ih =>
    rcases List.mem_cons.mp mem with rfl | mem
    · obtain ⟨p', job', here', there', bids⟩ := (run.act now a).bids begun
      obtain rfl := Option.some.inj (here.symm.trans here')
      obtain rfl := Option.some.inj (there.symm.trans there')
      exact bids.request r made
    · obtain ⟨e, inside, begins⟩ := begun
      rcases List.mem_cons.mp inside with rfl | inside
      · -- Before it began there was no such call.
        obtain ⟨p', job', here', there'⟩ := run.job_kept mem here there
        obtain ⟨q, q', before, after, rfl, more⟩ := begins.made
        obtain rfl := Option.some.inj (here'.symm.trans before)
        rw [List.getElem?_eq_none (Nat.le_refl _)] at there'
        exact nomatch there'
      · exact ih ⟨e, inside, begins⟩ mem

/-- The server reads a request that a call has made at some time. -/
structure Episode.Reads (e : Episode) (past : List Episode) (n : Network) (i : ConnId) (j : Nat) :
    Prop where
  handles : e.action = .handle i
  own : ∃ r, (e.before.peers[i]?.bind fun p => p.toServer.head?) = some r ∧
    ∃ s ∈ states past n, ∃ p job, s.peers[i]? = some p ∧ p.jobs[j]? = some job ∧
      job.request = some r

theorem Episode.now_of_ledger {e : Episode} {f : Directory.Episode} (mem : f ∈ e.ledger) :
    f.now = e.now := by
  unfold Episode.ledger at mem
  split at mem
  · exact absurd mem List.not_mem_nil
  · exact (Server.ledger_action mem).1

/-- What the server then makes of it is to let the client meet others with that timeout. -/
theorem Episode.Reads.terms {h : Handle} {point : NodeId} {timeout : Nat} {e : Episode}
    (reads : e.Reads past n i j) (run : History past n)
    (begun : ∃ e ∈ past, e.Begins i j (.waitSync h point timeout)) {f : Directory.Episode}
    (mem : f ∈ e.ledger) {c : ConnId} {ref : GroupRef} {terms : SyncTerms}
    (action : f.action = .sync c ref terms) :
    terms = ⟨Duration.toWire timeout, point⟩ := by
  obtain ⟨handles, r, next, s, inside, p, job, here, there, made⟩ := reads
  obtain ⟨ref', bid⟩ := run.requests_bid begun inside here there made
  unfold Episode.ledger serverAction? at mem
  rw [handles] at mem
  simp only [next, Option.map_some] at mem
  obtain ⟨asked, known, rfl⟩ := Option.map_eq_some_iff.mp (Option.mem_toList.mp mem)
  obtain rfl : asked = .sync c ref terms := action
  obtain ⟨member, -, ⟨ref'', -, no⟩ | ⟨ref'', -, no⟩ | ⟨ref'', terms', body, same⟩⟩ :=
    Server.request?_cases known
  · contradiction
  · contradiction
  · obtain ⟨-, -, rfl⟩ := Directory.Action.sync.inj same
    exact (Body.syncRequest.inj (body.symm.trans bid)).2

/-- What the server waits for a call with this timeout that has opened a sync point. -/
def armed (timeout : Nat) : Nat :=
  min (Duration.ofMillis (Duration.toMillis timeout)) Directory.maxSyncTimeout

/-- Less than a millisecond is lost of what the caller has asked for, and nothing of a year. -/
theorem armed_bounds (timeout : Nat) :
    armed timeout ≤ min timeout Directory.maxSyncTimeout ∧
      min timeout Directory.maxSyncTimeout < armed timeout + Duration.ofMillis 1 ∧
      (armed timeout = min timeout Directory.maxSyncTimeout ↔
        Duration.ofMillis 1 ∣ timeout ∨ Directory.maxSyncTimeout ≤ timeout) := by
  have lost := Duration.ofMillis_toMillis_le timeout
  have bound := Duration.lt_ofMillis_toMillis timeout
  have year : Directory.maxSyncTimeout ≤ timeout →
      Directory.maxSyncTimeout ≤ Duration.ofMillis (Duration.toMillis timeout) := by
    unfold Directory.maxSyncTimeout Duration.ofSeconds Duration.ofMillis Duration.toMillis
    omega
  unfold armed
  rw [← Duration.ofMillis_toMillis_iff]
  omega

def Episode.TimesOut (e : Episode) (generation : Nat) : Prop :=
  ∃ f ∈ e.ledger, ∃ b ∈ f.broadcasts, b.Says generation .timeout

theorem History.timeout_due (run : History past n) {e e' : Episode} (mem : e ∈ past)
    (mem' : e' ∈ past) {f : Directory.Episode} (inside : f ∈ e.ledger) {id name : NodeId}
    {generation : Nat} {terms : SyncTerms} (creates : f.Creates id name generation terms)
    (told : e'.TimesOut generation) : e.now + Directory.syncTimeout terms ≤ e'.now := by
  obtain ⟨f', inside', b, news, spoken⟩ := told
  obtain ⟨config, start, served⟩ := run.run
  have recorded {x : Episode} (mem : x ∈ past) {y : Directory.Episode} (inside : y ∈ x.ledger) :
      y ∈ past.flatMap Episode.ledger ++ [Server.opening config start] :=
    List.mem_append_left _ (List.mem_flatMap.mpr ⟨x, mem, inside⟩)
  have due := served.timeout_due (ledger_unforced past config start) (recorded mem inside) creates
    (recorded mem' inside') ⟨b, news, spoken⟩
  rw [Episode.now_of_ledger inside, Episode.now_of_ledger inside'] at due
  exact due

theorem begins_of_lengths {k : Nat} {a : Ask}
    (asked : past[k]?.map Episode.action = some (.ask i a))
    (lengths : (past[k]?.map fun e => (e.before.peers[i]?.map fun p => p.jobs.length,
      e.after.peers[i]?.map fun p => p.jobs.length)) = some (some j, some (j + 1))) :
    ∃ e ∈ past, e.Begins i j a := by
  obtain ⟨e, here, eq⟩ := Option.map_eq_some_iff.mp lengths
  obtain ⟨before, after⟩ := Prod.mk.inj eq
  obtain ⟨p, before, length⟩ := Option.map_eq_some_iff.mp before
  obtain ⟨q, after, length'⟩ := Option.map_eq_some_iff.mp after
  rw [here] at asked
  refine ⟨e, List.mem_of_getElem? here, Option.some.inj asked, p, q, before, after, length, ?_⟩
  rw [length']
  exact Nat.lt_succ_self j

/-- Two are members of a group. One of them waits at a sync point for almost two milliseconds, and
the server looks at what is due after one. -/
def sampleWait : List (Nat × Action) :=
  let guest : List (Nat × Action) :=
    [(0, .connect ⟨"bob", by decide, by decide⟩ .standard (Numbering.rolling 1)), (0, .handle 1),
      (0, .correlate 1), (0, .dispatch 1), (0, .ask 1 (.join sampleGroup (.ofByte 7)))] ++
      .replicate 5 (0, .advance 1 0 (Numbering.rolling 1)) ++ [(0, .handle 1)]
  sampleStart ++ sampleJoin sampleGroup 0 0 ++ [(0, .handle 0)] ++ sampleHear ++ sampleHear ++
    .replicate 2 (0, .advance 0 0 (Numbering.rolling 0)) ++ guest ++
    [(0, .ask 0 (.waitSync 0 Directory.sampleTerms.point 1999999))] ++
    .replicate 4 (0, .advance 0 1 (Numbering.rolling 1)) ++ [(0, .handle 0), (1000000, .expire)]

/-- No sync point times out before the time that the call has asked for which opened it, in whole
milliseconds, or before a year. The call itself waits for all it has asked for and for what its
client allows the network, which is never shorter. -/
theorem History.no_early_timeout {h : Handle} {point : NodeId} {timeout : Nat}
    (run : History past n) (begun : ∃ e ∈ past, e.Begins i j (.waitSync h point timeout)) :
    (∀ e ∈ past, e.Reads past n i j → ∀ f ∈ e.ledger, ∀ id name generation terms,
      f.Creates id name generation terms →
        name = point ∧ Directory.syncTimeout terms = armed timeout ∧
          ∀ e' ∈ past, e'.TimesOut generation → e.now + armed timeout ≤ e'.now) ∧
    (∀ p ∈ n.peers[i]?, ∀ job ∈ p.jobs[j]?, ∀ seq deadline,
      job.call.stage = .awaitSync seq deadline → Budget past i j timeout deadline) ∧
    (∀ extra, armed timeout ≤ Duration.add timeout extra) ∧
    armed timeout ≤ min timeout Directory.maxSyncTimeout ∧
    min timeout Directory.maxSyncTimeout < armed timeout + Duration.ofMillis 1 ∧
    (armed timeout = min timeout Directory.maxSyncTimeout ↔
      Duration.ofMillis 1 ∣ timeout ∨ Directory.maxSyncTimeout ≤ timeout) := by
  refine ⟨?_, ?_, ?_, armed_bounds timeout⟩
  · intro e mem reads f inside id name generation terms creates
    have ⟨_, _, action, located, _⟩ := creates
    obtain rfl := reads.terms run begun inside action
    have same := Directory.syncTimeout_toWire timeout point
    refine ⟨located.symm, same, ?_⟩
    intro e' mem' told
    rw [armed, ← same]
    exact run.timeout_due mem mem' inside creates told
  · intro p here job there seq deadline stage
    obtain ⟨p', job', here', there', bids⟩ := run.bids begun
    obtain rfl := Option.some.inj (here.symm.trans here')
    obtain rfl := Option.some.inj (there.symm.trans there')
    have waits := bids.stage
    rw [stage] at waits
    cases waits with
    | await seq within => exact within
  · intro extra
    have bound := Directory.syncTimeout_le_add timeout extra point
    rwa [Directory.syncTimeout_toWire] at bound

/-- What a call asks for beyond whole milliseconds is lost: this sync point times out before the
time has passed that its call has asked for. -/
theorem no_early_timeout_of_fraction :
    let run := samplePlay sampleWait
    let point := Directory.sampleTerms.point
    (∃ e ∈ run.1, e.Begins 0 1 (.waitSync 0 point 1999999)) ∧
      ∃ e ∈ run.1, ∃ e' ∈ run.1, ∃ f ∈ e.ledger, ∃ id generation terms,
        e.Reads run.1 run.2 0 1 ∧ f.Creates id point generation terms ∧ e'.TimesOut generation ∧
          e.now + armed 1999999 ≤ e'.now ∧
            e'.now < e.now + min 1999999 Directory.maxSyncTimeout := by
  intro run point
  have history : History run.1 run.2 := History.play _ _ _ _
  have begun : ∃ e ∈ run.1, e.Begins 0 1 (.waitSync 0 point 1999999) :=
    begins_of_lengths (k := 6) rfl (by decide +kernel)
  have asked : (run.1[1]?.bind fun e => e.before.peers[0]?.bind fun p => p.jobs[1]?.map fun job =>
      p.toServer.head? == job.request && job.request.isSome) = some true := by decide +kernel
  have opened : (run.1[1]?.bind fun e => e.ledger[0]?.map fun f => (f.action,
      (f.before.sync f.now 0 Directory.sampleRef ⟨1, point⟩).answer.code,
      (f.after.point? Directory.sampleRef.id point).map SyncPoint.generation)) =
        some (.sync 0 Directory.sampleRef ⟨1, point⟩, .created, some 0) := by decide +kernel
  have told : (run.1[0]?.bind fun e => e.ledger[0]?.bind fun f => f.broadcasts[0]?.map
      Broadcast.news) = some (.progress Directory.sampleRef point 0 [Directory.sampleMember]
        .timeout) := by decide +kernel
  obtain ⟨e, here, p, before, job, there, same⟩ := by
    simpa only [Option.bind_eq_some_iff, Option.map_eq_some_iff] using asked
  obtain ⟨e', last, f', inside', b, news, spoken⟩ := by
    simpa only [Option.bind_eq_some_iff, Option.map_eq_some_iff] using told
  rw [here] at opened
  obtain ⟨f, inside, eq⟩ := Option.map_eq_some_iff.mp opened
  obtain ⟨action, code, generation⟩ := by simpa only [Prod.mk.injEq] using eq
  obtain ⟨s, after, generation⟩ := Option.map_eq_some_iff.mp generation
  have mem : e ∈ run.1 := List.mem_of_getElem? here
  have mem' : e' ∈ run.1 := List.mem_of_getElem? last
  have inside : f ∈ e.ledger := List.mem_of_getElem? inside
  have reads : e.Reads run.1 run.2 0 1 := by
    have handles : run.1[1]?.map Episode.action = some (.handle 0) := rfl
    rw [here] at handles
    obtain ⟨head, made⟩ := Bool.and_eq_true_iff.mp same
    obtain ⟨r, made⟩ := Option.isSome_iff_exists.mp made
    refine ⟨Option.some.inj handles, r, ?_, e.before, ?_, p, job, before, there, made⟩
    · rw [before]
      exact (eq_of_beq head).trans made
    · exact List.mem_cons_of_mem _ (List.mem_map_of_mem mem)
  have creates : f.Creates Directory.sampleRef.id point 0 ⟨1, point⟩ :=
    ⟨0, _, action, rfl, code, s, after, generation⟩
  have out : e'.TimesOut 0 :=
    ⟨f', List.mem_of_getElem? inside', b, List.mem_of_getElem? news, _, _, _, spoken⟩
  have start : run.1[1]?.map Episode.now = some 0 := rfl
  have stop : run.1[0]?.map Episode.now = some 1000000 := rfl
  rw [here] at start
  rw [last] at stop
  obtain ⟨-, -, due⟩ :=
    (history.no_early_timeout begun).1 e mem reads f inside _ _ _ _ creates
  refine ⟨begun, e, mem, e', mem', f, inside, _, 0, _, reads, creates, out, due e' mem' out, ?_⟩
  rw [Option.some.inj start, Option.some.inj stop]
  decide

end Network
end Muster
