import Muster.Proofs.Directory.Generation
import Muster.Proofs.Network.Basic
import Muster.Proofs.Wire.Sequence

/-! Whose answers are whose. A request is known by a number that may be drawn again while an
earlier request of the same number is on its way. As long as that does not happen, calls end
with the answers to their own requests, and answers change only what was asked for. -/
namespace Muster

namespace Peer

/-- Answers are taken for the answers to the requests that they answer, by calls that have not
given up. -/
structure Faithful (p : Peer) : Prop where
  /-- What is passed on as an answer is the server's response, together with its request. -/
  genuine (x : Handed) (mem : x ∈ p.inbox ∨ x ∈ p.heard) : x.Genuine
  /-- A response is passed on only while a call still holds its request (or as the answer to
  the registration), and with that request. -/
  passed (x : Incoming) (rest : List Incoming) (next : p.toClient = x :: rest) (r : Request)
    (origin : x.request? = some r) (y : Handed) (passed : p.correlate.inbox = p.inbox ++ [y]) :
    y.delivery.request = some r.packet.message ∧ (r.place = 0 ∨
      ∃ (j : Nat) (job : Job), p.jobs[j]? = some job ∧ job.request = some r ∧ job.Waits)
  /-- A response changes at most the record of the call that holds its request. If that call
  has given up its wait, only the wait that it is about to drop changes. -/
  changed (x : Handed) (rest : List Handed) (next : p.inbox = x :: rest) (r : Request)
    (origin : x.request? = some r) (h : Handle) (m m' : Membership)
    (before : p.client.records[h]? = some m) (after : p.dispatch.client.records[h]? = some m')
    (changed : m' ≠ m) :
    ∃ (j : Nat) (job : Job), p.jobs[j]? = some job ∧ job.handle = h ∧ job.request = some r ∧
      (job.Waits ∨ (∃ result, job.call.stage = .exitSync result) ∧ m' = { m with wait := m'.wait })
  /-- The reply that ends a join or leave is the one to its own request. -/
  replied (j : Nat) (job : Job) (here : p.jobs[j]? = some job) (m : Membership)
    (record : p.client.records[job.handle]? = some m) (claim : job.claim = .lock) (seq : Int32)
    (awaits : job.errand = .awaiting seq) (reply : Reply)
    (answered : m.exchange = .answered reply) : reply = .lost ∧ p.client.link = none ∨
      ∃ r x, job.request = some r ∧ x ∈ p.heard ∧ x.request? = some r ∧ x.Brings reply
  /-- What ends a wait at a sync point without a notice, or opens it to notices, is the answer
  to its own request. -/
  shown (j : Nat) (job : Job) (here : p.jobs[j]? = some job) (m : Membership)
    (record : p.client.records[job.handle]? = some m) (claim : job.claim = .wait) (w : SyncWait)
    (wait : m.wait = some w) (v : Option SyncOutcome) (shown : w.Shows v) :
    ∃ r x, job.request = some r ∧ x ∈ p.heard ∧ x.request? = some r ∧ x.Reveals v

namespace Orderly
variable {p : Peer}

theorem faithful_passed (h : p.Orderly) {x : Incoming} {rest : List Incoming}
    (next : p.toClient = x :: rest) {r : Request} (origin : x.request? = some r) {y : Handed}
    (passed : p.correlate.inbox = p.inbox ++ [y]) :
    y.delivery.request = some r.packet.message ∧ (r.place = 0 ∨
      ∃ (j : Nat) (job : Job), p.jobs[j]? = some job ∧ job.request = some r ∧ job.Waits) := by
  have mem : x ∈ p.toClient := by
    rw [next]
    exact List.mem_cons_self
  have genuine := h.incoming x mem
  rw [origin] at genuine
  obtain ⟨response, seq, -⟩ := genuine
  unfold Peer.correlate at passed
  rw [next] at passed
  cases linked : p.client.link with
  | none =>
    rw [linked] at passed
    have shorter := congrArg List.length passed
    simp at shorter
  | some link =>
    rw [linked] at passed
    dsimp only at passed
    cases run : link.pending.pass x.packet with
    | mk delivery pending' =>
      rw [run] at passed
      have passed := List.append_cancel_left passed
      cases delivery with
      | none => exact nomatch passed
      | some d =>
        obtain rfl := (List.cons.inj passed).1
        obtain ⟨-, ⟨-, message, found, eq⟩ | ⟨other, -⟩⟩ := (Pending.pass_cases run).2 d rfl
        · have outstanding : p.client.pending[r.packet.seq]? = some message := by
            rw [← seq, Client.pending, linked]
            exact found
          have own : r ∈ p.toClient.filterMap Incoming.request? :=
            List.mem_filterMap.mpr ⟨x, mem, origin⟩
          obtain ⟨rfl, holder⟩ := h.outstanding r (.inr own) message outstanding
          exact ⟨eq, holder⟩
        · exact absurd response other

/-- A call at a sync point still waits for its answer, unless it is about to end. -/
theorem waits_or_ended {job : Job} (claim : job.claim = .wait) (notes : job.errand.notes .wait)
    (sent : ¬job.Unsent) : job.Waits ∨ ∃ result, job.call.stage = .exitSync result := by
  cases hs : job.errand with
  | none =>
    rw [hs] at notes
    contradiction
  | drafted p => exact absurd (.inl ⟨p, hs⟩) sent
  | recorded p => exact absurd (.inr (.inl ⟨p, hs⟩)) sent
  | awaiting seq => exact .inl ⟨seq, .inl hs⟩
  | cancelling seq => exact .inl ⟨seq, .inr hs⟩
  | ended =>
    right
    have claim : job.call.stage.claim = .wait := claim
    have hs : job.call.stage.errand = .ended := hs
    cases stage : job.call.stage with
    | exitSync result => exact ⟨result, rfl⟩
    | _ => simp [stage, CallStage.claim, CallStage.errand] at claim hs

theorem faithful_changed (h : p.Orderly) (apart : p.Apart) {x : Handed} {rest : List Handed}
    (next : p.inbox = x :: rest) {r : Request} (origin : x.request? = some r) {k : Handle}
    {m m' : Membership} (before : p.client.records[k]? = some m)
    (after : p.dispatch.client.records[k]? = some m') (changed : m' ≠ m) :
    ∃ (j : Nat) (job : Job), p.jobs[j]? = some job ∧ job.handle = k ∧ job.request = some r ∧
      (job.Waits ∨
        (∃ result, job.call.stage = .exitSync result) ∧ m' = { m with wait := m'.wait }) := by
  have mem : x ∈ p.inbox := by
    rw [next]
    exact List.mem_cons_self
  obtain ⟨responds, -⟩ := h.handed x (.inl mem)
  rw [origin] at responds
  obtain ⟨response, -, -⟩ := responds
  obtain ⟨m₀, record, rfl | ⟨t, tidings, -, -, -, rfl⟩⟩ := h.sound.dispatch_record next after
  · exact absurd (Option.some.inj (record.symm.trans before)) changed
  · obtain rfl := Option.some.inj (record.symm.trans before)
    have answer := Delivery.answer_of_role tidings response
    obtain awaited | ⟨marked, only⟩ := Membership.heed_answer answer changed
    · have knows : m₀.Knows x.delivery.packet.seq .lock := awaited
      obtain ⟨j, job, r', here, handle, claim, notes, sent, request, own⟩ :=
        h.own_answer apart next tidings answer record knows
      obtain rfl := Option.some.inj (own.symm.trans origin)
      obtain ⟨seq, awaits⟩ := awaits_of_notes claim notes sent
      exact ⟨j, job, here, handle, request, .inl ⟨seq, .inl awaits⟩⟩
    · have knows : m₀.Knows x.delivery.packet.seq .wait := marked
      obtain ⟨j, job, r', here, handle, claim, notes, sent, request, own⟩ :=
        h.own_answer apart next tidings answer record knows
      obtain rfl := Option.some.inj (own.symm.trans origin)
      refine ⟨j, job, here, handle, request, ?_⟩
      obtain waits | ended := waits_or_ended claim notes sent
      · exact .inl waits
      · exact .inr ⟨ended, only⟩

theorem faithful (h : p.Orderly) (apart : p.Apart) : p.Faithful where
  genuine := h.handed
  passed x rest next r origin y := h.faithful_passed next origin
  changed x rest next r origin k m m' := h.faithful_changed apart next origin
  replied j job here m record claim seq awaits reply answered := by
    obtain lost | ⟨j', job', r, x, there, handle, claim', -, request, heard, rest⟩ :=
      h.replied _ m record reply answered
    · exact .inl lost
    · right
      have ne : job.claim ≠ .none := by
        rw [claim]
        decide
      obtain rfl := h.claims.alone j j' job job' here there ne (claim'.trans claim.symm) handle
      obtain rfl := Option.some.inj (here.symm.trans there)
      exact ⟨r, x, request, heard, rest⟩
  shown j job here m record claim w wait v shown := by
    obtain ⟨j', job', r, x, there, handle, claim', -, request, heard, rest⟩ :=
      h.shown _ m record w wait v shown
    have ne : job.claim ≠ .none := by
      rw [claim]
      decide
    obtain rfl := h.claims.alone j j' job job' here there ne (claim'.trans claim.symm) handle
    obtain rfl := Option.some.inj (here.symm.trans there)
    exact ⟨r, x, request, heard, rest⟩

end Orderly
end Peer

namespace Network

/-- While no two live requests of a client have the same number, all its calls are faithful to
their requests, whatever else happens on the network. -/
theorem History.answers_own_requests {past : List Episode} {n : Network} (run : History past n)
    {i : ConnId} {p : Peer} (here : n.peers[i]? = some p)
    (apart : ∀ m ∈ states past n, m.ApartAt i) : p.Faithful := by
  have orderly := run.orderly (fun m mem => apart m (List.mem_cons_of_mem n mem)) here
  exact orderly.faithful (apart n List.mem_cons_self p here)

def sampleStart : List (Nat × Action) :=
  [(0, .connect Directory.sampleMember .standard (Numbering.rolling 0)),
    (0, .handle 0), (0, .correlate 0), (0, .dispatch 0)]

/-- A call to join a group, up to the request that is sent. -/
def sampleJoin (group : NodeId) (j roll : Nat) : List (Nat × Action) :=
  (0, .ask 0 (.join group (.ofByte 7))) :: .replicate 5 (0, .advance 0 j (Numbering.rolling roll))

def sampleTake (steps : Nat) : List (Nat × Action) := .replicate steps (0, .dispatch 0)

def samplePlay (steps : List (Nat × Action)) : List Episode × Network :=
  play .standard (.ofByte 9) (.ofSeed 1) steps.reverse

def sampleGroup : NodeId := Directory.sampleRef.id

theorem answers_own_requests_of_join :
    let run := samplePlay (sampleStart ++ sampleJoin sampleGroup 0 0 ++
      [(0, .handle 0), (0, .correlate 0)] ++ sampleTake 2)
    (∀ m ∈ states run.1 run.2, m.ApartAt 0) ∧
      (run.2.peers[0]?.map fun p => p.heard.length) = some 2 ∧
      ∃ p, run.2.peers[0]? = some p ∧ p.Faithful := by
  intro run
  have history : History run.1 run.2 := History.play _ _ _ _
  have apart : ∀ m ∈ states run.1 run.2, m.ApartAt 0 := by decide +kernel
  obtain ⟨p, here⟩ : ∃ p, run.2.peers[0]? = some p := by
    apply Option.isSome_iff_exists.mp
    decide +kernel
  exact ⟨apart, by decide +kernel, p, here, history.answers_own_requests here apart⟩

/-- Without the condition an answer may go to another call. A client gives up joining the first
group. The number of its request is drawn again for the third, and the answer about the first is
passed on as one about the third. -/
theorem unfaithful_of_reused_number : ∃ past n p, History past n ∧ n.peers[0]? = some p ∧
    ¬p.Faithful := by
  let giveUp : List (Nat × Action) :=
    .replicate 6 (2000000000, .advance 0 0 (Numbering.rolling 0))
  let other : NodeId := ⟨"east", by decide, by decide⟩
  let run := samplePlay (sampleStart ++ sampleJoin sampleGroup 0 0 ++ giveUp ++
    sampleJoin ⟨"deck", by decide, by decide⟩ 1 1 ++ sampleJoin other 2 0 ++ [(0, .handle 0)])
  obtain ⟨p, here⟩ : ∃ p, run.2.peers[0]? = some p := by
    apply Option.isSome_iff_exists.mp
    decide +kernel
  refine ⟨run.1, run.2, p, History.play _ _ _ _, here, ?_⟩
  intro faithful
  have asked : (run.2.peers[0]?.map fun p => p.toClient.map fun x =>
      x.request?.map fun r => r.packet.message.body) =
        some [some (.joinRequest ⟨sampleGroup, .ofByte 7⟩), none] := by decide +kernel
  have passed : (run.2.peers[0]?.map fun p => p.correlate.inbox.map fun y =>
      y.delivery.request.map Message.body) =
        some [some (.joinRequest ⟨other, .ofByte 7⟩)] := by decide +kernel
  have before : (run.2.peers[0]?.map fun p => p.inbox.length) = some 0 := by decide +kernel
  rw [here, Option.map_some, Option.some_inj] at asked passed before
  obtain ⟨x, rest, next, origin, -⟩ := List.map_eq_cons_iff.mp asked
  obtain ⟨r, origin, first⟩ := Option.map_eq_some_iff.mp origin
  obtain ⟨y, delivered, third⟩ := List.map_eq_singleton_iff.mp passed
  have delivered : p.correlate.inbox = p.inbox ++ [y] := by
    rw [List.length_eq_zero_iff.mp before]
    exact delivered
  obtain ⟨own, -⟩ := faithful.passed x rest next r origin y delivered
  rw [own, Option.map_some, first] at third
  revert third
  decide

end Network
end Muster
