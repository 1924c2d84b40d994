import Muster.Proofs.Network.Claims
import Mathlib.Data.List.Perm.Subperm

/-! The requests that a client has sent. Each is on its way once, if at all, and belongs to no
more than one call. -/
namespace Muster

abbrev Job.Unsent (job : Job) : Prop := job.call.stage.Unsent

/-- `trail` holds the requests that were sent and not lost, with and without an answer. -/
structure Trail (jobs : List Job) (made : Nat) (trail : List Request) : Prop where
  asked (j : Nat) (job : Job) (here : jobs[j]? = some job) (r : Request)
    (request : job.request = some r) : r.place < made
  sent (r : Request) (mem : r ∈ trail) : r.place < made
  once : trail.Nodup
  apart (j j' : Nat) (job job' : Job) (here : jobs[j]? = some job) (there : jobs[j']? = some job')
    (r : Request) (request : job.request = some r) (request' : job'.request = some r) : j' = j
  unsent (j : Nat) (job : Job) (here : jobs[j]? = some job) (r : Request)
    (request : job.request = some r) (unsent : job.Unsent) : r ∉ trail

namespace Trail
variable {jobs : List Job} {made : Nat} {trail trail' : List Request}

theorem start (r : Request) (first : r.place = 0) : Trail [] 1 [r] where
  asked j job here := by simp at here
  sent r' mem := by
    rw [List.mem_singleton.mp mem, first]
    exact Nat.one_pos
  once := List.nodup_singleton r
  apart j j' job job' here := by simp at here
  unsent j job here := by simp at here

theorem lose (h : Trail jobs made trail) (sub : trail'.Subperm trail) : Trail jobs made trail' where
  asked := h.asked
  sent r mem := h.sent r (sub.subset mem)
  once := by
    obtain ⟨l, perm, sub⟩ := sub
    exact perm.nodup_iff.mp (h.once.sublist sub)
  apart := h.apart
  unsent j job here r request unsent mem := h.unsent j job here r request unsent (sub.subset mem)

theorem begin (h : Trail jobs made trail) (call : Call) :
    Trail (jobs ++ [⟨call, none⟩]) made trail := by
  have old {j : Nat} {job : Job} {r : Request} (here : (jobs ++ [⟨call, none⟩])[j]? = some job)
      (request : job.request = some r) : jobs[j]? = some job := by
    rcases getElem?_append_cases here with here | rfl
    · exact here
    · exact nomatch request
  constructor
  case asked => exact fun j job here r request => h.asked j job (old here request) r request
  case sent => exact h.sent
  case once => exact h.once
  case apart =>
    intro j j' job job' here there r request request'
    exact h.apart j j' job job' (old here request) (old there request') r request request'
  case unsent => exact fun j job here r request => h.unsent j job (old here request) r request

theorem sentBy_eq {request : Option Request} {e e' : Errand} {r : Request}
    (carries : e.Carries request) (sent : Peer.sentBy request e e' = some r) :
    request = some r ∧ e = .recorded r.packet ∧ ∃ seq, e' = .awaiting seq := by
  unfold Peer.sentBy at sent
  split at sent
  · obtain ⟨r₀, rfl, rfl⟩ := carries
    obtain rfl := Option.some.inj sent
    exact ⟨rfl, rfl, _, rfl⟩
  · contradiction

theorem le_madeAfter (made : Nat) (e : Errand) : made ≤ Peer.madeAfter made e := by
  cases e with
  | drafted p => exact Nat.le_succ made
  | none | recorded p | awaiting seq | cancelling seq | ended => exact Nat.le_refl made

theorem requestAfter_cases {request : Option Request} {e : Errand} {r : Request}
    (after : Peer.requestAfter made request e = some r) :
    request = some r ∨ r.place = made ∧ Peer.madeAfter made e = made + 1 := by
  cases e with
  | none => contradiction
  | drafted p =>
    obtain rfl := Option.some.inj after
    exact .inr ⟨rfl, rfl⟩
  | recorded p | awaiting seq | cancelling seq | ended => exact .inl after

theorem advance {j : Nat} {job : Job} {m : Membership} {c c' : Client} {s' : CallStage}
    (h : Trail jobs made trail) (here : jobs[j]? = some job)
    (carries : job.errand.Carries job.request)
    (step : Call.CallStep c job.handle m job.call.stage c' s') :
    Trail (jobs.set j (job.next made s')) (Peer.madeAfter made s'.errand)
      (trail ++ (Peer.sentBy job.request job.errand s'.errand).toList) := by
  have later := le_madeAfter made s'.errand
  have sent_cases {r : Request}
      (mem : r ∈ trail ++ (Peer.sentBy job.request job.errand s'.errand).toList) :
      r ∈ trail ∨ job.request = some r ∧ job.Unsent ∧ ∃ seq, s'.errand = .awaiting seq := by
    rcases List.mem_append.mp mem with old | new
    · exact .inl old
    · obtain ⟨request, errand, awaiting⟩ := sentBy_eq carries (Option.mem_toList.mp new)
      exact .inr ⟨request, .inr (.inl ⟨_, errand⟩), awaiting⟩
  -- No other call has the request that this one has after the step.
  have alone {k : Nat} {job' : Job} {r : Request} (there : jobs[k]? = some job')
      (request : (job.next made s').request = some r) (request' : job'.request = some r) :
      k = j := by
    obtain same | ⟨new, -⟩ := requestAfter_cases request
    · exact h.apart j k job job' here there r same request'
    · have old := h.asked k job' there r request'
      omega
  constructor
  case asked =>
    intro k job' there r request
    obtain ⟨-, rfl⟩ | ⟨-, there⟩ := getElem?_set_cases there
    · obtain same | ⟨new, more⟩ := requestAfter_cases request
      · exact Nat.lt_of_lt_of_le (h.asked j job here r same) later
      · omega
    · exact Nat.lt_of_lt_of_le (h.asked k job' there r request) later
  case sent =>
    intro r mem
    obtain old | ⟨request, -, -⟩ := sent_cases mem
    · exact Nat.lt_of_lt_of_le (h.sent r old) later
    · exact Nat.lt_of_lt_of_le (h.asked j job here r request) later
  case once =>
    cases hs : Peer.sentBy job.request job.errand s'.errand with
    | none =>
      rw [Option.toList_none, List.append_nil]
      exact h.once
    | some r =>
      obtain ⟨request, errand, -⟩ := sentBy_eq carries hs
      rw [Option.toList_some, List.nodup_append_comm, List.singleton_append, List.nodup_cons]
      exact ⟨h.unsent j job here r request (.inr (.inl ⟨_, errand⟩)), h.once⟩
  case apart =>
    intro k k' a b ha hb r request request'
    obtain ⟨rfl, rfl⟩ | ⟨ne, ha⟩ := getElem?_set_cases ha
    · obtain ⟨rfl, -⟩ | ⟨-, hb⟩ := getElem?_set_cases hb
      · rfl
      · exact alone hb request request'
    · obtain ⟨-, rfl⟩ | ⟨-, hb⟩ := getElem?_set_cases hb
      · exact absurd (alone ha request' request) ne
      · exact h.apart k k' a b ha hb r request request'
  case unsent =>
    intro k job' there r request unsent mem
    obtain ⟨-, rfl⟩ | ⟨ne, there⟩ := getElem?_set_cases there
    · obtain old | ⟨-, -, seq, awaiting⟩ := sent_cases mem
      · obtain ⟨-, p, drafted⟩ | ⟨before, -⟩ := step.unsent_after unsent
        · have new : Peer.requestAfter made job.request s'.errand = some r := request
          rw [drafted] at new
          obtain rfl := Option.some.inj new
          exact Nat.lt_irrefl made (h.sent _ old)
        · obtain same | ⟨new, -⟩ := requestAfter_cases request
          · exact h.unsent j job here r same before old
          · have old := h.sent r old
            omega
      · obtain ⟨-, p, drafted⟩ | ⟨-, quiet⟩ := step.unsent_after unsent
        · rw [awaiting] at drafted
          contradiction
        · exact quiet seq awaiting
    · obtain old | ⟨own, -, -⟩ := sent_cases mem
      · exact h.unsent k job' there r request unsent old
      · exact ne (h.apart j k job job' here there r own request)

end Trail
end Muster
