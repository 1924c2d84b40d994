import Muster.Proofs.Threads.Basic

/-! What holds of the records of a client whatever its threads do. Each group that is known has a
record of its name, only the call that joins or leaves knows of a request under way, and the reply
to it waits in the record until the call takes it. -/
namespace Muster

/-- The number of a request that the record of its group was told, until the call is done with
it. -/
def Errand.number? : Errand → Option Int32
  | recorded p => some p.seq
  | awaiting seq => some seq
  | none | drafted _ | cancelling _ | ended => Option.none

/-- The request of this number is awaited, or there is a reply. -/
def Membership.Owes (m : Membership) (seq : Int32) : Prop :=
  m.exchange = .awaiting seq ∨ ∃ reply, m.exchange = .answered reply

namespace Membership
variable {m : Membership} {seq : Int32}

theorem Owes.heed (h : m.Owes seq) (own : NodeId) (n : Int32) (t : Tidings) :
    (m.heed own n t).Owes seq := by
  rcases @heed_exchange own n t m with same | ⟨-, reply, -, answered⟩
  · unfold Owes
    rw [same]
    exact h
  · exact .inr ⟨reply, answered⟩

theorem Owes.hear (h : m.Owes seq) (own : NodeId) (n : Int32) (t : Tidings) :
    (m.hear own n t).Owes seq := by
  obtain same | heeded := m.hear_cases own n t
  · rw [same]
    exact h
  · rw [heeded]
    exact h.heed own n t

theorem Owes.connectionLost (h : m.Owes seq) :
    ∃ reply, m.connectionLost.exchange = .answered reply := by
  unfold Membership.connectionLost
  rcases h with awaiting | ⟨reply, answered⟩
  · exact ⟨.lost, by simp only [awaiting]⟩
  · exact ⟨reply, by simp only [answered]⟩

end Membership

namespace Call
variable {c c' : Client} {h : Handle} {m m' : Membership} {s s' : CallStage} {seq : Int32}

/-- Only the call that joins or leaves changes the exchange. -/
theorem Moved.exchange (move : Moved m s m' s') (other : s.claim ≠ .lock) :
    m'.exchange = m.exchange := by
  cases move with
  | record claim | abandon claim | take claim => exact absurd claim other
  | same | enter | exit | beginWait | markWait | endWait => rfl

/-- A call that joins or leaves and has told its record the number of a request has just done so,
or its step leaves the record alone. -/
theorem CallStep.recorded (step : CallStep c h m s c' s') (record : c.records[h]? = some m)
    (record' : c'.records[h]? = some m') (claim' : s'.claim = .lock)
    (number : s'.errand.number? = some seq) :
    (∃ p, s.errand = .drafted p ∧ p.seq = seq ∧ m'.exchange = .awaiting seq) ∨
      s.claim = .lock ∧ s.errand.number? = some seq ∧ m' = m := by
  have quiet {P : Prop} {e : Errand} (eq : s'.errand = e) (silent : e.number? = .none) : P := by
    rw [eq, silent] at number
    exact nomatch number
  cases step with
  | record claim _ errand errand' change asks =>
    obtain rfl := Option.some.inj ((update_own record change).symm.trans record')
    rw [errand'] at number
    obtain rfl := Option.some.inj number
    exact .inl ⟨_, errand, rfl, rfl⟩
  | sent claim errand errand' run =>
    have kept := c.send_records ‹Packet›
    rw [run] at kept
    rw [kept, record] at record'
    rw [errand'] at number
    refine .inr ⟨claim.symm.trans claim', ?_, (Option.some.inj record').symm⟩
    rw [errand]
    exact number
  | look _ _ idle' | enter _ _ _ idle' | exit _ _ _ idle' | forget _ _ _ idle'
  | beginWait _ _ _ idle' => exact quiet idle' rfl
  | draft _ _ errand' | unsent _ _ errand' | abandon _ _ _ errand' | giveUp _ _ _ errand'
  | finish _ _ _ errand' | stopWait _ _ _ errand' | endWait _ _ _ errand' =>
    exact quiet errand' rfl
  | markWait _ claim => exact nomatch claim.symm.trans claim'
  | cancel _ _ errand' =>
    refine quiet errand' ?_
    split <;> rfl

theorem CallStep.owes (step : CallStep c h m s c' s') (record : c.records[h]? = some m)
    (record' : c'.records[h]? = some m') (claim' : s'.claim = .lock)
    (number : s'.errand.number? = some seq)
    (owes : s.claim = .lock → s.errand.number? = some seq → m.Owes seq) : m'.Owes seq := by
  obtain ⟨p, -, -, awaiting⟩ | ⟨claim, told, rfl⟩ := step.recorded record record' claim' number
  · exact .inl awaiting
  · exact owes claim told

end Call

namespace Threads

/-- What the calls have claimed, which record each group has, and what the calls that join or
leave have told theirs. -/
structure Sound (t : Threads) : Prop where
  claims : ∃ jobs : List Job, jobs.map Job.call = t.calls ∧ Claims t.client.records jobs
  filed (id : NodeId) (k : Handle) (known : t.client.groups[id]? = some k) :
    ∃ m, t.client.records[k]? = some m ∧ m.id = id
  owes (j : Nat) (call : Call) (here : t.calls[j]? = some call) (claim : call.stage.claim = .lock)
    (m : Membership) (record : t.client.records[call.handle]? = some m) (seq : Int32)
    (number : call.stage.errand.number? = some seq) : m.Owes seq

namespace Sound
variable {t : Threads} {j : Nat} {call : Call} {m : Membership} {k : Handle}

theorem job {jobs : List Job} (calls : jobs.map Job.call = t.calls)
    (here : t.calls[j]? = some call) : ∃ job, jobs[j]? = some job ∧ job.call = call := by
  rw [← calls, List.getElem?_map] at here
  exact Option.map_eq_some_iff.mp here

theorem lt (sound : t.Sound) (record : t.client.records[k]? = some m) :
    k < t.client.records.size := by
  obtain ⟨jobs, -, claims⟩ := sound.claims
  exact claims.numbered k m record

theorem record (sound : t.Sound) (here : t.calls[j]? = some call) :
    ∃ m, t.client.records[call.handle]? = some m := by
  obtain ⟨jobs, calls, claims⟩ := sound.claims
  obtain ⟨job, there, rfl⟩ := job calls here
  obtain ⟨m, record, -⟩ := claims.known j job there
  exact ⟨m, record⟩

theorem held (sound : t.Sound) (here : t.calls[j]? = some call) (ne : call.stage.claim ≠ .none)
    (record : t.client.records[call.handle]? = some m) : m.claimed call.stage.claim = true := by
  obtain ⟨jobs, calls, claims⟩ := sound.claims
  obtain ⟨job, there, rfl⟩ := job calls here
  exact claims.held j job there ne m record

theorem alone (sound : t.Sound) {i : Nat} {call' : Call} (here : t.calls[j]? = some call)
    (there : t.calls[i]? = some call') (ne : call.stage.claim ≠ .none)
    (claim : call'.stage.claim = call.stage.claim) (handle : call'.handle = call.handle) :
    i = j := by
  obtain ⟨jobs, calls, claims⟩ := sound.claims
  obtain ⟨job, mine, rfl⟩ := job calls here
  obtain ⟨job', other, rfl⟩ := Sound.job calls there
  exact claims.alone j i job job' mine other ne claim handle

theorem owner (sound : t.Sound) (record : t.client.records[k]? = some m) {seq : Int32}
    (awaiting : m.exchange = .awaiting seq) :
    ∃ (j : Nat) (call : Call), t.calls[j]? = some call ∧ call.handle = k ∧
      call.stage.claim = .lock ∧ call.stage.errand.notes .lock := by
  obtain ⟨jobs, calls, claims⟩ := sound.claims
  obtain ⟨j, job, r, here, handle, claim, notes, -⟩ := claims.owned k m record .lock seq awaiting
  refine ⟨j, job.call, ?_, handle, claim, notes⟩
  rw [← calls, List.getElem?_map, here]
  rfl

theorem unmarked (sound : t.Sound) (here : t.calls[j]? = some call)
    (claim : call.stage.claim = .wait) (silent : call.stage.errand.notes .wait = false)
    (record : t.client.records[call.handle]? = some m) : m.wait.bind SyncWait.seq = none := by
  cases mark : m.wait.bind SyncWait.seq with
  | none => rfl
  | some seq =>
    obtain ⟨jobs, calls, claims⟩ := sound.claims
    obtain ⟨job, there, rfl⟩ := job calls here
    obtain ⟨i, job', r, other, handle, claim', notes, -⟩ := claims.owned _ m record .wait seq mark
    have claimed : job.claim ≠ .none := fun free => nomatch claim.symm.trans free
    obtain rfl := claims.alone j i job job' there other claimed (claim'.trans claim.symm) handle
    obtain rfl := Option.some.inj (there.symm.trans other)
    exact nomatch silent.symm.trans notes

theorem create (id : NodeId) (config : ClientConfig) (numbering : Numbering) :
    (create id config numbering).Sound where
  claims := ⟨[], rfl, .start⟩
  filed id _ known := nomatch (Std.ExtTreeMap.getElem?_empty (a := id)).symm.trans known
  owes _ _ here := nomatch here

theorem aside {t' : Threads} (sound : t.Sound) (records : t'.client.records = t.client.records)
    (groups : t'.client.groups = t.client.groups) (calls : t'.calls = t.calls) : t'.Sound where
  claims := by
    rw [records, calls]
    exact sound.claims
  filed id k known := by
    rw [records]
    exact sound.filed id k (groups ▸ known)
  owes j call here claim m record :=
    sound.owes j call (calls ▸ here) claim m (records ▸ record)

/-- Whatever the network side does to the records, it takes no claim away and brings replies
only. -/
theorem kept {c : Client} (sound : t.Sound) (kept : t.client.Kept c) (closing : Option Shutdown)
    (intake : Option (Delivery × Intake))
    (owes : ∀ (k : Handle) (m : Membership), c.records[k]? = some m →
      ∃ m₀, t.client.records[k]? = some m₀ ∧ ∀ seq, m₀.Owes seq → m.Owes seq) :
    Sound ⟨c, t.calls, closing, intake⟩ where
  claims := by
    obtain ⟨jobs, calls, claims⟩ := sound.claims
    exact ⟨jobs, calls, claims.kept kept⟩
  filed id k known := by
    rw [show c.groups = t.client.groups from kept.groups] at known
    obtain ⟨m, record, same⟩ := sound.filed id k known
    obtain ⟨m', record', change⟩ := kept.forth record
    exact ⟨m', record', change.id.trans same⟩
  owes j call here claim m record seq number := by
    obtain ⟨m₀, before, forth⟩ := owes call.handle m record
    exact forth seq (sound.owes j call here claim m₀ before seq number)

theorem ask {c : Client} {now : Nat} {a : Ask} (sound : t.Sound)
    (run : a.call? t.client now = some (c, call)) :
    Sound ⟨c, t.calls ++ [call], t.closing, t.intake⟩ := by
  obtain ⟨jobs, calls, claims⟩ := sound.claims
  obtain ⟨free, idle, cases⟩ := Ask.call?_cases run
  have appended (jobs : List Job) (same : jobs.map Job.call = t.calls) :
      (jobs ++ [(⟨call, none⟩ : Job)]).map Job.call = t.calls ++ [call] := by
    rw [List.map_append, same]
    rfl
  have owes (records : ∀ (j : Nat) (call : Call) (m : Membership), t.calls[j]? = some call →
      c.records[call.handle]? = some m → t.client.records[call.handle]? = some m) :
      ∀ (j : Nat) (x : Call), (t.calls ++ [call])[j]? = some x → x.stage.claim = .lock →
        ∀ m, c.records[x.handle]? = some m → ∀ seq, x.stage.errand.number? = some seq →
          m.Owes seq := by
    intro j x here claim m record seq number
    rcases getElem?_append_cases here with here | rfl
    · exact sound.owes j x here claim m (records j x m here record) seq number
    · exact nomatch free.symm.trans claim
  rcases cases with ⟨rfl, known⟩ | ⟨id, token, fresh, rfl, handle⟩
  · have record : ∃ m, t.client.records[call.handle]? = some m := by
      rcases known with known | ⟨id, known⟩
      · exact known
      · obtain ⟨m, record, -⟩ := sound.filed id _ known
        exact ⟨m, record⟩
    exact ⟨⟨_, appended jobs calls, claims.begin record free idle⟩, sound.filed,
      owes fun _ _ _ _ record => record⟩
  · have old {k : Handle} {m : Membership} (record : t.client.records[k]? = some m) :
        (t.client.addGroup id token).2.records[k]? = some m := by
      rw [Client.addGroup_records, if_neg (Nat.ne_of_lt (sound.lt record)).symm]
      exact record
    have new : (t.client.addGroup id token).2.records[t.client.records.size]? =
        some (.create id token) := by
      rw [Client.addGroup_records, if_pos rfl]
    have made : ∃ m, (t.client.addGroup id token).2.records[call.handle]? = some m := by
      rw [handle]
      exact ⟨_, new⟩
    refine ⟨⟨_, appended jobs calls, (claims.create id token).begin made free idle⟩, ?_, owes ?_⟩
    · intro id' k known
      rw [Client.addGroup_groups] at known
      split at known
      · rename_i same
        obtain rfl := Option.some.inj known
        exact ⟨_, new, same⟩
      · obtain ⟨m, record, same⟩ := sound.filed id' k known
        exact ⟨m, old record, same⟩
    · intro j x m here record
      obtain ⟨m₀, before⟩ := sound.record here
      rw [old before] at record
      rw [before, record]

theorem advance {c : Client} {now : Nat} {numbering : Numbering} {call' : Call} (sound : t.Sound)
    (here : t.calls[j]? = some call)
    (run : call.step { t.client with numbering } now =
      some (c, call')) : Sound ⟨c, t.calls.set j call', t.closing, t.intake⟩ := by
  obtain ⟨m, s', record, advanced, rfl⟩ := Call.step_advance run
  have step := Call.advance_callStep advanced
  obtain ⟨m', record', move⟩ := step.moved record
  obtain ⟨jobs, calls, claims⟩ := sound.claims
  obtain ⟨job, there, rfl⟩ := Sound.job calls here
  have claims : Claims ({ t.client with numbering } :
    Client).records jobs := claims
  refine ⟨⟨_, ?_, claims.advance there record step 0⟩, ?_, ?_⟩
  · show (jobs.set j (job.next 0 s')).map Job.call = _
    rw [List.map_set, calls]
    rfl
  · intro id k known
    obtain ⟨m₀, before, same⟩ := sound.filed id k (step.known known)
    by_cases own : k = job.call.handle
    · subst own
      obtain rfl := Option.some.inj (before.symm.trans record)
      exact ⟨m', record', move.id.trans same⟩
    · exact ⟨m₀, (step.frame own).trans before, same⟩
  · intro i x other claim m₁ found seq number
    change (t.calls.set j _)[i]? = some x at other
    obtain ⟨-, rfl⟩ | ⟨ne, other⟩ := getElem?_set_cases other
    · exact step.owes record found claim number fun claim number =>
        sound.owes j job.call here claim m record seq number
    · by_cases own : x.handle = job.call.handle
      · rw [own] at found
        obtain rfl := Option.some.inj (record'.symm.trans found)
        have before := sound.owes i x other claim m (own ▸ record) seq number
        have free : job.call.stage.claim ≠ .lock := fun locked =>
          ne (sound.alone here other (by rw [locked]; decide) (claim.trans locked.symm) own)
        unfold Membership.Owes at before ⊢
        rw [move.exchange free]
        exact before
      · change c.records[x.handle]? = some m₁ at found
        rw [step.frame own] at found
        exact sound.owes i x other claim m₁ found seq number

theorem take (sound : t.Sound) (d : Delivery) (s : Intake)
    (intake : Option (Delivery × Intake)) :
    Sound ⟨(s.step t.client d).1, t.calls, t.closing, intake⟩ := by
  have step := s.step_cases t.client d
  refine sound.kept step.kept t.closing intake fun k m record => ?_
  obtain ⟨m₀, before, rfl | ⟨id, tidings, -, -, -, -, rfl⟩⟩ := step.record record
  · exact ⟨m, before, fun seq owes => owes⟩
  · exact ⟨m₀, before, fun seq owes => owes.heed _ _ _⟩

theorem close {c : Client} {left : Shutdown} (sound : t.Sound) (s : Shutdown)
    (run : s.step t.client = (c, left)) : Sound ⟨c, t.calls, some left, t.intake⟩ := by
  obtain rfl : (s.step t.client).1 = c := congrArg Prod.fst run
  refine sound.kept (t.client.shutdown_kept s) (some left) t.intake fun k m record => ?_
  rcases t.client.shutdown_cases s with ⟨h, rest, -, eq⟩ | ⟨records, -⟩
  · rw [eq, Client.update_records] at record
    split at record
    · obtain ⟨m₀, before, rfl⟩ := Option.map_eq_some_iff.mp record
      exact ⟨m₀, before, fun seq owes => .inr owes.connectionLost⟩
    · exact ⟨m, record, fun seq owes => owes⟩
  · exact ⟨m, records ▸ record, fun seq owes => owes⟩

theorem turn {now : Nat} {a : Action} {t' : Threads} (sound : t.Sound) (turn : Turn t now a t') :
    t'.Sound := by
  cases turn with
  | aside records groups calls => exact sound.aside records groups calls
  | ask run => exact sound.ask run
  | advance here run => exact sound.advance here run
  | take _ _ => exact sound.take _ _ _
  | close run => exact sound.close _ run

end Sound

theorem History.sound {id : NodeId} {config : ClientConfig} {numbering : Numbering}
    {past : List Episode} {t : Threads} (h : History (.create id config numbering) past t) :
    t.Sound := by
  induction h with
  | start => exact .create id config numbering
  | act now a run ih => exact ih.turn (act_turn _ now a)

end Threads
end Muster
