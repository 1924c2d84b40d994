import Mathlib.Logic.Function.Iterate
import Muster.Proofs.Client.SyncCall
import Muster.Proofs.Threads.Sound

/-! How the end of the connection ends the calls. No request goes out any more before the first
group is told, so each request that went out is one that its group's record knew when the record
was told. -/
namespace Muster

namespace Shutdown

def dropped : Shutdown → Bool
  | stopRunning | dropLink => false
  | loseRegistration | listGroups | loseGroups _ | finished => true

def unregistered : Shutdown → Bool
  | stopRunning | dropLink | loseRegistration => false
  | listGroups | loseGroups _ | finished => true

/-- The groups that are still to be told, once they are listed. -/
def left? : Shutdown → Option (List Handle)
  | stopRunning | dropLink | loseRegistration | listGroups => none
  | loseGroups handles => some handles
  | finished => some []

theorem dropped_of_left {s : Shutdown} {left : List Handle} (listed : s.left? = some left) :
    s.dropped = true := by
  cases s with
  | stopRunning | dropLink | loseRegistration | listGroups => exact nomatch listed
  | loseGroups handles | finished => rfl

end Shutdown

namespace Client

theorem loseGroups_steps (handles : List Handle) (c : Client) :
    (fun x : Client × Shutdown => x.2.step x.1)^[handles.length + 1] (c, .loseGroups handles) =
      (handles.foldl (fun c h => c.update h Membership.connectionLost) c, .finished) := by
  induction handles generalizing c with
  | nil => rfl
  | cons h rest ih => exact ih (c.update h Membership.connectionLost)

/-- With nothing in between, the steps are the whole of it. -/
theorem shutdown_steps (c : Client) :
    (fun x : Client × Shutdown => x.2.step x.1)^[c.groups.values.length + 5] (c, .stopRunning) =
      (c.shutdown, .finished) := by
  let down : Client := { c with running := false, link := none }.loseRegistration
  have groups : down.groups = c.groups := loseRegistration_groups _
  have lost := loseGroups_steps down.groups.values down
  rw [← groups]
  -- The first four steps come to `down`.
  exact lost

theorem loseRegistration_standing (c : Client) : c.loseRegistration.standing ≠ .pending := by
  unfold loseRegistration
  split
  · exact nofun
  · rename_i other
    exact other

end Client

namespace Membership
variable {m : Membership}

/-- Whoever waits at a sync point can be told how the wait ended. -/
def Decided (m : Membership) : Prop := ∀ w, m.wait = some w → w.outcome ≠ none

theorem decided_of_lost (m : Membership) : m.connectionLost.Decided := by
  intro w wait
  obtain ⟨w₀, -, rfl⟩ := Option.map_eq_some_iff.mp wait
  unfold SyncWait.endWith
  split
  · exact nofun
  · rename_i ended
    exact fun none => ended (by rw [none]; rfl)

end Membership

namespace Call
variable {c c' : Client} {h : Handle} {m m' : Membership} {s s' : CallStage}

theorem CallStep.unsent_of_link (step : CallStep c h m s c' s') (closed : c.link = none)
    (seq : Int32) : s'.errand ≠ .awaiting seq := by
  have other {e : Errand} (eq : s'.errand = e) (ne : e ≠ .awaiting seq) :
      s'.errand ≠ .awaiting seq := eq ▸ ne
  cases step with
  | sent _ _ _ run =>
    unfold Client.send at run
    rw [closed] at run
    exact nomatch run
  | look _ _ idle' | enter _ _ _ idle' | exit _ _ _ idle' | forget _ _ _ idle'
  | beginWait _ _ _ idle' => exact other idle' nofun
  | draft _ _ errand' | unsent _ _ errand' | abandon _ _ _ errand' | giveUp _ _ _ errand'
  | finish _ _ _ errand' | stopWait _ _ _ errand' | endWait _ _ _ errand'
  | record _ _ _ errand' | markWait _ _ _ errand' => exact other errand' nofun
  | cancel _ _ errand' =>
    refine other errand' ?_
    split <;> exact nofun

/-- Nobody begins to wait at a sync point of a group that is not joined. -/
theorem advance_decided {now : Nat} {created : Bool}
    (step : advance c now h created m s = some (c', s')) (move : Moved m s m' s')
    (unjoined : m.members = none) (decided : m.Decided) : m'.Decided := by
  cases move with
  | same | enter | record | abandon | take | exit => exact decided
  | beginWait claim claim' =>
    obtain ⟨point, timeout, rfl⟩ := advance_begin step claim claim'
    have left : m.isJoined = false := by
      unfold Membership.isJoined
      rw [unjoined]
      rfl
    simp only [advance, left, Bool.not_false, if_true] at step
    obtain ⟨-, rfl⟩ := Prod.mk.inj (Option.some.inj step)
    contradiction
  | markWait =>
    intro w wait
    obtain ⟨w₀, before, rfl⟩ := Option.map_eq_some_iff.mp wait
    exact decided w₀ before
  | endWait =>
    intro w wait
    contradiction

/-- A call that waits goes on when it has a reply, when its wait at a sync point has an outcome, or
when it counts the members of a group that is not joined. -/
theorem isSome_step {call : Call} {now : Nat} (record : c.records[call.handle]? = some m)
    (waits : call.deadline? ≠ none) (unjoined : m.members = none)
    (replied : call.stage.claim = .lock → ∀ seq, call.stage.errand = .awaiting seq →
      ∃ reply, m.exchange = .answered reply)
    (ended : call.stage.claim = .wait → ∃ outcome, m.wait.bind SyncWait.outcome = some outcome) :
    (call.step c now).isSome := by
  obtain ⟨h, created, s⟩ := call
  have goes (next : (advance c now h created m s).isSome) :
      (step c now ⟨h, created, s⟩).isSome := by
    obtain ⟨x, next⟩ := Option.isSome_iff_exists.mp next
    have record : c.records[h]? = some m := record
    simp [step, record, next]
  have taken (replied : ∃ reply, m.exchange = .answered reply) (seq : Int32) :
      ∃ reply left, m.takeReply seq = (some reply, left) := by
    obtain ⟨reply, answered⟩ := replied
    unfold Membership.takeReply
    rw [answered]
    exact ⟨reply, _, rfl⟩
  cases s with
  | awaitLeave goal seq deadline =>
    obtain ⟨reply, left, taken⟩ := taken (replied rfl seq rfl) seq
    refine goes ?_
    rw [advance, taken]
    rfl
  | awaitJoin seq deadline =>
    obtain ⟨reply, left, taken⟩ := taken (replied rfl seq rfl) seq
    refine goes ?_
    rw [advance, taken]
    rfl
  | awaitMembers count deadline =>
    refine goes ?_
    rw [advance, CallStage.countMembers, unjoined]
    rfl
  | awaitSync seq deadline =>
    obtain ⟨outcome, ended⟩ := ended rfl
    refine goes ?_
    rw [advance, ended]
    rfl
  | _ => exact absurd rfl waits

end Call

namespace Threads

/-- The calls on a record that the end of the connection was told to. -/
structure Told (calls : List Call) (k : Handle) (m : Membership) : Prop where
  unjoined : m.members = none
  decided : m.Decided
  replied (j : Nat) (call : Call) (here : calls[j]? = some call) (own : call.handle = k)
    (claim : call.stage.claim = .lock) (seq : Int32) (waits : call.stage.errand = .awaiting seq) :
    ∃ reply, m.exchange = .answered reply

/-- How far the end of the connection has come. -/
structure Ending (t : Threads) (s : Shutdown) : Prop where
  link (dropped : s.dropped = true) : t.client.link = none
  standing (unregistered : s.unregistered = true) : t.client.standing ≠ .pending
  told (left : List Handle) (listed : s.left? = some left) (id : NodeId) (k : Handle)
    (known : t.client.groups[id]? = some k) (m : Membership)
    (record : t.client.records[k]? = some m) : k ∈ left ∨ Told t.calls k m

namespace Ending
variable {t t' : Threads} {s : Shutdown} {now : Nat}

theorem create (id : NodeId) (config : ClientConfig) (numbering : Numbering) :
    (create id config numbering).Ending .finished where
  link _ := rfl
  standing _ := nofun
  told _ _ id _ known := nomatch (Std.ExtTreeMap.getElem?_empty (a := id)).symm.trans known

theorem aside (ending : t.Ending s) (records : t'.client.records = t.client.records)
    (groups : t'.client.groups = t.client.groups) (calls : t'.calls = t.calls)
    (link : t'.client.link = t.client.link)
    (standing : t'.client.standing = .pending → t.client.standing = .pending) : t'.Ending s where
  link dropped := link.trans (ending.link dropped)
  standing unregistered pending := ending.standing unregistered (standing pending)
  told left listed id k known m record := by
    rw [calls]
    exact ending.told left listed id k (groups ▸ known) m (records ▸ record)

theorem ask {c : Client} {a : Ask} {call : Call} (ending : t.Ending s) (sound : t.Sound)
    (run : a.call? t.client now = some (c, call)) :
    Ending ⟨c, t.calls ++ [call], t.closing, t.intake⟩ s := by
  obtain ⟨free, idle, cases⟩ := Ask.call?_cases run
  have begun {j : Nat} {x : Call} (here : (t.calls ++ [call])[j]? = some x)
      (claim : x.stage.claim = .lock) : t.calls[j]? = some x := by
    rcases getElem?_append_cases here with here | rfl
    · exact here
    · exact nomatch free.symm.trans claim
  have told {k : Handle} {m : Membership} (old : Told t.calls k m) :
      Told (t.calls ++ [call]) k m :=
    ⟨old.unjoined, old.decided, fun j x here own claim =>
      old.replied j x (begun here claim) own claim⟩
  rcases cases with ⟨rfl, -⟩ | ⟨id, token, fresh, rfl, handle⟩
  · refine ⟨ending.link, ending.standing, fun left listed id k known m record => ?_⟩
    exact (ending.told left listed id k known m record).imp_right told
  · refine ⟨ending.link, ending.standing, fun left listed name k known m record => ?_⟩
    rw [Client.addGroup_records] at record
    rw [Client.addGroup_groups] at known
    by_cases new : t.client.records.size = k
    · rw [if_pos new] at record
      obtain rfl := Option.some.inj record
      refine .inr ⟨rfl, nofun, fun j x here own claim => ?_⟩
      obtain ⟨m₀, before⟩ := sound.record (begun here claim)
      exact absurd (own.trans new.symm) (Nat.ne_of_lt (sound.lt before))
    · rw [if_neg new] at record
      split at known
      · exact absurd (Option.some.inj known) new
      · exact (ending.told left listed name k known m record).imp_right told

theorem advance {c : Client} {j : Nat} {numbering : Numbering} {call call' : Call}
    (ending : t.Ending s) (sound : t.Sound) (here : t.calls[j]? = some call)
    (run : call.step { t.client with numbering } now =
      some (c, call')) : Ending ⟨c, t.calls.set j call', t.closing, t.intake⟩ s := by
  obtain ⟨m₀, s', record₀, advanced, rfl⟩ := Call.step_advance run
  have step := Call.advance_callStep advanced
  refine ⟨fun dropped => step.link_none (ending.link dropped), fun unregistered => ?_, ?_⟩
  · rw [step.frame_standing.1]
    exact ending.standing unregistered
  · intro left listed id k known m record
    have known : t.client.groups[id]? = some k := step.known known
    have closed := ending.link (Shutdown.dropped_of_left listed)
    by_cases own : k = call.handle
    · subst own
      obtain ⟨m', record', move⟩ := step.moved record₀
      obtain rfl := Option.some.inj (record'.symm.trans record)
      refine (ending.told left listed id _ known m₀ record₀).imp_right fun old => ?_
      refine ⟨move.members.trans old.unjoined,
        Call.advance_decided advanced move old.unjoined old.decided, ?_⟩
      intro i x there own claim seq waits
      have there : (t.calls.set j _)[i]? = some x := there
      obtain ⟨-, rfl⟩ | ⟨ne, there⟩ := getElem?_set_cases there
      · exact absurd waits (step.unsent_of_link closed seq)
      · have free : call.stage.claim ≠ .lock := fun locked =>
          ne (sound.alone here there (by rw [locked]; decide) (claim.trans locked.symm) own)
        rw [move.exchange free]
        exact old.replied i x there own claim seq waits
    · have before : t.client.records[k]? = some m := (step.frame own).symm.trans record
      refine (ending.told left listed id k known m before).imp_right fun old => ?_
      refine ⟨old.unjoined, old.decided, fun i x there named => ?_⟩
      have there : (t.calls.set j _)[i]? = some x := there
      obtain ⟨-, rfl⟩ | ⟨-, there⟩ := getElem?_set_cases there
      · exact absurd named.symm own
      · exact old.replied i x there named

theorem close {c : Client} {left : Shutdown} (sound : t.Sound)
    (ending : s ≠ .stopRunning → t.Ending s) (run : s.step t.client = (c, left)) :
    Ending ⟨c, t.calls, some left, t.intake⟩ left := by
  cases s with
  | stopRunning =>
    obtain ⟨rfl, rfl⟩ := Prod.mk.inj run
    exact ⟨nofun, nofun, nofun⟩
  | dropLink =>
    obtain ⟨rfl, rfl⟩ := Prod.mk.inj run
    exact ⟨fun _ => rfl, nofun, nofun⟩
  | loseRegistration =>
    obtain ⟨rfl, rfl⟩ := Prod.mk.inj run
    refine ⟨fun _ => ?_, fun _ => t.client.loseRegistration_standing, nofun⟩
    rw [t.client.loseRegistration_link]
    exact (ending nofun).link rfl
  | listGroups =>
    obtain ⟨rfl, rfl⟩ := Prod.mk.inj run
    have ending := ending nofun
    refine ⟨fun _ => ending.link rfl, fun _ => ending.standing rfl, ?_⟩
    intro left listed id k known m record
    obtain rfl := Option.some.inj listed
    exact .inl (Table.mem_values.mpr ⟨id, known⟩)
  | loseGroups handles =>
    have ending := ending nofun
    cases handles with
    | nil =>
      obtain ⟨rfl, rfl⟩ := Prod.mk.inj run
      refine ⟨fun _ => ending.link rfl, fun _ => ending.standing rfl, ?_⟩
      intro left listed
      obtain rfl := Option.some.inj listed
      exact ending.told [] rfl
    | cons h rest =>
      obtain ⟨rfl, rfl⟩ := Prod.mk.inj run
      refine ⟨fun _ => ending.link rfl, fun _ => ending.standing rfl, ?_⟩
      intro left listed id k known m record
      obtain rfl := Option.some.inj listed
      rw [Client.update_records] at record
      split at record
      · rename_i own
        obtain ⟨m₀, before, rfl⟩ := Option.map_eq_some_iff.mp record
        refine .inr ⟨rfl, m₀.decided_of_lost, fun j call here named claim seq waits => ?_⟩
        have number : call.stage.errand.number? = some seq := by
          rw [waits]
          rfl
        subst named
        exact (sound.owes j call here claim m₀ before seq number).connectionLost
      · rename_i other
        refine (ending.told _ rfl id k known m record).imp_left fun mem => ?_
        exact (List.mem_cons.mp mem).resolve_left (Ne.symm other)
  | finished =>
    obtain ⟨rfl, rfl⟩ := Prod.mk.inj run
    exact (ending nofun).aside rfl rfl rfl rfl id

end Ending

section
variable {t t' : Threads} {s : Shutdown} {past : List Episode}

theorem Turn.ending {now : Nat} {a : Action} (turn : Turn t now a t') (sound : t.Sound)
    (ending : ∀ s, t.closing = some s → t.Ending s) (closing : t'.closing = some s) :
    t'.Ending s := by
  cases turn with
  | aside records groups calls _ down =>
    rcases down with up | ⟨same, rest⟩
    · exact nomatch up.symm.trans closing
    · rw [same] at closing
      obtain ⟨link, standing⟩ := rest (by rw [closing]; exact nofun)
      exact (ending s closing).aside records groups calls link standing
  | ask run => exact (ending s closing).ask sound run
  | advance here run => exact (ending s closing).advance sound here run
  | take up _ => exact nomatch up.symm.trans closing
  | close run =>
    obtain rfl := Option.some.inj closing
    refine .close sound (fun begun => ending _ ?_) run
    cases began : t.closing with
    | none =>
      rw [began] at begun
      exact absurd rfl begun
    | some s => rfl

theorem History.ending {id : NodeId} {config : ClientConfig} {numbering : Numbering}
    (h : History (.create id config numbering) past t) (closing : t.closing = some s) :
    t.Ending s := by
  induction h generalizing s with
  | start =>
    obtain rfl := Option.some.inj closing
    exact .create id config numbering
  | act now a run ih => exact (act_turn _ now a).ending run.sound (fun _ => ih) closing

end

structure Settled (t : Threads) : Prop where
  standing : t.client.standing ≠ .pending
  unjoined (id : NodeId) (m : Membership) (known : t.client.group? id = some m) :
    m.isJoined = false
  /-- Every wait at a sync point has an outcome. -/
  decided (id : NodeId) (m : Membership) (known : t.client.group? id = some m) (w : SyncWait)
    (wait : m.wait = some w) : ∃ outcome, w.outcome = some outcome
  /-- Who waits for the answer to a request to join or leave has a reply. -/
  replied (j : Nat) (call : Call) (here : t.calls[j]? = some call) (id : NodeId)
    (known : t.client.groups[id]? = some call.handle) (claim : call.stage.claim = .lock)
    (seq : Int32) (waits : call.stage.errand = .awaiting seq) :
    ∃ m reply, t.client.records[call.handle]? = some m ∧ m.exchange = .answered reply
  /-- A request that is still awaited was never sent. -/
  unsent (id : NodeId) (m : Membership) (known : t.client.group? id = some m) (seq : Int32)
    (awaiting : m.exchange = .awaiting seq) : ∃ (j : Nat) (call : Call),
      t.calls[j]? = some call ∧ t.client.groups[id]? = some call.handle ∧
        call.stage.claim = .lock ∧ call.stage.Unsent
  /-- Every call that waits can go on, whatever time is left. -/
  goes (j : Nat) (call : Call) (here : t.calls[j]? = some call) (id : NodeId)
    (known : t.client.groups[id]? = some call.handle) (waits : call.deadline? ≠ none) (now : Nat) :
    (call.step t.client now).isSome

theorem Ending.settled {t : Threads} (ending : t.Ending .finished) (sound : t.Sound) :
    t.Settled := by
  have told {id : NodeId} {k : Handle} {m : Membership} (known : t.client.groups[id]? = some k)
      (record : t.client.records[k]? = some m) : Told t.calls k m :=
    (ending.told [] rfl id k known m record).resolve_left List.not_mem_nil
  have found {id : NodeId} {m : Membership} (known : t.client.group? id = some m) :
      ∃ k, t.client.groups[id]? = some k ∧ t.client.records[k]? = some m :=
    Option.bind_eq_some_iff.mp known
  have unjoined {id : NodeId} {k : Handle} {m : Membership} (known : t.client.groups[id]? = some k)
      (record : t.client.records[k]? = some m) : m.isJoined = false := by
    unfold Membership.isJoined
    rw [(told known record).unjoined]
    rfl
  refine ⟨ending.standing rfl, ?_, ?_, ?_, ?_, ?_⟩
  · intro id m known
    obtain ⟨k, named, record⟩ := found known
    exact unjoined named record
  · intro id m known w wait
    obtain ⟨k, named, record⟩ := found known
    exact Option.ne_none_iff_exists'.mp ((told named record).decided w wait)
  · intro j call here id known claim seq waits
    obtain ⟨m, record⟩ := sound.record here
    obtain ⟨reply, answered⟩ := (told known record).replied j call here rfl claim seq waits
    exact ⟨m, reply, record, answered⟩
  · intro id m known seq awaiting
    obtain ⟨k, named, record⟩ := found known
    obtain ⟨j, call, here, rfl, claim, notes⟩ := sound.owner record awaiting
    refine ⟨j, call, here, named, claim, ?_⟩
    cases errand : call.stage.errand with
    | recorded p => exact .inr (.inl ⟨p, errand⟩)
    | ended => exact .inr (.inr ⟨claim, errand⟩)
    | awaiting n =>
      obtain ⟨reply, answered⟩ := (told named record).replied j call here rfl claim n errand
      exact nomatch awaiting.symm.trans answered
    | none | drafted _ | cancelling _ =>
      rw [errand] at notes
      exact nomatch notes
  · intro j call here id known waits now
    obtain ⟨m, record⟩ := sound.record here
    have told := told known record
    refine Call.isSome_step record waits told.unjoined (told.replied j call here rfl) ?_
    intro claim
    have held := sound.held here (by rw [claim]; decide) record
    rw [claim] at held
    obtain ⟨w, wait⟩ := Option.isSome_iff_exists.mp held
    obtain ⟨outcome, decided⟩ := Option.ne_none_iff_exists'.mp (told.decided w wait)
    refine ⟨outcome, ?_⟩
    rw [wait]
    exact decided

/-- Whatever callers and the network side do meanwhile: once the link is dropped nothing is sent
any more, and once the connection is taken down, and until the client is started again, nothing is
left without an end. -/
theorem History.connection_ends {id : NodeId} {config : ClientConfig} {numbering : Numbering}
    {past : List Episode} {t : Threads} (h : History (.create id config numbering) past t)
    {s : Shutdown} (closing : t.closing = some s) :
    (s.dropped = true → ∀ p, t.client.send p = (.error .notConnected, t.client)) ∧
      (s = .finished → t.Settled) := by
  have ending := h.ending closing
  constructor
  · intro dropped p
    unfold Client.send
    rw [ending.link dropped]
  · rintro rfl
    exact ending.settled h.sound

/-- A thread meets others at a sync point, another one leaves, and a third one joins another
group, while the connection is taken down between their steps. -/
theorem connection_ends_of_three :
    let seq : Int32 := Kind.firstSeq .joinRequest
    let ref : GroupRef := Directory.sampleRef
    let other : NodeId := ⟨"deck", by decide, by decide⟩
    let run := samplePlay (sampleStart ++ [sampleAsk] ++ sampleSteps 0 0 5 ++
      [(0, .receive ⟨.ofMessage seq ⟨.ofByte 9, .joinResponse ref .accepted⟩,
        some ⟨.ofByte 5, .joinRequest ref⟩⟩), (0, .take), (0, .take)] ++ sampleSteps 0 0 2 ++
      [(0, .ask (.waitSync 0 Directory.sampleTerms.point 0))] ++ sampleSteps 0 1 4 ++
      [(0, .ask (.leave 0))] ++ sampleSteps 0 2 5 ++
      [(0, .close), (0, .ask (.join other (.ofByte 7)))] ++ sampleSteps 0 3 4 ++
      [(0, .close), (0, .close), (0, .close)] ++ sampleSteps 0 3 1 ++
      [(0, .close), (0, .close), (0, .close)])
    run.2.closing = some .finished ∧
      run.2.calls.map (fun call => call.deadline?.isSome) = [false, true, true, false] ∧
      (∀ p, run.2.client.send p = (.error .notConnected, run.2.client)) ∧ run.2.Settled := by
  intro seq ref other run
  have history : History _ run.1 run.2 := History.play _ _
  have closing : run.2.closing = some .finished := by decide +kernel
  obtain ⟨unsent, settled⟩ := history.connection_ends closing
  exact ⟨closing, by decide +kernel, unsent rfl, settled rfl⟩

end Threads
end Muster
