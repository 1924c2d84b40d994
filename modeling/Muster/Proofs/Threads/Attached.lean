import Muster.Proofs.Threads.Sound

/-! Whether the record that the callers of a join share is the one that the client knows. It is,
until a first join that fails has the client forget the group while the record is still in use. -/
namespace Muster

theorem SyncWait.endWith_again (w : SyncWait) (outcome outcome' : SyncOutcome) :
    (w.endWith outcome).endWith outcome' = w.endWith outcome := by
  obtain ⟨point, seq, acknowledged, ended⟩ := w
  cases ended <;> rfl

theorem Ask.call?_join {c c' : Client} {now : Nat} {id : NodeId} {token : Token} {call : Call}
    (run : (Ask.join id token).call? c now = some (c', call)) :
    c.groups[id]? = some call.handle ∧ c' = c ∨
      c.groups[id]? = none ∧ c' = (c.addGroup id token).2 ∧ call.handle = c.records.size := by
  cases known : c.groups[id]? with
  | some k =>
    simp only [call?, Client.openGroup, known] at run
    obtain ⟨rfl, rfl⟩ := Prod.mk.inj (Option.some.inj run)
    exact .inl ⟨rfl, rfl⟩
  | none =>
    simp only [call?, Client.openGroup, known] at run
    obtain ⟨rfl, rfl⟩ := Prod.mk.inj (Option.some.inj run)
    exact .inr ⟨rfl, rfl, rfl⟩

namespace Call
open CallStage

theorem CallStep.groups {c c' : Client} {h : Handle} {m : Membership} {s s' : CallStage}
    (step : CallStep c h m s c' s') :
    c'.groups = c.groups ∨ s.claim = .none ∧ c' = c.forget h := by
  cases step with
  | sent _ _ _ run | unsent _ _ _ run =>
    have same := c.send_groups ‹Packet›
    rw [run] at same
    exact .inl same
  | forget claim => exact .inr ⟨claim, rfl⟩
  | look | enter | draft | record | abandon | giveUp | finish | cancel | exit | beginWait
  | markWait | stopWait | endWait => exact .inl rfl

/-- Only a first join that failed has the client forget a group, and then it is over. -/
theorem advance_groups {c c' : Client} {now : Nat} {h : Handle} {created : Bool} {m : Membership}
    {s s' : CallStage} (step : advance c now h created m s = some (c', s')) :
    c'.groups = c.groups ∨
      ∃ e, s = .forget e ∧ c' = c.forget h ∧ s' = .done (.joined (.error e)) := by
  rcases (advance_callStep step).groups with same | ⟨free, -⟩
  · exact .inl same
  · cases s <;> simp only [CallStage.claim, reduceCtorEq] at free
    case forget e =>
      obtain ⟨rfl, rfl⟩ := Prod.mk.inj (Option.some.inj step)
      exact .inr ⟨e, rfl, rfl, rfl⟩
    case enter goal =>
      simp only [advance] at step
      split at step
      · contradiction
      · cases goal <;>
        · obtain ⟨rfl, -⟩ := Prod.mk.inj (Option.some.inj step)
          exact .inl rfl
    case lookForget e =>
      obtain ⟨rfl, -⟩ := Prod.mk.inj (Option.some.inj step)
      exact .inl rfl
    case lookMembers count deadline =>
      simp only [advance] at step
      split at step
      · split at step <;>
        · obtain ⟨rfl, -⟩ := Prod.mk.inj (Option.some.inj step)
          exact .inl rfl
      · obtain ⟨rfl, -⟩ := Prod.mk.inj (Option.some.inj step)
        exact .inl rfl
    case awaitMembers count deadline =>
      obtain ⟨result, -, done⟩ := Option.map_eq_some_iff.mp step
      obtain ⟨rfl, -⟩ := Prod.mk.inj done
      exact .inl rfl
    case enterSync point timeout =>
      simp only [advance] at step
      split at step
      · obtain ⟨rfl, -⟩ := Prod.mk.inj (Option.some.inj step)
        exact .inl rfl
      · split at step <;>
        · obtain ⟨rfl, -⟩ := Prod.mk.inj (Option.some.inj step)
          exact .inl rfl
    case done outcome => cases step

theorem unfinished {call : Call} (going : ∀ outcome, call.stage ≠ .done outcome) :
    call.outcome? = none := by
  unfold outcome?
  split
  · rename_i ended
    exact absurd ended (going _)
  · rfl

end Call

namespace Client
variable {c : Client} {k : Handle} {m : Membership}

theorem forget_groups_of_ne {h : Handle} {id : NodeId} (known : c.groups[id]? = some k)
    (ne : k ≠ h) : (c.forget h).groups[id]? = some k := by
  unfold forget
  split
  · split
    · rename_i here
      show (c.groups.erase _)[id]? = some k
      rw [Table.getElem?_erase, if_neg]
      · exact known
      · rintro rfl
        exact ne (Option.some.inj (known.symm.trans here))
    · exact known
  · exact known

theorem connectionLost_again (m : Membership) :
    m.connectionLost.connectionLost = m.connectionLost := by
  have wait : (m.wait.map fun w => w.endWith .left).map (fun w => w.endWith .left) =
      m.wait.map fun w => w.endWith .left := by
    rw [Option.map_map]
    exact congrArg m.wait.map (funext fun w => w.endWith_again .left .left)
  unfold Membership.connectionLost Membership.lose
  cases m.exchange with
  | awaiting n | idle | answered reply => exact congrArg (Membership.mk _ _ _ none · _) wait

theorem lostAll_record (ks : List Handle) (c : Client) (k : Handle) :
    (ks.foldl (fun c h => c.update h Membership.connectionLost) c).records[k]? =
      c.records[k]?.map fun m => if k ∈ ks then m.connectionLost else m := by
  induction ks generalizing c with
  | nil => simp
  | cons h ks ih =>
    rw [List.foldl_cons, ih, update_records]
    by_cases own : h = k
    · rw [if_pos own, Option.map_map]
      congr 1
      funext m
      simp [own, connectionLost_again]
    · rw [if_neg own]
      simp [Ne.symm own]

theorem shutdown_record (c : Client) (k : Handle) : c.shutdown.records[k]? =
    c.records[k]?.map fun m => if k ∈ c.groups.values then m.connectionLost else m := by
  unfold shutdown
  rw [lostAll_record, loseRegistration_records, loseRegistration_groups]

/-- What is heard of the record's group reaches the record, and so does the loss of the
connection. -/
structure Reaches (c : Client) (k : Handle) (m : Membership) : Prop where
  known : c.groups[m.id]? = some k
  heard (d : Delivery) (t : Tidings) (about : d.tidings? = some (m.id, t)) :
    (c.receive d).records[k]? = some (m.hear c.id d.packet.seq t)
  lost : c.shutdown.records[k]? = some m.connectionLost

/-- Nothing reaches the record. -/
structure Misses (c : Client) (k : Handle) (m : Membership) : Prop where
  unknown (id : NodeId) : c.groups[id]? ≠ some k
  heard (d : Delivery) : (c.receive d).records[k]? = some m
  lost : c.shutdown.records[k]? = some m

theorem reaches_of_known (record : c.records[k]? = some m) (known : c.groups[m.id]? = some k) :
    c.Reaches k m where
  known := known
  heard d t about := by
    rw [receive_of_tidings about, updateGroup_records, if_pos known, record]
    rfl
  lost := by
    rw [shutdown_record, record, Option.map_some, if_pos (Table.mem_values.mpr ⟨m.id, known⟩)]

theorem misses_of_unknown (record : c.records[k]? = some m)
    (unknown : ∀ id : NodeId, c.groups[id]? ≠ some k) : c.Misses k m where
  unknown := unknown
  heard d := by
    obtain ⟨m', record', -⟩ := (c.receive_kept d).forth record
    obtain ⟨m₀, before, same | ⟨id, tidings, -, known, -⟩⟩ := receive_record record'
    · rw [record', same, ← before, record]
    · exact absurd known (unknown id)
  lost := by
    rw [shutdown_record, record, Option.map_some, if_neg]
    intro listed
    obtain ⟨id, known⟩ := Table.mem_values.mp listed
    exact unknown id known

end Client
namespace Threads

/-- A call on the record is not over. -/
def Uses (t : Threads) (i : Nat) (k : Handle) : Prop :=
  ∃ call, t.calls[i]? = some call ∧ call.handle = k ∧ call.outcome? = none

/-- The record is joined, a request of it is awaited, or a call on it is not over. -/
def Active (t : Threads) (k : Handle) (m : Membership) : Prop :=
  m.isJoined = true ∨ (∃ seq, m.exchange = .awaiting seq) ∨ ∃ i, t.Uses i k

/-- A first join that failed has the client forget the group, while its record is joined, or
another call uses it, or the network side is about to change it. -/
inductive Episode.Detaches : Episode → Handle → Prop where
  | forget {now j : Nat} {numbering : Numbering} {before after : Threads} {call : Call} {e : JoinError}
      {m : Membership} (here : before.calls[j]? = some call) (failed : call.stage = .forget e)
      (record : before.client.records[call.handle]? = some m)
      (known : before.client.groups[m.id]? = some call.handle)
      (used : m.isJoined = true ∨ (∃ i, i ≠ j ∧ before.Uses i call.handle) ∨
        before.Holds call.handle) :
      Detaches ⟨now, .advance j numbering, before, after⟩ call.handle

/-- Whether a caller that asks for something asks to join. -/
def Action.joins : Action → Bool
  | .ask (.join _ _) => true
  | .ask (.rejoin _) | .ask (.leave _) | .ask (.waitMembers ..) | .ask (.waitSync ..) => false
  | .advance .. | .start | .look _ | .halt | .connect _ | .refuse _ | .register _ | .exchange _
  | .receive _ | .take | .close => true

theorem Action.joins_ask {ask : Ask} (joins : (Action.ask ask).joins = true) :
    ∃ id token, ask = .join id token := by
  cases ask with
  | join id token => exact ⟨id, token, rfl⟩
  | rejoin | leave | waitMembers | waitSync => exact nomatch joins

namespace Turn
variable {t t' : Threads} {now : Nat} {a : Action} {k : Handle} {m : Membership}

theorem record (turn : Turn t now a t') (sound : t.Sound)
    (record : t.client.records[k]? = some m) :
    ∃ m', t'.client.records[k]? = some m' ∧ m'.id = m.id := by
  cases turn with
  | aside records => exact ⟨m, records ▸ record, rfl⟩
  | ask run =>
    obtain ⟨-, -, ⟨rfl, -⟩ | ⟨id, token, -, rfl, -⟩⟩ := Ask.call?_cases run
    · exact ⟨m, record, rfl⟩
    · refine ⟨m, ?_, rfl⟩
      rw [Client.addGroup_records, if_neg (Nat.ne_of_lt (sound.lt record)).symm]
      exact record
  | @advance j numbering call call' client here run =>
    obtain ⟨m₀, s', record₀, advanced, -⟩ := Call.step_advance run
    have step := Call.advance_callStep advanced
    by_cases own : k = call.handle
    · subst own
      obtain rfl := Option.some.inj (record₀.symm.trans record)
      obtain ⟨m', record', move⟩ := step.moved record₀
      exact ⟨m', record', move.id⟩
    · exact ⟨m, (step.frame own).trans record, rfl⟩
  | @take d s _ _ =>
    obtain ⟨m', record', kept⟩ := (s.step_cases t.client d).kept.forth record
    exact ⟨m', record', kept.id⟩
  | close run =>
    obtain rfl := congrArg Prod.fst run
    obtain ⟨m', record', kept⟩ := (t.client.shutdown_kept _).forth record
    exact ⟨m', record', kept.id⟩

theorem known (turn : Turn t now a t') (sound : t.Sound) (record : t.client.records[k]? = some m)
    {id : NodeId} (known : t'.client.groups[id]? = some k) : t.client.groups[id]? = some k := by
  cases turn with
  | aside _ groups => exact groups ▸ known
  | ask run =>
    obtain ⟨-, -, ⟨rfl, -⟩ | ⟨id', token, -, rfl, -⟩⟩ := Ask.call?_cases run
    · exact known
    · rw [Client.addGroup_groups] at known
      split at known
      · exact absurd (Option.some.inj known) (Nat.ne_of_lt (sound.lt record)).symm
      · exact known
  | advance here run =>
    obtain ⟨m₀, s', record₀, advanced, -⟩ := Call.step_advance run
    exact (Call.advance_callStep advanced).known known
  | @take d s _ _ =>
    rw [show (s.step t.client d).1.groups = t.client.groups from
      (s.step_cases t.client d).kept.groups] at known
    exact known
  | close run =>
    obtain rfl := congrArg Prod.fst run
    rw [(t.client.shutdown_kept _).groups] at known
    exact known

end Turn

section
variable {t t' : Threads} {now : Nat} {a : Action} {k : Handle} {m : Membership}
  {past : List Episode}

/-- The record is known by its name, or it was cut off, or nobody is concerned with it. -/
def Attached (past : List Episode) (t : Threads) (k : Handle) (m : Membership) : Prop :=
  t.client.groups[m.id]? = some k ∨ (∃ e ∈ past, e.Detaches k) ∨
    m.isJoined = false ∧ (∀ i, ¬ t.Uses i k) ∧ ¬ t.Holds k

theorem Uses.of_ask {c : Client} {call : Call} {closing : Option Shutdown}
    {intake : Option (Delivery × Intake)} {i : Nat}
    (uses : Uses ⟨c, t.calls ++ [call], closing, intake⟩ i k) (ne : k ≠ call.handle) : t.Uses i k := by
  obtain ⟨x, here, handle, unfinished⟩ := uses
  have here : (t.calls ++ [call])[i]? = some x := here
  rcases getElem?_append_cases here with here | rfl
  · exact ⟨x, here, handle, unfinished⟩
  · exact absurd handle.symm ne

theorem Uses.of_advance {c : Client} {call' : Call} {closing : Option Shutdown}
    {intake : Option (Delivery × Intake)} {i j : Nat}
    (uses : Uses ⟨c, t.calls.set j call', closing, intake⟩ i k) :
    call'.handle = k ∧ call'.outcome? = none ∨ i ≠ j ∧ t.Uses i k := by
  obtain ⟨x, there, handle, unfinished⟩ := uses
  have there : (t.calls.set j call')[i]? = some x := there
  obtain ⟨-, rfl⟩ | ⟨ne, there⟩ := getElem?_set_cases there
  · exact .inl ⟨handle, unfinished⟩
  · exact .inr ⟨ne, x, there, handle, unfinished⟩

/-- What does not take the record out of the table, join it, or use it anew. -/
theorem Attached.imp {m₀ : Membership} {e : Episode} (attached : Attached past t k m₀)
    (id : m.id = m₀.id)
    (known : t.client.groups[m₀.id]? = some k → t'.client.groups[m₀.id]? = some k)
    (unjoined : m₀.isJoined = false → m.isJoined = false)
    (uses : ∀ i, t'.Uses i k → t.Uses i k) (holds : t'.Holds k → t.Holds k) :
    Attached (e :: past) t' k m := by
  rcases attached with before | ⟨e', mem, cut⟩ | ⟨quiet, unused, free⟩
  · refine .inl ?_
    rw [id]
    exact known before
  · exact .inr (.inl ⟨e', .tail _ mem, cut⟩)
  · exact .inr (.inr ⟨unjoined quiet, fun i used => unused i (uses i used), free ∘ holds⟩)

theorem Attached.aside {m₀ : Membership} {e : Episode} (attached : Attached past t k m₀)
    (groups : t'.client.groups = t.client.groups) (calls : t'.calls = t.calls)
    (holds : t'.Holds k → t.Holds k) (id : m.id = m₀.id)
    (unjoined : m₀.isJoined = false → m.isJoined = false) : Attached (e :: past) t' k m := by
  refine attached.imp id (fun known => ?_) unjoined
    (fun i ⟨call, here, uses⟩ => ⟨call, ?_, uses⟩) holds
  · rw [groups]
    exact known
  · rw [← calls]
    exact here

theorem Attached.ask {e : Episode} {c : Client} {call : Call} {name : NodeId} {token : Token}
    (sound : t.Sound)
    (attached : ∀ k m, t.client.records[k]? = some m → Attached past t k m)
    (run : (Ask.join name token).call? t.client now = some (c, call))
    (record : c.records[k]? = some m) :
    Attached (e :: past) ⟨c, t.calls ++ [call], t.closing, t.intake⟩ k m := by
  rcases Ask.call?_join run with ⟨known, rfl⟩ | ⟨unknown, rfl, handle⟩
  · by_cases own : k = call.handle
    · obtain ⟨m₀, before, rfl⟩ := sound.filed name call.handle known
      subst own
      obtain rfl := Option.some.inj (before.symm.trans record)
      exact .inl known
    · exact (attached k m record).imp rfl id id (fun i uses => uses.of_ask own) id
  · rw [Client.addGroup_records] at record
    split at record
    · rename_i new
      obtain rfl := Option.some.inj record
      exact .inl ((t.client.addGroup_groups ..).trans ((if_pos rfl).trans (congrArg some new)))
    · rename_i old
      refine (attached k m record).imp rfl (fun known => ?_) id
        (fun i uses => uses.of_ask (handle ▸ Ne.symm old)) id
      rw [Client.addGroup_groups, if_neg]
      · exact known
      · rintro rfl
        exact nomatch unknown.symm.trans known

theorem Attached.advance {c : Client} {numbering : Numbering} {j : Nat} {call call' : Call}
    (attached : ∀ k m, t.client.records[k]? = some m → Attached past t k m)
    (here : t.calls[j]? = some call)
    (run : call.step { t.client with numbering } now =
      some (c, call')) (record : c.records[k]? = some m) :
    Attached
      (⟨now, .advance j numbering, t, ⟨c, t.calls.set j call', t.closing, t.intake⟩⟩ :: past)
      ⟨c, t.calls.set j call', t.closing, t.intake⟩ k m := by
  obtain ⟨m₀, s', record₀, advanced, rfl⟩ := Call.step_advance run
  have step := Call.advance_callStep advanced
  have user : t.Uses j call.handle := by
    refine ⟨call, here, rfl, Call.unfinished fun outcome ended => ?_⟩
    rw [ended] at advanced
    exact nomatch advanced
  by_cases own : k = call.handle
  · subst own
    obtain ⟨m', record', move⟩ := step.moved record₀
    obtain rfl := Option.some.inj (record'.symm.trans record)
    rcases attached call.handle m₀ record₀ with known | ⟨e', mem, cut⟩ | ⟨-, unused, -⟩
    · rcases Call.advance_groups advanced with same | ⟨e, failed, rfl, rfl⟩
      · refine .inl ?_
        show c.groups[m'.id]? = _
        rw [same, move.id]
        exact known
      · have same : m' = m₀ := by
          rw [Client.forget_records] at record
          exact Option.some.inj (record.symm.trans record₀)
        by_cases used : m'.isJoined = true ∨ (∃ i, i ≠ j ∧ t.Uses i call.handle) ∨
            t.Holds call.handle
        · rw [same] at used
          exact .inr (.inl ⟨_, .head _, .forget here failed record₀ known used⟩)
        · have unjoined : m'.isJoined = false := Bool.eq_false_iff.mpr fun joined =>
            used (.inl joined)
          refine .inr (.inr ⟨unjoined, fun i uses => ?_, fun holds => used (.inr (.inr holds))⟩)
          rcases uses.of_advance with ⟨-, unfinished⟩ | ⟨other, uses⟩
          · exact nomatch unfinished
          · exact used (.inr (.inl ⟨i, other, uses⟩))
    · exact .inr (.inl ⟨e', .tail _ mem, cut⟩)
    · exact absurd user (unused j)
  · have before : t.client.records[k]? = some m := (step.frame own).symm.trans record
    refine (attached k m before).imp rfl (fun known => ?_) id (fun i uses => ?_) id
    · show c.groups[m.id]? = _
      rcases Call.advance_groups advanced with same | ⟨e, -, rfl, -⟩
      · rw [same]
        exact known
      · exact Client.forget_groups_of_ne known own
    · rcases uses.of_advance with ⟨handle, -⟩ | ⟨-, uses⟩
      · exact absurd handle.symm own
      · exact uses

/-- What the network side may change is a record that it finds in the table, or one that it has
found before. -/
theorem Attached.take {e : Episode} {d : Delivery} {s : Intake} (sound : t.Sound)
    (attached : ∀ k m, t.client.records[k]? = some m → Attached past t k m)
    (turned : t.intake = some (d, s)) (record : (s.step t.client d).1.records[k]? = some m) :
    Attached (e :: past) ⟨(s.step t.client d).1, t.calls, t.closing,
      (s.step t.client d).2.map fun s => (d, s)⟩ k m := by
  have step := s.step_cases t.client d
  obtain ⟨m₀, before, change⟩ := step.record record
  have kept : m.id = m₀.id ∧ (¬ t.Holds k → m.isJoined = m₀.isJoined) := by
    obtain rfl | ⟨id, tidings, -, handle, -, -, rfl⟩ := change
    · exact ⟨rfl, fun _ => rfl⟩
    · exact ⟨m₀.heed_kept.id, fun free => absurd ⟨(d, s), turned, handle⟩ free⟩
  have known (name : t.client.groups[m₀.id]? = some k) :
      (s.step t.client d).1.groups[m.id]? = some k := by
    rw [step.kept.groups, kept.1]
    exact name
  rcases attached k m₀ before with name | ⟨e', mem, cut⟩ | ⟨unjoined, unused, free⟩
  · exact .inl (known name)
  · exact .inr (.inl ⟨e', .tail _ mem, cut⟩)
  · by_cases new : ∃ id : NodeId, t.client.groups[id]? = some k
    · obtain ⟨id, name⟩ := new
      obtain ⟨m₁, before', rfl⟩ := sound.filed id k name
      obtain rfl := Option.some.inj (before.symm.trans before')
      exact .inl (known name)
    · refine .inr (.inr ⟨(kept.2 free).trans unjoined, unused, ?_⟩)
      rintro ⟨x, mem, handle⟩
      obtain ⟨next, left, rfl⟩ := Option.map_eq_some_iff.mp mem
      rw [left] at step
      rcases step.handle handle with held | ⟨id, tidings, -, found⟩
      · exact free ⟨(d, s), turned, held⟩
      · exact new ⟨id, found⟩

theorem Turn.attached (turn : Turn t now a t') (sound : t.Sound)
    (joins : a.joins = true)
    (attached : ∀ k m, t.client.records[k]? = some m → Attached past t k m)
    (record : t'.client.records[k]? = some m) : Attached (⟨now, a, t, t'⟩ :: past) t' k m := by
  cases turn with
  | aside records groups calls holds =>
    exact (attached k m (records ▸ record)).aside groups calls (holds k) rfl id
  | ask run =>
    obtain ⟨id, token, rfl⟩ := Action.joins_ask joins
    exact .ask sound attached run record
  | advance here run => exact .advance attached here run record
  | take _ turned => exact .take sound attached turned record
  | close run =>
    obtain rfl := congrArg Prod.fst run
    have groups := (t.client.shutdown_kept (t.closing.getD .stopRunning)).groups
    rcases t.client.shutdown_cases (t.closing.getD .stopRunning) with
      ⟨h, rest, -, eq⟩ | ⟨records, -⟩
    · rw [eq, Client.update_records] at record
      split at record
      · obtain ⟨m₀, before, rfl⟩ := Option.map_eq_some_iff.mp record
        exact (attached k m₀ before).aside groups rfl id rfl fun _ => rfl
      · exact (attached k m record).aside groups rfl id rfl id
    · exact (attached k m (records ▸ record)).aside groups rfl id rfl id

theorem Episode.Detaches.unknown (cut : Episode.Detaches ⟨now, a, t, t.act now a⟩ k)
    (sound : t.Sound) (id : NodeId) : (t.act now a).client.groups[id]? ≠ some k := by
  cases cut with
  | @forget _ j numbering _ _ call e m here failed record known used =>
    have groups : (t.act now (.advance j numbering)).client.groups = t.client.groups.erase m.id := by
      simp [act, here, Call.step, record, failed, Call.advance, Client.forget, known]
    rw [groups, Table.getElem?_erase]
    split
    · exact (Option.some_ne_none _).symm
    · rename_i other
      intro named
      obtain ⟨m', record', same⟩ := sound.filed id call.handle named
      obtain rfl := Option.some.inj (record'.symm.trans record)
      exact other same

theorem History.unknown {id : NodeId} {config : ClientConfig} {numbering : Numbering}
    (h : History (.create id config numbering) past t) (cut : ∃ e ∈ past, e.Detaches k) :
    (∃ m, t.client.records[k]? = some m) ∧ ∀ id : NodeId, t.client.groups[id]? ≠ some k := by
  induction h with
  | start =>
    obtain ⟨e, mem, -⟩ := cut
    exact nomatch mem
  | @act past t now a run ih =>
    have turn := act_turn t now a
    have sound := run.sound
    obtain ⟨e, mem, cut⟩ := cut
    rcases List.mem_cons.mp mem with rfl | mem
    · obtain ⟨m, record⟩ : ∃ m, t.client.records[k]? = some m := by
        cases cut with
        | forget _ _ record => exact ⟨_, record⟩
      obtain ⟨m', record', -⟩ := turn.record sound record
      exact ⟨⟨m', record'⟩, cut.unknown sound⟩
    · obtain ⟨⟨m, record⟩, unknown⟩ := ih ⟨e, mem, cut⟩
      obtain ⟨m', record', -⟩ := turn.record sound record
      exact ⟨⟨m', record'⟩, fun id known => unknown id (turn.known sound record known)⟩

theorem History.attached {id : NodeId} {config : ClientConfig} {numbering : Numbering}
    (h : History (.create id config numbering) past t) (joins : ∀ e ∈ past, e.action.joins = true)
    (k : Handle) (m : Membership) (record : t.client.records[k]? = some m) :
    Attached past t k m := by
  induction h generalizing k m with
  | start => exact nomatch (Std.ExtTreeMap.getElem?_empty (a := k)).symm.trans record
  | @act past t now a run ih =>
    exact (act_turn t now a).attached run.sound (joins _ (.head _))
      (ih fun e mem => joins e (.tail _ mem)) record

/-- Whatever callers that join groups, the network side, and the end of the connection do, what
is heard reaches each record that is joined or in use, unless some first join that failed cut the
record off while it was joined or in use. Then nothing that comes in later reaches it. -/
theorem History.reaches_unless_detached {id : NodeId} {config : ClientConfig}
    {numbering : Numbering} (h : History (.create id config numbering) past t)
    (joins : ∀ e ∈ past, e.action.joins = true) (record : t.client.records[k]? = some m)
    (active : t.Active k m) :
    (∀ e ∈ past, ¬ e.Detaches k) ∧ t.client.Reaches k m ∨
      (∃ e ∈ past, e.Detaches k) ∧ t.client.Misses k m := by
  by_cases cut : ∃ e ∈ past, e.Detaches k
  · exact .inr ⟨cut, Client.misses_of_unknown record (h.unknown cut).2⟩
  · refine .inl ⟨fun e mem detaches => cut ⟨e, mem, detaches⟩, ?_⟩
    rcases h.attached joins k m record with known | detached | ⟨unjoined, unused, -⟩
    · exact Client.reaches_of_known record known
    · exact absurd detached cut
    · rcases active with joined | ⟨seq, awaiting⟩ | ⟨i, uses⟩
      · exact nomatch unjoined.symm.trans joined
      · obtain ⟨j, call, here, handle, claim, -⟩ := h.sound.owner record awaiting
        refine absurd ⟨call, here, handle, Call.unfinished fun outcome ended => ?_⟩ (unused j)
        rw [ended] at claim
        exact nomatch claim
      · exact absurd uses (unused i)

end

/-- While one thread waits for the answer to its request to join and another one for its turn, the
record of their group is within reach. -/
theorem reaches_of_two_joins :
    let run := samplePlay (sampleStart ++ [sampleAsk] ++ sampleSteps 0 0 5 ++ [sampleAsk])
    (∀ e ∈ run.1, e.action.joins = true) ∧ ∃ m, run.2.client.records[0]? = some m ∧
      run.2.Active 0 m ∧ (∀ e ∈ run.1, ¬ e.Detaches 0) ∧ run.2.client.Reaches 0 m := by
  intro run
  have history : History _ run.1 run.2 := History.play _ _
  have joins : ∀ e ∈ run.1, e.action.joins = true := by decide +kernel
  obtain ⟨m, record⟩ : ∃ m, run.2.client.records[0]? = some m := by
    apply Option.isSome_iff_exists.mp
    decide +kernel
  have view : (run.2.client.records[0]?.map fun m => (m.exchange, m.id)) =
      some (.awaiting (Kind.firstSeq .joinRequest), Directory.sampleRef.id) := by decide +kernel
  rw [record, Option.map_some, Option.some_inj] at view
  obtain ⟨awaiting, name⟩ := Prod.mk.inj view
  have known : run.2.client.groups[m.id]? = some 0 := by
    rw [name]
    decide +kernel
  have active : run.2.Active 0 m := .inr (.inl ⟨_, awaiting⟩)
  refine ⟨joins, m, record, active, ?_⟩
  rcases history.reaches_unless_detached joins record active with reached | ⟨-, missed⟩
  · exact reached
  · exact absurd known (missed.unknown m.id)

/-- The first join of a group runs out of time. Its turn over, another join of the group sends its
request, and only then the first one has the client forget the group. Nothing reaches the record
whose request is awaited. -/
theorem cut_off_while_joining : ∃ past t m,
    History (.create Directory.sampleMember .standard (.ofSeed 0)) past t ∧
      (∀ e ∈ past, e.action.joins = true) ∧ t.client.records[0]? = some m ∧
        (∃ seq, m.exchange = .awaiting seq) ∧ t.client.Misses 0 m := by
  let late : Nat := 2000000000
  let run := samplePlay (sampleStart ++ [sampleAsk] ++ sampleSteps 0 0 5 ++ [sampleAsk] ++
    sampleSteps late 0 3 ++ sampleSteps late 1 5 ++ sampleSteps late 0 2)
  obtain ⟨m, record⟩ : ∃ m, run.2.client.records[0]? = some m := by
    apply Option.isSome_iff_exists.mp
    decide +kernel
  have awaiting : (run.2.client.records[0]?.map Membership.exchange) =
      some (.awaiting (Kind.firstSeq .joinRequest + 1)) := by decide +kernel
  have empty : run.2.client.groups.size = 0 := by decide +kernel
  rw [record, Option.map_some, Option.some_inj] at awaiting
  refine ⟨run.1, run.2, m, History.play _ _, by decide +kernel, record, ⟨_, awaiting⟩,
    Client.misses_of_unknown record fun id known => ?_⟩
  rw [Std.ExtTreeMap.eq_empty_iff_size_eq_zero.mpr empty, Std.ExtTreeMap.getElem?_empty] at known
  exact nomatch known

end Threads
end Muster
