import Muster.Proofs.Directory.Firing
import Muster.Proofs.Directory.Membership

/-! When something last happened in each group, and how long housekeeping lets a group be in which
nothing happens. -/
namespace Muster.Directory

/-- Whether something happens in a group: a join with the right token, whatever its answer, a
request of a member with the right token to meet, or the removal of a member. Any token is right
where there is no group. -/
def Action.Active (d : Directory) (id : NodeId) : Action → Prop
  | .join _ _ ref => ref.id = id ∧ ∀ g ∈ d.groups[id]?, g.token = ref.token
  | .sync c ref _ | .leave c ref =>
    ref.id = id ∧ ∃ g ∈ d.groups[id]?, g.token = ref.token ∧ g.members.contains c = true
  | .removeConnection c => ∃ g ∈ d.groups[id]?, g.members.contains c = true
  | .housekeeping | .watch _ | .resolve .. | .fire => False

instance (d : Directory) (id : NodeId) (a : Action) : Decidable (a.Active d id) := by
  unfold Action.Active
  split <;> infer_instance

def lastActive (past : List Episode) (id : NodeId) : Option Nat :=
  (past.find? fun e => e.action.Active e.before id).map Episode.now

section
variable {d : Directory} {policy : Policy} {now : Nat} {a : Action} {id : NodeId} {g' : Group}
  {past : List Episode}

theorem lastActive_of_active (active : a.Active d id) :
    lastActive (d.episode policy now a :: past) id = some now := by
  have here : (d.episode policy now a).action.Active (d.episode policy now a).before id := active
  unfold lastActive
  rw [List.find?_cons]
  simp only [decide_eq_true here]
  rfl

theorem lastActive_of_not_active (quiet : ¬a.Active d id) :
    lastActive (d.episode policy now a :: past) id = lastActive past id := by
  have here : ¬(d.episode policy now a).action.Active (d.episode policy now a).before id := quiet
  unfold lastActive
  rw [List.find?_cons]
  simp only [decide_eq_false here]

theorem join_active {c : ConnId} {member : NodeId} {ref : GroupRef}
    (right : ∀ g ∈ d.groups[ref.id]?, g.token = ref.token)
    (group : (d.join policy now c member ref).directory.groups[ref.id]? = some g') :
    g'.lastActivity = now := by
  have same : (d.groups[ref.id]?.getD (.create ref.token now)).token = ref.token := by
    cases here : d.groups[ref.id]? with
    | none => rfl
    | some g => exact right g here
  unfold join at group
  simp only [same, ne_eq, not_true_eq_false, if_false] at group
  split at group
  · rw [setGroup_groups, if_pos rfl] at group
    exact (Option.some.inj group) ▸ rfl
  · split at group
    · rw [setGroup_groups, if_pos rfl] at group
      exact (Option.some.inj group) ▸ rfl
    · rw [setGroup_groups, if_pos rfl] at group
      exact (Option.some.inj group) ▸ rfl

theorem sync_active {c : ConnId} {ref : GroupRef} {terms : SyncTerms} {g : Group}
    (here : d.groups[ref.id]? = some g) (right : g.token = ref.token)
    (present : g.members.contains c = true)
    (group : (d.sync now c ref terms).directory.groups[ref.id]? = some g') :
    g'.lastActivity = now := by
  have outcome := sync_outcome d now c ref terms
  generalize d.sync now c ref terms = change at outcome group
  cases outcome with
  | rejected stranger =>
    obtain ⟨member, mem⟩ := Table.contains_iff.mp present
    exact nomatch mem.symm.trans (stranger g here right)
  | refresh _ _ _ _ _ =>
    rw [setGroup_groups, if_pos rfl] at group
    exact (Option.some.inj group) ▸ rfl
  | arrive _ _ _ _ _ _ | create _ _ _ _ =>
    obtain ⟨agenda, eq⟩ := arriveAt_eq _ _ _ _ _ _ _ _ _
    rw [eq, setGroup_groups, if_pos rfl] at group
    exact (Option.some.inj group) ▸ rfl

/-- Where a member was removed from a group that is still there, the time of it was noted. -/
theorem GroupStep.removed {g : Group} {c c' : ConnId} {ref : GroupRef} {bs : List Broadcast}
    (removes : a.Removes c ref) (step : GroupStep d policy now a id (some g) (some g') bs)
    (present : g.members.contains c' = true) (gone : g'.members[c']? = none) :
    g'.lastActivity = now := by
  have member : ∀ {m : Members}, m.contains c' = true → m[c']? ≠ none := by
    intro m here none
    obtain ⟨member, here⟩ := Table.contains_iff.mp here
    exact nomatch here.symm.trans none
  cases step with
  | same => exact absurd gone (member present)
  | refresh | enter | create | arrive | part => rfl
  | resolve action _ => exact absurd action removes.not_handles

/-- What happens in a group is noted in it. -/
theorem act_active (active : a.Active d id)
    (group : (d.act policy now a).1.groups[id]? = some g') : g'.lastActivity = now := by
  cases a with
  | join c member ref =>
    obtain ⟨rfl, right⟩ := active
    exact join_active right group
  | sync c ref terms =>
    obtain ⟨rfl, g, here, right, present⟩ := active
    exact sync_active here right present group
  | leave c ref =>
    obtain ⟨rfl, g, here, right, present⟩ := active
    have step := act_covers d policy now (.leave c ref) ref.id
    rw [here, group] at step
    refine step.removed (.inl rfl) present ?_
    have gone := removeMember_gone d now c ref.id
    have left : (d.act policy now (.leave c ref)).1 = (d.removeMember now c ref.id).1 := by
      show (d.leave now c ref).directory = _
      have accepted : g.accepts c ref.token = true := by
        unfold Group.accepts
        rw [Bool.and_eq_true, beq_iff_eq]
        exact ⟨right, present⟩
      unfold leave
      rw [here]
      dsimp only
      rw [if_pos accepted]
    unfold member? at gone
    rw [← left, group] at gone
    exact gone
  | removeConnection c =>
    obtain ⟨g, here, present⟩ := active
    have step := act_covers d policy now (.removeConnection c) id
    rw [here, group] at step
    have removes : (Action.removeConnection c).Removes c ⟨id, g.token⟩ := .inr rfl
    refine step.removed removes present ?_
    have gone := removeConnection_gone d now c id
    unfold member? at gone
    rw [show (d.removeConnection now c).1.groups[id]? = some g' from group] at gone
    exact gone
  | housekeeping => exact active.elim
  | watch interval => exact active.elim
  | resolve id name generation resolution => exact active.elim
  | fire => exact active.elim

/-- Nothing else is noted. -/
theorem GroupStep.quiet {s : Option Group} {bs : List Broadcast} (group : s = d.groups[id]?)
    (step : GroupStep d policy now a id s (some g') bs) (quiet : ¬a.Active d id) :
    ∃ g, s = some g ∧ g'.lastActivity = g.lastActivity := by
  cases step with
  | same => exact ⟨g', rfl, rfl⟩
  | resolve => exact ⟨_, rfl, rfl⟩
  | @refresh g c action =>
    refine absurd ?_ quiet
    obtain ⟨member, rfl⟩ | ⟨terms, rfl, present⟩ := action
    · refine ⟨rfl, fun f here => ?_⟩
      obtain rfl := Option.some.inj (group.trans here)
      rfl
    · exact ⟨rfl, g, group.symm, rfl, present⟩
  | found action full =>
    subst action
    exact absurd ⟨rfl, fun f here => nomatch group.trans here⟩ quiet
  | enter action created absent room =>
    subst action
    refine absurd ⟨rfl, fun f here => ?_⟩ quiet
    rw [group.trans here] at created
    exact congrArg Group.token created
  | create _ _ action present | arrive _ action present =>
    subst action
    exact absurd ⟨rfl, _, group.symm, rfl, Table.contains_of_getElem? present⟩ quiet
  | part action present others =>
    refine absurd ?_ quiet
    rcases action with rfl | rfl
    · exact ⟨rfl, _, group.symm, rfl, Table.contains_of_getElem? present⟩
    · exact ⟨_, group.symm, Table.contains_of_getElem? present⟩

/-- The time that is noted in a group is that of the last activity. -/
theorem Run.lastActive (h : Run policy past d) (group : d.groups[id]? = some g') :
    lastActive past id = some g'.lastActivity := by
  induction h generalizing id g' with
  | start => exact nomatch (Std.ExtTreeMap.getElem?_empty (a := id)).symm.trans group
  | @act past d now a run ih =>
    by_cases active : a.Active d id
    · rw [lastActive_of_active active, act_active active group]
    · have step := act_covers d policy now a id
      rw [group] at step
      obtain ⟨g, here, same⟩ := step.quiet rfl active
      rw [lastActive_of_not_active active, ih here, same]

end

section
variable {d : Directory} {policy : Policy} {now : Nat} {a : Action} {e : Entry Event}

theorem id_ne_of_housekeeping (h : Armed d.point? d.agenda) (mem : e ∈ d.agenda.entries)
    (payload : e.payload = .housekeeping) {id name : NodeId} {p : SyncPoint}
    (point : d.point? id name = some p) : e.id ≠ p.event := by
  obtain ⟨f, mem', ends⟩ := h.live id name p point
  intro same
  obtain rfl := Agenda.eq_of_id_eq mem mem' (same.trans ends.number.symm)
  exact nomatch payload.symm.trans ends.payload

theorem close_keeps (h : Armed d.point? d.agenda) (mem : e ∈ d.agenda.entries)
    (payload : e.payload = .housekeeping) {id : NodeId} {g : Group}
    (points : ∀ name, g.points[name]? = d.point? id name) :
    e ∈ (d.close id g).1.agenda.entries :=
  Group.mem_cancelPoints.mpr
    ⟨mem, fun name _ point =>
      id_ne_of_housekeeping h mem payload ((points name).symm.trans point)⟩

theorem closeGroup_keeps (h : Armed d.point? d.agenda) (mem : e ∈ d.agenda.entries)
    (payload : e.payload = .housekeeping) (id : NodeId) :
    e ∈ (d.closeGroup id).1.agenda.entries := by
  unfold closeGroup
  cases group : d.groups[id]? with
  | none => exact mem
  | some g => exact close_keeps h mem payload fun name => (point?_of_group group name).symm

theorem removeMember_keeps (h : Armed d.point? d.agenda) (mem : e ∈ d.agenda.entries)
    (payload : e.payload = .housekeeping) (c : ConnId) (id : NodeId) :
    e ∈ (d.removeMember now c id).1.agenda.entries := by
  unfold removeMember
  cases group : d.groups[id]? with
  | none => exact mem
  | some g =>
    dsimp only
    split
    · split
      · exact close_keeps h mem payload fun name => (point?_of_group group name).symm
      · exact mem
    · exact mem

theorem arriveAt_keeps {c : ConnId} {member id name : NodeId} {g : Group} {p : SyncPoint}
    {code : SyncCode} (mem : e ∈ d.agenda.entries) (other : e.id ≠ p.event) :
    e ∈ (d.arriveAt now c member id name g p code).directory.agenda.entries := by
  by_cases complete : (p.arrive c member).isComplete g.members = true
  · rw [arriveAt_of_complete complete]
    exact Agenda.mem_schedule.mpr (.inr (Agenda.mem_cancel.mpr ⟨mem, other⟩))
  · rw [arriveAt_of_incomplete complete]
    exact mem

theorem sync_keeps (h : Armed d.point? d.agenda) (mem : e ∈ d.agenda.entries)
    (payload : e.payload = .housekeeping) (c : ConnId) (ref : GroupRef) (terms : SyncTerms) :
    e ∈ (d.sync now c ref terms).directory.agenda.entries := by
  have outcome := sync_outcome d now c ref terms
  generalize d.sync now c ref terms = change at outcome ⊢
  cases outcome with
  | rejected _ | refresh _ _ _ _ _ => exact mem
  | arrive group _ _ point _ _ =>
    exact arriveAt_keeps mem
      (id_ne_of_housekeeping h mem payload ((point?_of_group group _).trans point))
  | create _ _ _ _ =>
    exact arriveAt_keeps (Agenda.mem_schedule.mpr (.inr mem)) (Nat.ne_of_lt (d.agenda.ids_lt e mem))

theorem act_keeps (h : Armed d.point? d.agenda) (mem : e ∈ d.agenda.entries)
    (payload : e.payload = .housekeeping) (policy : Policy) (other : a ≠ .fire) :
    e ∈ (d.act policy now a).1.agenda.entries := by
  cases a with
  | join c member ref =>
    show e ∈ (d.join policy now c member ref).directory.agenda.entries
    rw [join_agenda]
    exact mem
  | leave c ref =>
    show e ∈ (d.leave now c ref).directory.agenda.entries
    unfold leave
    split
    · exact mem
    · split
      · exact removeMember_keeps h mem payload c ref.id
      · exact mem
  | removeConnection c =>
    refine (forEach_preserves (fun d => Armed d.point? d.agenda ∧ e ∈ d.agenda.entries) ?_ _ d
      ⟨h, mem⟩).2
    exact fun d id ⟨h, mem⟩ =>
      ⟨removeMember_armed now c id h, removeMember_keeps h mem payload c id⟩
  | sync c ref terms => exact sync_keeps h mem payload c ref terms
  | housekeeping =>
    refine (forEach_preserves (fun d => Armed d.point? d.agenda ∧ e ∈ d.agenda.entries) ?_ _ d
      ⟨h, mem⟩).2
    exact fun d id ⟨h, mem⟩ => ⟨closeGroup_armed id h, closeGroup_keeps h mem payload id⟩
  | watch interval => exact Agenda.mem_schedule.mpr (.inr mem)
  | resolve id name generation resolution =>
    show e ∈ (d.resolve id name generation resolution).1.agenda.entries
    rw [resolve_agenda]
    exact mem
  | fire => exact absurd rfl other

theorem closeGroup_groups (d : Directory) (id k : NodeId) :
    (d.closeGroup id).1.groups[k]? = if id = k then none else d.groups[k]? := by
  unfold closeGroup
  cases group : d.groups[id]? with
  | none =>
    dsimp only
    split
    · rename_i same
      rw [← same, group]
    · rfl
  | some g => exact close_groups d id k g

theorem forEach_closeGroup_groups (ids : List NodeId) (k : NodeId) :
    (forEach closeGroup d ids).1.groups[k]? = if k ∈ ids then none else d.groups[k]? := by
  induction ids generalizing d with
  | nil => rfl
  | cons id ids ih =>
    show (forEach closeGroup (d.closeGroup id).1 ids).1.groups[k]? = _
    rw [ih, closeGroup_groups]
    by_cases later : k ∈ ids
    · rw [if_pos later, if_pos (List.mem_cons_of_mem id later)]
    · by_cases same : id = k
      · rw [if_neg later, if_pos same, if_pos (same ▸ List.mem_cons_self)]
      · rw [if_neg later, if_neg same,
          if_neg (List.not_mem_cons_of_ne_of_not_mem (Ne.symm same) later)]

/-- Housekeeping leaves just those groups alone that were active not too long ago. -/
theorem housekeeping_groups {id : NodeId} {g : Group} :
    (d.housekeeping policy now).1.groups[id]? = some g ↔
      d.groups[id]? = some g ∧ now ≤ g.lastActivity + policy.idleTimeout := by
  unfold housekeeping
  rw [forEach_closeGroup_groups]
  constructor
  · intro here
    split at here
    · contradiction
    · rename_i active
      refine ⟨here, Nat.le_of_not_lt fun idle => active (Table.mem_keys_filter.mpr ⟨g, here, ?_⟩)⟩
      exact decide_eq_true (by omega)
  · rintro ⟨here, active⟩
    rw [if_neg, here]
    intro quiet
    obtain ⟨f, group, idle⟩ := Table.mem_keys_filter.mp quiet
    obtain rfl := Option.some.inj (here.symm.trans group)
    have idle := of_decide_eq_true idle
    omega

/-- Where housekeeping is handled, it leaves just the groups alone that were active not too long
ago. -/
theorem act_groups (handles : a.Handles d now .housekeeping) {id : NodeId} {g : Group} :
    (d.act policy now a).1.groups[id]? = some g ↔
      d.groups[id]? = some g ∧ now ≤ g.lastActivity + policy.idleTimeout := by
  cases a with
  | housekeeping => exact housekeeping_groups
  | fire =>
    obtain ⟨agenda, taken⟩ := handles
    show (d.fire policy now).1.groups[id]? = some g ↔ _
    rw [fire_of_pop? policy taken]
    exact housekeeping_groups (d := { d with agenda })
  | resolve id name generation resolution => exact nomatch handles
  | join c member ref => exact handles.elim
  | leave c ref => exact handles.elim
  | removeConnection c => exact handles.elim
  | sync c ref terms => exact handles.elim
  | watch interval => exact handles.elim

/-- Housekeeping recurs. Every group that is there was active not longer than the idle timeout
before it last ran, or was put on the agenda. -/
def Watched (policy : Policy) (interval clock : Nat) (d : Directory) : Prop :=
  ∃ e ∈ d.agenda.entries, e.payload = .housekeeping ∧ e.recurring = true ∧ e.delay = interval ∧
    ∃ since ≤ clock, e.trigger = since + interval ∧
      ∀ (id : NodeId) (g : Group), d.groups[id]? = some g →
        since ≤ g.lastActivity + policy.idleTimeout

namespace Watched
variable {interval clock : Nat}

theorem mono (h : Watched policy interval clock d) (later : clock ≤ now) :
    Watched policy interval now d := by
  obtain ⟨e, mem, payload, recurring, delay, since, early, rest⟩ := h
  exact ⟨e, mem, payload, recurring, delay, since, Nat.le_trans early later, rest⟩

theorem since_le {since : Nat} (idle : ∀ (id : NodeId) (g : Group), d.groups[id]? = some g →
      since ≤ g.lastActivity + policy.idleTimeout) (early : since ≤ now) {id : NodeId} {g : Group}
    (group : (d.act policy now a).1.groups[id]? = some g) :
    since ≤ g.lastActivity + policy.idleTimeout := by
  by_cases active : a.Active d id
  · rw [act_active active group]
    exact Nat.le_add_right_of_le early
  · have step := act_covers d policy now a id
    rw [group] at step
    obtain ⟨f, here, same⟩ := step.quiet rfl active
    rw [same]
    exact idle id f here

/-- Housekeeping that falls due is put on the agenda again. -/
theorem fire (h : Watched policy interval clock d) (armed : Armed d.point? d.agenda)
    (later : clock ≤ now) : Watched policy interval now (d.fire policy now).1 := by
  cases taken : d.agenda.pop? now with
  | none =>
    unfold Directory.fire
    rw [taken]
    exact h.mono later
  | some popped =>
    obtain ⟨event, agenda⟩ := popped
    obtain ⟨e, mem, payload, recurring, delay, since, early, trigger, idle⟩ := h
    obtain ⟨first, rest, entries, event, due, left⟩ := Agenda.pop?_eq_some_cons taken
    have head : d.agenda.entries.head? = some first := by
      rw [entries, List.head?_cons]
    by_cases same : e = first
    · subst same
      rw [payload] at event
      subst event
      rw [if_pos recurring] at left
      have fired : d.fire policy now = Directory.housekeeping { d with agenda } policy now :=
        fire_of_pop? policy taken
      have back : e.next now ∈ (d.fire policy now).1.agenda.entries := by
        have mem' : e.next now ∈ agenda.entries := left ▸ Entry.mem_place.mpr (.inl rfl)
        rw [fired]
        refine (forEach_closeGroup_kept _ mem').resolve_right ?_
        rintro ⟨id, name, p, point, number, -⟩
        exact id_ne_of_housekeeping armed mem payload point number.symm
      refine ⟨e.next now, back, payload, recurring, delay, now, Nat.le_refl _, ?_, ?_⟩
      · rw [Entry.next, Nat.max_eq_left due, delay]
      · intro id g group
        rw [fired] at group
        exact (housekeeping_groups.mp group).2
    · have kept := (fire_kept armed policy head due mem same).resolve_right (by
        rintro ⟨-, id, name, generation, resolution, other, -⟩
        exact nomatch payload.symm.trans other)
      refine ⟨e, kept, payload, recurring, delay, since, Nat.le_trans early later, trigger, ?_⟩
      exact fun id g group => since_le (a := .fire) idle (Nat.le_trans early later) group

theorem act (h : Watched policy interval clock d) (armed : Armed d.point? d.agenda)
    (later : clock ≤ now) (a : Action) : Watched policy interval now (d.act policy now a).1 := by
  by_cases same : a = .fire
  · subst same
    exact h.fire armed later
  · obtain ⟨e, mem, payload, recurring, delay, since, early, trigger, idle⟩ := h
    exact ⟨e, act_keeps armed mem payload policy same, payload, recurring, delay, since,
      Nat.le_trans early later, trigger, fun id g => since_le idle (Nat.le_trans early later)⟩

theorem fireMany (h : Watched policy interval clock d) (armed : Armed d.point? d.agenda)
    (later : clock ≤ now) (fuel : Nat) :
    Watched policy interval now (fireMany policy now fuel d).2 := by
  induction fuel generalizing d clock with
  | zero => exact h.mono later
  | succ fuel ih =>
    rw [fireMany_succ]
    cases taken : d.agenda.pop? now with
    | none => exact h.mono later
    | some popped =>
      obtain ⟨event, agenda⟩ := popped
      dsimp only
      rw [← fire_of_pop? policy taken]
      exact ih (h.fire armed later) (fire_armed armed policy now) (Nat.le_refl _)

end Watched

end

end Muster.Directory
