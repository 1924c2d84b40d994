import Muster.Proofs.Directory.Meeting
import Muster.Proofs.Directory.Roster

/-! Who is told what happens in a group, and whose names are told. They are members of the
group at that moment, with one exception: the last member to leave is told the end of the sync
points at which it had arrived. -/
namespace Muster

def News.names : News → List NodeId
  | membership _ members _ => members
  | progress _ _ _ arrived _ => arrived

/-- Whether all who are told and all whose names are listed are among these members. -/
structure Broadcast.Within (b : Broadcast) (m : Members) : Prop where
  receivers : ∀ c ∈ b.receivers, ∃ name, m[c]? = some name
  names : ∀ name ∈ b.news.names, ∃ c : ConnId, m[c]? = some name

theorem Broadcast.Within.not_told {b : Broadcast} {m : Members} {c : ConnId}
    (within : b.Within m) (absent : m.contains c = false) : c ∉ b.receivers := by
  intro told
  obtain ⟨name, present⟩ := within.receivers c told
  rw [Table.contains_of_getElem? present] at absent
  contradiction

namespace Members

theorem exists_of_mem_ids {m : Members} {name : NodeId} (h : name ∈ m.ids) :
    ∃ c : ConnId, m[c]? = some name := by
  unfold ids NodeId.sort at h
  rw [List.mem_mergeSort] at h
  exact Table.mem_values.mp h

def Inside (t m : Members) : Prop :=
  ∀ (c : ConnId) (name : NodeId), t[c]? = some name → m[c]? = some name

theorem Inside.refl (m : Members) : m.Inside m := fun _ _ present => present

theorem Inside.empty (m : Members) : Inside ∅ m := by
  intro c name present
  rw [Std.ExtTreeMap.getElem?_empty] at present
  contradiction

theorem Inside.insert {t m : Members} {c : ConnId} {name : NodeId} (h : t.Inside m)
    (present : m[c]? = some name) : Inside (t.insert c name) m := by
  intro k x found
  rw [Table.getElem?_insert] at found
  split at found
  · rename_i same
    rw [← same, present]
    exact found
  · exact h k x found

theorem Inside.erase {t m : Members} (h : t.Inside m) (c : ConnId) :
    Inside (t.erase c) (m.erase c) := by
  intro k x found
  rw [Table.getElem?_erase] at found ⊢
  split at found
  · contradiction
  · rename_i other
    rw [if_neg other]
    exact h k x found

theorem Inside.erase_of_absent {t m : Members} (h : t.Inside m) {c : ConnId}
    (absent : t.contains c = false) : t.Inside (m.erase c) := by
  intro k x found
  rw [Table.getElem?_erase, if_neg]
  · exact h k x found
  · rintro rfl
    rw [Table.contains_of_getElem? found] at absent
    contradiction

end Members

theorem Broadcast.within_of_inside {t m : Members} {b : Broadcast} (inside : t.Inside m)
    (receivers : b.receivers = t.connections) (names : b.news.names = t.ids ∨ b.news.names = []) :
    b.Within m := by
  constructor
  · intro c told
    rw [receivers] at told
    obtain ⟨name, present⟩ := Members.mem_connections.mp told
    exact ⟨name, inside c name present⟩
  · intro name listed
    obtain all | none := names
    · rw [all] at listed
      obtain ⟨c, present⟩ := Members.exists_of_mem_ids listed
      exact ⟨c, inside c name present⟩
    · rw [none] at listed
      exact absurd listed List.not_mem_nil

theorem SyncPoint.within_notice {p : SyncPoint} {m : Members} (inside : p.arrived.Inside m)
    (ref : GroupRef) (name : NodeId) (code : ProgressCode) : (p.notice ref name code).Within m :=
  Broadcast.within_of_inside inside rfl (.inl rfl)

/-- Whether only members have arrived at the group's sync points. -/
def Group.Gathered (g : Group) : Prop :=
  ∀ (name : NodeId) (p : SyncPoint), g.points[name]? = some p → p.arrived.Inside g.members

theorem Group.within_farewell {g : Group} {id : NodeId} {b : Broadcast} (hb : b ∈ g.farewell id) :
    b.Within g.members ∨ ∃ (name : NodeId) (p : SyncPoint), g.points[name]? = some p ∧
      b = p.notice ⟨id, g.token⟩ name .close := by
  unfold farewell at hb
  obtain hb | hb := List.mem_append.mp hb
  · obtain ⟨⟨name, p⟩, mem, rfl⟩ := List.mem_map.mp hb
    exact .inr ⟨name, p, Std.ExtTreeMap.mem_toList_iff_getElem?_eq_some.mp mem, rfl⟩
  · obtain rfl := List.mem_singleton.mp hb
    exact .inl (Broadcast.within_of_inside (.refl _) rfl (.inr rfl))

namespace Directory

theorem Run.gathered {policy : Policy} {past : List Episode} {d : Directory}
    (h : Run policy past d) (id : NodeId) : ∀ g ∈ d.groups[id]?, g.Gathered := by
  rintro g group name p point c member arrived
  have here : d.point? id name = some p := Option.bind_eq_some_iff.mpr ⟨g, group, point⟩
  have present := (h.meetings.gathering id name p here).members c member arrived
  unfold members at present
  rw [Option.mem_def.mp group] at present
  exact present

/-- The connection that an action takes out of a group or of all. -/
def Action.leaver? : Action → Option ConnId
  | .leave c _ | .removeConnection c => some c
  | .join .. | .sync .. | .housekeeping | .watch _ | .resolve .. | .fire => none

/-- The members whom the record of a group holds while the news of an action is told: those
after the action, or the last of a group that closes. -/
def Action.held (a : Action) (s s' : Option Group) : Members :=
  match s', a.leaver? with
  | some g, _ => g.members
  | none, some c => ((s.map Group.members).getD ∅).erase c
  | none, none => (s.map Group.members).getD ∅

/-- The end of a sync point told to the last member of the group, who has left it and had
arrived. -/
def Action.Parting (a : Action) (id : NodeId) (s : Option Group) (b : Broadcast) : Prop :=
  ∃ (c : ConnId) (g : Group) (name : NodeId) (p : SyncPoint),
    s = some g ∧ a.Removes c ⟨id, g.token⟩ ∧ g.members.contains c = true ∧
      (g.members.erase c).isEmpty = true ∧ g.points[name]? = some p ∧
      p.arrived.contains c = true ∧ b = p.notice ⟨id, g.token⟩ name .close

theorem Action.Removes.leaver? {a : Action} {c : ConnId} {ref : GroupRef}
    (h : a.Removes c ref) : a.leaver? = some c := by
  rcases h with rfl | rfl
  · rfl
  · rfl

theorem Action.Removes.unique {a : Action} {c c' : ConnId} {ref ref' : GroupRef}
    (h : a.Removes c ref) (h' : a.Removes c' ref') : c = c' :=
  Option.some.inj (h.leaver?.symm.trans h'.leaver?)

theorem Action.Handles.leaver? {d : Directory} {now : Nat} {a : Action} {event : Event}
    (h : a.Handles d now event) : a.leaver? = none := by
  cases a with
  | leave | removeConnection | join | sync | watch => exact h.elim
  | housekeeping | resolve | fire => rfl

section
variable {d : Directory} {policy : Policy} {now : Nat} {a : Action} {id : NodeId}
  {s s' : Option Group} {bs : List Broadcast} {b : Broadcast}

/-- Except for a last member's parting, news is for members and about members. -/
theorem GroupStep.within (step : GroupStep d policy now a id s s' bs)
    (gathered : ∀ g ∈ s, g.Gathered) (hb : b ∈ bs) :
    b.Within (a.held s s') ∨ a.Parting id s b := by
  cases step with
  | same => exact absurd hb List.not_mem_nil
  | refresh => exact absurd hb List.not_mem_nil
  | found => exact absurd hb List.not_mem_nil
  | enter =>
    obtain rfl := List.mem_singleton.mp hb
    exact .inl (Broadcast.within_of_inside (.refl _) rfl (.inl rfl))
  | @create g c member terms number event action present fresh p point answer =>
    obtain rfl := List.mem_singleton.mp hb
    rw [Group.announceProgress_eq, point]
    exact .inl (SyncPoint.within_notice ((Members.Inside.empty _).insert present) ..)
  | @arrive g c member terms p event action present point missing waiting answer =>
    obtain rfl := List.mem_singleton.mp hb
    exact .inl (SyncPoint.within_notice ((gathered g rfl terms.point p point).insert present) ..)
  | @part g c member action present others =>
    left
    obtain hb | hb := List.mem_append.mp hb
    · obtain ⟨⟨name, p'⟩, mem, rfl⟩ := List.mem_map.mp hb
      have point := Std.ExtTreeMap.mem_toList_iff_getElem?_eq_some.mp mem
      rw [departAll_getElem?] at point
      obtain ⟨p, before, rfl⟩ := Option.map_eq_some_iff.mp point
      exact SyncPoint.within_notice ((gathered g rfl name p before).erase c) ..
    · obtain rfl := List.mem_singleton.mp hb
      exact Broadcast.within_of_inside (.refl _) rfl (.inl rfl)
  | @dissolve g c member action present last =>
    have held : a.held (some g) none = g.members.erase c := by
      unfold Action.held
      rw [action.leaver?]
      rfl
    rw [held]
    obtain within | ⟨name, p, point, rfl⟩ := Group.within_farewell hb
    · exact .inl within
    · -- The record is without the leaver by now, its sync points are as they were.
      cases arrived : p.arrived.contains c with
      | false =>
        have inside := gathered g rfl name p point
        exact .inl (SyncPoint.within_notice (inside.erase_of_absent arrived) ..)
      | true =>
        exact .inr ⟨c, g, name, p, rfl, action, Table.contains_of_getElem? present, last, point,
          arrived, rfl⟩
  | @expire g action idle =>
    have held : a.held (some g) none = g.members := by
      unfold Action.held
      rw [action.leaver?]
      rfl
    rw [held]
    obtain within | ⟨name, p, point, rfl⟩ := Group.within_farewell hb
    · exact .inl within
    · exact .inl (SyncPoint.within_notice (gathered g rfl name p point) ..)
  | @resolve g name p resolution action point =>
    obtain rfl := List.mem_singleton.mp hb
    exact .inl (SyncPoint.within_notice (gathered g rfl name p point) ..)

/-- No one is a member while a last member's parting is told. -/
theorem GroupStep.not_within (step : GroupStep d policy now a id s s' bs) (hb : b ∈ bs)
    (parting : a.Parting id s b) : ¬b.Within (a.held s s') := by
  obtain ⟨c, g, name, p, rfl, removes, present, last, point, arrived, rfl⟩ := parting
  have leaver := removes.leaver?
  cases step with
  | same => exact absurd hb List.not_mem_nil
  | refresh => exact absurd hb List.not_mem_nil
  | enter action => exact nomatch (congrArg Action.leaver? action).symm.trans leaver
  | create number event action => exact nomatch (congrArg Action.leaver? action).symm.trans leaver
  | arrive event action => exact nomatch (congrArg Action.leaver? action).symm.trans leaver
  | part action present others =>
    rw [action.unique removes, last] at others
    contradiction
  | dissolve action =>
    rintro ⟨receivers, -⟩
    obtain ⟨member, here⟩ := Table.contains_iff.mp arrived
    obtain ⟨name, held⟩ := receivers c (Members.mem_connections.mpr ⟨member, here⟩)
    have empty : a.held (some g) none = g.members.erase c := by
      unfold Action.held
      rw [leaver]
      rfl
    rw [empty, Table.getElem?_erase, if_pos rfl] at held
    contradiction
  | expire action => exact absurd action removes.not_handles
  | resolve action => exact absurd action removes.not_handles

end

def Episode.held (e : Episode) (id : NodeId) : Members :=
  e.action.held e.before.groups[id]? e.after.groups[id]?

def Episode.Parting (e : Episode) (b : Broadcast) : Prop :=
  e.action.Parting b.news.group.id e.before.groups[b.news.group.id]? b

def Episode.Leaves (e : Episode) (id : NodeId) (c : ConnId) : Prop :=
  (∃ token, e.action.Removes c ⟨id, token⟩) ∧ e.Removal id c

def Episode.Admission (e : Episode) (id : NodeId) (c : ConnId) : Prop :=
  (e.before.members id).contains c = false ∧ (e.after.members id).contains c = true

theorem Episode.held_of_absent {e : Episode} {id : NodeId} {c : ConnId}
    (after : (e.after.members id).contains c = false)
    (gone : (e.before.members id).contains c = false ∨ e.action.leaver? = some c) :
    (e.held id).contains c = false := by
  unfold held Action.held
  unfold members at after gone
  cases group : e.after.groups[id]? with
  | some g =>
    rw [group] at after
    exact after
  | none =>
    obtain absent | leaver := gone
    · cases e.action.leaver? with
      | none => exact absent
      | some c' =>
        dsimp only
        rw [Std.ExtTreeMap.contains_erase, absent, Bool.and_false]
    · rw [leaver]
      simp

section
variable {policy : Policy} {past post pre : List Episode} {d : Directory} {e : Episode}
  {id : NodeId} {c : ConnId}

theorem Run.within_iff (h : Run policy past d) (he : e ∈ past) {b : Broadcast}
    (hb : b ∈ e.broadcasts) : b.Within (e.held b.news.group.id) ↔ ¬e.Parting b := by
  obtain ⟨post, pre, rfl⟩ := List.append_of_mem he
  obtain ⟨run, eq⟩ := h.at
  have step := act_covers e.before policy e.now e.action b.news.group.id
  have after : e.after = (e.before.act policy e.now e.action).1 := congrArg Episode.after eq
  have broadcasts : e.broadcasts = (e.before.act policy e.now e.action).2 :=
    congrArg Episode.broadcasts eq
  rw [← after, ← broadcasts] at step
  have told : b ∈ report e.broadcasts b.news.group.id :=
    List.mem_filter.mpr ⟨hb, decide_eq_true rfl⟩
  constructor
  · exact fun within parting => step.not_within told parting within
  · exact (step.within (run.gathered _) told).resolve_right

theorem Run.absent_since (h : Run policy (post ++ e :: pre) d) (leaves : e.Leaves id c)
    (out : ∀ f ∈ post, ¬f.Admission id c) : (d.members id).contains c = false := by
  induction post generalizing d with
  | nil =>
    cases h with
    | act now a run => exact leaves.2.2
  | cons f post ih =>
    rw [List.cons_append] at h
    cases h with
    | @act _ d now a run =>
      obtain ⟨first, out⟩ := List.forall_mem_cons.mp out
      have before := ih run out
      cases after : ((d.act policy now a).1.members id).contains c with
      | false => rfl
      | true => exact absurd ⟨before, after⟩ first

theorem Run.not_parting (h : Run policy past d) {b : Broadcast} {a : Action} {s : Option Group}
    (group : s = d.groups[id]?) (parting : a.Parting id s b)
    (absent : (d.members id).contains c = false) : c ∉ b.receivers := by
  obtain ⟨c', g, name, p, rfl, -, -, -, point, -, rfl⟩ := parting
  have within := SyncPoint.within_notice (h.gathered id g group.symm name p point)
    ⟨id, g.token⟩ name .close
  apply within.not_told
  unfold members at absent
  rw [← group] at absent
  exact absent

/-- In every run, whatever its order: all news is for members and lists members only, those whom
the group's record holds at that moment; and who has left is told nothing about the group, then
or later, until it is admitted again. Both with the one exception of a last member's parting. -/
theorem Run.news_for_members (h : Run policy past d) :
    (∀ e ∈ past, ∀ b ∈ e.broadcasts, b.Within (e.held b.news.group.id) ↔ ¬e.Parting b) ∧
    ∀ post e pre id c, past = post ++ e :: pre → e.Leaves id c →
      (∀ b ∈ e.broadcasts, b.news.group.id = id → (c ∈ b.receivers ↔ e.Parting b)) ∧
      ∀ later f between, post = later ++ f :: between →
        (∀ g ∈ f :: between, ¬g.Admission id c) →
          ∀ b ∈ f.broadcasts, b.news.group.id = id → c ∉ b.receivers := by
  refine ⟨fun e he b hb => h.within_iff he hb, ?_⟩
  rintro post e pre id c rfl leaves
  constructor
  · rintro b hb rfl
    obtain ⟨⟨token, removes⟩, gone⟩ := id leaves
    constructor
    · intro told
      by_contra stays
      have within := (h.within_iff (List.mem_append_right _ List.mem_cons_self) hb).mpr stays
      exact within.not_told (Episode.held_of_absent gone.2 (.inr removes.leaver?)) told
    · rintro ⟨c', g, name, p, -, removes', -, -, -, arrived, eq⟩
      obtain rfl := removes.unique removes'
      obtain ⟨member, here⟩ := Table.contains_iff.mp arrived
      rw [eq]
      exact Members.mem_connections.mpr ⟨member, here⟩
  · rintro later f between rfl out b hb rfl
    obtain ⟨first, out⟩ := List.forall_mem_cons.mp out
    rw [List.append_assoc, List.cons_append] at h
    obtain ⟨run, -⟩ := h.at
    have before := run.absent_since leaves out
    have after : (f.after.members b.news.group.id).contains c = false := by
      rw [← Bool.not_eq_true]
      exact fun present => first ⟨before, present⟩
    by_cases parting : f.Parting b
    · exact run.not_parting rfl parting before
    · have within := (h.within_iff (List.mem_append_right _ List.mem_cons_self) hb).mpr parting
      exact within.not_told (Episode.held_of_absent after (.inl before))

end

/-- Two join, the first arrives and leaves, and the second arrives. -/
def leftBehind : List (Nat × Action) :=
  [(0, .sync 2 sampleRef sampleTerms), (0, .leave 1 sampleRef),
    (0, .sync 1 sampleRef sampleTerms), (0, .join 2 sampleMember sampleRef),
    (0, .join 1 sampleMember sampleRef)]

theorem news_for_members_of_two :
    let past := (play ⟨3, 0⟩ leftBehind).1
    past[1].Leaves sampleRef.id 1 ∧ past[0].broadcasts.map Broadcast.receivers = [[2]] ∧
      ∀ b ∈ past[0].broadcasts, b.news.group.id = sampleRef.id → 1 ∉ b.receivers := by
  intro past
  have run : Run ⟨3, 0⟩ past _ := (History.play ⟨3, 0⟩ (by decide)).run
  have leaves : past[1].Leaves sampleRef.id 1 := ⟨⟨_, .inl rfl⟩, rfl, rfl⟩
  have since := (Run.news_for_members run).2 [past[0]] past[1] (past.drop 2) sampleRef.id 1 rfl
    leaves
  refine ⟨leaves, rfl, since.2 [] past[0] [] rfl ?_⟩
  intro g member
  obtain rfl := List.mem_singleton.mp member
  exact fun admitted => nomatch admitted.2

/-- One joins alone, arrives and leaves. -/
def leftAlone : List (Nat × Action) :=
  [(0, .leave 1 sampleRef), (0, .sync 1 sampleRef sampleTerms), (0, .join 1 sampleMember sampleRef)]

/-- The last member that leaves is told the end of the sync point at which it waited, and its
name is listed, though the record of the group holds no one. -/
theorem lone_leaver_told : ∃ past d, Run ⟨3, 0⟩ past d ∧ ∃ e ∈ past, ∃ b ∈ e.broadcasts,
    e.Leaves sampleRef.id 1 ∧ b.news.group = sampleRef ∧ 1 ∈ b.receivers ∧
      sampleMember ∈ b.news.names ∧ (e.held sampleRef.id).isEmpty = true := by
  let past := (play ⟨3, 0⟩ leftAlone).1
  have run : Run ⟨3, 0⟩ past _ := (History.play ⟨3, 0⟩ (by decide)).run
  refine ⟨past, _, run, past[0], List.mem_cons_self, past[0].broadcasts[0], List.getElem_mem _,
    ⟨⟨_, .inl rfl⟩, rfl, rfl⟩, rfl, by decide, ?_, rfl⟩
  exact Members.mem_ids (c := 1) rfl

end Directory
end Muster
