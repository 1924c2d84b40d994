import Muster.Proofs.Directory.GroupStep

/-! What an action does to each single sync point, and what is said about it. -/
namespace Muster

def Broadcast.concerns (b : Broadcast) (id name : NodeId) : Bool :=
  match b.news with
  | .membership .. => false
  | .progress ref point .. => ref.id = id ∧ point = name

def SyncPoint.notice (p : SyncPoint) (ref : GroupRef) (name : NodeId) (code : ProgressCode) :
    Broadcast :=
  ⟨p.arrived.connections, .progress ref name p.generation p.arrived.ids code⟩

theorem Group.announceProgress_eq (g : Group) (id name : NodeId) (p : SyncPoint)
    (code : ProgressCode) : g.announceProgress id name p code = p.notice ⟨id, g.token⟩ name code :=
  rfl

@[simp] theorem SyncPoint.concerns_notice (p : SyncPoint) (ref : GroupRef) (point id name : NodeId)
    (code : ProgressCode) :
    (p.notice ref point code).concerns id name = decide (ref.id = id ∧ point = name) := rfl

namespace Directory

def members (d : Directory) (id : NodeId) : Members := (d.groups[id]?.map Group.members).getD ∅

theorem members_getElem? (d : Directory) (id : NodeId) (c : ConnId) :
    (d.members id)[c]? = d.member? id c := by
  unfold members member?
  cases d.groups[id]? with
  | none => simp
  | some g => rfl

def said (bs : List Broadcast) (id name : NodeId) : List Broadcast :=
  bs.filter fun b => b.concerns id name

/-- What an action can do to the sync point of a name and to the members of its group. -/
inductive PointStep (d : Directory) (now : Nat) (a : Action) (id name : NodeId) :
    Members → Members → Option SyncPoint → Option SyncPoint → List Broadcast → Prop where
  | keep {m m' : Members} {s : Option SyncPoint}
      (stay : ∀ (c : ConnId) (member : NodeId), m[c]? = some member → m'[c]? = some member) :
      PointStep d now a id name m m' s s []
  | absent {m m' : Members} : PointStep d now a id name m m' none none []
  | create {m : Members} {c : ConnId} {member : NodeId} {token : Token} {terms : SyncTerms}
      {p : SyncPoint} (number event : Nat) (action : a = .sync c ⟨id, token⟩ terms)
      (point : terms.point = name) (present : m[c]? = some member)
      (created : p = .create d.nextGeneration (now + syncTimeout terms) number)
      (answer : (d.sync now c ⟨id, token⟩ terms).answer.code = .created) :
      PointStep d now a id name m m none (some (p.meet c member m event))
        [(p.arrive c member).notice ⟨id, token⟩ name .join]
  | arrive {m : Members} {c : ConnId} {member : NodeId} {token : Token} {terms : SyncTerms}
      {p : SyncPoint} (event : Nat) (action : a = .sync c ⟨id, token⟩ terms)
      (point : terms.point = name) (present : m[c]? = some member)
      (missing : p.arrived[c]? = none) (waiting : p.phase = .waiting)
      (answer : (d.sync now c ⟨id, token⟩ terms).answer.code = .joined) :
      PointStep d now a id name m m (some p) (some (p.meet c member m event))
        [(p.arrive c member).notice ⟨id, token⟩ name .join]
  | depart {m : Members} {c : ConnId} {member : NodeId} {p : SyncPoint} {token : Token}
      (action : a.Removes c ⟨id, token⟩) (present : m[c]? = some member) :
      PointStep d now a id name m (m.erase c) (some p) (some (p.depart c))
        [(p.depart c).notice ⟨id, token⟩ name .leave]
  | close {m m' : Members} {p : SyncPoint} {token : Token}
      (action : (∃ c, a.Removes c ⟨id, token⟩) ∨ a.Handles d now .housekeeping) :
      PointStep d now a id name m m' (some p) none [p.notice ⟨id, token⟩ name .close]
  | resolve {m : Members} {p : SyncPoint} {token : Token} {resolution : Resolution}
      (action : a.Handles d now (.resolve id name p.generation resolution)) :
      PointStep d now a id name m m (some p) none
        [p.notice ⟨id, token⟩ name resolution.code]

section
variable {d : Directory} {policy : Policy} {now : Nat} {a : Action} {id : NodeId}

theorem said_farewell (g : Group) (id name : NodeId) :
    said (g.farewell id) id name =
      (g.points[name]?.map fun p => p.notice ⟨id, g.token⟩ name .close).toList := by
  have points := Table.filter_map_toList g.points name
    (fun x => g.announceProgress id x.1 x.2 .close) (fun b => b.concerns id name) (by
      intro x
      simp [Group.announceProgress_eq])
  unfold said Group.farewell
  rw [List.filter_append, points]
  simp [Broadcast.concerns, Group.announceProgress_eq]

theorem departAll_getElem? (g : Group) (c : ConnId) (name : NodeId) :
    (g.departAll c)[name]? = g.points[name]?.map fun p => p.depart c :=
  Std.ExtTreeMap.getElem?_map

/-- A group's change shows what happens to each of its sync points. -/
theorem GroupStep.pointStep {s s' : Option Group} {bs : List Broadcast}
    (h : GroupStep d policy now a id s s' bs) (name : NodeId) :
    PointStep d now a id name ((s.map Group.members).getD ∅) ((s'.map Group.members).getD ∅)
      (s.bind fun g => g.points[name]?) (s'.bind fun g => g.points[name]?) (said bs id name) := by
  cases h with
  | same s => exact .keep fun _ _ h => h
  | refresh action => exact .keep fun _ _ h => h
  | @found _ _ token action full =>
    have empty : (Group.create token now).points[name]? = none := Std.ExtTreeMap.getElem?_empty
    show PointStep d now a id name _ _ none ((Group.create token now).points[name]?) []
    rw [empty]
    exact .absent
  | @enter _ g c member action group absent room =>
    have points : (s.bind fun g => g.points[name]?) = g.points[name]? := by
      rw [← group]
      cases s with
      | none => exact Std.ExtTreeMap.getElem?_empty.symm
      | some g => rfl
    rw [points]
    apply PointStep.keep
    intro k m hm
    show (g.members.insert c member)[k]? = some m
    have before : g.members[k]? = some m := by
      rw [← group]
      cases s with
      | none => simp at hm
      | some g => exact hm
    rw [Table.getElem?_insert, if_neg, before]
    rintro rfl
    rw [absent] at before
    contradiction
  | @create g c member terms number event action present fresh p point answer =>
    show PointStep d now a id name g.members g.members g.points[name]?
      ((g.points.insert terms.point (p.meet c member g.members event))[name]?) _
    rw [Table.getElem?_insert, Group.announceProgress_eq]
    by_cases same : terms.point = name
    · subst same
      rw [if_pos rfl, fresh]
      simp only [said, List.filter_cons, SyncPoint.concerns_notice, and_self, decide_true]
      exact .create number event action rfl present point answer
    · rw [if_neg same]
      simp only [said, List.filter_cons, SyncPoint.concerns_notice, same, and_false, decide_false]
      exact .keep fun _ _ h => h
  | @arrive g c member terms p event action present point missing waiting answer =>
    show PointStep d now a id name g.members g.members g.points[name]?
      ((g.points.insert terms.point (p.meet c member g.members event))[name]?) _
    rw [Table.getElem?_insert, Group.announceProgress_eq]
    by_cases same : terms.point = name
    · subst same
      rw [if_pos rfl, point]
      simp only [said, List.filter_cons, SyncPoint.concerns_notice, and_self, decide_true]
      exact .arrive event action rfl present missing waiting answer
    · rw [if_neg same]
      simp only [said, List.filter_cons, SyncPoint.concerns_notice, same, and_false, decide_false]
      exact .keep fun _ _ h => h
  | @part g c member action present others =>
    have news := Table.filter_map_toList (g.departAll c) name
      (fun x => g.announceProgress id x.1 x.2 .leave) (fun b => b.concerns id name) (by
        intro x
        simp [Group.announceProgress_eq])
    show PointStep d now a id name g.members (g.members.erase c) g.points[name]?
      ((g.departAll c)[name]?) _
    rw [departAll_getElem?] at news ⊢
    unfold said
    rw [List.filter_append, news]
    cases g.points[name]? with
    | none => exact .absent
    | some p => exact .depart action present
  | @dissolve g c member action present last =>
    show PointStep d now a id name g.members ∅ g.points[name]? none _
    rw [said_farewell]
    cases g.points[name]? with
    | none => exact .absent
    | some p => exact .close (.inl ⟨c, action⟩)
  | @expire g action idle =>
    show PointStep d now a id name g.members ∅ g.points[name]? none _
    rw [said_farewell]
    cases g.points[name]? with
    | none => exact .absent
    | some p => exact .close (.inr action)
  | @resolve g point p resolution action found =>
    show PointStep d now a id name g.members g.members g.points[name]?
      ((g.points.erase point)[name]?) _
    rw [Table.getElem?_erase, Group.announceProgress_eq]
    by_cases same : point = name
    · subst same
      rw [if_pos rfl, found]
      simp only [said, List.filter_cons, SyncPoint.concerns_notice, and_self, decide_true]
      exact .resolve action
    · rw [if_neg same]
      simp only [said, List.filter_cons, SyncPoint.concerns_notice, same, and_false, decide_false]
      exact .keep fun _ _ h => h

theorem said_report (bs : List Broadcast) (id name : NodeId) :
    said (report bs id) id name = said bs id name := by
  unfold said report
  rw [List.filter_filter]
  apply List.filter_congr
  intro b _
  unfold Broadcast.concerns
  cases b.news with
  | membership => rfl
  | progress ref point generation arrived code =>
    simp only [News.group]
    by_cases same : ref.id = id
    · simp [same]
    · simp [same]

/-- An action changes each sync point in one of the ways listed, and says of it what belongs
to that change. -/
theorem act_pointStep (d : Directory) (policy : Policy) (now : Nat) (a : Action)
    (id name : NodeId) :
    PointStep d now a id name (d.members id) ((d.act policy now a).1.members id)
      (d.point? id name) ((d.act policy now a).1.point? id name)
      (said (d.act policy now a).2 id name) := by
  rw [← said_report]
  exact (act_covers d policy now a id).pointStep name

end

end Directory
end Muster
