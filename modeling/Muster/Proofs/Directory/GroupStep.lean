import Muster.Proofs.Directory.Action

/-! What an action does to each single group, and what is said about it. -/
namespace Muster

namespace SyncPoint

/-- The sync point after an arrival. When no member is missing any more, `event` will end it. -/
def meet (p : SyncPoint) (c : ConnId) (member : NodeId) (members : Members) (event : Nat) :
    SyncPoint :=
  let p := p.arrive c member
  if p.isComplete members then p.beginResolving event else p

variable (p : SyncPoint) (c : ConnId) (member : NodeId) (members : Members) (event : Nat)

@[simp] theorem meet_generation : (p.meet c member members event).generation = p.generation := by
  unfold meet
  dsimp only
  split <;> rfl

@[simp] theorem meet_arrived :
    (p.meet c member members event).arrived = p.arrived.insert c member := by
  unfold meet
  dsimp only
  split <;> rfl

@[simp] theorem meet_deadline : (p.meet c member members event).deadline = p.deadline := by
  unfold meet
  dsimp only
  split <;> rfl

end SyncPoint

namespace Directory

def report (bs : List Broadcast) (id : NodeId) : List Broadcast :=
  bs.filter fun b => b.news.group.id = id

/-- What an action can do to the group of a name. -/
inductive GroupStep (d : Directory) (policy : Policy) (now : Nat) (a : Action) (id : NodeId) :
    Option Group → Option Group → List Broadcast → Prop where
  | same (s : Option Group) : GroupStep d policy now a id s s []
  | refresh {g : Group} {c : ConnId}
      (action : (∃ member, a = .join c member ⟨id, g.token⟩) ∨
        ∃ terms, a = .sync c ⟨id, g.token⟩ terms ∧ g.members.contains c) :
      GroupStep d policy now a id (some g) (some { g with lastActivity := now }) []
  /-- Where no one may join, a request still founds a group. -/
  | found {c : ConnId} {member : NodeId} {token : Token} (action : a = .join c member ⟨id, token⟩)
      (full : policy.maxGroupSize = 0) :
      GroupStep d policy now a id none (some (.create token now)) []
  | enter {s : Option Group} {g : Group} {c : ConnId} {member : NodeId}
      (action : a = .join c member ⟨id, g.token⟩) (group : s.getD (.create g.token now) = g)
      (absent : g.members[c]? = none) (room : g.members.size < policy.maxGroupSize) :
      GroupStep d policy now a id s
        (some { g with members := g.members.insert c member, lastActivity := now })
        [{ g with members := g.members.insert c member }.announceMembers id .join]
  | create {g : Group} {c : ConnId} {member : NodeId} {terms : SyncTerms} (number event : Nat)
      (action : a = .sync c ⟨id, g.token⟩ terms) (present : g.members[c]? = some member)
      (fresh : g.points[terms.point]? = none) {p : SyncPoint}
      (point : p = .create d.nextGeneration (now + syncTimeout terms) number)
      (answer : (d.sync now c ⟨id, g.token⟩ terms).answer.code = .created) :
      GroupStep d policy now a id (some g)
        (some { g with
          points := g.points.insert terms.point (p.meet c member g.members event)
          lastActivity := now })
        [g.announceProgress id terms.point (p.arrive c member) .join]
  | arrive {g : Group} {c : ConnId} {member : NodeId} {terms : SyncTerms} {p : SyncPoint}
      (event : Nat) (action : a = .sync c ⟨id, g.token⟩ terms)
      (present : g.members[c]? = some member) (point : g.points[terms.point]? = some p)
      (missing : p.arrived[c]? = none) (waiting : p.phase = .waiting)
      (answer : (d.sync now c ⟨id, g.token⟩ terms).answer.code = .joined) :
      GroupStep d policy now a id (some g)
        (some { g with
          points := g.points.insert terms.point (p.meet c member g.members event)
          lastActivity := now })
        [g.announceProgress id terms.point (p.arrive c member) .join]
  | part {g : Group} {c : ConnId} {member : NodeId}
      (action : a.Removes c ⟨id, g.token⟩)
      (present : g.members[c]? = some member) (others : (g.members.erase c).isEmpty = false) :
      GroupStep d policy now a id (some g)
        (some ⟨g.token, g.members.erase c, g.departAll c, now⟩)
        ((g.departAll c).toList.map (fun (name, p) => g.announceProgress id name p .leave) ++
          [{ g with members := g.members.erase c }.announceMembers id .leave])
  | dissolve {g : Group} {c : ConnId} {member : NodeId}
      (action : a.Removes c ⟨id, g.token⟩)
      (present : g.members[c]? = some member) (last : (g.members.erase c).isEmpty = true) :
      GroupStep d policy now a id (some g) none
        ({ g with members := g.members.erase c }.farewell id)
  | expire {g : Group} (action : a.Handles d now .housekeeping)
      (idle : policy.idleTimeout < now - g.lastActivity) :
      GroupStep d policy now a id (some g) none (g.farewell id)
  | resolve {g : Group} {name : NodeId} {p : SyncPoint} {resolution : Resolution}
      (action : a.Handles d now (.resolve id name p.generation resolution))
      (point : g.points[name]? = some p) :
      GroupStep d policy now a id (some g) (some { g with points := g.points.erase name })
        [g.announceProgress id name p resolution.code]

/-- What becomes of each group stands in a relation to what is said about it. -/
def Covers (R : NodeId → Option Group → Option Group → List Broadcast → Prop) (d : Directory)
    (out : Directory × List Broadcast) : Prop :=
  ∀ id, R id d.groups[id]? out.1.groups[id]? (report out.2 id)

/-- A change of one group, with news about that group only. -/
structure Touches (R : NodeId → Option Group → Option Group → List Broadcast → Prop)
    (d : Directory) (id : NodeId) (out : Directory × List Broadcast) : Prop where
  own : R id d.groups[id]? out.1.groups[id]? out.2
  others : ∀ k, k ≠ id → out.1.groups[k]? = d.groups[k]?
  about : ∀ b ∈ out.2, b.news.group.id = id

section Covering
variable {R : NodeId → Option Group → Option Group → List Broadcast → Prop} {d : Directory}

theorem report_of_about {bs : List Broadcast} {id : NodeId}
    (about : ∀ b ∈ bs, b.news.group.id = id) : report bs id = bs := by
  unfold report
  rw [List.filter_eq_self]
  simpa using about

theorem report_of_about_ne {bs : List Broadcast} {id k : NodeId}
    (about : ∀ b ∈ bs, b.news.group.id = id) (ne : k ≠ id) : report bs k = [] := by
  unfold report
  rw [List.filter_eq_nil_iff]
  intro b hb same
  rw [decide_eq_true_eq, about b hb] at same
  exact ne same.symm

theorem Touches.covers {id : NodeId} {out : Directory × List Broadcast}
    (refl : ∀ k s, R k s s []) (h : Touches R d id out) : Covers R d out := by
  intro k
  by_cases hk : k = id
  · subst hk
    rw [report_of_about h.about]
    exact h.own
  · rw [report_of_about_ne h.about hk, h.others k hk]
    exact refl k _

/-- Changes of different groups, one after the other, change each of the groups once. -/
theorem forEach_covers {step : Directory → NodeId → Directory × List Broadcast}
    (refl : ∀ k s, R k s s []) {ids : List NodeId} (nodup : ids.Nodup)
    (h : ∀ d', ∀ id ∈ ids, d'.groups[id]? = d.groups[id]? → Touches R d' id (step d' id)) :
    ∀ d', (∀ id ∈ ids, d'.groups[id]? = d.groups[id]?) →
      Covers R d' (forEach step d' ids) ∧
        ∀ k ∉ ids, (forEach step d' ids).1.groups[k]? = d'.groups[k]? ∧
          report (forEach step d' ids).2 k = [] := by
  induction ids with
  | nil =>
    intro d' _
    refine ⟨fun k => refl k _, fun k _ => ⟨rfl, rfl⟩⟩
  | cons id ids ih =>
    intro d' same
    obtain ⟨notin, nodup⟩ := List.nodup_cons.mp nodup
    have touched := h d' id List.mem_cons_self (same id List.mem_cons_self)
    obtain ⟨covers, frame⟩ := ih nodup
      (fun e k hk => h e k (List.mem_cons_of_mem id hk)) (step d' id).1 (by
        intro k hk
        have ne : k ≠ id := fun eq => notin (eq ▸ hk)
        rw [touched.others k ne]
        exact same k (List.mem_cons_of_mem id hk))
    have news : ∀ k, report (forEach step d' (id :: ids)).2 k =
        report (step d' id).2 k ++ report (forEach step (step d' id).1 ids).2 k := by
      intro k
      exact List.filter_append _ _
    constructor
    · intro k
      rw [news]
      by_cases hk : k = id
      · subst hk
        rw [report_of_about touched.about, (frame k notin).2, List.append_nil]
        show R k _ (forEach step (step d' k).1 ids).1.groups[k]? _
        rw [(frame k notin).1]
        exact touched.own
      · rw [report_of_about_ne touched.about hk, List.nil_append, ← touched.others k hk]
        exact covers k
    · intro k hk
      rw [List.mem_cons, not_or] at hk
      rw [news, report_of_about_ne touched.about hk.1, (frame k hk.2).2]
      refine ⟨?_, rfl⟩
      show (forEach step (step d' id).1 ids).1.groups[k]? = _
      rw [(frame k hk.2).1, touched.others k hk.1]

theorem forEach_preserves (P : Directory → Prop)
    {step : Directory → NodeId → Directory × List Broadcast}
    (h : ∀ d id, P d → P (step d id).1) (ids : List NodeId) :
    ∀ d, P d → P (forEach step d ids).1 := by
  induction ids with
  | nil => exact fun _ hd => hd
  | cons id ids ih => exact fun d hd => ih _ (h d id hd)

end Covering

section Steps
variable {d : Directory} {policy : Policy} {now : Nat} {a : Action}

@[simp] theorem setGroup_groups (d : Directory) (id k : NodeId) (g : Group) :
    (d.setGroup id g).groups[k]? = if id = k then some g else d.groups[k]? :=
  Table.getElem?_insert d.groups id k g

@[simp] theorem close_groups (d : Directory) (id k : NodeId) (g : Group) :
    (d.close id g).1.groups[k]? = if id = k then none else d.groups[k]? :=
  Table.getElem?_erase d.groups id k

theorem Touches.unchanged {R : NodeId → Option Group → Option Group → List Broadcast → Prop}
    {id : NodeId} (h : R id d.groups[id]? d.groups[id]? []) : Touches R d id (d, []) :=
  ⟨h, fun _ _ => rfl, by simp⟩

theorem Touches.setGroup {R : NodeId → Option Group → Option Group → List Broadcast → Prop}
    {d' : Directory} {id : NodeId} {g : Group} {bs : List Broadcast} (same : d'.groups = d.groups)
    (h : R id d.groups[id]? (some g) bs) (about : ∀ b ∈ bs, b.news.group.id = id) :
    Touches R d id (d'.setGroup id g, bs) := by
  refine ⟨?_, ?_, about⟩
  · simpa using h
  · intro k ne
    rw [setGroup_groups, if_neg (Ne.symm ne), same]

theorem Touches.close {R : NodeId → Option Group → Option Group → List Broadcast → Prop}
    {id : NodeId} {g : Group} (h : R id d.groups[id]? none (g.farewell id)) :
    Touches R d id (d.close id g) := by
  refine ⟨?_, ?_, ?_⟩
  · rw [close_groups, if_pos rfl]
    exact h
  · intro k ne
    rw [close_groups, if_neg (Ne.symm ne)]
  · intro b hb
    change b ∈ g.farewell id at hb
    unfold Group.farewell at hb
    simp only [List.mem_append, List.mem_map, List.mem_singleton] at hb
    rcases hb with ⟨x, _, rfl⟩ | rfl
    · rfl
    · rfl

theorem join_touches (d : Directory) (policy : Policy) (now : Nat) (c : ConnId) (member : NodeId)
    (ref : GroupRef) :
    Touches (GroupStep d policy now (.join c member ref)) d ref.id
      (d.act policy now (.join c member ref)) := by
  obtain ⟨id, token⟩ := ref
  generalize hg : d.groups[id]?.getD (.create token now) = g
  have origin : d.groups[id]? = some g ∨ d.groups[id]? = none ∧ g = .create token now := by
    cases hs : d.groups[id]? with
    | none => exact .inr ⟨rfl, by simpa [hs] using hg.symm⟩
    | some g' => exact .inl (by simpa [hs] using hg)
  simp only [act, join, hg]
  by_cases htoken : g.token = token
  · subst htoken
    rw [if_neg (fun h => h rfl)]
    by_cases hc : g.members.contains c = true
    · rw [if_pos hc]
      apply Touches.setGroup rfl _ (by simp)
      rcases origin with some | ⟨_, created⟩
      · rw [some]
        exact .refresh (.inl ⟨member, rfl⟩)
      · rw [created] at hc
        simp [Group.create] at hc
    · rw [if_neg hc]
      by_cases full : policy.maxGroupSize ≤ g.members.size
      · rw [if_pos full]
        apply Touches.setGroup rfl _ (by simp)
        rcases origin with some | ⟨none, created⟩
        · rw [some]
          exact .refresh (c := c) (.inl ⟨member, rfl⟩)
        · rw [none]
          have zero : policy.maxGroupSize = 0 := by
            rw [created] at full
            simpa [Group.create] using full
          rw [created]
          exact .found rfl zero
      · rw [if_neg full]
        apply Touches.setGroup rfl
        · apply GroupStep.enter rfl hg _ (by omega)
          simpa using hc
        · intro b hb
          obtain rfl := List.mem_singleton.mp hb
          rfl
  · rw [if_pos htoken]
    exact .unchanged (.same _)

theorem removeMember_touches {d' : Directory} {c : ConnId} {id : NodeId}
    (action : ∀ g, d'.groups[id]? = some g → a.Removes c ⟨id, g.token⟩) :
    Touches (GroupStep d policy now a) d' id (d'.removeMember now c id) := by
  unfold removeMember
  cases hs : d'.groups[id]? with
  | none => exact .unchanged (.same _)
  | some g =>
    by_cases hc : g.members.contains c = true
    · obtain ⟨member, present⟩ := Table.contains_iff.mp hc
      dsimp only
      rw [if_pos hc]
      cases last : (g.members.erase c).isEmpty with
      | true =>
        rw [if_pos rfl]
        apply Touches.close
        rw [hs]
        exact .dissolve (action g hs) present last
      | false =>
        rw [if_neg Bool.false_ne_true]
        apply Touches.setGroup rfl
        · rw [hs]
          exact .part (action g hs) present last
        · intro b hb
          simp only [List.mem_append, List.mem_map, List.mem_singleton] at hb
          rcases hb with ⟨x, _, rfl⟩ | rfl
          · rfl
          · rfl
    · dsimp only
      rw [if_neg hc]
      exact .unchanged (.same _)

theorem leave_touches (d : Directory) (policy : Policy) (now : Nat) (c : ConnId) (ref : GroupRef) :
    Touches (GroupStep d policy now (.leave c ref)) d ref.id
      (d.act policy now (.leave c ref)) := by
  obtain ⟨id, token⟩ := ref
  simp only [act, leave]
  cases hs : d.groups[id]? with
  | none => exact .unchanged (.same _)
  | some g =>
    by_cases accepted : g.accepts c token = true
    · have same : g.token = token := by
        unfold Group.accepts at accepted
        simp only [Bool.and_eq_true, beq_iff_eq] at accepted
        exact accepted.1
      subst same
      dsimp only
      rw [if_pos accepted]
      apply removeMember_touches
      intro g' hg'
      rw [hs] at hg'
      cases hg'
      exact .inl rfl
    · dsimp only
      rw [if_neg accepted]
      exact .unchanged (.same _)

theorem removeConnection_covers (d : Directory) (policy : Policy) (now : Nat) (c : ConnId) :
    Covers (GroupStep d policy now (.removeConnection c)) d
      (d.act policy now (.removeConnection c)) := by
  refine (forEach_covers (fun _ => .same) Std.ExtTreeMap.nodup_keys ?_ d (fun _ _ => rfl)).1
  intro d' id _ _
  exact removeMember_touches fun _ _ => .inr rfl

theorem arriveAt_eq (d : Directory) (now : Nat) (c : ConnId) (member : NodeId) (id name : NodeId)
    (g : Group) (p : SyncPoint) (code : SyncCode) :
    ∃ agenda, d.arriveAt now c member id name g p code =
      ⟨⟨code, p.timeLeft now, g.members.ids⟩,
        { d with agenda }.setGroup id
          { g with points := g.points.insert name (p.meet c member g.members d.agenda.nextId) },
        [g.announceProgress id name (p.arrive c member) .join]⟩ := by
  unfold SyncPoint.meet
  dsimp only
  split
  · rename_i complete
    exact ⟨_, arriveAt_of_complete complete⟩
  · rename_i incomplete
    exact ⟨_, arriveAt_of_incomplete incomplete⟩

theorem arriveAt_point (d : Directory) (now : Nat) (c : ConnId) (member : NodeId)
    (id name : NodeId) (g : Group) (p : SyncPoint) (code : SyncCode) :
    (d.arriveAt now c member id name g p code).directory.point? id name =
      some (p.meet c member g.members d.agenda.nextId) := by
  obtain ⟨agenda, eq⟩ := arriveAt_eq d now c member id name g p code
  rw [eq]
  simp only [point?, setGroup_groups, if_pos, Option.bind_some, Table.getElem?_insert]

@[simp] theorem arriveAt_code (d : Directory) (now : Nat) (c : ConnId) (member id name : NodeId)
    (g : Group) (p : SyncPoint) (code : SyncCode) :
    (d.arriveAt now c member id name g p code).answer.code = code := by
  obtain ⟨agenda, eq⟩ := arriveAt_eq d now c member id name g p code
  rw [eq]

/-- The four ways in which a request to arrive at a sync point can go. -/
inductive SyncOutcome (d : Directory) (now : Nat) (c : ConnId) (ref : GroupRef)
    (terms : SyncTerms) : Change SyncReply → Prop where
  | rejected
      (stranger : ∀ g, d.groups[ref.id]? = some g → g.token = ref.token → g.members[c]? = none) :
      SyncOutcome d now c ref terms ⟨.rejected, d, []⟩
  | refresh {g : Group} {member : NodeId} {p : SyncPoint} {answer : SyncReply}
      (group : d.groups[ref.id]? = some g) (token : g.token = ref.token)
      (present : g.members[c]? = some member) (point : g.points[terms.point]? = some p)
      (reply : p.hasArrived c = true ∧ answer = ⟨.joined, p.timeLeft now, g.members.ids⟩ ∨
        p.hasArrived c = false ∧ p.phase = .resolving ∧ answer = ⟨.expired, 0, g.members.ids⟩) :
      SyncOutcome d now c ref terms
        ⟨answer, d.setGroup ref.id { g with lastActivity := now }, []⟩
  | arrive {g : Group} {member : NodeId} {p : SyncPoint} (group : d.groups[ref.id]? = some g)
      (token : g.token = ref.token) (present : g.members[c]? = some member)
      (point : g.points[terms.point]? = some p) (missing : p.arrived[c]? = none)
      (waiting : p.phase = .waiting) :
      SyncOutcome d now c ref terms
        (d.arriveAt now c member ref.id terms.point { g with lastActivity := now } p .joined)
  | create {g : Group} {member : NodeId} (group : d.groups[ref.id]? = some g)
      (token : g.token = ref.token) (present : g.members[c]? = some member)
      (fresh : g.points[terms.point]? = none) :
      SyncOutcome d now c ref terms
        (Directory.arriveAt
          { d with
            agenda := (d.agenda.schedule now (syncTimeout terms)
              (.resolve ref.id terms.point d.nextGeneration .timeout) false).2
            nextGeneration := d.nextGeneration + 1 }
          now c member ref.id terms.point { g with lastActivity := now }
          (.create d.nextGeneration (now + syncTimeout terms) d.agenda.nextId) .created)

theorem sync_outcome (d : Directory) (now : Nat) (c : ConnId) (ref : GroupRef)
    (terms : SyncTerms) : SyncOutcome d now c ref terms (d.sync now c ref terms) := by
  unfold sync syncBy
  dsimp only [Id.run, pure]
  cases group : d.groups[ref.id]? with
  | none =>
    apply SyncOutcome.rejected
    intro g hg
    rw [group] at hg
    contradiction
  | some g =>
    dsimp only
    cases present : g.members[c]? with
    | none =>
      apply SyncOutcome.rejected
      intro g' hg _
      rw [group] at hg
      cases hg
      exact present
    | some member =>
      dsimp only
      by_cases token : g.token = ref.token
      · rw [if_neg (fun h => h token)]
        cases point : g.points[terms.point]? with
        | none => exact .create group token present point
        | some p =>
          dsimp only
          cases arrived : p.hasArrived c with
          | true =>
            rw [if_pos rfl]
            exact .refresh group token present point (.inl ⟨arrived, rfl⟩)
          | false =>
            rw [if_neg Bool.false_ne_true]
            cases phase : p.phase with
            | resolving =>
              rw [if_pos rfl]
              exact .refresh group token present point (.inr ⟨arrived, phase, rfl⟩)
            | waiting =>
              rw [if_neg (fun h => nomatch h)]
              refine .arrive group token present point ?_ phase
              exact Std.ExtTreeMap.getElem?_eq_none_of_contains_eq_false arrived
      · rw [if_pos token]
        apply SyncOutcome.rejected
        intro g' hg same
        rw [group] at hg
        cases hg
        exact absurd same token

theorem sync_touches (d : Directory) (policy : Policy) (now : Nat) (c : ConnId) (ref : GroupRef)
    (terms : SyncTerms) :
    Touches (GroupStep d policy now (.sync c ref terms)) d ref.id
      (d.act policy now (.sync c ref terms)) := by
  have outcome := sync_outcome d now c ref terms
  show Touches _ d ref.id
    ((d.sync now c ref terms).directory, (d.sync now c ref terms).broadcasts)
  generalize hchange : d.sync now c ref terms = change at outcome
  cases outcome with
  | rejected stranger => exact .unchanged (.same _)
  | @refresh g member p answer group token present point reply =>
    apply Touches.setGroup rfl _ (by simp)
    rw [group]
    exact .refresh (.inr ⟨terms, by rw [token], Table.contains_of_getElem? present⟩)
  | @arrive g member p group token present point missing waiting =>
    have answer := congrArg (fun change => change.answer.code) hchange
    obtain ⟨agenda, eq⟩ := arriveAt_eq d now c member ref.id terms.point
      { g with lastActivity := now } p .joined
    rw [eq] at answer ⊢
    apply Touches.setGroup
    · rfl
    · rw [group]
      exact .arrive _ (by rw [token]) present point missing waiting (by rw [token]; exact answer)
    · intro b hb
      obtain rfl := List.mem_singleton.mp hb
      rfl
  | @create g member group token present fresh =>
    have answer := congrArg (fun change => change.answer.code) hchange
    obtain ⟨agenda, eq⟩ := arriveAt_eq
      { d with
        agenda := (d.agenda.schedule now (syncTimeout terms)
          (.resolve ref.id terms.point d.nextGeneration .timeout) false).2
        nextGeneration := d.nextGeneration + 1 }
      now c member ref.id terms.point { g with lastActivity := now }
      (.create d.nextGeneration (now + syncTimeout terms) d.agenda.nextId) .created
    rw [eq] at answer ⊢
    apply Touches.setGroup
    · rfl
    · rw [group]
      exact .create _ _ (by rw [token]) present fresh rfl (by rw [token]; exact answer)
    · intro b hb
      obtain rfl := List.mem_singleton.mp hb
      rfl

theorem resolve_touches {d' : Directory} {id name : NodeId} {generation : Nat}
    {resolution : Resolution} (action : a.Handles d now (.resolve id name generation resolution)) :
    Touches (GroupStep d policy now a) d' id (d'.resolve id name generation resolution) := by
  unfold resolve
  cases hs : d'.groups[id]? with
  | none => exact .unchanged (.same _)
  | some g =>
    dsimp only
    cases point : g.points[name]? with
    | none => exact .unchanged (.same _)
    | some p =>
      dsimp only
      by_cases same : p.generation = generation
      · subst same
        rw [if_pos rfl]
        apply Touches.setGroup rfl
        · rw [hs]
          exact .resolve action point
        · intro b hb
          obtain rfl := List.mem_singleton.mp hb
          rfl
      · rw [if_neg same]
        exact .unchanged (.same _)

theorem housekeeping_covers {d' : Directory} (action : a.Handles d now .housekeeping) :
    Covers (GroupStep d policy now a) d' (d'.housekeeping policy now) := by
  refine (forEach_covers (fun _ => .same) Std.ExtTreeMap.nodup_keys ?_ d' (fun _ _ => rfl)).1
  intro e id hid same
  obtain ⟨g, hg, idle⟩ := Table.mem_keys_filter.mp hid
  unfold closeGroup
  rw [same, hg]
  apply Touches.close
  rw [same, hg]
  exact .expire action (of_decide_eq_true idle)

theorem handle_covers {d' : Directory} {event : Event} (action : a.Handles d now event) :
    Covers (GroupStep d policy now a) d' (d'.handle policy now event) := by
  cases event with
  | housekeeping => exact housekeeping_covers action
  | resolve id name generation resolution => exact (resolve_touches action).covers fun _ => .same

/-- An action changes each group in one of the ways listed, and says of it what belongs to
that change. -/
theorem act_covers (d : Directory) (policy : Policy) (now : Nat) (a : Action) :
    Covers (GroupStep d policy now a) d (d.act policy now a) := by
  cases a with
  | join c member ref => exact (join_touches d policy now c member ref).covers fun _ => .same
  | leave c ref => exact (leave_touches d policy now c ref).covers fun _ => .same
  | removeConnection c => exact removeConnection_covers d policy now c
  | sync c ref terms => exact (sync_touches d policy now c ref terms).covers fun _ => .same
  | housekeeping =>
    have action : Action.Handles d now .housekeeping .housekeeping := rfl
    exact handle_covers action
  | watch interval => exact fun id => .same _
  | resolve id name generation resolution =>
    have action : Action.Handles d now (.resolve id name generation resolution)
      (.resolve id name generation resolution) := rfl
    exact handle_covers action
  | fire =>
    show Covers _ d (d.fire policy now)
    unfold fire
    cases hp : d.agenda.pop? now with
    | none => exact fun id => .same _
    | some popped =>
      obtain ⟨event, agenda⟩ := popped
      have action : Action.Handles d now .fire event := ⟨agenda, hp⟩
      have covers : Covers (GroupStep d policy now .fire) { d with agenda }
        ({ d with agenda }.handle policy now event) := handle_covers action
      exact covers

theorem GroupStep.member_source {id : NodeId} {s : Option Group} {g' : Group}
    {bs : List Broadcast} (step : GroupStep d policy now a id s (some g') bs) {c : ConnId}
    {member : NodeId} (present : g'.members[c]? = some member) :
    (∃ g, s = some g ∧ g.members[c]? = some member) ∨ ∃ token, a = .join c member ⟨id, token⟩ := by
  cases step with
  | same => exact .inl ⟨g', rfl, present⟩
  | refresh => exact .inl ⟨_, rfl, present⟩
  | create => exact .inl ⟨_, rfl, present⟩
  | arrive => exact .inl ⟨_, rfl, present⟩
  | resolve => exact .inl ⟨_, rfl, present⟩
  | found => simp [Group.create] at present
  | @enter _ g c' member' action group absent room =>
    change (g.members.insert c' member')[c]? = some member at present
    rw [Table.getElem?_insert] at present
    split at present
    · rename_i eq
      obtain rfl := Option.some.inj present
      exact .inr ⟨g.token, eq ▸ action⟩
    · left
      cases s with
      | none =>
        rw [← group] at present
        simp [Group.create] at present
      | some g₀ =>
        obtain rfl : g₀ = g := group
        exact ⟨g₀, rfl, present⟩
  | @part g c' member' action present' others =>
    change (g.members.erase c')[c]? = some member at present
    rw [Table.getElem?_erase] at present
    split at present
    · contradiction
    · exact .inl ⟨g, rfl, present⟩

end Steps

end Directory
end Muster
