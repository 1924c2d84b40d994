import Muster.Proofs.Directory.PointStep

/-! The agenda holds the end of each sync point, and the end of nothing else. Only a direct call
for the end of a sync point, which leaves the event behind, can break this. -/
namespace Muster

/-- How a sync point will end if it is not closed. -/
def SyncPoint.ending (p : SyncPoint) : Resolution :=
  match p.phase with
  | .waiting => .timeout
  | .resolving => .success

def SyncPoint.bare (p : SyncPoint) : SyncPoint := { p with arrived := ∅ }

@[simp] theorem SyncPoint.bare_depart (p : SyncPoint) (c : ConnId) : (p.depart c).bare = p.bare :=
  rfl

/-- The entry of the agenda that ends a sync point. -/
structure SyncPoint.EndsBy (p : SyncPoint) (id name : NodeId) (e : Entry Event) : Prop where
  number : e.id = p.event
  payload : e.payload = .resolve id name p.generation p.ending
  once : e.recurring = false
  deadline : p.phase = .waiting → e.trigger = p.deadline

theorem SyncPoint.EndsBy.of_bare_eq {p q : SyncPoint} {id name : NodeId} {e : Entry Event}
    (h : p.EndsBy id name e) (same : p.bare = q.bare) : q.EndsBy id name e := by
  obtain ⟨generation, arrived, deadline, event, phase⟩ := p
  obtain ⟨generation', arrived', deadline', event', phase'⟩ := q
  unfold bare at same
  injection same with hgeneration _ hdeadline hevent hphase
  dsimp only at hgeneration hdeadline hevent hphase
  subst hgeneration hdeadline hevent hphase
  exact ⟨h.number, h.payload, h.once, h.deadline⟩

/-- Sync points and their ends on the agenda belong to each other. -/
structure Armed (points : NodeId → NodeId → Option SyncPoint) (agenda : Agenda Event) : Prop where
  live : ∀ id name p, points id name = some p → ∃ e ∈ agenda.entries, p.EndsBy id name e
  owned : ∀ e ∈ agenda.entries, ∀ id name generation resolution,
    e.payload = .resolve id name generation resolution →
      ∃ p, points id name = some p ∧ p.EndsBy id name e

namespace Armed
variable {points points' : NodeId → NodeId → Option SyncPoint} {agenda agenda' : Agenda Event}

theorem congr (h : Armed points agenda)
    (same : ∀ id name, (points' id name).map SyncPoint.bare =
      (points id name).map SyncPoint.bare) : Armed points' agenda := by
  constructor
  · intro id name p' hp'
    have eq := same id name
    rw [hp'] at eq
    obtain ⟨p, hp, bare⟩ := Option.map_eq_some_iff.mp eq.symm
    obtain ⟨e, he, ends⟩ := h.live id name p hp
    exact ⟨e, he, ends.of_bare_eq bare⟩
  · intro e he id name generation resolution payload
    obtain ⟨p, hp, ends⟩ := h.owned e he id name generation resolution payload
    have eq := same id name
    rw [hp] at eq
    obtain ⟨p', hp', bare⟩ := Option.map_eq_some_iff.mp eq
    exact ⟨p', hp', ends.of_bare_eq bare.symm⟩

theorem place_unique (h : Armed points agenda) {id name id' name' : NodeId} {p p' : SyncPoint}
    (hp : points id name = some p) (hp' : points id' name' = some p')
    (same : p.event = p'.event) : id = id' ∧ name = name' := by
  obtain ⟨e, he, ends⟩ := h.live id name p hp
  obtain ⟨e', he', ends'⟩ := h.live id' name' p' hp'
  have eq := Agenda.eq_of_id_eq he he' (by rw [ends.number, ends'.number, same])
  subst eq
  have payload := ends.payload.symm.trans ends'.payload
  injection payload with id name
  exact ⟨id, name⟩

theorem retire (h : Armed points agenda) (gone : NodeId → NodeId → Prop)
    (kept : ∀ id name p, points' id name = some p ↔ points id name = some p ∧ ¬gone id name)
    (entries : ∀ e, e ∈ agenda'.entries ↔ e ∈ agenda.entries ∧
      ∀ id name p, gone id name → points id name = some p → e.id ≠ p.event) :
    Armed points' agenda' := by
  constructor
  · intro id name p hp'
    obtain ⟨hp, stays⟩ := (kept id name p).mp hp'
    obtain ⟨e, he, ends⟩ := h.live id name p hp
    refine ⟨e, (entries e).mpr ⟨he, ?_⟩, ends⟩
    intro id' name' p' gone' hp' same
    obtain ⟨rfl, rfl⟩ := h.place_unique hp hp' (by rw [← ends.number, same])
    exact stays gone'
  · intro e he id name generation resolution payload
    obtain ⟨he, other⟩ := (entries e).mp he
    obtain ⟨p, hp, ends⟩ := h.owned e he id name generation resolution payload
    refine ⟨p, (kept id name p).mpr ⟨hp, ?_⟩, ends⟩
    intro gone'
    exact other id name p gone' hp ends.number

/-- A sync point is set up together with the event that will end it. -/
theorem arm (h : Armed points agenda) {id name : NodeId} {p : SyncPoint} {now delay : Nat}
    {event : Event} (absent : points id name = none) (number : p.event = agenda.nextId)
    (payload : event = .resolve id name p.generation p.ending)
    (deadline : p.phase = .waiting → p.deadline = now + delay)
    (set : ∀ id' name', points' id' name' =
      if id = id' ∧ name = name' then some p else points id' name') :
    Armed points' (agenda.schedule now delay event false).2 := by
  subst payload
  have new : p.EndsBy id name
      ⟨now + delay, delay, false, agenda.nextId, .resolve id name p.generation p.ending⟩ :=
    ⟨number.symm, rfl, rfl, fun waiting => (deadline waiting).symm⟩
  constructor
  · intro id' name' p' hp'
    rw [set] at hp'
    split at hp'
    · rename_i here
      obtain ⟨rfl, rfl⟩ := here
      obtain rfl := Option.some.inj hp'
      exact ⟨_, Agenda.mem_schedule.mpr (.inl rfl), new⟩
    · obtain ⟨e, he, ends⟩ := h.live id' name' p' hp'
      exact ⟨e, Agenda.mem_schedule.mpr (.inr he), ends⟩
  · intro e he id' name' generation resolution payload
    rcases Agenda.mem_schedule.mp he with rfl | he
    · injection payload with hid hname
      subst hid hname
      exact ⟨p, by rw [set, if_pos ⟨rfl, rfl⟩], new⟩
    · obtain ⟨q, hq, ends⟩ := h.owned e he id' name' generation resolution payload
      refine ⟨q, ?_, ends⟩
      rw [set, if_neg, hq]
      rintro ⟨rfl, rfl⟩
      rw [absent] at hq
      contradiction

/-- When the last member arrives, success takes the place of the timeout. -/
theorem complete (h : Armed points agenda) {id name : NodeId} {p q : SyncPoint} (now : Nat)
    (here : points id name = some p) (number : q.event = agenda.nextId)
    (resolving : q.phase = .resolving) (same : q.generation = p.generation)
    (set : ∀ id' name', points' id' name' =
      if id = id' ∧ name = name' then some q else points id' name') :
    Armed points'
      ((agenda.cancel p.event).schedule now 0 (.resolve id name p.generation .success) false).2 := by
  have between : Armed (fun id' name' => if id = id' ∧ name = name' then none else points id' name')
      (agenda.cancel p.event) := by
    apply h.retire fun id' name' => id = id' ∧ name = name'
    · intro id' name' q
      split
      · rename_i there
        simp [there]
      · rename_i elsewhere
        simp [elsewhere]
    · intro e
      rw [Agenda.mem_cancel]
      constructor
      · rintro ⟨he, other⟩
        refine ⟨he, ?_⟩
        rintro _ _ p' ⟨rfl, rfl⟩ hp'
        rw [here] at hp'
        cases hp'
        exact other
      · rintro ⟨he, other⟩
        exact ⟨he, other id name p ⟨rfl, rfl⟩ here⟩
  apply between.arm (if_pos ⟨rfl, rfl⟩) number
  · rw [same, SyncPoint.ending, resolving]
  · rw [resolving]
    exact nofun
  · intro id' name'
    rw [set]
    split
    · rfl
    · rfl

theorem of_housekeeping (h : Armed points agenda)
    (same : ∀ e : Entry Event, e.payload ≠ .housekeeping →
      (e ∈ agenda'.entries ↔ e ∈ agenda.entries)) : Armed points agenda' := by
  constructor
  · intro id name p hp
    obtain ⟨e, he, ends⟩ := h.live id name p hp
    refine ⟨e, (same e ?_).mpr he, ends⟩
    rw [ends.payload]
    exact nofun
  · intro e he id name generation resolution payload
    refine h.owned e ((same e ?_).mp he) id name generation resolution payload
    rw [payload]
    exact nofun

end Armed

namespace Directory
variable {d : Directory}

theorem setGroup_point? (d : Directory) (id k name : NodeId) (g : Group) :
    (d.setGroup id g).point? k name = if id = k then g.points[name]? else d.point? k name := by
  unfold point?
  rw [setGroup_groups]
  split
  · rfl
  · rfl

theorem close_point? (d : Directory) (id k name : NodeId) (g : Group) :
    (d.close id g).1.point? k name = if id = k then none else d.point? k name := by
  unfold point?
  rw [close_groups]
  split
  · rfl
  · rfl

theorem point?_of_group {id : NodeId} {g : Group} (group : d.groups[id]? = some g)
    (name : NodeId) : d.point? id name = g.points[name]? := by
  unfold point?
  rw [group]
  rfl

theorem close_armed {id : NodeId} {g : Group} (h : Armed d.point? d.agenda)
    (points : ∀ name, g.points[name]? = d.point? id name) :
    Armed (d.close id g).1.point? (d.close id g).1.agenda := by
  apply h.retire fun id' _ => id = id'
  · intro id' name p
    rw [close_point?]
    by_cases same : id = id'
    · simp [same]
    · simp [same]
  · intro e
    show e ∈ (g.cancelPoints d.agenda).entries ↔ _
    rw [Group.mem_cancelPoints]
    constructor
    · rintro ⟨he, other⟩
      refine ⟨he, ?_⟩
      rintro _ name p rfl hp
      exact other name p (by rw [points, hp])
    · rintro ⟨he, other⟩
      refine ⟨he, ?_⟩
      intro name p hp
      exact other id name p rfl (by rw [← points, hp])

theorem closeGroup_armed (id : NodeId) (h : Armed d.point? d.agenda) :
    Armed (d.closeGroup id).1.point? (d.closeGroup id).1.agenda := by
  unfold closeGroup
  cases group : d.groups[id]? with
  | none => exact h
  | some g => exact close_armed h fun name => (point?_of_group group name).symm

theorem removeMember_armed (now : Nat) (c : ConnId) (id : NodeId) (h : Armed d.point? d.agenda) :
    Armed (d.removeMember now c id).1.point? (d.removeMember now c id).1.agenda := by
  unfold removeMember
  cases group : d.groups[id]? with
  | none => exact h
  | some g =>
    dsimp only
    split
    · split
      · exact close_armed h fun name => (point?_of_group group name).symm
      · apply h.congr
        intro id' name
        rw [setGroup_point?]
        split
        · rename_i same
          subst same
          rw [departAll_getElem?, point?_of_group group, Option.map_map]
          rfl
        · rfl
    · exact h

theorem arriveAt_armed {now : Nat} {c : ConnId} {member id name : NodeId} {g : Group}
    {p : SyncPoint} {code : SyncCode} {points : NodeId → NodeId → Option SyncPoint}
    (h : Armed points d.agenda)
    (set : ∀ id' name', points id' name' = if id = id' then
      if name = name' then some p else g.points[name']? else d.point? id' name') :
    Armed (d.arriveAt now c member id name g p code).directory.point?
      (d.arriveAt now c member id name g p code).directory.agenda := by
  have after : ∀ (agenda : Agenda Event) (q : SyncPoint) (id' name' : NodeId),
      (Directory.setGroup { d with agenda } id
        { g with points := g.points.insert name q }).point? id' name' =
      if id = id' ∧ name = name' then some q else points id' name' := by
    intro agenda q id' name'
    rw [setGroup_point?, set, Table.getElem?_insert]
    by_cases hid : id = id'
    · by_cases hname : name = name'
      · simp [hid, hname]
      · simp [hid, hname]
    · simp [hid]
      rfl
  have here : points id name = some p := by
    rw [set, if_pos rfl, if_pos rfl]
  by_cases complete : (p.arrive c member).isComplete g.members = true
  · rw [arriveAt_of_complete complete]
    apply h.complete (p := p) (q := (p.arrive c member).beginResolving d.agenda.nextId) now here
    · rfl
    · rfl
    · rfl
    · exact after _ _
  · rw [arriveAt_of_incomplete complete]
    apply h.congr
    intro id' name'
    show Option.map _ ((Directory.setGroup { d with agenda := d.agenda } id
      { g with points := g.points.insert name (p.arrive c member) }).point? id' name') = _
    rw [after]
    split
    · rename_i there
      obtain ⟨rfl, rfl⟩ := there
      rw [here]
      rfl
    · rfl

theorem sync_armed (now : Nat) (c : ConnId) (ref : GroupRef) (terms : SyncTerms)
    (h : Armed d.point? d.agenda) :
    Armed (d.sync now c ref terms).directory.point? (d.sync now c ref terms).directory.agenda := by
  have outcome := sync_outcome d now c ref terms
  generalize d.sync now c ref terms = change at outcome ⊢
  cases outcome with
  | rejected => exact h
  | @refresh g member p answer group token present point reply =>
    apply h.congr
    intro id name
    rw [setGroup_point?]
    split
    · rename_i same
      subst same
      rw [point?_of_group group]
    · rfl
  | @arrive g member p group token present point missing waiting =>
    apply arriveAt_armed h
    intro id name
    split
    · rename_i same
      subst same
      rw [point?_of_group group]
      split
      · rename_i there
        rw [← there, point]
      · rfl
    · rfl
  | @create g member group token present fresh =>
    let p : SyncPoint := .create d.nextGeneration (now + syncTimeout terms) d.agenda.nextId
    have armed : Armed (fun id name => if ref.id = id then
        if terms.point = name then some p else g.points[name]? else d.point? id name)
        (d.agenda.schedule now (syncTimeout terms)
          (.resolve ref.id terms.point d.nextGeneration .timeout) false).2 := by
      apply h.arm (p := p)
      · rw [point?_of_group group, fresh]
      · rfl
      · rfl
      · exact fun _ => rfl
      · intro id name
        by_cases hid : ref.id = id
        · subst hid
          simp [point?_of_group group]
        · simp [hid]
    exact arriveAt_armed armed fun _ _ => rfl

theorem PointStep.of_join {now : Nat} {c : ConnId} {member id name : NodeId} {ref : GroupRef}
    {m m' : Members} {s s' : Option SyncPoint} {news : List Broadcast}
    (h : PointStep d now (.join c member ref) id name m m' s s' news) : s' = s := by
  cases h with
  | keep _ => rfl
  | absent => rfl
  | create _ _ action => exact nomatch action
  | arrive _ action => exact nomatch action
  | depart removes => exact nomatch removes
  | close closes =>
    rcases closes with ⟨_, removes⟩ | housekeeping
    · exact nomatch removes
    · exact housekeeping.elim
  | resolve resolves => exact resolves.elim

theorem join_agenda (d : Directory) (policy : Policy) (now : Nat) (c : ConnId) (member : NodeId)
    (ref : GroupRef) : (d.join policy now c member ref).directory.agenda = d.agenda := by
  unfold join
  dsimp only
  split
  · rfl
  · split
    · rfl
    · split
      · rfl
      · rfl

theorem resolve_agenda (d : Directory) (id name : NodeId) (generation : Nat)
    (resolution : Resolution) :
    (d.resolve id name generation resolution).1.agenda = d.agenda := by
  unfold resolve
  split
  · rfl
  · split
    · rfl
    · split
      · rfl
      · rfl

theorem resolve_point? (d : Directory) {id name : NodeId} {p : SyncPoint} {generation : Nat}
    {resolution : Resolution} (here : d.point? id name = some p) (same : p.generation = generation)
    (id' name' : NodeId) :
    (d.resolve id name generation resolution).1.point? id' name' =
      if id = id' ∧ name = name' then none else d.point? id' name' := by
  obtain ⟨g, group, point⟩ := Option.bind_eq_some_iff.mp here
  unfold resolve
  rw [group]
  dsimp only
  rw [point]
  dsimp only
  rw [if_pos same, setGroup_point?, Table.getElem?_erase]
  by_cases hid : id = id'
  · subst hid
    by_cases hname : name = name'
    · simp [hname]
    · simp [hname, point?_of_group group]
  · simp [hid]

theorem housekeeping_armed (h : Armed d.point? d.agenda) {agenda : Agenda Event} {now : Nat}
    {e : Entry Event} (he : e ∈ d.agenda.entries) (payload : e.payload = .housekeeping)
    (entries : ∀ f, f ∈ agenda.entries ↔
      f ∈ d.agenda.entries ∧ f.id ≠ e.id ∨ e.recurring = true ∧ f = e.next now) :
    Armed d.point? agenda := by
  apply h.of_housekeeping
  intro f other
  rw [entries]
  constructor
  · rintro (⟨hf, -⟩ | ⟨-, rfl⟩)
    · exact hf
    · exact absurd payload other
  · intro hf
    refine .inl ⟨hf, fun same => other ?_⟩
    rw [Agenda.eq_of_id_eq hf he same, payload]

/-- The event that ends a sync point leaves the agenda with it. -/
theorem resolve_armed (h : Armed d.point? d.agenda) {agenda : Agenda Event} {now : Nat}
    {e : Entry Event} (he : e ∈ d.agenda.entries) {id name : NodeId} {generation : Nat}
    {resolution : Resolution} (payload : e.payload = .resolve id name generation resolution)
    (entries : ∀ f, f ∈ agenda.entries ↔
      f ∈ d.agenda.entries ∧ f.id ≠ e.id ∨ e.recurring = true ∧ f = e.next now) :
    Armed (Directory.resolve { d with agenda } id name generation resolution).1.point?
      (Directory.resolve { d with agenda } id name generation resolution).1.agenda := by
  obtain ⟨p, here, ends⟩ := h.owned e he id name generation resolution payload
  have same : p.generation = generation := by
    have eq := ends.payload.symm.trans payload
    injection eq
  apply h.retire fun id' name' => id = id' ∧ name = name'
  · intro id' name' q
    rw [resolve_point? { d with agenda } here same]
    split
    · rename_i there
      simp [there]
    · rename_i elsewhere
      simp only [elsewhere, not_false_eq_true, and_true]
      rfl
  · intro f
    rw [resolve_agenda, entries]
    constructor
    · rintro (⟨hf, other⟩ | ⟨recurring, -⟩)
      · refine ⟨hf, ?_⟩
        rintro _ _ q ⟨rfl, rfl⟩ hq
        rw [here] at hq
        cases hq
        rw [← ends.number]
        exact other
      · rw [ends.once] at recurring
        contradiction
    · rintro ⟨hf, other⟩
      refine .inl ⟨hf, ?_⟩
      rw [ends.number]
      exact other id name p ⟨rfl, rfl⟩ here

theorem fire_armed (armed : Armed d.point? d.agenda) (policy : Policy) (now : Nat) :
    Armed (d.fire policy now).1.point? (d.fire policy now).1.agenda := by
  unfold fire
  cases popped : d.agenda.pop? now with
  | none => exact armed
  | some first =>
    obtain ⟨event, agenda⟩ := first
    obtain ⟨e, he, payload, -, entries⟩ := Agenda.pop?_eq_some popped
    cases event with
    | housekeeping =>
      have rest := housekeeping_armed armed he payload entries
      apply forEach_preserves (fun d => Armed d.point? d.agenda) _ _ { d with agenda } rest
      exact fun d id h => closeGroup_armed id h
    | resolve id name generation resolution => exact resolve_armed armed he payload entries

/-- No action but a direct call for an end separates a sync point from the event that ends it. -/
theorem act_armed {policy : Policy} {now : Nat} {a : Action} (h : Armed d.point? d.agenda)
    (unforced : a.isResolve = false) :
    Armed (d.act policy now a).1.point? (d.act policy now a).1.agenda := by
  cases a with
  | join c member ref =>
    show Armed _ (d.join policy now c member ref).directory.agenda
    rw [join_agenda]
    apply h.congr
    intro id name
    rw [(act_pointStep d policy now (.join c member ref) id name).of_join]
  | leave c ref =>
    show Armed (d.leave now c ref).directory.point? (d.leave now c ref).directory.agenda
    unfold leave
    split
    · exact h
    · split
      · exact removeMember_armed now c ref.id h
      · exact h
  | removeConnection c =>
    apply forEach_preserves (fun d => Armed d.point? d.agenda) _ _ d h
    exact fun d id h => removeMember_armed now c id h
  | sync c ref terms => exact sync_armed now c ref terms h
  | housekeeping =>
    apply forEach_preserves (fun d => Armed d.point? d.agenda) _ _ d h
    exact fun d id h => closeGroup_armed id h
  | watch interval =>
    apply h.of_housekeeping
    intro e other
    show e ∈ (d.agenda.schedule now interval .housekeeping true).2.entries ↔ _
    rw [Agenda.mem_schedule, or_iff_right]
    rintro rfl
    exact other rfl
  | resolve id name generation resolution =>
    exact nomatch unforced
  | fire => exact fire_armed h policy now

theorem Run.armed {policy : Policy} {past : List Episode} (h : Run policy past d)
    (unforced : Unforced past) : Armed d.point? d.agenda := by
  induction h with
  | start =>
    constructor
    · intro id name p hp
      rw [empty_point?] at hp
      contradiction
    · intro e he
      exact absurd he List.not_mem_nil
  | act now a run ih =>
    apply act_armed
    · exact ih fun e he => unforced e (List.mem_cons_of_mem _ he)
    · exact unforced _ List.mem_cons_self

end Directory
end Muster
