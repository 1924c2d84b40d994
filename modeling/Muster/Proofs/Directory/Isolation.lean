import Muster.Proofs.Directory.Activity

/-! What happens in one group is nothing to the others. All groups share one agenda, from which a
group takes the ends of its sync points by their numbers; a number that a sync point has kept is
never that of an event of another one. -/
namespace Muster

def Event.group? : Event → Option NodeId
  | .housekeeping => none
  | .resolve group .. => some group

/-- Whether the numbers that sync points have kept are used up, and of no event but their own
end. -/
def Numbered (points : NodeId → NodeId → Option SyncPoint) (agenda : Agenda Event) : Prop :=
  ∀ id name p, points id name = some p → p.event < agenda.nextId ∧
    ∀ e ∈ agenda.entries, e.id = p.event →
      ∃ resolution, e.payload = .resolve id name p.generation resolution

namespace Numbered
variable {points points' : NodeId → NodeId → Option SyncPoint} {agenda agenda' : Agenda Event}

theorem group_eq (h : Numbered points agenda) {id name : NodeId} {p : SyncPoint} {e : Entry Event}
    (here : points id name = some p) (mem : e ∈ agenda.entries) (number : e.id = p.event) :
    e.payload.group? = some id := by
  obtain ⟨resolution, payload⟩ := (h id name p here).2 e mem number
  rw [payload]
  rfl

theorem fewer (h : Numbered points agenda)
    (kept : ∀ id name p', points' id name = some p' →
      ∃ p, points id name = some p ∧ p'.bare = p.bare)
    (next : agenda.nextId ≤ agenda'.nextId)
    (entries : ∀ e' ∈ agenda'.entries,
      (∃ e ∈ agenda.entries, e.id = e'.id ∧ e.payload = e'.payload) ∨ agenda.nextId ≤ e'.id) :
    Numbered points' agenda' := by
  intro id name p' here'
  obtain ⟨p, here, same⟩ := kept id name p' here'
  have event : p'.event = p.event :=
    show p'.bare.event = p.bare.event from congrArg SyncPoint.event same
  have generation : p'.generation = p.generation :=
    show p'.bare.generation = p.bare.generation from congrArg SyncPoint.generation same
  obtain ⟨used, ends⟩ := h id name p here
  rw [event, generation]
  refine ⟨Nat.lt_of_lt_of_le used next, fun e' mem' number => ?_⟩
  rcases entries e' mem' with ⟨e, mem, same, payload⟩ | new
  · rw [← payload]
    exact ends e mem (same.trans number)
  · omega

theorem set (h : Numbered points agenda) {id name : NodeId} {q : SyncPoint} (now delay : Nat)
    {resolution : Resolution} (number : q.event = agenda.nextId)
    (set : ∀ id' name', points' id' name' =
      if id = id' ∧ name = name' then some q else points id' name') :
    Numbered points' (agenda.schedule now delay
      (.resolve id name q.generation resolution) false).2 := by
  intro id' name' p here
  rw [set] at here
  let event : Event := .resolve id name q.generation resolution
  have next : (agenda.schedule now delay event false).2.nextId = agenda.nextId + 1 := rfl
  rw [next]
  split at here
  · rename_i there
    obtain ⟨rfl, rfl⟩ := there
    obtain rfl := Option.some.inj here
    refine ⟨by omega, fun e mem same => ?_⟩
    rcases Agenda.mem_schedule.mp mem with rfl | old
    · exact ⟨resolution, rfl⟩
    · have := agenda.ids_lt e old
      omega
  · obtain ⟨used, ends⟩ := h id' name' p here
    refine ⟨by omega, fun e mem same => ?_⟩
    rcases Agenda.mem_schedule.mp mem with rfl | old
    · change agenda.nextId = p.event at same
      omega
    · exact ends e old same

theorem cancel (h : Numbered points agenda) (number : Nat) :
    Numbered points (agenda.cancel number) :=
  h.fewer (fun _ _ p here => ⟨p, here, rfl⟩) (Nat.le_refl _)
    fun e mem => .inl ⟨e, (Agenda.mem_cancel.mp mem).1, rfl, rfl⟩

end Numbered

theorem Group.cancelPoints_nextId (g : Group) (agenda : Agenda Event) :
    (g.cancelPoints agenda).nextId = agenda.nextId := by
  unfold cancelPoints
  induction g.points.values generalizing agenda with
  | nil => rfl
  | cons p ps ih => exact ih (agenda.cancel p.event)

namespace Directory
variable {d d' d'' : Directory} {id k : NodeId}

/-- Whether a change is confined to one group and events that are about it. -/
structure Confined (id : NodeId) (d d' : Directory) : Prop where
  others : ∀ k, k ≠ id → d'.groups[k]? = d.groups[k]?
  events : ∀ e : Entry Event, e.payload.group? ≠ some id →
    (e ∈ d'.agenda.entries ↔ e ∈ d.agenda.entries)
  numbered : Numbered d'.point? d'.agenda

namespace Confined

theorem refl (h : Numbered d.point? d.agenda) (id : NodeId) : Confined id d d :=
  ⟨fun _ _ => rfl, fun _ _ => Iff.rfl, h⟩

theorem trans (h : Confined id d d') (h' : Confined id d' d'') : Confined id d d'' where
  others k other := (h'.others k other).trans (h.others k other)
  events e other := (h'.events e other).trans (h.events e other)
  numbered := h'.numbered

theorem setGroup (h : Numbered d.point? d.agenda) {g : Group}
    (kept : ∀ (name : NodeId) (p' : SyncPoint), g.points[name]? = some p' →
      ∃ p, d.point? id name = some p ∧ p'.bare = p.bare) : Confined id d (d.setGroup id g) where
  others k other := by rw [setGroup_groups, if_neg (Ne.symm other)]
  events _ _ := Iff.rfl
  numbered := by
    show Numbered _ d.agenda
    refine h.fewer ?_ (Nat.le_refl _) fun e mem => .inl ⟨e, mem, rfl, rfl⟩
    intro id' name p' here
    rw [setGroup_point?] at here
    split at here
    · rename_i same
      exact same ▸ kept name p' here
    · exact ⟨p', here, rfl⟩

theorem close (h : Numbered d.point? d.agenda) {g : Group}
    (points : ∀ name, g.points[name]? = d.point? id name) : Confined id d (d.close id g).1 where
  others k other := by rw [close_groups, if_neg (Ne.symm other)]
  events e other := by
    show e ∈ (g.cancelPoints d.agenda).entries ↔ _
    rw [Group.mem_cancelPoints, and_iff_left_iff_imp]
    intro mem name p here same
    exact other (h.group_eq ((points name).symm.trans here) mem same)
  numbered := by
    refine h.fewer ?_ ?_ fun e mem => .inl ⟨e, (Group.mem_cancelPoints.mp mem).1, rfl, rfl⟩
    · intro id' name p' here
      rw [close_point?] at here
      split at here
      · contradiction
      · exact ⟨p', here, rfl⟩
    · exact Nat.le_of_eq (g.cancelPoints_nextId d.agenda).symm

theorem schedule (h : Numbered d.point? d.agenda) (now delay : Nat) {nextGeneration : Nat}
    {event : Event} (own : event.group? = some id) :
    Confined id d
      { d with agenda := (d.agenda.schedule now delay event false).2, nextGeneration } where
  others _ _ := rfl
  events e other := by
    show e ∈ (d.agenda.schedule ..).2.entries ↔ _
    rw [Agenda.mem_schedule, or_iff_right]
    rintro rfl
    exact other own
  numbered := by
    refine h.fewer (fun _ _ p here => ⟨p, here, rfl⟩) (Nat.le_succ _) fun e mem => ?_
    rcases Agenda.mem_schedule.mp mem with rfl | old
    · exact .inr (Nat.le_refl _)
    · exact .inl ⟨e, old, rfl, rfl⟩

theorem arriveAt {now : Nat} {c : ConnId} {member name : NodeId} {g : Group} {p : SyncPoint}
    {code : SyncCode} {points : NodeId → NodeId → Option SyncPoint} (h : Numbered points d.agenda)
    (set : ∀ id' name', points id' name' = if id = id' then
      if name = name' then some p else g.points[name']? else d.point? id' name') :
    Confined id d (d.arriveAt now c member id name g p code).directory := by
  have after : ∀ (agenda : Agenda Event) (q : SyncPoint) (id' name' : NodeId),
      (Directory.setGroup { d with agenda } id
        { g with points := g.points.insert name q }).point? id' name' =
      if id = id' ∧ name = name' then some q else points id' name' := by
    intro agenda q id' name'
    rw [setGroup_point?, set, Table.getElem?_insert]
    by_cases hid : id = id'
    · by_cases hname : name = name'
      · simp [hid, hname]
      · simp [hid, hname]
    · simp [hid]
      rfl
  have here : points id name = some p := by
    rw [set, if_pos rfl, if_pos rfl]
  by_cases complete : (p.arrive c member).isComplete g.members = true
  · rw [arriveAt_of_complete complete]
    refine ⟨fun k other => ?_, fun e other => ?_, ?_⟩
    · rw [setGroup_groups, if_neg (Ne.symm other)]
    · show e ∈ ((d.agenda.cancel _).schedule ..).2.entries ↔ _
      rw [Agenda.mem_schedule, Agenda.mem_cancel]
      constructor
      · rintro (rfl | ⟨mem, -⟩)
        · exact absurd rfl other
        · exact mem
      · exact fun mem => .inr ⟨mem, fun same => other (h.group_eq here mem same)⟩
    · exact (h.cancel p.event).set (q := (p.arrive c member).beginResolving d.agenda.nextId) now 0
        rfl (after _ _)
  · rw [arriveAt_of_incomplete complete]
    refine ⟨fun k other => ?_, fun e other => Iff.rfl, ?_⟩
    · rw [setGroup_groups, if_neg (Ne.symm other)]
    · show Numbered _ d.agenda
      refine h.fewer ?_ (Nat.le_refl _) fun e mem => .inl ⟨e, mem, rfl, rfl⟩
      intro id' name' p' there
      change (Directory.setGroup { d with agenda := d.agenda } id
        { g with points := g.points.insert name (p.arrive c member) }).point? id' name' = _ at there
      rw [after] at there
      split at there
      · rename_i same
        obtain ⟨rfl, rfl⟩ := same
        obtain rfl := Option.some.inj there
        exact ⟨p, here, rfl⟩
      · exact ⟨p', there, rfl⟩

end Confined

section
variable (h : Numbered d.point? d.agenda) (policy : Policy) (now : Nat) (c : ConnId)
include h

theorem closeGroup_confined (id : NodeId) : Confined id d (d.closeGroup id).1 := by
  unfold closeGroup
  cases group : d.groups[id]? with
  | none => exact .refl h id
  | some g => exact .close h fun name => (point?_of_group group name).symm

theorem removeMember_confined (id : NodeId) : Confined id d (d.removeMember now c id).1 := by
  unfold removeMember
  cases group : d.groups[id]? with
  | none => exact .refl h id
  | some g =>
    dsimp only
    split
    · split
      · exact .close h fun name => (point?_of_group group name).symm
      · refine .setGroup h fun name p' here => ?_
        rw [departAll_getElem?] at here
        obtain ⟨p, before, rfl⟩ := Option.map_eq_some_iff.mp here
        exact ⟨p, (point?_of_group group name).trans before, rfl⟩
    · exact .refl h id

theorem leave_confined (ref : GroupRef) : Confined ref.id d (d.leave now c ref).directory := by
  unfold leave
  split
  · exact .refl h ref.id
  · split
    · exact removeMember_confined h now c ref.id
    · exact .refl h ref.id

theorem join_confined (member : NodeId) (ref : GroupRef) :
    Confined ref.id d (d.join policy now c member ref).directory := by
  generalize found : d.groups[ref.id]?.getD (.create ref.token now) = g
  have kept : ∀ (name : NodeId) (p : SyncPoint), g.points[name]? = some p →
      ∃ q, d.point? ref.id name = some q ∧ p.bare = q.bare := by
    intro name p here
    cases group : d.groups[ref.id]? with
    | none =>
      rw [group] at found
      rw [← found] at here
      exact nomatch Std.ExtTreeMap.getElem?_empty.symm.trans here
    | some g' =>
      rw [group] at found
      obtain rfl : g' = g := found
      exact ⟨p, (point?_of_group group name).trans here, rfl⟩
  unfold join
  rw [found]
  dsimp only
  split
  · exact .refl h ref.id
  · split
    · exact .setGroup h kept
    · split
      · exact .setGroup h kept
      · exact .setGroup h kept

theorem sync_confined (ref : GroupRef) (terms : SyncTerms) :
    Confined ref.id d (d.sync now c ref terms).directory := by
  have outcome := sync_outcome d now c ref terms
  generalize d.sync now c ref terms = change at outcome
  cases outcome with
  | rejected => exact .refl h ref.id
  | @refresh g member p answer group token present point reply =>
    exact .setGroup h fun name q here => ⟨q, (point?_of_group group name).trans here, rfl⟩
  | @arrive g member p group token present point missing waiting =>
    refine .arriveAt h fun id name => ?_
    split
    · rename_i same
      subst same
      rw [point?_of_group group]
      split
      · rename_i there
        rw [← there, point]
      · rfl
    · rfl
  | @create g member group token present fresh =>
    let p : SyncPoint := .create d.nextGeneration (now + syncTimeout terms) d.agenda.nextId
    have scheduled : Numbered (fun id name => if ref.id = id then
        if terms.point = name then some p else g.points[name]? else d.point? id name)
        (d.agenda.schedule now (syncTimeout terms)
          (.resolve ref.id terms.point p.generation .timeout) false).2 := by
      refine h.set now _ rfl fun id name => ?_
      by_cases hid : ref.id = id
      · subst hid
        simp [point?_of_group group]
      · simp [hid]
    exact (Confined.schedule h now _ rfl).trans (.arriveAt scheduled fun _ _ => rfl)

theorem resolve_confined (id name : NodeId) (generation : Nat) (resolution : Resolution) :
    Confined id d (d.resolve id name generation resolution).1 := by
  unfold resolve
  split
  · exact .refl h id
  · rename_i g group
    split
    · exact .refl h id
    · split
      · refine .setGroup h fun name' p here => ?_
        rw [Table.getElem?_erase] at here
        split at here
        · contradiction
        · exact ⟨p, (point?_of_group group name').trans here, rfl⟩
      · exact .refl h id

theorem pop_numbered {event : Event} {agenda : Agenda Event}
    (taken : d.agenda.pop? now = some (event, agenda)) : Numbered d.point? agenda := by
  obtain ⟨e, mem, -, -, entries⟩ := Agenda.pop?_eq_some taken
  have next : agenda.nextId = d.agenda.nextId := Agenda.pop?_nextId taken
  refine h.fewer (fun _ _ p here => ⟨p, here, rfl⟩) (Nat.le_of_eq next.symm) fun f left => ?_
  rcases (entries f).mp left with ⟨old, -⟩ | ⟨-, rfl⟩
  · exact .inl ⟨f, old, rfl, rfl⟩
  · exact .inl ⟨e, mem, rfl, rfl⟩

theorem handle_numbered (event : Event) :
    Numbered (d.handle policy now event).1.point? (d.handle policy now event).1.agenda := by
  cases event with
  | housekeeping =>
    apply forEach_preserves (fun d => Numbered d.point? d.agenda) _ _ d h
    exact fun d id h => (closeGroup_confined h id).numbered
  | resolve id name generation resolution =>
    exact (resolve_confined h id name generation resolution).numbered

theorem act_numbered (a : Action) :
    Numbered (d.act policy now a).1.point? (d.act policy now a).1.agenda := by
  cases a with
  | join c member ref => exact (join_confined h policy now c member ref).numbered
  | leave c ref => exact (leave_confined h now c ref).numbered
  | removeConnection c =>
    apply forEach_preserves (fun d => Numbered d.point? d.agenda) _ _ d h
    exact fun d id h => (removeMember_confined h now c id).numbered
  | sync c ref terms => exact (sync_confined h now c ref terms).numbered
  | housekeeping => exact handle_numbered h policy now .housekeeping
  | watch interval =>
    refine h.fewer (fun _ _ p here => ⟨p, here, rfl⟩) (Nat.le_succ _) fun e mem => ?_
    rcases Agenda.mem_schedule.mp mem with rfl | old
    · exact .inr (Nat.le_refl _)
    · exact .inl ⟨e, old, rfl, rfl⟩
  | resolve id name generation resolution =>
    exact handle_numbered h policy now (.resolve id name generation resolution)
  | fire =>
    show Numbered (d.fire policy now).1.point? (d.fire policy now).1.agenda
    cases taken : d.agenda.pop? now with
    | none =>
      unfold fire
      rw [taken]
      exact h
    | some popped =>
      obtain ⟨event, agenda⟩ := popped
      have rest : Numbered { d with agenda }.point? agenda := pop_numbered h now taken
      rw [fire_of_pop? policy taken]
      exact handle_numbered rest policy now event

end

theorem Run.numbered {policy : Policy} {past : List Episode} (h : Run policy past d) :
    Numbered d.point? d.agenda := by
  induction h with
  | start =>
    intro id name p here
    exact nomatch (empty_point? id name).symm.trans here
  | act now a run ih => exact act_numbered ih _ now a

/-- What another group is after a change: it is as it was, with the same sync points, whose events
are on the agenda as they were, and nothing is said about it. -/
structure Untouched (id : NodeId) (d : Directory) (out : Directory × List Broadcast) : Prop where
  group : out.1.groups[id]? = d.groups[id]?
  events : ∀ e : Entry Event, e.payload.group? = some id →
    (e ∈ out.1.agenda.entries ↔ e ∈ d.agenda.entries)
  ends : ∀ (name : NodeId) (p : SyncPoint), d.point? id name = some p →
    ∀ e : Entry Event, e.id = p.event → (e ∈ out.1.agenda.entries ↔ e ∈ d.agenda.entries)
  silent : ∀ b ∈ out.2, b.news.group.id ≠ id

namespace Untouched
variable {bs bs' : List Broadcast} {out : Directory × List Broadcast}

theorem refl (id : NodeId) (d : Directory) : Untouched id d (d, []) :=
  ⟨rfl, fun _ _ => Iff.rfl, fun _ _ _ _ _ => Iff.rfl, nofun⟩

theorem trans (h : Untouched id d (d', bs)) (h' : Untouched id d' (d'', bs')) :
    Untouched id d (d'', bs ++ bs') where
  group := h'.group.trans h.group
  events e own := (h'.events e own).trans (h.events e own)
  ends name p here e number := by
    have there : d'.point? id name = some p := by
      unfold point? at here ⊢
      rw [h.group, here]
    exact (h'.ends name p there e number).trans (h.ends name p here e number)
  silent b mem := (List.mem_append.mp mem).elim (h.silent b) (h'.silent b)

/-- Events that are known by a number that a sync point has kept are known by what they do. -/
theorem of_events (h : Numbered d.point? d.agenda) (h' : Numbered out.1.point? out.1.agenda)
    (group : out.1.groups[id]? = d.groups[id]?)
    (events : ∀ e : Entry Event, e.payload.group? = some id →
      (e ∈ out.1.agenda.entries ↔ e ∈ d.agenda.entries))
    (silent : ∀ b ∈ out.2, b.news.group.id ≠ id) : Untouched id d out where
  group := group
  events := events
  silent := silent
  ends name p here e number := by
    have there : out.1.point? id name = some p := by
      unfold point? at here ⊢
      rw [group, here]
    constructor
    · exact fun mem => (events e (h'.group_eq there mem number)).mp mem
    · exact fun mem => (events e (h.group_eq here mem number)).mpr mem

end Untouched

theorem Confined.untouched (h : Numbered d.point? d.agenda) {out : Directory × List Broadcast}
    (confined : Confined id d out.1) (about : ∀ b ∈ out.2, b.news.group.id = id) (other : k ≠ id) :
    Untouched k d out := by
  refine .of_events h confined.numbered (confined.others k other) ?_ ?_
  · intro e own
    refine confined.events e fun same => other ?_
    exact Option.some.inj (own.symm.trans same)
  · exact fun b mem same => other (same.symm.trans (about b mem))

theorem forEach_untouched {step : Directory → NodeId → Directory × List Broadcast}
    (confined : ∀ d id, Numbered d.point? d.agenda → Confined id d (step d id).1)
    (about : ∀ d id, ∀ b ∈ (step d id).2, b.news.group.id = id) {ids : List NodeId}
    (h : Numbered d.point? d.agenda) (out : k ∉ ids) : Untouched k d (forEach step d ids) := by
  induction ids generalizing d with
  | nil => exact .refl k d
  | cons id ids ih =>
    obtain ⟨other, later⟩ := not_or.mp (mt List.mem_cons.mpr out)
    have first := (confined d id h).untouched h (about d id) other
    exact first.trans (ih (confined d id h).numbered later)

theorem closeGroup_about (d : Directory) (id : NodeId) :
    ∀ b ∈ (d.closeGroup id).2, b.news.group.id = id := by
  unfold closeGroup
  cases d.groups[id]? with
  | none => exact nofun
  | some g => exact (Touches.close (R := fun _ _ _ _ => True) True.intro).about

theorem removeMember_about (d : Directory) (now : Nat) (c : ConnId) (id : NodeId) :
    ∀ b ∈ (d.removeMember now c id).2, b.news.group.id = id := by
  have touches : Touches (GroupStep d ⟨0, 0⟩ now (.removeConnection c)) d id
      (d.removeMember now c id) := removeMember_touches fun _ _ => .inr rfl
  exact touches.about

theorem resolve_about (d : Directory) (id name : NodeId) (generation : Nat)
    (resolution : Resolution) : ∀ b ∈ (d.resolve id name generation resolution).2,
      b.news.group.id = id := by
  have touches : Touches (GroupStep d ⟨0, 0⟩ 0 (.resolve id name generation resolution)) d id
      (d.resolve id name generation resolution) := resolve_touches rfl
  exact touches.about

/-- Whether an action is about one group: a request that names it, or the end of one of its sync
points. -/
def Action.ActsIn (a : Action) (d : Directory) (now : Nat) (id : NodeId) : Prop :=
  (∃ c member token, a = .join c member ⟨id, token⟩) ∨ (∃ c token, a = .leave c ⟨id, token⟩) ∨
    (∃ c token terms, a = .sync c ⟨id, token⟩ terms) ∨
      ∃ name generation resolution, a.Handles d now (.resolve id name generation resolution)

section
variable {policy : Policy} {now : Nat} {a : Action}

theorem pop_untouched (h : Numbered d.point? d.agenda) {event : Event} {agenda : Agenda Event}
    (taken : d.agenda.pop? now = some (event, agenda)) (other : event.group? ≠ some k) :
    Untouched k d ({ d with agenda }, []) := by
  refine .of_events h (pop_numbered h now taken) rfl (fun f own => ?_) nofun
  obtain ⟨e, mem, payload, -, entries⟩ := Agenda.pop?_eq_some taken
  show f ∈ agenda.entries ↔ _
  rw [entries]
  constructor
  · rintro (⟨old, -⟩ | ⟨-, rfl⟩)
    · exact old
    · exact absurd (payload ▸ own) other
  · refine fun old => .inl ⟨old, fun same => other ?_⟩
    rw [← payload, ← Agenda.eq_of_id_eq old mem same]
    exact own

/-- An event is handled as it is called for, or after it was taken from the agenda. -/
theorem act_of_handles (policy : Policy) {event : Event} (handles : a.Handles d now event) :
    d.act policy now a = d.handle policy now event ∨
      ∃ agenda, d.agenda.pop? now = some (event, agenda) ∧
        d.act policy now a = { d with agenda }.handle policy now event := by
  cases a with
  | join | leave | removeConnection | sync | watch => exact handles.elim
  | housekeeping =>
    obtain rfl : event = .housekeeping := handles
    exact .inl rfl
  | resolve id name generation resolution =>
    obtain rfl : event = .resolve id name generation resolution := handles
    exact .inl rfl
  | fire =>
    obtain ⟨agenda, taken⟩ := handles
    exact .inr ⟨agenda, taken, fire_of_pop? policy taken⟩

theorem handles_untouched (h : Numbered d.point? d.agenda) {event : Event}
    (handles : a.Handles d now event) (other : event.group? ≠ some k)
    (handled : ∀ d', d'.groups = d.groups → Numbered d'.point? d'.agenda →
      Untouched k d' (d'.handle policy now event)) : Untouched k d (d.act policy now a) := by
  rcases act_of_handles policy handles with same | ⟨agenda, taken, same⟩
  · rw [same]
    exact handled d rfl h
  · have rest : Numbered { d with agenda }.point? agenda := pop_numbered h now taken
    rw [same]
    exact (pop_untouched h taken other).trans (handled { d with agenda } rfl rest)

theorem act_untouched (h : Numbered d.point? d.agenda) (acts : a.ActsIn d now id) (other : k ≠ id) :
    Untouched k d (d.act policy now a) := by
  rcases acts with ⟨c, member, token, rfl⟩ | ⟨c, token, rfl⟩ | ⟨c, token, terms, rfl⟩ |
    ⟨name, generation, resolution, handles⟩
  · exact (join_confined h policy now c member ⟨id, token⟩).untouched h
      (join_touches d policy now c member ⟨id, token⟩).about other
  · exact (leave_confined h now c ⟨id, token⟩).untouched h
      (leave_touches d policy now c ⟨id, token⟩).about other
  · exact (sync_confined h now c ⟨id, token⟩ terms).untouched h
      (sync_touches d policy now c ⟨id, token⟩ terms).about other
  · refine handles_untouched h handles (fun same => other (Option.some.inj same).symm) ?_
    intro d' same h'
    exact (resolve_confined h' id name generation resolution).untouched h'
      (resolve_about d' id name generation resolution) other

theorem act_about (acts : a.ActsIn d now id) :
    ∀ b ∈ (d.act policy now a).2, b.news.group.id = id := by
  rcases acts with ⟨c, member, token, rfl⟩ | ⟨c, token, rfl⟩ | ⟨c, token, terms, rfl⟩ |
    ⟨name, generation, resolution, handles⟩
  · exact (join_touches d policy now c member ⟨id, token⟩).about
  · exact (leave_touches d policy now c ⟨id, token⟩).about
  · exact (sync_touches d policy now c ⟨id, token⟩ terms).about
  · rcases act_of_handles policy handles with same | ⟨agenda, -, same⟩
    · rw [same]
      exact resolve_about d id name generation resolution
    · rw [same]
      exact resolve_about { d with agenda } id name generation resolution

end

/-- Requests that name a group, and the ends of its sync points, are no matter of any other group.
A connection that is lost is no matter of the groups that it was not in, and housekeeping is none of
those that it does not close. -/
theorem Run.groups_isolated {policy : Policy} {past : List Episode} (h : Run policy past d)
    (now : Nat) (a : Action) :
    (∀ id, a.ActsIn d now id → (∀ b ∈ (d.act policy now a).2, b.news.group.id = id) ∧
      ∀ k, k ≠ id → Untouched k d (d.act policy now a)) ∧
    (∀ c, a = .removeConnection c →
      ∀ k, d.member? k c = none → Untouched k d (d.act policy now a)) ∧
    (a.Handles d now .housekeeping →
      ∀ k g, (d.act policy now a).1.groups[k]? = some g → Untouched k d (d.act policy now a)) := by
  refine ⟨fun id acts => ⟨act_about acts, fun k => act_untouched h.numbered acts⟩, ?_, ?_⟩
  · rintro c rfl k stranger
    refine forEach_untouched (fun d id h => removeMember_confined h now c id)
      (fun d id => removeMember_about d now c id) h.numbered fun mem => ?_
    obtain ⟨g, group, present⟩ := Table.mem_keys_filter.mp mem
    obtain ⟨member, present⟩ := Table.contains_iff.mp present
    exact nomatch stranger.symm.trans (member?_eq_some.mpr ⟨g, group, present⟩)
  · intro handles k g stays
    obtain ⟨group, recent⟩ := (act_groups handles).mp stays
    refine handles_untouched h.numbered handles nofun ?_
    intro d' same h'
    refine forEach_untouched (fun d id h => closeGroup_confined h id) closeGroup_about h'
      fun mem => ?_
    obtain ⟨g', group', idle⟩ := Table.mem_keys_filter.mp mem
    rw [same, group, Option.some.injEq] at group'
    subst group'
    have idle := of_decide_eq_true idle
    omega

def sampleNeighbour : GroupRef := ⟨⟨"dock", by decide, by decide⟩, .ofByte 9⟩

/-- Two groups, each with a sync point that is about to end; the last to be used is first. -/
def sampleNeighbours : List (Nat × Action) :=
  [(10, .sync 1 sampleRef sampleTerms), (0, .sync 2 sampleNeighbour sampleTerms),
    (0, .join 2 sampleMember sampleNeighbour), (0, .join 1 sampleMember sampleRef)]

theorem groups_isolated_of_neighbours :
    let d := (play ⟨3, 5⟩ sampleNeighbours).2
    d.agenda.size = 2 ∧
      ((d.act ⟨3, 5⟩ 10 (.leave 2 sampleNeighbour)).1.agenda.size = 1 ∧
        Untouched sampleRef.id d (d.act ⟨3, 5⟩ 10 (.leave 2 sampleNeighbour))) ∧
      ((d.act ⟨3, 5⟩ 10 (.removeConnection 2)).1.agenda.size = 1 ∧
        Untouched sampleRef.id d (d.act ⟨3, 5⟩ 10 (.removeConnection 2))) ∧
      (d.act ⟨3, 5⟩ 10 .housekeeping).1.agenda.size = 1 ∧
        Untouched sampleRef.id d (d.act ⟨3, 5⟩ 10 .housekeeping) := by
  intro d
  have run : Run ⟨3, 5⟩ _ d := (History.play ⟨3, 5⟩ (by decide)).run
  have other : sampleRef.id ≠ sampleNeighbour.id := by decide
  have stranger : d.member? sampleRef.id 2 = none := by decide +kernel
  have stays : ((d.act ⟨3, 5⟩ 10 .housekeeping).1.groups[sampleRef.id]?).isSome = true := by
    decide +kernel
  obtain ⟨g, stays⟩ := Option.isSome_iff_exists.mp stays
  refine ⟨by decide +kernel, ⟨by decide +kernel, ?_⟩, ⟨by decide +kernel, ?_⟩,
    by decide +kernel, ?_⟩
  · exact ((Run.groups_isolated run 10 (.leave 2 sampleNeighbour)).1 sampleNeighbour.id
      (.inr (.inl ⟨2, sampleNeighbour.token, rfl⟩))).2 sampleRef.id other
  · exact (Run.groups_isolated run 10 (.removeConnection 2)).2.1 2 rfl sampleRef.id stranger
  · exact (Run.groups_isolated run 10 .housekeeping).2.2 rfl sampleRef.id g stays

end Directory
end Muster
