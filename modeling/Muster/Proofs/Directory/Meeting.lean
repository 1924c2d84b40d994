import Muster.Proofs.Directory.Generation
import Muster.Proofs.Directory.Armed

/-! Who has arrived at a sync point, and how it ends. -/
namespace Muster.Directory

/-- A request to arrive at the sync point of a generation that adds a connection to the
arrivals. -/
def Episode.Arrival (e : Episode) (id name : NodeId) (generation : Nat) (c : ConnId)
    (member : NodeId) : Prop :=
  (∃ token terms, e.action = .sync c ⟨id, token⟩ terms ∧ terms.point = name) ∧
    (∃ p, e.after.point? id name = some p ∧ p.generation = generation ∧
      p.arrived[c]? = some member) ∧
    ∀ p, e.before.point? id name = some p → p.generation = generation → p.arrived[c]? = none

def Episode.Removal (e : Episode) (id : NodeId) (c : ConnId) : Prop :=
  (e.before.members id).contains c = true ∧ (e.after.members id).contains c = false

/-- Whether a connection arrived in a generation and was not removed from the group since. -/
def Present (id name : NodeId) (generation : Nat) (c : ConnId) (member : NodeId) :
    List Episode → Prop
  | [] => False
  | e :: past => e.Arrival id name generation c member ∨
      Present id name generation c member past ∧ ¬e.Removal id c

/-- A request to arrive at the sync point of a generation after which all members of the group
have arrived, and no one else. -/
def Episode.Fills (e : Episode) (id name : NodeId) (generation : Nat) : Prop :=
  (∃ c token terms, e.action = .sync c ⟨id, token⟩ terms ∧ terms.point = name) ∧
    ∃ p, e.after.point? id name = some p ∧ p.generation = generation ∧
      ∀ c, p.arrived.contains c = (e.after.members id).contains c

/-- The arrival with which all members of the group have arrived, and no one else. -/
def Episode.Completes (e : Episode) (id name : NodeId) (generation : Nat) : Prop :=
  e.Fills id name generation ∧ ∃ c member, e.Arrival id name generation c member

theorem Episode.Arrival.mentions {e : Episode} {id name : NodeId} {generation : Nat} {c : ConnId}
    {member : NodeId} (h : e.Arrival id name generation c member) : e.Mentions generation := by
  obtain ⟨-, ⟨p, hp, same, -⟩, -⟩ := h
  exact .inr (.inl ⟨id, name, p, hp, same⟩)

theorem Present.mentioned {id name : NodeId} {generation : Nat} {c : ConnId} {member : NodeId}
    {past : List Episode} (h : Present id name generation c member past) :
    ∃ e ∈ past, e.Mentions generation := by
  induction past with
  | nil => exact h.elim
  | cons e past ih =>
    rcases h with arrival | ⟨earlier, -⟩
    · exact ⟨e, List.mem_cons_self, arrival.mentions⟩
    · obtain ⟨f, hf, mentions⟩ := ih earlier
      exact ⟨f, List.mem_cons_of_mem e hf, mentions⟩

theorem SyncPoint.meet_phase {p : SyncPoint} {c : ConnId} {member : NodeId} {members : Members}
    {event : Nat} (waiting : p.phase = .waiting) :
    (p.meet c member members event).phase = .resolving ↔
      (p.arrive c member).isComplete members = true := by
  unfold SyncPoint.meet
  dsimp only
  split
  · rename_i complete
    exact ⟨fun _ => complete, fun _ => rfl⟩
  · rename_i incomplete
    refine ⟨fun resolving => ?_, fun complete => absurd complete incomplete⟩
    change p.phase = .resolving at resolving
    rw [waiting] at resolving
    contradiction

theorem isComplete_iff {p : SyncPoint} {members : Members}
    (sub : ∀ (c : ConnId) (member : NodeId), p.arrived[c]? = some member →
      members[c]? = some member) :
    p.isComplete members = true ↔ ∀ c : ConnId, p.arrived.contains c = members.contains c := by
  unfold SyncPoint.isComplete
  rw [beq_iff_eq]
  constructor
  · intro size c
    have same := Table.getElem?_eq_of_size_eq sub size c
    rw [Std.ExtTreeMap.contains_eq_isSome_getElem?, same,
      Std.ExtTreeMap.contains_eq_isSome_getElem?]
  · intro same
    suffices eq : p.arrived = members by rw [eq]
    apply Std.ExtTreeMap.ext_getElem?
    intro c
    have at_c := same c
    rw [Std.ExtTreeMap.contains_eq_isSome_getElem?,
      Std.ExtTreeMap.contains_eq_isSome_getElem?] at at_c
    cases arrived : p.arrived[c]? with
    | some member => exact (sub c member arrived).symm
    | none =>
      rw [arrived] at at_c
      cases present : members[c]? with
      | none => rfl
      | some member =>
        rw [present] at at_c
        contradiction

/-- What the arrivals and the phase of a sync point have to do with its history. -/
structure Gathering (past : List Episode) (id name : NodeId) (members : Members)
    (p : SyncPoint) : Prop where
  arrived : ∀ (c : ConnId) (member : NodeId), p.arrived[c]? = some member ↔
    Present id name p.generation c member past
  members : ∀ (c : ConnId) (member : NodeId), p.arrived[c]? = some member →
    members[c]? = some member
  phase : p.phase = .resolving ↔ ∃ e ∈ past, e.Completes id name p.generation

namespace Gathering
variable {past : List Episode} {id name : NodeId} {m m' : Members} {p p' : SyncPoint} {e : Episode}

theorem not_removal {c : ConnId} {member : NodeId} (after : e.after.members id = m')
    (stays : m'[c]? = some member) : ¬e.Removal id c := by
  rintro ⟨-, gone⟩
  rw [after, Table.contains_of_getElem? stays] at gone
  contradiction

theorem arrival_after {generation : Nat} {c : ConnId} {member : NodeId}
    (after : e.after.point? id name = some p') (h : e.Arrival id name generation c member) :
    p'.arrived[c]? = some member := by
  obtain ⟨-, ⟨q, hq, -, arrived⟩, -⟩ := h
  rw [after] at hq
  cases hq
  exact arrived

theorem fresh (empty : p.arrived = ∅) (waiting : p.phase = .waiting)
    (unused : ∀ e ∈ past, ¬e.Mentions p.generation) : Gathering past id name m p := by
  have none : ∀ c : ConnId, p.arrived[c]? = none := by
    intro c
    rw [empty]
    exact Std.ExtTreeMap.getElem?_empty
  constructor
  · intro c member
    rw [none]
    refine ⟨nofun, fun present => ?_⟩
    obtain ⟨e, he, mentions⟩ := present.mentioned
    exact absurd mentions (unused e he)
  · intro c member arrived
    rw [none] at arrived
    contradiction
  · rw [waiting]
    refine ⟨nofun, ?_⟩
    rintro ⟨e, he, -, c, member, arrival⟩
    exact absurd arrival.mentions (unused e he)

theorem keep (h : Gathering past id name m p)
    (stay : ∀ (c : ConnId) (member : NodeId), m[c]? = some member → m'[c]? = some member)
    (before : e.before.point? id name = some p) (after : e.after.point? id name = some p)
    (members : e.after.members id = m') : Gathering (e :: past) id name m' p := by
  have no_arrival : ∀ c member, ¬e.Arrival id name p.generation c member := by
    intro c member arrival
    have now := arrival_after after arrival
    rw [arrival.2.2 p before rfl] at now
    contradiction
  constructor
  · intro c member
    constructor
    · intro arrived
      refine .inr ⟨(h.arrived c member).mp arrived, ?_⟩
      exact not_removal members (stay c member (h.members c member arrived))
    · rintro (arrival | ⟨earlier, -⟩)
      · exact absurd arrival (no_arrival c member)
      · exact (h.arrived c member).mpr earlier
  · intro c member arrived
    exact stay c member (h.members c member arrived)
  · rw [h.phase]
    constructor
    · rintro ⟨f, hf, completes⟩
      exact ⟨f, List.mem_cons_of_mem e hf, completes⟩
    · rintro ⟨f, hf, completes⟩
      rcases List.mem_cons.mp hf with rfl | hf
      · obtain ⟨-, c, member, arrival⟩ := completes
        exact absurd arrival (no_arrival c member)
      · exact ⟨f, hf, completes⟩

theorem depart (h : Gathering past id name m p) {c : ConnId} {member : NodeId}
    (present : m[c]? = some member) (action : ∀ c' ref terms, e.action ≠ .sync c' ref terms)
    (membersBefore : e.before.members id = m) (members : e.after.members id = m.erase c) :
    Gathering (e :: past) id name (m.erase c) (p.depart c) := by
  have no_arrival : ∀ c' member', ¬e.Arrival id name p.generation c' member' := by
    rintro c' member' ⟨⟨token, terms, sync, -⟩, -⟩
    exact action c' _ terms sync
  have removed : e.Removal id c := by
    unfold Episode.Removal
    rw [membersBefore, members]
    exact ⟨Table.contains_of_getElem? present, by simp⟩
  constructor
  · intro c' member'
    show (p.arrived.erase c)[c']? = some member' ↔ _
    rw [Table.getElem?_erase]
    by_cases same : c = c'
    · subst same
      rw [if_pos rfl]
      constructor
      · exact nofun
      · rintro (arrival | ⟨-, stays⟩)
        · exact absurd arrival (no_arrival c member')
        · exact absurd removed stays
    · rw [if_neg same, h.arrived]
      constructor
      · intro earlier
        refine .inr ⟨earlier, ?_⟩
        have here := h.members c' member' ((h.arrived c' member').mpr earlier)
        apply not_removal members
        rw [Table.getElem?_erase, if_neg same, here]
      · rintro (arrival | ⟨earlier, -⟩)
        · exact absurd arrival (no_arrival c' member')
        · exact earlier
  · intro c' member' arrived
    change (p.arrived.erase c)[c']? = some member' at arrived
    rw [Table.getElem?_erase] at arrived ⊢
    split at arrived
    · contradiction
    · rename_i other
      rw [if_neg other]
      exact h.members c' member' arrived
  · show p.phase = .resolving ↔ ∃ f ∈ e :: past, f.Completes id name p.generation
    rw [h.phase]
    constructor
    · rintro ⟨f, hf, completes⟩
      exact ⟨f, List.mem_cons_of_mem e hf, completes⟩
    · rintro ⟨f, hf, completes⟩
      rcases List.mem_cons.mp hf with rfl | hf
      · obtain ⟨-, c', member', arrival⟩ := completes
        exact absurd arrival (no_arrival c' member')
      · exact ⟨f, hf, completes⟩

/-- A member arrives. The sync point begins to resolve exactly if no other is missing. -/
theorem meet (h : Gathering past id name m p) {c : ConnId} {member : NodeId} {token : Token}
    {terms : SyncTerms} {event : Nat} (present : m[c]? = some member)
    (missing : p.arrived[c]? = none) (waiting : p.phase = .waiting)
    (action : e.action = .sync c ⟨id, token⟩ terms) (point : terms.point = name)
    (before : ∀ q, e.before.point? id name = some q → q.generation = p.generation → q = p)
    (after : e.after.point? id name = some (p.meet c member m event))
    (members : e.after.members id = m) :
    Gathering (e :: past) id name m (p.meet c member m event) := by
  have arrival : e.Arrival id name p.generation c member := by
    refine ⟨⟨token, terms, action, point⟩, ⟨_, after, ?_, ?_⟩, ?_⟩
    · exact SyncPoint.meet_generation _ _ _ _ _
    · rw [SyncPoint.meet_arrived, Table.getElem?_insert, if_pos rfl]
    · intro q hq same
      rw [before q hq same]
      exact missing
  have sub : ∀ (k : ConnId) (x : NodeId), (p.arrived.insert c member)[k]? = some x →
      m[k]? = some x := by
    intro k x hx
    rw [Table.getElem?_insert] at hx
    split at hx
    · rename_i same
      rw [← same, present]
      exact hx
    · exact h.members k x hx
  constructor
  · intro k x
    rw [SyncPoint.meet_generation, SyncPoint.meet_arrived]
    constructor
    · intro hx
      by_cases same : c = k
      · subst same
        rw [Table.getElem?_insert, if_pos rfl] at hx
        cases hx
        exact .inl arrival
      · have stays := sub k x hx
        rw [Table.getElem?_insert, if_neg same] at hx
        exact .inr ⟨(h.arrived k x).mp hx, not_removal members stays⟩
    · rintro (arrival | ⟨earlier, -⟩)
      · have now := arrival_after after arrival
        rw [SyncPoint.meet_arrived] at now
        exact now
      · have old := (h.arrived k x).mpr earlier
        rw [Table.getElem?_insert, if_neg, old]
        rintro rfl
        rw [missing] at old
        contradiction
  · intro k x hx
    rw [SyncPoint.meet_arrived] at hx
    exact sub k x hx
  · rw [SyncPoint.meet_generation]
    have complete : (p.arrive c member).isComplete m = true ↔
        ∀ k, (p.meet c member m event).arrived.contains k = m.contains k := by
      rw [SyncPoint.meet_arrived]
      exact isComplete_iff sub
    rw [SyncPoint.meet_phase waiting, complete]
    constructor
    · intro all
      refine ⟨e, List.mem_cons_self, ⟨⟨c, token, terms, action, point⟩, _, after, ?_, ?_⟩,
        c, member, arrival⟩
      · exact SyncPoint.meet_generation _ _ _ _ _
      · rw [members]
        exact all
    · rintro ⟨f, hf, completes⟩
      rcases List.mem_cons.mp hf with rfl | hf
      · obtain ⟨⟨-, q, hq, -, all⟩, -⟩ := completes
        rw [after] at hq
        cases hq
        rw [members] at all
        exact all
      · have resolving := h.phase.mpr ⟨f, hf, completes⟩
        rw [waiting] at resolving
        contradiction

end Gathering

structure Meetings (past : List Episode) (d : Directory) : Prop where
  gathering : ∀ id name p, d.point? id name = some p →
    Gathering past id name (d.members id) p
  created : ∀ id name p, d.point? id name = some p → ∃ e ∈ past, ∃ terms,
    e.Creates id name p.generation terms ∧ p.deadline = e.now + syncTimeout terms

theorem Meetings.act {past : List Episode} {d : Directory} {policy : Policy} {now : Nat}
    {a : Action} (h : Meetings past d) (generational : Generational past d) :
    Meetings (d.episode policy now a :: past) (d.act policy now a).1 := by
  suffices both : ∀ id name p', (d.act policy now a).1.point? id name = some p' →
      Gathering (d.episode policy now a :: past) id name ((d.act policy now a).1.members id) p' ∧
      ∃ e ∈ d.episode policy now a :: past, ∃ terms,
        e.Creates id name p'.generation terms ∧ p'.deadline = e.now + syncTimeout terms from
    ⟨fun id name p' hp' => (both id name p' hp').1, fun id name p' hp' => (both id name p' hp').2⟩
  intro id name p' hp'
  have earlier : ∀ p, d.point? id name = some p → ∃ e ∈ d.episode policy now a :: past, ∃ terms,
      e.Creates id name p.generation terms ∧ p.deadline = e.now + syncTimeout terms := by
    intro p hp
    obtain ⟨e, he, created⟩ := h.created id name p hp
    exact ⟨e, List.mem_cons_of_mem _ he, created⟩
  have step := act_pointStep d policy now a id name
  rw [hp'] at step
  generalize before : d.point? id name = s at step
  generalize membersBefore : d.members id = m at step
  generalize members : (d.act policy now a).1.members id = m' at step ⊢
  generalize said (d.act policy now a).2 id name = news at step
  cases step with
  | keep stay =>
    have gathering := h.gathering id name p' before
    rw [membersBefore] at gathering
    exact ⟨gathering.keep stay before hp' members, earlier p' before⟩
  | @depart c member p token removes present =>
    have gathering := h.gathering id name p before
    rw [membersBefore] at gathering
    refine ⟨gathering.depart present ?_ membersBefore members, earlier p before⟩
    exact fun _ _ _ => removes.ne_sync
  | @arrive c member token terms p event action point present missing waiting answer =>
    have gathering := h.gathering id name p before
    rw [membersBefore] at gathering
    constructor
    · apply gathering.meet present missing waiting action point _ hp' members
      intro q hq _
      change d.point? id name = some q at hq
      rw [before] at hq
      exact (Option.some.inj hq).symm
    · rw [SyncPoint.meet_generation, SyncPoint.meet_deadline]
      exact earlier p before
  | @create c member token terms p number event action point present created answer =>
    have unused : ∀ e ∈ past, ¬e.Mentions p.generation := by
      intro e he mentions
      have used := generational.mentioned e he p.generation mentions
      rw [created] at used
      exact Nat.lt_irrefl _ used
    have fresh : p.arrived = ∅ ∧ p.phase = .waiting := by
      rw [created]
      exact ⟨rfl, rfl⟩
    have empty : Gathering past id name m p := .fresh fresh.1 fresh.2 unused
    have missing : p.arrived[c]? = none := by
      rw [fresh.1]
      exact Std.ExtTreeMap.getElem?_empty
    constructor
    · apply empty.meet present missing fresh.2 action point _ hp' members
      · intro q hq _
        change d.point? id name = some q at hq
        rw [before] at hq
        contradiction
    · refine ⟨_, List.mem_cons_self, terms, ⟨c, token, action, point, answer, _, hp', rfl⟩, ?_⟩
      rw [SyncPoint.meet_deadline, created]
      rfl

theorem Run.meetings {policy : Policy} {past : List Episode} {d : Directory}
    (h : Run policy past d) : Meetings past d := by
  induction h with
  | start =>
    constructor
    · intro id name p hp
      rw [empty_point?] at hp
      contradiction
    · intro id name p hp
      rw [empty_point?] at hp
      contradiction
  | act now a run ih => exact ih.act run.generational

/-- Success and timeout are told when the end of a sync point is handled, which is then gone. -/
theorem ended {d : Directory} {policy : Policy} {now : Nat} {a : Action} {b : Broadcast}
    (hb : b ∈ (d.act policy now a).2) {ref : GroupRef} {name : NodeId} {generation : Nat}
    {ids : List NodeId} {code : ProgressCode}
    (news : b.news = .progress ref name generation ids code)
    (outcome : code = .success ∨ code = .timeout) :
    (d.act policy now a).1.point? ref.id name = none ∧ ∃ p resolution,
      d.point? ref.id name = some p ∧ p.generation = generation ∧ resolution.code = code ∧
      a.Handles d now (.resolve ref.id name p.generation resolution) ∧
      b.receivers = p.arrived.connections ∧ ids = p.arrived.ids := by
  have mem : b ∈ said (d.act policy now a).2 ref.id name := by
    refine List.mem_filter.mpr ⟨hb, ?_⟩
    simp [Broadcast.concerns, news]
  have spoken : b.Says generation code := ⟨ref, name, ids, news⟩
  have step := act_pointStep d policy now a ref.id name
  generalize d.point? ref.id name = s at step ⊢
  generalize d.members ref.id = m at step
  generalize (d.act policy now a).1.members ref.id = m' at step
  generalize (d.act policy now a).1.point? ref.id name = s' at step ⊢
  generalize said (d.act policy now a).2 ref.id name = told at step mem
  cases step with
  | keep _ => contradiction
  | absent => contradiction
  | create =>
    obtain rfl := List.mem_singleton.mp mem
    obtain ⟨-, rfl⟩ := SyncPoint.eq_of_notice spoken
    rcases outcome with success | timeout <;> contradiction
  | arrive =>
    obtain rfl := List.mem_singleton.mp mem
    obtain ⟨-, rfl⟩ := SyncPoint.eq_of_notice spoken
    rcases outcome with success | timeout <;> contradiction
  | depart =>
    obtain rfl := List.mem_singleton.mp mem
    obtain ⟨-, rfl⟩ := SyncPoint.eq_of_notice spoken
    rcases outcome with success | timeout <;> contradiction
  | close =>
    obtain rfl := List.mem_singleton.mp mem
    obtain ⟨-, rfl⟩ := SyncPoint.eq_of_notice spoken
    rcases outcome with success | timeout <;> contradiction
  | @resolve p token resolution action =>
    obtain rfl := List.mem_singleton.mp mem
    injection news with _ _ same arrived codes
    exact ⟨rfl, p, resolution, rfl, same, codes, action, rfl, arrived.symm⟩

/-- Unless it is called for directly, the end of a sync point comes from the agenda. -/
theorem Action.Handles.fires {d : Directory} {now : Nat} {a : Action} {id name : NodeId}
    {generation : Nat} {resolution : Resolution}
    (action : a.Handles d now (.resolve id name generation resolution))
    (unforced : a.isResolve = false) :
    a = .fire ∧ ∃ agenda, d.agenda.pop? now =
      some (.resolve id name generation resolution, agenda) := by
  cases a with
  | fire => exact ⟨rfl, action⟩
  | resolve id name generation resolution => contradiction
  | housekeeping => exact Event.noConfusion action
  | join c member ref => exact action.elim
  | leave c ref => exact action.elim
  | removeConnection c => exact action.elim
  | sync c ref terms => exact action.elim
  | watch interval => exact action.elim

/-- An event that comes from the agenda ends a sync point as its phase says, and not early. -/
theorem resolved {d : Directory} {policy : Policy} {now : Nat} {a : Action}
    (armed : Armed d.point? d.agenda)
    (unforced : a.isResolve = false)
    {b : Broadcast} (hb : b ∈ (d.act policy now a).2) {ref : GroupRef} {name : NodeId}
    {generation : Nat} {ids : List NodeId} {code : ProgressCode}
    (news : b.news = .progress ref name generation ids code)
    (outcome : code = .success ∨ code = .timeout) :
    (d.act policy now a).1.point? ref.id name = none ∧ ∃ p, d.point? ref.id name = some p ∧
      p.generation = generation ∧ p.ending.code = code ∧ b.receivers = p.arrived.connections ∧
      ids = p.arrived.ids ∧ (p.phase = .waiting → p.deadline ≤ now) := by
  obtain ⟨gone, p, resolution, before, same, codes, action, receivers, listed⟩ :=
    ended hb news outcome
  obtain ⟨-, agenda, hp⟩ := action.fires unforced
  obtain ⟨e, he, payload, due, -⟩ := Agenda.pop?_eq_some hp
  obtain ⟨q, here, ends⟩ := armed.owned e he _ _ _ _ payload
  obtain rfl := Option.some.inj (before.symm.trans here)
  have eq := ends.payload.symm.trans payload
  injection eq with _ _ _ ending
  refine ⟨gone, p, before, same, by rw [ending, codes], receivers, listed, ?_⟩
  intro waiting
  rw [← ends.deadline waiting]
  exact due

/-- No one arrives at a sync point after the arrival that completes it. -/
theorem Run.no_arrival_after {policy : Policy} {past : List Episode} {d : Directory}
    (h : Run policy past d) {now : Nat} {a : Action} {e : Episode} (he : e ∈ past)
    {id name : NodeId} {generation : Nat} (completes : e.Completes id name generation) (c : ConnId)
    (member : NodeId) : ¬(d.episode policy now a).Arrival id name generation c member := by
  rintro ⟨-, ⟨p', after, rfl, arrived⟩, missing⟩
  change (d.act policy now a).1.point? id name = some p' at after
  change ∀ p, d.point? id name = some p → _ at missing
  have used : p'.generation < d.nextGeneration := by
    obtain ⟨-, c', member', arrival⟩ := completes
    exact h.generational.mentioned e he p'.generation arrival.mentions
  have step := act_pointStep d policy now a id name
  rw [after] at step
  generalize before : d.point? id name = s at step missing
  generalize d.members id = m at step
  generalize (d.act policy now a).1.members id = m' at step
  generalize said (d.act policy now a).2 id name = news at step
  cases step with
  | keep stay =>
    rw [missing p' rfl rfl] at arrived
    contradiction
  | @depart c' member' p token removes present =>
    have gone := missing p rfl rfl
    change (p.arrived.erase c')[c]? = some member at arrived
    rw [Table.getElem?_erase, gone] at arrived
    split at arrived <;> contradiction
  | @arrive c' member' token terms p event action point present absent waiting answer =>
    rw [SyncPoint.meet_generation] at completes
    have resolving := (h.meetings.gathering id name p before).phase.mpr ⟨e, he, completes⟩
    rw [waiting] at resolving
    contradiction
  | @create c' member' token terms p number event action point present created answer =>
    rw [SyncPoint.meet_generation, created] at used
    exact Nat.lt_irrefl _ used

theorem Run.no_arrival_after_end {policy : Policy} {past : List Episode} {d : Directory}
    (h : Run policy past d) {now : Nat} {a : Action} {b : Broadcast} (hb : b ∈ told past)
    {id name : NodeId} {generation : Nat} (ends : b.Ends generation) (c : ConnId)
    (member : NodeId) : ¬(d.episode policy now a).Arrival id name generation c member := by
  rintro ⟨-, ⟨p', after, same, -⟩, -⟩
  have generational := h.generational
  obtain ⟨e, he, mentions⟩ := mentions_of_mem_told hb ends.tells
  have used := generational.mentioned e he generation mentions
  rcases act_origin after with ⟨p, hp, old⟩ | ⟨-, new, -⟩
  · exact generational.finished b hb generation ends id name p hp (by omega)
  · omega

/-- Once all have arrived, a sync point does not time out any more, and no one else arrives. -/
theorem Run.completed {policy : Policy} {past : List Episode} {d : Directory}
    (h : Run policy past d) (unforced : Unforced past) {now : Nat} {a : Action}
    (called : a.isResolve = false)
    {e : Episode} (he : e ∈ past) {id name : NodeId} {generation : Nat}
    (completes : e.Completes id name generation) {b : Broadcast}
    (hb : b ∈ (d.act policy now a).2) {code : ProgressCode} (spoken : b.Says generation code)
    (final : code.isFinal = true) : code = .success ∨ code = .close := by
  cases code with
  | success => exact .inl rfl
  | close => exact .inr rfl
  | join => contradiction
  | leave => contradiction
  | timeout =>
    obtain ⟨ref, point, ids, news⟩ := spoken
    obtain ⟨-, p, hp, rfl, ending, -⟩ := resolved (h.armed unforced) called hb news (.inr rfl)
    have arrival := completes.2
    obtain ⟨c, member, -, ⟨q, hq, same, -⟩, -⟩ := arrival
    obtain ⟨rfl, rfl⟩ := h.generational.settled e he _ _ q _ _ p hq hp same
    have resolving := (h.meetings.gathering _ _ p hp).phase.mpr ⟨e, he, completes⟩
    rw [SyncPoint.ending, resolving] at ending
    contradiction

section Outcomes
variable {policy : Policy} {past : List Episode} {d : Directory} {now : Nat} {a : Action}
  {b : Broadcast} {ref : GroupRef} {name : NodeId} {generation : Nat} {ids : List NodeId}

theorem Run.success_told (h : Run policy past d) (unforced : Unforced past)
    (called : a.isResolve = false)
    (hb : b ∈ (d.act policy now a).2) (news : b.news = .progress ref name generation ids .success) :
    ∃ e ∈ past, e.Completes ref.id name generation := by
  obtain ⟨-, p, hp, rfl, ending, -⟩ := resolved (h.armed unforced) called hb news (.inl rfl)
  apply (h.meetings.gathering ref.id name p hp).phase.mp
  cases phase : p.phase with
  | resolving => rfl
  | waiting =>
    rw [SyncPoint.ending, phase] at ending
    contradiction

theorem Run.timeout_told (h : Run policy past d) (unforced : Unforced past)
    (called : a.isResolve = false)
    (hb : b ∈ (d.act policy now a).2) (news : b.news = .progress ref name generation ids .timeout) :
    (∀ e ∈ past, ¬e.Completes ref.id name generation) ∧
      ¬(d.episode policy now a).Completes ref.id name generation ∧
        ∃ e ∈ past, ∃ terms, e.Creates ref.id name generation terms ∧
          e.now + syncTimeout terms ≤ now := by
  obtain ⟨gone, p, hp, rfl, ending, -, -, due⟩ :=
    resolved (h.armed unforced) called hb news (.inr rfl)
  have waiting : p.phase = .waiting := by
    cases phase : p.phase with
    | waiting => rfl
    | resolving =>
      rw [SyncPoint.ending, phase] at ending
      contradiction
  refine ⟨?_, ?_, ?_⟩
  · intro e he completes
    have resolving := (h.meetings.gathering ref.id name p hp).phase.mpr ⟨e, he, completes⟩
    rw [waiting] at resolving
    contradiction
  · rintro ⟨-, c, member, -, ⟨q, hq, -⟩, -⟩
    change (d.act policy now a).1.point? ref.id name = some q at hq
    rw [gone] at hq
    contradiction
  · obtain ⟨e, he, terms, created, deadline⟩ := h.meetings.created ref.id name p hp
    refine ⟨e, he, terms, created, ?_⟩
    rw [← deadline]
    exact due waiting

theorem Run.creates_once (h : Run policy past d) {e e' : Episode} (he : e ∈ past) (he' : e' ∈ past)
    {id name id' name' : NodeId} {terms terms' : SyncTerms}
    (creates : e.Creates id name generation terms)
    (creates' : e'.Creates id' name' generation terms') : e = e' := by
  have mentions {e : Episode} {id name : NodeId} {terms : SyncTerms}
      (creates : e.Creates id name generation terms) : e.Mentions generation := by
    obtain ⟨c, token, -, -, -, p, after, same⟩ := creates
    exact .inr (.inl ⟨id, name, p, after, same⟩)
  induction h with
  | start => exact nomatch he
  | @act past d now a run ih =>
    have fresh {id name : NodeId} {terms : SyncTerms}
        (creates : (d.episode policy now a).Creates id name generation terms) :
        ∀ f ∈ past, ¬f.Mentions generation := by
      intro f mem mentions
      have used := run.generational.mentioned f mem generation mentions
      obtain ⟨c, token, action, rfl, code, p, after, rfl⟩ := creates
      change a = _ at action
      change (d.act policy now a).1.point? id terms.point = some p at after
      have created : ∃ q, (d.act policy now a).1.point? id terms.point = some q ∧
          q.generation = d.nextGeneration := by
        rw [action]
        exact sync_created code
      obtain ⟨q, made, new⟩ := created
      obtain rfl := Option.some.inj (after.symm.trans made)
      exact Nat.ne_of_lt used new
    rcases List.mem_cons.mp he with rfl | he <;> rcases List.mem_cons.mp he' with rfl | he'
    · rfl
    · exact absurd (mentions creates') (fresh creates e' he')
    · exact absurd (mentions creates) (fresh creates' e he)
    · exact ih he he'

/-- A timeout is told no earlier than the request asked for that created the sync point. -/
theorem Run.timeout_due (h : Run policy past d) (unforced : Unforced past) {e f : Episode}
    (he : e ∈ past) {id name : NodeId} {terms : SyncTerms}
    (creates : e.Creates id name generation terms) (hf : f ∈ past)
    (told : ∃ b ∈ f.broadcasts, b.Says generation .timeout) :
    e.now + syncTimeout terms ≤ f.now := by
  obtain ⟨post, pre, rfl⟩ := List.append_of_mem hf
  obtain ⟨run, eq⟩ := h.at
  obtain ⟨b, hb, ref, name', ids, news⟩ := told
  rw [eq] at hb
  have earlier {x : Episode} (hx : x ∈ pre) : x ∈ post ++ f :: pre :=
    List.mem_append_right _ (List.mem_cons_of_mem f hx)
  have calm : Unforced pre := fun x hx => unforced x (earlier hx)
  obtain ⟨-, -, e', he', terms', creates', due⟩ := run.timeout_told calm (unforced f hf) hb news
  obtain rfl := h.creates_once he (earlier he') creates creates'
  obtain ⟨c, token, action, -⟩ := creates
  obtain ⟨c', token', action', -⟩ := creates'
  obtain ⟨-, -, rfl⟩ := Action.sync.inj (action.symm.trans action')
  exact due

/-- The news of an end goes to those who are still there. -/
theorem Run.told_to_present (h : Run policy past d) (unforced : Unforced past)
    (called : a.isResolve = false)
    (hb : b ∈ (d.act policy now a).2) {code : ProgressCode}
    (news : b.news = .progress ref name generation ids code)
    (outcome : code = .success ∨ code = .timeout) :
    ∃ who : Members, b.receivers = who.connections ∧ ids = who.ids ∧
      ∀ (c : ConnId) (member : NodeId),
        who[c]? = some member ↔ Present ref.id name generation c member past := by
  obtain ⟨-, p, hp, rfl, -, receivers, listed, -⟩ :=
    resolved (h.armed unforced) called hb news outcome
  exact ⟨p.arrived, receivers, listed, (h.meetings.gathering ref.id name p hp).arrived⟩

theorem History.unforced_at {post pre : List Episode} {e : Episode}
    (h : History policy (post ++ e :: pre) d) (unforced : Unforced (post ++ e :: pre)) :
    Run policy pre e.before ∧ Unforced pre ∧
      e.action.isResolve = false ∧ e = e.before.episode policy e.now e.action := by
  obtain ⟨run, -, eq⟩ := h.at
  refine ⟨run.run, ?_, ?_, eq⟩
  · intro f hf
    exact unforced f (List.mem_append_right _ (List.mem_cons_of_mem e hf))
  · exact unforced e (List.mem_append_right _ List.mem_cons_self)

end Outcomes

/-- How sync points end in a history in which none is ended by a direct call. After the arrival
that completes a sync point no one arrives there, and it succeeds or is closed. Success is told
only after that arrival; a timeout is told only if there is none, and not before the time that
the request asked for which created the sync point, or a year. Either is told to those who
have arrived and were not removed from the group since, and lists them. -/
theorem History.meeting_outcomes {policy : Policy} {past : List Episode} {d : Directory}
    (h : History policy past d) (unforced : Unforced past) {post pre : List Episode}
    {e : Episode} (split : past = post ++ e :: pre) :
    (∀ id name generation, e.Completes id name generation → ∀ f ∈ post,
      (∀ c member, ¬f.Arrival id name generation c member) ∧
      ∀ b ∈ f.broadcasts, ∀ code, b.Says generation code → code.isFinal = true →
        code = .success ∨ code = .close) ∧
    ∀ b ∈ e.broadcasts, ∀ ref name generation ids code,
      b.news = .progress ref name generation ids code →
      (code = .success → ∃ f ∈ pre, f.Completes ref.id name generation) ∧
      (code = .success ∨ code = .timeout → ∃ who : Members,
        b.receivers = who.connections ∧ ids = who.ids ∧ ∀ (c : ConnId) (member : NodeId),
          who[c]? = some member ↔ Present ref.id name generation c member pre) ∧
      (code = .timeout → (∀ f ∈ past, ¬f.Completes ref.id name generation) ∧
        ∃ f ∈ pre, ∃ terms, f.Creates ref.id name generation terms ∧
          f.now + min (Duration.ofMillis terms.timeout.toInt.toNat)
            (Duration.ofSeconds (365 * 24 * 60 * 60)) ≤ e.now) := by
  subst split
  constructor
  · intro id name generation completes f hf
    obtain ⟨later, between, rfl⟩ := List.append_of_mem hf
    rw [List.append_assoc, List.cons_append] at h unforced
    obtain ⟨run, calm, called, eq⟩ := h.unforced_at unforced
    have he : e ∈ between ++ e :: pre := List.mem_append_right _ List.mem_cons_self
    rw [eq]
    refine ⟨run.no_arrival_after he completes, ?_⟩
    intro b hb code spoken final
    exact run.completed calm called he completes hb spoken final
  · intro b hb ref name generation ids code news
    obtain ⟨run, calm, called, eq⟩ := h.unforced_at unforced
    have inside : b ∈ (e.before.act policy e.now e.action).2 := by
      rw [eq] at hb
      exact hb
    refine ⟨?_, run.told_to_present calm called inside news, ?_⟩
    · rintro rfl
      exact run.success_told calm called inside news
    · rintro rfl
      obtain ⟨before, here, creation⟩ := run.timeout_told calm called inside news
      refine ⟨?_, creation⟩
      intro f hf completes
      rcases List.mem_append.mp hf with hf | hf
      · -- An arrival that comes after the timeout would be one at a sync point that has ended.
        obtain ⟨later, between, rfl⟩ := List.append_of_mem hf
        rw [List.append_assoc, List.cons_append] at h unforced
        obtain ⟨run', -, -, eq'⟩ := h.unforced_at unforced
        obtain ⟨-, c, member, arrival⟩ := completes
        rw [eq'] at arrival
        refine run'.no_arrival_after_end ?_ ⟨.timeout, rfl, ref, name, ids, news⟩ c member arrival
        exact mem_told_iff.mpr ⟨e, List.mem_append_right _ List.mem_cons_self, hb⟩
      · rcases List.mem_cons.mp hf with rfl | hf
        · rw [eq] at completes
          exact here completes
        · exact before f hf completes

theorem meeting_outcomes_of_two :
    let past := (play ⟨3, 0⟩ [(0, .fire), (0, .sync 2 sampleRef sampleTerms),
      (0, .sync 1 sampleRef sampleTerms), (0, .join 2 sampleMember sampleRef),
      (0, .join 1 sampleMember sampleRef)]).1
    past[0].broadcasts.map Broadcast.receivers = [[1, 2]] ∧
      ∃ f ∈ past.drop 1, f.Completes sampleRef.id sampleTerms.point 0 := by
  intro past
  have run : History ⟨3, 0⟩ past _ := History.play ⟨3, 0⟩ (by decide)
  have unforced : Unforced past := by
    unfold Unforced
    decide
  have split : past = [] ++ past[0] :: past.drop 1 := rfl
  have outcome := (History.meeting_outcomes run unforced split).2 past[0].broadcasts[0]
    (List.getElem_mem _) sampleRef sampleTerms.point 0 _ .success rfl
  exact ⟨rfl, outcome.1 rfl⟩

/-- Two join, the first arrives, the second leaves, and the first asks to arrive once more. -/
def askedTwice : List (Nat × Action) :=
  [(500000000, .fire), (0, .sync 1 sampleRef sampleTerms), (0, .leave 2 sampleRef),
    (0, .sync 1 sampleRef sampleTerms), (0, .join 2 sampleMember sampleRef),
    (0, .join 1 sampleMember sampleRef)]

/-- A request that finds its connection among the arrivals completes nothing, even if all
members have arrived by then: the sync point still times out. -/
theorem fills_without_completion :
    ¬∀ (policy : Policy) (past : List Episode) (d : Directory), 1 ≤ policy.maxGroupSize →
      History policy past d → Unforced past → ∀ post e pre, past = post ++ e :: pre →
        ∀ id name generation, e.Fills id name generation →
          ∀ f ∈ post, ∀ b ∈ f.broadcasts, ¬b.Says generation .timeout := by
  intro claim
  let past := (play ⟨3, 0⟩ askedTwice).1
  have run : History ⟨3, 0⟩ past _ := History.play ⟨3, 0⟩ (by decide)
  have unforced : Unforced past := by
    unfold Unforced
    decide
  have fills : past[1].Fills sampleRef.id sampleTerms.point 0 :=
    ⟨⟨1, _, _, rfl, rfl⟩, _, rfl, rfl, fun _ => rfl⟩
  apply claim ⟨3, 0⟩ past _ (by decide) run unforced (past.take 1) past[1] (past.drop 2) rfl _ _ _
    fills past[0] List.mem_cons_self (past[0].broadcasts[0]) (List.getElem_mem _)
  exact ⟨_, _, _, rfl⟩

end Muster.Directory
