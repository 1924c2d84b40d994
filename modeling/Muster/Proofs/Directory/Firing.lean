import Muster.Proofs.Directory.Expiry

/-! The events that are due at a time, handled one after the other until there are no more. -/
namespace Muster

def Broadcast.Closes (b : Broadcast) (id : NodeId) : Prop :=
  ∃ token, b.news = .membership ⟨id, token⟩ [] .close

theorem Group.closes_of_farewell (g : Group) (id : NodeId) :
    ∃ b ∈ g.farewell id, b.Closes id :=
  ⟨_, List.mem_append_right _ (List.mem_singleton_self _), g.token, rfl⟩

theorem Group.notice_mem_farewell {g : Group} (id : NodeId) {name : NodeId} {p : SyncPoint}
    (point : g.points[name]? = some p) : p.notice ⟨id, g.token⟩ name .close ∈ g.farewell id := by
  apply List.mem_append_left
  exact List.mem_map_of_mem (Std.ExtTreeMap.mem_toList_iff_getElem?_eq_some.mpr point)

theorem Group.cancelPoints_sublist (g : Group) (agenda : Agenda Event) :
    (g.cancelPoints agenda).entries.Sublist agenda.entries := by
  unfold cancelPoints
  induction g.points.values generalizing agenda with
  | nil => exact .refl _
  | cons p ps ih => exact (ih (agenda.cancel p.event)).trans List.filter_sublist

namespace Directory

section Shrinking
variable (d : Directory) (policy : Policy) (now : Nat)

theorem closeGroup_sublist (id : NodeId) :
    (d.closeGroup id).1.agenda.entries.Sublist d.agenda.entries := by
  unfold closeGroup
  split
  · exact .refl _
  · exact Group.cancelPoints_sublist _ d.agenda

theorem removeMember_sublist (c : ConnId) (id : NodeId) :
    (d.removeMember now c id).1.agenda.entries.Sublist d.agenda.entries := by
  unfold removeMember
  split
  · exact .refl _
  · split
    · dsimp only
      split
      · exact Group.cancelPoints_sublist _ d.agenda
      · exact .refl _
    · exact .refl _

theorem housekeeping_sublist :
    (d.housekeeping policy now).1.agenda.entries.Sublist d.agenda.entries := by
  apply forEach_preserves (fun d' => d'.agenda.entries.Sublist d.agenda.entries) _ _ d (.refl _)
  exact fun d' id sub => (d'.closeGroup_sublist id).trans sub

theorem removeConnection_sublist (c : ConnId) :
    (d.removeConnection now c).1.agenda.entries.Sublist d.agenda.entries := by
  apply forEach_preserves (fun d' => d'.agenda.entries.Sublist d.agenda.entries) _ _ d (.refl _)
  exact fun d' id sub => (d'.removeMember_sublist now c id).trans sub

theorem handle_sublist (event : Event) :
    (d.handle policy now event).1.agenda.entries.Sublist d.agenda.entries := by
  cases event with
  | housekeeping => exact d.housekeeping_sublist policy now
  | resolve id name generation resolution =>
    show (d.resolve id name generation resolution).1.agenda.entries.Sublist _
    rw [resolve_agenda]

end Shrinking

/-- Every event that recurs does so after a while, and every success on the agenda fell due when
the last member arrived, which was not after `now`. -/
structure Timely (now : Nat) (agenda : Agenda Event) : Prop where
  delays : ∀ e ∈ agenda.entries, e.recurring = true → 0 < e.delay
  successes : ∀ e ∈ agenda.entries, ∀ id name generation,
    e.payload = .resolve id name generation .success → e.recurring = false ∧ e.trigger ≤ now

namespace Timely
variable {now : Nat} {agenda agenda' : Agenda Event}

theorem mono (h : Timely now agenda) (sub : ∀ e ∈ agenda'.entries, e ∈ agenda.entries) :
    Timely now agenda' :=
  ⟨fun e mem => h.delays e (sub e mem), fun e mem => h.successes e (sub e mem)⟩

theorem schedule (h : Timely now agenda) {start delay : Nat} {event : Event} {recurring : Bool}
    (delays : recurring = true → 0 < delay)
    (success : ∀ id name generation, event = .resolve id name generation .success →
      recurring = false ∧ start + delay ≤ now) :
    Timely now (agenda.schedule start delay event recurring).2 := by
  constructor
  · intro e mem
    rcases Agenda.mem_schedule.mp mem with rfl | mem
    · exact delays
    · exact h.delays e mem
  · intro e mem
    rcases Agenda.mem_schedule.mp mem with rfl | mem
    · exact success
    · exact h.successes e mem

theorem cancel (h : Timely now agenda) (id : Nat) : Timely now (agenda.cancel id) :=
  h.mono fun _ mem => (Agenda.mem_cancel.mp mem).1

theorem pop (h : Timely now agenda) {now' : Nat} {event : Event}
    (taken : agenda.pop? now' = some (event, agenda')) : Timely now agenda' := by
  obtain ⟨e, here, -, -, left⟩ := Agenda.pop?_eq_some taken
  constructor
  · intro f mem
    rcases (left f).mp mem with ⟨mem, -⟩ | ⟨recurring, rfl⟩
    · exact h.delays f mem
    · exact h.delays e here
  · intro f mem id name generation payload
    rcases (left f).mp mem with ⟨mem, -⟩ | ⟨recurring, rfl⟩
    · exact h.successes f mem id name generation payload
    · obtain ⟨once, -⟩ := h.successes e here id name generation payload
      rw [once] at recurring
      contradiction

end Timely

section
variable {d : Directory} {policy : Policy} {now start : Nat}

theorem arriveAt_timely (h : Timely now d.agenda) (past : start ≤ now) (c : ConnId)
    (member id name : NodeId) (g : Group) (p : SyncPoint) (code : SyncCode) :
    Timely now (d.arriveAt start c member id name g p code).directory.agenda := by
  by_cases complete : (p.arrive c member).isComplete g.members = true
  · rw [arriveAt_of_complete complete]
    apply Timely.schedule (h.cancel _)
    · exact nofun
    · exact fun _ _ _ _ => ⟨rfl, past⟩
  · rw [arriveAt_of_incomplete complete]
    exact h

theorem sync_timely (h : Timely now d.agenda) (past : start ≤ now) (c : ConnId) (ref : GroupRef)
    (terms : SyncTerms) : Timely now (d.sync start c ref terms).directory.agenda := by
  have outcome := sync_outcome d start c ref terms
  generalize d.sync start c ref terms = change at outcome ⊢
  cases outcome with
  | rejected => exact h
  | refresh => exact h
  | arrive => exact arriveAt_timely h past ..
  | create =>
    apply arriveAt_timely _ past
    apply h.schedule
    · exact nofun
    · intro id name generation same
      injection same
      contradiction

theorem fire_timely (h : Timely now d.agenda) (policy : Policy) (start : Nat) :
    Timely now (d.fire policy start).1.agenda := by
  unfold fire
  split
  · exact h
  · rename_i event agenda taken
    exact (h.pop taken).mono (handle_sublist { d with agenda } policy start event).subset

/-- Housekeeping may be put on the agenda at any time; all else happens not after `now`. -/
theorem act_timely (h : Timely now d.agenda) (policy : Policy) {a : Action}
    (timed : (∃ interval, a = .watch interval ∧ 0 < interval) ∨
      start ≤ now ∧ ∀ interval, a ≠ .watch interval) :
    Timely now (d.act policy start a).1.agenda := by
  obtain ⟨interval, rfl, positive⟩ | ⟨past, other⟩ := timed
  · apply h.schedule
    · exact fun _ => positive
    · exact fun _ _ _ same => Event.noConfusion same
  cases a with
  | join c member ref =>
    show Timely now (d.join policy start c member ref).directory.agenda
    rw [join_agenda]
    exact h
  | leave c ref =>
    show Timely now (d.leave start c ref).directory.agenda
    unfold leave
    split
    · exact h
    · split
      · exact h.mono (d.removeMember_sublist start c ref.id).subset
      · exact h
  | removeConnection c => exact h.mono (d.removeConnection_sublist start c).subset
  | sync c ref terms => exact sync_timely h past c ref terms
  | housekeeping => exact h.mono (d.housekeeping_sublist policy start).subset
  | watch interval => exact absurd rfl (other interval)
  | resolve id name generation resolution =>
    show Timely now (d.resolve id name generation resolution).1.agenda
    rw [resolve_agenda]
    exact h
  | fire => exact fire_timely h policy start

theorem Run.timely {past : List Episode} (h : Run policy past d)
    (timed : ∀ e ∈ past, (∃ interval, e.action = .watch interval ∧ 0 < interval) ∨
      e.now ≤ now ∧ ∀ interval, e.action ≠ .watch interval) : Timely now d.agenda := by
  induction h with
  | start =>
    constructor
    · exact fun e mem => absurd mem List.not_mem_nil
    · exact fun e mem => absurd mem List.not_mem_nil
  | act start a run ih =>
    apply act_timely
    · exact ih fun e mem => timed e (List.mem_cons_of_mem _ mem)
    · exact timed _ List.mem_cons_self

end

/-- An event that was taken from the agenda, and the news that came of it. -/
structure Firing where
  entry : Entry Event
  broadcasts : List Broadcast

/-- What happens when the first event is handled again and again until it is not due. -/
inductive Fires (policy : Policy) (now : Nat) : Directory → List Firing → Directory → Prop where
  | rest {d : Directory} (idle : d.agenda.pop? now = none) : Fires policy now d [] d
  | next {d d' : Directory} {e : Entry Event} {fired : List Firing}
      (first : d.agenda.entries.head? = some e) (due : e.trigger ≤ now)
      (later : Fires policy now (d.fire policy now).1 fired d') :
      Fires policy now d (⟨e, (d.fire policy now).2⟩ :: fired) d'

section
variable {d d' : Directory} {policy : Policy} {now : Nat} {event : Event} {agenda : Agenda Event}
  {fired : List Firing}

theorem fire_due (timely : Timely now d.agenda) (taken : d.agenda.pop? now = some (event, agenda))
    (policy : Policy) : ∃ e, d.agenda.entries.head? = some e ∧ e.payload = event ∧
      e.trigger ≤ now ∧ ∃ others, d.agenda.due now = e :: others ∧
        ((d.fire policy now).1.agenda.due now).Sublist others := by
  obtain ⟨e, first, payload, due⟩ := Agenda.due_eq_cons taken timely.delays
  have early : e.trigger ≤ now := (Agenda.mem_due.mp (due ▸ List.mem_cons_self)).2
  refine ⟨e, first, payload, early, agenda.due now, due, ?_⟩
  rw [fire_of_pop? policy taken]
  exact (handle_sublist { d with agenda } policy now event).filter _

/-- As many rounds as there are due events are enough. -/
theorem fireMany_fires (policy : Policy) (fuel : Nat) (timely : Timely now d.agenda)
    (enough : (d.agenda.due now).length ≤ fuel) :
    ∃ fired, Fires policy now d fired (fireMany policy now fuel d).2 ∧
      (fireMany policy now fuel d).1 = fired.map fun f => (f.entry.payload, f.broadcasts) := by
  induction fuel generalizing d with
  | zero =>
    refine ⟨[], .rest ?_, rfl⟩
    cases taken : d.agenda.pop? now with
    | none => rfl
    | some popped =>
      obtain ⟨e, -, -, -, others, due, -⟩ := fire_due timely taken policy
      rw [due] at enough
      exact absurd enough (Nat.not_succ_le_zero _)
  | succ fuel ih =>
    rw [fireMany_succ]
    cases taken : d.agenda.pop? now with
    | none => exact ⟨[], .rest taken, rfl⟩
    | some popped =>
      obtain ⟨event, agenda⟩ := popped
      obtain ⟨e, first, payload, early, others, due, fewer⟩ := fire_due timely taken policy
      have fired := fire_of_pop? policy taken
      rw [due, List.length_cons] at enough
      obtain ⟨rest, fires, list⟩ := ih (d := (d.fire policy now).1) (fire_timely timely policy now)
        (Nat.le_trans fewer.length_le (Nat.le_of_succ_le_succ enough))
      refine ⟨⟨e, (d.fire policy now).2⟩ :: rest, ?_, ?_⟩
      · dsimp only
        rw [← fired]
        exact .next first early fires
      · dsimp only
        rw [← fired, list, List.map_cons, payload]

/-- What housekeeping takes off the agenda is the end of a sync point whose group it closes. -/
theorem forEach_closeGroup_kept (ids : List NodeId) {e : Entry Event}
    (mem : e ∈ d.agenda.entries) : e ∈ (forEach closeGroup d ids).1.agenda.entries ∨
      ∃ id name p, d.point? id name = some p ∧ p.event = e.id ∧
        ∃ b ∈ (forEach closeGroup d ids).2, b.Closes id := by
  induction ids generalizing d with
  | nil => exact .inl mem
  | cons id ids ih =>
    show e ∈ (forEach closeGroup (d.closeGroup id).1 ids).1.agenda.entries ∨ ∃ k name p,
      d.point? k name = some p ∧ p.event = e.id ∧
        ∃ b ∈ (d.closeGroup id).2 ++ (forEach closeGroup (d.closeGroup id).1 ids).2, b.Closes k
    cases group : d.groups[id]? with
    | none =>
      have same : d.closeGroup id = (d, []) := by
        unfold closeGroup
        rw [group]
      rw [same]
      exact ih mem
    | some g =>
      have closed : d.closeGroup id = d.close id g := by
        unfold closeGroup
        rw [group]
      rw [closed]
      by_cases own : ∃ (name : NodeId) (p : SyncPoint), g.points[name]? = some p ∧ p.event = e.id
      · obtain ⟨name, p, point, number⟩ := own
        right
        refine ⟨id, name, p, by rw [point?_of_group group, point], number, ?_⟩
        obtain ⟨b, told, closes⟩ := g.closes_of_farewell id
        exact ⟨b, List.mem_append_left _ told, closes⟩
      · have kept : e ∈ (d.close id g).1.agenda.entries :=
          Group.mem_cancelPoints.mpr ⟨mem, fun name p point number =>
            own ⟨name, p, point, number.symm⟩⟩
        refine (ih kept).imp_right ?_
        rintro ⟨k, name, p, here, number, b, told, closes⟩
        rw [close_point?] at here
        split at here
        · contradiction
        · exact ⟨k, name, p, here, number, b, List.mem_append_right _ told, closes⟩

/-- To handle the first event leaves the others on the agenda, but for the ends of sync points
whose group it closes. -/
theorem fire_kept (armed : Armed d.point? d.agenda) (policy : Policy) {e first : Entry Event}
    (head : d.agenda.entries.head? = some first) (due : first.trigger ≤ now)
    (mem : e ∈ d.agenda.entries) (other : e ≠ first) :
    e ∈ (d.fire policy now).1.agenda.entries ∨
      first.payload = .housekeeping ∧ ∃ id name generation resolution,
        e.payload = .resolve id name generation resolution ∧
          ∃ b ∈ (d.fire policy now).2, b.Closes id := by
  cases taken : d.agenda.pop? now with
  | none =>
    have late := Agenda.pop?_eq_none taken first (List.mem_of_head? head)
    omega
  | some popped =>
    obtain ⟨event, agenda⟩ := popped
    have kept := Agenda.mem_of_pop? taken head mem other
    rw [fire_of_pop? policy taken]
    cases event with
    | resolve id name generation resolution =>
      left
      show e ∈ (Directory.resolve { d with agenda } id name generation resolution).1.agenda.entries
      rw [resolve_agenda]
      exact kept
    | housekeeping =>
      refine (forEach_closeGroup_kept _ kept).imp_right ?_
      rintro ⟨id, name, p, here, number, told⟩
      obtain ⟨f, mem', ends⟩ := armed.live id name p here
      obtain rfl := Agenda.eq_of_id_eq mem mem' (number.symm.trans ends.number.symm)
      obtain ⟨x, rest, entries, payload, -⟩ := Agenda.pop?_eq_some_cons taken
      rw [entries, List.head?_cons, Option.some.injEq] at head
      subst head
      exact ⟨payload, id, name, p.generation, p.ending, ends.payload, told⟩

/-- A sync point is still there when an event was handled, or its end was told. -/
theorem fire_point (policy : Policy) (now : Nat) {id name : NodeId} {g : Group} {p : SyncPoint}
    (group : d.groups[id]? = some g) (point : g.points[name]? = some p) :
    (∃ g', (d.fire policy now).1.groups[id]? = some g' ∧ g'.token = g.token ∧
        g'.points[name]? = some p) ∨
      ∃ code, code.isFinal = true ∧
        p.notice ⟨id, g.token⟩ name code ∈ (d.fire policy now).2 := by
  have step := act_covers d policy now .fire id
  have told : ∀ b ∈ report (d.act policy now .fire).2 id, b ∈ (d.fire policy now).2 :=
    fun b mem => (List.mem_filter.mp mem).1
  change GroupStep d policy now .fire id _ (d.fire policy now).1.groups[id]? _ at step
  rw [group] at step
  generalize (d.fire policy now).1.groups[id]? = s at step ⊢
  generalize report (d.act policy now .fire).2 id = news at step told
  cases step with
  | same => exact .inl ⟨g, rfl, rfl, point⟩
  | expire => exact .inr ⟨.close, rfl, told _ (Group.notice_mem_farewell id point)⟩
  | @resolve g name' q resolution action found =>
    by_cases here : name' = name
    · subst here
      rw [point] at found
      obtain rfl := Option.some.inj found
      exact .inr ⟨resolution.code, resolution.isFinal_code, told _ (List.mem_singleton_self _)⟩
    · left
      refine ⟨_, rfl, rfl, ?_⟩
      rw [Table.getElem?_erase, if_neg here, point]
  | refresh action =>
    rcases action with ⟨_, action⟩ | ⟨_, action, -⟩
    · contradiction
    · contradiction
  | enter action => contradiction
  | create _ _ action => contradiction
  | arrive _ action => contradiction
  | part action => exact absurd action (Action.fire_not_removes _ _)
  | dissolve action => exact absurd action (Action.fire_not_removes _ _)

namespace Fires

theorem armed (h : Fires policy now d fired d') (armed : Armed d.point? d.agenda) :
    Armed d'.point? d'.agenda := by
  induction h with
  | rest => exact armed
  | @next d d' e fired first due later ih =>
    exact ih (fire_armed armed policy now)

theorem timely (h : Fires policy now d fired d') (timely : Timely now d.agenda) :
    Timely now d'.agenda := by
  induction h with
  | rest => exact timely
  | next first due later ih => exact ih (fire_timely timely policy now)

theorem idle (h : Fires policy now d fired d') : ∀ e ∈ d'.agenda.entries, now < e.trigger := by
  induction h with
  | rest idle => exact Agenda.pop?_eq_none idle
  | next first due later ih => exact ih

/-- Only events that were due are handled, in their order and none of them twice. -/
theorem once (h : Fires policy now d fired d') (timely : Timely now d.agenda) :
    (fired.map Firing.entry).Sublist (d.agenda.due now) := by
  induction h with
  | rest => exact List.nil_sublist _
  | @next d d' e fired first due later ih =>
    cases taken : d.agenda.pop? now with
    | none =>
      have late := Agenda.pop?_eq_none taken e (List.mem_of_head? first)
      omega
    | some popped =>
      obtain ⟨x, head, -, -, others, all, fewer⟩ := fire_due timely taken policy
      rw [first, Option.some.injEq] at head
      rw [all, ← head]
      exact ((ih (fire_timely timely policy now)).trans fewer).cons_cons e

/-- Every event that was due is handled, unless housekeeping before it closes its group. -/
theorem all (h : Fires policy now d fired d') (armed : Armed d.point? d.agenda) {e : Entry Event}
    (mem : e ∈ d.agenda.due now) : e ∈ fired.map Firing.entry ∨
      ∃ id name generation resolution, e.payload = .resolve id name generation resolution ∧
        ∃ f ∈ fired, f.entry.payload = .housekeeping ∧ f.entry.Before e ∧
          ∃ b ∈ f.broadcasts, b.Closes id := by
  induction h with
  | rest idle =>
    obtain ⟨mem, due⟩ := Agenda.mem_due.mp mem
    have late := Agenda.pop?_eq_none idle e mem
    omega
  | @next d d' first fired head due later ih =>
    obtain ⟨mem, early⟩ := Agenda.mem_due.mp mem
    by_cases same : e = first
    · left
      rw [same]
      exact List.mem_cons_self
    · rcases fire_kept armed policy head due mem same with kept | ⟨payload, cancelled⟩
      · rcases ih (fire_armed armed policy now) (Agenda.mem_due.mpr ⟨kept, early⟩) with
          handled | cancelled
        · exact .inl (List.mem_cons_of_mem _ handled)
        · right
          obtain ⟨id, name, generation, resolution, payload, f, mem', how⟩ := cancelled
          exact ⟨id, name, generation, resolution, payload, f, List.mem_cons_of_mem _ mem', how⟩
      · right
        obtain ⟨id, name, generation, resolution, ends, told⟩ := cancelled
        refine ⟨id, name, generation, resolution, ends, _, List.mem_cons_self, payload, ?_, told⟩
        obtain ⟨rest, entries⟩ := List.head?_eq_some_iff.mp head
        have sorted := d.agenda.sorted
        rw [entries, List.pairwise_cons] at sorted
        rw [entries, List.mem_cons] at mem
        exact sorted.1 e (mem.resolve_left same)

/-- A sync point outlasts the events that are handled, or its end is told. -/
theorem point (h : Fires policy now d fired d') {id name : NodeId} {g : Group} {p : SyncPoint}
    (group : d.groups[id]? = some g) (point : g.points[name]? = some p) :
    d'.point? id name = some p ∨ ∃ f ∈ fired, ∃ code, code.isFinal = true ∧
      p.notice ⟨id, g.token⟩ name code ∈ f.broadcasts := by
  induction h generalizing g with
  | rest =>
    left
    rw [point?_of_group group, point]
  | @next d d' first fired head due later ih =>
    rcases fire_point policy now group point with ⟨g', group', token, point'⟩ | ⟨code, final, told⟩
    · refine (ih group' point').imp_right ?_
      rintro ⟨f, mem, code, final, told⟩
      rw [token] at told
      exact ⟨f, List.mem_cons_of_mem _ mem, code, final, told⟩
    · exact .inr ⟨_, List.mem_cons_self, code, final, told⟩

end Fires

structure Cleared (policy : Policy) (now : Nat) (d : Directory) (fired : List Firing)
    (d' : Directory) : Prop where
  fires : Fires policy now d fired d'
  once : (fired.map Firing.entry).Sublist (d.agenda.due now)
  distinct : (fired.map fun f => f.entry.id).Nodup
  all : ∀ e ∈ d.agenda.due now, e ∈ fired.map Firing.entry ∨
    ∃ id name generation resolution, e.payload = .resolve id name generation resolution ∧
      ∃ f ∈ fired, f.entry.payload = .housekeeping ∧ f.entry.Before e ∧
        ∃ b ∈ f.broadcasts, b.Closes id
  idle : ∀ e ∈ d'.agenda.entries, now < e.trigger
  waiting : ∀ id name p, d'.point? id name = some p → p.phase = .waiting ∧ now < p.deadline
  told : ∀ (id name : NodeId) (g : Group) (p : SyncPoint), d.groups[id]? = some g →
    g.points[name]? = some p → p.phase = .resolving ∨ p.deadline ≤ now →
      ∃ f ∈ fired, ∃ code, code.isFinal = true ∧ p.notice ⟨id, g.token⟩ name code ∈ f.broadcasts

theorem Fires.cleared (h : Fires policy now d fired d') (armed : Armed d.point? d.agenda)
    (timely : Timely now d.agenda) : Cleared policy now d fired d' := by
  have waiting : ∀ id name p, d'.point? id name = some p →
      p.phase = .waiting ∧ now < p.deadline := by
    intro id name p here
    obtain ⟨e, mem, ends⟩ := (h.armed armed).live id name p here
    have late := h.idle e mem
    cases phase : p.phase with
    | waiting =>
      rw [← ends.deadline phase]
      exact ⟨rfl, late⟩
    | resolving =>
      have payload := ends.payload
      rw [SyncPoint.ending, phase] at payload
      have due := ((h.timely timely).successes e mem id name p.generation payload).2
      omega
  refine ⟨h, h.once timely, ?_, fun e => h.all armed, h.idle, waiting, ?_⟩
  · have ids := ((h.once timely).trans List.filter_sublist).map Entry.id
    rw [List.map_map] at ids
    exact d.agenda.ids_nodup.sublist ids
  · intro id name g p group point ended
    refine (h.point group point).resolve_left fun here => ?_
    obtain ⟨phase, late⟩ := waiting id name p here
    rcases ended with resolving | due
    · rw [phase] at resolving
      contradiction
    · omega

theorem fireDue_cleared (policy : Policy) (armed : Armed d.point? d.agenda)
    (timely : Timely now d.agenda) :
    ∃ fired, Cleared policy now d fired (d.fireDue policy now).2 ∧
      (d.fireDue policy now).1 = fired.map fun f => (f.entry.payload, f.broadcasts) := by
  obtain ⟨fired, fires, list⟩ :=
    fireMany_fires policy d.agenda.size timely (List.length_filter_le _ _)
  exact ⟨fired, fires.cleared armed timely, list⟩

end

end Directory
end Muster
