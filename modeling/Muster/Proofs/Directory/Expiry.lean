import Muster.Proofs.Directory.Meeting

/-! Every sync point has its end on the agenda, and nothing else has: an end that falls due finds
its sync point, and none outlives its group. -/
namespace Muster.Directory
variable {policy : Policy} {past : List Episode} {d : Directory}

/-- The sync points of a directory and the ends on its agenda, one for one. -/
structure Matched (d : Directory) : Prop where
  live : ∀ id name p, d.point? id name = some p → d.agenda.isLive p.event = true ∧
    ∀ e ∈ d.agenda.entries, e.id = p.event →
      e.payload = .resolve id name p.generation p.ending ∧
        (p.phase = .waiting → e.trigger = p.deadline)
  owned : ∀ e ∈ d.agenda.entries, ∀ id name generation resolution,
    e.payload = .resolve id name generation resolution →
      ∃ p, d.point? id name = some p ∧ p.event = e.id
  single : ∀ id name p id' name' p', d.point? id name = some p → d.point? id' name' = some p' →
    p.event = p'.event → id = id' ∧ name = name'

theorem Matched.of_armed (h : Armed d.point? d.agenda) : Matched d where
  live id name p here := by
    obtain ⟨e, mem, ends⟩ := h.live id name p here
    refine ⟨Agenda.isLive_iff.mpr ⟨e, mem, ends.number⟩, ?_⟩
    intro f mem' number
    obtain rfl := Agenda.eq_of_id_eq mem mem' (ends.number.trans number.symm)
    exact ⟨ends.payload, ends.deadline⟩
  owned e mem id name generation resolution payload := by
    obtain ⟨p, here, ends⟩ := h.owned e mem id name generation resolution payload
    exact ⟨p, here, ends.number.symm⟩
  single _ _ _ _ _ _ here here' same := h.place_unique here here' same

/-- An end that falls due ends a sync point, which is as the end says. -/
theorem Matched.fire (h : Matched d) {now : Nat} {id name : NodeId} {generation : Nat}
    {resolution : Resolution} {agenda : Agenda Event}
    (due : d.agenda.pop? now = some (.resolve id name generation resolution, agenda)) :
    ∃ g p, d.groups[id]? = some g ∧ g.points[name]? = some p ∧ p.generation = generation ∧
      p.ending = resolution ∧ (d.fire policy now).1.point? id name = none ∧
      (d.fire policy now).2 = [p.notice ⟨id, g.token⟩ name resolution.code] := by
  obtain ⟨e, mem, payload, -⟩ := Agenda.pop?_eq_some due
  obtain ⟨p, here, number⟩ := h.owned e mem id name generation resolution payload
  have named := ((h.live id name p here).2 e mem number.symm).1
  rw [payload] at named
  injection named with _ _ same ending
  obtain ⟨g, group, point⟩ := Option.bind_eq_some_iff.mp here
  have fired : d.fire policy now =
      Directory.resolve { d with agenda } id name generation resolution := fire_of_pop? policy due
  refine ⟨g, p, group, point, same.symm, ending.symm, ?_, ?_⟩
  · rw [fired, resolve_point? { d with agenda } here same.symm, if_pos ⟨rfl, rfl⟩]
  · rw [fired]
    unfold resolve
    rw [group]
    dsimp only
    rw [point]
    dsimp only
    rw [if_pos same.symm]
    rfl

/-- What a history without direct calls for an end makes of the agenda: its live ends are those
of the sync points that there are. So an end that falls due is never stale, and where there is
no group there is no end of a sync point of it. -/
theorem History.ends_match_points (h : History policy past d) (unforced : Unforced past) :
    Matched d ∧
    (∀ now id name generation resolution agenda,
      d.agenda.pop? now = some (.resolve id name generation resolution, agenda) →
        ∃ g p, d.groups[id]? = some g ∧ g.points[name]? = some p ∧ p.generation = generation ∧
          p.ending = resolution ∧ (d.fire policy now).1.point? id name = none ∧
          (d.fire policy now).2 = [p.notice ⟨id, g.token⟩ name resolution.code]) ∧
    ∀ id, d.groups[id]? = none → ∀ e ∈ d.agenda.entries, ∀ name generation resolution,
      e.payload ≠ .resolve id name generation resolution := by
  have matched : Matched d := .of_armed (h.run.armed unforced)
  refine ⟨matched, fun now id name generation resolution agenda due => matched.fire due, ?_⟩
  intro id closed e mem name generation resolution payload
  obtain ⟨p, here, -⟩ := matched.owned e mem id name generation resolution payload
  obtain ⟨g, group, -⟩ := Option.bind_eq_some_iff.mp here
  rw [closed] at group
  contradiction

theorem ends_match_points_of_lone_arrival :
    let d := (play ⟨3, 0⟩ [(0, .sync 1 sampleRef sampleTerms), (0, .join 2 sampleMember sampleRef),
      (0, .join 1 sampleMember sampleRef)]).2
    d.agenda.entries.map Entry.payload =
        [.resolve sampleRef.id sampleTerms.point 0 .timeout] ∧
      d.agenda.entries.map Entry.trigger = [500000000] ∧ Matched d := by
  intro d
  have run : History ⟨3, 0⟩ _ d := History.play ⟨3, 0⟩ (by decide)
  have unforced : Unforced (play ⟨3, 0⟩ [(0, .sync 1 sampleRef sampleTerms),
      (0, .join 2 sampleMember sampleRef), (0, .join 1 sampleMember sampleRef)]).1 := by
    unfold Unforced
    decide
  exact ⟨rfl, rfl, (History.ends_match_points run unforced).1⟩

end Muster.Directory
