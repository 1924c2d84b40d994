import Muster.Proofs.Directory.PointStep

/-! Sync points are told apart by their generations: each is new when its sync point is
created, and once its end is told nothing more is said of it. -/
namespace Muster

def Broadcast.Says (b : Broadcast) (generation : Nat) (code : ProgressCode) : Prop :=
  ∃ ref point arrived, b.news = .progress ref point generation arrived code

def Broadcast.Tells (b : Broadcast) (generation : Nat) : Prop := ∃ code, b.Says generation code

/-- The news after which there should be none of this generation. -/
def Broadcast.Ends (b : Broadcast) (generation : Nat) : Prop :=
  ∃ code, code.isFinal = true ∧ b.Says generation code

theorem Broadcast.Ends.tells {b : Broadcast} {generation : Nat} (h : b.Ends generation) :
    b.Tells generation := by
  obtain ⟨code, _, spoken⟩ := h
  exact ⟨code, spoken⟩

theorem SyncPoint.eq_of_notice {p : SyncPoint} {ref : GroupRef} {name : NodeId}
    {code code' : ProgressCode} {generation : Nat}
    (h : (p.notice ref name code).Says generation code') :
    generation = p.generation ∧ code' = code := by
  obtain ⟨ref', point, arrived, eq⟩ := h
  injection eq with _ _ generation _ code
  exact ⟨generation.symm, code.symm⟩

theorem Resolution.isFinal_code (r : Resolution) : r.code.isFinal = true := by
  cases r with
  | success => rfl
  | timeout => rfl

namespace Directory

def Episode.reply? (e : Episode) : Option SyncReply :=
  match e.action with
  | .sync c ref terms => some (e.before.sync e.now c ref terms).answer
  | _ => none

/-- Whether a sync point of this generation exists on either side of the episode, or is spoken
of in it. -/
def Episode.Mentions (e : Episode) (generation : Nat) : Prop :=
  (∃ id name p, e.before.point? id name = some p ∧ p.generation = generation) ∨
    (∃ id name p, e.after.point? id name = some p ∧ p.generation = generation) ∨
      ∃ b ∈ e.broadcasts, b.Tells generation

/-- A request to arrive that was answered with a new sync point of this generation. -/
def Episode.Creates (e : Episode) (id name : NodeId) (generation : Nat) (terms : SyncTerms) :
    Prop :=
  ∃ c token, e.action = .sync c ⟨id, token⟩ terms ∧ terms.point = name ∧
    (e.before.sync e.now c ⟨id, token⟩ terms).answer.code = .created ∧
    ∃ p, e.after.point? id name = some p ∧ p.generation = generation

section
variable {d : Directory} {policy : Policy} {now : Nat} {a : Action} {id name : NodeId}
  {m m' : Members} {s s' : Option SyncPoint} {news : List Broadcast}

/-- A sync point is what it was, with other arrivals, or it has just been created. -/
theorem PointStep.origin (h : PointStep d now a id name m m' s s' news) {p' : SyncPoint}
    (after : s' = some p') :
    (∃ p, s = some p ∧ p'.generation = p.generation) ∨
      (s = none ∧ p'.generation = d.nextGeneration ∧
        ∃ c token terms, a = .sync c ⟨id, token⟩ terms ∧ terms.point = name ∧
          (d.sync now c ⟨id, token⟩ terms).answer.code = .created) := by
  cases h with
  | keep _ => exact .inl ⟨p', after, rfl⟩
  | absent => exact nomatch after
  | create _ _ action point _ created answer =>
    cases after
    refine .inr ⟨rfl, ?_, _, _, _, action, point, answer⟩
    rw [created]
    exact SyncPoint.meet_generation _ _ _ _ _
  | arrive =>
    cases after
    exact .inl ⟨_, rfl, SyncPoint.meet_generation _ _ _ _ _⟩
  | depart =>
    cases after
    exact .inl ⟨_, rfl, rfl⟩
  | close => exact nomatch after
  | resolve => exact nomatch after

/-- News is about the sync point that was there, or about one that has just been created. -/
theorem PointStep.source (h : PointStep d now a id name m m' s s' news) {b : Broadcast}
    (hb : b ∈ news) {generation : Nat} (tells : b.Tells generation) :
    (∃ p, s = some p ∧ p.generation = generation) ∨
      (generation = d.nextGeneration ∧ ∃ p', s' = some p' ∧ p'.generation = generation) := by
  obtain ⟨code, spoken⟩ := tells
  cases h with
  | keep _ => contradiction
  | absent => contradiction
  | create _ _ _ _ _ created =>
    obtain rfl := List.mem_singleton.mp hb
    obtain ⟨rfl, -⟩ := SyncPoint.eq_of_notice spoken
    refine .inr ⟨?_, _, rfl, ?_⟩
    · rw [created]
      rfl
    · exact SyncPoint.meet_generation _ _ _ _ _
  | arrive =>
    obtain rfl := List.mem_singleton.mp hb
    exact .inl ⟨_, rfl, (SyncPoint.eq_of_notice spoken).1.symm⟩
  | depart =>
    obtain rfl := List.mem_singleton.mp hb
    exact .inl ⟨_, rfl, (SyncPoint.eq_of_notice spoken).1.symm⟩
  | close =>
    obtain rfl := List.mem_singleton.mp hb
    exact .inl ⟨_, rfl, (SyncPoint.eq_of_notice spoken).1.symm⟩
  | resolve =>
    obtain rfl := List.mem_singleton.mp hb
    exact .inl ⟨_, rfl, (SyncPoint.eq_of_notice spoken).1.symm⟩

/-- A sync point whose end is told was there, and is no longer. -/
theorem PointStep.ended (h : PointStep d now a id name m m' s s' news) {b : Broadcast}
    (hb : b ∈ news) {generation : Nat} (ends : b.Ends generation) :
    s' = none ∧ ∃ p, s = some p ∧ p.generation = generation := by
  obtain ⟨code, final, spoken⟩ := ends
  cases h with
  | keep _ => contradiction
  | absent => contradiction
  | create =>
    obtain rfl := List.mem_singleton.mp hb
    obtain ⟨-, rfl⟩ := SyncPoint.eq_of_notice spoken
    contradiction
  | arrive =>
    obtain rfl := List.mem_singleton.mp hb
    obtain ⟨-, rfl⟩ := SyncPoint.eq_of_notice spoken
    contradiction
  | depart =>
    obtain rfl := List.mem_singleton.mp hb
    obtain ⟨-, rfl⟩ := SyncPoint.eq_of_notice spoken
    contradiction
  | close =>
    obtain rfl := List.mem_singleton.mp hb
    exact ⟨rfl, _, rfl, (SyncPoint.eq_of_notice spoken).1.symm⟩
  | resolve =>
    obtain rfl := List.mem_singleton.mp hb
    exact ⟨rfl, _, rfl, (SyncPoint.eq_of_notice spoken).1.symm⟩

/-- No action says more than one thing about a sync point. -/
theorem PointStep.length_le_one (h : PointStep d now a id name m m' s s' news) :
    news.length ≤ 1 := by
  cases h with
  | keep _ => exact Nat.zero_le 1
  | absent => exact Nat.zero_le 1
  | create => exact Nat.le_refl 1
  | arrive => exact Nat.le_refl 1
  | depart => exact Nat.le_refl 1
  | close => exact Nat.le_refl 1
  | resolve => exact Nat.le_refl 1

/-- A sync point changes and is spoken of only if the event handled is its own end. -/
theorem PointStep.of_handles_resolve (h : PointStep d now a id name m m' s s' news)
    {group point : NodeId} {generation : Nat} {resolution : Resolution}
    (action : a.Handles d now (.resolve group point generation resolution)) {p : SyncPoint}
    (before : s = some p) (other : p.generation ≠ generation) : s' = some p ∧ news = [] := by
  cases h with
  | keep _ => exact ⟨before, rfl⟩
  | absent => exact nomatch before
  | create _ _ sync =>
    rw [sync] at action
    exact action.elim
  | arrive _ sync =>
    rw [sync] at action
    exact action.elim
  | depart removes => exact absurd action removes.not_handles
  | close closes =>
    rcases closes with ⟨c, removes⟩ | housekeeping
    · exact absurd action removes.not_handles
    · exact nomatch action.unique housekeeping
  | resolve resolves =>
    cases before
    have same := resolves.unique action
    injection same with _ _ same
    exact absurd same other

end

/-! The counter of generations. -/

theorem removeMember_nextGeneration (d : Directory) (now : Nat) (c : ConnId) (id : NodeId) :
    (d.removeMember now c id).1.nextGeneration = d.nextGeneration := by
  unfold removeMember
  split
  · rfl
  · split
    · dsimp only
      split
      · rfl
      · rfl
    · rfl

theorem closeGroup_nextGeneration (d : Directory) (id : NodeId) :
    (d.closeGroup id).1.nextGeneration = d.nextGeneration := by
  unfold closeGroup
  split
  · rfl
  · rfl

theorem sync_nextGeneration (d : Directory) (now : Nat) (c : ConnId) (ref : GroupRef)
    (terms : SyncTerms) :
    (d.sync now c ref terms).directory.nextGeneration =
      if (d.sync now c ref terms).answer.code = .created then d.nextGeneration + 1
      else d.nextGeneration := by
  have outcome := sync_outcome d now c ref terms
  generalize d.sync now c ref terms = change at outcome ⊢
  cases outcome with
  | rejected => rfl
  | @refresh g member p answer group token present point reply =>
    rcases reply with ⟨-, rfl⟩ | ⟨-, -, rfl⟩
    · rfl
    · rfl
  | @arrive g member p group token present point missing waiting =>
    obtain ⟨agenda, eq⟩ := arriveAt_eq d now c member ref.id terms.point
      { g with lastActivity := now } p .joined
    rw [eq]
    rfl
  | @create g member group token present fresh =>
    obtain ⟨agenda, eq⟩ := arriveAt_eq
      { d with
        agenda := (d.agenda.schedule now (syncTimeout terms)
          (.resolve ref.id terms.point d.nextGeneration .timeout) false).2
        nextGeneration := d.nextGeneration + 1 }
      now c member ref.id terms.point { g with lastActivity := now }
      (.create d.nextGeneration (now + syncTimeout terms) d.agenda.nextId) .created
    rw [eq]
    rfl

theorem handle_nextGeneration (d : Directory) (policy : Policy) (now : Nat) (event : Event) :
    (d.handle policy now event).1.nextGeneration = d.nextGeneration := by
  cases event with
  | housekeeping =>
    apply forEach_preserves (fun d' => d'.nextGeneration = d.nextGeneration) _ _ d rfl
    intro d' id same
    rw [closeGroup_nextGeneration, same]
  | resolve id name generation resolution =>
    show (d.resolve id name generation resolution).1.nextGeneration = _
    unfold resolve
    split
    · rfl
    · split
      · rfl
      · split
        · rfl
        · rfl

theorem act_nextGeneration_le (d : Directory) (policy : Policy) (now : Nat) (a : Action) :
    d.nextGeneration ≤ (d.act policy now a).1.nextGeneration := by
  cases a with
  | join c member ref =>
    show _ ≤ (d.join policy now c member ref).directory.nextGeneration
    unfold join
    dsimp only
    split
    · exact Nat.le_refl _
    · split
      · exact Nat.le_refl _
      · split
        · exact Nat.le_refl _
        · exact Nat.le_refl _
  | leave c ref =>
    show _ ≤ (d.leave now c ref).directory.nextGeneration
    unfold leave
    split
    · exact Nat.le_refl _
    · split
      · exact Nat.le_of_eq (removeMember_nextGeneration d now c ref.id).symm
      · exact Nat.le_refl _
  | removeConnection c =>
    apply Nat.le_of_eq
    symm
    apply forEach_preserves (fun d' => d'.nextGeneration = d.nextGeneration) _ _ d rfl
    intro d' id same
    rw [removeMember_nextGeneration, same]
  | sync c ref terms =>
    show _ ≤ (d.sync now c ref terms).directory.nextGeneration
    rw [sync_nextGeneration]
    split
    · exact Nat.le_succ _
    · exact Nat.le_refl _
  | housekeeping => exact Nat.le_of_eq (handle_nextGeneration d policy now .housekeeping).symm
  | watch interval => exact Nat.le_refl _
  | resolve id name generation resolution =>
    exact Nat.le_of_eq
      (handle_nextGeneration d policy now (.resolve id name generation resolution)).symm
  | fire =>
    show _ ≤ (d.fire policy now).1.nextGeneration
    unfold fire
    split
    · exact Nat.le_refl _
    · rename_i event agenda _
      exact Nat.le_of_eq (handle_nextGeneration { d with agenda } policy now event).symm

/-! Histories. -/

section
variable {d : Directory} {policy : Policy} {now : Nat} {a : Action}

theorem act_origin {id name : NodeId} {p' : SyncPoint}
    (after : (d.act policy now a).1.point? id name = some p') :
    (∃ p, d.point? id name = some p ∧ p'.generation = p.generation) ∨
      (d.point? id name = none ∧ p'.generation = d.nextGeneration ∧
        (d.act policy now a).1.nextGeneration = d.nextGeneration + 1 ∧
        ∃ c token terms, a = .sync c ⟨id, token⟩ terms ∧ terms.point = name) := by
  rcases (act_pointStep d policy now a id name).origin after with
    old | ⟨absent, generation, c, token, terms, rfl, point, created⟩
  · exact .inl old
  · refine .inr ⟨absent, generation, ?_, c, token, terms, rfl, point⟩
    show (d.sync now c ⟨id, token⟩ terms).directory.nextGeneration = _
    rw [sync_nextGeneration, if_pos created]

theorem mem_said {bs : List Broadcast} {b : Broadcast} (hb : b ∈ bs) {generation : Nat}
    (tells : b.Tells generation) : ∃ id name, b ∈ said bs id name := by
  obtain ⟨code, ref, name, arrived, eq⟩ := tells
  refine ⟨ref.id, name, List.mem_filter.mpr ⟨hb, ?_⟩⟩
  simp [Broadcast.concerns, eq]

theorem act_source {b : Broadcast} (hb : b ∈ (d.act policy now a).2) {generation : Nat}
    (tells : b.Tells generation) :
    ∃ id name, b ∈ said (d.act policy now a).2 id name ∧
      ((∃ p, d.point? id name = some p ∧ p.generation = generation) ∨
        (generation = d.nextGeneration ∧
          ∃ p', (d.act policy now a).1.point? id name = some p' ∧ p'.generation = generation)) := by
  obtain ⟨id, name, mem⟩ := mem_said hb tells
  exact ⟨id, name, mem, (act_pointStep d policy now a id name).source mem tells⟩

end

/-- What the generations of a directory's sync points have to do with its history. -/
structure Generational (past : List Episode) (d : Directory) : Prop where
  fresh : ∀ id name p, d.point? id name = some p → p.generation < d.nextGeneration
  home : ∀ id name p id' name' p', d.point? id name = some p → d.point? id' name' = some p' →
    p.generation = p'.generation → id = id' ∧ name = name'
  settled : ∀ e ∈ past, ∀ id name p id' name' p', e.after.point? id name = some p →
    d.point? id' name' = some p' → p.generation = p'.generation → id = id' ∧ name = name'
  mentioned : ∀ e ∈ past, ∀ generation, e.Mentions generation → generation < d.nextGeneration
  finished : ∀ b ∈ told past, ∀ generation, b.Ends generation → ∀ id name p,
    d.point? id name = some p → p.generation ≠ generation

theorem mentions_of_mem_told {past : List Episode} {b : Broadcast} (hb : b ∈ told past)
    {generation : Nat} (tells : b.Tells generation) :
    ∃ e ∈ past, e.Mentions generation := by
  obtain ⟨e, he, hb⟩ := mem_told_iff.mp hb
  exact ⟨e, he, .inr (.inr ⟨b, hb, tells⟩)⟩

namespace Generational
variable {past : List Episode} {d : Directory} {policy : Policy} {now : Nat} {a : Action}

theorem start : Generational [] .empty := by
  constructor
  · intro id name p h
    rw [empty_point?] at h
    contradiction
  · intro id name p id' name' p' h
    rw [empty_point?] at h
    contradiction
  · exact nofun
  · exact nofun
  · exact nofun

/-- The news of one generation that is told in one step is told of the place where the sync
point of that generation is or was. -/
theorem source_unique (h : Generational past d) {b b' : Broadcast}
    (hb : b ∈ (d.act policy now a).2) (hb' : b' ∈ (d.act policy now a).2) {generation : Nat}
    (tells : b.Tells generation) (tells' : b'.Tells generation) :
    ∃ id name, b ∈ said (d.act policy now a).2 id name ∧
      b' ∈ said (d.act policy now a).2 id name := by
  obtain ⟨id, name, mem, origin⟩ := act_source hb tells
  obtain ⟨id', name', mem', origin'⟩ := act_source hb' tells'
  refine ⟨id, name, mem, ?_⟩
  suffices same : id = id' ∧ name = name' by
    rw [same.1, same.2]
    exact mem'
  rcases origin with ⟨p, hp, rfl⟩ | ⟨rfl, p, hp, generation⟩
  · rcases origin' with ⟨p', hp', generation⟩ | ⟨next, -⟩
    · exact h.home id name p id' name' p' hp hp' generation.symm
    · exact absurd (h.fresh id name p hp) (by omega)
  · rcases origin' with ⟨p', hp', generation'⟩ | ⟨-, p', hp', generation'⟩
    · exact absurd (h.fresh id' name' p' hp') (by omega)
    · rcases act_origin hp with ⟨q, hq, same⟩ | ⟨-, -, -, c, token, terms, sync, point⟩
      · exact absurd (h.fresh id name q hq) (by omega)
      · rcases act_origin hp' with ⟨q, hq, same⟩ | ⟨-, -, -, c', token', terms', sync', point'⟩
        · exact absurd (h.fresh id' name' q hq) (by omega)
        · rw [sync] at sync'
          injection sync' with _ ref terms
          injection ref with id
          exact ⟨id, by rw [← point, ← point', terms]⟩

theorem act (h : Generational past d) :
    Generational (d.episode policy now a :: past) (d.act policy now a).1 := by
  have grows := act_nextGeneration_le d policy now a
  have fresh : ∀ id name p, (d.act policy now a).1.point? id name = some p →
      p.generation < (d.act policy now a).1.nextGeneration := by
    intro id name p' hp'
    rcases act_origin hp' with ⟨p, hp, same⟩ | ⟨-, new, next, -⟩
    · have := h.fresh id name p hp
      omega
    · omega
  have home : ∀ id name p id' name' p', (d.act policy now a).1.point? id name = some p →
      (d.act policy now a).1.point? id' name' = some p' → p.generation = p'.generation →
        id = id' ∧ name = name' := by
    intro id name p' id' name' q' hp' hq' same
    rcases act_origin hp' with ⟨p, hp, old⟩ | ⟨-, new, -, c, token, terms, sync, point⟩
    · rcases act_origin hq' with ⟨q, hq, old'⟩ | ⟨-, new', -⟩
      · exact h.home id name p id' name' q hp hq (by omega)
      · have := h.fresh id name p hp
        omega
    · rcases act_origin hq' with ⟨q, hq, old'⟩ | ⟨-, -, -, c', token', terms', sync', point'⟩
      · have := h.fresh id' name' q hq
        omega
      · rw [sync] at sync'
        injection sync' with _ ref terms
        injection ref with id
        exact ⟨id, by rw [← point, ← point', terms]⟩
  constructor
  · exact fresh
  · exact home
  · intro e he id name p id' name' p' hp hp' same
    rcases List.mem_cons.mp he with rfl | he
    · exact home id name p id' name' p' hp hp' same
    · rcases act_origin hp' with ⟨q, hq, old⟩ | ⟨-, new, -⟩
      · exact h.settled e he id name p id' name' q hp hq (by omega)
      · have used := h.mentioned e he p.generation (.inr (.inl ⟨id, name, p, hp, rfl⟩))
        omega
  · intro e he generation mentions
    rcases List.mem_cons.mp he with rfl | he
    · rcases mentions with ⟨id, name, p, hp, rfl⟩ | ⟨id, name, p, hp, rfl⟩ | ⟨b, hb, tells⟩
      · exact Nat.lt_of_lt_of_le (h.fresh id name p hp) grows
      · exact fresh id name p hp
      · obtain ⟨id, name, -, ⟨p, hp, rfl⟩ | ⟨-, p', hp', rfl⟩⟩ := act_source hb tells
        · exact Nat.lt_of_lt_of_le (h.fresh id name p hp) grows
        · exact fresh id name p' hp'
    · exact Nat.lt_of_lt_of_le (h.mentioned e he generation mentions) grows
  · intro b hb generation ends id name p' hp' same
    rcases List.mem_append.mp hb with hb | hb
    · obtain ⟨e, he, mentions⟩ := mentions_of_mem_told hb ends.tells
      have used := h.mentioned e he generation mentions
      rcases act_origin hp' with ⟨p, hp, old⟩ | ⟨-, new, -⟩
      · exact h.finished b hb generation ends id name p hp (by omega)
      · omega
    · obtain ⟨id', name', mem⟩ := mem_said hb ends.tells
      obtain ⟨gone, p, hp, rfl⟩ := (act_pointStep d policy now a id' name').ended mem ends
      have used := h.fresh id' name' p hp
      rcases act_origin hp' with ⟨q, hq, old⟩ | ⟨-, new, -⟩
      · obtain ⟨rfl, rfl⟩ := h.home id' name' p id name q hp hq (by omega)
        rw [gone] at hp'
        contradiction
      · omega

end Generational

theorem Run.generational {policy : Policy} {past : List Episode} {d : Directory}
    (h : Run policy past d) : Generational past d := by
  induction h with
  | start => exact .start
  | act now a run ih => exact ih.act

theorem Run.generation_le {policy : Policy} {past : List Episode} {d : Directory}
    (h : Run policy past d) {e : Episode} (he : e ∈ past) {id name : NodeId} {p p' : SyncPoint}
    (earlier : e.after.point? id name = some p) (now : d.point? id name = some p') :
    p.generation ≤ p'.generation := by
  induction h generalizing p' with
  | start => exact nomatch he
  | @act past d time a run ih =>
    rcases List.mem_cons.mp he with rfl | he
    · obtain rfl := Option.some.inj (earlier.symm.trans now)
      exact Nat.le_refl _
    · rcases act_origin now with ⟨q, hq, same⟩ | ⟨-, new, -⟩
      · rw [same]
        exact ih he hq
      · have used := run.generational.mentioned e he p.generation
          (.inr (.inl ⟨id, name, p, earlier, rfl⟩))
        omega

theorem History.generational {policy : Policy} {past : List Episode} {d : Directory}
    (h : History policy past d) : Generational past d :=
  h.run.generational

/-- Nothing is said of a generation after its end. -/
theorem History.ended_once {policy : Policy} {past : List Episode} {d : Directory}
    (h : History policy past d) :
    (told past).Pairwise fun b b' => ∀ generation, b.Ends generation → ¬b'.Tells generation := by
  induction h with
  | start => exact .nil
  | @act past d now a run ordered ih =>
    have generational := run.generational
    refine List.pairwise_append.mpr ⟨ih, ?_, ?_⟩
    · rw [List.pairwise_iff_forall_sublist]
      intro b b' both generation ends tells
      have hb := both.subset List.mem_cons_self
      have hb' := both.subset (List.mem_cons_of_mem b List.mem_cons_self)
      obtain ⟨id, name, mem, mem'⟩ := generational.source_unique hb hb' ends.tells tells
      have inside := both.filter fun b => b.concerns id name
      have pair : [b, b'].filter (fun b => b.concerns id name) = [b, b'] := by
        simp [(List.mem_filter.mp mem).2, (List.mem_filter.mp mem').2]
      rw [pair] at inside
      have two : 2 ≤ (said (d.act policy now a).2 id name).length := inside.length_le
      have one := (act_pointStep d policy now a id name).length_le_one
      omega
    · intro b hb b' hb' generation ends tells
      obtain ⟨e, he, mentions⟩ := mentions_of_mem_told hb ends.tells
      have used := generational.mentioned e he generation mentions
      obtain ⟨id, name, -, ⟨p, hp, same⟩ | ⟨next, -⟩⟩ := act_source hb' tells
      · exact generational.finished b hb generation ends id name p hp same
      · omega

theorem sync_created {d : Directory} {policy : Policy} {now : Nat} {c : ConnId} {ref : GroupRef}
    {terms : SyncTerms} (h : (d.sync now c ref terms).answer.code = .created) :
    ∃ p, (d.act policy now (.sync c ref terms)).1.point? ref.id terms.point = some p ∧
      p.generation = d.nextGeneration := by
  have outcome := sync_outcome d now c ref terms
  show ∃ p, (d.sync now c ref terms).directory.point? ref.id terms.point = some p ∧ _
  generalize d.sync now c ref terms = change at outcome h ⊢
  cases outcome with
  | rejected => contradiction
  | refresh group token present point reply =>
    rcases reply with ⟨-, rfl⟩ | ⟨-, -, rfl⟩
    · contradiction
    · contradiction
  | arrive => contradiction
  | @create g member group token present fresh =>
    exact ⟨_, arriveAt_point .., SyncPoint.meet_generation _ _ _ _ _⟩

/-- The event that ends a generation leaves the sync points of other generations alone, also
those that have the same name. -/
theorem Generational.other_kept {past : List Episode} {d : Directory} {policy : Policy}
    {now : Nat} {a : Action} (h : Generational past d) {group point : NodeId} {generation : Nat}
    {resolution : Resolution}
    (action : a.Handles d now (.resolve group point generation resolution))
    {id name : NodeId} {p : SyncPoint} (hp : d.point? id name = some p)
    (other : p.generation ≠ generation) :
    (d.act policy now a).1.point? id name = some p ∧
      ∀ b ∈ (d.act policy now a).2, ¬b.Tells p.generation := by
  have kept := (act_pointStep d policy now a id name).of_handles_resolve action hp other
  refine ⟨kept.1, ?_⟩
  intro b hb tells
  obtain ⟨id', name', mem, ⟨q, hq, same⟩ | ⟨next, -⟩⟩ := act_source hb tells
  · obtain ⟨rfl, rfl⟩ := h.home id' name' q id name p hq hp same
    rw [kept.2] at mem
    contradiction
  · have := h.fresh id name p hp
    omega

/-- In every history, whatever ends are called for directly: a new sync point has a generation
that no episode before has mentioned, the end of a generation is told at most once with no
news of it afterwards, and the end of one generation leaves all others alone. -/
theorem History.generations_end_once {policy : Policy} {past : List Episode} {d : Directory}
    (h : History policy past d) :
    (∀ post e pre, past = post ++ e :: pre →
      ∀ reply, e.reply? = some reply → reply.code = .created →
        ∃ id name generation terms, e.Creates id name generation terms ∧
          ∀ f ∈ pre, ¬f.Mentions generation) ∧
    ((told past).Pairwise fun b b' =>
      ∀ generation, b.Ends generation → ¬b'.Tells generation) ∧
    (∀ e ∈ past, ∀ group point generation resolution,
      e.action.Handles e.before e.now (.resolve group point generation resolution) →
        ∀ id name p, e.before.point? id name = some p → p.generation ≠ generation →
          e.after.point? id name = some p ∧ ∀ b ∈ e.broadcasts, ¬b.Tells p.generation) := by
  refine ⟨?_, h.ended_once, ?_⟩
  · rintro post e pre rfl reply hreply created
    obtain ⟨run, -, eq⟩ := h.at
    unfold Episode.reply? at hreply
    split at hreply
    · rename_i c ref terms sync
      obtain rfl := Option.some.inj hreply
      have after : e.after = (e.before.act policy e.now e.action).1 := congrArg Episode.after eq
      rw [sync] at after
      obtain ⟨p, hp, generation⟩ := sync_created created
      rw [← after] at hp
      refine ⟨ref.id, terms.point, p.generation, terms,
        ⟨c, ref.token, sync, rfl, created, p, hp, rfl⟩, ?_⟩
      intro f hf mentions
      have := run.generational.mentioned f hf p.generation mentions
      omega
    · contradiction
  · intro e he group point generation resolution action id name p hp other
    obtain ⟨post, pre, rfl⟩ := List.append_of_mem he
    obtain ⟨run, -, eq⟩ := h.at
    have after : e.after = (e.before.act policy e.now e.action).1 := congrArg Episode.after eq
    have broadcasts : e.broadcasts = (e.before.act policy e.now e.action).2 :=
      congrArg Episode.broadcasts eq
    rw [after, broadcasts]
    exact run.generational.other_kept action hp other

/-! A small group with one sync point, for concrete histories. -/

def sampleRef : GroupRef := ⟨⟨"crew", by decide, by decide⟩, .ofByte 7⟩

def sampleTerms : SyncTerms := ⟨500, ⟨"start", by decide, by decide⟩⟩

def sampleMember : NodeId := ⟨"ann", by decide, by decide⟩

theorem generations_end_once_of_lone_arrival :
    let past := (play ⟨3, 0⟩ [(0, .fire), (0, .sync 1 sampleRef sampleTerms),
      (0, .join 1 sampleMember sampleRef)]).1
    (∃ b ∈ told past, b.Ends 0) ∧ (told past).Pairwise fun b b' =>
      ∀ generation, b.Ends generation → ¬b'.Tells generation := by
  intro past
  have run : History ⟨3, 0⟩ past _ := History.play ⟨3, 0⟩ (by decide)
  refine ⟨⟨past[0].broadcasts[0], ?_, ?_⟩, (History.generations_end_once run).2.1⟩
  · exact List.mem_append_right _ (List.getElem_mem _)
  · exact ⟨.success, rfl, _, _, _, rfl⟩

end Directory
end Muster
