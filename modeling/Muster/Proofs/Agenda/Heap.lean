import Muster.Agenda.Heap
import Muster.Proofs.Agenda.Plan

/-! An agenda that is kept in a heap answers as the plain set of its events does. What the heap
holds of cancelled events is not seen in any answer. -/
namespace Muster

theorem Entry.id_eq_of_not_before {ε : Type} {e f : Entry ε} (h : ¬e.Before f) (k : ¬f.Before e) :
    e.id = f.id :=
  Classical.byContradiction fun other => k (before_of_not_before h other)

namespace HeapAgenda
variable {ε : Type} {H : Heap (Entry ε) Entry.Before} {q : HeapAgenda H} {a : Agenda ε}

def act (q : HeapAgenda H) : AgendaAction ε → AgendaAnswer ε × HeapAgenda H
  | .schedule now delay payload recurring =>
    let (id, q) := q.schedule now delay payload recurring
    (.scheduled id, q)
  | .cancel id =>
    let (live, q) := q.cancel id
    (.cancelled live, q)
  | .pop now =>
    let (payload, q) := q.pop? now
    (.popped payload, q)
  | .next =>
    let (trigger, q) := q.next?
    (.next trigger, q)
  | .size => (.size q.size, q)
  | .clear => (.cleared, q.clear)

def present (live : Std.ExtTreeSet Nat) (es : List (Entry ε)) : List (Entry ε) :=
  es.filter fun e => live.contains e.id

theorem mem_present {live : Std.ExtTreeSet Nat} {es : List (Entry ε)} {e : Entry ε} :
    e ∈ present live es ↔ e ∈ es ∧ live.contains e.id = true := List.mem_filter

theorem present_cons_of_live {live : Std.ExtTreeSet Nat} {es : List (Entry ε)} {e : Entry ε}
    (here : live.contains e.id = true) : present live (e :: es) = e :: present live es := by
  unfold present
  rw [List.filter_cons, if_pos here]

theorem present_cons_of_dead {live : Std.ExtTreeSet Nat} {es : List (Entry ε)} {e : Entry ε}
    (gone : ¬live.contains e.id = true) : present live (e :: es) = present live es := by
  unfold present
  rw [List.filter_cons, if_neg gone]

theorem present_perm (live : Std.ExtTreeSet Nat) {es fs : List (Entry ε)} (h : es.Perm fs) :
    (present live es).Perm (present live fs) := h.filter _

theorem contains_insert {live : Std.ExtTreeSet Nat} {id other : Nat} :
    (live.insert id).contains other = true ↔ other = id ∨ live.contains other = true := by
  rw [Std.ExtTreeSet.contains_insert, Bool.or_eq_true, beq_iff_eq, Std.compare_eq_iff_eq,
    eq_comm]

theorem contains_erase {live : Std.ExtTreeSet Nat} {id other : Nat} :
    (live.erase id).contains other = true ↔ other ≠ id ∧ live.contains other = true := by
  rw [Std.ExtTreeSet.contains_erase, Bool.and_eq_true, bne_iff_ne, ne_eq, Std.compare_eq_iff_eq,
    eq_comm]

theorem present_insert {live : Std.ExtTreeSet Nat} {es : List (Entry ε)} {id : Nat}
    (fresh : ∀ e ∈ es, e.id ≠ id) : present (live.insert id) es = present live es := by
  refine List.filter_congr fun e mem => ?_
  rw [Bool.eq_iff_iff, contains_insert]
  exact or_iff_right (fresh e mem)

theorem present_erase (live : Std.ExtTreeSet Nat) (es : List (Entry ε)) (id : Nat) :
    present (live.erase id) es = (present live es).filter fun e => e.id != id := by
  unfold present
  rw [List.filter_filter]
  refine List.filter_congr fun e _ => ?_
  rw [Bool.eq_iff_iff, contains_erase, Bool.and_eq_true, bne_iff_ne]

/-- A heap keeps an agenda: what it holds and was not cancelled is what is on the agenda. -/
structure Keeps (q : HeapAgenda H) (a : Agenda ε) : Prop where
  nextId : q.nextId = a.nextId
  live (id : Nat) : q.live.contains id = a.isLive id
  present : (present q.live (H.elements q.heap)).Perm a.entries
  /-- What was cancelled has a number that no new event gets. -/
  old : ∀ e ∈ H.elements q.heap, e.id < q.nextId

theorem keeps_empty : Keeps (empty : HeapAgenda H) .empty where
  nextId := rfl
  live _ := rfl
  present := by
    show (HeapAgenda.present ∅ (H.elements H.empty)).Perm []
    rw [H.elements_empty]
    exact .refl _
  old := by
    show ∀ e ∈ H.elements H.empty, _
    rw [H.elements_empty]
    exact fun e mem => absurd mem List.not_mem_nil

theorem id_eq_of_popped {s rest : H.Store} {e f : Entry ε} (top : H.peek? s = some e)
    (taken : H.pop? s = some (f, rest)) : f.id = e.id := by
  obtain ⟨mem, least⟩ := H.peek?_some top
  obtain ⟨split, least'⟩ := H.pop?_some taken
  rcases List.mem_cons.mp (split.mem_iff.mp mem) with rfl | later
  · rfl
  · have mem' : f ∈ H.elements s := split.mem_iff.mpr List.mem_cons_self
    exact Entry.id_eq_of_not_before (least f mem') (least' e later)

/-- To skip what was cancelled takes nothing from the agenda, and then the top is still to come. -/
theorem skip_spec (live : Std.ExtTreeSet Nat) (s : H.Store) :
    (present live (H.elements (skip live s))).Perm (present live (H.elements s)) ∧
      (H.elements (skip live s)).Subset (H.elements s) ∧
      ∀ e, H.peek? (skip live s) = some e → live.contains e.id = true := by
  induction s using skip.induct live with
  | case1 s top =>
    have same : skip live s = s := by
      rw [skip, top]
    rw [same, top]
    exact ⟨.refl _, fun _ => id, nofun⟩
  | case2 s e top here =>
    have same : skip live s = s := by
      rw [skip, top]
      exact if_pos here
    rw [same, top]
    refine ⟨.refl _, fun _ => id, ?_⟩
    intro f eq
    obtain rfl := Option.some.inj eq
    exact here
  | case3 s e top gone taken =>
    have mem := (H.peek?_some top).1
    rw [H.pop?_none taken] at mem
    exact absurd mem List.not_mem_nil
  | case4 s e top gone f rest taken less ih =>
    have same : skip live s = skip live rest := by
      rw [skip, top]
      simp only [if_neg gone]
      split
      · rename_i none
        exact nomatch taken.symm.trans none
      · rename_i popped
        obtain ⟨-, rfl⟩ := Prod.mk.inj (Option.some.inj (taken.symm.trans popped))
        rfl
    have out : ¬live.contains f.id = true := by
      rw [id_eq_of_popped top taken]
      exact gone
    have split := (H.pop?_some taken).1
    have left : (present live (H.elements rest)).Perm (present live (H.elements s)) := by
      have others := present_perm live split
      rw [present_cons_of_dead out] at others
      exact others.symm
    rw [same]
    refine ⟨ih.1.trans left, fun g mem => ?_, ih.2.2⟩
    exact split.mem_iff.mpr (List.mem_cons_of_mem f (ih.2.1 mem))

namespace Keeps

theorem size_eq (h : Keeps q a) : q.size = a.size := by
  have nodup : q.live.toList.Nodup :=
    Std.ExtTreeSet.distinct_toList.imp fun other same => other (Std.compare_eq_iff_eq.mpr same)
  have same : q.live.toList.Perm (a.entries.map Entry.id) := by
    refine (List.perm_ext_iff_of_nodup nodup a.ids_nodup).mpr fun id => ?_
    rw [Std.ExtTreeSet.mem_toList, ← Std.ExtTreeSet.contains_iff_mem, h.live, Agenda.isLive_iff,
      List.mem_map]
  have count := same.length_eq
  rw [Std.ExtTreeSet.length_toList, List.length_map] at count
  exact count

theorem schedule (h : Keeps q a) (now delay : Nat) (payload : ε) (recurring : Bool) :
    Keeps (q.schedule now delay payload recurring).2
      (a.schedule now delay payload recurring).2 where
  nextId := congrArg (· + 1) h.nextId
  live id := by
    show (q.live.insert q.nextId).contains id = _
    rw [Bool.eq_iff_iff, contains_insert, h.live, Agenda.isLive_iff, Agenda.isLive_iff, h.nextId]
    simp only [Agenda.mem_schedule, or_and_right, exists_or, exists_eq_left]
    exact or_congr_left eq_comm
  present := by
    let e : Entry ε := ⟨now + delay, delay, recurring, q.nextId, payload⟩
    show (HeapAgenda.present (q.live.insert q.nextId) (H.elements (H.push e q.heap))).Perm
      (Entry.place ⟨now + delay, delay, recurring, a.nextId, payload⟩ a.entries)
    have here : (q.live.insert q.nextId).contains e.id = true := contains_insert.mpr (.inl rfl)
    have pushed := present_perm (q.live.insert q.nextId) (H.elements_push e q.heap)
    rw [present_cons_of_live here,
      present_insert fun f mem => Nat.ne_of_lt (h.old f mem)] at pushed
    rw [← h.nextId]
    exact pushed.trans ((h.present.cons e).trans (e.place_perm a.entries).symm)
  old := by
    intro f mem
    rcases List.mem_cons.mp ((H.elements_push _ _).mem_iff.mp mem) with rfl | mem
    · exact Nat.lt_succ_self q.nextId
    · exact Nat.lt_succ_of_lt (h.old f mem)

theorem cancel (h : Keeps q a) (id : Nat) : Keeps (q.cancel id).2 (a.cancel id) where
  nextId := h.nextId
  live other := by
    show (q.live.erase id).contains other = _
    rw [Bool.eq_iff_iff, contains_erase, h.live, Agenda.isLive_iff, Agenda.isLive_iff]
    constructor
    · rintro ⟨ne, e, mem, rfl⟩
      exact ⟨e, Agenda.mem_cancel.mpr ⟨mem, ne⟩, rfl⟩
    · rintro ⟨e, mem, rfl⟩
      obtain ⟨mem, ne⟩ := Agenda.mem_cancel.mp mem
      exact ⟨ne, e, mem, rfl⟩
  present := by
    show (HeapAgenda.present (q.live.erase id) (H.elements q.heap)).Perm _
    rw [present_erase]
    exact h.present.filter _
  old := h.old

theorem clear (h : Keeps q a) : Keeps q.clear a.clear where
  nextId := h.nextId
  live _ := rfl
  present := keeps_empty.present
  old := by
    show ∀ e ∈ H.elements H.empty, _
    rw [H.elements_empty]
    exact fun e mem => absurd mem List.not_mem_nil

theorem discard (h : Keeps q a) : Keeps q.discard a where
  nextId := h.nextId
  live := h.live
  present := (skip_spec q.live q.heap).1.trans h.present
  old e mem := h.old e ((skip_spec q.live q.heap).2.1 mem)

theorem entries_nil (h : Keeps q a) (none : H.peek? q.heap = none) : a.entries = [] := by
  have all := h.present
  rw [H.peek?_none none] at all
  exact all.nil_eq.symm

/-- The top of the heap is the first event of the agenda, once nothing cancelled is above it. -/
theorem entries_cons (h : Keeps q a) {e : Entry ε} (top : H.peek? q.heap = some e)
    (here : q.live.contains e.id = true) : ∃ rest, a.entries = e :: rest := by
  obtain ⟨mem, least⟩ := H.peek?_some top
  refine Agenda.eq_cons_of_least (h.present.mem_iff.mp (mem_present.mpr ⟨mem, here⟩)) ?_
  intro f later
  exact least f (mem_present.mp (h.present.mem_iff.mpr later)).1

theorem next (h : Keeps q a) : q.next?.1 = a.next? ∧ Keeps q.next?.2 a := by
  refine ⟨?_, h.discard⟩
  show (H.peek? q.discard.heap).map Entry.trigger = a.entries.head?.map Entry.trigger
  cases top : H.peek? q.discard.heap with
  | none => rw [h.discard.entries_nil top]; rfl
  | some e =>
    obtain ⟨rest, entries⟩ := h.discard.entries_cons top ((skip_spec q.live q.heap).2.2 e top)
    rw [entries]
    rfl

/-- What the heap gives away is then the first event, and it keeps the others. -/
theorem popped (h : Keeps q a) {e f : Entry ε} {rest : List (Entry ε)} {heap : H.Store}
    (top : H.peek? q.heap = some e) (taken : H.pop? q.heap = some (f, heap))
    (entries : a.entries = e :: rest) :
    f = e ∧ (HeapAgenda.present q.live (H.elements heap)).Perm rest := by
  have mem : e ∈ a.entries := entries ▸ List.mem_cons_self
  have here : q.live.contains e.id = true := (mem_present.mp (h.present.mem_iff.mpr mem)).2
  have same := id_eq_of_popped top taken
  obtain ⟨split, -⟩ := H.pop?_some taken
  have present := (present_perm q.live split).symm.trans h.present
  rw [present_cons_of_live (same ▸ here)] at present
  obtain rfl : f = e :=
    Agenda.eq_of_id_eq (present.mem_iff.mp List.mem_cons_self) mem same
  rw [entries] at present
  exact ⟨rfl, present.cons_inv⟩

/-- A recurring event comes back under its number. -/
theorem push_next (h : Keeps q a) {b : Agenda ε} {e : Entry ε} {rest : List (Entry ε)}
    {heap : H.Store} {now : Nat} (taken : H.pop? q.heap = some (e, heap))
    (others : (HeapAgenda.present q.live (H.elements heap)).Perm rest)
    (entries : a.entries = e :: rest) (same : b.nextId = a.nextId)
    (left : b.entries = (e.next now).place rest) :
    Keeps { q with heap := H.push (e.next now) heap } b where
  nextId := h.nextId.trans same.symm
  live id := by
    rw [h.live, Bool.eq_iff_iff, Agenda.isLive_iff, Agenda.isLive_iff, entries, left]
    simp only [Entry.mem_place, List.mem_cons, or_and_right, exists_or, exists_eq_left]
    rfl
  present := by
    show (HeapAgenda.present q.live (H.elements (H.push (e.next now) heap))).Perm b.entries
    have here : q.live.contains (e.next now).id = true := by
      rw [show (e.next now).id = e.id from rfl, h.live, Agenda.isLive_iff]
      exact ⟨e, entries ▸ List.mem_cons_self, rfl⟩
    have pushed := present_perm q.live (H.elements_push (e.next now) heap)
    rw [present_cons_of_live here] at pushed
    rw [left]
    exact pushed.trans ((others.cons _).trans ((e.next now).place_perm rest).symm)
  old := by
    have split := (H.pop?_some taken).1
    intro f here
    rcases List.mem_cons.mp ((H.elements_push _ _).mem_iff.mp here) with rfl | here
    · exact h.old e (split.mem_iff.mpr List.mem_cons_self)
    · exact h.old f (split.mem_iff.mpr (List.mem_cons_of_mem e here))

theorem finish (h : Keeps q a) {b : Agenda ε} {e : Entry ε} {rest : List (Entry ε)}
    {heap : H.Store} (taken : H.pop? q.heap = some (e, heap))
    (others : (HeapAgenda.present q.live (H.elements heap)).Perm rest)
    (entries : a.entries = e :: rest) (same : b.nextId = a.nextId) (left : b.entries = rest) :
    Keeps { q with heap, live := q.live.erase e.id } b := by
  have nodup := a.ids_nodup
  rw [entries, List.map_cons, List.nodup_cons] at nodup
  have other : ∀ f ∈ rest, f.id ≠ e.id := by
    intro f mem eq
    exact nodup.1 (eq ▸ List.mem_map_of_mem mem)
  refine ⟨h.nextId.trans same.symm, fun id => ?_, ?_, fun f mem => ?_⟩
  · show (q.live.erase e.id).contains id = _
    rw [Bool.eq_iff_iff, contains_erase, h.live, Agenda.isLive_iff, Agenda.isLive_iff, entries,
      left]
    constructor
    · rintro ⟨ne, f, mem, rfl⟩
      rcases List.mem_cons.mp mem with rfl | mem
      · exact absurd rfl ne
      · exact ⟨f, mem, rfl⟩
    · rintro ⟨f, mem, rfl⟩
      exact ⟨other f mem, f, List.mem_cons_of_mem e mem, rfl⟩
  · show (HeapAgenda.present (q.live.erase e.id) (H.elements heap)).Perm b.entries
    have all : rest.filter (fun f => f.id != e.id) = rest :=
      List.filter_eq_self.mpr fun f mem => bne_iff_ne.mpr (other f mem)
    rw [present_erase, left, ← all]
    exact others.filter _
  · exact h.old f ((H.pop?_some taken).1.mem_iff.mpr (List.mem_cons_of_mem e mem))

theorem pop (h : Keeps q a) (now : Nat) :
    (q.act (.pop now)).1 = (a.act (.pop now)).1 ∧
      Keeps (q.act (.pop now)).2 (a.act (.pop now)).2 := by
  have kept := h.discard
  cases top : H.peek? q.discard.heap with
  | none =>
    have entries := kept.entries_nil top
    have heap : q.pop? now = (none, q.discard) := by
      simp only [pop?, top]
    have early : a.pop? now = none :=
      Agenda.pop?_of_early fun e mem => absurd (entries ▸ mem) List.not_mem_nil
    simp only [act, heap, Agenda.act_pop_none early]
    exact ⟨trivial, kept⟩
  | some e =>
    obtain ⟨rest, entries⟩ := kept.entries_cons top ((skip_spec q.live q.heap).2.2 e top)
    by_cases early : now < e.trigger
    · have heap : q.pop? now = (none, q.discard) := by
        simp only [pop?, top, if_pos early]
      simp only [act, heap, Agenda.act_pop_none (Agenda.pop?_of_cons_early entries early)]
      exact ⟨trivial, kept⟩
    · cases taken : H.pop? q.discard.heap with
      | none =>
        have mem := (H.peek?_some top).1
        rw [H.pop?_none taken] at mem
        exact absurd mem List.not_mem_nil
      | some popped =>
        obtain ⟨f, heap⟩ := popped
        obtain ⟨rfl, others⟩ := kept.popped top taken entries
        obtain ⟨b, eq, same, left⟩ := Agenda.pop?_of_due entries (Nat.le_of_not_lt early)
        rw [Agenda.act_pop_some eq]
        by_cases recurring : f.recurring = true
        · have given : q.pop? now = (some f.payload,
              { q.discard with heap := H.push (f.next now) heap }) := by
            simp only [pop?, top, if_neg early, taken, if_pos recurring]
          simp only [act, given]
          exact ⟨trivial, kept.push_next taken others entries same (left.trans (if_pos recurring))⟩
        · have given : q.pop? now = (some f.payload,
              { q.discard with heap, live := q.discard.live.erase f.id }) := by
            simp only [pop?, top, if_neg early, taken, if_neg recurring]
          simp only [act, given]
          exact ⟨trivial, kept.finish taken others entries same (left.trans (if_neg recurring))⟩

end Keeps

/-- Whatever is asked of a heap, it answers as the agenda that it keeps and then keeps what that
agenda has become. -/
theorem Keeps.act (h : Keeps q a) (action : AgendaAction ε) :
    (q.act action).1 = (a.act action).1 ∧ Keeps (q.act action).2 (a.act action).2 := by
  cases action with
  | schedule now delay payload recurring =>
    exact ⟨congrArg AgendaAnswer.scheduled h.nextId, h.schedule now delay payload recurring⟩
  | cancel id => exact ⟨congrArg AgendaAnswer.cancelled (h.live id), h.cancel id⟩
  | pop now => exact h.pop now
  | next => exact ⟨congrArg AgendaAnswer.next h.next.1, h.next.2⟩
  | size => exact ⟨congrArg AgendaAnswer.size h.size_eq, h⟩
  | clear => exact ⟨rfl, h.clear⟩

theorem answers_eq (H : Heap (Entry ε) Entry.Before) (actions : List (AgendaAction ε)) :
    answersFrom HeapAgenda.act (empty : HeapAgenda H) actions =
      answersFrom Agenda.act Agenda.empty actions :=
  answersFrom_eq (fun _ _ action kept => kept.act action) actions keeps_empty

-- A recurring event that is cancelled while it is late does not fire again, and `clear` leaves
-- nothing to cancel.
example : answersFrom HeapAgenda.act (empty : HeapAgenda Heap.ordered)
    [.schedule 0 10 "often" true, .schedule 0 10 "once" false, .pop 25, .pop 25, .cancel 1, .next,
      .cancel 0, .pop 90, .schedule 90 5 "late" false, .clear, .cancel 2, .size] =
    [.scheduled 0, .scheduled 1, .popped (some "once"), .popped (some "often"), .cancelled false,
      .next (some 35), .cancelled true, .popped none, .scheduled 2, .cleared, .cancelled false,
      .size 0] := by
  rw [answers_eq]
  decide

/-- The answers that a heap gives are those of the plain set of events, whatever heap it is, and an
event never gets the number of another one. -/
theorem answers_of_set (H : Heap (Entry ε) Entry.Before) [DecidableEq ε]
    (actions : List (AgendaAction ε)) :
    (∀ answers, Plan.empty.Gives actions answers ↔
        answers = answersFrom HeapAgenda.act (empty : HeapAgenda H) actions) ∧
      answersFrom HeapAgenda.act (empty : HeapAgenda H) actions =
        answersFrom Agenda.act Agenda.empty actions ∧
      ((answersFrom HeapAgenda.act (empty : HeapAgenda H) actions).filterMap
        AgendaAnswer.scheduled?).Pairwise (· < ·) := by
  have gives : ∀ answers, Plan.empty.Gives actions answers ↔
      answers = answersFrom HeapAgenda.act (empty : HeapAgenda H) actions := by
    intro answers
    rw [answers_eq]
    exact Agenda.plan_gives_iff (a := .empty)
  exact ⟨gives, answers_eq H actions, ((gives _).mpr rfl).numbers.1⟩

end HeapAgenda
end Muster
