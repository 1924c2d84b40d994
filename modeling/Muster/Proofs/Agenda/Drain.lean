import Muster.Proofs.Agenda.Heap

/-! Taking events from an agenda until none is due. This comes to an end: each event that is due is
taken once, in the order of the events and however late it is, and one that recurs is due again only
after its delay. What was not due stays as it is. -/
namespace Muster

def stateAfter {σ ε : Type} (act : σ → AgendaAction ε → AgendaAnswer ε × σ) (s : σ)
    (actions : List (AgendaAction ε)) : σ := actions.foldl (fun s a => (act s a).2) s

namespace Agenda
variable {ε : Type} {a b c : Agenda ε} {now : Nat}

/-- Whether every event that recurs has a delay. -/
def Paced (a : Agenda ε) : Prop := ∀ e ∈ a.entries, e.recurring = true → 0 < e.delay

theorem Paced.pop (paced : a.Paced) {payload : ε} (taken : a.pop? now = some (payload, b)) :
    b.Paced := by
  obtain ⟨first, mem, -, -, left⟩ := pop?_eq_some taken
  intro e here recurring
  rcases (left e).mp here with ⟨before, -⟩ | ⟨again, rfl⟩
  · exact paced e before recurring
  · exact paced first mem again

theorem due_eq_nil_iff : a.due now = [] ↔ a.pop? now = none := by
  constructor
  · intro rest
    refine pop?_of_early fun e mem => ?_
    by_contra early
    have due := mem_due.mpr ⟨mem, Nat.le_of_not_lt early⟩
    rw [rest] at due
    exact absurd due List.not_mem_nil
  · intro rest
    refine List.filter_eq_nil_iff.mpr fun e mem => ?_
    have late := pop?_eq_none rest e mem
    simpa using late

/-- An agenda with every event that was due taken: those that recur are due again after their
delay, and the others are gone. -/
def Drained (a : Agenda ε) (now : Nat) (b : Agenda ε) : Prop :=
  ∀ f, f ∈ b.entries ↔
    f ∈ a.entries ∧ now < f.trigger ∨ ∃ e ∈ a.due now, e.recurring = true ∧ f = e.next now

theorem drained_of_rest (rest : a.pop? now = none) : a.Drained now a := by
  intro f
  rw [due_eq_nil_iff.mpr rest]
  constructor
  · exact fun mem => .inl ⟨mem, pop?_eq_none rest f mem⟩
  · rintro (⟨mem, -⟩ | ⟨e, none, -⟩)
    · exact mem
    · exact absurd none List.not_mem_nil

theorem Drained.of_pop (paced : a.Paced) {payload : ε} (taken : a.pop? now = some (payload, b))
    (later : b.Drained now c) : a.Drained now c := by
  obtain ⟨e, head, -, due⟩ := due_eq_cons taken paced
  obtain ⟨x, rest, entries, -, early, left⟩ := pop?_eq_some_cons taken
  obtain rfl : x = e := by
    rw [entries] at head
    exact Option.some.inj head
  have mem : x ∈ a.entries := entries ▸ List.mem_cons_self
  -- Of the events that are not due, only the first one is new.
  have fresh (f : Entry ε) : f ∈ b.entries ∧ now < f.trigger ↔
      f ∈ a.entries ∧ now < f.trigger ∨ x.recurring = true ∧ f = x.next now := by
    have others : f ∈ rest ∧ now < f.trigger ↔ f ∈ a.entries ∧ now < f.trigger := by
      rw [entries, List.mem_cons]
      refine and_congr_left fun late => (or_iff_right ?_).symm
      rintro rfl
      omega
    rw [left]
    split
    · rename_i recurring
      have delay := paced x mem recurring
      have late : now < (x.next now).trigger := by
        show now < max now x.trigger + x.delay
        omega
      rw [Entry.mem_place, or_and_right, others, and_iff_right recurring, or_comm]
      refine or_congr_right ⟨And.left, ?_⟩
      rintro rfl
      exact ⟨rfl, late⟩
    · rename_i once
      rw [others, or_iff_left fun again => once again.1]
  intro f
  rw [later f, fresh f, due, List.exists_mem_cons_iff, or_assoc]

/-- What takes events while any is due takes those that are due at the beginning. -/
theorem popMany_due (paced : a.Paced) {fuel : Nat} (enough : (a.due now).length ≤ fuel) :
    (popMany now fuel a).1 = (a.due now).map Entry.payload ∧
      a.Drained now (popMany now fuel a).2 := by
  induction fuel generalizing a with
  | zero =>
    have rest : a.due now = [] := List.length_eq_zero_iff.mp (Nat.le_zero.mp enough)
    rw [rest]
    exact ⟨rfl, drained_of_rest (due_eq_nil_iff.mp rest)⟩
  | succ fuel ih =>
    unfold popMany
    cases taken : a.pop? now with
    | none =>
      rw [due_eq_nil_iff.mpr taken]
      exact ⟨rfl, drained_of_rest taken⟩
    | some popped =>
      obtain ⟨payload, b⟩ := popped
      obtain ⟨e, -, same, due⟩ := due_eq_cons taken paced
      rw [due, List.length_cons] at enough
      obtain ⟨payloads, drained⟩ := ih (paced.pop taken) (Nat.le_of_succ_le_succ enough)
      dsimp only
      rw [payloads, due, List.map_cons, same]
      exact ⟨rfl, drained.of_pop paced taken⟩

theorem drain_due (paced : a.Paced) (now : Nat) :
    (a.drain now).1 = (a.due now).map Entry.payload ∧ a.Drained now (a.drain now).2 :=
  popMany_due paced (List.length_filter_le ..)

end Agenda

namespace HeapAgenda
variable {ε : Type} {H : Heap (Entry ε) Entry.Before} {q : HeapAgenda H} {a : Agenda ε}
  {now : Nat}

def events (q : HeapAgenda H) : List (Entry ε) := present q.live (H.elements q.heap)

theorem Keeps.mem_events (kept : Keeps q a) {e : Entry ε} : e ∈ q.events ↔ e ∈ a.entries :=
  kept.present.mem_iff

/-- To take events at one time until none is given: what they are, and what is left. -/
inductive Drains (now : Nat) : HeapAgenda H → List ε → HeapAgenda H → Prop where
  | rest {q : HeapAgenda H} (none : (q.pop? now).1 = none) : Drains now q [] (q.pop? now).2
  | pop {q q' : HeapAgenda H} {payload : ε} {payloads : List ε}
      (taken : (q.pop? now).1 = some payload) (later : Drains now (q.pop? now).2 payloads q') :
      Drains now q (payload :: payloads) q'

theorem Drains.unique {payloads payloads' : List ε} {q' q'' : HeapAgenda H}
    (h : Drains now q payloads q') (k : Drains now q payloads' q'') :
    payloads' = payloads ∧ q'' = q' := by
  induction h generalizing payloads' q'' with
  | rest none =>
    cases k with
    | rest => exact ⟨rfl, rfl⟩
    | pop taken => exact nomatch none.symm.trans taken
  | pop taken later ih =>
    cases k with
    | rest none => exact nomatch none.symm.trans taken
    | pop taken' later' =>
      obtain ⟨rfl, rfl⟩ := ih later'
      obtain rfl := Option.some.inj (taken.symm.trans taken')
      exact ⟨rfl, rfl⟩

theorem Keeps.drains_of_rest (kept : Keeps q a) (rest : a.pop? now = none) :
    ∃ q', Drains now q [] q' ∧ Keeps q' a := by
  obtain ⟨answer, kept'⟩ := kept.pop now
  rw [Agenda.act_pop_none rest] at answer kept'
  exact ⟨_, .rest (AgendaAnswer.popped.inj answer), kept'⟩

/-- A heap gives what the agenda gives that it keeps, until none is due. -/
theorem Keeps.drains (kept : Keeps q a) (paced : a.Paced) {fuel : Nat}
    (enough : (a.due now).length ≤ fuel) :
    ∃ q', Drains now q (Agenda.popMany now fuel a).1 q' ∧
      Keeps q' (Agenda.popMany now fuel a).2 := by
  induction fuel generalizing q a with
  | zero =>
    have rest : a.due now = [] := List.length_eq_zero_iff.mp (Nat.le_zero.mp enough)
    exact kept.drains_of_rest (Agenda.due_eq_nil_iff.mp rest)
  | succ fuel ih =>
    unfold Agenda.popMany
    cases taken : a.pop? now with
    | none => exact kept.drains_of_rest taken
    | some popped =>
      obtain ⟨payload, b⟩ := popped
      obtain ⟨e, -, -, due⟩ := Agenda.due_eq_cons taken paced
      rw [due, List.length_cons] at enough
      obtain ⟨answer, kept'⟩ := kept.pop now
      rw [Agenda.act_pop_some taken] at answer kept'
      obtain ⟨q', later, kept''⟩ := ih kept' (paced.pop taken) (Nat.le_of_succ_le_succ enough)
      exact ⟨q', .pop (AgendaAnswer.popped.inj answer) later, kept''⟩

/-- Whatever was asked of them, the heap keeps the agenda of which the same was asked. -/
theorem keeps_stateAfter (kept : Keeps q a) (actions : List (AgendaAction ε)) :
    Keeps (stateAfter act q actions) (stateAfter Agenda.act a actions) := by
  induction actions generalizing q a with
  | nil => exact kept
  | cons action later ih => exact ih (kept.act action).2

/-- Whatever was asked of an agenda before, to take events from it until none is due comes to an
end, in one way only. What is taken is each event that was to come and is due, once and in their
order. Afterwards those that recur are to come again after their delay, the others that were taken
are gone, and all that was not due is untouched. -/
theorem drains_due_events (H : Heap (Entry ε) Entry.Before) (actions : List (AgendaAction ε))
    (now : Nat)
    (paced : ∀ e ∈ (stateAfter act (empty : HeapAgenda H) actions).events,
      e.recurring = true → 0 < e.delay) :
    let q := stateAfter act (empty : HeapAgenda H) actions
    ∃ (es : List (Entry ε)) (q' : HeapAgenda H), (∀ payloads left, Drains now q payloads left ↔
        payloads = es.map Entry.payload ∧ left = q') ∧
      es.Pairwise Entry.Before ∧ (∀ e, e ∈ es ↔ e ∈ q.events ∧ e.trigger ≤ now) ∧
      (q.events.map Entry.id).Nodup ∧ (q'.events.map Entry.id).Nodup ∧
      (∀ f, f ∈ q'.events ↔ f ∈ q.events ∧ now < f.trigger ∨
        ∃ e ∈ es, e.recurring = true ∧ f = { e with trigger := now + e.delay }) ∧
      ((stateAfter Agenda.act .empty actions).drain now).1 = es.map Entry.payload := by
  intro q
  let a : Agenda ε := stateAfter Agenda.act .empty actions
  have kept : Keeps q a := keeps_stateAfter keeps_empty actions
  have paced : a.Paced := fun e here => paced e (kept.mem_events.mpr here)
  obtain ⟨payloads, drained⟩ := Agenda.drain_due paced now
  obtain ⟨q', drains, kept'⟩ : ∃ q', Drains now q (a.drain now).1 q' ∧ Keeps q' (a.drain now).2 :=
    kept.drains paced (List.length_filter_le ..)
  rw [payloads] at drains
  refine ⟨a.due now, q', ?_, a.sorted.sublist List.filter_sublist, ?_, ?_, ?_, ?_, payloads⟩
  · intro payloads left
    constructor
    · exact drains.unique
    · rintro ⟨rfl, rfl⟩
      exact drains
  · intro e
    rw [kept.mem_events, Agenda.mem_due]
  · exact (kept.present.map Entry.id).nodup_iff.mpr a.ids_nodup
  · exact (kept'.present.map Entry.id).nodup_iff.mpr (Agenda.ids_nodup _)
  · intro f
    rw [kept.mem_events, kept'.mem_events, drained f]
    refine or_congr_right (exists_congr fun e => and_congr_right fun due => ?_)
    rw [Entry.next_of_due (Agenda.mem_due.mp due).2]

/-- A tick that is overdue, an event that is due, one that was cancelled and one that is still
early. -/
def sampleActions : List (AgendaAction String) :=
  [.schedule 0 10 "tick" true, .schedule 3 10 "once" false, .schedule 0 10 "gone" false,
    .schedule 0 99 "early" false, .cancel 2]

theorem drains_due_events_of_overdue :
    let q := stateAfter act (empty : HeapAgenda Heap.ordered) sampleActions
    (∀ e ∈ q.events, e.recurring = true → 0 < e.delay) ∧
      ∃ q', Drains 57 q ["tick", "once"] q' ∧ ⟨67, 10, true, 0, "tick"⟩ ∈ q'.events ∧
        ⟨99, 99, false, 3, "early"⟩ ∈ q'.events := by
  intro q
  have events : q.events = [⟨10, 10, true, 0, "tick"⟩, ⟨13, 10, false, 1, "once"⟩,
    ⟨99, 99, false, 3, "early"⟩] := by decide +kernel
  have paced : ∀ e ∈ q.events, e.recurring = true → 0 < e.delay := by
    rw [events]
    decide
  obtain ⟨es, q', drains, -, mem, -, -, left, payloads⟩ :=
    drains_due_events Heap.ordered sampleActions 57 paced
  have taken : es.map Entry.payload = ["tick", "once"] := payloads.symm.trans (by decide +kernel)
  have tick : ⟨10, 10, true, 0, "tick"⟩ ∈ q.events := events ▸ List.mem_cons_self
  have early : ⟨99, 99, false, 3, "early"⟩ ∈ q.events := by
    rw [events]
    decide
  have due := (mem _).mpr ⟨tick, by decide⟩
  exact ⟨paced, q', (drains _ q').mpr ⟨taken.symm, rfl⟩, (left _).mpr (.inr ⟨_, due, rfl, rfl⟩),
    (left _).mpr (.inl ⟨early, by decide⟩)⟩

end HeapAgenda
end Muster
