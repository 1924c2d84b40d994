import Mathlib.Data.Finset.Card
import Mathlib.Data.Finset.Dedup
import Muster.Proofs.Agenda

/-! An agenda as a plain set of events. Whatever is asked of an agenda, the answers are those that
the set of its events gives. -/
namespace Muster

inductive AgendaAction (ε : Type) where
  | schedule (now delay : Nat) (payload : ε) (recurring : Bool)
  | cancel (id : Nat)
  | pop (now : Nat)
  | next
  | size
  | clear

inductive AgendaAnswer (ε : Type) where
  | scheduled (id : Nat)
  /-- Whether the event was still to come. -/
  | cancelled (live : Bool)
  | popped (payload : Option ε)
  | next (trigger : Option Nat)
  | size (count : Nat)
  | cleared
deriving DecidableEq

def AgendaAnswer.scheduled? {ε : Type} : AgendaAnswer ε → Option Nat
  | .scheduled id => some id
  | _ => none

def answersFrom {σ ε : Type} (act : σ → AgendaAction ε → AgendaAnswer ε × σ) :
    σ → List (AgendaAction ε) → List (AgendaAnswer ε)
  | _, [] => []
  | s, a :: later => (act s a).1 :: answersFrom act (act s a).2 later

theorem answersFrom_eq {σ τ ε : Type} {act : σ → AgendaAction ε → AgendaAnswer ε × σ}
    {act' : τ → AgendaAction ε → AgendaAnswer ε × τ} {R : σ → τ → Prop}
    (step : ∀ s t a, R s t → (act s a).1 = (act' t a).1 ∧ R (act s a).2 (act' t a).2)
    (actions : List (AgendaAction ε)) {s : σ} {t : τ} (related : R s t) :
    answersFrom act s actions = answersFrom act' t actions := by
  induction actions generalizing s t with
  | nil => rfl
  | cons a later ih =>
    obtain ⟨answer, related'⟩ := step s t a related
    show _ :: _ = _ :: _
    rw [answer, ih related']

namespace Entry
variable {ε : Type}

theorem Before.asymm {e f : Entry ε} (h : e.Before f) : ¬f.Before e := by
  unfold Before at *
  omega

theorem next_of_due {e : Entry ε} {now : Nat} (due : e.trigger ≤ now) :
    e.next now = { e with trigger := now + e.delay } := by
  unfold next
  rw [Nat.max_eq_left due]

end Entry

namespace Agenda
variable {ε : Type} {a : Agenda ε}

def act (a : Agenda ε) : AgendaAction ε → AgendaAnswer ε × Agenda ε
  | .schedule now delay payload recurring =>
    let (id, a) := a.schedule now delay payload recurring
    (.scheduled id, a)
  | .cancel id => (.cancelled (a.isLive id), a.cancel id)
  | .pop now =>
    match a.pop? now with
    | none => (.popped none, a)
    | some (payload, a) => (.popped (some payload), a)
  | .next => (.next a.next?, a)
  | .size => (.size a.size, a)
  | .clear => (.cleared, a.clear)

theorem act_pop_none {now : Nat} (taken : a.pop? now = none) :
    a.act (.pop now) = (.popped none, a) := by
  simp only [act, taken]

theorem act_pop_some {b : Agenda ε} {now : Nat} {payload : ε}
    (taken : a.pop? now = some (payload, b)) :
    a.act (.pop now) = (.popped (some payload), b) := by
  simp only [act, taken]

theorem eq_cons_of_least {e : Entry ε} (mem : e ∈ a.entries)
    (least : ∀ f ∈ a.entries, ¬f.Before e) : ∃ rest, a.entries = e :: rest := by
  cases entries : a.entries with
  | nil =>
    rw [entries] at mem
    exact absurd mem List.not_mem_nil
  | cons first rest =>
    have sorted := a.sorted
    rw [entries] at mem sorted least
    rcases List.mem_cons.mp mem with rfl | mem
    · exact ⟨rest, rfl⟩
    · exact absurd ((List.pairwise_cons.mp sorted).1 e mem) (least first List.mem_cons_self)

theorem pop?_of_due {e : Entry ε} {rest : List (Entry ε)} {now : Nat}
    (entries : a.entries = e :: rest) (due : e.trigger ≤ now) :
    ∃ b, a.pop? now = some (e.payload, b) ∧ b.nextId = a.nextId ∧
      b.entries = if e.recurring = true then (e.next now).place rest else rest := by
  cases taken : a.pop? now with
  | none =>
    have late := pop?_eq_none taken e (entries ▸ List.mem_cons_self)
    omega
  | some popped =>
    obtain ⟨payload, b⟩ := popped
    obtain ⟨f, others, eq, rfl, -, left⟩ := pop?_eq_some_cons taken
    obtain ⟨rfl, rfl⟩ := List.cons.inj (entries.symm.trans eq)
    exact ⟨b, rfl, pop?_nextId taken, left⟩

theorem pop?_of_early {now : Nat} (early : ∀ e ∈ a.entries, now < e.trigger) :
    a.pop? now = none := by
  cases taken : a.pop? now with
  | none => rfl
  | some popped =>
    obtain ⟨e, mem, -, due, -⟩ := pop?_eq_some taken
    exact absurd (early e mem) (Nat.not_lt_of_le due)

theorem pop?_of_cons_early {e : Entry ε} {rest : List (Entry ε)} {now : Nat}
    (entries : a.entries = e :: rest) (early : now < e.trigger) : a.pop? now = none := by
  have sorted := a.sorted
  rw [entries] at sorted
  refine pop?_of_early fun f mem => ?_
  rw [entries] at mem
  rcases List.mem_cons.mp mem with rfl | later
  · exact early
  · exact Nat.lt_of_lt_of_le early ((List.pairwise_cons.mp sorted).1 f later).trigger_le

theorem next?_of_least {e : Entry ε} (mem : e ∈ a.entries)
    (least : ∀ f ∈ a.entries, e.trigger ≤ f.trigger) : a.next? = some e.trigger := by
  unfold next?
  cases entries : a.entries with
  | nil =>
    rw [entries] at mem
    exact absurd mem List.not_mem_nil
  | cons first rest =>
    have sorted := a.sorted
    rw [entries] at mem sorted least
    have le : first.trigger ≤ e.trigger := by
      rcases List.mem_cons.mp mem with rfl | mem
      · exact Nat.le_refl _
      · exact ((List.pairwise_cons.mp sorted).1 e mem).trigger_le
    exact congrArg some (Nat.le_antisymm le (least first List.mem_cons_self))

theorem entries_nodup (a : Agenda ε) : a.entries.Nodup := a.ids_nodup.of_map _

end Agenda

structure Plan (ε : Type) where
  live : Finset (Entry ε)
  nextId : Nat

namespace Plan
variable {ε : Type}

def empty : Plan ε := ⟨∅, 0⟩

variable [DecidableEq ε]

def take (p : Plan ε) (e : Entry ε) (now : Nat) : Plan ε where
  live :=
    if e.recurring = true then insert { e with trigger := now + e.delay } (p.live.erase e)
    else p.live.erase e
  nextId := p.nextId

inductive Step (p : Plan ε) : AgendaAction ε → AgendaAnswer ε → Plan ε → Prop where
  | schedule (now delay : Nat) (payload : ε) (recurring : Bool) :
    Step p (.schedule now delay payload recurring) (.scheduled p.nextId)
      ⟨insert ⟨now + delay, delay, recurring, p.nextId, payload⟩ p.live, p.nextId + 1⟩
  | cancel (id : Nat) :
    Step p (.cancel id) (.cancelled (decide (∃ e ∈ p.live, e.id = id)))
      { p with live := p.live.filter fun e => e.id ≠ id }
  | pop {now : Nat} {e : Entry ε} (mem : e ∈ p.live)
      (least : ∀ f ∈ p.live, f = e ∨ e.Before f) (due : e.trigger ≤ now) :
    Step p (.pop now) (.popped (some e.payload)) (p.take e now)
  | rest {now : Nat} (early : ∀ e ∈ p.live, now < e.trigger) :
    Step p (.pop now) (.popped none) p
  | next {e : Entry ε} (mem : e ∈ p.live) (least : ∀ f ∈ p.live, e.trigger ≤ f.trigger) :
    Step p .next (.next (some e.trigger)) p
  | idle (nothing : p.live = ∅) : Step p .next (.next none) p
  | size : Step p .size (.size p.live.card) p
  | clear : Step p .clear .cleared { p with live := ∅ }

inductive Gives : Plan ε → List (AgendaAction ε) → List (AgendaAnswer ε) → Prop where
  | nil (p : Plan ε) : Gives p [] []
  | cons {p p' : Plan ε} {action : AgendaAction ε} {answer : AgendaAnswer ε}
      {actions : List (AgendaAction ε)} {answers : List (AgendaAnswer ε)}
      (step : p.Step action answer p') (later : Gives p' actions answers) :
      Gives p (action :: actions) (answer :: answers)

/-- Events are numbered in the order in which they are scheduled. -/
theorem Gives.numbers {p : Plan ε} {actions : List (AgendaAction ε)}
    {answers : List (AgendaAnswer ε)} (h : p.Gives actions answers) :
    (answers.filterMap AgendaAnswer.scheduled?).Pairwise (· < ·) ∧
      ∀ id ∈ answers.filterMap AgendaAnswer.scheduled?, p.nextId ≤ id := by
  induction h with
  | nil p => exact ⟨.nil, fun _ mem => absurd mem List.not_mem_nil⟩
  | @cons p p' action answer actions answers step later ih =>
    cases step with
    | schedule now delay payload recurring =>
      refine ⟨List.pairwise_cons.mpr ⟨fun id mem => ih.2 id mem, ih.1⟩, fun id mem => ?_⟩
      rcases List.mem_cons.mp mem with rfl | mem
      · exact Nat.le_refl _
      · exact Nat.le_of_succ_le (ih.2 id mem)
    | cancel _ | pop _ _ _ | rest _ | next _ _ | idle _ | size | clear => exact ih

end Plan

namespace Agenda
variable {ε : Type} [DecidableEq ε] {a : Agenda ε}

/-- The events on an agenda, in no order. -/
def plan (a : Agenda ε) : Plan ε := ⟨a.entries.toFinset, a.nextId⟩

theorem mem_plan {e : Entry ε} : e ∈ a.plan.live ↔ e ∈ a.entries := List.mem_toFinset

theorem schedule_plan (a : Agenda ε) (now delay : Nat) (payload : ε) (recurring : Bool) :
    (a.schedule now delay payload recurring).2.plan =
      ⟨insert ⟨now + delay, delay, recurring, a.nextId, payload⟩ a.plan.live, a.nextId + 1⟩ := by
  refine congrArg (Plan.mk · _) (Finset.ext fun e => ?_)
  rw [List.mem_toFinset, mem_schedule, Finset.mem_insert, mem_plan]

theorem cancel_plan (a : Agenda ε) (id : Nat) :
    (a.cancel id).plan = { a.plan with live := a.plan.live.filter fun e => e.id ≠ id } := by
  refine congrArg (Plan.mk · _) (Finset.ext fun e => ?_)
  rw [List.mem_toFinset, mem_cancel, Finset.mem_filter, mem_plan]

theorem cancelled_plan (a : Agenda ε) (id : Nat) :
    a.isLive id = decide (∃ e ∈ a.plan.live, e.id = id) := by
  rw [Bool.eq_iff_iff, isLive_iff, decide_eq_true_iff]
  simp only [mem_plan]

theorem popped_plan {b : Agenda ε} {e : Entry ε} {rest : List (Entry ε)} {now : Nat}
    (entries : a.entries = e :: rest) (due : e.trigger ≤ now) (same : b.nextId = a.nextId)
    (left : b.entries = if e.recurring = true then (e.next now).place rest else rest) :
    b.plan = a.plan.take e now := by
  have others : a.plan.live.erase e = rest.toFinset := by
    have nodup := a.entries_nodup
    rw [entries, List.nodup_cons] at nodup
    unfold plan
    rw [entries, List.toFinset_cons]
    exact Finset.erase_insert (by rw [List.mem_toFinset]; exact nodup.1)
  unfold Plan.take
  rw [others]
  show Plan.mk b.entries.toFinset b.nextId = Plan.mk _ a.nextId
  rw [same, left]
  refine congrArg (Plan.mk · _) ?_
  split
  · rw [Entry.next_of_due due]
    refine Finset.ext fun f => ?_
    rw [List.mem_toFinset, Entry.mem_place, Finset.mem_insert, List.mem_toFinset]
  · rfl

theorem plan_pop {now : Nat} {e : Entry ε} (mem : e ∈ a.plan.live)
    (least : ∀ f ∈ a.plan.live, f = e ∨ e.Before f) (due : e.trigger ≤ now) :
    ∃ b, a.pop? now = some (e.payload, b) ∧ b.plan = a.plan.take e now := by
  have first : ∀ f ∈ a.entries, ¬f.Before e := by
    intro f here before
    rcases least f (mem_plan.mpr here) with rfl | after
    · exact before.asymm before
    · exact after.asymm before
  obtain ⟨rest, entries⟩ := eq_cons_of_least (mem_plan.mp mem) first
  obtain ⟨b, taken, same, left⟩ := pop?_of_due entries due
  exact ⟨b, taken, popped_plan entries due same left⟩

theorem pop_plan {b : Agenda ε} {now : Nat} {payload : ε} (taken : a.pop? now = some (payload, b)) :
    a.plan.Step (.pop now) (.popped (some payload)) b.plan := by
  obtain ⟨e, rest, entries, rfl, due, -⟩ := pop?_eq_some_cons taken
  have sorted := a.sorted
  rw [entries] at sorted
  have mem : e ∈ a.plan.live := mem_plan.mpr (entries ▸ List.mem_cons_self)
  have least : ∀ f ∈ a.plan.live, f = e ∨ e.Before f := by
    intro f here
    rw [mem_plan, entries] at here
    exact (List.mem_cons.mp here).imp_right ((List.pairwise_cons.mp sorted).1 f)
  obtain ⟨b', taken', left⟩ := plan_pop mem least due
  obtain ⟨-, rfl⟩ := Prod.mk.inj (Option.some.inj (taken.symm.trans taken'))
  rw [left]
  exact .pop mem least due

theorem next_plan (a : Agenda ε) : a.plan.Step .next (.next a.next?) a.plan := by
  cases entries : a.entries with
  | nil =>
    have none : a.next? = none := by
      unfold next?
      rw [entries]
      rfl
    rw [none]
    refine .idle ?_
    unfold plan
    rw [entries]
    rfl
  | cons first rest =>
    have sorted := a.sorted
    rw [entries] at sorted
    have least : ∀ f ∈ a.entries, first.trigger ≤ f.trigger := by
      intro f mem
      rw [entries] at mem
      rcases List.mem_cons.mp mem with rfl | mem
      · exact Nat.le_refl _
      · exact ((List.pairwise_cons.mp sorted).1 f mem).trigger_le
    have mem : first ∈ a.entries := entries ▸ List.mem_cons_self
    rw [next?_of_least mem least]
    exact .next (mem_plan.mpr mem) fun f here => least f (mem_plan.mp here)

/-- An agenda does what the set of its events does. -/
theorem plan_step_iff {action : AgendaAction ε} {answer : AgendaAnswer ε} {p : Plan ε} :
    a.plan.Step action answer p ↔ answer = (a.act action).1 ∧ p = (a.act action).2.plan := by
  constructor
  · intro step
    cases step with
    | schedule now delay payload recurring =>
      exact ⟨rfl, (a.schedule_plan now delay payload recurring).symm⟩
    | cancel id => exact ⟨congrArg _ (a.cancelled_plan id).symm, (a.cancel_plan id).symm⟩
    | pop mem least due =>
      obtain ⟨b, taken, left⟩ := plan_pop mem least due
      rw [act_pop_some taken]
      exact ⟨rfl, left.symm⟩
    | rest early =>
      have taken := pop?_of_early fun e mem => early e (mem_plan.mpr mem)
      rw [act_pop_none taken]
      exact ⟨rfl, rfl⟩
    | next mem least =>
      have first := next?_of_least (mem_plan.mp mem) fun f here => least f (mem_plan.mpr here)
      exact ⟨congrArg _ first.symm, rfl⟩
    | idle nothing =>
      have entries : a.entries = [] := List.toFinset_eq_empty_iff _ |>.mp nothing
      refine ⟨congrArg AgendaAnswer.next ?_, rfl⟩
      unfold next?
      rw [entries]
      rfl
    | size => exact ⟨congrArg _ (List.toFinset_card_of_nodup a.entries_nodup), rfl⟩
    | clear => exact ⟨rfl, rfl⟩
  · rintro ⟨rfl, rfl⟩
    cases action with
    | schedule now delay payload recurring =>
      show a.plan.Step _ _ (a.schedule now delay payload recurring).2.plan
      rw [schedule_plan]
      exact .schedule now delay payload recurring
    | cancel id =>
      show a.plan.Step _ (.cancelled (a.isLive id)) (a.cancel id).plan
      rw [cancelled_plan, cancel_plan]
      exact .cancel id
    | pop now =>
      cases taken : a.pop? now with
      | none =>
        rw [act_pop_none taken]
        exact .rest fun e mem => pop?_eq_none taken e (mem_plan.mp mem)
      | some popped =>
        rw [act_pop_some taken]
        exact pop_plan taken
    | next => exact a.next_plan
    | size =>
      show a.plan.Step _ (.size a.entries.length) a.plan
      rw [← List.toFinset_card_of_nodup a.entries_nodup]
      exact .size
    | clear => exact .clear

theorem plan_gives_iff {actions : List (AgendaAction ε)} {answers : List (AgendaAnswer ε)} :
    a.plan.Gives actions answers ↔ answers = answersFrom act a actions := by
  induction actions generalizing a answers with
  | nil =>
    constructor
    · intro gives
      cases gives
      rfl
    · rintro rfl
      exact .nil _
  | cons action later ih =>
    constructor
    · intro gives
      cases gives with
      | cons step rest =>
        obtain ⟨rfl, rfl⟩ := plan_step_iff.mp step
        exact congrArg _ (ih.mp rest)
    · rintro rfl
      exact .cons (plan_step_iff.mpr ⟨rfl, rfl⟩) (ih.mpr rfl)

end Agenda

end Muster
