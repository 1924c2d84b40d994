import Mathlib.Data.List.Nodup
import Muster.Group.Basic
import Muster.Proofs.Table

/-! What is on an agenda after each operation on it. -/
namespace Muster

theorem Entry.filter_place {ε : Type} {e : Entry ε} {p : Entry ε → Bool} (es : List (Entry ε))
    (out : p e = false) : (e.place es).filter p = es.filter p := by
  induction es with
  | nil =>
    simp only [place, List.filter_cons, out, Bool.false_eq_true, if_false]
  | cons f rest ih =>
    unfold place
    split
    · rw [List.filter_cons_of_neg (by rw [out]; exact Bool.false_ne_true)]
    · rw [List.filter_cons, List.filter_cons, ih]

end Muster

namespace Muster.Agenda
variable {ε : Type}

@[simp] theorem schedule_fst (a : Agenda ε) (now delay : Nat) (payload : ε) (recurring : Bool) :
    (a.schedule now delay payload recurring).1 = a.nextId := rfl

@[simp] theorem mem_schedule {a : Agenda ε} {now delay : Nat} {payload : ε} {recurring : Bool}
    {f : Entry ε} :
    f ∈ (a.schedule now delay payload recurring).2.entries ↔
      f = ⟨now + delay, delay, recurring, a.nextId, payload⟩ ∨ f ∈ a.entries :=
  Entry.mem_place

@[simp] theorem mem_cancel {a : Agenda ε} {id : Nat} {f : Entry ε} :
    f ∈ (a.cancel id).entries ↔ f ∈ a.entries ∧ f.id ≠ id := by
  simp [cancel]

@[simp] theorem cancel_nextId (a : Agenda ε) (id : Nat) : (a.cancel id).nextId = a.nextId := rfl

theorem eq_of_id_eq {a : Agenda ε} {e f : Entry ε} (he : e ∈ a.entries) (hf : f ∈ a.entries)
    (h : e.id = f.id) : e = f :=
  List.inj_on_of_nodup_map a.ids_nodup he hf h

theorem isLive_iff {a : Agenda ε} {id : Nat} : a.isLive id = true ↔ ∃ e ∈ a.entries, e.id = id := by
  unfold isLive
  simp only [List.any_eq_true, beq_iff_eq]

theorem pop?_of_nil {a : Agenda ε} {now : Nat} (entries : a.entries = []) :
    a.pop? now = none := by
  unfold pop? popBy
  split
  · rfl
  · simp_all

theorem pop?_of_cons {a : Agenda ε} {e : Entry ε} {rest : List (Entry ε)} {now : Nat}
    (entries : a.entries = e :: rest) :
    a.pop? now =
      if e.trigger ≤ now then
        if e.recurring = true then
          some (e.payload, a.moveFirst entries (max now e.trigger + e.delay))
        else some (e.payload, a.behead entries)
      else none := by
  unfold pop? popBy
  split
  · simp_all
  · rename_i f others same
    obtain ⟨rfl, rfl⟩ := List.cons.inj (entries.symm.trans same)
    split
    · split <;> rfl
    · rfl

theorem pop?_eq_none {a : Agenda ε} {now : Nat} (h : a.pop? now = none) :
    ∀ e ∈ a.entries, now < e.trigger := by
  cases entries : a.entries with
  | nil => exact fun e mem => absurd mem List.not_mem_nil
  | cons first rest =>
    have sorted := a.sorted
    rw [entries, List.pairwise_cons] at sorted
    rw [pop?_of_cons entries] at h
    have early : now < first.trigger := by
      split at h
      · split at h <;> contradiction
      · rename_i early
        omega
    intro e mem
    rcases List.mem_cons.mp mem with rfl | mem
    · exact early
    · exact Nat.lt_of_lt_of_le early (sorted.1 e mem).trigger_le

/-- What is taken is the first event, which is due. It stays on the agenda only if it recurs. -/
theorem pop?_eq_some_cons {a b : Agenda ε} {now : Nat} {payload : ε}
    (h : a.pop? now = some (payload, b)) :
    ∃ e rest, a.entries = e :: rest ∧ e.payload = payload ∧ e.trigger ≤ now ∧
      b.entries = if e.recurring = true then (e.next now).place rest else rest := by
  cases entries : a.entries with
  | nil =>
    rw [pop?_of_nil entries] at h
    contradiction
  | cons e rest =>
    refine ⟨e, rest, rfl, ?_⟩
    rw [pop?_of_cons entries] at h
    split at h
    · rename_i due
      split at h
      · rename_i recurring
        obtain ⟨rfl, rfl⟩ := Prod.mk.inj (Option.some.inj h)
        exact ⟨rfl, due, (if_pos recurring).symm⟩
      · rename_i once
        obtain ⟨rfl, rfl⟩ := Prod.mk.inj (Option.some.inj h)
        exact ⟨rfl, due, (if_neg once).symm⟩
    · contradiction

theorem pop?_nextId {a b : Agenda ε} {now : Nat} {payload : ε}
    (h : a.pop? now = some (payload, b)) : b.nextId = a.nextId := by
  cases entries : a.entries with
  | nil =>
    rw [pop?_of_nil entries] at h
    contradiction
  | cons e rest =>
    rw [pop?_of_cons entries] at h
    split at h
    · split at h <;> exact (Prod.mk.inj (Option.some.inj h)).2 ▸ rfl
    · contradiction

theorem mem_of_pop? {a b : Agenda ε} {now : Nat} {payload : ε} {e first : Entry ε}
    (h : a.pop? now = some (payload, b)) (head : a.entries.head? = some first)
    (mem : e ∈ a.entries) (other : e ≠ first) : e ∈ b.entries := by
  obtain ⟨x, rest, entries, -, -, left⟩ := pop?_eq_some_cons h
  rw [entries, List.head?_cons, Option.some.injEq] at head
  subst head
  rw [entries, List.mem_cons] at mem
  have mem := mem.resolve_left other
  rw [left]
  split
  · exact Entry.mem_place.mpr (.inr mem)
  · exact mem

theorem pop?_eq_some {a b : Agenda ε} {now : Nat} {payload : ε}
    (h : a.pop? now = some (payload, b)) :
    ∃ e ∈ a.entries, e.payload = payload ∧ e.trigger ≤ now ∧
      ∀ f, f ∈ b.entries ↔
        f ∈ a.entries ∧ f.id ≠ e.id ∨ e.recurring = true ∧ f = e.next now := by
  obtain ⟨e, rest, entries, same, due, left⟩ := pop?_eq_some_cons h
  have nodup := a.ids_nodup
  rw [entries, List.map_cons, List.nodup_cons] at nodup
  have others : ∀ f, f ∈ rest ↔ f ∈ a.entries ∧ f.id ≠ e.id := by
    intro f
    rw [entries]
    constructor
    · intro hf
      refine ⟨List.mem_cons_of_mem e hf, fun same => nodup.1 ?_⟩
      exact same ▸ List.mem_map_of_mem hf
    · rintro ⟨hf, other⟩
      rcases List.mem_cons.mp hf with rfl | hf
      · exact absurd rfl other
      · exact hf
  refine ⟨e, entries ▸ List.mem_cons_self, same, due, ?_⟩
  intro f
  rw [left]
  split
  · rename_i recurring
    rw [Entry.mem_place, others, or_comm, and_iff_right recurring]
  · rename_i once
    rw [others, or_iff_left]
    exact fun h => once h.1

def due (a : Agenda ε) (now : Nat) : List (Entry ε) :=
  a.entries.filter fun e => e.trigger ≤ now

theorem mem_due {a : Agenda ε} {now : Nat} {e : Entry ε} :
    e ∈ a.due now ↔ e ∈ a.entries ∧ e.trigger ≤ now := by
  unfold due
  rw [List.mem_filter, decide_eq_true_eq]

/-- A recurring event with a delay is not due again at once, so all that is left of the due events
when the first is taken are the others. -/
theorem due_eq_cons {a b : Agenda ε} {now : Nat} {payload : ε}
    (h : a.pop? now = some (payload, b))
    (delays : ∀ e ∈ a.entries, e.recurring = true → 0 < e.delay) :
    ∃ e, a.entries.head? = some e ∧ e.payload = payload ∧ a.due now = e :: b.due now := by
  obtain ⟨e, rest, entries, same, early, left⟩ := pop?_eq_some_cons h
  refine ⟨e, by rw [entries]; rfl, same, ?_⟩
  have here : a.due now = e :: rest.filter fun f => f.trigger ≤ now := by
    unfold due
    rw [entries, List.filter_cons_of_pos (by simpa using early)]
  rw [here]
  unfold due
  rw [left]
  split
  · rename_i recurring
    have positive := delays e (entries ▸ List.mem_cons_self) recurring
    have late : ¬(e.next now).trigger ≤ now := by
      show ¬max now e.trigger + e.delay ≤ now
      omega
    rw [Entry.filter_place rest (decide_eq_false late)]
  · rfl

end Muster.Agenda

namespace Muster.Group

private theorem mem_foldl_cancel {f : Entry Event} (ps : List SyncPoint) (a : Agenda Event) :
    f ∈ (ps.foldl (fun a p => a.cancel p.event) a).entries ↔
      f ∈ a.entries ∧ ∀ p ∈ ps, f.id ≠ p.event := by
  induction ps generalizing a with
  | nil => simp
  | cons p ps ih => simp [ih, and_assoc]

/-- A closed group takes the ends of all its sync points off the agenda, and no other event. -/
theorem mem_cancelPoints {g : Group} {a : Agenda Event} {f : Entry Event} :
    f ∈ (g.cancelPoints a).entries ↔
      f ∈ a.entries ∧ ∀ (name : NodeId) (p : SyncPoint), g.points[name]? = some p →
        f.id ≠ p.event := by
  unfold cancelPoints
  rw [mem_foldl_cancel]
  simp only [Table.mem_values]
  constructor
  · rintro ⟨mem, other⟩
    exact ⟨mem, fun name p h => other p ⟨name, h⟩⟩
  · rintro ⟨mem, other⟩
    exact ⟨mem, fun p ⟨name, h⟩ => other name p h⟩

end Muster.Group
