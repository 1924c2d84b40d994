import Std.Data.ExtTreeSet
import Muster.Agenda

/-! An agenda that is kept in a heap. A cancelled event stays in the heap until it comes to the
top, where it is skipped: which events are still to come is told by their numbers. -/
namespace Muster

/-- A heap. All that is known of it is what it holds, and that what it shows or gives away is an
element that no other one comes before. -/
structure Heap (α : Type) (Before : α → α → Prop) where
  Store : Type
  elements : Store → List α
  empty : Store
  push : α → Store → Store
  peek? : Store → Option α
  pop? : Store → Option (α × Store)
  elements_empty : elements empty = []
  elements_push (x : α) (s : Store) : (elements (push x s)).Perm (x :: elements s)
  peek?_none {s : Store} : peek? s = none → elements s = []
  peek?_some {s : Store} {x : α} :
    peek? s = some x → x ∈ elements s ∧ ∀ y ∈ elements s, ¬Before y x
  pop?_none {s : Store} : pop? s = none → elements s = []
  pop?_some {s rest : Store} {x : α} : pop? s = some (x, rest) →
    (elements s).Perm (x :: elements rest) ∧ ∀ y ∈ elements rest, ¬Before y x

namespace Heap
variable {ε : Type}

theorem not_before_trans {a b c : Entry ε} (h : ¬b.Before a) (k : ¬c.Before b) : ¬c.Before a := by
  unfold Entry.Before at *
  omega

theorem place_ordered {e : Entry ε} {es : List (Entry ε)}
    (h : es.Pairwise fun a b => ¬b.Before a) : (e.place es).Pairwise fun a b => ¬b.Before a := by
  induction es with
  | nil => simp [Entry.place]
  | cons f rest ih =>
    obtain ⟨first, later⟩ := List.pairwise_cons.mp h
    simp only [Entry.place]
    split
    · rename_i before
      have next : ¬f.Before e := by
        unfold Entry.Before at *
        omega
      refine List.pairwise_cons.mpr ⟨?_, h⟩
      intro g mem
      rcases List.mem_cons.mp mem with rfl | mem
      · exact next
      · exact not_before_trans next (first g mem)
    · rename_i after
      refine List.pairwise_cons.mpr ⟨?_, ih later⟩
      intro g mem
      rcases Entry.mem_place.mp mem with rfl | mem
      · exact after
      · exact first g mem

abbrev InOrder (ε : Type) : Type :=
  { es : List (Entry ε) // es.Pairwise fun a b => ¬b.Before a }

/-- A heap of events that is a list in order. -/
def ordered : Heap (Entry ε) Entry.Before where
  Store := InOrder ε
  elements s := s.val
  empty := ⟨[], .nil⟩
  push e s := ⟨e.place s.val, place_ordered s.property⟩
  peek? s := s.val.head?
  pop? s := s.val.head?.map fun e => (e, ⟨s.val.tail, s.property.tail⟩)
  elements_empty := rfl
  elements_push e s := e.place_perm s.val
  peek?_none := List.head?_eq_none_iff.mp
  peek?_some {s e} first := by
    obtain ⟨rest, eq⟩ := List.head?_eq_some_iff.mp first
    have sorted := s.property
    rw [eq] at sorted ⊢
    refine ⟨List.mem_cons_self, fun f mem => ?_⟩
    rcases List.mem_cons.mp mem with rfl | mem
    · unfold Entry.Before
      omega
    · exact (List.pairwise_cons.mp sorted).1 f mem
  pop?_none none := List.head?_eq_none_iff.mp (Option.map_eq_none_iff.mp none)
  pop?_some {s later e} taken := by
    obtain ⟨e, first, eq⟩ := Option.map_eq_some_iff.mp taken
    obtain ⟨rfl, rfl⟩ := Prod.mk.inj eq
    obtain ⟨rest, eq⟩ := List.head?_eq_some_iff.mp first
    have sorted := s.property
    rw [eq] at sorted
    show s.val.Perm (e :: s.val.tail) ∧ ∀ f ∈ s.val.tail, ¬f.Before e
    rw [eq]
    exact ⟨.refl _, (List.pairwise_cons.mp sorted).1⟩

end Heap

structure HeapAgenda {ε : Type} (H : Heap (Entry ε) Entry.Before) where
  heap : H.Store
  /-- The numbers of the events that are still to come. -/
  live : Std.ExtTreeSet Nat
  nextId : Nat

namespace HeapAgenda
variable {ε : Type} {H : Heap (Entry ε) Entry.Before}

def empty : HeapAgenda H := ⟨H.empty, ∅, 0⟩

def schedule (q : HeapAgenda H) (now delay : Nat) (payload : ε) (recurring : Bool) :
    Nat × HeapAgenda H :=
  (q.nextId, {
    heap := H.push ⟨now + delay, delay, recurring, q.nextId, payload⟩ q.heap
    live := q.live.insert q.nextId
    nextId := q.nextId + 1 })

/-- The event's entry stays in the heap. -/
def cancel (q : HeapAgenda H) (id : Nat) : Bool × HeapAgenda H :=
  (q.live.contains id, { q with live := q.live.erase id })

/-- Takes cancelled events from the top of the heap. -/
def skip (live : Std.ExtTreeSet Nat) (s : H.Store) : H.Store :=
  match H.peek? s with
  | none => s
  | some e =>
    if live.contains e.id then s
    else
      match taken : H.pop? s with
      | none => s
      | some (_, rest) =>
        have : (H.elements rest).length < (H.elements s).length := by
          rw [(H.pop?_some taken).1.length_eq]
          exact Nat.lt_succ_self _
        skip live rest
termination_by (H.elements s).length

def discard (q : HeapAgenda H) : HeapAgenda H := { q with heap := skip q.live q.heap }

def next? (q : HeapAgenda H) : Option Nat × HeapAgenda H :=
  let q := q.discard
  ((H.peek? q.heap).map Entry.trigger, q)

/-- A recurring event comes back into the heap under its number. -/
def pop? (q : HeapAgenda H) (now : Nat) : Option ε × HeapAgenda H :=
  let q := q.discard
  match H.peek? q.heap with
  | none => (none, q)
  | some first =>
    if now < first.trigger then (none, q)
    else
      match H.pop? q.heap with
      | none => (none, q)
      | some (e, heap) =>
        if e.recurring then (some e.payload, { q with heap := H.push (e.next now) heap })
        else (some e.payload, { q with heap, live := q.live.erase e.id })

def clear (q : HeapAgenda H) : HeapAgenda H := { q with heap := H.empty, live := ∅ }

def size (q : HeapAgenda H) : Nat := q.live.size

end HeapAgenda
end Muster
