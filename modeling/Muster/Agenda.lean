/-! An agenda of timed events. Events are kept in the order in which they fall due: by
trigger time, then by delay, one-shot before recurring, and last by the number that an event
got when it was scheduled. Numbers are never used twice. Times are nanoseconds.

What adds a delay to a time takes the addition as a parameter, here and wherever an agenda is used:
a clock may come to an end, and then there is no sum. On a clock without an end the operations
have plain names. -/
namespace Muster

structure Entry (ε : Type) where
  trigger : Nat
  delay : Nat
  recurring : Bool
  id : Nat
  payload : ε
deriving DecidableEq

namespace Entry
variable {ε : Type}

def Before (a b : Entry ε) : Prop :=
  a.trigger < b.trigger ∨ a.trigger = b.trigger ∧
    (a.delay < b.delay ∨ a.delay = b.delay ∧
      (a.recurring.toNat < b.recurring.toNat ∨ a.recurring.toNat = b.recurring.toNat ∧
        a.id < b.id))

instance (a b : Entry ε) : Decidable (a.Before b) := by
  unfold Before
  infer_instance

theorem Before.trans {a b c : Entry ε} (h : a.Before b) (k : b.Before c) : a.Before c := by
  unfold Before at *
  omega

theorem before_of_not_before {a b : Entry ε} (h : ¬a.Before b) (ne : a.id ≠ b.id) :
    b.Before a := by
  unfold Before at *
  omega

theorem Before.trigger_le {a b : Entry ε} (h : a.Before b) : a.trigger ≤ b.trigger := by
  unfold Before at h
  omega

/-- The event's next occurrence. An event that is late is moved on from `now`. -/
def next (e : Entry ε) (now : Nat) : Entry ε :=
  { e with trigger := max now e.trigger + e.delay }

/-- Puts an event in front of the first one that falls due after it. -/
def place (e : Entry ε) : List (Entry ε) → List (Entry ε)
  | [] => [e]
  | f :: rest => if e.Before f then e :: f :: rest else f :: e.place rest

@[simp] theorem mem_place {e f : Entry ε} {es : List (Entry ε)} :
    f ∈ e.place es ↔ f = e ∨ f ∈ es := by
  induction es with
  | nil => simp [place]
  | cons g rest ih =>
    simp only [place]
    split
    · simp
    · simp only [List.mem_cons, ih]
      exact or_left_comm

theorem place_perm (e : Entry ε) (es : List (Entry ε)) : (e.place es).Perm (e :: es) := by
  induction es with
  | nil => exact .refl _
  | cons f rest ih =>
    simp only [place]
    split
    · exact .refl _
    · exact (ih.cons f).trans (.swap e f rest)

theorem place_sorted {e : Entry ε} {es : List (Entry ε)} (h : es.Pairwise Before)
    (fresh : ∀ f ∈ es, f.id ≠ e.id) : (e.place es).Pairwise Before := by
  induction es with
  | nil => simp [place]
  | cons f rest ih =>
    obtain ⟨hf, hr⟩ := List.pairwise_cons.mp h
    simp only [place]
    split
    · rename_i hb
      refine List.pairwise_cons.mpr ⟨?_, h⟩
      intro g hg
      rcases List.mem_cons.mp hg with rfl | hg
      · exact hb
      · exact hb.trans (hf g hg)
    · rename_i hb
      have hfe : f.Before e := before_of_not_before hb (Ne.symm (fresh f List.mem_cons_self))
      refine List.pairwise_cons.mpr ⟨?_, ih hr fun g hg => fresh g (List.mem_cons_of_mem f hg)⟩
      intro g hg
      rcases mem_place.mp hg with rfl | hg
      · exact hfe
      · exact hf g hg

end Entry

structure Agenda (ε : Type) where
  entries : List (Entry ε)
  nextId : Nat
  sorted : entries.Pairwise Entry.Before
  ids_nodup : (entries.map Entry.id).Nodup
  ids_lt : ∀ e ∈ entries, e.id < nextId

namespace Instant

/-- The time a while after another, on a clock that never ends. -/
def add (now delay : Nat) : Id Nat := now + delay

end Instant

namespace Agenda
variable {ε : Type} {m : Type → Type} [Monad m]

@[ext] theorem ext {a b : Agenda ε} (entries : a.entries = b.entries)
    (nextId : a.nextId = b.nextId) : a = b := by
  cases a
  cases b
  simp_all

def empty : Agenda ε := ⟨[], 0, .nil, .nil, by simp⟩

instance : Inhabited (Agenda ε) := ⟨empty⟩

def size (a : Agenda ε) : Nat := a.entries.length

def next? (a : Agenda ε) : Option Nat := a.entries.head?.map Entry.trigger

private theorem place_ids {e : Entry ε} {es : List (Entry ε)}
    (nodup : (es.map Entry.id).Nodup) (fresh : ∀ f ∈ es, f.id ≠ e.id) :
    ((e.place es).map Entry.id).Nodup := by
  refine ((e.place_perm es).map Entry.id).nodup_iff.mpr ?_
  simp only [List.map_cons, List.nodup_cons, List.mem_map, not_exists, not_and]
  exact ⟨fresh, nodup⟩

/-- Adds an event that falls due at `trigger`. The event's number comes with the agenda. -/
def enter (a : Agenda ε) (trigger delay : Nat) (payload : ε) (recurring : Bool) :
    Nat × Agenda ε :=
  let e : Entry ε := ⟨trigger, delay, recurring, a.nextId, payload⟩
  have fresh : ∀ f ∈ a.entries, f.id ≠ e.id := fun f hf => Nat.ne_of_lt (a.ids_lt f hf)
  (a.nextId, {
    entries := e.place a.entries
    nextId := a.nextId + 1
    sorted := e.place_sorted a.sorted fresh
    ids_nodup := place_ids a.ids_nodup fresh
    ids_lt := by
      intro f hf
      rcases Entry.mem_place.mp hf with rfl | hf
      · exact Nat.lt_succ_self a.nextId
      · exact Nat.lt_succ_of_lt (a.ids_lt f hf) })

/-- Adds an event that falls due `delay` after `now`. A recurring one then falls due again
and again, until it is cancelled. -/
def scheduleBy (add : Nat → Nat → m Nat) (a : Agenda ε) (now delay : Nat) (payload : ε)
    (recurring : Bool) : m (Nat × Agenda ε) := do
  return a.enter (← add now delay) delay payload recurring

def schedule (a : Agenda ε) (now delay : Nat) (payload : ε) (recurring : Bool) :
    Nat × Agenda ε :=
  (a.scheduleBy Instant.add now delay payload recurring).run

def isLive (a : Agenda ε) (id : Nat) : Bool := a.entries.any fun e => e.id == id

def cancel (a : Agenda ε) (id : Nat) : Agenda ε where
  entries := a.entries.filter fun e => e.id != id
  nextId := a.nextId
  sorted := a.sorted.sublist List.filter_sublist
  ids_nodup := a.ids_nodup.sublist (List.filter_sublist.map Entry.id)
  ids_lt e he := a.ids_lt e (List.mem_filter.mp he).1

def behead (a : Agenda ε) {e : Entry ε} {rest : List (Entry ε)} (h : a.entries = e :: rest) :
    Agenda ε :=
  have tail : rest.Sublist a.entries := h ▸ List.sublist_cons_self e rest
  { entries := rest
    nextId := a.nextId
    sorted := a.sorted.sublist tail
    ids_nodup := a.ids_nodup.sublist (tail.map Entry.id)
    ids_lt := fun f hf => a.ids_lt f (tail.subset hf) }

/-- Lets the first event fall due again at `trigger`. -/
def moveFirst (a : Agenda ε) {e : Entry ε} {rest : List (Entry ε)} (h : a.entries = e :: rest)
    (trigger : Nat) : Agenda ε :=
  let e' : Entry ε := { e with trigger }
  have tail : rest.Sublist a.entries := h ▸ List.sublist_cons_self e rest
  have fresh : ∀ f ∈ rest, f.id ≠ e'.id := by
    intro f hf heq
    have := a.ids_nodup
    rw [h, List.map_cons, List.nodup_cons] at this
    exact this.1 (heq ▸ List.mem_map_of_mem hf)
  { entries := e'.place rest
    nextId := a.nextId
    sorted := e'.place_sorted (a.sorted.sublist tail) fresh
    ids_nodup := place_ids (a.ids_nodup.sublist (tail.map Entry.id)) fresh
    ids_lt := by
      intro f hf
      rcases Entry.mem_place.mp hf with rfl | hf
      · exact a.ids_lt e (h ▸ List.mem_cons_self)
      · exact a.ids_lt f (tail.subset hf) }

/-- Takes the first event if it is due at `now`. A recurring one stays with a later trigger,
counted from `now` if it is late. -/
def popBy (add : Nat → Nat → m Nat) (a : Agenda ε) (now : Nat) : m (Option (ε × Agenda ε)) :=
  match h : a.entries with
  | [] => return none
  | e :: _ =>
    if e.trigger ≤ now then
      if e.recurring then do
        return some (e.payload, a.moveFirst h (← add (max now e.trigger) e.delay))
      else return some (e.payload, a.behead h)
    else return none

def pop? (a : Agenda ε) (now : Nat) : Option (ε × Agenda ε) := (a.popBy Instant.add now).run

/-- Takes due events, but no more than `fuel`. -/
def popMany (now : Nat) : Nat → Agenda ε → List ε × Agenda ε
  | 0, a => ([], a)
  | fuel + 1, a =>
    match a.pop? now with
    | none => ([], a)
    | some (payload, a) =>
      let (payloads, a) := popMany now fuel a
      (payload :: payloads, a)

/-- Takes every event that is due. A recurring event with a delay is not due again at the
same time, so no event is taken twice. -/
def drain (a : Agenda ε) (now : Nat) : List ε × Agenda ε := a.popMany now a.size

/-- Removes all events. Their numbers stay used. -/
def clear (a : Agenda ε) : Agenda ε := ⟨[], a.nextId, .nil, .nil, by simp⟩

end Agenda
end Muster
