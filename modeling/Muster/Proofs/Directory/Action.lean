import Muster.Group.Directory
import Muster.Proofs.Agenda

/-! The requests and timed events that change a directory, one type for all of them, and the
histories that they make. -/
namespace Muster.Directory

inductive Action where
  | join (c : ConnId) (member : NodeId) (ref : GroupRef)
  | leave (c : ConnId) (ref : GroupRef)
  | removeConnection (c : ConnId)
  | sync (c : ConnId) (ref : GroupRef) (terms : SyncTerms)
  | housekeeping
  /-- Puts recurring housekeeping on the agenda. -/
  | watch (interval : Nat)
  | resolve (id name : NodeId) (generation : Nat) (resolution : Resolution)
  /-- Handles the first event on the agenda, if it is due. -/
  | fire
deriving DecidableEq

def watch (d : Directory) (now interval : Nat) : Directory :=
  { d with agenda := (d.agenda.schedule now interval .housekeeping true).2 }

def fire (d : Directory) (policy : Policy) (now : Nat) : Directory × List Broadcast :=
  match d.agenda.pop? now with
  | none => (d, [])
  | some (event, agenda) => { d with agenda }.handle policy now event

/-- The directory after an action and the news that it makes. -/
def act (d : Directory) (policy : Policy) (now : Nat) : Action → Directory × List Broadcast
  | .join c member ref =>
    let change := d.join policy now c member ref
    (change.directory, change.broadcasts)
  | .leave c ref =>
    let change := d.leave now c ref
    (change.directory, change.broadcasts)
  | .removeConnection c => d.removeConnection now c
  | .sync c ref terms =>
    let change := d.sync now c ref terms
    (change.directory, change.broadcasts)
  | .housekeeping => d.housekeeping policy now
  | .watch interval => (d.watch now interval, [])
  | .resolve id name generation resolution => d.resolve id name generation resolution
  | .fire => d.fire policy now

theorem fire_of_pop? {d : Directory} (policy : Policy) {now : Nat} {event : Event}
    {agenda : Agenda Event} (taken : d.agenda.pop? now = some (event, agenda)) :
    d.fire policy now = { d with agenda }.handle policy now event := by
  unfold fire
  rw [taken]

/-- Whether an action handles the event, called directly or taken from the agenda. -/
def Action.Handles (d : Directory) (now : Nat) : Action → Event → Prop
  | .housekeeping, event => event = .housekeeping
  | .resolve id name generation resolution, event =>
    event = .resolve id name generation resolution
  | .fire, event => ∃ agenda, d.agenda.pop? now = some (event, agenda)
  | .join .., _ | .leave .., _ | .removeConnection _, _ | .sync .., _ | .watch _, _ => False

def Action.isResolve : Action → Bool
  | .resolve .. => true
  | .join .. | .leave .. | .removeConnection _ | .sync .. | .housekeeping | .watch _ | .fire =>
    false

theorem Action.Handles.unique {d : Directory} {now : Nat} {a : Action} {event event' : Event}
    (h : a.Handles d now event) (h' : a.Handles d now event') : event = event' := by
  cases a with
  | housekeeping => exact Eq.trans h (Eq.symm h')
  | resolve id name generation resolution => exact Eq.trans h (Eq.symm h')
  | fire =>
    obtain ⟨agenda, hp⟩ := h
    obtain ⟨agenda', hp'⟩ := h'
    rw [hp] at hp'
    exact (Prod.mk.inj (Option.some.inj hp')).1
  | join c member ref => exact h.elim
  | leave c ref => exact h.elim
  | removeConnection c => exact h.elim
  | sync c ref terms => exact h.elim
  | watch interval => exact h.elim

def Action.Removes (a : Action) (c : ConnId) (ref : GroupRef) : Prop :=
  a = .leave c ref ∨ a = .removeConnection c

theorem Action.Removes.not_handles {d : Directory} {now : Nat} {a : Action} {c : ConnId}
    {ref : GroupRef} {event : Event} (h : a.Removes c ref) : ¬a.Handles d now event := by
  rcases h with rfl | rfl
  · exact id
  · exact id

theorem Action.fire_not_removes (c : ConnId) (ref : GroupRef) : ¬Action.fire.Removes c ref := by
  rintro (same | same)
  · contradiction
  · contradiction

theorem Action.Removes.ne_sync {a : Action} {c c' : ConnId} {ref ref' : GroupRef}
    {terms : SyncTerms} (h : a.Removes c ref) : a ≠ .sync c' ref' terms := by
  rcases h with rfl | rfl
  · exact nofun
  · exact nofun

def point? (d : Directory) (id name : NodeId) : Option SyncPoint :=
  d.groups[id]?.bind fun g => g.points[name]?

def member? (d : Directory) (id : NodeId) (c : ConnId) : Option NodeId :=
  d.groups[id]?.bind fun g => g.members[c]?

@[simp] theorem empty_point? (id name : NodeId) : empty.point? id name = none := by
  show Option.bind (∅ : Std.ExtTreeMap NodeId Group)[id]? _ = none
  rw [Std.ExtTreeMap.getElem?_empty]
  rfl

structure Episode where
  now : Nat
  action : Action
  before : Directory
  after : Directory
  broadcasts : List Broadcast

def episode (d : Directory) (policy : Policy) (now : Nat) (a : Action) : Episode :=
  ⟨now, a, d, (d.act policy now a).1, (d.act policy now a).2⟩

/-- What can happen to a directory, with the last episode first. Time never goes back. -/
inductive History (policy : Policy) : List Episode → Directory → Prop where
  | start : History policy [] .empty
  | act {past : List Episode} {d : Directory} (now : Nat) (a : Action)
      (run : History policy past d) (ordered : ∀ e ∈ past, e.now ≤ now) :
      History policy (d.episode policy now a :: past) (d.act policy now a).1

/-- What can happen to a directory, whatever the clock says, with the last episode first. -/
inductive Run (policy : Policy) : List Episode → Directory → Prop where
  | start : Run policy [] .empty
  | act {past : List Episode} {d : Directory} (now : Nat) (a : Action) (run : Run policy past d) :
      Run policy (d.episode policy now a :: past) (d.act policy now a).1

theorem History.run {policy : Policy} {past : List Episode} {d : Directory}
    (h : History policy past d) : Run policy past d := by
  induction h with
  | start => exact .start
  | act now a run ordered ih => exact .act now a ih

/-- The history of actions taken one after the other at the given times; the last is first. -/
def play (policy : Policy) : List (Nat × Action) → List Episode × Directory
  | [] => ([], .empty)
  | (now, a) :: earlier =>
    let (past, d) := play policy earlier
    (d.episode policy now a :: past, (d.act policy now a).1)

def told : List Episode → List Broadcast
  | [] => []
  | e :: past => told past ++ e.broadcasts

theorem mem_told_iff {past : List Episode} {b : Broadcast} :
    b ∈ told past ↔ ∃ e ∈ past, b ∈ e.broadcasts := by
  induction past with
  | nil => simp [told]
  | cons e past ih =>
    rw [told, List.mem_append, ih, List.exists_mem_cons_iff, or_comm]

variable {policy : Policy}

theorem play_map (policy : Policy) (actions : List (Nat × Action)) :
    (play policy actions).1.map (fun e => (e.now, e.action)) = actions := by
  induction actions with
  | nil => rfl
  | cons x actions ih =>
    show x :: (play policy actions).1.map _ = x :: actions
    rw [ih]

theorem History.play (policy : Policy) {actions : List (Nat × Action)}
    (ordered : actions.Pairwise fun x y => y.1 ≤ x.1) :
    History policy (play policy actions).1 (play policy actions).2 := by
  induction actions with
  | nil => exact .start
  | cons x actions ih =>
    obtain ⟨later, ordered⟩ := List.pairwise_cons.mp ordered
    apply History.act x.1 x.2 (ih ordered)
    intro e he
    apply later (e.now, e.action)
    have mem := List.mem_map_of_mem (f := fun e : Episode => (e.now, e.action)) he
    rw [play_map] at mem
    exact mem

/-- A history without direct calls for the end of a sync point. -/
def Unforced (past : List Episode) : Prop := ∀ e ∈ past, e.action.isResolve = false

theorem History.at {post pre : List Episode} {e : Episode} {d : Directory}
    (h : History policy (post ++ e :: pre) d) :
    History policy pre e.before ∧ (∀ f ∈ pre, f.now ≤ e.now) ∧
      e = e.before.episode policy e.now e.action := by
  induction post generalizing d with
  | nil =>
    rw [List.nil_append] at h
    cases h with
    | act now a run ordered => exact ⟨run, ordered, rfl⟩
  | cons f post ih =>
    rw [List.cons_append] at h
    cases h with
    | act now a run ordered => exact ih run

theorem Run.at {post pre : List Episode} {e : Episode} {d : Directory}
    (h : Run policy (post ++ e :: pre) d) :
    Run policy pre e.before ∧ e = e.before.episode policy e.now e.action := by
  induction post generalizing d with
  | nil =>
    rw [List.nil_append] at h
    cases h with
    | act now a run => exact ⟨run, rfl⟩
  | cons f post ih =>
    rw [List.cons_append] at h
    cases h with
    | act now a run => exact ih run

/-- The handling of due events one after the other, the last first. -/
def firings (policy : Policy) (now : Nat) : Nat → Directory → List Episode
  | 0, _ => []
  | fuel + 1, d =>
    match d.agenda.pop? now with
    | none => []
    | some _ => firings policy now fuel (d.fire policy now).1 ++ [d.episode policy now .fire]

theorem mem_firings {now fuel : Nat} {d : Directory} {e : Episode}
    (mem : e ∈ firings policy now fuel d) : e.now = now ∧ e.action = .fire := by
  induction fuel generalizing d with
  | zero => exact absurd mem List.not_mem_nil
  | succ fuel ih =>
    unfold firings at mem
    split at mem
    · exact absurd mem List.not_mem_nil
    · rcases List.mem_append.mp mem with mem | mem
      · exact ih mem
      · obtain rfl := List.mem_singleton.mp mem
        exact ⟨rfl, rfl⟩

theorem told_append (later earlier : List Episode) :
    told (later ++ earlier) = told earlier ++ told later := by
  induction later with
  | nil => exact (List.append_nil _).symm
  | cons e later ih =>
    show told (later ++ earlier) ++ e.broadcasts = told earlier ++ (told later ++ e.broadcasts)
    rw [ih, List.append_assoc]

/-- To handle all events that are due is to take the first of them again and again. -/
theorem fireMany_told (policy : Policy) (now fuel : Nat) (d : Directory) :
    (fireMany policy now fuel d).1.flatMap Prod.snd = told (firings policy now fuel d) := by
  induction fuel generalizing d with
  | zero => rfl
  | succ fuel ih =>
    unfold firings
    rw [fireMany_succ]
    cases taken : d.agenda.pop? now with
    | none => rfl
    | some popped =>
      obtain ⟨event, agenda⟩ := popped
      have fired := fire_of_pop? policy taken
      dsimp only
      rw [told_append, ← ih, fired, List.flatMap_cons]
      congr 1
      show _ = [] ++ (d.fire policy now).2
      rw [fired, List.nil_append]

/-- What a server does when its timer runs is a part of a history. -/
theorem Run.fireMany {past : List Episode} {d : Directory} (h : Run policy past d)
    (now fuel : Nat) :
    Run policy (firings policy now fuel d ++ past) (fireMany policy now fuel d).2 := by
  induction fuel generalizing past d with
  | zero => exact h
  | succ fuel ih =>
    unfold firings
    rw [fireMany_succ]
    cases taken : d.agenda.pop? now with
    | none => exact h
    | some popped =>
      obtain ⟨event, agenda⟩ := popped
      dsimp only
      rw [← fire_of_pop? policy taken, List.append_assoc]
      exact ih (.act now .fire h)

end Muster.Directory
