import Muster.Duration
import Muster.Group.Basic

/-! All groups of a server. The first to join a group creates it with the token that it
brings; a group that loses its last member, or in which nothing happens for too long, is
closed. Each operation gives the changed directory together with the news that it makes. -/
namespace Muster

structure Policy where
  maxGroupSize : Nat
  idleTimeout : Nat

structure Directory where
  groups : Std.ExtTreeMap NodeId Group
  agenda : Agenda Event
  nextGeneration : Nat

/-- An operation's answer, the directory after it, and the news in the order in which they
are told. -/
structure Change (α : Type) where
  answer : α
  directory : Directory
  broadcasts : List Broadcast

structure SyncReply where
  code : SyncCode
  timeLeft : Nat
  members : List NodeId
deriving DecidableEq

def SyncReply.rejected : SyncReply := ⟨.authenticationFailure, 0, []⟩

namespace Directory
variable {m : Type → Type} [Monad m]

def empty : Directory := ⟨∅, .empty, 0⟩

/-- Sync points stay open for a year at most. -/
def maxSyncTimeout : Nat := Duration.ofSeconds (365 * 24 * 60 * 60)

def syncTimeout (terms : SyncTerms) : Nat := min (Duration.ofWire terms.timeout) maxSyncTimeout

def members? (d : Directory) (id : NodeId) : Option (List NodeId) :=
  d.groups[id]?.map fun g => g.members.ids

def hasConnection (d : Directory) (c : ConnId) : Bool :=
  d.groups.any fun _ g => g.members.contains c

def setGroup (d : Directory) (id : NodeId) (g : Group) : Directory :=
  { d with groups := d.groups.insert id g }

/-- Adds a member and tells all members. A member who joins again changes nothing but the
time of the last activity. -/
def join (d : Directory) (policy : Policy) (now : Nat) (c : ConnId) (member : NodeId)
    (ref : GroupRef) : Change JoinCode :=
  let g := d.groups[ref.id]?.getD (.create ref.token now)
  if g.token ≠ ref.token then ⟨.authenticationFailure, d, []⟩
  else
    let g := { g with lastActivity := now }
    if g.members.contains c then ⟨.accepted, d.setGroup ref.id g, []⟩
    else if policy.maxGroupSize ≤ g.members.size then ⟨.groupFull, d.setGroup ref.id g, []⟩
    else
      let g := { g with members := g.members.insert c member }
      ⟨.accepted, d.setGroup ref.id g, [g.announceMembers ref.id .join]⟩

/-- Removes a group. Nothing of its sync points stays on the agenda. -/
def close (d : Directory) (id : NodeId) (g : Group) : Directory × List Broadcast :=
  ({ d with groups := d.groups.erase id, agenda := g.cancelPoints d.agenda }, g.farewell id)

/-- Removes a member. The others no longer wait for it, but its leaving alone completes no
sync point. -/
def removeMember (d : Directory) (now : Nat) (c : ConnId) (id : NodeId) :
    Directory × List Broadcast :=
  match d.groups[id]? with
  | none => (d, [])
  | some g =>
    if g.members.contains c then
      let g := { g with members := g.members.erase c, lastActivity := now }
      if g.members.isEmpty then d.close id g
      else
        let g := { g with points := g.departAll c }
        (d.setGroup id g,
          g.points.toList.map (fun (name, p) => g.announceProgress id name p .leave) ++
            [g.announceMembers id .leave])
    else (d, [])

/-- Removes a member who names the group's token. Answers whether it was one. -/
def leave (d : Directory) (now : Nat) (c : ConnId) (ref : GroupRef) : Change Bool :=
  match d.groups[ref.id]? with
  | none => ⟨false, d, []⟩
  | some g =>
    if g.accepts c ref.token then
      let (d, broadcasts) := d.removeMember now c ref.id
      ⟨true, d, broadcasts⟩
    else ⟨false, d, []⟩

/-- Takes a step for each of several groups, one after the other. -/
def forEach (step : Directory → NodeId → Directory × List Broadcast) :
    Directory → List NodeId → Directory × List Broadcast
  | d, [] => (d, [])
  | d, id :: ids =>
    let (d, first) := step d id
    let (d, later) := forEach step d ids
    (d, first ++ later)

/-- Removes a lost connection from all its groups. -/
def removeConnection (d : Directory) (now : Nat) (c : ConnId) : Directory × List Broadcast :=
  forEach (fun d id => d.removeMember now c id) d
    (d.groups.filter fun _ g => g.members.contains c).keys

/-- Records the arrival of a member at a sync point that is waiting, and tells all who have
arrived. When the last member arrives, the timeout on the agenda gives way to success. -/
def arriveAtBy (add : Nat → Nat → m Nat) (d : Directory) (now : Nat) (c : ConnId)
    (member : NodeId) (id name : NodeId) (g : Group) (p : SyncPoint) (code : SyncCode) :
    m (Change SyncReply) := do
  let p := p.arrive c member
  let told := g.announceProgress id name p .join
  let (agenda, p) ← (
    if p.isComplete g.members then do
      let event : Event := .resolve id name p.generation .success
      let (number, agenda) ← (d.agenda.cancel p.event).scheduleBy add now 0 event false
      return (agenda, p.beginResolving number)
    else return (d.agenda, p))
  let g := { g with points := g.points.insert name p }
  return ⟨⟨code, p.timeLeft now, g.members.ids⟩, { d with agenda }.setGroup id g, [told]⟩

def arriveAt (d : Directory) (now : Nat) (c : ConnId) (member : NodeId) (id name : NodeId)
    (g : Group) (p : SyncPoint) (code : SyncCode) : Change SyncReply :=
  (d.arriveAtBy Instant.add now c member id name g p code).run

section
variable {d : Directory} {now : Nat} {c : ConnId} {member id name : NodeId} {g : Group}
  {p : SyncPoint} {code : SyncCode}

theorem arriveAt_of_complete (complete : (p.arrive c member).isComplete g.members = true) :
    d.arriveAt now c member id name g p code =
      ⟨⟨code, p.timeLeft now, g.members.ids⟩,
        Directory.setGroup
          { d with
            agenda := ((d.agenda.cancel p.event).schedule now 0
              (.resolve id name p.generation .success) false).2 }
          id { g with
            points := g.points.insert name
              ((p.arrive c member).beginResolving d.agenda.nextId) },
        [g.announceProgress id name (p.arrive c member) .join]⟩ := by
  simp only [arriveAt, arriveAtBy, Id.run, bind, if_pos complete]
  rfl

theorem arriveAt_of_incomplete (incomplete : ¬(p.arrive c member).isComplete g.members = true) :
    d.arriveAt now c member id name g p code =
      ⟨⟨code, p.timeLeft now, g.members.ids⟩,
        d.setGroup id { g with points := g.points.insert name (p.arrive c member) },
        [g.announceProgress id name (p.arrive c member) .join]⟩ := by
  simp only [arriveAt, arriveAtBy, Id.run, bind, if_neg incomplete]
  rfl

end

/-- Lets a member arrive at a sync point. The first to arrive creates it; its timeout is added
twice, for the agenda and for its deadline. -/
def syncBy (add : Nat → Nat → m Nat) (d : Directory) (now : Nat) (c : ConnId) (ref : GroupRef)
    (terms : SyncTerms) : m (Change SyncReply) :=
  match d.groups[ref.id]? with
  | none => return ⟨.rejected, d, []⟩
  | some g =>
    match g.members[c]? with
    | none => return ⟨.rejected, d, []⟩
    | some member =>
      if g.token ≠ ref.token then return ⟨.rejected, d, []⟩
      else
        let g := { g with lastActivity := now }
        match g.points[terms.point]? with
        | some p =>
          if p.hasArrived c then
            return ⟨⟨.joined, p.timeLeft now, g.members.ids⟩, d.setGroup ref.id g, []⟩
          else if p.phase = .resolving then
            return ⟨⟨.expired, 0, g.members.ids⟩, d.setGroup ref.id g, []⟩
          else d.arriveAtBy add now c member ref.id terms.point g p .joined
        | none => do
          let timeout := syncTimeout terms
          let event : Event := .resolve ref.id terms.point d.nextGeneration .timeout
          let (number, agenda) ← d.agenda.scheduleBy add now timeout event false
          let deadline ← add now timeout
          let p := SyncPoint.create d.nextGeneration deadline number
          let d := { d with agenda, nextGeneration := d.nextGeneration + 1 }
          d.arriveAtBy add now c member ref.id terms.point g p .created

def sync (d : Directory) (now : Nat) (c : ConnId) (ref : GroupRef) (terms : SyncTerms) :
    Change SyncReply :=
  (d.syncBy Instant.add now c ref terms).run

/-- Ends a sync point and tells all who have arrived. Nothing happens if the sync point of
that name is of another generation. -/
def resolve (d : Directory) (id name : NodeId) (generation : Nat) (resolution : Resolution) :
    Directory × List Broadcast :=
  match d.groups[id]? with
  | none => (d, [])
  | some g =>
    match g.points[name]? with
    | none => (d, [])
    | some p =>
      if p.generation = generation then
        (d.setGroup id { g with points := g.points.erase name },
          [g.announceProgress id name p resolution.code])
      else (d, [])

def closeGroup (d : Directory) (id : NodeId) : Directory × List Broadcast :=
  match d.groups[id]? with
  | none => (d, [])
  | some g => d.close id g

/-- Closes every group in which nothing happened for longer than the idle timeout. -/
def housekeeping (d : Directory) (policy : Policy) (now : Nat) : Directory × List Broadcast :=
  forEach closeGroup d
    (d.groups.filter fun _ g => policy.idleTimeout < now - g.lastActivity).keys

def handle (d : Directory) (policy : Policy) (now : Nat) : Event → Directory × List Broadcast
  | .housekeeping => d.housekeeping policy now
  | .resolve id name generation resolution => d.resolve id name generation resolution

/-- Takes up to `fuel` due events from the agenda and handles each before the next is
taken. -/
def fireManyBy (add : Nat → Nat → m Nat) (policy : Policy) (now : Nat) :
    Nat → Directory → m (List (Event × List Broadcast) × Directory)
  | 0, d => return ([], d)
  | fuel + 1, d => do
    match ← d.agenda.popBy add now with
    | none => return ([], d)
    | some (event, agenda) =>
      let (d, broadcasts) := { d with agenda }.handle policy now event
      let (later, d) ← fireManyBy add policy now fuel d
      return ((event, broadcasts) :: later, d)

def fireMany (policy : Policy) (now fuel : Nat) (d : Directory) :
    List (Event × List Broadcast) × Directory :=
  (fireManyBy Instant.add policy now fuel d).run

theorem fireMany_succ (policy : Policy) (now fuel : Nat) (d : Directory) :
    fireMany policy now (fuel + 1) d =
      match d.agenda.pop? now with
      | none => ([], d)
      | some (event, agenda) =>
        let (d, broadcasts) := { d with agenda }.handle policy now event
        let (later, d) := fireMany policy now fuel d
        ((event, broadcasts) :: later, d) := by
  unfold fireMany Agenda.pop?
  rw [fireManyBy]
  cases taken : d.agenda.popBy Instant.add now with
  | none => rfl
  | some popped => rfl

/-- Handles every event that is due. No event puts another one on the agenda, so there are
no more of them than the agenda holds. -/
def fireDueBy (add : Nat → Nat → m Nat) (d : Directory) (policy : Policy) (now : Nat) :
    m (List (Event × List Broadcast) × Directory) :=
  fireManyBy add policy now d.agenda.size d

def fireDue (d : Directory) (policy : Policy) (now : Nat) :
    List (Event × List Broadcast) × Directory :=
  (d.fireDueBy Instant.add policy now).run

end Directory
end Muster
