import Muster.Agenda
import Muster.Group.News
import Muster.Group.SyncPoint

/-! Groups: members who know the same token, and the sync points at which they meet. -/
namespace Muster

inductive Resolution where
  | success | timeout
deriving DecidableEq

def Resolution.code : Resolution → ProgressCode
  | success => .success
  | timeout => .timeout

/-- What is on the server's agenda. -/
inductive Event where
  | housekeeping
  | resolve (group point : NodeId) (generation : Nat) (resolution : Resolution)
deriving DecidableEq

structure Group where
  token : Token
  members : Members
  points : Std.ExtTreeMap NodeId SyncPoint
  lastActivity : Nat

namespace Group

def create (token : Token) (now : Nat) : Group := ⟨token, ∅, ∅, now⟩

/-- Whether the connection is a member and names the group's token. -/
def accepts (g : Group) (c : ConnId) (token : Token) : Bool :=
  g.token == token && g.members.contains c

/-- Tells all members who is a member. -/
def announceMembers (g : Group) (id : NodeId) (code : MembershipCode) : Broadcast :=
  ⟨g.members.connections, .membership ⟨id, g.token⟩ g.members.ids code⟩

/-- Tells all who have arrived at a sync point who has. -/
def announceProgress (g : Group) (id name : NodeId) (p : SyncPoint) (code : ProgressCode) :
    Broadcast :=
  ⟨p.arrived.connections, .progress ⟨id, g.token⟩ name p.generation p.arrived.ids code⟩

def departAll (g : Group) (c : ConnId) : Std.ExtTreeMap NodeId SyncPoint :=
  g.points.map fun _ p => p.depart c

/-- What is said when the group closes: first to those who wait at its sync points, then to
its members. -/
def farewell (g : Group) (id : NodeId) : List Broadcast :=
  g.points.toList.map (fun (name, p) => g.announceProgress id name p .close) ++
    [⟨g.members.connections, .membership ⟨id, g.token⟩ [] .close⟩]

/-- The agenda without the ends of the group's sync points. -/
def cancelPoints (g : Group) (agenda : Agenda Event) : Agenda Event :=
  g.points.values.foldl (fun a p => a.cancel p.event) agenda

end Group
end Muster
