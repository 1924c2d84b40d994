import Muster.Group.Members

/-! Sync points: named meetings of the members of a group. A sync point waits until all
present members have arrived, and is then resolving until its success is announced. -/
namespace Muster

inductive Phase where
  /-- Arrivals are awaited, and a timeout is on the agenda. -/
  | waiting
  /-- All arrived, and success is on the agenda. -/
  | resolving
deriving DecidableEq

structure SyncPoint where
  /-- No two sync points of a server have the same generation. -/
  generation : Nat
  arrived : Members
  deadline : Nat
  /-- The number of the event that ends the sync point. -/
  event : Nat
  phase : Phase

namespace SyncPoint

def create (generation deadline event : Nat) : SyncPoint :=
  ⟨generation, ∅, deadline, event, .waiting⟩

def hasArrived (p : SyncPoint) (c : ConnId) : Bool := p.arrived.contains c

def arrive (p : SyncPoint) (c : ConnId) (member : NodeId) : SyncPoint :=
  { p with arrived := p.arrived.insert c member }

def depart (p : SyncPoint) (c : ConnId) : SyncPoint := { p with arrived := p.arrived.erase c }

/-- Whether all members have arrived. None arrives who is not a member, so it is enough to
count. -/
def isComplete (p : SyncPoint) (members : Members) : Bool := p.arrived.size == members.size

def beginResolving (p : SyncPoint) (event : Nat) : SyncPoint :=
  { p with phase := .resolving, event }

def timeLeft (p : SyncPoint) (now : Nat) : Nat := p.deadline - now

end SyncPoint
end Muster
