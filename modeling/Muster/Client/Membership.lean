import Std.Data.ExtTreeSet
import Muster.Wire.Message

/-! What a client knows of one group: whether it is a member and who else is, the join or
leave request that is under way, and the sync point at which it waits. -/
namespace Muster

inductive Reply where
  | join (code : JoinCode)
  | leave
  | lost
deriving DecidableEq

def Reply.name : Reply → String
  | join code => s!"Join({Code.name code})"
  | leave => "Leave"
  | lost => "Lost"

/-- A join or leave request from the moment it is made until its reply is taken. -/
inductive Exchange where
  | idle
  | awaiting (seq : Int32)
  | answered (reply : Reply)
deriving DecidableEq

/-- How the wait at a sync point ended. -/
inductive SyncOutcome where
  | success | timeout | left | expired | rejected
deriving DecidableEq

def SyncOutcome.name : SyncOutcome → String
  | success => "Success"
  | timeout => "Timeout"
  | left => "Left"
  | expired => "Expired"
  | rejected => "Rejected"

/-- The outcome that a notice brings, if it is a final one. -/
def SyncOutcome.ofProgress? : ProgressCode → Option SyncOutcome
  | .success => some success
  | .timeout => some timeout
  | .close => some left
  | .join | .leave => none

structure SyncWait where
  point : NodeId
  /-- The number of the request, once it was made. -/
  seq : Option Int32
  /-- Whether the server has answered the request, so that notices are about it. -/
  acknowledged : Bool
  outcome : Option SyncOutcome
deriving DecidableEq

structure Membership where
  id : NodeId
  token : Token
  exchange : Exchange
  /-- The members while the client is one of them. -/
  members : Option (Std.ExtTreeSet NodeId)
  wait : Option SyncWait
  /-- Whether a call is joining or leaving. -/
  busy : Bool

namespace Exchange

def forget (e : Exchange) : Exchange :=
  match e with
  | awaiting _ => idle
  | e => e

/-- Takes the reply. If there is none, and `stop` says so, the request with this number is
given up. -/
def take (e : Exchange) (seq : Int32) : Option Reply × Exchange :=
  match e with
  | answered reply => (some reply, idle)
  | awaiting n => (none, if n = seq then idle else awaiting n)
  | idle => (none, idle)

end Exchange

namespace SyncWait

def begin (point : NodeId) : SyncWait := ⟨point, none, false, none⟩

/-- The first outcome stays. -/
def endWith (w : SyncWait) (outcome : SyncOutcome) : SyncWait :=
  if w.outcome.isNone then { w with outcome := some outcome } else w

/-- The answer to a request with this number, for this sync point. -/
def answered (w : SyncWait) (seq : Int32) (point : NodeId) (code : SyncCode) : SyncWait :=
  if w.seq = some seq ∧ w.point = point then
    match code with
    | .created | .joined => { w with acknowledged := true }
    | .expired => { w with outcome := some .expired }
    | .authenticationFailure => { w with outcome := some .rejected }
  else w

/-- A notice about a sync point. One that comes before the answer is about an earlier
meeting. -/
def notified (w : SyncWait) (point : NodeId) (code : ProgressCode) : SyncWait :=
  match SyncOutcome.ofProgress? code with
  | some outcome => if w.acknowledged ∧ w.point = point then w.endWith outcome else w
  | none => w

end SyncWait

namespace Membership

def create (id : NodeId) (token : Token) : Membership := ⟨id, token, .idle, none, none, false⟩

def isJoined (m : Membership) : Bool := m.members.isSome

def ref (m : Membership) : GroupRef := ⟨m.id, m.token⟩

/-- The names of the members, in order; none while not joined. -/
def memberIds (m : Membership) : List NodeId :=
  match m.members with
  | some ids => ids.toList
  | none => []

def contains (m : Membership) (id : NodeId) : Bool :=
  match m.members with
  | some ids => ids.contains id
  | none => false

/-- Ends the membership, and with it the wait at a sync point. -/
def lose (m : Membership) : Membership :=
  { m with members := none, wait := m.wait.map fun w => w.endWith .left }

/-- The answer to a join request. Only the request that is awaited can be answered. -/
def joinAnswered (m : Membership) (own : NodeId) (seq : Int32) (code : JoinCode) :
    Membership :=
  if m.exchange = .awaiting seq then
    let members :=
      if code = .accepted then some ((m.members.getD ∅).insert own) else m.members
    { m with exchange := .answered (.join code), members }
  else m

def leaveAnswered (m : Membership) (seq : Int32) : Membership :=
  if m.exchange = .awaiting seq then { m.lose with exchange := .answered .leave } else m

/-- A notice of the members. One that closes the group, or in which the client is missing,
ends the membership. -/
def membersChanged (m : Membership) (own : NodeId) (ids : List NodeId)
    (code : MembershipCode) : Membership :=
  if code ≠ .close ∧ own ∈ ids then { m with members := some (.ofList ids) } else m.lose

def syncAnswered (m : Membership) (seq : Int32) (point : NodeId) (code : SyncCode) :
    Membership :=
  { m with wait := m.wait.map fun w => w.answered seq point code }

def syncNotified (m : Membership) (point : NodeId) (code : ProgressCode) : Membership :=
  { m with wait := m.wait.map fun w => w.notified point code }

/-- The connection is gone: the request that is awaited will not be answered. -/
def connectionLost (m : Membership) : Membership :=
  let exchange :=
    match m.exchange with
    | .awaiting _ => .answered .lost
    | e => e
  { m.lose with exchange }

/-- Takes the reply to a request that is no longer waited for. -/
def takeReply (m : Membership) (seq : Int32) : Option Reply × Membership :=
  let (reply, exchange) := m.exchange.take seq
  (reply, { m with exchange })

end Membership
end Muster
