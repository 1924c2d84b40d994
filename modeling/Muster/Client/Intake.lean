import Muster.Client.Basic

/-! Taking in a delivery. The network side looks up the record of the group that the delivery is
about, looks at its token if members are announced, and changes it. Steps of callers may come in
between; each of its own is one look at the table of groups or at a record, or one change of a
record. -/
namespace Muster

/-- What a delivery says about a group. -/
inductive Tidings where
  | members (token : Token) (ids : List NodeId) (code : MembershipCode)
  | progress (point : NodeId) (code : ProgressCode)
  | joinAnswer (code : JoinCode)
  | leaveAnswer
  | syncAnswer (point : NodeId) (code : SyncCode)

/-- Which group a delivery is about, and what it says. A response is about the group that its
request named. -/
def Delivery.tidings? (d : Delivery) : Option (NodeId × Tidings) :=
  match d.packet.message.body, d.request.map Message.body with
  | .membershipNotice ref ids code, _ => some (ref.id, .members ref.token ids code)
  | .progressNotice ref _ point code, _ => some (ref.id, .progress point code)
  | .joinResponse _ code, some (.joinRequest ref) => some (ref.id, .joinAnswer code)
  | .leaveResponse _ _, some (.leaveRequest ref) => some (ref.id, .leaveAnswer)
  | .syncResponse _ _ terms code, some (.syncRequest ref _) =>
    some (ref.id, .syncAnswer terms.point code)
  | _, _ => none

namespace Tidings

def token? : Tidings → Option Token
  | members token _ _ => some token
  | progress .. | joinAnswer _ | leaveAnswer | syncAnswer .. => none

end Tidings

namespace Membership

/-- What tidings make of a record, whatever its token is. -/
def heed (m : Membership) (own : NodeId) (seq : Int32) : Tidings → Membership
  | .members _ ids code => m.membersChanged own ids code
  | .progress point code => m.syncNotified point code
  | .joinAnswer code => m.joinAnswered own seq code
  | .leaveAnswer => m.leaveAnswered seq
  | .syncAnswer point code => m.syncAnswered seq point code

/-- What tidings make of the record that they are about. Members that are announced by another
token are not those of this group. -/
def hear (m : Membership) (own : NodeId) (seq : Int32) (t : Tidings) : Membership :=
  match t.token? with
  | some token => if m.token = token then m.heed own seq t else m
  | none => m.heed own seq t

end Membership

/-- How far the network side has come with a delivery. -/
inductive Intake where
  | fresh
  /-- The group had this record. -/
  | found (h : Handle)
  /-- The record had the token by which members are announced. -/
  | matched (h : Handle)
deriving DecidableEq

namespace Intake

/-- The record that may be changed. -/
def handle? : Intake → Option Handle
  | fresh => none
  | found h | matched h => some h

/-- One step, and how far it comes, if not to the end. What is not about a group takes a single
step. -/
def step (c : Client) (d : Delivery) (s : Intake) : Client × Option Intake :=
  match d.tidings?, s with
  | none, _ => (c.receive d, none)
  | some (id, _), fresh => (c, c.groups[id]?.map found)
  | some (_, t), found h =>
    match t.token? with
    | some token =>
      (c, if c.records[h]?.map Membership.token = some token then some (matched h) else none)
    | none => (c.update h fun m => m.heed c.id d.packet.seq t, none)
  | some (_, t), matched h => (c.update h fun m => m.heed c.id d.packet.seq t, none)

end Intake
end Muster
