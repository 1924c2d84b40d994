import Muster.Group.Members
import Muster.Wire.Message

/-! What the server tells the members of a group about it: who is a member, and what
happens at its sync points. -/
namespace Muster

inductive News where
  | membership (group : GroupRef) (members : List NodeId) (code : MembershipCode)
  /-- Sync points are told apart by their generation, which the members never see. -/
  | progress (group : GroupRef) (point : NodeId) (generation : Nat) (arrived : List NodeId)
      (code : ProgressCode)
deriving DecidableEq

namespace News

def group : News → GroupRef
  | membership g .. => g
  | progress g .. => g

def message (server : Token) : News → Message
  | membership group members code => ⟨server, .membershipNotice group members code⟩
  | progress group point _ arrived code => ⟨server, .progressNotice group arrived point code⟩

end News

structure Broadcast where
  receivers : List ConnId
  news : News
deriving DecidableEq

end Muster
