import Muster.Identity.NodeId
import Muster.Identity.Token
import Muster.Wire.Code
import Muster.Wire.Kind

/-! Messages between clients and the server: the sender's token and a body. -/
namespace Muster

/-- A group is named together with the token that guards it. -/
structure GroupRef where
  id : NodeId
  token : Token
deriving DecidableEq

/-- A sync point and how many milliseconds it stays open. -/
structure SyncTerms where
  timeout : Int64
  point : NodeId
deriving DecidableEq

inductive Body where
  | registerRequest (client : NodeId)
  | registerResponse (client : Token) (code : RegisterCode)
  | joinRequest (group : GroupRef)
  | joinResponse (group : GroupRef) (code : JoinCode)
  | membershipNotice (group : GroupRef) (members : List NodeId) (code : MembershipCode)
  | leaveRequest (group : GroupRef)
  | leaveResponse (group : GroupRef) (code : LeaveCode)
  | syncRequest (group : GroupRef) (terms : SyncTerms)
  | syncResponse (group : GroupRef) (members : List NodeId) (terms : SyncTerms)
      (code : SyncCode)
  | progressNotice (group : GroupRef) (arrived : List NodeId) (point : NodeId)
      (code : ProgressCode)
deriving DecidableEq

structure Message where
  sender : Token
  body : Body
deriving DecidableEq

def Body.kind : Body → Kind
  | registerRequest .. => .registerRequest
  | registerResponse .. => .registerResponse
  | joinRequest .. => .joinRequest
  | joinResponse .. => .joinResponse
  | membershipNotice .. => .membershipNotice
  | leaveRequest .. => .leaveRequest
  | leaveResponse .. => .leaveResponse
  | syncRequest .. => .syncRequest
  | syncResponse .. => .syncResponse
  | progressNotice .. => .progressNotice

namespace Body

def group? : Body → Option GroupRef
  | registerRequest _ | registerResponse .. => none
  | joinRequest g | leaveRequest g | joinResponse g _ | leaveResponse g _ | syncRequest g _
  | membershipNotice g .. | syncResponse g .. | progressNotice g .. => some g

def members? : Body → Option (List NodeId)
  | membershipNotice _ ids _ | syncResponse _ ids _ _ | progressNotice _ ids _ _ => some ids
  | _ => none

def timeout? : Body → Option Int64
  | syncRequest _ terms | syncResponse _ _ terms _ => some terms.timeout
  | _ => none

def point? : Body → Option NodeId
  | syncRequest _ terms | syncResponse _ _ terms _ => some terms.point
  | progressNotice _ _ point _ => some point
  | _ => none

def codeName? : Body → Option String
  | registerResponse _ code => some (Code.name code)
  | joinResponse _ code => some (Code.name code)
  | leaveResponse _ code => some (Code.name code)
  | membershipNotice _ _ code => some (Code.name code)
  | syncResponse _ _ _ code => some (Code.name code)
  | progressNotice _ _ _ code => some (Code.name code)
  | registerRequest _ | joinRequest _ | leaveRequest _ | syncRequest .. => none

end Body

namespace Message

def kind (m : Message) : Kind := m.body.kind

def role (m : Message) : Kind.Role := m.kind.role

end Message
end Muster
