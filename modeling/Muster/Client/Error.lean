import Muster.Link.Stream

/-! Why the calls of a client fail. -/
namespace Muster

inductive SendError where
  | notConnected
  | io (e : IoError)
deriving DecidableEq

def SendError.message : SendError → String
  | notConnected => "Not connected"
  | io e => s!"I/O error: {e.message}"

def SendError.name : SendError → String
  | notConnected => "NotConnected"
  | io _ => "Io"

instance : Fault SendError := ⟨SendError.name, SendError.message⟩

inductive LeaveError where
  | timeout
  | notConnected
  | send (e : IoError)
deriving DecidableEq

def LeaveError.ofSend : SendError → LeaveError
  | .notConnected => notConnected
  | .io e => send e

def LeaveError.message : LeaveError → String
  | timeout => "Leave timed out"
  | notConnected => "Client is not connected"
  | send e => s!"Failed to send leave request: {e.message}"

def LeaveError.name : LeaveError → String
  | timeout => "Timeout"
  | notConnected => "NotConnected"
  | send _ => "Send"

instance : Fault LeaveError := ⟨LeaveError.name, LeaveError.message⟩

inductive JoinError where
  | groupFull
  | authenticationFailed
  | timeout
  | notConnected
  | send (e : IoError)
  /-- A group that was joined with another token must be left first. -/
  | leave (e : LeaveError)
deriving DecidableEq

def JoinError.ofSend : SendError → JoinError
  | .notConnected => notConnected
  | .io e => send e

def JoinError.message : JoinError → String
  | groupFull => "Group is full"
  | authenticationFailed => "Group token rejected"
  | timeout => "Join timed out"
  | notConnected => "Client is not connected"
  | send e => s!"Failed to send join request: {e.message}"
  | leave e => s!"Failed to leave group: {e.message}"

def JoinError.name : JoinError → String
  | groupFull => "GroupFull"
  | authenticationFailed => "AuthenticationFailed"
  | timeout => "Timeout"
  | notConnected => "NotConnected"
  | send _ => "Send"
  | leave _ => "Leave"

instance : Fault JoinError := ⟨JoinError.name, JoinError.message⟩

inductive SyncError where
  | notJoined
  | alreadyWaiting
  | expired
  | authenticationFailed
  | notConnected
  | send (e : IoError)
deriving DecidableEq

def SyncError.ofSend : SendError → SyncError
  | .notConnected => notConnected
  | .io e => send e

def SyncError.message : SyncError → String
  | notJoined => "Not a member of the group"
  | alreadyWaiting => "Already waiting on a sync point"
  | expired => "Sync point expired"
  | authenticationFailed => "Group token rejected"
  | notConnected => "Client is not connected"
  | send e => s!"Failed to send sync request: {e.message}"

def SyncError.name : SyncError → String
  | notJoined => "NotJoined"
  | alreadyWaiting => "AlreadyWaiting"
  | expired => "Expired"
  | authenticationFailed => "AuthenticationFailed"
  | notConnected => "NotConnected"
  | send _ => "Send"

instance : Fault SyncError := ⟨SyncError.name, SyncError.message⟩

end Muster
