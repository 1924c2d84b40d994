import Muster.Client.Config
import Muster.Client.Error
import Muster.Client.Membership
import Muster.Link.Basic
import Muster.Wire.Sequence

/-! The state of a client that its network side and its callers share: the registration, the
link to the server, and what is known of each group. -/
namespace Muster

/-- Where a client stands with the server. -/
inductive Standing where
  | idle
  | pending
  | accepted (token : Token)
  | rejected (code : RegisterCode)
  | connectFailed (e : IoError)
  | lost
deriving DecidableEq

/-- Names one record of a group. Callers keep it even after the client has forgotten the
group. -/
abbrev Handle := Nat

structure Client where
  id : NodeId
  config : ClientConfig
  standing : Standing
  running : Bool
  link : Option Link
  /-- The groups that the client knows, by their names. -/
  groups : Std.ExtTreeMap NodeId Handle
  /-- Every record that was ever made. -/
  records : Std.ExtTreeMap Handle Membership
  numbering : Numbering

namespace Client

def create (id : NodeId) (config : ClientConfig) (numbering : Numbering) : Client :=
  ⟨id, config, .idle, false, none, ∅, ∅, numbering⟩

/-- The token that the server issued, or the null token. -/
def token (c : Client) : Token :=
  match c.standing with
  | .accepted token => token
  | _ => .null

def isRegistered (c : Client) : Bool :=
  c.running &&
    match c.standing with
    | .accepted _ => true
    | _ => false

def sent (c : Client) : Nat := (c.link.map Link.sent).getD 0

def group? (c : Client) (id : NodeId) : Option Membership := do c.records[← c.groups[id]?]?

def update (c : Client) (h : Handle) (f : Membership → Membership) : Client :=
  { c with records := c.records.modify h f }

def updateGroup (c : Client) (id : NodeId) (f : Membership → Membership) : Client :=
  match c.groups[id]? with
  | some h => c.update h f
  | none => c

/-- Makes a new record for a group, in place of the one that the client may know. -/
def addGroup (c : Client) (id : NodeId) (token : Token) : Handle × Client :=
  let h := c.records.size
  (h, { c with
    groups := c.groups.insert id h
    records := c.records.insert h (.create id token) })

/-- The record of a group, which is made if the client does not know the group. Tells
whether it was. -/
def openGroup (c : Client) (id : NodeId) (token : Token) : Handle × Bool × Client :=
  match c.groups[id]? with
  | some h => (h, false, c)
  | none =>
    let (h, c) := c.addGroup id token
    (h, true, c)

/-- Forgets a group if this is still its record. -/
def forget (c : Client) (h : Handle) : Client :=
  match c.records[h]? with
  | some m => if c.groups[m.id]? = some h then { c with groups := c.groups.erase m.id } else c
  | none => c

def draft (c : Client) (body : Body) : Packet × Client :=
  let m : Message := ⟨c.token, body⟩
  let (seq, numbering) := c.numbering.draw m.kind
  (.ofMessage seq m, { c with numbering })

def send (c : Client) (p : Packet) : Except SendError Unit × Client :=
  match c.link with
  | none => (.error .notConnected, c)
  | some link =>
    let (result, link) := link.send p
    (result.mapError .io, { c with link := some link })

def cancel (c : Client) (seq : Int32) : Client :=
  { c with link := c.link.map fun link => link.cancel seq }

/-- The answer to the registration. A client that is refused stops. -/
def registerAnswered (c : Client) (token : Token) (code : RegisterCode) : Client :=
  if code = .accepted then { c with standing := .accepted token }
  else { c with standing := .rejected code, running := false }

/-- A notice of a group's members. Notices for another token are not about this group. -/
def membersChanged (c : Client) (ref : GroupRef) (ids : List NodeId) (code : MembershipCode) :
    Client :=
  c.updateGroup ref.id fun m =>
    if m.token = ref.token then m.membersChanged c.id ids code else m

/-- Takes in a delivery. Responses are about the group that their requests named. -/
def receive (c : Client) (d : Delivery) : Client :=
  let seq := d.packet.seq
  match d.packet.message.body, d.request.map Message.body with
  | .membershipNotice ref ids code, _ => c.membersChanged ref ids code
  | .progressNotice ref _ point code, _ =>
    c.updateGroup ref.id fun m => m.syncNotified point code
  | .registerResponse token code, some (.registerRequest _) => c.registerAnswered token code
  | .joinResponse _ code, some (.joinRequest ref) =>
    c.updateGroup ref.id fun m => m.joinAnswered c.id seq code
  | .leaveResponse _ _, some (.leaveRequest ref) =>
    c.updateGroup ref.id fun m => m.leaveAnswered seq
  | .syncResponse _ _ terms code, some (.syncRequest ref _) =>
    c.updateGroup ref.id fun m => m.syncAnswered seq terms.point code
  | _, _ => c

def receiveAll (c : Client) (ds : List Delivery) : Client := ds.foldl receive c

end Client
end Muster
