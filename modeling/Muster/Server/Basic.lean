import Muster.Identity.TokenSource
import Muster.Server.Config
import Muster.Wire.Sequence

/-! The server's state and its answers to requests. A client registers under a name that no
other connection holds and gets a token; only with this token it may join, leave and meet.
Every request is answered by one packet, in front of all notices that it causes. -/
namespace Muster

structure Registration where
  id : NodeId
  token : Token
deriving DecidableEq

structure Outgoing where
  receiver : ConnId
  packet : Packet
deriving DecidableEq

structure Server where
  token : Token
  maxClients : Nat
  policy : Policy
  clients : Std.ExtTreeMap NodeId ConnId
  registrations : Std.ExtTreeMap ConnId Registration
  directory : Directory
  numbering : Numbering
  tokens : TokenSource
  outbox : List Outgoing

namespace Server
variable {m : Type → Type} [Monad m]

/-- A server without clients that looks for idle groups from now on. -/
def startBy (add : Nat → Nat → m Nat) (config : ServerConfig) (token : Token) (now : Nat)
    (numbering : Numbering) (tokens : TokenSource) : m Server := do
  let (_, agenda) ←
    Agenda.empty.scheduleBy add now config.housekeepingInterval .housekeeping true
  return {
    token
    maxClients := config.maxClients
    policy := config.policy
    clients := ∅
    registrations := ∅
    directory := { Directory.empty with agenda }
    numbering
    tokens
    outbox := [] }

def start (config : ServerConfig) (token : Token) (now : Nat) (numbering : Numbering)
    (tokens : TokenSource) : Server :=
  (startBy Instant.add config token now numbering tokens).run

/-- Numbers the notices of one broadcast and puts them into the outbox. -/
def queue (s : Server) (b : Broadcast) : Server :=
  let m := b.news.message s.token
  let (seq, numbering) := s.numbering.draw m.kind
  { s with
    numbering
    outbox := s.outbox ++ b.receivers.map fun c => ⟨c, .ofMessage seq m⟩ }

def queueAll (s : Server) (bs : List Broadcast) : Server := bs.foldl queue s

def respond (s : Server) (c : ConnId) (seq : Int32) (body : Body) : Server :=
  { s with outbox := s.outbox ++ [⟨c, .ofMessage seq ⟨s.token, body⟩⟩] }

/-- The name of the client that was given this token on this connection. -/
def authenticate (s : Server) (c : ConnId) (sender : Token) : Option NodeId :=
  match s.registrations[c]? with
  | some r => if r.token = sender then some r.id else none
  | none => none

def unregister (s : Server) (c : ConnId) : Server :=
  match s.registrations[c]? with
  | none => s
  | some r =>
    { s with registrations := s.registrations.erase c, clients := s.clients.erase r.id }

/-- Whether a connection may register under a name. A member of a group keeps its name, and
a registered connection may take another one even if the server is full. -/
def registerCode (s : Server) (c : ConnId) (id : NodeId) : RegisterCode :=
  match s.clients[id]? with
  | some owner => if owner = c then .accepted else .authenticationFailure
  | none =>
    if s.directory.hasConnection c then .authenticationFailure
    else if s.registrations.contains c then .accepted
    else if s.maxClients ≤ s.clients.size then .serverFull
    else .accepted

/-- Registers a connection under a name that is its own or free. A connection that gives up
another name gets a new token. -/
def enroll (s : Server) (c : ConnId) (id : NodeId) : Token × Server :=
  let s := if s.clients.contains id then s else s.unregister c
  match s.registrations[c]? with
  | some r => (r.token, { s with clients := s.clients.insert id c })
  | none =>
    let (token, tokens) := s.tokens.draw
    (token, { s with
      tokens
      registrations := s.registrations.insert c ⟨id, token⟩
      clients := s.clients.insert id c })

def register (s : Server) (c : ConnId) (seq : Int32) (id : NodeId) : Server :=
  match s.registerCode c id with
  | .accepted =>
    let (token, s) := s.enroll c id
    s.respond c seq (.registerResponse token .accepted)
  | code => s.respond c seq (.registerResponse .null code)

def join (s : Server) (now : Nat) (c : ConnId) (sender : Token) (seq : Int32)
    (ref : GroupRef) : Server :=
  match s.authenticate c sender with
  | none => s.respond c seq (.joinResponse ref .authenticationFailure)
  | some member =>
    let change := s.directory.join s.policy now c member ref
    ({ s with directory := change.directory }.respond c seq
      (.joinResponse ref change.answer)).queueAll change.broadcasts

/-- The answer does not tell whether the connection was a member. -/
def leave (s : Server) (now : Nat) (c : ConnId) (sender : Token) (seq : Int32)
    (ref : GroupRef) : Server :=
  match s.authenticate c sender with
  | none => s.respond c seq (.leaveResponse ref .accepted)
  | some _ =>
    let change := s.directory.leave now c ref
    ({ s with directory := change.directory }.respond c seq
      (.leaveResponse ref .accepted)).queueAll change.broadcasts

def syncResponse (ref : GroupRef) (point : NodeId) (reply : SyncReply) : Body :=
  .syncResponse ref reply.members ⟨Duration.toWire reply.timeLeft, point⟩ reply.code

def syncBy (add : Nat → Nat → m Nat) (s : Server) (now : Nat) (c : ConnId) (sender : Token)
    (seq : Int32) (ref : GroupRef) (terms : SyncTerms) : m Server :=
  match s.authenticate c sender with
  | none => return s.respond c seq (syncResponse ref terms.point .rejected)
  | some _ => do
    let change ← s.directory.syncBy add now c ref terms
    return ({ s with directory := change.directory }.respond c seq
      (syncResponse ref terms.point change.answer)).queueAll change.broadcasts

def sync (s : Server) (now : Nat) (c : ConnId) (sender : Token) (seq : Int32)
    (ref : GroupRef) (terms : SyncTerms) : Server :=
  (s.syncBy Instant.add now c sender seq ref terms).run

/-- Handles a message from a connection. Messages that are not requests do nothing. -/
def handleBy (add : Nat → Nat → m Nat) (s : Server) (now : Nat) (c : ConnId) (seq : Int32)
    (msg : Message) : m Server :=
  match msg.body with
  | .registerRequest id => return s.register c seq id
  | .joinRequest ref => return s.join now c msg.sender seq ref
  | .leaveRequest ref => return s.leave now c msg.sender seq ref
  | .syncRequest ref terms => s.syncBy add now c msg.sender seq ref terms
  | _ => return s

def handle (s : Server) (now : Nat) (c : ConnId) (seq : Int32) (m : Message) : Server :=
  (s.handleBy Instant.add now c seq m).run

def lose (s : Server) (now : Nat) (c : ConnId) : Server :=
  let s := s.unregister c
  let (directory, broadcasts) := s.directory.removeConnection now c
  { s with directory }.queueAll broadcasts

def fireDueBy (add : Nat → Nat → m Nat) (s : Server) (now : Nat) : m Server := do
  let (fired, directory) ← s.directory.fireDueBy add s.policy now
  return { s with directory }.queueAll (fired.flatMap Prod.snd)

def fireDue (s : Server) (now : Nat) : Server := (s.fireDueBy Instant.add now).run

end Server
end Muster
