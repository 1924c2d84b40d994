import Muster.Proofs.Client.CallStep
import Muster.Proofs.Client.Intake

/-! One client of a network: its calls, each at a stage of its own, and the packets on their
way to the server and back. Every request is told apart from all others by its place among
the requests of its client, which neither side of the connection sees. -/
namespace Muster

structure Request where
  place : Nat
  packet : Packet
deriving DecidableEq

/-- The request that a response is the server's response to, and whether the client was a
member before the server handled it and was none afterwards. -/
structure Origin where
  request : Request
  removed : Bool
deriving DecidableEq

/-- A packet on its way to a client. Notices have no origin. -/
structure Incoming where
  packet : Packet
  origin : Option Origin

structure Handed where
  delivery : Delivery
  origin : Option Origin

/-- A call and the request that it has made and not yet done with. -/
structure Job where
  call : Call
  request : Option Request

inductive Ask where
  | join (id : NodeId) (token : Token)
  | rejoin (h : Handle)
  | leave (h : Handle)
  | waitMembers (h : Handle) (count : MemberCount) (timeout : Nat)
  | waitSync (h : Handle) (point : NodeId) (timeout : Nat)

/-- The call that is asked for. Callers have the handles of records that were made. -/
def Ask.call? (c : Client) (now : Nat) : Ask → Option (Client × Call)
  | .join id token =>
    let (h, created, c) := c.openGroup id token
    some (c, .join h created token)
  | .rejoin h => c.records[h]?.map fun m => (c, .rejoin h m)
  | .leave h => c.records[h]?.map fun _ => (c, .leave h)
  | .waitMembers h count timeout =>
    c.records[h]?.map fun _ => (c, .waitMembers h count now timeout)
  | .waitSync h point timeout => c.records[h]?.map fun _ => (c, .waitSync h point timeout)

/-- A call begins with nothing claimed, on a record that is there or just made. -/
theorem Ask.call?_cases {c c' : Client} {now : Nat} {a : Ask} {call : Call}
    (run : a.call? c now = some (c', call)) :
    call.stage.claim = .none ∧ call.stage.errand = .none ∧
      (c' = c ∧ ((∃ m : Membership, c.records[call.handle]? = some m) ∨
          ∃ id : NodeId, c.groups[id]? = some call.handle) ∨
        ∃ (id : NodeId) (token : Token), c.groups[id]? = none ∧
          c' = (c.addGroup id token).2 ∧ call.handle = c.records.size) := by
  have known {h : Handle} {f : Membership → Call} (handle : ∀ m, (f m).handle = h)
      (quiet : ∀ m, (f m).stage.claim = .none ∧ (f m).stage.errand = .none)
      (run : (c.records[h]?.map fun m => (c, f m)) = some (c', call)) :
      call.stage.claim = .none ∧ call.stage.errand = .none ∧ c' = c ∧
        ∃ m, c.records[call.handle]? = some m := by
    obtain ⟨m, record, eq⟩ := Option.map_eq_some_iff.mp run
    obtain ⟨rfl, rfl⟩ := Prod.mk.inj eq
    refine ⟨(quiet m).1, (quiet m).2, rfl, m, ?_⟩
    rw [handle]
    exact record
  cases a with
  | join id token =>
    cases hg : c.groups[id]? with
    | some h =>
      simp only [call?, Client.openGroup, hg] at run
      obtain ⟨rfl, rfl⟩ := Prod.mk.inj (Option.some.inj run)
      exact ⟨rfl, rfl, .inl ⟨rfl, .inr ⟨id, hg⟩⟩⟩
    | none =>
      simp only [call?, Client.openGroup, hg] at run
      obtain ⟨rfl, rfl⟩ := Prod.mk.inj (Option.some.inj run)
      exact ⟨rfl, rfl, .inr ⟨id, token, hg, rfl, rfl⟩⟩
  | rejoin h =>
    obtain ⟨claim, errand, eq, record⟩ :=
      known (f := fun m => .rejoin h m) (fun _ => rfl) (fun _ => ⟨rfl, rfl⟩) run
    exact ⟨claim, errand, .inl ⟨eq, .inl record⟩⟩
  | leave h =>
    obtain ⟨claim, errand, eq, record⟩ :=
      known (f := fun _ => .leave h) (fun _ => rfl) (fun _ => ⟨rfl, rfl⟩) run
    exact ⟨claim, errand, .inl ⟨eq, .inl record⟩⟩
  | waitMembers h count timeout =>
    obtain ⟨claim, errand, eq, record⟩ :=
      known (f := fun _ => .waitMembers h count now timeout) (fun _ => rfl) (fun _ => ⟨rfl, rfl⟩) run
    exact ⟨claim, errand, .inl ⟨eq, .inl record⟩⟩
  | waitSync h point timeout =>
    obtain ⟨claim, errand, eq, record⟩ :=
      known (f := fun _ => .waitSync h point timeout) (fun _ => rfl) (fun _ => ⟨rfl, rfl⟩) run
    exact ⟨claim, errand, .inl ⟨eq, .inl record⟩⟩

structure Peer where
  client : Client
  jobs : List Job
  /-- The number of requests that were made. -/
  made : Nat
  toServer : List Request
  toClient : List Incoming
  /-- What was passed on and not taken in yet. -/
  inbox : List Handed
  /-- How far the client has come with the first of them. -/
  taking : Intake
  /-- What was taken in, the last first. -/
  heard : List Handed
  /-- What is left of taking the connection down, once that began. -/
  closing : Option Shutdown

namespace Incoming

def request? (x : Incoming) : Option Request := x.origin.map Origin.request

end Incoming

namespace Handed

def request? (x : Handed) : Option Request := x.origin.map Origin.request

end Handed

namespace Peer

def registration (id : NodeId) (numbering : Numbering) : Packet :=
  .ofMessage (numbering.draw .registerRequest).1 ⟨.null, .registerRequest id⟩

def register (id : NodeId) (config : ClientConfig) (numbering : Numbering) : Peer where
  client := (Client.create id config numbering).dial (.ok .empty)
  jobs := []
  made := 1
  toServer := [⟨0, registration id numbering⟩]
  toClient := []
  inbox := []
  taking := .fresh
  heard := []
  closing := none

/-- Begins a call. Before the registration is accepted there is no one to ask. -/
def ask (p : Peer) (now : Nat) (a : Ask) : Peer :=
  match p.client.standing, a.call? p.client now with
  | .accepted _, some (client, call) => { p with client, jobs := p.jobs ++ [⟨call, none⟩] }
  | _, _ => p

/-- The request of a call after a step, when `made` requests were made before. -/
def requestAfter (made : Nat) (request : Option Request) : Errand → Option Request
  | .none => none
  | .drafted packet => some ⟨made, packet⟩
  | .recorded _ | .awaiting _ | .cancelling _ | .ended => request

def madeAfter (made : Nat) : Errand → Nat
  | .drafted _ => made + 1
  | .none | .recorded _ | .awaiting _ | .cancelling _ | .ended => made

def sentBy (request : Option Request) : Errand → Errand → Option Request
  | .recorded packet, .awaiting _ => request.map fun r => { r with packet }
  | _, _ => none

/-- A step of a call, whatever numbers the process has drawn before and draws next. -/
def advance (p : Peer) (now : Nat) (numbering : Numbering) (j : Nat) : Peer :=
  match p.jobs[j]? with
  | none => p
  | some job =>
    match job.call.step { p.client with numbering } now with
    | none => p
    | some (client, call) =>
      let errand := call.stage.errand
      { p with
        client
        jobs := p.jobs.set j ⟨call, requestAfter p.made job.request errand⟩
        made := madeAfter p.made errand
        toServer := p.toServer ++ (sentBy job.request job.call.stage.errand errand).toList }

/-- The next packet arrives, and is passed on or dropped. -/
def correlate (p : Peer) : Peer :=
  match p.toClient, p.client.link with
  | x :: rest, some link =>
    let (delivery, pending) := link.pending.pass x.packet
    { p with
      client := { p.client with link := some { link with pending } }
      toClient := rest
      inbox := p.inbox ++ (delivery.map fun d => ⟨d, x.origin⟩).toList }
  | _, _ => p

/-- A step of taking in the next packet that was passed on. -/
def dispatch (p : Peer) : Peer :=
  match p.inbox with
  | [] => p
  | x :: rest =>
    match p.taking.step p.client x.delivery with
    | (client, some taking) => { p with client, taking }
    | (client, none) => { p with client, taking := .fresh, inbox := rest, heard := x :: p.heard }

/-- A step of taking the connection down. What has not been taken in when the connection goes
is lost. -/
def tearDown (p : Peer) : Peer :=
  let (client, left) := (p.closing.getD .stopRunning).step p.client
  { p with
    client
    toClient := if client.link.isSome then p.toClient else []
    inbox := if client.link.isSome then p.inbox else []
    closing := some left }

/-- The connection is not taken down while something is half taken in. -/
def close (p : Peer) : Peer := if p.taking = .fresh then p.tearDown else p

def serve (p : Peer) : Peer := { p with toServer := p.toServer.tail }

def hangUp (p : Peer) : Peer := { p with toServer := [] }

def arrive (p : Peer) (xs : List Incoming) : Peer :=
  if p.client.link.isSome then { p with toClient := p.toClient ++ xs } else p

/-- The requests that the server has not read and those whose responses have not been taken
in, each once for every packet. -/
def underway (p : Peer) : List Request :=
  p.toServer ++ p.toClient.filterMap Incoming.request? ++ p.inbox.filterMap Handed.request?

/-- The requests that a call or a packet still belongs to. -/
def live (p : Peer) : List Request := p.jobs.filterMap Job.request ++ p.underway

/-- No two requests of the same number are live. -/
def Apart (p : Peer) : Prop :=
  ∀ r ∈ p.live, ∀ r' ∈ p.live, r.packet.seq = r'.packet.seq → r = r'

instance (p : Peer) : Decidable p.Apart :=
  inferInstanceAs (Decidable (∀ r ∈ p.live, ∀ r' ∈ p.live, r.packet.seq = r'.packet.seq → r = r'))

end Peer
end Muster
