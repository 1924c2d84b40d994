import Muster.Client.Connection
import Muster.Proofs.Client.Intake
import Muster.Proofs.Directory.Generation
import Muster.Proofs.Network.Claims
import Muster.Proofs.Wire.Sequence

/-! Several threads that use one client, its network side, and the end of its connection. Each
step is one look at the shared state or one change of it, and the steps follow each other in any
order. A record is changed as a whole; how its parts change, each under its own lock, is told by
the slots of a record. Whatever comes in may be delivered, and the network side may end at any time
but while it takes something in. -/
namespace Muster

/-- What a start that looks at the registration leaves of it. -/
def Standing.look (s : Standing) (outOfTime : Bool) : Standing :=
  match s with
  | accepted token => accepted token
  | pending => if outOfTime then lost else pending
  | idle | rejected _ | connectFailed _ | lost => lost

theorem Standing.pending_of_look {s : Standing} {outOfTime : Bool}
    (pending : s.look outOfTime = .pending) : s = .pending := by
  cases s with
  | pending => rfl
  | accepted _ | idle | rejected _ | connectFailed _ | lost => exact nomatch pending

namespace Client

def lookStart (c : Client) (outOfTime : Bool) : Client :=
  { c with standing := c.standing.look outOfTime }

/-- A start that fails takes down the connection after its last look. -/
theorem startResult_client {c c' : Client} {outOfTime : Bool}
    {result : Except StartClientError Unit} (ended : c.startResult outOfTime = some (result, c')) :
    c' = match result with
      | .ok () => c.lookStart outOfTime
      | .error _ => (c.lookStart outOfTime).shutdown := by
  obtain ⟨id, config, standing, running, link, groups, records, numbering⟩ := c
  unfold startResult at ended
  unfold lookStart
  cases standing with
  | pending =>
    cases outOfTime with
    | false => exact nomatch ended
    | true =>
      obtain ⟨rfl, rfl⟩ := Prod.mk.inj (Option.some.inj ended)
      rfl
  | rejected code =>
    cases code <;>
    · obtain ⟨rfl, rfl⟩ := Prod.mk.inj (Option.some.inj ended)
      rfl
  | idle | accepted _ | connectFailed _ | lost =>
    obtain ⟨rfl, rfl⟩ := Prod.mk.inj (Option.some.inj ended)
    rfl

def askRegistration (c : Client) (numbering : Numbering) : Client :=
  let (seq, numbering) := numbering.draw .registerRequest
  (Client.send { c with numbering } (.ofMessage seq ⟨.null, .registerRequest c.id⟩)).2

end Client

structure Threads where
  client : Client
  calls : List Call
  /-- What is left of taking the connection down. There is a network side until that begins. -/
  closing : Option Shutdown
  /-- What the network side takes in, and how far it has come. -/
  intake : Option (Delivery × Intake)

namespace Threads

inductive Action where
  | ask (a : Ask)
  /-- A step of a call, whatever numbers the process has drawn before and draws next. -/
  | advance (j : Nat) (numbering : Numbering)
  | start
  /-- A start looks at the registration. -/
  | look (outOfTime : Bool)
  /-- The network side is told to end. -/
  | halt
  | connect (stream : Stream)
  | refuse (e : IoError)
  | register (numbering : Numbering)
  /-- The network side reads or writes. -/
  | exchange (link : Link)
  /-- The network side turns to a packet that was passed on. -/
  | receive (d : Delivery)
  /-- A step of taking it in. -/
  | take
  /-- A step of taking the connection down. -/
  | close

def create (id : NodeId) (config : ClientConfig) (numbering : Numbering) : Threads :=
  ⟨.create id config numbering, [], some .finished, none⟩

/-- A change that only the network side makes, when it takes nothing in. -/
def network (t : Threads) (change : Client → Client) : Threads :=
  match t.closing, t.intake with
  | none, none => { t with client := change t.client }
  | _, _ => t

def act (t : Threads) (now : Nat) : Action → Threads
  | .ask a =>
    match a.call? t.client now with
    | some (client, call) => { t with client, calls := t.calls ++ [call] }
    | none => t
  | .advance j numbering =>
    match t.calls[j]? with
    | none => t
    | some call =>
      match call.step { t.client with numbering } now with
      | none => t
      | some (client, call) => { t with client, calls := t.calls.set j call }
  | .start =>
    if t.closing = some .finished then
      { t with client := t.client.beginRegistration, closing := none }
    else t
  | .look outOfTime => { t with client := t.client.lookStart outOfTime }
  | .halt => { t with client := { t.client with running := false } }
  | .connect stream => t.network fun c => { c with link := some (.ofStream stream) }
  | .refuse e => t.network fun c => { c with standing := .connectFailed e }
  | .register numbering => t.network fun c => c.askRegistration numbering
  | .exchange link => t.network fun c => { c with link := c.link.map fun _ => link }
  | .receive d =>
    match t.closing, t.intake with
    | none, none => { t with intake := some (d, .fresh) }
    | _, _ => t
  | .take =>
    match t.closing, t.intake with
    | none, some (d, s) =>
      let (client, next) := s.step t.client d
      { t with client, intake := next.map fun s => (d, s) }
    | _, _ => t
  | .close =>
    match t.intake with
    | none =>
      let (client, left) := (t.closing.getD .stopRunning).step t.client
      { t with client, closing := some left }
    | some _ => t

/-- The network side has looked up the record, and may still change it. -/
def Holds (t : Threads) (k : Handle) : Prop := ∃ x ∈ t.intake, x.2.handle? = some k

structure Episode where
  now : Nat
  action : Action
  before : Threads
  after : Threads

inductive History (first : Threads) : List Episode → Threads → Prop where
  | start : History first [] first
  | act {past : List Episode} {t : Threads} (now : Nat) (a : Action) (run : History first past t) :
      History first (⟨now, a, t, t.act now a⟩ :: past) (t.act now a)

def play (first : Threads) : List (Nat × Action) → List Episode × Threads
  | [] => ([], first)
  | (now, a) :: earlier =>
    let (past, t) := play first earlier
    (⟨now, a, t, t.act now a⟩ :: past, t.act now a)

theorem History.play (first : Threads) (actions : List (Nat × Action)) :
    History first (play first actions).1 (play first actions).2 := by
  induction actions with
  | nil => exact .start
  | cons x actions ih => exact .act x.1 x.2 ih

def samplePlay (steps : List (Nat × Action)) : List Episode × Threads :=
  play (.create Directory.sampleMember .standard (.ofSeed 0)) steps.reverse

def sampleStart : List (Nat × Action) :=
  [(0, .start), (0, .connect .empty), (0, .register (Numbering.rolling 0)),
    (0, .receive ⟨.ofMessage 0 ⟨.ofByte 9, .registerResponse (.ofByte 5) .accepted⟩,
      some ⟨.null, .registerRequest Directory.sampleMember⟩⟩), (0, .take)]

def sampleAsk : Nat × Action := (0, .ask (.join Directory.sampleRef.id (.ofByte 7)))

def sampleSteps (now j steps : Nat) : List (Nat × Action) :=
  .replicate steps (now, .advance j (Numbering.rolling j))

inductive Turn (t : Threads) (now : Nat) : Action → Threads → Prop where
  /-- Nothing happens to the groups. Without a network side nothing happens to the link, and only
  a start asks for a registration. -/
  | aside {a : Action} {t' : Threads} (records : t'.client.records = t.client.records)
      (groups : t'.client.groups = t.client.groups) (calls : t'.calls = t.calls)
      (holds : ∀ k, t'.Holds k → t.Holds k)
      (down : t'.closing = none ∨ t'.closing = t.closing ∧
        (t.closing ≠ none → t'.client.link = t.client.link ∧
          (t'.client.standing = .pending → t.client.standing = .pending))) : Turn t now a t'
  | ask {a : Ask} {client : Client} {call : Call}
      (run : a.call? t.client now = some (client, call)) :
      Turn t now (.ask a) ⟨client, t.calls ++ [call], t.closing, t.intake⟩
  | advance {j : Nat} {numbering : Numbering} {call call' : Call} {client : Client}
      (here : t.calls[j]? = some call)
      (run : call.step { t.client with numbering } now =
        some (client, call')) :
      Turn t now (.advance j numbering) ⟨client, t.calls.set j call', t.closing, t.intake⟩
  | take {d : Delivery} {s : Intake} (up : t.closing = none) (turned : t.intake = some (d, s)) :
      Turn t now .take ⟨(s.step t.client d).1, t.calls, t.closing,
        (s.step t.client d).2.map fun s => (d, s)⟩
  | close {client : Client} {left : Shutdown}
      (run : (t.closing.getD .stopRunning).step t.client = (client, left)) :
      Turn t now .close ⟨client, t.calls, some left, t.intake⟩

section
variable {t : Threads} {now : Nat}

theorem Turn.rest (a : Action) : Turn t now a t :=
  .aside rfl rfl rfl (fun _ => id) (.inr ⟨rfl, fun _ => ⟨rfl, id⟩⟩)

theorem Turn.network {a : Action} (change : Client → Client)
    (records : (change t.client).records = t.client.records)
    (groups : (change t.client).groups = t.client.groups) : Turn t now a (t.network change) := by
  unfold Threads.network
  split
  · rename_i up _
    exact .aside records groups rfl (fun _ => id) (.inr ⟨rfl, fun down => absurd up down⟩)
  · exact .rest a

theorem act_turn (t : Threads) (now : Nat) (a : Action) : Turn t now a (t.act now a) := by
  cases a with
  | ask a =>
    unfold act
    dsimp only
    split
    · rename_i run
      exact .ask run
    · exact .rest _
  | advance j numbering =>
    unfold act
    dsimp only
    split
    · exact .rest _
    · rename_i here
      split
      · exact .rest _
      · rename_i run
        exact .advance here run
  | start =>
    unfold act
    dsimp only
    split
    · exact .aside rfl rfl rfl (fun _ => id) (.inl rfl)
    · exact .rest _
  | look outOfTime =>
    exact .aside rfl rfl rfl (fun _ => id)
      (.inr ⟨rfl, fun _ => ⟨rfl, Standing.pending_of_look⟩⟩)
  | halt => exact .aside rfl rfl rfl (fun _ => id) (.inr ⟨rfl, fun _ => ⟨rfl, id⟩⟩)
  | connect stream => exact .network (fun c => { c with link := some (.ofStream stream) }) rfl rfl
  | refuse e => exact .network (fun c => { c with standing := .connectFailed e }) rfl rfl
  | register numbering =>
    exact .network (fun c => c.askRegistration numbering) (Client.send_records _ _)
      (Client.send_groups _ _)
  | exchange link =>
    exact .network (fun c => { c with link := c.link.map fun _ => link }) rfl rfl
  | receive d =>
    unfold act
    dsimp only
    split
    · rename_i up _
      refine .aside rfl rfl rfl ?_ (.inl up)
      rintro k ⟨x, turned, handle⟩
      obtain rfl := Option.some.inj turned
      exact nomatch handle
    · exact .rest _
  | take =>
    unfold act
    dsimp only
    split
    · rename_i up turned
      exact .take up turned
    · exact .rest _
  | close =>
    unfold act
    dsimp only
    split
    · exact .close rfl
    · exact .rest _

end

end Threads
end Muster
