import Muster.Client.Shutdown

/-! The connection of a client: how it is made, what comes in on it, and what a start comes
to. -/
namespace Muster.Client

def beginRegistration (c : Client) : Client := { c with standing := .pending, running := true }

def failConnect (c : Client) (e : IoError) : Client :=
  { c with standing := .connectFailed e }.shutdown

def connected (c : Client) (stream : Stream) : Client :=
  let c := { c with link := some (.ofStream stream) }
  let m : Message := ⟨.null, .registerRequest c.id⟩
  let (seq, numbering) := c.numbering.draw m.kind
  let (result, c) := { c with numbering }.send (.ofMessage seq m)
  match result with
  | .ok () => c
  | .error _ => c.shutdown

/-- Begins to register, with what came of asking for a connection. -/
def dial (c : Client) (stream : Except IoError Stream) : Client :=
  match stream with
  | .ok s => c.beginRegistration.connected s
  | .error e => c.beginRegistration.failConnect e

/-- Writes what waits to be written and takes in what has come. A stream that fails or is at
its end takes the connection down, and so does a registration that is refused. -/
def service (c : Client) : Client :=
  match c.link.map Link.flush with
  | none => c.shutdown
  | some (.error _, link) => { c with link := some link }.shutdown
  | some (.ok (), link) =>
    let (_, run) := link.drain
    let c := { c with link := some run.link }.receiveAll run.delivered
    match run.result with
    | .error _ | .ok .closed => c.shutdown
    | .ok _ => if c.running then c else c.shutdown

/-- What a start comes to, once it can be told or the time is over. A start that fails
leaves no registration behind. -/
def startResult (c : Client) (outOfTime : Bool) :
    Option (Except StartClientError Unit × Client) :=
  let fail (e : StartClientError) := some (.error e, { c with standing := .lost }.shutdown)
  match c.standing with
  | .accepted _ => some (.ok (), c)
  | .pending => if outOfTime then fail .timeout else none
  | .rejected .serverFull => fail .serverFull
  | .rejected _ => fail .idInUse
  | .connectFailed e => fail (.connect e)
  | .idle | .lost => fail .connectionLost

/-- When a start that begins now has run out of time. -/
def startDeadline (c : Client) (now : Nat) : Nat :=
  now + Duration.add c.config.connectTimeout c.config.registerTimeout

end Muster.Client
