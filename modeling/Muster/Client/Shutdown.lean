import Muster.Client.Basic

/-! Taking down a client's connection. The steps may be interleaved with those of callers;
each of them is one change of the shared state. -/
namespace Muster

/-- What is still to be done. -/
inductive Shutdown where
  | stopRunning
  | dropLink
  | loseRegistration
  | listGroups
  | loseGroups (handles : List Handle)
  | finished
deriving DecidableEq

/-- A registration that is not answered yet never will be. -/
def Client.loseRegistration (c : Client) : Client :=
  match c.standing with
  | .pending => { c with standing := .lost }
  | _ => c

namespace Shutdown

def step (c : Client) : Shutdown → Client × Shutdown
  | stopRunning => ({ c with running := false }, dropLink)
  | dropLink => ({ c with link := none }, loseRegistration)
  | loseRegistration => (c.loseRegistration, listGroups)
  | listGroups => (c, loseGroups c.groups.values)
  | loseGroups [] => (c, finished)
  | loseGroups (h :: rest) => (c.update h Membership.connectionLost, loseGroups rest)
  | finished => (c, finished)

end Shutdown

namespace Client

/-- All steps of taking down the connection, with nothing in between. -/
def shutdown (c : Client) : Client :=
  let c := { c with running := false, link := none }.loseRegistration
  c.groups.values.foldl (fun c h => c.update h Membership.connectionLost) c

/-- Takes down the connection of a client that runs. -/
def stop (c : Client) : Client := if c.running then c.shutdown else c

end Client
end Muster
