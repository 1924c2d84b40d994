import Muster.Client.Basic
import Muster.Client.MemberCount

/-! Calls that wait: joining and leaving a group, waiting for members, and meeting at a sync
point. A call goes through stages. Each step from one stage to the next is a single look at
the shared state or a single change of it, so the steps of several calls and of the network
side may follow each other in any order. -/
namespace Muster

/-- What a call that keeps other joins and leaves of the group out is after. -/
inductive Goal where
  | join (token : Token)
  | leave
deriving DecidableEq

inductive Outcome where
  | joined (result : Except JoinError Unit)
  | left (result : Except LeaveError Unit)
  | waited (result : Except SyncError Bool)

/-- What a call does next. -/
inductive CallStage where
  | enter (goal : Goal)
  | lookJoined (token : Token)
  | lookLeft (goal : Goal)
  | draftLeave (goal : Goal)
  | recordLeave (goal : Goal) (p : Packet)
  | sendLeave (goal : Goal) (p : Packet)
  | abandonLeave (goal : Goal) (e : SendError)
  | awaitLeave (goal : Goal) (seq : Int32) (deadline : Nat)
  | cancelLeave (goal : Goal) (seq : Int32) (reply : Option Reply)
  | judgeLeave (goal : Goal)
  | draftJoin (token : Token)
  | recordJoin (token : Token) (p : Packet)
  | sendJoin (p : Packet)
  | abandonJoin (e : SendError)
  | awaitJoin (seq : Int32) (deadline : Nat)
  | cancelJoin (seq : Int32)
  | exit (outcome : Outcome)
  | lookForget (e : JoinError)
  | forget (e : JoinError)
  | lookMembers (count : MemberCount) (deadline : Nat)
  | awaitMembers (count : MemberCount) (deadline : Nat)
  | enterSync (point : NodeId) (timeout : Nat)
  | draftSync (point : NodeId) (timeout : Nat)
  | recordSync (p : Packet) (timeout : Nat)
  | sendSync (p : Packet) (timeout : Nat)
  | awaitSync (seq : Int32) (deadline : Nat)
  | cancelSync (seq : Int32) (outcome : SyncOutcome)
  | exitSync (result : Except SyncError Bool)
  | done (outcome : Outcome)

namespace CallStage

/-- After the group was left: the end of the call, or the join for which it was left. -/
def afterLeave : Goal → CallStage
  | .leave => exit (.left (.ok ()))
  | .join token => draftJoin token

def failLeave (e : LeaveError) : Goal → CallStage
  | .leave => exit (.left (.error e))
  | .join _ => exit (.joined (.error (.leave e)))

/-- After the reply to a join request. A reply to leaving is none of its own. -/
def afterJoinReply (seq : Int32) : Reply → CallStage
  | .join .accepted => exit (.joined (.ok ()))
  | .join .groupFull => exit (.joined (.error .groupFull))
  | .join .authenticationFailure => exit (.joined (.error .authenticationFailed))
  | .lost => exit (.joined (.error .notConnected))
  | .leave => cancelJoin seq

/-- What a wait at a sync point comes to. -/
def syncResult : SyncOutcome → Except SyncError Bool
  | .success => .ok true
  | .timeout | .left => .ok false
  | .expired => .error .expired
  | .rejected => .error .authenticationFailed

/-- A wait for members that cannot end yet gives nothing. -/
def countMembers (m : Membership) (count : MemberCount) (outOfTime : Bool) : Option Bool :=
  match m.members with
  | none => some false
  | some ids =>
    if count.holds ids.size then some true else if outOfTime then some false else none

end CallStage

structure Call where
  handle : Handle
  /-- Whether the call made the record. It is forgotten if the call then fails. -/
  created : Bool
  stage : CallStage

namespace Call
open CallStage

def join (handle : Handle) (created : Bool) (token : Token) : Call :=
  ⟨handle, created, .enter (.join token)⟩

/-- Joins with the token of the last join. -/
def rejoin (handle : Handle) (m : Membership) : Call := join handle false m.token

def leave (handle : Handle) : Call := ⟨handle, false, .enter .leave⟩

def waitMembers (handle : Handle) (count : MemberCount) (now timeout : Nat) : Call :=
  ⟨handle, false, .lookMembers count (now + timeout)⟩

def waitSync (handle : Handle) (point : NodeId) (timeout : Nat) : Call :=
  ⟨handle, false, .enterSync point timeout⟩

def deadline? (call : Call) : Option Nat :=
  match call.stage with
  | .awaitLeave _ _ deadline | .awaitJoin _ deadline | .awaitMembers _ deadline
  | .awaitSync _ deadline => some deadline
  | _ => none

def outcome? (call : Call) : Option Outcome :=
  match call.stage with
  | .done outcome => some outcome
  | _ => none

def syncBody (m : Membership) (point : NodeId) (timeout : Nat) : Body :=
  .syncRequest m.ref ⟨Duration.toWire timeout, point⟩

/-- One step from a stage that never waits, or that need not wait any longer. -/
def advance (c : Client) (now : Nat) (h : Handle) (created : Bool) (m : Membership) :
    CallStage → Option (Client × CallStage)
  | .enter goal =>
    if m.busy then none
    else
      let c := c.update h fun m => { m with busy := true }
      match goal with
      | .join token => some (c, .lookJoined token)
      | .leave => some (c, .lookLeft goal)
  | .lookJoined token =>
    if !m.isJoined then some (c, .draftJoin token)
    else if m.token = token then some (c, .exit (.joined (.ok ())))
    else some (c, .lookLeft (.join token))
  | .lookLeft goal => some (c, if m.isJoined then .draftLeave goal else afterLeave goal)
  | .draftLeave goal =>
    let (p, c) := c.draft (.leaveRequest m.ref)
    some (c, .recordLeave goal p)
  | .recordLeave goal p =>
    some (c.update h fun m => { m with exchange := .awaiting p.seq }, .sendLeave goal p)
  | .sendLeave goal p =>
    match c.send p with
    | (.ok (), c) => some (c, .awaitLeave goal p.seq (now + c.config.groupMessageTimeout))
    | (.error e, c) => some (c, .abandonLeave goal e)
  | .abandonLeave goal e =>
    some (c.update h fun m => { m with exchange := m.exchange.forget }, failLeave (.ofSend e) goal)
  | .awaitLeave goal seq deadline =>
    match m.takeReply seq with
    | (some reply, m) => some (c.update h fun _ => m, .cancelLeave goal seq (some reply))
    | (none, left) =>
      if m.isJoined ∧ now < deadline then none
      else some (c.update h fun _ => left, .cancelLeave goal seq none)
  | .cancelLeave goal seq reply =>
    match reply with
    | some .leave | some .lost => some (c.cancel seq, afterLeave goal)
    | _ => some (c.cancel seq, .judgeLeave goal)
  | .judgeLeave goal =>
    some (c, if m.isJoined then failLeave .timeout goal else afterLeave goal)
  | .draftJoin token =>
    let (p, c) := c.draft (.joinRequest ⟨m.id, token⟩)
    some (c, .recordJoin token p)
  | .recordJoin token p =>
    some (c.update h fun m => { m with token, exchange := .awaiting p.seq }, .sendJoin p)
  | .sendJoin p =>
    match c.send p with
    | (.ok (), c) => some (c, .awaitJoin p.seq (now + c.config.groupMessageTimeout))
    | (.error e, c) => some (c, .abandonJoin e)
  | .abandonJoin e =>
    some (c.update h fun m => { m with exchange := m.exchange.forget },
      .exit (.joined (.error (.ofSend e))))
  | .awaitJoin seq deadline =>
    match m.takeReply seq with
    | (some reply, m) => some (c.update h fun _ => m, afterJoinReply seq reply)
    | (none, m) => if now < deadline then none else some (c.update h fun _ => m, .cancelJoin seq)
  | .cancelJoin seq => some (c.cancel seq, .exit (.joined (.error .timeout)))
  | .exit outcome =>
    let c := c.update h fun m => { m with busy := false }
    match outcome with
    | .joined (.error e) => some (c, if created then .lookForget e else .done outcome)
    | _ => some (c, .done outcome)
  | .lookForget e =>
    some (c, if m.isJoined then .done (.joined (.error e)) else .forget e)
  | .forget e => some (c.forget h, .done (.joined (.error e)))
  | .lookMembers count deadline =>
    if m.isJoined then
      match countMembers m count (deadline ≤ now) with
      | some result => some (c, .done (.waited (.ok result)))
      | none => some (c, .awaitMembers count deadline)
    else some (c, .done (.waited (.error .notJoined)))
  | .awaitMembers count deadline =>
    (countMembers m count (deadline ≤ now)).map fun result => (c, .done (.waited (.ok result)))
  | .enterSync point timeout =>
    if !m.isJoined then some (c, .done (.waited (.error .notJoined)))
    else if m.wait.isSome then some (c, .done (.waited (.error .alreadyWaiting)))
    else
      some (c.update h fun m => { m with wait := some (.begin point) }, .draftSync point timeout)
  | .draftSync point timeout =>
    let (p, c) := c.draft (syncBody m point timeout)
    some (c, .recordSync p timeout)
  | .recordSync p timeout =>
    some (c.update h fun m => { m with wait := m.wait.map fun w => { w with seq := some p.seq } },
      .sendSync p timeout)
  | .sendSync p timeout =>
    match c.send p with
    | (.ok (), c) =>
      some (c, .awaitSync p.seq (now + Duration.add timeout c.config.syncExtraLatency))
    | (.error e, c) => some (c, .exitSync (.error (.ofSend e)))
  | .awaitSync seq deadline =>
    match m.wait.bind SyncWait.outcome with
    | some outcome => some (c, .cancelSync seq outcome)
    | none => if now < deadline then none else some (c, .cancelSync seq .timeout)
  | .cancelSync seq outcome => some (c.cancel seq, .exitSync (syncResult outcome))
  | .exitSync result =>
    some (c.update h fun m => { m with wait := none }, .done (.waited result))
  | .done _ => none

/-- One step of a call, unless it has to wait or is over. -/
def step (c : Client) (now : Nat) (call : Call) : Option (Client × Call) := do
  let m ← c.records[call.handle]?
  let (c, stage) ← advance c now call.handle call.created m call.stage
  return (c, { call with stage })

/-- Goes on until the call has to wait or is over, for at most `fuel` steps. -/
def runMany (now : Nat) : Nat → Client → Call → Client × Call
  | 0, c, call => (c, call)
  | fuel + 1, c, call =>
    match call.step c now with
    | none => (c, call)
    | some (c, call) => runMany now fuel c call

/-- Goes on until the call has to wait or is over. No call has as many steps as there are
stages. -/
def run (c : Client) (now : Nat) (call : Call) : Client × Call := runMany now 30 c call

/-- Goes on while nothing comes in from the network, so that a call that has to wait runs
out of time. -/
def runAlone (c : Client) (now : Nat) (call : Call) : Client × Call :=
  let (c, call) := call.run c now
  match call.deadline? with
  | some deadline => call.run c deadline
  | none => (c, call)

end Call
end Muster
