import Muster.Wire.Decoder
import Muster.Wire.Message

/-! Reading the fields of a body, in their order, and of a whole message of a known kind. -/
namespace Muster.Decoder

def nodeId : Decoder NodeId := do
  let length ← int32
  if length < 1 ∨ length > 32 then throw (.invalidNodeIdLength length)
  let bs ← bytes length.toInt.toNat
  match String.fromUTF8? ⟨bs.toArray⟩ with
  | some text =>
    match NodeId.ofText text with
    | .ok id => return id
    | .error _ => throw (.invalidNodeIdLength length)
  | none => throw .invalidNodeIdEncoding

def token : Decoder Token := do
  let bs ← bytes Token.size
  match Token.ofBytes? bs with
  | some t => return t
  | none => throw (.truncated Token.size bs.length)

def code (α : Type) [Code α] : Decoder α := do
  let n ← int32
  match Code.ofNumber? n with
  | some c => return c
  | none => throw (.unknownCode n)

/-- A counted list of names. Each name takes five bytes at least, so a count that cannot be
met is refused before any name is read. -/
def members : Decoder (List NodeId) := do
  let count ← int32
  if count < 0 ∨ count.toInt.toNat * 5 > (← remaining) then throw (.invalidMemberCount count)
  times count.toInt.toNat nodeId

def group : Decoder GroupRef := return ⟨← nodeId, ← token⟩

def terms : Decoder SyncTerms := return ⟨← int64, ← nodeId⟩

def body : Kind → Decoder Body
  | .registerRequest => return .registerRequest (← nodeId)
  | .registerResponse => return .registerResponse (← token) (← code RegisterCode)
  | .joinRequest => return .joinRequest (← group)
  | .joinResponse => return .joinResponse (← group) (← code JoinCode)
  | .membershipNotice =>
    return .membershipNotice (← group) (← members) (← code MembershipCode)
  | .leaveRequest => return .leaveRequest (← group)
  | .leaveResponse => return .leaveResponse (← group) (← code LeaveCode)
  | .syncRequest => return .syncRequest (← group) (← terms)
  | .syncResponse =>
    return .syncResponse (← group) (← members) (← terms) (← code SyncCode)
  | .progressNotice =>
    return .progressNotice (← group) (← members) (← nodeId) (← code ProgressCode)

def message (k : Kind) : Decoder Message := return ⟨← token, ← body k⟩

end Muster.Decoder

namespace Muster.Message

/-- The message of a kind, given by its number, that a whole body writes. -/
def decode (kind : Int32) (bs : Bytes) : Except DecodeError Message :=
  match Kind.ofNumber? kind with
  | some k => (Decoder.message k).runAll bs
  | none => .error (.unknownKind kind)

end Muster.Message
