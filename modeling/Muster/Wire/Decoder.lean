import Muster.Bytes.Word
import Muster.Fault

/-! Reading fields from the front of a byte string. A field that cannot be read names the
cause; what was read before it stays read. -/
namespace Muster

inductive DecodeError where
  /-- A field needs more bytes than there are. -/
  | truncated (needed available : Nat)
  | invalidNodeIdLength (length : Int32)
  | invalidNodeIdEncoding
  | invalidMemberCount (count : Int32)
  | unknownCode (value : Int32)
  | unknownKind (kind : Int32)
  | trailingBytes (count : Nat)
deriving DecidableEq

def DecodeError.message : DecodeError → String
  | truncated needed available =>
    s!"Body truncated: needed {needed} more bytes, {available} available"
  | invalidNodeIdLength length => s!"Invalid node id length: {length}"
  | invalidNodeIdEncoding => "Node id is not valid UTF-8"
  | invalidMemberCount count => s!"Invalid member count: {count}"
  | unknownCode value => s!"Unknown code code: {value}"
  | unknownKind kind => s!"Unknown message kind: {kind}"
  | trailingBytes count => s!"{count} trailing bytes after body"

def DecodeError.name : DecodeError → String
  | truncated .. => "Truncated"
  | invalidNodeIdLength _ => "InvalidNodeIdLength"
  | invalidNodeIdEncoding => "InvalidNodeIdEncoding"
  | invalidMemberCount _ => "InvalidMemberCount"
  | unknownCode _ => "UnknownCode"
  | unknownKind _ => "UnknownKind"
  | trailingBytes _ => "TrailingBytes"

instance : Fault DecodeError := ⟨DecodeError.name, DecodeError.message⟩

/-- A reader of one value. Its state is what remains to be read. -/
abbrev Decoder := EStateM DecodeError Bytes

namespace Decoder

def remaining : Decoder Nat := return (← get).length

def bytes (n : Nat) : Decoder Bytes := do
  match Bytes.split? n (← get) with
  | some (front, rest) =>
    set rest
    return front
  | none => throw (.truncated n (← remaining))

def int32 : Decoder Int32 := return Bytes.toInt32 (← bytes 4)

def int64 : Decoder Int64 := return Bytes.toInt64 (← bytes 8)

def times {α : Type} (n : Nat) (d : Decoder α) : Decoder (List α) :=
  match n with
  | 0 => return []
  | n + 1 => do
    let a ← d
    return a :: (← times n d)

def runAll {α : Type} (d : Decoder α) (bs : Bytes) : Except DecodeError α :=
  match d.run bs with
  | .ok a [] => .ok a
  | .ok _ rest => .error (.trailingBytes rest.length)
  | .error e _ => .error e

end Decoder
end Muster
