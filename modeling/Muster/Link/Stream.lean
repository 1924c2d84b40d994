import Muster.Bytes.BigEndian
import Muster.Fault

/-! A byte stream that is never waited for, as its two sides see it: what arrives and in
which pieces, how much of a write is accepted, and which operations fail. -/
namespace Muster

inductive IoKind where
  | interrupted | wouldBlock | connectionReset | connectionAborted | connectionRefused
  | notConnected | brokenPipe | unexpectedEof | writeZero | timedOut | networkUnreachable
  | invalidData | invalidInput | other
deriving DecidableEq

namespace IoKind

def all : List IoKind :=
  [interrupted, wouldBlock, connectionReset, connectionAborted, connectionRefused,
    notConnected, brokenPipe, unexpectedEof, writeZero, timedOut, networkUnreachable,
    invalidData, invalidInput, other]

def name : IoKind → String
  | interrupted => "Interrupted"
  | wouldBlock => "WouldBlock"
  | connectionReset => "ConnectionReset"
  | connectionAborted => "ConnectionAborted"
  | connectionRefused => "ConnectionRefused"
  | notConnected => "NotConnected"
  | brokenPipe => "BrokenPipe"
  | unexpectedEof => "UnexpectedEof"
  | writeZero => "WriteZero"
  | timedOut => "TimedOut"
  | networkUnreachable => "NetworkUnreachable"
  | invalidData => "InvalidData"
  | invalidInput => "InvalidInput"
  | other => "Other"

def ofName? (s : String) : Option IoKind := all.find? fun k => k.name == s

/-- What is said of an error of which only the kind is known. -/
def description : IoKind → String
  | interrupted => "operation interrupted"
  | wouldBlock => "operation would block"
  | connectionReset => "connection reset"
  | connectionAborted => "connection aborted"
  | connectionRefused => "connection refused"
  | notConnected => "not connected"
  | brokenPipe => "broken pipe"
  | unexpectedEof => "unexpected end of file"
  | writeZero => "write zero"
  | timedOut => "timed out"
  | networkUnreachable => "network unreachable"
  | invalidData => "invalid data"
  | invalidInput => "invalid input parameter"
  | other => "other error"

end IoKind

structure IoError where
  kind : IoKind
  message : String
deriving DecidableEq

namespace IoError

def ofKind (k : IoKind) : IoError := ⟨k, k.description⟩

/-- No way leads to the other machine. -/
def unreachable : IoError := ⟨.networkUnreachable, "Network is unreachable (os error 101)"⟩

end IoError

instance : Fault IoError := ⟨fun e => e.kind.name, IoError.message⟩

/-- One thing that a reader of the stream meets. -/
inductive Arrival where
  /-- Bytes that a single read does not go beyond. -/
  | data (bs : Bytes)
  | failure (k : IoKind)
deriving DecidableEq

/-- The pieces of a positive size that bytes are cut into. The last may be shorter. -/
def Bytes.pieces (size : Nat) (bs : Bytes) : List Bytes :=
  if 0 < size ∧ bs ≠ [] then bs.take size :: pieces size (bs.drop size) else []
termination_by bs.length
decreasing_by
  have := List.length_pos_iff.mpr (And.right ‹_›)
  rw [List.length_drop]
  omega

inductive WriteStep where
  | accept (limit : Nat)
  | failure (k : IoKind)
deriving DecidableEq

structure Stream where
  arrivals : List Arrival
  /-- Whether the other side has closed the stream after what it sent. -/
  closed : Bool
  /-- What the next writes do; later ones accept everything. -/
  writes : List WriteStep
  flushFailure : Option IoKind
  /-- All bytes that were accepted. -/
  written : Bytes
deriving DecidableEq

namespace Stream

def empty : Stream := ⟨[], false, [], none, []⟩

/-- What the other side sends as one piece arrives as one. -/
def feed (s : Stream) (pieces : List Bytes) : Stream :=
  { s with arrivals := s.arrivals ++ pieces.map .data }

/-- After what arrived so far, one read fails. -/
def failRead (s : Stream) (k : IoKind) : Stream :=
  { s with arrivals := s.arrivals ++ [.failure k] }

/-- Settles what further writes do, after those for which that is settled. -/
def planWrites (s : Stream) (steps : List WriteStep) : Stream :=
  { s with writes := s.writes ++ steps }

/-- Reads at most `limit` bytes. No bytes mean that the stream is at its end. -/
def read (s : Stream) (limit : Nat) : Except IoKind Bytes × Stream :=
  match s.arrivals with
  | [] => (if s.closed then .ok [] else .error .wouldBlock, s)
  | .failure k :: rest => (.error k, { s with arrivals := rest })
  | .data bs :: rest =>
    if bs.length ≤ limit then (.ok bs, { s with arrivals := rest })
    else (.ok (bs.take limit), { s with arrivals := .data (bs.drop limit) :: rest })

/-- Reads again after every interruption. -/
def readUninterrupted (s : Stream) (limit : Nat) : Except IoKind Bytes × Stream :=
  let arrivals := s.arrivals.dropWhile (· == .failure .interrupted)
  read { s with arrivals } limit

end Stream

/-- How an attempt to write everything ended, what was accepted, what is left, and what
later writes do. -/
structure WriteRun where
  result : Except IoKind Unit
  accepted : Bytes
  unsent : Bytes
  later : List WriteStep

/-- Writes until everything is accepted, the stream would block, or a write fails. Writes
that are interrupted are repeated; one that accepts nothing is a failure. -/
def WriteRun.start : List WriteStep → Bytes → WriteRun
  | steps, [] => ⟨.ok (), [], [], steps⟩
  | [], out => ⟨.ok (), out, [], []⟩
  | .accept n :: steps, out =>
    if n = 0 then ⟨.error .writeZero, [], out, steps⟩
    else
      let run := start steps (out.drop n)
      { run with accepted := out.take n ++ run.accepted }
  | .failure .wouldBlock :: steps, out => ⟨.ok (), [], out, steps⟩
  | .failure .interrupted :: steps, out => start steps out
  | .failure k :: steps, out => ⟨.error k, [], out, steps⟩

end Muster
