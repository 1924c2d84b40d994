import Std.Data.ExtTreeMap
import Muster.Link.Frames
import Muster.Link.Stream

/-! One end of a connection. It cuts what arrives into packets, remembers the requests that
were sent until their responses arrive, and keeps output that the stream does not accept
yet. -/
namespace Muster

/-- Outstanding requests by sequence number. -/
abbrev Pending := Std.ExtTreeMap Int32 Message

structure Link where
  stream : Stream
  input : Bytes
  stage : Stage
  output : Bytes
  pending : Pending
  sent : Nat

inductive ReadEnd where
  | more | exhausted | closed
deriving DecidableEq

structure ReadRun where
  result : Except IoError ReadEnd
  delivered : List Delivery
  link : Link

namespace Pending

/-- Passes a packet on. A response goes with the request that it answers, which is then no
longer outstanding; without one it is dropped. -/
def pass (pending : Pending) (p : Packet) : Option Delivery × Pending :=
  if p.message.role = .response then
    match pending[p.seq]? with
    | some request => (some ⟨p, some request⟩, pending.erase p.seq)
    | none => (none, pending)
  else (some ⟨p, none⟩, pending)

def passAll (pending : Pending) : List (Header × Bytes) → List Delivery × Pending
  | [] => ([], pending)
  | (h, body) :: frames =>
    match Packet.ofFrame? h body with
    | none => passAll pending frames
    | some p =>
      let (first, pending) := pending.pass p
      let (later, pending) := passAll pending frames
      (first.toList ++ later, pending)

end Pending

namespace IoError

def invalidLength : IoError := ⟨.invalidData, "invalid packet length"⟩

def oversized : IoError := ⟨.invalidInput, "packet exceeds maximum size"⟩

end IoError

namespace Link

def ofStream (s : Stream) : Link := ⟨s, [], .header, [], ∅, 0⟩

/-- A single read takes at most this many bytes. -/
def readLimit : Nat := 8192

/-- Takes in bytes that were read. If a length is out of bounds the packets in front of it
are delivered all the same, but the input stays as it is. -/
def take (l : Link) (bs : Bytes) : ReadRun :=
  let input := l.input ++ bs
  let frames := Frames.cut l.stage input
  let (delivered, pending) := l.pending.passAll frames.complete
  let link := { l with stage := frames.stage, pending }
  if frames.sound then ⟨.ok .more, delivered, { link with input := frames.rest }⟩
  else ⟨.error .invalidLength, delivered, { link with input }⟩

/-- Reads once from the stream and delivers the packets that became complete. -/
def read (l : Link) : ReadRun :=
  let (result, stream) := l.stream.readUninterrupted readLimit
  let l := { l with stream }
  match result with
  | .ok [] => ⟨.ok .closed, [], l⟩
  | .ok bs => l.take bs
  | .error .wouldBlock => ⟨.ok .exhausted, [], l⟩
  | .error k => ⟨.error (.ofKind k), [], l⟩

/-- Writes output until the stream would block. -/
def flush (l : Link) : Except IoError Unit × Link :=
  let run := WriteRun.start l.stream.writes l.output
  let stream := { l.stream with writes := run.later, written := l.stream.written ++ run.accepted }
  let link := { l with stream, output := run.unsent }
  match run.result with
  | .error k => (.error (.ofKind k), link)
  | .ok () =>
    match run.unsent, stream.flushFailure with
    | [], some k => (.error (.ofKind k), link)
    | _, _ => (.ok (), link)

def cancel (l : Link) (seq : Int32) : Link := { l with pending := l.pending.erase seq }

def isPending (l : Link) (seq : Int32) : Bool := l.pending.contains seq

/-- Puts a packet behind the output. A request becomes outstanding. -/
def enqueue (l : Link) (p : Packet) : Link where
  stream := l.stream
  input := l.input
  stage := l.stage
  output := l.output ++ p.encode
  pending := if p.message.role = .request then l.pending.insert p.seq p.message else l.pending
  sent := l.sent + 1

/-- Sends a packet, unless it is too large, and writes as much output as possible. After a
failure nothing is outstanding under the packet's number. -/
def send (l : Link) (p : Packet) : Except IoError Unit × Link :=
  if p.Fits then
    match (l.enqueue p).flush with
    | (.ok (), l) => (.ok (), l)
    | (.error e, l) => (.error e, l.cancel p.seq)
  else (.error .oversized, l)

/-- Reads until nothing more is there, but no more than `fuel` times. -/
def readMany : Nat → Link → Nat × ReadRun
  | 0, l => (0, ⟨.ok .more, [], l⟩)
  | fuel + 1, l =>
    let run := l.read
    match run.result with
    | .ok .more =>
      let (count, later) := readMany fuel run.link
      (count + 1, { later with delivered := run.delivered ++ later.delivered })
    | _ => (1, run)

/-- At most this many reads find something among what arrived. -/
def readsOf : List Arrival → Nat
  | [] => 0
  | .data bs :: rest => bs.length / readLimit + 1 + readsOf rest
  | .failure _ :: rest => 1 + readsOf rest

/-- Reads until nothing more is there: one read finds the end. Counts the reads. -/
def drain (l : Link) : Nat × ReadRun := l.readMany (readsOf l.stream.arrivals + 1)

end Link
end Muster
