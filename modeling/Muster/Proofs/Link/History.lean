import Muster.Proofs.Link.Conduit

/-! What can happen to a link: packets are sent, output is flushed, requests are given up and
whatever has arrived is read, in any order. The stream may do anything at any time. -/
namespace Muster

/-- What a link comes to know of, one packet at a time. -/
inductive Link.Episode where
  | sent (p : Packet) (result : Except IoError Unit)
  | cancelled (seq : Int32)
  /-- A read got these bytes from the stream. -/
  | took (bs : Bytes)
  /-- A packet was cut from what was read, and passed on unless it was dropped. -/
  | parsed (p : Packet) (passed : Option Delivery)

def Pending.episodes : Pending → List Packet → List Link.Episode
  | _, [] => []
  | pending, p :: ps => .parsed p (pending.pass p).1 :: episodes (pending.pass p).2 ps

namespace Link

def arriving (l : Link) : Bytes :=
  match (l.stream.readUninterrupted readLimit).1 with
  | .ok bs => bs
  | .error _ => []

def parsed (l : Link) : List Packet :=
  if l.arriving = [] then []
  else Transcript.ofFrames (Frames.cut l.stage (l.input ++ l.arriving)).complete

end Link

def Deed.episodes : Deed → Link → List Link.Episode
  | send p, l => [.sent p (l.send p).1]
  | flush, _ => []
  | cancel seq, _ => [.cancelled seq]
  | read, l => .took l.arriving :: l.pending.episodes l.parsed

namespace Link

inductive History (first : Stream) : List Episode → Link → Prop where
  | start : History first [] (.ofStream first)
  | act {past : List Episode} {l : Link} (d : Deed) (run : History first past l) :
      History first (past ++ d.episodes l) (d.perform l)
  /-- From here on the stream does something else with reads and writes. -/
  | stream {past : List Episode} {l : Link} {s : Stream} (run : History first past l)
      (same : s.written = l.stream.written) : History first past { l with stream := s }

theorem read_arriving (l : Link) : ∃ stream, stream.written = l.stream.written ∧
    (l.arriving = [] ∧ l.read.delivered = [] ∧ l.read.link = { l with stream } ∨
      l.arriving ≠ [] ∧ l.read = { l with stream }.take l.arriving) := by
  have spec := l.stream.readUninterrupted_spec
  unfold read arriving
  cases run : l.stream.readUninterrupted readLimit with
  | mk result stream =>
    rw [run] at spec
    cases result with
    | error k =>
      refine ⟨stream, (spec.error k rfl).1.written, .inl ⟨rfl, ?_⟩⟩
      cases k with
      | wouldBlock => exact ⟨rfl, rfl⟩
      | _ => exact ⟨rfl, rfl⟩
    | ok bs =>
      refine ⟨stream, (spec.ok bs rfl).written, ?_⟩
      cases bs with
      | nil => exact .inl ⟨rfl, rfl, rfl⟩
      | cons b bs => exact .inr ⟨List.cons_ne_nil b bs, rfl⟩

theorem read_received (l : Link) : l.read.delivered = (l.pending.receive l.parsed).1 ∧
    l.read.link.pending = (l.pending.receive l.parsed).2 := by
  unfold parsed
  obtain ⟨stream, -, ⟨none, delivered, link⟩ | ⟨some, run⟩⟩ := l.read_arriving
  · rw [delivered, link, if_pos none]
    exact ⟨rfl, rfl⟩
  · rw [run, if_neg some, ← Pending.passAll_eq]
    unfold take
    dsimp only
    split
    · exact ⟨rfl, rfl⟩
    · exact ⟨rfl, rfl⟩

/-- While no length was out of bounds, a read cuts what its bytes add to the transcript. -/
theorem Waiting.parsed {l : Link} (waiting : l.Waiting) :
    l.parsed = (Transcript.ofBytes (l.unread ++ l.arriving)).packets := by
  unfold Link.parsed
  split
  · rename_i none
    rw [none, waiting.transcript]
  · obtain ⟨transcript, -⟩ := Transcript.ofBytes_cut waiting.sound (l.input ++ l.arriving)
    rw [← List.append_assoc] at transcript
    unfold unread
    rw [transcript]

def taken (past : List Episode) : Bytes :=
  past.flatMap fun
    | .took bs => bs
    | _ => []

def Episode.parsed? : Episode → Option Packet
  | .parsed p _ => some p
  | _ => none

def received (past : List Episode) : List Packet := past.filterMap Episode.parsed?

theorem taken_append (past more : List Episode) : taken (past ++ more) = taken past ++ taken more :=
  List.flatMap_append

theorem received_append (past more : List Episode) :
    received (past ++ more) = received past ++ received more := List.filterMap_append

theorem episodes_reading (pending : Pending) (ps : List Packet) :
    taken (pending.episodes ps) = [] ∧ received (pending.episodes ps) = ps := by
  induction ps generalizing pending with
  | nil => exact ⟨rfl, rfl⟩
  | cons p ps ih =>
    obtain ⟨taken, received⟩ := ih (pending.pass p).2
    exact ⟨taken, congrArg (p :: ·) received⟩

/-- How far a link is that has read these bytes and cut these packets from them. -/
structure Reading (bs : Bytes) (ps : List Packet) (l : Link) : Prop where
  packets : ps = (Transcript.ofBytes bs).packets
  rest : l.unread = (Transcript.ofBytes bs).rest
  waiting : l.Waiting

theorem Reading.read {bs : Bytes} {ps : List Packet} {l : Link} (h : Reading bs ps l)
    (sound : (Transcript.ofBytes (bs ++ l.arriving)).broken = false) :
    Reading (bs ++ l.arriving) (ps ++ l.parsed) l.read.link := by
  have transcript := Transcript.ofBytes_append bs l.arriving
  rw [← h.rest] at transcript
  have packets : ps ++ l.parsed = (Transcript.ofBytes (bs ++ l.arriving)).packets := by
    rw [transcript, h.packets, h.waiting.parsed]
    rfl
  rw [transcript] at sound
  suffices goesOn : l.read.link.unread = (Transcript.ofBytes (l.unread ++ l.arriving)).rest ∧
      l.read.link.Waiting by
    refine ⟨packets, ?_, goesOn.2⟩
    rw [transcript]
    exact goesOn.1
  obtain ⟨stream, -, ⟨none, -, link⟩ | ⟨-, run⟩⟩ := l.read_arriving
  · rw [link, none, h.waiting.transcript]
    exact ⟨rfl, h.waiting⟩
  · obtain ⟨-, -, failed, passed⟩ := take_transcript (l := { l with stream }) h.waiting l.arriving
    have succeeds : ¬({ l with stream }.take l.arriving).Failed := by
      intro fails
      exact Bool.false_ne_true (sound.symm.trans (failed.mp fails))
    rw [run]
    exact passed succeeds

/-- As long as no length is out of bounds, the packets that are received are those that the
bytes say. -/
theorem History.reading {first : Stream} {past : List Episode} {l : Link}
    (h : History first past l) (sound : (Transcript.ofBytes (taken past)).broken = false) :
    Reading (taken past) (received past) l := by
  induction h with
  | start => exact ⟨Transcript.ofBytes_nil ▸ rfl, Transcript.ofBytes_nil ▸ rfl, Nat.zero_lt_succ _⟩
  | @act past l d run ih =>
    rw [taken_append] at sound ⊢
    rw [received_append]
    have before := ih (Transcript.not_broken_of_append _ sound)
    by_cases read : d = .read
    · subst read
      obtain ⟨nothing, all⟩ := episodes_reading l.pending l.parsed
      have bytes : taken (Deed.read.episodes l) = l.arriving :=
        (congrArg (l.arriving ++ ·) nothing).trans (List.append_nil _)
      have packets : received (Deed.read.episodes l) = l.parsed := all
      rw [bytes] at sound ⊢
      rw [packets]
      exact before.read sound
    · have quiet : taken (d.episodes l) = [] ∧ received (d.episodes l) = [] := by
        cases d with
        | send | flush | cancel => exact ⟨rfl, rfl⟩
        | read => contradiction
      obtain ⟨-, input, stage⟩ := d.perform_unread read l
      rw [quiet.1, quiet.2, List.append_nil, List.append_nil]
      refine ⟨before.packets, ?_, ?_⟩
      · rw [← before.rest, unread, unread, input, stage]
      · unfold Waiting
        rw [input, stage]
        exact before.waiting
  | stream run same ih => exact ⟨(ih sound).packets, (ih sound).rest, (ih sound).waiting⟩

end Link
end Muster
