import Muster.Proofs.Link.Transcript

/-! A link that reads again and again. However the bytes are cut into reads, and whichever reads
fail in between, it passes on what a single reading of all bytes would. -/
namespace Muster

def Arrival.bytes : Arrival → Bytes
  | data bs => bs
  | failure _ => []

namespace Stream

def unread (s : Stream) : Bytes := s.arrivals.flatMap Arrival.bytes

/-- The stream after these bytes were read from its front. -/
structure Yields (s : Stream) (bs : Bytes) (s' : Stream) : Prop where
  unread : s.unread = bs ++ s'.unread
  limited : bs.length ≤ Link.readLimit
  written : s'.written = s.written
  fewer : Link.readsOf s'.arrivals < Link.readsOf s.arrivals ∨ s'.arrivals = []

/-- What a read can come to. It fails only as an arrival says, or since there is none. -/
structure ReadSpec (s : Stream) (run : Except IoKind Bytes × Stream) : Prop where
  ok : ∀ bs, run.1 = .ok bs → s.Yields bs run.2
  error : ∀ k, run.1 = .error k →
    s.Yields [] run.2 ∧ (k = .wouldBlock ∨ .failure k ∈ s.arrivals)

theorem unread_of_cons {s : Stream} {a : Arrival} {rest : List Arrival}
    (arrivals : s.arrivals = a :: rest) : s.unread = a.bytes ++ rest.flatMap Arrival.bytes := by
  rw [unread, arrivals, List.flatMap_cons]

theorem readsOf_data (bs : Bytes) (rest : List Arrival) :
    Link.readsOf (.data bs :: rest) = bs.length / 8192 + 1 + Link.readsOf rest := rfl

theorem readsOf_failure (k : IoKind) (rest : List Arrival) :
    Link.readsOf (.failure k :: rest) = 1 + Link.readsOf rest := rfl

theorem unread_of_readsOf {s : Stream} (none : Link.readsOf s.arrivals = 0) : s.unread = [] := by
  cases arrivals : s.arrivals with
  | nil => rw [unread, arrivals, List.flatMap_nil]
  | cons a rest =>
    rw [arrivals] at none
    cases a with
    | data bs =>
      have count := readsOf_data bs rest
      omega
    | failure k =>
      have count := readsOf_failure k rest
      omega

theorem read_spec (s : Stream) : s.ReadSpec (s.read Link.readLimit) := by
  unfold read
  cases arrivals : s.arrivals with
  | nil =>
    dsimp only
    split
    · refine ⟨fun bs result => ?_, nofun⟩
      obtain rfl := Except.ok.inj result
      exact ⟨rfl, Nat.zero_le _, rfl, .inr arrivals⟩
    · refine ⟨nofun, fun k result => ?_⟩
      obtain rfl := Except.error.inj result
      exact ⟨⟨rfl, Nat.zero_le _, rfl, .inr arrivals⟩, .inl rfl⟩
  | cons a rest =>
    have unread := unread_of_cons arrivals
    cases a with
    | failure k =>
      have count := readsOf_failure k rest
      rw [← arrivals] at count
      refine ⟨nofun, fun k' result => ?_⟩
      obtain rfl := Except.error.inj result
      refine ⟨⟨unread, Nat.zero_le _, rfl, .inl (by dsimp only; omega)⟩, .inr ?_⟩
      rw [arrivals]
      exact List.mem_cons_self
    | data bs =>
      have count := readsOf_data bs rest
      rw [← arrivals] at count
      dsimp only
      split
      · rename_i limited
        refine ⟨fun bs' result => ?_, nofun⟩
        obtain rfl := Except.ok.inj result
        exact ⟨unread, limited, rfl, .inl (by dsimp only; omega)⟩
      · rename_i longer
        refine ⟨fun bs' result => ?_, nofun⟩
        obtain rfl := Except.ok.inj result
        refine ⟨?_, List.length_take_le .., rfl, .inl ?_⟩
        · rw [unread, Stream.unread, List.flatMap_cons]
          show bs ++ _ = bs.take _ ++ (bs.drop _ ++ _)
          rw [← List.append_assoc, List.take_append_drop]
        · have later := readsOf_data (bs.drop Link.readLimit) rest
          rw [List.length_drop] at later
          unfold Link.readLimit at longer later ⊢
          dsimp only
          omega

/-- An interruption carries no bytes and only costs a read. -/
theorem dropWhile_interrupted (arrivals : List Arrival) :
    let left := arrivals.dropWhile (· == .failure .interrupted)
    left.flatMap Arrival.bytes = arrivals.flatMap Arrival.bytes ∧
      Link.readsOf left ≤ Link.readsOf arrivals := by
  induction arrivals with
  | nil => exact ⟨rfl, Nat.le_refl _⟩
  | cons a rest ih =>
    rw [List.dropWhile_cons]
    split
    · rename_i interrupted
      obtain rfl := eq_of_beq interrupted
      obtain ⟨bytes, fewer⟩ := ih
      exact ⟨bytes, Nat.le_trans fewer (Nat.le_add_left ..)⟩
    · exact ⟨rfl, Nat.le_refl _⟩

theorem readUninterrupted_spec (s : Stream) :
    s.ReadSpec (s.readUninterrupted Link.readLimit) := by
  obtain ⟨bytes, fewer⟩ := dropWhile_interrupted s.arrivals
  let left : Stream := { s with arrivals := s.arrivals.dropWhile (· == .failure .interrupted) }
  have yields {bs : Bytes} {s' : Stream} (h : left.Yields bs s') : s.Yields bs s' :=
    ⟨bytes.symm.trans h.unread, h.limited, h.written,
      h.fewer.imp_left (Nat.lt_of_lt_of_le · fewer)⟩
  have spec := read_spec left
  refine ⟨fun bs result => yields (spec.ok bs result), fun k result => ?_⟩
  obtain ⟨same, met⟩ := spec.error k result
  exact ⟨yields same, met.imp_right (List.dropWhile_sublist _).mem⟩

end Stream

theorem IoError.ofKind_ne_invalidLength (k : IoKind) : IoError.ofKind k ≠ .invalidLength := by
  cases k <;> decide

namespace Link

theorem failed_of_take {l : Link} {bs : Bytes} {e : IoError}
    (result : (l.take bs).result = .error e) : (l.take bs).Failed := by
  unfold take at result ⊢
  dsimp only at result ⊢
  split at result
  · contradiction
  · rename_i broken
    rw [if_neg broken]
    rfl

/-- What a read can come to: bytes to take in, or none. -/
inductive ReadStep (l : Link) : ReadRun → Prop where
  | bytes {bs : Bytes} {stream : Stream} (yields : l.stream.Yields bs stream) :
    ReadStep l ({ l with stream }.take bs)
  | nothing {result : Except IoError ReadEnd} {stream : Stream}
      (yields : l.stream.Yields [] stream)
      (silent : result = .ok .closed ∨ result = .ok .exhausted ∨
        ∃ k, result = .error (.ofKind k) ∧ .failure k ∈ l.stream.arrivals) :
    ReadStep l ⟨result, [], { l with stream }⟩

theorem read_step (l : Link) : l.ReadStep l.read := by
  have spec := l.stream.readUninterrupted_spec
  unfold read
  cases run : l.stream.readUninterrupted readLimit with
  | mk result stream =>
    rw [run] at spec
    dsimp only
    split
    · exact .nothing (spec.ok [] rfl) (.inl rfl)
    · rename_i bs _
      exact .bytes (spec.ok bs rfl)
    · exact .nothing (spec.error _ rfl).1 (.inr (.inl rfl))
    · rename_i k unblocked
      obtain ⟨yields, rfl | met⟩ := spec.error k rfl
      · exact absurd rfl unblocked
      · exact .nothing yields (.inr (.inr ⟨k, rfl, met⟩))

end Link

/-- A read that took these bytes from the stream. They count as if they had come together
with those that were not passed on before. -/
structure ReadRun.Takes (l : Link) (bs : Bytes) (run : ReadRun) : Prop where
  unread : l.stream.unread = bs ++ run.link.stream.unread
  delivered : run.delivered = (l.pending.receive (Transcript.ofBytes (l.unread ++ bs)).packets).1
  pending : run.link.pending = (l.pending.receive (Transcript.ofBytes (l.unread ++ bs)).packets).2
  failed : run.Failed ↔ (Transcript.ofBytes (l.unread ++ bs)).broken = true
  rest : ¬run.Failed → run.link.unread = (Transcript.ofBytes (l.unread ++ bs)).rest
  waiting : ¬run.Failed → run.link.Waiting
  error : ∀ e, run.result = .error e →
    run.Failed ∨ ∃ k, .failure k ∈ l.stream.arrivals ∧ e = .ofKind k
  fewer : Link.readsOf run.link.stream.arrivals < Link.readsOf l.stream.arrivals ∨
    run.link.stream.arrivals = []

theorem Link.read_takes {l : Link} (waiting : l.Waiting) : ∃ bs, l.read.Takes l bs := by
  have step := l.read_step
  generalize l.read = run at step ⊢
  cases step with
  | @bytes bs stream yields =>
    obtain ⟨same, -⟩ := take_stream { l with stream } bs
    obtain ⟨delivered, pending, failed, passed⟩ :=
      take_transcript (l := { l with stream }) waiting bs
    refine ⟨bs, ⟨?_, delivered, pending, failed, fun h => (passed h).1, fun h => (passed h).2,
      fun e result => .inl ?_, ?_⟩⟩
    · rw [same]
      exact yields.unread
    · exact failed_of_take result
    · rw [same]
      exact yields.fewer
  | @nothing result stream yields silent =>
    have transcript := waiting.transcript
    have passed : ¬ReadRun.Failed ⟨result, [], { l with stream }⟩ := by
      rintro failed
      obtain rfl | rfl | ⟨k, rfl, -⟩ := silent
      · contradiction
      · contradiction
      · exact IoError.ofKind_ne_invalidLength k (Except.error.inj failed)
    refine ⟨[], ⟨yields.unread, ?_, ?_, ?_, ?_, fun _ => waiting, fun e failed => .inr ?_,
      yields.fewer⟩⟩
    · rw [transcript]
      rfl
    · rw [transcript]
      rfl
    · rw [transcript]
      exact ⟨fun failed => absurd failed passed, nofun⟩
    · rw [transcript]
      exact fun _ => rfl
    · obtain rfl | rfl | ⟨k, rfl, met⟩ := silent
      · contradiction
      · contradiction
      · exact ⟨k, met, (Except.error.inj failed).symm⟩

/-- Several reads in a row and the link after them. -/
structure Session where
  runs : List ReadRun
  link : Link

namespace Session

def delivered (s : Session) : List Delivery := s.runs.flatMap ReadRun.delivered

def Failed (s : Session) : Prop := ∃ run ∈ s.runs, run.Failed

def cons (run : ReadRun) (s : Session) : Session := { s with runs := run :: s.runs }

end Session

/-- Reads this many times, but no more once a length cannot be trusted. Other failures stop
nothing. -/
def Link.session : Nat → Link → Session
  | 0, l => ⟨[], l⟩
  | n + 1, l =>
    if l.read.Failed then ⟨[l.read], l.read.link⟩
    else .cons l.read (session n l.read.link)

namespace Session

theorem cons_delivered (run : ReadRun) (s : Session) :
    (s.cons run).delivered = run.delivered ++ s.delivered := List.flatMap_cons

theorem cons_failed {run : ReadRun} (passed : ¬run.Failed) {s : Session} :
    (s.cons run).Failed ↔ s.Failed := by
  simp only [Failed, cons, List.mem_cons, or_and_right, exists_or, exists_eq_left]
  exact or_iff_right passed

/-- The session read these bytes, and treats them as if it had them all at once. -/
structure Reads (l : Link) (taken : Bytes) (s : Session) : Prop where
  unread : l.stream.unread = taken ++ s.link.stream.unread
  delivered : s.delivered = (l.pending.receive (Transcript.ofBytes (l.unread ++ taken)).packets).1
  pending : s.link.pending = (l.pending.receive (Transcript.ofBytes (l.unread ++ taken)).packets).2
  failed : s.Failed ↔ (Transcript.ofBytes (l.unread ++ taken)).broken = true
  waiting : ∀ run ∈ s.runs, ∀ e, run.result = .ok e → run.link.Waiting

theorem Reads.start {l : Link} (waiting : l.Waiting) : Reads l [] ⟨[], l⟩ := by
  have transcript := waiting.transcript
  constructor
  · rfl
  · rw [transcript]
    rfl
  · rw [transcript]
    rfl
  · rw [transcript]
    exact ⟨fun ⟨_, member, _⟩ => absurd member List.not_mem_nil, nofun⟩
  · exact fun _ member => absurd member List.not_mem_nil

theorem Reads.stop {l : Link} {bs : Bytes} {run : ReadRun} (takes : run.Takes l bs)
    (failed : run.Failed) : Reads l bs ⟨[run], run.link⟩ := by
  refine ⟨takes.unread, ?_, takes.pending, ?_, ?_⟩
  · rw [← takes.delivered]
    exact List.append_nil _
  · rw [← takes.failed]
    exact ⟨fun _ => failed, fun _ => ⟨run, List.mem_cons_self, failed⟩⟩
  · intro run' member e result
    obtain rfl := List.mem_singleton.mp member
    exact nomatch failed.symm.trans result

/-- What is read later continues the transcript where it broke off. -/
theorem Reads.cons {l : Link} {bs taken : Bytes} {run : ReadRun} {s : Session}
    (takes : run.Takes l bs) (passed : ¬run.Failed) (later : Reads run.link taken s) :
    Reads l (bs ++ taken) (s.cons run) := by
  have transcript := Transcript.ofBytes_append (l.unread ++ bs) taken
  rw [List.append_assoc, ← takes.rest passed] at transcript
  constructor
  · rw [takes.unread, later.unread, List.append_assoc]
    rfl
  · rw [cons_delivered, transcript, Transcript.prepend, Pending.receive_append, later.delivered,
      takes.delivered, takes.pending]
  · rw [transcript, Transcript.prepend, Pending.receive_append, ← takes.pending]
    exact later.pending
  · rw [cons_failed passed, transcript]
    exact later.failed
  · intro run' member e result
    obtain rfl | member := List.mem_cons.mp member
    · exact takes.waiting passed
    · exact later.waiting run' member e result

end Session

/-- However often the link reads, it treats what it took as if it had it all at once. -/
theorem Link.session_reads {l : Link} (waiting : l.Waiting) (n : Nat) :
    ∃ taken, Session.Reads l taken (l.session n) := by
  induction n generalizing l with
  | zero => exact ⟨[], .start waiting⟩
  | succ n ih =>
    obtain ⟨bs, takes⟩ := read_takes waiting
    rw [session]
    split
    · rename_i failed
      exact ⟨bs, .stop takes failed⟩
    · rename_i passed
      obtain ⟨taken, later⟩ := ih (takes.waiting passed)
      exact ⟨bs ++ taken, .cons takes passed later⟩

/-- With as many reads as the arrivals need nothing is left to read, unless one failed. -/
theorem Link.session_exhausts {l : Link} (waiting : l.Waiting) {n : Nat}
    (enough : readsOf l.stream.arrivals ≤ n) :
    (l.session n).Failed ∨ (l.session n).link.stream.unread = [] := by
  induction n generalizing l with
  | zero => exact .inr (Stream.unread_of_readsOf (Nat.le_zero.mp enough))
  | succ n ih =>
    obtain ⟨bs, takes⟩ := read_takes waiting
    rw [session]
    split
    · rename_i failed
      exact .inl ⟨l.read, List.mem_cons_self, failed⟩
    · rename_i passed
      rw [Session.cons_failed passed]
      refine ih (takes.waiting passed) ?_
      obtain fewer | none := takes.fewer
      · omega
      · rw [none]
        exact Nat.zero_le _

/-- However its bytes come in and whatever else fails, a new link passes on what the bytes that
it read say, and fails as soon as they hold a length that cannot be trusted. Sooner or later it
has failed so or read everything, and then it passed on what all bytes that arrived say. -/
theorem Link.session_transcript (pending : Pending) (stream : Stream) (n : Nat) :
    let s := session n { ofStream stream with pending }
    let whole := Transcript.ofBytes stream.unread
    (∃ taken, stream.unread = taken ++ s.link.stream.unread ∧
      let t := Transcript.ofBytes taken
      s.delivered = (pending.receive t.packets).1 ∧
        s.link.pending = (pending.receive t.packets).2 ∧ (s.Failed ↔ t.broken = true)) ∧
    (readsOf stream.arrivals ≤ n → s.Failed ∨ s.link.stream.unread = []) ∧
    (s.Failed ∨ s.link.stream.unread = [] →
      s.delivered = (pending.receive whole.packets).1 ∧
        s.link.pending = (pending.receive whole.packets).2 ∧ (s.Failed ↔ whole.broken = true)) ∧
    ∀ run ∈ s.runs, ∀ e, run.result = .ok e →
      run.link.input.length < run.link.stage.awaited := by
  have waiting : Waiting { ofStream stream with pending } := Nat.zero_lt_succ _
  obtain ⟨taken, reads⟩ := session_reads waiting n
  have unread : stream.unread = taken ++ _ := reads.unread
  refine ⟨⟨taken, unread, reads.delivered, reads.pending, reads.failed⟩,
    session_exhausts waiting, fun ended => ?_, reads.waiting⟩
  obtain failed | none := ended
  · have broken : (Transcript.ofBytes taken).broken = true := reads.failed.mp failed
    rw [unread, Transcript.ofBytes_append_of_broken broken]
    exact ⟨reads.delivered, reads.pending, reads.failed⟩
  · rw [unread, none, List.append_nil]
    exact ⟨reads.delivered, reads.pending, reads.failed⟩

end Muster
