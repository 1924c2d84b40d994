import Muster.Proofs.Link.History

/-! What becomes of the packets that a link sends: their bytes are written or still kept, in the
order of the calls, wherever writes are cut off and whenever they fail. -/
namespace Muster

namespace WriteRun

/-- Bytes are left after a success only if the last write would have blocked. -/
theorem start_blocked {steps : List WriteStep} {out : Bytes}
    (ok : (start steps out).result = .ok ()) (left : (start steps out).unsent ≠ []) :
    ∃ used, steps = used ++ (start steps out).later ∧
      used.getLast? = some (.failure .wouldBlock) := by
  fun_induction start steps out with
  | case1 steps => contradiction
  | case2 out => contradiction
  | case3 => contradiction
  | case4 n steps out _ _ run ih =>
    obtain ⟨used, eq, last⟩ := ih ok left
    refine ⟨.accept n :: used, ?_, ?_⟩
    · rw [List.cons_append, ← eq]
    · rw [List.getLast?_cons, last]
      rfl
  | case5 steps out => exact ⟨[.failure .wouldBlock], rfl, rfl⟩
  | case6 steps out _ ih =>
    obtain ⟨used, eq, last⟩ := ih ok left
    refine ⟨.failure .interrupted :: used, ?_, ?_⟩
    · rw [List.cons_append, ← eq]
    · rw [List.getLast?_cons, last]
      rfl
  | case7 => contradiction

end WriteRun

namespace Link

theorem flush_blocked {l : Link} (ok : l.flush.1 = .ok ()) (left : l.flush.2.output ≠ []) :
    ∃ used, l.stream.writes = used ++ l.flush.2.stream.writes ∧
      used.getLast? = some (.failure .wouldBlock) := by
  have written : (WriteRun.start l.stream.writes l.output).result = .ok () := by
    unfold flush at ok
    dsimp only at ok
    split at ok
    · contradiction
    · assumption
  rw [flush_link] at left ⊢
  exact WriteRun.start_blocked written left

theorem read_sent (l : Link) : l.read.link.sent = l.sent := by
  obtain ⟨stream, -, ⟨-, -, link⟩ | ⟨-, run⟩⟩ := l.read_arriving
  · rw [link]
  · rw [run]
    unfold take
    dsimp only
    split
    · rfl
    · rfl

end Link

theorem Deed.perform_sent (d : Deed) (l : Link) :
    (d.perform l).sent = l.sent + d.queued.length := by
  have flushed (l : Link) : l.flush.2.sent = l.sent := by rw [Link.flush_link]
  cases d with
  | send p =>
    rw [perform, queued]
    split
    · rename_i fits
      obtain ⟨pending, sent⟩ := Link.send_flushed (l := l) fits
      rw [sent]
      exact flushed (l.enqueue p)
    · rename_i large
      rw [Link.send_refused large]
      rfl
  | flush => exact flushed l
  | cancel seq => rfl
  | read => exact l.read_sent

namespace Link

def Episode.queued? : Episode → Option Packet
  | .sent p _ => if p.Fits then some p else none
  | _ => none

def queued (past : List Episode) : List Packet := past.filterMap Episode.queued?

theorem queued_append (past more : List Episode) :
    queued (past ++ more) = queued past ++ queued more := List.filterMap_append

theorem queued_episodes (pending : Pending) (ps : List Packet) :
    queued (pending.episodes ps) = [] := by
  induction ps generalizing pending with
  | nil => rfl
  | cons p ps ih => exact ih (pending.pass p).2

theorem queued_of_deed (d : Deed) (l : Link) : queued (d.episodes l) = d.queued := by
  cases d with
  | send p =>
    show List.filterMap _ [_] = if p.Fits then [p] else []
    split
    · rename_i fits
      exact List.filterMap_cons_some (if_pos fits)
    · rename_i large
      exact List.filterMap_cons_none (if_neg large)
  | flush => rfl
  | cancel seq => rfl
  | read => exact queued_episodes _ _

variable {first : Stream} {past : List Episode} {l : Link}

theorem History.issued (h : History first past l) :
    l.issued = first.written ++ (queued past).flatMap Packet.encode := by
  induction h with
  | start => rfl
  | @act past l d run ih =>
    rw [(d.perform_issued l).1, ih, queued_append, queued_of_deed, List.flatMap_append,
      List.append_assoc]
  | stream run same ih =>
    rw [← ih, Link.issued, Link.issued, same]

theorem History.sent (h : History first past l) : l.sent = (queued past).length := by
  induction h with
  | start => rfl
  | @act past l d run ih =>
    rw [d.perform_sent, ih, queued_append, queued_of_deed, List.length_append]
  | stream run same ih => exact ih

/-- Whatever writes do, the bytes that the stream has accepted and those that are kept are the
packets that passed the size check, one after the other in the order of the calls, and they are
counted. A packet that is too large changes nothing. A flush succeeds with bytes left only if the
last write would have blocked. -/
theorem History.output_conserved (h : History first past l) :
    l.stream.written ++ l.output = first.written ++ (queued past).flatMap Packet.encode ∧
    l.sent = (queued past).length ∧
    (∀ p : Packet, (p.Fits ↔ p.encodedSize ≤ 65536) ∧
      ((l.send p).1 = .error .oversized ↔ ¬p.Fits) ∧ (¬p.Fits → (l.send p).2 = l)) ∧
    (l.flush.1 = .ok () → l.flush.2.output ≠ [] → ∃ used,
      l.stream.writes = used ++ l.flush.2.stream.writes ∧
      used.getLast? = some (.failure .wouldBlock)) := by
  refine ⟨h.issued, h.sent, fun p => ⟨Iff.rfl, send_oversized_iff, fun large => ?_⟩, flush_blocked⟩
  rw [send_refused large]

/-- Writes that take packets apart, and fail inside one. -/
def sampleWrites : Stream where
  arrivals := []
  closed := false
  writes := [.accept 20, .failure .interrupted, .accept 9, .failure .wouldBlock, .accept 2,
    .failure .connectionReset]
  flushFailure := none
  written := []

theorem output_conserved_of_two : ∃ past l, History sampleWrites past l ∧
    (l.stream.written.length, l.sent) = (31, 2) ∧
    l.stream.written ++ l.output = Conduit.samplePacket.encode ++ Conduit.samplePacket.encode := by
  let first := Deed.send Conduit.samplePacket
  have run : History sampleWrites _ _ := .act first (.act first .start)
  refine ⟨_, _, run, by decide +kernel, ?_⟩
  obtain ⟨conserved, -⟩ := History.output_conserved run
  have fits : first.queued = [Conduit.samplePacket] := by
    show (if Conduit.samplePacket.Fits then [Conduit.samplePacket] else []) = _
    exact if_pos (by decide)
  rw [conserved, queued_append, queued_append, queued_of_deed, queued_of_deed, fits]
  show List.flatMap Packet.encode [Conduit.samplePacket, Conduit.samplePacket] = _
  rw [List.flatMap_cons, List.flatMap_singleton]

end Link
end Muster
