import Muster.Proofs.Link.Session

/-! Two links and the network between them. Whatever the one sends, the other passes on, in
order and unchanged, however often writes block and however the bytes arrive. -/
namespace Muster

namespace WriteRun

theorem start_conserves (steps : List WriteStep) (out : Bytes) :
    (start steps out).accepted ++ (start steps out).unsent = out := by
  fun_induction start steps out with
  | case1 steps => rfl
  | case2 out => exact List.append_nil out
  | case3 => rfl
  | case4 =>
    rename_i ih
    rw [List.append_assoc, ih, List.take_append_drop]
  | case5 => rfl
  | case6 steps out _ ih => exact ih
  | case7 => rfl

theorem start_nil (out : Bytes) : start [] out = ⟨.ok (), out, [], []⟩ := by
  cases out with
  | nil => rfl
  | cons b out => rfl

end WriteRun

namespace IoError

theorem ofKind_ne_oversized (k : IoKind) : ofKind k ≠ oversized := by
  cases k <;> decide

end IoError

namespace Packet

def Made (p : Packet) : Prop := ∃ seq m, p = ofMessage seq m

theorem Fits.countable {p : Packet} (fits : p.Fits) : p.message.body.Countable := by
  intro ids listed
  have count : ids.length ≤ NodeId.encodedListSize ids := by
    have each := Decoder.five_mul_length_le ids
    rw [← NodeId.encodeList_length, NodeId.encodeList, List.length_append]
    omega
  have room : NodeId.encodedListSize ids ≤ p.message.body.encodedSize := by
    cases body : p.message.body with
    | membershipNotice group ids' code
    | syncResponse group ids' terms code
    | progressNotice group ids' point code =>
      rw [body] at listed
      obtain rfl := Option.some.inj listed
      rw [Body.encodedSize]
      omega
    | _ =>
      rw [body] at listed
      contradiction
  unfold Fits encodedSize Header.maxPacketSize Message.encodedSize at fits
  unfold NodeId.uncountable
  omega

variable {p : Packet}

def wireHeader (p : Packet) : Header := { p.header with totalLength := Int32.ofNat p.encodedSize }

theorem wireHeader_total (fits : p.Fits) : p.wireHeader.totalLength.toInt = p.encodedSize := by
  unfold Fits Header.maxPacketSize at fits
  exact Int32.toInt_ofNat_of_lt (by omega)

theorem total_encode (fits : p.Fits) : Transcript.total p.encode = p.encode.length := by
  rw [encode_length, ← wireHeader_total fits]
  exact Transcript.total_header p.wireHeader p.message.encode

theorem Made.packet?_encode (made : p.Made) (fits : p.Fits) :
    Transcript.packet? p.encode = some p := by
  have read : Message.decode p.message.kind.number p.message.encode = .ok p.message :=
    Message.decode_eq_ok.mpr ⟨rfl, fits.countable, rfl⟩
  obtain ⟨seq, m, rfl⟩ := made
  have supported : (ofMessage seq m).header.isSupported = true := rfl
  have body : ofBody? (ofMessage seq m).header m.encode = .ok (ofMessage seq m) :=
    congrArg (Except.map _) read
  rw [encode, Transcript.packet?_frame]
  show ofFrame? (ofMessage seq m).header m.encode = _
  rw [ofFrame?, if_pos supported, body]
  rfl

/-- The limit of the sender is the limit of the receiver. -/
theorem fits_iff : p.Fits ↔
    ∃ h body, Header.split? p.encode = some (h, body) ∧ h.bodyLength? = some body.length := by
  have split : Header.split? p.encode = some (p.wireHeader, p.message.encode) :=
    Header.split?_eq_some_iff.mpr rfl
  have length : p.encodedSize = 16 + p.message.encode.length := by
    rw [Message.encode_length]
    rfl
  constructor
  · intro fits
    have total := wireHeader_total fits
    unfold Fits Header.maxPacketSize at fits
    exact ⟨_, _, split, Header.bodyLength?_eq_some.mpr ⟨by omega, by omega⟩⟩
  · rintro ⟨h, body, split', known⟩
    obtain ⟨rfl, rfl⟩ := Prod.mk.inj (Option.some.inj (split.symm.trans split'))
    obtain ⟨total, bounded⟩ := Header.bodyLength?_eq_some.mp known
    unfold Fits Header.maxPacketSize
    omega

end Packet

namespace Transcript

theorem ofBytes_encode {p : Packet} (made : p.Made) (fits : p.Fits) (more : Bytes) :
    ofBytes (p.encode ++ more) = (ofBytes more).prepend [p] := by
  have length : p.encode.length = 16 + p.message.encodedSize := p.encode_length
  have bounded : p.encode.length ≤ 65536 := p.encode_length ▸ fits
  rw [ofBytes_frame _ (Packet.total_encode fits) (by omega) bounded, made.packet?_encode fits]
  rfl

theorem ofBytes_encodeAll {ps : List Packet} (sendable : ∀ p ∈ ps, p.Made ∧ p.Fits) :
    ofBytes (ps.flatMap Packet.encode) = ⟨ps, [], false⟩ := by
  induction ps with
  | nil => exact ofBytes_nil
  | cons p ps ih =>
    obtain ⟨⟨made, fits⟩, sendable⟩ := List.forall_mem_cons.mp sendable
    rw [List.flatMap_cons, ofBytes_encode made fits, ih sendable]
    rfl

end Transcript

namespace Link

/-- All bytes that were ever queued, whether they are written by now or not. -/
def issued (l : Link) : Bytes := l.stream.written ++ l.output

theorem flush_link (l : Link) :
    let run := WriteRun.start l.stream.writes l.output
    l.flush.2 = { l with
      stream := { l.stream with writes := run.later, written := l.stream.written ++ run.accepted }
      output := run.unsent } := by
  unfold flush
  dsimp only
  split
  · rfl
  · split
    · rfl
    · rfl

theorem flush_issued (l : Link) : l.flush.2.issued = l.issued := by
  rw [flush_link, issued, List.append_assoc, WriteRun.start_conserves, issued]

theorem flush_error {l : Link} {e : IoError} (failed : l.flush.1 = .error e) :
    ∃ k, e = .ofKind k := by
  unfold flush at failed
  dsimp only at failed
  split at failed
  · exact ⟨_, (Except.error.inj failed).symm⟩
  · split at failed
    · exact ⟨_, (Except.error.inj failed).symm⟩
    · contradiction

theorem send_refused {l : Link} {p : Packet} (large : ¬p.Fits) :
    l.send p = (.error .oversized, l) := by
  rw [send, if_neg large]

theorem send_queued {l : Link} {p : Packet} (fits : p.Fits) :
    (l.send p).1 = (l.enqueue p).flush.1 ∧
      ((l.send p).2 = (l.enqueue p).flush.2 ∨
        (l.send p).2 = (l.enqueue p).flush.2.cancel p.seq) := by
  rw [send, if_pos fits]
  cases (l.enqueue p).flush with
  | mk result l' =>
    cases result with
    | ok => exact ⟨rfl, .inl rfl⟩
    | error e => exact ⟨rfl, .inr rfl⟩

/-- But for the requests outstanding, to send is to queue and to flush. -/
theorem send_flushed {l : Link} {p : Packet} (fits : p.Fits) :
    ∃ pending, (l.send p).2 = { (l.enqueue p).flush.2 with pending } := by
  obtain ⟨-, sent | sent⟩ := send_queued (l := l) fits
  · exact ⟨_, sent⟩
  · exact ⟨_, sent⟩

theorem send_oversized_iff {l : Link} {p : Packet} :
    (l.send p).1 = .error .oversized ↔ ¬p.Fits := by
  constructor
  · intro refused fits
    rw [(send_queued fits).1] at refused
    obtain ⟨k, oversized⟩ := flush_error refused
    exact IoError.ofKind_ne_oversized k oversized.symm
  · intro large
    rw [send_refused large]

theorem read_written (l : Link) :
    l.read.link.stream.written = l.stream.written ∧ l.read.link.output = l.output := by
  have step := l.read_step
  generalize l.read = run at step ⊢
  cases step with
  | bytes yields =>
    obtain ⟨same, output⟩ := take_stream { l with stream := _ } _
    rw [same, output]
    exact ⟨yields.written, rfl⟩
  | nothing yields silent => exact ⟨yields.written, rfl⟩

end Link

inductive Deed where
  | send (p : Packet)
  | flush
  | cancel (seq : Int32)
  | read
deriving DecidableEq

namespace Deed

def perform : Deed → Link → Link
  | send p, l => (l.send p).2
  | flush, l => l.flush.2
  | cancel seq, l => l.cancel seq
  | read, l => l.read.link

/-- The packet that is queued. One that is too large is refused. -/
def queued : Deed → List Packet
  | send p => if p.Fits then [p] else []
  | _ => []

/-- What is queued stands behind what was queued before, and nothing is taken back. -/
theorem perform_issued (d : Deed) (l : Link) :
    (d.perform l).issued = l.issued ++ d.queued.flatMap Packet.encode ∧
      l.stream.written <+: (d.perform l).stream.written := by
  have flushed (l : Link) : l.stream.written <+: l.flush.2.stream.written := by
    rw [Link.flush_link]
    exact List.prefix_append ..
  cases d with
  | send p =>
    rw [perform, queued]
    split
    · rename_i fits
      have enqueued : (l.enqueue p).issued = l.issued ++ p.encode := (List.append_assoc ..).symm
      rw [List.flatMap_singleton, ← enqueued, ← (l.enqueue p).flush_issued]
      obtain ⟨pending, sent⟩ := Link.send_flushed (l := l) fits
      rw [sent]
      exact ⟨rfl, flushed (l.enqueue p)⟩
    · rename_i large
      rw [Link.send_refused large]
      exact ⟨(List.append_nil _).symm, List.prefix_refl _⟩
  | flush => exact ⟨(l.flush_issued).trans (List.append_nil _).symm, flushed l⟩
  | cancel seq => exact ⟨(List.append_nil _).symm, List.prefix_refl _⟩
  | read =>
    obtain ⟨written, output⟩ := l.read_written
    unfold perform queued Link.issued
    rw [written, output]
    exact ⟨(List.append_nil _).symm, List.prefix_refl _⟩

theorem perform_unread {d : Deed} (quiet : d ≠ read) (l : Link) :
    (d.perform l).stream.unread = l.stream.unread ∧ (d.perform l).input = l.input ∧
      (d.perform l).stage = l.stage := by
  have flushed (l : Link) : l.flush.2.stream.unread = l.stream.unread ∧
      l.flush.2.input = l.input ∧ l.flush.2.stage = l.stage := by
    rw [Link.flush_link]
    exact ⟨rfl, rfl, rfl⟩
  cases d with
  | send p =>
    rw [perform]
    by_cases fits : p.Fits
    · obtain ⟨pending, sent⟩ := Link.send_flushed (l := l) fits
      rw [sent]
      exact flushed (l.enqueue p)
    · rw [Link.send_refused fits]
      exact ⟨rfl, rfl, rfl⟩
  | flush => exact flushed l
  | cancel seq => exact ⟨rfl, rfl, rfl⟩
  | read => contradiction

end Deed

/-- Two links, of which the one sends and the other receives. -/
structure Conduit where
  sender : Link
  receiver : Link
  /-- The bytes that have come to the side of the receiver. -/
  carried : Bytes

namespace Conduit

/-- Whether everything that was sent has come through. -/
def Settled (x : Conduit) : Prop :=
  x.sender.output = [] ∧ x.carried = x.sender.stream.written ∧ x.receiver.stream.unread = []

/-- What two new links can come to, with the packets that were queued and the receiver as it
was before each of its reads. The network brings bytes on in their order and cuts them as it
likes; streams may fail, block and resume at any time. -/
inductive History : List Packet → List Link → Conduit → Prop where
  | start {s r : Stream} (unwritten : s.written = []) (silent : r.unread = []) :
    History [] [] ⟨.ofStream s, .ofStream r, []⟩
  | sender {sent : List Packet} {reads : List Link} {x : Conduit} (h : History sent reads x)
      (d : Deed) (made : ∀ p, d = .send p → p.Made) :
    History (sent ++ d.queued) reads { x with sender := d.perform x.sender }
  | receiver {sent : List Packet} {reads : List Link} {x : Conduit} (h : History sent reads x)
      (d : Deed) (quiet : d ≠ .read) :
    History sent reads { x with receiver := d.perform x.receiver }
  | read {sent : List Packet} {reads : List Link} {x : Conduit} (h : History sent reads x) :
    History sent (reads ++ [x.receiver]) { x with receiver := x.receiver.read.link }
  | network {sent : List Packet} {reads : List Link} {x : Conduit} (h : History sent reads x)
      {s r : Stream} {bytes : Bytes} (same : s.written = x.sender.stream.written)
      (next : x.carried ++ bytes <+: s.written)
      (fed : r.unread = x.receiver.stream.unread ++ bytes) :
    History sent reads
      ⟨{ x.sender with stream := s }, { x.receiver with stream := r }, x.carried ++ bytes⟩

/-- The bytes between the two links are those of the packets sent. The receiver has taken some
of them and passed on what is complete. -/
structure Sound (sent : List Packet) (taken : Bytes) (x : Conduit) : Prop where
  issued : x.sender.issued = sent.flatMap Packet.encode
  carried : x.carried <+: x.sender.stream.written
  unread : x.carried = taken ++ x.receiver.stream.unread
  rest : x.receiver.unread = (Transcript.ofBytes taken).rest
  waiting : x.receiver.Waiting

theorem front_of_unread {sent : List Packet} {taken rest : Bytes} {x : Conduit}
    (issued : x.sender.issued = sent.flatMap Packet.encode)
    (carried : x.carried <+: x.sender.stream.written) (unread : x.carried = taken ++ rest) :
    taken <+: sent.flatMap Packet.encode := by
  rw [← issued]
  have front : taken <+: x.carried := ⟨_, unread.symm⟩
  exact (front.trans carried).trans (List.prefix_append ..)

theorem History.sendable {sent : List Packet} {reads : List Link} {x : Conduit}
    (h : History sent reads x) : ∀ p ∈ sent, p.Made ∧ p.Fits := by
  induction h with
  | start => exact fun p member => absurd member List.not_mem_nil
  | sender h d made ih =>
    intro p member
    obtain member | member := List.mem_append.mp member
    · exact ih p member
    · cases d with
      | send p' =>
        rw [Deed.queued] at member
        split at member
        · rename_i fits
          obtain rfl := List.mem_singleton.mp member
          exact ⟨made p rfl, fits⟩
        · exact absurd member List.not_mem_nil
      | flush | cancel | read => exact absurd member List.not_mem_nil
  | receiver _ _ _ ih | read _ ih | network _ _ _ _ ih => exact ih

end Conduit

/-- The read passes on these packets, without the responses to nothing, and fails only as the
stream does. -/
structure Link.Delivers (l : Link) (batch : List Packet) : Prop where
  delivered : l.read.delivered = (l.pending.receive batch).1
  pending : l.read.link.pending = (l.pending.receive batch).2
  error : ∀ e, l.read.result = .error e → ∃ k, .failure k ∈ l.stream.arrivals ∧ e = .ofKind k

namespace Transcript

theorem ofBytes_front {ps : List Packet} {bs : Bytes} (sendable : ∀ p ∈ ps, p.Made ∧ p.Fits)
    (front : bs <+: ps.flatMap Packet.encode) :
    (ofBytes bs).broken = false ∧ (ofBytes bs).packets <+: ps := by
  obtain ⟨more, whole⟩ := front
  have all := ofBytes_encodeAll sendable
  rw [← whole] at all
  constructor
  · apply not_broken_of_append more
    rw [all]
  · rw [ofBytes_append] at all
    exact ⟨_, congrArg packets all⟩

end Transcript

namespace Conduit

theorem Sound.read {sent : List Packet} {taken : Bytes} {x : Conduit}
    (sound : Sound sent taken x) (sendable : ∀ p ∈ sent, p.Made ∧ p.Fits) :
    ∃ bs batch, Sound sent (taken ++ bs) { x with receiver := x.receiver.read.link } ∧
      x.receiver.Delivers batch ∧
      (Transcript.ofBytes (taken ++ bs)).packets = (Transcript.ofBytes taken).packets ++ batch := by
  obtain ⟨bs, takes⟩ := Link.read_takes sound.waiting
  have transcript := Transcript.ofBytes_append taken bs
  rw [← sound.rest] at transcript
  have unread : x.carried = (taken ++ bs) ++ x.receiver.read.link.stream.unread := by
    rw [List.append_assoc, ← takes.unread, sound.unread]
  have front := front_of_unread sound.issued sound.carried unread
  have unbroken := (Transcript.ofBytes_front sendable front).1
  have passed : ¬x.receiver.read.Failed := by
    rw [takes.failed, Bool.not_eq_true]
    rwa [transcript] at unbroken
  refine ⟨bs, _, ⟨sound.issued, sound.carried, unread, ?_, takes.waiting passed⟩,
    ⟨takes.delivered, takes.pending, fun e result => ?_⟩, congrArg Transcript.packets transcript⟩
  · rw [transcript]
    exact takes.rest passed
  · exact (takes.error e result).resolve_left passed

/-- Along every history the receiver passes on what it has taken so far. -/
theorem History.sound {sent : List Packet} {reads : List Link} {x : Conduit}
    (h : History sent reads x) : ∃ taken, Sound sent taken x ∧
      ∃ log : List (Link × List Packet), log.map Prod.fst = reads ∧
        (∀ entry ∈ log, entry.1.Delivers entry.2) ∧
        log.flatMap Prod.snd = (Transcript.ofBytes taken).packets := by
  -- Only a read adds to what was taken; every other step keeps it and the log.
  induction h with
  | start unwritten silent =>
    refine ⟨[], ⟨?_, List.nil_prefix, silent.symm, ?_, Nat.zero_lt_succ _⟩, [], rfl, ?_, ?_⟩
    · rw [Link.issued]
      exact (List.append_nil _).trans unwritten
    · rw [Transcript.ofBytes_nil]
      rfl
    · exact fun _ member => absurd member List.not_mem_nil
    · rw [Transcript.ofBytes_nil]
      rfl
  | sender _ d _ ih =>
    obtain ⟨taken, sound, log⟩ := ih
    obtain ⟨issued, written⟩ := d.perform_issued _
    refine ⟨taken, { sound with issued := ?_, carried := sound.carried.trans written }, log⟩
    rw [issued, sound.issued, List.flatMap_append]
  | receiver _ d quiet ih =>
    obtain ⟨taken, sound, log⟩ := ih
    obtain ⟨unread, input, stage⟩ := Deed.perform_unread quiet _
    refine ⟨taken, ⟨sound.issued, sound.carried, ?_, ?_, ?_⟩, log⟩
    · rw [unread]
      exact sound.unread
    · rw [Link.unread, input, stage]
      exact sound.rest
    · rw [Link.Waiting, input, stage]
      exact sound.waiting
  | @read sent reads x h ih =>
    obtain ⟨taken, sound, log, same, delivers, packets⟩ := ih
    obtain ⟨bs, batch, sound', delivers', packets'⟩ := sound.read h.sendable
    refine ⟨taken ++ bs, sound', log ++ [(x.receiver, batch)], ?_, ?_, ?_⟩
    · rw [List.map_append, same]
      rfl
    · exact List.forall_mem_append.mpr ⟨delivers, List.forall_mem_singleton.mpr delivers'⟩
    · rw [List.flatMap_append, packets, packets', List.flatMap_singleton]
  | network _ written next fed ih =>
    obtain ⟨taken, sound, log⟩ := ih
    refine ⟨taken, ⟨?_, next, ?_, sound.rest, sound.waiting⟩, log⟩
    · rw [← sound.issued, Link.issued, Link.issued, written]
    · rw [fed, ← List.append_assoc, sound.unread]

/-- However writes block and resume and however the bytes arrive, the reads of the receiver
together pass on, in order and unchanged, the first of the packets that were queued, and all of
them once everything has come through. A response to nothing that is pending when it is read is
left out. The receiver fails only as its stream does. What the sender refuses is what the
receiver would. -/
theorem History.passes_on {sent : List Packet} {reads : List Link} {x : Conduit}
    (h : History sent reads x) :
    (∃ log : List (Link × List Packet), log.map Prod.fst = reads ∧
      (∀ entry ∈ log, entry.1.Delivers entry.2) ∧ log.flatMap Prod.snd <+: sent ∧
      (x.Settled → log.flatMap Prod.snd = sent)) ∧
    ∀ p : Packet, (∀ l : Link, (l.send p).1 ≠ .error .oversized ↔ p.encodedSize ≤ 65536) ∧
      (p.encodedSize ≤ 65536 ↔
        ∃ h body, Header.split? p.encode = some (h, body) ∧ h.bodyLength? = some body.length) := by
  have accepted (p : Packet) (l : Link) : (l.send p).1 ≠ .error .oversized ↔ p.Fits :=
    (not_congr Link.send_oversized_iff).trans Decidable.not_not
  refine ⟨?_, fun p => ⟨accepted p, p.fits_iff⟩⟩
  obtain ⟨taken, sound, log, same, delivers, packets⟩ := h.sound
  have front := front_of_unread sound.issued sound.carried sound.unread
  refine ⟨log, same, delivers, ?_, ?_⟩
  · rw [packets]
    exact (Transcript.ofBytes_front h.sendable front).2
  · rintro ⟨written, carried, read⟩
    have whole : taken = sent.flatMap Packet.encode := by
      rw [← sound.issued, Link.issued, written, ← carried, sound.unread, read, List.append_nil,
        List.append_nil]
    rw [packets, whole, Transcript.ofBytes_encodeAll h.sendable]

/-- Over streams that never fail a packet that one read takes in comes through at once. -/
theorem settles_at_once {p : Packet} (made : p.Made) (small : p.encodedSize ≤ 8192) :
    ∃ x, History [p] [.ofStream (Stream.empty.feed [p.encode])] x ∧ x.Settled := by
  have fits : p.Fits := Nat.le_trans small (by decide)
  have written : ((Deed.send p).perform (.ofStream .empty)).stream.written = p.encode ∧
      ((Deed.send p).perform (.ofStream .empty)).output = [] := by
    have flushed := (Link.enqueue (.ofStream .empty) p).flush_link
    have idle : (Link.enqueue (.ofStream .empty) p).stream.writes = [] := rfl
    dsimp only at flushed
    rw [idle, WriteRun.start_nil] at flushed
    rw [Deed.perform]
    obtain ⟨pending, sent⟩ := Link.send_flushed (l := .ofStream .empty) fits
    rw [sent, flushed]
    exact ⟨rfl, rfl⟩
  have sent : History ([] ++ (Deed.send p).queued) []
      ⟨(Deed.send p).perform (.ofStream .empty), .ofStream .empty, []⟩ :=
    .sender (.start rfl rfl) (.send p) fun _ same => Deed.send.inj same ▸ made
  rw [Deed.queued, if_pos fits, List.nil_append] at sent
  have carried : History [p] [] ⟨_, .ofStream (Stream.empty.feed [p.encode]), p.encode⟩ :=
    .network sent rfl (by rw [written.1]; exact List.prefix_refl _) (List.append_nil _)
  refine ⟨_, .read carried, written.2, written.1.symm, ?_⟩
  show (Link.read _).link.stream.unread = []
  have read : (Link.ofStream (Stream.empty.feed [p.encode])).read =
      (Link.ofStream .empty).take p.encode := by
    have arrived : (Stream.empty.feed [p.encode]).readUninterrupted Link.readLimit =
        (.ok p.encode, .empty) := if_pos (p.encode_length ▸ small)
    have size : p.encode.length = 16 + p.message.encodedSize := p.encode_length
    unfold Link.read Link.ofStream
    dsimp only
    rw [arrived]
    cases bytes : p.encode with
    | nil =>
      rw [bytes, List.length_nil] at size
      omega
    | cons b bs => rfl
  rw [read, (Link.take_stream _ _).1]
  rfl

def samplePacket : Packet := .ofMessage 3000 Message.sampleNotice

theorem passes_on_of_notice : ∃ x l, History [samplePacket] [l] x ∧ x.Settled ∧
    l.read.delivered = [⟨samplePacket, none⟩] := by
  obtain ⟨x, history, settled⟩ := settles_at_once (p := samplePacket) ⟨_, _, rfl⟩ (by decide)
  obtain ⟨⟨log, reads, delivers, -, all⟩, -⟩ := history.passes_on
  obtain ⟨⟨l, batch⟩, rfl, rfl⟩ := List.map_eq_singleton_iff.mp reads
  have batch : batch = [samplePacket] := (List.append_nil _).symm.trans (all settled)
  refine ⟨x, _, history, settled, ?_⟩
  rw [(delivers _ List.mem_cons_self).delivered, batch]
  rfl

end Conduit

end Muster
