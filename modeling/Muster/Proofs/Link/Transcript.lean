import Muster.Link.Basic
import Muster.Proofs.Wire.Codec

/-! What a byte string says when it is read in one go, and that to cut it into frames step by
step comes to the same. -/
namespace Muster

/-- The packets of all frames of a byte string, up to a frame that is not complete or whose
length cannot be trusted. -/
structure Transcript where
  packets : List Packet
  /-- The bytes from that frame on. -/
  rest : Bytes
  /-- Whether the rest begins with a header whose length is out of bounds. -/
  broken : Bool

namespace Transcript

/-- The packet of a frame, unless it is of another version, of an unknown kind or has a body
that cannot be read. -/
def packet? (frame : Bytes) : Option Packet :=
  let h := Header.ofBytes (frame.take 16)
  match Message.decode h.kind (frame.drop 16) with
  | .ok m => if h.version = 1 then some ⟨h, m⟩ else none
  | .error _ => none

/-- The length that the header at the front gives for its frame. -/
def total (bs : Bytes) : Int := (Header.ofBytes (bs.take 16)).totalLength.toInt

def prepend (ps : List Packet) (t : Transcript) : Transcript where
  packets := ps ++ t.packets
  rest := t.rest
  broken := t.broken

/-- Cuts bytes into frames, each as long as its header says. -/
def ofBytes (bs : Bytes) : Transcript :=
  if bs.length < 16 then ⟨[], bs, false⟩
  else if total bs < 16 ∨ 65536 < total bs then ⟨[], bs, true⟩
  else if bs.length < (total bs).toNat then ⟨[], bs, false⟩
  else (ofBytes (bs.drop (total bs).toNat)).prepend (packet? (bs.take (total bs).toNat)).toList
termination_by bs.length
decreasing_by
  rw [List.length_drop]
  omega

variable {bs : Bytes}

theorem total_append (long : 16 ≤ bs.length) (more : Bytes) : total (bs ++ more) = total bs := by
  unfold total
  rw [List.take_append_of_le_length long]

theorem ofBytes_short (short : bs.length < 16) : ofBytes bs = ⟨[], bs, false⟩ := by
  rw [ofBytes, if_pos short]

theorem ofBytes_nil : ofBytes [] = ⟨[], [], false⟩ := ofBytes_short (Nat.zero_lt_succ _)

theorem ofBytes_out (long : 16 ≤ bs.length) (out : total bs < 16 ∨ 65536 < total bs) :
    ofBytes bs = ⟨[], bs, true⟩ := by
  rw [ofBytes, if_neg (Nat.not_lt.mpr long), if_pos out]

theorem ofBytes_partial (atLeast : 16 ≤ total bs) (bounded : total bs ≤ 65536)
    (part : bs.length < (total bs).toNat) : ofBytes bs = ⟨[], bs, false⟩ := by
  have inside : ¬(total bs < 16 ∨ 65536 < total bs) := by omega
  rw [ofBytes, if_neg inside, if_pos part, ite_self]

theorem ofBytes_frame (frame : Bytes) (length : total frame = frame.length)
    (long : 16 ≤ frame.length) (bounded : frame.length ≤ 65536) (more : Bytes) :
    ofBytes (frame ++ more) = (ofBytes more).prepend (packet? frame).toList := by
  have total_eq : total (frame ++ more) = frame.length := by rw [total_append long, length]
  have count : (total (frame ++ more)).toNat = frame.length := by rw [total_eq, Int.toNat_natCast]
  rw [ofBytes, count, total_eq, List.drop_left, List.take_left, List.length_append,
    if_neg (by omega), if_neg (by omega), if_neg (by omega)]

theorem ofBytes_whole (atLeast : 16 ≤ total bs) (bounded : total bs ≤ 65536)
    (whole : (total bs).toNat ≤ bs.length) (more : Bytes) :
    ofBytes (bs ++ more) = (ofBytes (bs.drop (total bs).toNat ++ more)).prepend
      (packet? (bs.take (total bs).toNat)).toList := by
  have length : (bs.take (total bs).toNat).length = (total bs).toNat := List.length_take_of_le whole
  have same : total (bs.take (total bs).toNat ++ bs.drop (total bs).toNat) = _ :=
    total_append (by omega) _
  rw [List.take_append_drop] at same
  have front := ofBytes_frame (bs.take (total bs).toNat) (by omega) (by omega) (by omega)
    (bs.drop (total bs).toNat ++ more)
  rwa [← List.append_assoc, List.take_append_drop] at front

/-- A frame that is complete stays so, and nothing after it changes its packet. -/
theorem ofBytes_append (bs more : Bytes) :
    ofBytes (bs ++ more) = (ofBytes ((ofBytes bs).rest ++ more)).prepend (ofBytes bs).packets := by
  fun_induction ofBytes bs with
  | case1 bs short => rfl
  | case2 bs long out => rfl
  | case3 bs long bounded short => rfl
  | case4 bs long bounded whole ih =>
    rw [ofBytes_whole (by omega) (by omega) (by omega), ih]
    simp only [prepend, List.append_assoc]

/-- Behind a length that cannot be trusted nothing can be read. -/
theorem ofBytes_append_of_broken (broken : (ofBytes bs).broken = true) (more : Bytes) :
    ofBytes (bs ++ more) = { ofBytes bs with rest := (ofBytes bs).rest ++ more } := by
  fun_induction ofBytes bs with
  | case1 bs short => contradiction
  | case2 bs long out =>
    rw [← total_append (by omega) more] at out
    rw [ofBytes_out _ out]
    rw [List.length_append]
    omega
  | case3 bs long bounded short => contradiction
  | case4 bs long bounded whole ih =>
    rw [ofBytes_whole (by omega) (by omega) (by omega), ih broken]
    rfl

theorem not_broken_of_append (more : Bytes) (h : (ofBytes (bs ++ more)).broken = false) :
    (ofBytes bs).broken = false := by
  rw [Bool.eq_false_iff] at h ⊢
  intro broken
  rw [ofBytes_append_of_broken broken] at h
  exact h broken

end Transcript

/-- What of a frame was read before the stage. -/
def Stage.begun : Stage → Bytes
  | header => []
  | body h => h.toBytes

/-- Whether the length of the body that is read next is known. -/
def Stage.Sound : Stage → Prop
  | header => True
  | body h => h.bodyLength?.isSome

theorem Header.bodyLength?_eq_some {h : Header} {n : Nat} : h.bodyLength? = some n ↔
    h.totalLength.toInt = 16 + n ∧ 16 + n ≤ 65536 := by
  unfold bodyLength?
  dsimp only
  split
  · rename_i bounded
    unfold size maxPacketSize at *
    rw [Option.some.injEq]
    omega
  · rename_i out
    unfold size maxPacketSize at out
    exact ⟨nofun, fun fits => absurd ⟨by omega, by omega⟩ out⟩

theorem Header.bodyLength?_eq_none {h : Header} : h.bodyLength? = none ↔
    h.totalLength.toInt < 16 ∨ 65536 < h.totalLength.toInt := by
  unfold bodyLength?
  dsimp only
  split
  · rename_i bounded
    unfold size maxPacketSize at bounded
    exact ⟨nofun, fun out => by omega⟩
  · rename_i out
    unfold size maxPacketSize at out
    exact ⟨fun _ => by omega, fun _ => rfl⟩

namespace Transcript

theorem ofBytes_header (h : Header) (bs : Bytes) :
    Header.ofBytes ((h.toBytes ++ bs).take 16) = h := by
  have front : (h.toBytes ++ bs).take 16 = h.toBytes := List.take_left' h.toBytes_length
  rw [front, Header.ofBytes_toBytes]

theorem total_header (h : Header) (bs : Bytes) : total (h.toBytes ++ bs) = h.totalLength.toInt := by
  rw [total, ofBytes_header]

def ofFrames (frames : List (Header × Bytes)) : List Packet :=
  frames.filterMap fun (h, body) => Packet.ofFrame? h body

theorem ofFrames_cons (h : Header) (body : Bytes) (frames : List (Header × Bytes)) :
    ofFrames ((h, body) :: frames) = (Packet.ofFrame? h body).toList ++ ofFrames frames := by
  unfold ofFrames
  cases packet : Packet.ofFrame? h body with
  | none => exact List.filterMap_cons_none packet
  | some p => exact List.filterMap_cons_some packet

theorem packet?_frame (h : Header) (body : Bytes) :
    packet? (h.toBytes ++ body) = Packet.ofFrame? h body := by
  have behind : (h.toBytes ++ body).drop 16 = body := List.drop_left' h.toBytes_length
  unfold packet? Packet.ofFrame? Header.isSupported Packet.ofBody? Header.currentVersion
  rw [ofBytes_header, behind]
  dsimp only
  cases Message.decode h.kind body with
  | ok m => simp [Except.map, Except.toOption]
  | error e => simp [Except.map, Except.toOption]

/-- As long as fewer bytes are there than the stage waits for, no frame is complete. -/
theorem ofBytes_begun (stage : Stage) {bs : Bytes} (waiting : bs.length < stage.awaited) :
    ofBytes (stage.begun ++ bs) = ⟨[], stage.begun ++ bs, false⟩ := by
  cases stage with
  | header => exact ofBytes_short waiting
  | body h =>
    cases known : h.bodyLength? with
    | none =>
      rw [Stage.awaited, known] at waiting
      exact absurd waiting (Nat.not_lt_zero _)
    | some n =>
      rw [Stage.awaited, known, Option.getD_some] at waiting
      obtain ⟨total_eq, bounded⟩ := Header.bodyLength?_eq_some.mp known
      rw [← total_header h bs] at total_eq
      have length : (h.toBytes ++ bs).length = 16 + bs.length := by
        rw [List.length_append, Header.toBytes_length, Header.size]
      show ofBytes (h.toBytes ++ bs) = ⟨[], h.toBytes ++ bs, false⟩
      exact ofBytes_partial (by omega) (by omega) (by omega)

/-- To cut frames step by step, beginning in the middle of one, is to cut them all at once. -/
theorem ofBytes_cut {stage : Stage} (sound : stage.Sound) (bs : Bytes) :
    let frames := Frames.cut stage bs
    ofBytes (stage.begun ++ bs) =
      ⟨ofFrames frames.complete, frames.stage.begun ++ frames.rest, !frames.sound⟩ ∧
    (frames.sound = true → frames.rest.length < frames.stage.awaited) := by
  fun_induction Frames.cut stage bs with
  | case1 bs none =>
    have short := Header.split?_eq_none_iff.mp none
    exact ⟨ofBytes_begun .header short, fun _ => short⟩
  | case2 bs h rest split known ih =>
    obtain rfl := Header.split?_eq_some_iff.mp split
    exact ih known
  | case3 bs h rest split unknown =>
    obtain rfl := Header.split?_eq_some_iff.mp split
    have none : h.bodyLength? = none := Option.not_isSome_iff_eq_none.mp unknown
    have long : 16 ≤ (h.toBytes ++ rest).length := by
      rw [List.length_append, Header.toBytes_length]
      exact Nat.le_add_right ..
    refine ⟨ofBytes_out long ?_, nofun⟩
    show total (h.toBytes ++ rest) < 16 ∨ _ < total (h.toBytes ++ rest)
    rw [total_header]
    exact Header.bodyLength?_eq_none.mp none
  | case4 bs h none =>
    have part := Bytes.split?_eq_none_iff.mp none
    exact ⟨ofBytes_begun (.body h) part, fun _ => part⟩
  | case5 bs h body rest split le later ih =>
    -- The header was cut before: with the body behind it, the first frame is there again.
    obtain ⟨n, known⟩ := Option.isSome_iff_exists.mp sound
    obtain ⟨total_eq, bounded⟩ := Header.bodyLength?_eq_some.mp known
    rw [← total_header h body] at total_eq
    obtain ⟨size, rfl⟩ := Bytes.split?_eq_some_iff.mp split
    have awaited : Stage.awaited (.body h) = n := by rw [Stage.awaited, known, Option.getD_some]
    have length : (h.toBytes ++ body).length = 16 + n := by
      rw [List.length_append, Header.toBytes_length, Header.size, size, awaited]
    obtain ⟨transcript, shorter⟩ := ih trivial
    refine ⟨?_, shorter⟩
    have front := ofBytes_frame (h.toBytes ++ body) (by omega) (by omega) (by omega) rest
    show ofBytes (h.toBytes ++ (body ++ rest)) = _
    rw [← List.append_assoc, front, packet?_frame]
    have transcript : ofBytes rest = _ := transcript
    rw [transcript, prepend, ← ofFrames_cons]

end Transcript

/-- Passes packets on in order. A response goes with the request that is outstanding under its
number, which it uses up; if there is none, it is dropped. -/
def Pending.receive : Pending → List Packet → List Delivery × Pending
  | pending, [] => ([], pending)
  | pending, p :: ps =>
    match p.message.role, pending[p.seq]? with
    | .response, none => receive pending ps
    | .response, some request =>
      let (later, left) := receive (pending.erase p.seq) ps
      (⟨p, some request⟩ :: later, left)
    | .request, _ | .notice, _ =>
      let (later, left) := receive pending ps
      (⟨p, none⟩ :: later, left)

namespace Pending

theorem receive_cons (pending : Pending) (p : Packet) (ps : List Packet) :
    pending.receive (p :: ps) =
      ((pending.pass p).1.toList ++ ((pending.pass p).2.receive ps).1,
        ((pending.pass p).2.receive ps).2) := by
  unfold pass
  rw [receive]
  cases role : p.message.role with
  | response =>
    cases pending[p.seq]? with
    | none => rfl
    | some request => rfl
  | request => rfl
  | notice => rfl

theorem receive_append (pending : Pending) (ps qs : List Packet) :
    pending.receive (ps ++ qs) =
      ((pending.receive ps).1 ++ ((pending.receive ps).2.receive qs).1,
        ((pending.receive ps).2.receive qs).2) := by
  induction ps generalizing pending with
  | nil => rfl
  | cons p ps ih =>
    rw [List.cons_append, receive_cons, receive_cons, ih]
    simp only [List.append_assoc]

theorem passAll_eq (pending : Pending) (frames : List (Header × Bytes)) :
    pending.passAll frames = pending.receive (Transcript.ofFrames frames) := by
  induction frames generalizing pending with
  | nil => rfl
  | cons frame frames ih =>
    obtain ⟨h, body⟩ := frame
    rw [Transcript.ofFrames_cons, passAll]
    cases Packet.ofFrame? h body with
    | none => exact ih pending
    | some p =>
      dsimp only
      rw [Option.toList_some, List.singleton_append, receive_cons, ih]

end Pending

def ReadRun.Failed (run : ReadRun) : Prop := run.result = .error .invalidLength

instance (run : ReadRun) : Decidable run.Failed :=
  match result : run.result with
  | .ok _ => isFalse fun failed => nomatch result.symm.trans failed
  | .error e =>
    decidable_of_iff (e = .invalidLength) <| by
      unfold ReadRun.Failed
      rw [result, Except.error.injEq]

namespace Link

def unread (l : Link) : Bytes := l.stage.begun ++ l.input

/-- Whether the link has cut all frames that are complete. -/
def Waiting (l : Link) : Prop := l.input.length < l.stage.awaited

theorem Waiting.sound {l : Link} (h : l.Waiting) : l.stage.Sound := by
  unfold Waiting at h
  cases stage : l.stage with
  | header => trivial
  | body header =>
    rw [stage, Stage.awaited] at h
    cases known : header.bodyLength? with
    | none =>
      rw [known] at h
      exact absurd h (Nat.not_lt_zero _)
    | some n =>
      show header.bodyLength?.isSome
      rw [known]
      rfl

theorem take_stream (l : Link) (bs : Bytes) :
    (l.take bs).link.stream = l.stream ∧ (l.take bs).link.output = l.output := by
  unfold take
  dsimp only
  split
  · exact ⟨rfl, rfl⟩
  · exact ⟨rfl, rfl⟩

theorem Waiting.transcript {l : Link} (waiting : l.Waiting) :
    Transcript.ofBytes (l.unread ++ []) = ⟨[], l.unread, false⟩ := by
  rw [List.append_nil]
  exact Transcript.ofBytes_begun _ waiting

/-- What is read together comes to what the bytes since the last packet say. -/
theorem take_transcript {l : Link} (waiting : l.Waiting) (bs : Bytes) :
    let t := Transcript.ofBytes (l.unread ++ bs)
    let received := l.pending.receive t.packets
    (l.take bs).delivered = received.1 ∧ (l.take bs).link.pending = received.2 ∧
      ((l.take bs).Failed ↔ t.broken = true) ∧
      (¬(l.take bs).Failed → (l.take bs).link.unread = t.rest ∧ (l.take bs).link.Waiting) := by
  obtain ⟨transcript, shorter⟩ := Transcript.ofBytes_cut waiting.sound (l.input ++ bs)
  rw [← List.append_assoc] at transcript
  unfold unread
  dsimp only
  rw [transcript, ← Pending.passAll_eq]
  unfold take
  dsimp only
  split
  · rename_i sound
    refine ⟨rfl, rfl, ⟨nofun, fun broken => ?_⟩, fun _ => ⟨rfl, shorter sound⟩⟩
    rw [sound] at broken
    contradiction
  · rename_i broken
    refine ⟨rfl, rfl, ⟨fun _ => ?_, fun _ => rfl⟩, fun passed => absurd rfl passed⟩
    rwa [Bool.not_eq_true', ← Bool.not_eq_true]

end Link
end Muster
