import Muster.Wire.Packet

/-! Cutting a byte string into frames, each a header and the bytes of its body. A header
whose length is out of bounds makes the rest of the bytes unreadable. -/
namespace Muster

/-- What is read next: a header, or the body of a header that was read. -/
inductive Stage where
  | header
  | body (h : Header)
deriving DecidableEq

/-- How many bytes the stage waits for. -/
def Stage.awaited : Stage → Nat
  | header => Header.size
  | body h => h.bodyLength?.getD 0

structure Frames where
  complete : List (Header × Bytes)
  stage : Stage
  rest : Bytes
  /-- Whether no header was out of bounds. -/
  sound : Bool

theorem Header.split?_length {bs rest : Bytes} {h : Header} (hs : split? bs = some (h, rest)) :
    bs.length = rest.length + 16 := by
  rw [split?_eq_some_iff.mp hs, List.length_append, toBytes_length, size, Nat.add_comm]

/-- The frames at the front of the bytes, up to the first that is not complete. -/
def Frames.cut (stage : Stage) (bs : Bytes) : Frames :=
  match stage with
  | .header =>
    match _hs : Header.split? bs with
    | none => ⟨[], .header, bs, true⟩
    | some (h, rest) =>
      if h.bodyLength?.isSome then cut (.body h) rest else ⟨[], .header, bs, false⟩
  | .body h =>
    match hs : Bytes.split? (Stage.awaited (.body h)) bs with
    | none => ⟨[], .body h, bs, true⟩
    | some (body, rest) =>
      have : rest.length ≤ bs.length := by
        rw [(Bytes.split?_eq_some_iff.mp hs).2]
        simp
      let later := cut .header rest
      { later with complete := (h, body) :: later.complete }
termination_by 2 * bs.length + (if stage = .header then 0 else 1)
decreasing_by
  · have := Header.split?_length _hs
    simp only [if_false, if_true]
    omega
  · simp only [if_false, if_true]
    omega

/-- The packet of a frame. Frames of another version, of an unknown kind or with a body that
cannot be read are dropped. -/
def Packet.ofFrame? (h : Header) (body : Bytes) : Option Packet :=
  if h.isSupported then (Packet.ofBody? h body).toOption else none

end Muster
