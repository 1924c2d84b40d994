import Muster.Wire.Header
import Muster.Wire.Encoding
import Muster.Wire.Decoding

/-! Packets: a message with its header. The header's length is set when a packet is written,
so that it always counts the bytes that follow. -/
namespace Muster

structure Packet where
  header : Header
  message : Message
deriving DecidableEq

namespace Packet

def ofMessage (seq : Int32) (m : Message) : Packet :=
  ⟨.ofBody m.kind.number seq m.encodedSize, m⟩

def ofBody? (h : Header) (bs : Bytes) : Except DecodeError Packet :=
  (Message.decode h.kind bs).map (Packet.mk h)

def seq (p : Packet) : Int32 := p.header.seq

def encodedSize (p : Packet) : Nat := Header.size + p.message.encodedSize

/-- Receivers refuse larger packets. -/
def Fits (p : Packet) : Prop := p.encodedSize ≤ Header.maxPacketSize

instance (p : Packet) : Decidable p.Fits := inferInstanceAs (Decidable (_ ≤ _))

def encode (p : Packet) : Bytes :=
  { p.header with totalLength := Int32.ofNat p.encodedSize }.toBytes ++ p.message.encode

@[simp] theorem encode_length (p : Packet) : p.encode.length = p.encodedSize := by
  simp [encode, encodedSize]

end Packet

/-- A packet as it is passed on: a response comes with the request that it answers. -/
structure Delivery where
  packet : Packet
  request : Option Message
deriving DecidableEq

namespace Delivery

/-- The kind of handler that takes a delivery. A response whose request is of another kind
is taken by none. -/
def handler? (d : Delivery) : Option Kind :=
  let k := d.packet.message.kind
  if k.role ≠ .response ∨ d.request.map Message.kind = k.answers? then some k else none

end Delivery

/-- The most members of a group whose answers and notices all fit into a packet. The largest
of them answers an arrival at a sync point. -/
def maxGroupSize : Nat :=
  (Header.maxPacketSize - Header.size - Token.size - NodeId.maxEncodedSize - Token.size - 4 - 8
    - NodeId.maxEncodedSize - 4) / NodeId.maxEncodedSize

end Muster
