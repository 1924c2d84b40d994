import Muster.Bytes.Word
import Muster.Wire.Message

/-! The bytes that write the fields of a body, in their order. Numbers are big-endian, names
and member lists carry their length in front, tokens do not. -/
namespace Muster

namespace NodeId

def encode (id : NodeId) : Bytes := Bytes.ofNat 4 id.size ++ id.utf8

def encodedSize (id : NodeId) : Nat := 4 + id.size

@[simp] theorem encode_length (id : NodeId) : id.encode.length = id.encodedSize := by
  simp [encode, encodedSize]

/-- The longest name takes this many bytes. -/
def maxEncodedSize : Nat := 4 + maxSize

theorem encodedSize_le (id : NodeId) : id.encodedSize ≤ maxEncodedSize :=
  Nat.add_le_add_left id.size_le 4

/-- A list of names: how many there are, and each of them. -/
def encodeList (ids : List NodeId) : Bytes :=
  Bytes.ofNat 4 ids.length ++ ids.flatMap encode

def encodedListSize : List NodeId → Nat
  | [] => 4
  | id :: ids => id.encodedSize + encodedListSize ids

@[simp] theorem encodeList_length (ids : List NodeId) :
    (encodeList ids).length = encodedListSize ids := by
  simp only [encodeList, List.length_append, Bytes.ofNat_length]
  induction ids with
  | nil => rfl
  | cons id ids ih =>
    rw [List.flatMap_cons, List.length_append, encode_length, encodedListSize, ← ih]
    omega

end NodeId

def Code.encode {α : Type} [Code α] (c : α) : Bytes := Bytes.ofInt32 (Code.number c)

@[simp] theorem Code.encode_length {α : Type} [Code α] (c : α) :
    (Code.encode c).length = 4 := by
  simp [Code.encode]

@[simp] theorem Token.bytes_length (t : Token) : t.bytes.length = Token.size := t.length_eq

namespace GroupRef

def encode (g : GroupRef) : Bytes := g.id.encode ++ g.token.bytes

def encodedSize (g : GroupRef) : Nat := g.id.encodedSize + Token.size

@[simp] theorem encode_length (g : GroupRef) : g.encode.length = g.encodedSize := by
  simp [encode, encodedSize]

end GroupRef

namespace SyncTerms

def encode (t : SyncTerms) : Bytes := Bytes.ofInt64 t.timeout ++ t.point.encode

def encodedSize (t : SyncTerms) : Nat := 8 + t.point.encodedSize

@[simp] theorem encode_length (t : SyncTerms) : t.encode.length = t.encodedSize := by
  simp [encode, encodedSize]

end SyncTerms

namespace Body

def encode : Body → Bytes
  | registerRequest client => client.encode
  | registerResponse client code => client.bytes ++ Code.encode code
  | joinRequest group => group.encode
  | joinResponse group code => group.encode ++ Code.encode code
  | membershipNotice group members code =>
    group.encode ++ (NodeId.encodeList members ++ Code.encode code)
  | leaveRequest group => group.encode
  | leaveResponse group code => group.encode ++ Code.encode code
  | syncRequest group terms => group.encode ++ terms.encode
  | syncResponse group members terms code =>
    group.encode ++ (NodeId.encodeList members ++ (terms.encode ++ Code.encode code))
  | progressNotice group arrived point code =>
    group.encode ++ (NodeId.encodeList arrived ++ (point.encode ++ Code.encode code))

/-- The number of bytes that a body takes, found without writing it. -/
def encodedSize : Body → Nat
  | registerRequest client => client.encodedSize
  | registerResponse _ _ => Token.size + 4
  | joinRequest group => group.encodedSize
  | joinResponse group _ => group.encodedSize + 4
  | membershipNotice group members _ =>
    group.encodedSize + NodeId.encodedListSize members + 4
  | leaveRequest group => group.encodedSize
  | leaveResponse group _ => group.encodedSize + 4
  | syncRequest group terms => group.encodedSize + terms.encodedSize
  | syncResponse group members terms _ =>
    group.encodedSize + NodeId.encodedListSize members + terms.encodedSize + 4
  | progressNotice group arrived point _ =>
    group.encodedSize + NodeId.encodedListSize arrived + point.encodedSize + 4

@[simp] theorem encode_length (b : Body) : b.encode.length = b.encodedSize := by
  cases b <;> simp [encode, encodedSize, Nat.add_assoc]

end Body

namespace Message

def encode (m : Message) : Bytes := m.sender.bytes ++ m.body.encode

def encodedSize (m : Message) : Nat := Token.size + m.body.encodedSize

@[simp] theorem encode_length (m : Message) : m.encode.length = m.encodedSize := by
  simp [encode, encodedSize]

end Message
end Muster
