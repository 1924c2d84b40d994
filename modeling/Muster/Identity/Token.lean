import Muster.Bytes.Hex
import Muster.Bytes.Sha256

/-! Tokens: secrets of thirty-two bytes. The null token stands for no token. -/
namespace Muster

structure Token where
  bytes : Bytes
  length_eq : bytes.length = 32
deriving DecidableEq

namespace Token

def size : Nat := 32

@[ext] theorem ext {a b : Token} (h : a.bytes = b.bytes) : a = b := by
  cases a; cases b; congr

def ofByte (b : UInt8) : Token := ⟨List.replicate 32 b, by simp⟩

def null : Token := ofByte 0

instance : Inhabited Token := ⟨null⟩

def isNull (t : Token) : Bool := t == null

def ofBytes? (bs : Bytes) : Option Token :=
  if h : bs.length = 32 then some ⟨bs, h⟩ else none

@[simp] theorem ofBytes?_bytes (t : Token) : ofBytes? t.bytes = some t := by
  simp [ofBytes?, t.length_eq]

/-- The token shared by all who know the secret. -/
def ofSecret (secret : String) : Token :=
  ⟨Sha256.digest secret.toByteArray.data.toList, by simp⟩

def ofNat (n : Nat) : Token := ⟨Bytes.ofNat 32 n, by simp⟩

/-- The first four bytes, for logs. -/
def summary (t : Token) : String := s!"Token({Bytes.toHex (t.bytes.take 4)}..)"

end Token
end Muster
