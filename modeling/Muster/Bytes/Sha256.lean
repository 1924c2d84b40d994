import Muster.Bytes.BigEndian

/-! The SHA-256 digest of a byte string. The message is padded to whole blocks of sixteen
words and every block updates eight chaining words in sixty-four rounds. -/
namespace Muster.Sha256

/-- The fractional bits of the cube roots of the first sixty-four primes, one per round. -/
def roundConstants : List UInt32 :=
  [0x428a2f98, 0x71374491, 0xb5c0fbcf, 0xe9b5dba5, 0x3956c25b, 0x59f111f1,
   0x923f82a4, 0xab1c5ed5, 0xd807aa98, 0x12835b01, 0x243185be, 0x550c7dc3,
   0x72be5d74, 0x80deb1fe, 0x9bdc06a7, 0xc19bf174, 0xe49b69c1, 0xefbe4786,
   0x0fc19dc6, 0x240ca1cc, 0x2de92c6f, 0x4a7484aa, 0x5cb0a9dc, 0x76f988da,
   0x983e5152, 0xa831c66d, 0xb00327c8, 0xbf597fc7, 0xc6e00bf3, 0xd5a79147,
   0x06ca6351, 0x14292967, 0x27b70a85, 0x2e1b2138, 0x4d2c6dfc, 0x53380d13,
   0x650a7354, 0x766a0abb, 0x81c2c92e, 0x92722c85, 0xa2bfe8a1, 0xa81a664b,
   0xc24b8b70, 0xc76c51a3, 0xd192e819, 0xd6990624, 0xf40e3585, 0x106aa070,
   0x19a4c116, 0x1e376c08, 0x2748774c, 0x34b0bcb5, 0x391c0cb3, 0x4ed8aa4a,
   0x5b9cca4f, 0x682e6ff3, 0x748f82ee, 0x78a5636f, 0x84c87814, 0x8cc70208,
   0x90befffa, 0xa4506ceb, 0xbef9a3f7, 0xc67178f2]

structure Words where
  a : UInt32
  b : UInt32
  c : UInt32
  d : UInt32
  e : UInt32
  f : UInt32
  g : UInt32
  h : UInt32

/-- The fractional bits of the square roots of the first eight primes. -/
def Words.start : Words :=
  ⟨0x6a09e667, 0xbb67ae85, 0x3c6ef372, 0xa54ff53a,
   0x510e527f, 0x9b05688c, 0x1f83d9ab, 0x5be0cd19⟩

def Words.add (s t : Words) : Words :=
  ⟨s.a + t.a, s.b + t.b, s.c + t.c, s.d + t.d, s.e + t.e, s.f + t.f, s.g + t.g, s.h + t.h⟩

def rotateRight (x n : UInt32) : UInt32 := x >>> n ||| x <<< (32 - n)

def Words.round (s : Words) (k w : UInt32) : Words :=
  let mixE := rotateRight s.e 6 ^^^ rotateRight s.e 11 ^^^ rotateRight s.e 25
  let choice := (s.e &&& s.f) ^^^ (~~~s.e &&& s.g)
  let t := s.h + mixE + choice + k + w
  let mixA := rotateRight s.a 2 ^^^ rotateRight s.a 13 ^^^ rotateRight s.a 22
  let majority := (s.a &&& s.b) ^^^ (s.a &&& s.c) ^^^ (s.b &&& s.c)
  ⟨t + (mixA + majority), s.a, s.b, s.c, s.d + t, s.e, s.f, s.g⟩

/-- The word that follows sixteen consecutive words of the message schedule. -/
def nextWord (window : List UInt32) : UInt32 :=
  let early := window.getD 1 0
  let late := window.getD 14 0
  let mixEarly := rotateRight early 7 ^^^ rotateRight early 18 ^^^ early >>> 3
  let mixLate := rotateRight late 17 ^^^ rotateRight late 19 ^^^ late >>> 10
  window.getD 0 0 + mixEarly + window.getD 9 0 + mixLate

/-- Works one block of sixteen words into the chaining words. The schedule is a window of
sixteen words that moves one word further with every round. -/
def Words.compress (s : Words) (block : List UInt32) : Words :=
  let step := fun (window, t) k => (window.drop 1 ++ [nextWord window], t.round k (window.headD 0))
  s.add (roundConstants.foldl step (block, s)).2

def Words.absorb : Nat → Words → List UInt32 → Words
  | 0, s, _ => s
  | n + 1, s, ws => absorb n (s.compress (ws.take 16)) (ws.drop 16)

def wordsOfBytes : Bytes → List UInt32
  | a :: b :: c :: d :: rest => UInt32.ofNat (Bytes.toNat [a, b, c, d]) :: wordsOfBytes rest
  | _ => []

/-- A one bit, zeros up to eight bytes before the end of a block, and the length in bits. -/
def pad (bs : Bytes) : Bytes :=
  bs ++ 0x80 :: List.replicate ((119 - bs.length % 64) % 64) 0 ++ Bytes.ofNat 8 (8 * bs.length)

def Words.toBytes (s : Words) : Bytes :=
  [s.a, s.b, s.c, s.d, s.e, s.f, s.g, s.h].flatMap fun w => Bytes.ofNat 4 w.toNat

def digest (bs : Bytes) : Bytes :=
  let ws := wordsOfBytes (pad bs)
  (Words.start.absorb (ws.length / 16) ws).toBytes

@[simp] theorem digest_length (bs : Bytes) : (digest bs).length = 32 := by
  simp [digest, Words.toBytes]

end Muster.Sha256
