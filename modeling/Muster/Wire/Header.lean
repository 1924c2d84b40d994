import Muster.Bytes.Word

/-! The header in front of every body: version, length of header and body together,
sequence number and kind, four bytes each. -/
namespace Muster

structure Header where
  version : Int32
  totalLength : Int32
  seq : Int32
  kind : Int32
deriving DecidableEq

namespace Header

def size : Nat := 16

/-- The only version that is understood. -/
def currentVersion : Int32 := 1

/-- A length above this bound cannot be trusted. -/
def maxPacketSize : Nat := 65536

/-- The header of a body of this many bytes. -/
def ofBody (kind seq : Int32) (bodyLength : Nat) : Header :=
  ⟨currentVersion, Int32.ofNat (size + bodyLength), seq, kind⟩

def toBytes (h : Header) : Bytes :=
  Bytes.ofInt32 h.version ++ (Bytes.ofInt32 h.totalLength ++
    (Bytes.ofInt32 h.seq ++ Bytes.ofInt32 h.kind))

def ofBytes (bs : Bytes) : Header :=
  ⟨Bytes.toInt32 (bs.take 4), Bytes.toInt32 ((bs.drop 4).take 4),
    Bytes.toInt32 ((bs.drop 8).take 4), Bytes.toInt32 ((bs.drop 12).take 4)⟩

/-- The header at the front and what follows it, if there are enough bytes. -/
def split? (bs : Bytes) : Option (Header × Bytes) :=
  (Bytes.split? size bs).map fun (front, rest) => (ofBytes front, rest)

/-- The length of the body, unless the total is out of bounds. -/
def bodyLength? (h : Header) : Option Nat :=
  let total := h.totalLength.toInt
  if size ≤ total ∧ total ≤ maxPacketSize then some (total.toNat - size) else none

def isSupported (h : Header) : Bool := h.version == currentVersion

@[simp] theorem toBytes_length (h : Header) : h.toBytes.length = size := by
  simp [toBytes, size]

@[simp] theorem ofBytes_toBytes (h : Header) : ofBytes h.toBytes = h := by
  have take4 (n : Int32) (r : Bytes) : (Bytes.ofInt32 n ++ r).take 4 = Bytes.ofInt32 n :=
    List.take_left' (Bytes.ofInt32_length n)
  have drop4 (n : Int32) (r : Bytes) : (Bytes.ofInt32 n ++ r).drop 4 = r :=
    List.drop_left' (Bytes.ofInt32_length n)
  have all4 (n : Int32) : (Bytes.ofInt32 n).take 4 = Bytes.ofInt32 n :=
    List.take_of_length_le (by simp)
  have drop8 (bs : Bytes) : bs.drop 8 = (bs.drop 4).drop 4 := by simp
  have drop12 (bs : Bytes) : bs.drop 12 = ((bs.drop 4).drop 4).drop 4 := by simp
  simp only [ofBytes, toBytes, drop8, drop12, take4, drop4, all4, Bytes.toInt32_ofInt32]

theorem toBytes_ofBytes {bs : Bytes} (h : bs.length = size) : (ofBytes bs).toBytes = bs := by
  simp only [size] at h
  simp only [ofBytes, toBytes]
  rw [Bytes.ofInt32_toInt32 (by simp; omega), Bytes.ofInt32_toInt32 (by simp; omega),
    Bytes.ofInt32_toInt32 (by simp; omega), Bytes.ofInt32_toInt32 (by simp; omega)]
  have h4 : (bs.drop 12).take 4 = bs.drop 12 := List.take_of_length_le (by simp; omega)
  rw [h4]
  have join (k : Nat) : (bs.drop k).take 4 ++ bs.drop (k + 4) = bs.drop k := by
    rw [← List.drop_drop]
    exact List.take_append_drop 4 (bs.drop k)
  have j8 := join 8
  have j4 := join 4
  have j0 := join 0
  simp only [Nat.reduceAdd, List.drop_zero] at j8 j4 j0
  rw [j8, j4, j0]

theorem split?_eq_some_iff {bs rest : Bytes} {h : Header} :
    split? bs = some (h, rest) ↔ bs = h.toBytes ++ rest := by
  simp only [split?, Option.map_eq_some_iff, Prod.exists, Prod.mk.injEq]
  constructor
  · rintro ⟨front, r, hs, rfl, rfl⟩
    obtain ⟨hl, rfl⟩ := Bytes.split?_eq_some_iff.mp hs
    rw [toBytes_ofBytes hl]
  · rintro rfl
    exact ⟨h.toBytes, rest, Bytes.split?_append rest h.toBytes_length, ofBytes_toBytes h, rfl⟩

theorem split?_eq_none_iff {bs : Bytes} : split? bs = none ↔ bs.length < size := by
  simp [split?, Bytes.split?_eq_none_iff]

end Header
end Muster
