import Muster.Bytes.BigEndian

/-! Signed words of thirty-two and sixty-four bits as four and eight bytes, in two's
complement and with the most significant byte first. -/
namespace Muster.Bytes

@[simp] theorem span_four : span 4 = 4294967296 := rfl

@[simp] theorem span_eight : span 8 = 18446744073709551616 := rfl

def ofInt32 (n : Int32) : Bytes := ofNat 4 n.toUInt32.toNat

def toInt32 (bs : Bytes) : Int32 := (UInt32.ofNat (toNat bs)).toInt32

def ofInt64 (n : Int64) : Bytes := ofNat 8 n.toUInt64.toNat

def toInt64 (bs : Bytes) : Int64 := (UInt64.ofNat (toNat bs)).toInt64

@[simp] theorem ofInt32_length (n : Int32) : (ofInt32 n).length = 4 := by simp [ofInt32]

@[simp] theorem ofInt64_length (n : Int64) : (ofInt64 n).length = 8 := by simp [ofInt64]

@[simp] theorem toInt32_ofInt32 (n : Int32) : toInt32 (ofInt32 n) = n := by
  simp only [toInt32, ofInt32, toNat_ofNat]
  rw [Nat.mod_eq_of_lt (by simpa using n.toUInt32.toNat_lt)]
  simp

@[simp] theorem toInt64_ofInt64 (n : Int64) : toInt64 (ofInt64 n) = n := by
  simp only [toInt64, ofInt64, toNat_ofNat]
  rw [Nat.mod_eq_of_lt (by simpa using n.toUInt64.toNat_lt)]
  simp

theorem ofInt32_toInt32 {bs : Bytes} (h : bs.length = 4) : ofInt32 (toInt32 bs) = bs := by
  have hlt := toNat_lt bs
  simp only [toInt32, ofInt32, UInt32.toUInt32_toInt32, UInt32.toNat_ofNat']
  rw [h] at hlt
  rw [Nat.mod_eq_of_lt (by simpa using hlt), ← h, ofNat_toNat]

theorem ofInt64_toInt64 {bs : Bytes} (h : bs.length = 8) : ofInt64 (toInt64 bs) = bs := by
  have hlt := toNat_lt bs
  simp only [toInt64, ofInt64, UInt64.toUInt64_toInt64, UInt64.toNat_ofNat']
  rw [h] at hlt
  rw [Nat.mod_eq_of_lt (by simpa using hlt), ← h, ofNat_toNat]

end Muster.Bytes
