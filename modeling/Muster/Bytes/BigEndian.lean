/-! Bytes as lists, and whole numbers written in a fixed number of bytes with the most
significant one first. Writing keeps the low bytes; reading back gives the number modulo
the size of the field. -/
namespace Muster

abbrev Bytes := List UInt8

namespace Bytes

/-- How many numbers `n` bytes can write. -/
def span : Nat → Nat
  | 0 => 1
  | n + 1 => span n * 256

theorem span_pos (n : Nat) : 0 < span n := by
  induction n with
  | zero => exact Nat.one_pos
  | succ n ih => exact Nat.mul_pos ih (by decide)

theorem span_add (m n : Nat) : span (m + n) = span m * span n := by
  induction n with
  | zero => exact (Nat.mul_one (span m)).symm
  | succ n ih => rw [← Nat.add_assoc, span, span, ih, Nat.mul_assoc]

/-- The `n` low bytes of `v`, most significant first. -/
def ofNat : Nat → Nat → Bytes
  | 0, _ => []
  | n + 1, v => UInt8.ofNat (v / span n) :: ofNat n v

/-- The number that these bytes write. -/
def toNat (bs : Bytes) : Nat :=
  bs.foldl (fun v b => v * 256 + b.toNat) 0

@[simp] theorem ofNat_length (n v : Nat) : (ofNat n v).length = n := by
  induction n with
  | zero => rfl
  | succ n ih => simp [ofNat, ih]

private theorem foldl_bytes (bs : Bytes) (v : Nat) :
    bs.foldl (fun v b => v * 256 + b.toNat) v = v * span bs.length + toNat bs := by
  induction bs generalizing v with
  | nil => simp [toNat, span]
  | cons b bs ih =>
    simp only [toNat, List.foldl_cons, List.length_cons, span]
    rw [ih, ih (0 * 256 + b.toNat), Nat.zero_mul, Nat.zero_add, Nat.add_mul, Nat.mul_assoc,
      Nat.mul_comm 256, Nat.add_assoc]

theorem toNat_cons (b : UInt8) (bs : Bytes) :
    toNat (b :: bs) = b.toNat * span bs.length + toNat bs := by
  simp only [toNat, List.foldl_cons, Nat.zero_mul, Nat.zero_add]
  exact foldl_bytes bs b.toNat

theorem toNat_lt (bs : Bytes) : toNat bs < span bs.length := by
  induction bs with
  | nil => exact Nat.one_pos
  | cons b bs ih =>
    have hb := b.toNat_lt
    have h := Nat.mul_le_mul_right (span bs.length) (show b.toNat + 1 ≤ 256 by omega)
    rw [toNat_cons, List.length_cons, span, Nat.mul_comm (span bs.length)]
    rw [Nat.add_mul] at h
    omega

/-- Only the low bytes of a number are written. -/
theorem toNat_ofNat (n v : Nat) : toNat (ofNat n v) = v % span n := by
  induction n with
  | zero => simp [ofNat, toNat, span, Nat.mod_one]
  | succ n ih =>
    rw [ofNat, toNat_cons, ih, ofNat_length, span, Nat.mod_mul, UInt8.toNat_ofNat',
      Nat.mul_comm (span n), Nat.add_comm]

theorem ofNat_mod (n v : Nat) : ofNat n (v % span n) = ofNat n v := by
  have h : ∀ k m, k ≤ m → ofNat k (v % span m) = ofNat k v := by
    intro k
    induction k with
    | zero => intros; rfl
    | succ k ih =>
      intro m hm
      obtain ⟨d, rfl⟩ : ∃ d, m = k + (d + 1) := ⟨m - k - 1, by omega⟩
      rw [ofNat, ofNat, ih (k + (d + 1)) (by omega), span_add, Nat.mod_mul_right_div_self]
      congr 1
      apply UInt8.toNat_inj.mp
      have h256 : 256 ∣ span (d + 1) := ⟨span d, Nat.mul_comm (span d) 256⟩
      simp only [UInt8.toNat_ofNat', Nat.reducePow]
      exact Nat.mod_mod_of_dvd _ h256
  exact h n n (Nat.le_refl n)

/-- Bytes are recovered from the number that they write. -/
theorem ofNat_toNat (bs : Bytes) : ofNat bs.length (toNat bs) = bs := by
  induction bs with
  | nil => rfl
  | cons b bs ih =>
    have hlt := toNat_lt bs
    rw [List.length_cons, ofNat, toNat_cons]
    congr 1
    · apply UInt8.toNat_inj.mp
      rw [Nat.mul_comm, Nat.mul_add_div (span_pos bs.length), Nat.div_eq_of_lt hlt, Nat.add_zero]
      simp
    · rw [← ofNat_mod, Nat.mul_add_mod_self_right, Nat.mod_eq_of_lt hlt, ih]

/-- The first `n` bytes and the rest, if there are that many. -/
def split? (n : Nat) (bs : Bytes) : Option (Bytes × Bytes) :=
  if (bs.take n).length = n then some (bs.take n, bs.drop n) else none

theorem split?_eq_some_iff {n : Nat} {bs front rest : Bytes} :
    split? n bs = some (front, rest) ↔ front.length = n ∧ bs = front ++ rest := by
  simp only [split?, List.length_take]
  constructor
  · intro h
    split at h
    · rename_i hn
      simp only [Option.some.injEq, Prod.mk.injEq] at h
      obtain ⟨rfl, rfl⟩ := h
      exact ⟨by rw [List.length_take, hn], (List.take_append_drop n bs).symm⟩
    · contradiction
  · rintro ⟨rfl, rfl⟩
    simp

theorem split?_eq_none_iff {n : Nat} {bs : Bytes} : split? n bs = none ↔ bs.length < n := by
  simp only [split?, List.length_take]
  split
  · simp; omega
  · simp; omega

theorem split?_append {n : Nat} {front : Bytes} (rest : Bytes) (h : front.length = n) :
    split? n (front ++ rest) = some (front, rest) :=
  split?_eq_some_iff.mpr ⟨h, rfl⟩

end Bytes
end Muster
