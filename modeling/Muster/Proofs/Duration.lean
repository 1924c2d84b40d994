import Muster.Group.Directory

/-! Timeouts on the wire. A duration loses what is less than a millisecond there, and the server
waits a year at most for any of them. -/
namespace Muster

namespace Duration

theorem ofMillis_toMillis_le (ns : Nat) : ofMillis (toMillis ns) ≤ ns := Nat.div_mul_le_self ns _

theorem lt_ofMillis_toMillis (ns : Nat) : ns < ofMillis (toMillis ns) + ofMillis 1 := by
  unfold ofMillis toMillis
  omega

theorem ofMillis_toMillis_iff {ns : Nat} : ofMillis (toMillis ns) = ns ↔ ofMillis 1 ∣ ns :=
  (Nat.dvd_iff_div_mul_eq ns _).symm

theorem toWire_toInt (ns : Nat) :
    (toWire ns).toInt.toNat = min (toMillis ns) 9223372036854775807 := by
  unfold toWire
  rw [Int64.toInt_ofNat_of_lt (by omega)]
  exact Int.toNat_natCast _

theorem ofWire_toWire (ns : Nat) :
    ofWire (toWire ns) = min (ofMillis (toMillis ns)) (ofMillis 9223372036854775807) := by
  unfold ofWire
  rw [toWire_toInt]
  exact (Nat.mul_min_mul_right _ _ _).symm

end Duration

namespace Directory

/-- What a server arms for a request that asks to wait for this long. -/
theorem syncTimeout_toWire (ns : Nat) (point : NodeId) :
    syncTimeout ⟨Duration.toWire ns, point⟩ =
      min (Duration.ofMillis (Duration.toMillis ns)) maxSyncTimeout := by
  have year : maxSyncTimeout ≤ Duration.ofMillis 9223372036854775807 := by decide
  unfold syncTimeout
  rw [Duration.ofWire_toWire, Nat.min_assoc, Nat.min_eq_right year]

theorem syncTimeout_le_add (ns extra : Nat) (point : NodeId) :
    syncTimeout ⟨Duration.toWire ns, point⟩ ≤ Duration.add ns extra := by
  have year : maxSyncTimeout ≤ Duration.longest := by decide
  have lost := Duration.ofMillis_toMillis_le ns
  rw [syncTimeout_toWire]
  unfold Duration.add
  omega

end Directory
end Muster
