/-! A source of randomness: rolls that come one after the other, and any numbers may come. -/
namespace Muster

structure Rolls where
  roll : Nat → Nat
  /-- How many rolls were taken. -/
  taken : Nat

namespace Rolls

def ofFun (roll : Nat → Nat) : Rolls := ⟨roll, 0⟩

def next (r : Rolls) : Nat × Rolls := (r.roll r.taken, { r with taken := r.taken + 1 })

/-- Spreads a number over words of sixty-four bits. -/
def mix (n : UInt64) : UInt64 :=
  let z := n * 0x9e3779b97f4a7c15
  let z := (z ^^^ (z >>> 30)) * 0xbf58476d1ce4e5b9
  let z := (z ^^^ (z >>> 27)) * 0x94d049bb133111eb
  z ^^^ (z >>> 31)

/-- The rolls of a program that is given a seed. -/
def ofSeed (seed : Nat) : Rolls :=
  ofFun fun i => (mix (mix (UInt64.ofNat (seed + 1)) + UInt64.ofNat i)).toNat

end Rolls
end Muster
