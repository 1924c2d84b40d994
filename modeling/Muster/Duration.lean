/-! Durations and points in time, in whole nanoseconds. -/
namespace Muster.Duration

def ofMillis (ms : Nat) : Nat := ms * 1000000

def ofSeconds (s : Nat) : Nat := s * 1000000000

/-- Whole milliseconds, rounded down. -/
def toMillis (ns : Nat) : Nat := ns / 1000000

/-- The longest duration: the most seconds that sixty-four bits hold, and a fraction. -/
def longest : Nat := ofSeconds 18446744073709551615 + 999999999

/-- A sum that stays at the longest duration. -/
def add (a b : Nat) : Nat := min (a + b) longest

/-- Whole milliseconds as a signed word of sixty-four bits, which large values fill. -/
def toWire (ns : Nat) : Int64 := Int64.ofNat (min (toMillis ns) 9223372036854775807)

/-- The duration that a word of milliseconds asks for. Negative ones ask for none. -/
def ofWire (ms : Int64) : Nat := ofMillis ms.toInt.toNat

@[simp] theorem toMillis_ofMillis (ms : Nat) : toMillis (ofMillis ms) = ms :=
  Nat.mul_div_cancel ms (by decide)

end Muster.Duration
