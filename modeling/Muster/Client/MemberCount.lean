/-! Conditions on the number of members of a group. A joined group has at least one member,
so a condition on fewer is refused. -/
namespace Muster

inductive Comparison where
  | atLeast | equalTo | lessThan
deriving DecidableEq

/-- The least number with which a comparison makes sense for a group that is not empty. -/
def Comparison.least : Comparison → Nat
  | atLeast => 1
  | equalTo => 1
  | lessThan => 2

structure MemberCount where
  comparison : Comparison
  count : Nat
  least_le : comparison.least ≤ count
deriving DecidableEq

namespace MemberCount

/-- What a number below the least breaks. -/
def assumption : String := "a joined group has at least one member"

def make? (c : Comparison) (count : Nat) : Option MemberCount :=
  if h : c.least ≤ count then some ⟨c, count, h⟩ else none

def holds (m : MemberCount) (members : Nat) : Bool :=
  match m.comparison with
  | .atLeast => m.count ≤ members
  | .equalTo => members == m.count
  | .lessThan => members < m.count

end MemberCount
end Muster
