import Muster.Wire.Sequence

/-! Any number of a kind's range may come next, except for the last one. -/
namespace Muster.Numbering

/-- Nothing was drawn yet, and the same is rolled again and again. -/
def rolling (roll : Nat) : Numbering := ⟨∅, .ofFun fun _ => roll⟩

/-- Whatever was drawn before, the rolls can make every other number the next one. -/
theorem draw_rolling (s : Numbering) (k : Kind) {roll : Nat} (lt : roll < 100)
    (fresh : s.last[k.number]? ≠ some (k.firstSeq + Int32.ofNat roll)) :
    ({ s with rolls := (rolling roll).rolls }.draw k).1 = k.firstSeq + Int32.ofNat roll := by
  have first : (rolling roll).rolls.next.1 % 100 = roll := Nat.mod_eq_of_lt lt
  unfold draw drawFresh
  dsimp only
  rw [first, if_neg fun same => fresh same.symm]

end Muster.Numbering
