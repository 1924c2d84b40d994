import Muster.Identity.Token
import Muster.Rolls

/-! A source of random tokens. The null token is never drawn. -/
namespace Muster

structure TokenSource where
  rolls : Rolls

namespace TokenSource

def ofSeed (seed : Nat) : TokenSource := ⟨.ofSeed seed⟩

def drawNumber : Nat → Nat → Rolls → Nat × Rolls
  | 0, v, rolls => (v, rolls)
  | n + 1, v, rolls =>
    let (roll, rolls) := rolls.next
    drawNumber n (v * 256 + roll % 256) rolls

/-- Draws the number that the token writes. The null token gives way to the token that
writes one. -/
def draw (s : TokenSource) : Token × TokenSource :=
  let (v, rolls) := drawNumber 32 0 s.rolls
  (if (Token.ofNat v).isNull then .ofNat 1 else .ofNat v, ⟨rolls⟩)

end TokenSource
end Muster
