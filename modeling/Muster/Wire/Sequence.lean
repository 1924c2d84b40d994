import Std.Data.ExtTreeMap
import Muster.Rolls
import Muster.Wire.Kind

/-! Sequence numbers. Each kind of message has a range of a hundred numbers of its own, and
a number is drawn anew until it differs from the last one of its kind. -/
namespace Muster

namespace Kind

def firstSeq (k : Kind) : Int32 := 1000 + (k.number - 1) * 200

/-- The sequence numbers of a kind, the upper end excluded. -/
def seqRange (k : Kind) : Int32 × Int32 := (k.firstSeq, k.firstSeq + 100)

def ownsSeq (k : Kind) (seq : Int32) : Bool := k.firstSeq ≤ seq && seq < k.firstSeq + 100

end Kind

/-- A source of sequence numbers. It belongs to the whole process, in which there may be others
that draw from it: whoever keeps it between two draws is alone there. -/
structure Numbering where
  /-- The last number by kind. -/
  last : Std.ExtTreeMap Int32 Int32
  rolls : Rolls

namespace Numbering

def ofSeed (seed : Nat) : Numbering := ⟨∅, .ofSeed seed⟩

/-- Taken when every draw repeated the last number. -/
def exhausted : Int32 := -1

/-- Stands for a number of a kind that does not exist. -/
def unknownKind : Int32 := -2

/-- Draws at most this often, until the number differs from `last`. -/
def drawFresh (k : Kind) (last : Option Int32) : Nat → Rolls → Option Int32 × Rolls
  | 0, rolls => (none, rolls)
  | n + 1, rolls =>
    let (roll, rolls) := rolls.next
    let seq := k.firstSeq + Int32.ofNat (roll % 100)
    if some seq = last then drawFresh k last n rolls else (some seq, rolls)

def draw (s : Numbering) (k : Kind) : Int32 × Numbering :=
  match drawFresh k s.last[k.number]? 20 s.rolls with
  | (some seq, rolls) => (seq, ⟨s.last.insert k.number seq, rolls⟩)
  | (none, rolls) => (exhausted, { s with rolls })

/-- Several numbers one after the other, for a kind given by its number. -/
def drawMany (s : Numbering) (kind : Int32) : Nat → List Int32
  | 0 => []
  | n + 1 =>
    match Kind.ofNumber? kind with
    | some k =>
      let (seq, s) := s.draw k
      seq :: s.drawMany kind n
    | none => unknownKind :: s.drawMany kind n

end Numbering
end Muster
