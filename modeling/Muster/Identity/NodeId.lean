import Std.Data.ExtTreeMap
import Muster.Bytes.BigEndian
import Muster.Fault

/-! Names of clients, groups and sync points: one to thirty-two bytes of UTF-8. Names are
ordered by their text, code point by code point. -/
namespace Muster

structure NodeId where
  text : String
  size_pos : 0 < text.utf8ByteSize
  size_le : text.utf8ByteSize ≤ 32
deriving DecidableEq

namespace NodeId

def maxSize : Nat := 32

/-- A text of this many bytes cannot be a name. -/
structure SizeError where
  size : Nat
deriving DecidableEq

def SizeError.message (e : SizeError) : String :=
  s!"Node id must be 1 to {maxSize} bytes of UTF-8, got {e.size} bytes"

instance : Fault SizeError := ⟨fun _ => "InvalidNodeId", SizeError.message⟩

def ofText (text : String) : Except SizeError NodeId :=
  if h : 0 < text.utf8ByteSize ∧ text.utf8ByteSize ≤ 32 then .ok ⟨text, h.1, h.2⟩
  else .error ⟨text.utf8ByteSize⟩

theorem ofText_text (id : NodeId) : ofText id.text = .ok id := by
  simp [ofText, id.size_pos, id.size_le]

@[ext] theorem ext {a b : NodeId} (h : a.text = b.text) : a = b := by
  cases a; cases b; congr

def size (id : NodeId) : Nat := id.text.utf8ByteSize

def utf8 (id : NodeId) : Bytes := id.text.toByteArray.data.toList

@[simp] theorem utf8_length (id : NodeId) : id.utf8.length = id.size := rfl

instance : Ord NodeId := ⟨fun a b => compare a.text b.text⟩

instance : Std.TransOrd NodeId :=
  inferInstanceAs (Std.TransCmp (compareOn NodeId.text))

instance : Std.LawfulEqOrd NodeId where
  eq_of_compare h := ext (Std.LawfulEqOrd.eq_of_compare (α := String) h)

def le (a b : NodeId) : Bool := (compare a b).isLE

theorem le_trans (a b c : NodeId) (hab : a.le b) (hbc : b.le c) : a.le c :=
  Std.TransCmp.isLE_trans hab hbc

theorem le_total (a b : NodeId) : a.le b || b.le a := by
  have h : compare b a = (compare a b).swap := Std.OrientedOrd.eq_swap
  simp only [le, h]
  cases compare a b <;> rfl

/-- The names in order; equal names stay. -/
def sort (ids : List NodeId) : List NodeId := ids.mergeSort le

end NodeId
end Muster
