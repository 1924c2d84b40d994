import Muster.Bytes.BigEndian

/-! Bytes as hexadecimal text, two digits a byte. Digits are written in lower case and read
in either. -/
namespace Muster.Bytes

def hexDigit (n : Nat) : Char :=
  if n < 10 then Char.ofNat ('0'.toNat + n) else Char.ofNat ('a'.toNat + (n - 10))

def toHex (bs : Bytes) : String :=
  String.ofList (bs.flatMap fun b => [hexDigit (b.toNat / 16), hexDigit (b.toNat % 16)])

def hexValue? (c : Char) : Option Nat :=
  if '0' ≤ c ∧ c ≤ '9' then some (c.toNat - '0'.toNat)
  else if 'a' ≤ c ∧ c ≤ 'f' then some (c.toNat - 'a'.toNat + 10)
  else if 'A' ≤ c ∧ c ≤ 'F' then some (c.toNat - 'A'.toNat + 10)
  else none

/-- Reads pairs of digits behind bytes that were read before, the last of them first. -/
def readHex (before : Bytes) : List Char → Option Bytes
  | [] => some before.reverse
  | [_] => none
  | high :: low :: rest =>
    match hexValue? high, hexValue? low with
    | some h, some l => readHex (UInt8.ofNat (h * 16 + l) :: before) rest
    | _, _ => none

def ofHex? (s : String) : Option Bytes := readHex [] s.toList

theorem hexValue?_hexDigit : ∀ n < 16, hexValue? (hexDigit n) = some n := by decide

theorem readHex_digits (before bs : Bytes) :
    readHex before (bs.flatMap fun b => [hexDigit (b.toNat / 16), hexDigit (b.toNat % 16)]) =
      some (before.reverse ++ bs) := by
  induction bs generalizing before with
  | nil => simp [readHex]
  | cons b bs ih =>
    have lt := b.toNat_lt
    have split : b.toNat / 16 * 16 + b.toNat % 16 = b.toNat := Nat.div_add_mod' b.toNat 16
    simp [readHex, hexValue?_hexDigit (b.toNat / 16) (by omega),
      hexValue?_hexDigit (b.toNat % 16) (by omega), split, ih]

@[simp] theorem ofHex?_toHex (bs : Bytes) : ofHex? (toHex bs) = some bs := by
  simp [ofHex?, toHex, readHex_digits]

end Muster.Bytes
