import StructuredLog.Text.Basic

/-!
Whole numbers in decimal: printing, padding to a total width, and reading a numeral back.
-/

namespace StructuredLog.Decimal

open Text

def ofNat (n : Nat) : Text := (Nat.toDigits 10 n).map fun c => UInt8.ofNat c.toNat

def padded (width n : Nat) : Text :=
  List.replicate (width - (ofNat n).length) 48 ++ ofNat n

def ofInt : Int → Text
  | .ofNat n => ofNat n
  | .negSucc n => 45 :: ofNat (n + 1)

def paddedInt (width : Nat) : Int → Text
  | .ofNat n => padded width n
  | .negSucc n => 45 :: padded (width - 1) (n + 1)

def valueOf (t : Text) : Nat := t.foldl (fun acc b => acc * 10 + (b.toNat - 48)) 0

def toNat? (t : Text) : Option Nat :=
  if t ≠ [] ∧ t.all isDigit then some (valueOf t) else none

def hexDigit (n : Nat) : UInt8 := UInt8.ofNat (if n < 10 then 48 + n else 87 + n)

end StructuredLog.Decimal
