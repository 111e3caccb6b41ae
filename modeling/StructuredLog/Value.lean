import StructuredLog.Number.Shortest

/-!
Values of log fields: nothing, truth values, 64-bit integers, doubles and texts. An unsigned
integer that fits the signed range is stored as a signed one, so that equal numbers have one form.
-/

namespace StructuredLog

def signedLimit : Nat := 9223372036854775808

/-- An unsigned integer above the signed range. -/
structure LargeWord where
  word : UInt64
  large : signedLimit ≤ word.toNat
  deriving DecidableEq, Repr

def LargeWord.toNat (n : LargeWord) : Nat := n.word.toNat

inductive Value where
  | null
  | bool (b : Bool)
  | int (n : Int64)
  | uint (n : LargeWord)
  | double (x : Binary64)
  | text (t : Text)
  deriving DecidableEq, Repr

namespace Value

def ofUnsigned (n : UInt64) : Value :=
  if h : n.toNat < signedLimit then int n.toInt64 else uint ⟨n, Nat.not_lt.mp h⟩

/-- Equality of kind and content; doubles are equal as numbers. -/
def same : Value → Value → Bool
  | double x, double y => x.numericEq y
  | v, w => v == w

def kindIndex : Value → Nat
  | null => 0
  | bool _ => 1
  | int _ => 2
  | uint _ => 3
  | double _ => 4
  | text _ => 5

def printed : Value → Text
  | null => Text.ascii "null"
  | bool true => Text.ascii "true"
  | bool false => Text.ascii "false"
  | int n => Decimal.ofInt n.toInt
  | uint n => Decimal.ofNat n.toNat
  | double x => Shortest.text x
  | text t => t

end Value

end StructuredLog
