/-!
Double-precision numbers by their bits. A finite number is `± significand · 2 ^ exponent` with
whole significand and exponent, which is the form all exact arithmetic here works on; `ofRatio`
goes the other way and rounds a quotient to the nearest double, ties to the even significand.
-/

namespace StructuredLog

structure Binary64 where
  bits : UInt64
  deriving DecidableEq, Repr

namespace Binary64

def isNegative (x : Binary64) : Bool := x.bits >>> 63 == 1

def hiddenBit : Nat := 4503599627370496

def signBit : Nat := 9223372036854775808

def exponentField (x : Binary64) : Nat := x.bits.toNat / hiddenBit % 2048

def fractionField (x : Binary64) : Nat := x.bits.toNat % hiddenBit

def isFinite (x : Binary64) : Bool := x.exponentField != 2047

def isNaN (x : Binary64) : Bool := x.exponentField == 2047 && x.fractionField != 0

def isZero (x : Binary64) : Bool := x.exponentField == 0 && x.fractionField == 0

def significand (x : Binary64) : Nat :=
  if x.exponentField = 0 then x.fractionField else hiddenBit + x.fractionField

def exponent (x : Binary64) : Int :=
  if x.exponentField = 0 then -1074 else (x.exponentField : Int) - 1075

def numericEq (x y : Binary64) : Bool :=
  !x.isNaN && !y.isNaN && (x.bits == y.bits || (x.isZero && y.isZero))

/-- The whole number nearest to `num / den`, a half going to the even neighbour. -/
def roundQuotient (num den : Nat) : Nat :=
  let q := num / den
  let r := num % den
  if 2 * r < den then q
  else if 2 * r = den then q + q % 2
  else q + 1

def scaled (num den : Nat) (e : Int) : Nat × Nat :=
  if 0 ≤ e then (num, den * Nat.pow 2 e.toNat) else (num * Nat.pow 2 (-e).toNat, den)

def floorLog2 (num den : Nat) : Int :=
  let e : Int := (Nat.log2 num : Int) - Nat.log2 den
  let (n, d) := scaled num den e
  if d ≤ n then e else e - 1

/-- The bits of `significand · 2 ^ exponent`, where the significand has at most 53 bits and the
exponent is at least -1074; a magnitude out of range becomes infinity. -/
def assemble (negative : Bool) (significand : Nat) (exponent : Int) : Binary64 :=
  let sign : Nat := if negative then signBit else 0
  let magnitude : Nat :=
    if significand < hiddenBit then significand
    else if 972 ≤ exponent then 2047 * hiddenBit
    else (exponent + 1075).toNat * hiddenBit + (significand - hiddenBit)
  ⟨UInt64.ofNat (sign + magnitude)⟩

/-- The double nearest to `± num / den`; a zero denominator gives zero. -/
def ofRatio (negative : Bool) (num den : Nat) : Binary64 :=
  if num = 0 ∨ den = 0 then assemble negative 0 (-1074)
  else
    let e := max (floorLog2 num den - 52) (-1074)
    let (n, d) := scaled num den e
    let m := roundQuotient n d
    if m = 2 * hiddenBit then assemble negative hiddenBit (e + 1) else assemble negative m e

def ofInt (n : Int) : Binary64 := ofRatio (decide (n < 0)) n.natAbs 1

def divNat (x : Binary64) (n : Nat) : Binary64 :=
  if 0 ≤ x.exponent then ofRatio x.isNegative (x.significand * Nat.pow 2 x.exponent.toNat) n
  else ofRatio x.isNegative x.significand (n * Nat.pow 2 (-x.exponent).toNat)

end Binary64

end StructuredLog
