import StructuredLog.Number.Binary64
import StructuredLog.Number.Decimal

/-!
The shortest decimal that reads back as a given double. A decimal reads back as `x` when it lies
in the interval of reals that round to `x`. For one digit, two digits and so on up to seventeen
the two neighbours of `x` on that decimal grid are tested with exact whole-number arithmetic;
the first grid with a hit wins, of two hits the nearer, and a tie goes to the even digit.
`text` lays the digits out.
-/

namespace StructuredLog.Shortest

open Binary64

structure Scientific where
  digits : Nat
  power : Int
  deriving DecidableEq, Repr

/-- The interval that rounds to a positive double, over one denominator: numerators of the
number and of both ends, and whether the ends belong to it. -/
structure Interval where
  value : Nat
  low : Nat
  high : Nat
  den : Nat
  closed : Bool

/-- Half a unit on each side, a quarter below a power of two, as the unit halves there. Ends
belong to the interval if the significand is even. -/
def interval (x : Binary64) : Interval :=
  let m := x.significand
  let below := if m = hiddenBit ∧ 1 < x.exponentField then 1 else 2
  let (up, den) :=
    if 0 ≤ x.exponent then (Nat.pow 2 x.exponent.toNat, 4)
    else (1, 4 * Nat.pow 2 (-x.exponent).toNat)
  ⟨4 * m * up, (4 * m - below) * up, (4 * m + 2) * up, den, m % 2 == 0⟩

def numeralLength (n : Nat) : Nat := (Nat.toDigits 10 n).length

def floorLog10 (num den : Nat) : Int :=
  if den ≤ num then (numeralLength (num / den) : Int) - 1
  else -(numeralLength ((den - 1) / num) : Int)

def Interval.contains (i : Interval) (num den : Nat) : Bool :=
  if i.closed then decide (i.low * den ≤ num * i.den) && decide (num * i.den ≤ i.high * den)
  else decide (i.low * den < num * i.den) && decide (num * i.den < i.high * den)

/-- The grid point to take among the multiples of `10 ^ power`, if one reads back. -/
def gridPoint (i : Interval) (power : Int) : Option Scientific :=
  -- a grid point `k` stands for `k * unitNum / unitDen`
  let unitNum := Nat.pow 10 power.toNat
  let unitDen := Nat.pow 10 (-power).toNat
  let den := i.den * unitNum
  let k := i.value * unitDen / den
  let r := i.value * unitDen % den
  let floorHit := i.contains (k * unitNum) unitDen
  let ceilHit := i.contains ((k + 1) * unitNum) unitDen
  if floorHit && ceilHit then
    if 2 * r < den then some ⟨k, power⟩
    else if 2 * r = den then some ⟨k + k % 2, power⟩
    else some ⟨k + 1, power⟩
  else if floorHit then some ⟨k, power⟩
  else if ceilHit then some ⟨k + 1, power⟩
  else none

def Scientific.stripZeros : Nat → Scientific → Scientific
  | 0, s => s
  | fuel + 1, s =>
    if s.digits ≠ 0 ∧ s.digits % 10 = 0 then stripZeros fuel ⟨s.digits / 10, s.power + 1⟩ else s

def shortest (x : Binary64) : Scientific :=
  let i := interval x
  let e := floorLog10 i.value i.den
  match (List.range 17).findSome? fun n : Nat => gridPoint i (e - n) with
  | some s => s.stripZeros 20
  | none => ⟨0, 0⟩

/-- How a number is laid out: positional while the exponent of its first digit is at least
`lowest` and below `limit`, and in scientific notation outside. -/
structure Layout where
  lowest : Int
  limit : Int
  exponentWidth : Nat

/-- Field values are positional from 0.0001 up to but excluding 10 ^ 16, and an exponent has a
sign and at least two digits. -/
def fieldLayout : Layout := ⟨-4, 16, 2⟩

def layOut (layout : Layout) (digits : Text) (first : Int) : Text :=
  if layout.lowest ≤ first ∧ first < layout.limit then
    if first < 0 then
      Text.ascii "0." ++ List.replicate (-first - 1).toNat 48 ++ digits
    else
      let whole := first.toNat + 1
      if digits.length ≤ whole then digits ++ List.replicate (whole - digits.length) 48
      else digits.take whole ++ Text.ascii "." ++ digits.drop whole
  else
    let mantissa := match digits with
      | d :: [] => [d]
      | d :: rest => d :: 46 :: rest
      | [] => []
    let sign := if first < 0 then Text.ascii "e-" else Text.ascii "e+"
    mantissa ++ sign ++ Decimal.padded layout.exponentWidth first.natAbs

def text (x : Binary64) : Text :=
  let sign := if x.isNegative then Text.ascii "-" else []
  if x.isNaN then sign ++ Text.ascii "nan"
  else if !x.isFinite then sign ++ Text.ascii "inf"
  else if x.isZero then sign ++ Text.ascii "0"
  else
    let s := shortest x
    let digits := Decimal.ofNat s.digits
    sign ++ layOut fieldLayout digits (s.power + (digits.length : Int) - 1)

end StructuredLog.Shortest
