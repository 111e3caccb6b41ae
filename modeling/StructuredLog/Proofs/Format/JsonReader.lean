import StructuredLog.Proofs.Number.Digits
import StructuredLog.Proofs.Text.Sequences
import StructuredLog.Value

/-!
# A reader of JSON

The grammar of RFC 8259 as a function on octets, independent of how texts are written. A number
without fraction and exponent is an integer if a 64-bit integer holds it, signed before unsigned;
any other number is the double nearest to it. An escape denotes the octets of its character.
-/

namespace StructuredLog

open Text

inductive Json where
  | null
  | bool (b : Bool)
  | int (n : Int64)
  | uint (n : UInt64)
  | double (x : Binary64)
  | string (t : Text)
  | array (items : List Json)
  | object (members : List (Text × Json))

namespace Json

/-- A reader takes what it reads off the front of a text and leaves the rest. -/
abbrev Reader (α : Type) := Text → Option (α × Text)

def isBlank (b : UInt8) : Bool := b == 32 || b == 9 || b == 10 || b == 13

def skipBlanks (t : Text) : Text := t.dropWhile isBlank

/-! ## Strings -/

def hexValue (b : UInt8) : Option Nat :=
  if isDigit b then some (b.toNat - 48)
  else if 97 ≤ b && b ≤ 102 then some (b.toNat - 87)
  else if 65 ≤ b && b ≤ 70 then some (b.toNat - 55)
  else none

def readHex : Reader Nat
  | a :: b :: c :: d :: rest => do
    let a ← hexValue a
    let b ← hexValue b
    let c ← hexValue c
    let d ← hexValue d
    some (((a * 16 + b) * 16 + c) * 16 + d, rest)
  | _ => none

def encodePoint (n : Nat) : Text := String.utf8EncodeChar (Char.ofNat n)

def readPoint (t : Text) : Option (Text × Text) := do
  let (high, rest) ← readHex t
  if 0xd800 ≤ high ∧ high < 0xdc00 then
    match rest with
    | a :: b :: rest =>
      if a = 92 ∧ b = 117 then do
        let (low, rest) ← readHex rest
        if 0xdc00 ≤ low ∧ low < 0xe000 then
          some (encodePoint (0x10000 + (high - 0xd800) * 1024 + (low - 0xdc00)), rest)
        else none
      else none
    | _ => none
  else if 0xdc00 ≤ high ∧ high < 0xe000 then none
  else some (encodePoint high, rest)

def readEscape : Reader Text
  | [] => none
  | b :: rest =>
    if b = 34 ∨ b = 92 ∨ b = 47 then some ([b], rest)
    else if b = 98 then some ([8], rest)
    else if b = 102 then some ([12], rest)
    else if b = 110 then some ([10], rest)
    else if b = 114 then some ([13], rest)
    else if b = 116 then some ([9], rest)
    else if b = 117 then readPoint rest
    else none

def readBody : Nat → Reader Text
  | 0, _ => none
  | _ + 1, [] => none
  | fuel + 1, b :: t =>
    if b = 34 then some ([], t)
    else if b = 92 then do
      let (octets, t) ← readEscape t
      let (body, t) ← readBody fuel t
      some (octets ++ body, t)
    else if b < 32 then none
    else do
      let (body, t) ← readBody fuel t
      some (b :: body, t)

def readString : Reader Text
  | [] => none
  | b :: t => if b = 34 then readBody t.length t else none

/-! ## Numbers -/

structure Numeral where
  negative : Bool
  whole : Text
  fraction : Text
  exponent : Option Int
  deriving DecidableEq

def readDigits (t : Text) : Option (Text × Text) :=
  if t.takeWhile isDigit = [] then none else some (t.takeWhile isDigit, t.dropWhile isDigit)

def readWhole (t : Text) : Option (Text × Text) := do
  let (digits, t) ← readDigits t
  if digits.head? = some 48 ∧ digits.length ≠ 1 then none else some (digits, t)

def readFraction : Reader Text
  | [] => some ([], [])
  | b :: t => if b = 46 then readDigits t else some ([], b :: t)

def readPower : Reader Int
  | [] => none
  | b :: t =>
    if b = 45 then do
      let (digits, t) ← readDigits t
      some (-(Decimal.valueOf digits : Int), t)
    else do
      let (digits, t) ← readDigits (if b = 43 then t else b :: t)
      some ((Decimal.valueOf digits : Int), t)

def readExponent : Reader (Option Int)
  | [] => some (none, [])
  | b :: t =>
    if b = 101 ∨ b = 69 then do
      let (power, t) ← readPower t
      some (some power, t)
    else some (none, b :: t)

def readNumeral (t : Text) : Option (Numeral × Text) := do
  let negative := t.head? == some 45
  let (whole, t) ← readWhole (if negative then t.drop 1 else t)
  let (fraction, t) ← readFraction t
  let (exponent, t) ← readExponent t
  some (⟨negative, whole, fraction, exponent⟩, t)

namespace Numeral

def digits (n : Numeral) : Nat := Decimal.valueOf (n.whole ++ n.fraction)

def power (n : Numeral) : Int := n.exponent.getD 0 - n.fraction.length

def toDouble (n : Numeral) : Binary64 :=
  if 0 ≤ n.power then Binary64.ofRatio n.negative (n.digits * 10 ^ n.power.toNat) 1
  else Binary64.ofRatio n.negative n.digits (10 ^ (-n.power).toNat)

def toJson (n : Numeral) : Json :=
  if n.fraction ≠ [] ∨ n.exponent.isSome then double n.toDouble
  else if n.negative then
    if n.digits ≤ 2 ^ 63 then int (Int64.ofInt (-n.digits)) else double n.toDouble
  else if n.digits < 2 ^ 63 then int (Int64.ofInt n.digits)
  else if n.digits < 2 ^ 64 then uint (UInt64.ofNat n.digits)
  else double n.toDouble

end Numeral

/-! ## Values -/

def readWord (word : String) (j : Json) (t : Text) : Option (Json × Text) :=
  if (ascii word).isPrefixOf t then some (j, t.drop (ascii word).length) else none

def readItems {α : Type} (item : Reader α) (close : UInt8) : Nat → Reader (List α)
  | 0, _ => none
  | fuel + 1, t => do
    let (a, t) ← item t
    match skipBlanks t with
    | [] => none
    | b :: t =>
      if b = close then some ([a], t)
      else if b = 44 then do
        let (items, t) ← readItems item close fuel t
        some (a :: items, t)
      else none

def readList {α : Type} (item : Reader α) (close : UInt8) (t : Text) : Option (List α × Text) :=
  match skipBlanks t with
  | [] => none
  | b :: rest => if b = close then some ([], rest) else readItems item close t.length t

def readMember (item : Reader Json) (t : Text) : Option ((Text × Json) × Text) := do
  let (name, t) ← readString (skipBlanks t)
  match skipBlanks t with
  | [] => none
  | b :: t =>
    if b = 58 then do
      let (j, t) ← item t
      some ((name, j), t)
    else none

def readValue : Nat → Reader Json
  | 0, _ => none
  | depth + 1, t =>
    match skipBlanks t with
    | [] => none
    | b :: rest =>
      if b = 34 then do
        let (s, t) ← readString (b :: rest)
        some (string s, t)
      else if b = 91 then do
        let (items, t) ← readList (readValue depth) 93 rest
        some (array items, t)
      else if b = 123 then do
        let (members, t) ← readList (readMember (readValue depth)) 125 rest
        some (object members, t)
      else if b = 110 then readWord "null" null (b :: rest)
      else if b = 116 then readWord "true" (bool true) (b :: rest)
      else if b = 102 then readWord "false" (bool false) (b :: rest)
      else do
        let (n, t) ← readNumeral (b :: rest)
        some (n.toJson, t)

/-- One value, with nothing but white space around it. A text nests no deeper than it is long. -/
def read (t : Text) : Option Json := do
  let (j, rest) ← readValue t.length t
  if skipBlanks rest = [] then some j else none

def Stops (t : Text) : Prop := ∀ b ∈ t.head?, b = 44 ∨ b = 93 ∨ b = 125

end Json

end StructuredLog
