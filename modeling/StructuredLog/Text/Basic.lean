/-!
Text as octets. Messages, names, paths and file contents are sequences of octets, which may or
may not be well-formed UTF-8, so everything that depends on the case or class of a character
looks at ASCII octets only and leaves all others alone.
-/

namespace StructuredLog

abbrev Text := List UInt8

namespace Text

def ascii (s : String) : Text := s.toList.map fun c => UInt8.ofNat c.toNat

def isDigit (b : UInt8) : Bool := 48 ≤ b && b ≤ 57

def isUpper (b : UInt8) : Bool := 65 ≤ b && b ≤ 90

def isLower (b : UInt8) : Bool := 97 ≤ b && b ≤ 122

def isWord (b : UInt8) : Bool := isDigit b || isUpper b || isLower b || b == 95

/-- White space: the space and the controls from horizontal tab to carriage return. -/
def isBlank (b : UInt8) : Bool := b == 32 || (9 ≤ b && b ≤ 13)

def lowerOctet (b : UInt8) : UInt8 := if isUpper b then b + 32 else b

def lower (t : Text) : Text := t.map lowerOctet

def sameFolded (s t : Text) : Bool := lower s == lower t

def contains : (t part : Text) → Bool
  | [], part => part.isEmpty
  | b :: t, part => part.isPrefixOf (b :: t) || contains t part

def containsFolded (t part : Text) : Bool := contains (lower t) (lower part)

def trim (t : Text) : Text :=
  ((t.dropWhile isBlank).reverse.dropWhile isBlank).reverse

def untilNul (t : Text) : Text := t.takeWhile (· ≠ 0)

/-- The parts of `t` between the octets equal to `sep`; there is always at least one. -/
def splitAt (sep : UInt8) : Text → List Text
  | [] => [[]]
  | b :: t =>
    if b = sep then [] :: splitAt sep t
    else match splitAt sep t with
      | [] => [[b]]
      | part :: parts => (b :: part) :: parts

def le : Text → Text → Bool
  | [], _ => true
  | _ :: _, [] => false
  | a :: s, b :: t => decide (a < b) || (a == b && le s t)

end Text

end StructuredLog
