import StructuredLog.Number.Decimal
import StructuredLog.Severity

/-!
Reading the names of severities and environments back. A reader takes the longest run of
letters, digits and underscores off the input as its token, and never anything behind it. What
the token means is looked up in a vocabulary: a range of ranks with names, and optionally with
their decimal numerals.
-/

namespace StructuredLog

structure Vocabulary where
  name : UInt64 → Text
  lowest : UInt64
  sentinel : UInt64
  fallback : UInt64
  numerals : Bool
  caseSensitive : Bool

namespace Vocabulary

structure Reading where
  rank : UInt64
  rest : Text
  atEnd : Bool
  deriving DecidableEq, Repr

def spells (v : Vocabulary) (token name : Text) : Bool :=
  if v.caseSensitive then token == name else Text.sameFolded token name

/-- The first of `count` ranks from `rank` on whose name the token spells. -/
def search (v : Vocabulary) (token : Text) : (count : Nat) → (rank : UInt64) → Option UInt64
  | 0, _ => none
  | count + 1, rank =>
    if v.spells token (v.name rank) then some rank else search v token count (rank + 1)

def ofNumeral (v : Vocabulary) (token : Text) : Option UInt64 :=
  match Decimal.toNat? token with
  | none => none
  | some n => if v.lowest.toNat ≤ n ∧ n < v.sentinel.toNat then some (UInt64.ofNat n) else none

def lookup (v : Vocabulary) : Text → Option UInt64
  | [] => none
  | b :: t =>
    if v.numerals && Text.isDigit b then v.ofNumeral (b :: t)
    else v.search (b :: t) (v.sentinel - v.lowest).toNat v.lowest

def read (v : Vocabulary) (input : Text) : Reading :=
  let token := input.takeWhile Text.isWord
  let rest := input.dropWhile Text.isWord
  ⟨(v.lookup token).getD v.fallback, rest, rest.isEmpty⟩

end Vocabulary

namespace Severity

def vocabulary : Vocabulary where
  name := fun n => name ⟨n⟩
  lowest := 0
  sentinel := 6
  fallback := 0
  numerals := true
  caseSensitive := false

end Severity

namespace Environment

def vocabulary : Vocabulary where
  name := fun n => name ⟨n⟩
  lowest := 0
  sentinel := 4
  fallback := 4
  numerals := false
  caseSensitive := false

/-- The environment a whole text names, white space around it aside. Where there is none, a caller
keeps the environment that it has: that nothing is stored for it then is a convention here, as the
result is an option and not a place to store in. -/
def parse? (t : Text) : Option Environment :=
  let trimmed := Text.trim t
  if trimmed = [] then none
  else
    let reading := vocabulary.read trimmed
    if reading.rank = sentinel.rank ∨ !reading.atEnd then none else some ⟨reading.rank⟩

end Environment

end StructuredLog
