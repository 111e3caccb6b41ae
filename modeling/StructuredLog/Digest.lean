import StructuredLog.Fingerprint

/-!
Digests of configurations: one word each, in which everything that makes the fingerprint is mixed
piece by piece, without counts or separators. Handlers and filters have words of their own, and the
configuration mixes these in. How a piece is mixed into a word is left open, and so is what the
language tells about a type, and the word that a user's filter answers.
-/

namespace StructuredLog

namespace HandlerKind

def code : HandlerKind → Int
  | stream => 0
  | file => 1
  | sizeRotating => 2
  | dailyRotating => 3
  | custom => 4
  | unlisted code => code

def Proper : HandlerKind → Prop
  | unlisted code => code < 0 ∨ 4 < code
  | _ => True

instance : (k : HandlerKind) → Decidable k.Proper
  | unlisted code => inferInstanceAs (Decidable (code < 0 ∨ 4 < code))
  | stream | file | sizeRotating | dailyRotating | custom => isTrue trivial

end HandlerKind

def BuiltinFormat.code : BuiltinFormat → Int
  | json => 0
  | console => 1

def ColorMode.code : ColorMode → Int
  | auto => 0
  | always => 1
  | never => 2

def StandardTarget.code : StandardTarget → Int
  | output => 0
  | error => 1

inductive SharedObject where
  | formatter (identity : Nat)
  | stream (channel : Channel)
  | filter (identity : Nat)
  deriving DecidableEq, Repr

inductive Piece where
  | int (v : Int)
  | word (v : UInt64)
  | text (t : Text)
  | address (object : Option SharedObject)
  deriving DecidableEq, Repr

/-- How digests are made. -/
structure Hashing where
  combine : UInt64 → Piece → UInt64
  className : Nat → Text
  typeHash : Nat → UInt64

/-- Mixes the pieces in order; no pieces come to 0. -/
def Hashing.mix (hashing : Hashing) (pieces : List Piece) : UInt64 :=
  pieces.foldl hashing.combine 0

namespace HandlerSpec

variable (hashing : Hashing) (s : HandlerSpec)

def formatPieces : List Piece :=
  [.int s.format.code, .address (s.formatter.map fun f => .formatter f.identity),
    .int s.color.code]

def outputPieces : List Piece :=
  match s.kind with
  | .stream => [.int s.target.code, .address (s.stream.map SharedObject.stream)]
  | _ => [.text s.path, .word s.maxBytes, .word s.backups.toUInt64]

def pieces : List Piece :=
  .int s.kind.code :: .word s.threshold.rank ::
    match s.kind with
    | .custom => [.word ((s.factory.map fun f => hashing.typeHash f.typeTag).getD 0)]
    | _ => s.formatPieces ++ s.outputPieces

end HandlerSpec

/-- What one handler or filter brings to a digest: a word that is mixed from pieces, or a word of
its own. -/
inductive Part where
  | mixed (pieces : List Piece)
  | given (word : UInt64)
  deriving DecidableEq, Repr

def Part.word (hashing : Hashing) : Part → UInt64
  | mixed pieces => hashing.mix pieces
  | given word => word

namespace FilterFingerprint

/-- By default a filter is known by its class and its address. -/
def part (hashing : Hashing) : FilterFingerprint → Part
  | level minimum => .mixed [.text (Text.ascii "Level_filter"), .word minimum.rank]
  | sensitive sentinel blocklist =>
    .mixed (.text (Text.ascii "Sensitive_data_filter") :: .text sentinel :: blocklist.map .text)
  | object identity =>
    .mixed [.text (hashing.className identity), .address (some (.filter identity))]
  | own word => .given word

end FilterFingerprint

namespace LoggerConfig

variable (hashing : Hashing) (c : LoggerConfig)

def handlerParts : List Part := c.handlers.map fun s => .mixed (s.pieces hashing)

def filterParts : List Part :=
  c.filters.map fun f => (f.map fun f => f.fingerprint.part hashing).getD (.mixed [])

def parts : List Part := c.handlerParts hashing ++ c.filterParts hashing

def pieces : List Piece :=
  .text c.name :: .word c.level.rank :: (c.parts hashing).map fun part => .word (part.word hashing)

def digest : UInt64 := hashing.mix (c.pieces hashing)

end LoggerConfig

end StructuredLog
