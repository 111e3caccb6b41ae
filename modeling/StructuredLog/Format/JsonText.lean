import StructuredLog.Text.Utf8
import StructuredLog.Fields

/-!
JSON texts of strings, values and field sets. A string is escaped so that the result is one line
of well-formed UTF-8 whatever octets it holds: each octet outside every well-formed sequence
becomes U+FFFD. Doubles keep a mark of being one, and those without a number become null.
-/

namespace StructuredLog.JsonText

open Text Utf8

def replacement : Text := [0xef, 0xbf, 0xbd]

def escapeAscii (b : UInt8) : Text :=
  if b = 34 then [92, 34]
  else if b = 92 then [92, 92]
  else if b = 8 then [92, 98]
  else if b = 12 then [92, 102]
  else if b = 10 then [92, 110]
  else if b = 13 then [92, 114]
  else if b = 9 then [92, 116]
  else if b < 32 then
    [92, 117, 48, 48, Decimal.hexDigit (b.toNat / 16), Decimal.hexDigit (b.toNat % 16)]
  else [b]

def escapePiece : Piece → Text
  | .ascii b => escapeAscii b
  | .sequence octets => octets
  | .stray _ => replacement

def escape (t : Text) : Text := (pieces t).flatMap escapePiece

def string (t : Text) : Text := [34] ++ escape t ++ [34]

def double (x : Binary64) : Text :=
  if !x.isFinite then ascii "null"
  else
    let t := Shortest.text x
    if t.any fun b => b == 46 || b == 101 || b == 69 then t else t ++ ascii ".0"

def value : Value → Text
  | .null => ascii "null"
  | .bool true => ascii "true"
  | .bool false => ascii "false"
  | .int n => Decimal.ofInt n.toInt
  | .uint n => Decimal.ofNat n.toNat
  | .double x => double x
  | .text t => string t

def member (name content : Text) : Text := string name ++ [58] ++ content

def commaSeparated : List Text → Text
  | [] => []
  | [t] => t
  | t :: rest => t ++ [44] ++ commaSeparated rest

def object (members : List Text) : Text := [123] ++ commaSeparated members ++ [125]

def array (items : List Text) : Text := [91] ++ commaSeparated items ++ [93]

def fields (f : Fields) : Text := object (f.toList.map fun e => member e.1 (value e.2))

end StructuredLog.JsonText
