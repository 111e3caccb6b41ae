import StructuredLog.Text.Basic

/-!
UTF-8 as RFC 3629 defines it. `sequenceLength` recognises one multi-octet sequence at the start
of a text, and `pieces` reads a whole text with it.
-/

namespace StructuredLog.Utf8

def isContinuation (b : UInt8) : Bool := b &&& 0xc0 == 0x80

/-- What a lead octet announces: the length of its sequence and the bounds of the second octet.
The bounds exclude overlong forms, surrogates and code points above U+10FFFF. -/
def leadShape (lead : UInt8) : Option (Nat × UInt8 × UInt8) :=
  if 0xc2 ≤ lead && lead ≤ 0xdf then some (2, 0x80, 0xbf)
  else if lead == 0xe0 then some (3, 0xa0, 0xbf)
  else if lead == 0xed then some (3, 0x80, 0x9f)
  else if 0xe1 ≤ lead && lead ≤ 0xef then some (3, 0x80, 0xbf)
  else if lead == 0xf0 then some (4, 0x90, 0xbf)
  else if lead == 0xf4 then some (4, 0x80, 0x8f)
  else if 0xf1 ≤ lead && lead ≤ 0xf3 then some (4, 0x80, 0xbf)
  else none

def sequenceLength : Text → Nat
  | lead :: second :: rest =>
    match leadShape lead with
    | none => 0
    | some (n, low, high) =>
      if low ≤ second && second ≤ high && n - 2 ≤ rest.length
          && (rest.take (n - 2)).all isContinuation then n
      else 0
  | _ => 0

theorem leadShape_length {lead : UInt8} {n : Nat} {low high : UInt8}
    (h : leadShape lead = some (n, low, high)) : 2 ≤ n ∧ n ≤ 4 := by
  unfold leadShape at h
  repeat' split at h
  all_goals simp only [Option.some.injEq, Prod.mk.injEq, reduceCtorEq] at h
  all_goals omega

theorem sequenceLength_le (t : Text) : sequenceLength t ≤ t.length := by
  unfold sequenceLength
  split
  · split
    · exact Nat.zero_le _
    · split
      · rename_i hshape hok
        have := leadShape_length hshape
        simp only [Bool.and_eq_true, decide_eq_true_eq] at hok
        simp only [List.length_cons]
        omega
      · exact Nat.zero_le _
  · exact Nat.zero_le _

/-- The text cut into the units a reader of UTF-8 sees: a well-formed sequence or ASCII octet as
it stands, or a single octet that belongs to none. -/
inductive Piece where
  | ascii (b : UInt8)
  | sequence (octets : Text)
  | stray (b : UInt8)
  deriving DecidableEq, Repr

def pieces : Text → List Piece
  | [] => []
  | b :: rest =>
    if b < 0x80 then .ascii b :: pieces rest
    else
      let n := sequenceLength (b :: rest)
      if n = 0 then .stray b :: pieces rest
      else .sequence ((b :: rest).take n) :: pieces (rest.drop (n - 1))
  termination_by t => t.length
  decreasing_by
    all_goals simp only [List.length_cons, List.length_drop]
    all_goals omega

end StructuredLog.Utf8
