import Mathlib.Logic.Relation
import StructuredLog.Proofs.Text.Positions

/-!
# Escaping by a scan

The loop that escapes a text goes over it by positions. It stops when it stands exactly at the end,
so it would run on if it ever stepped past it. It never does, as no sequence that is found reaches
past the end, and where it stops it has written the escaped text. Main statement: `scan_exact`.
-/

namespace StructuredLog

namespace JsonText

open Utf8

/-- How far a text is read, and what is written for it. -/
structure Scan where
  pos : Nat
  out : Text
  deriving DecidableEq, Repr

namespace Scan

def start : Scan := ⟨0, []⟩

/-- One turn of the loop; nothing if an octet is asked for that the text does not have. -/
def turn (t : Text) (s : Scan) : Option Scan := do
  let b ← t[s.pos]?
  if b < 0x80 then some ⟨s.pos + 1, s.out ++ escapeAscii b⟩
  else
    let n ← lengthAt t s.pos
    if n = 0 then some ⟨s.pos + 1, s.out ++ replacement⟩
    else some ⟨s.pos + n, s.out ++ (t.drop s.pos).take n⟩

def Steps (t : Text) (s s' : Scan) : Prop := s.pos ≠ t.length ∧ s.turn t = some s'

def Reached (t : Text) : Scan → Prop := Relation.ReflTransGen (Steps t) start

/-- The loop stops, with this written. -/
inductive Stops (t : Text) : Scan → Text → Prop
  | ended {s : Scan} (h : s.pos = t.length) : Stops t s s.out
  | turned {s s' : Scan} {out : Text} (h : Steps t s s') (hrest : Stops t s' out) : Stops t s out

variable {t : Text} {s s' : Scan} {out : Text}

theorem escape_ascii {b : UInt8} {rest : Text} (hb : b < 0x80) :
    escape (b :: rest) = escapeAscii b ++ escape rest := by
  rw [escape, pieces_ascii hb, List.flatMap_cons]
  rfl

theorem escape_stray {b : UInt8} {rest : Text} (hb : ¬b < 0x80)
    (hn : sequenceLength (b :: rest) = 0) : escape (b :: rest) = replacement ++ escape rest := by
  rw [escape, pieces_stray hb hn, List.flatMap_cons]
  rfl

theorem escape_sequence {b : UInt8} {rest : Text} (hb : ¬b < 0x80)
    (hn : sequenceLength (b :: rest) ≠ 0) : escape (b :: rest) =
      (b :: rest).take (sequenceLength (b :: rest)) ++
        escape ((b :: rest).drop (sequenceLength (b :: rest))) := by
  have hdrop : (b :: rest).drop (sequenceLength (b :: rest)) =
      rest.drop (sequenceLength (b :: rest) - 1) := by
    obtain ⟨m, hm⟩ := Nat.exists_eq_succ_of_ne_zero hn
    rw [hm, List.drop_succ_cons, Nat.succ_sub_one]
  rw [hdrop, escape, pieces_sequence hb hn, List.flatMap_cons]
  rfl

def whole (t : Text) (s : Scan) : Text := s.out ++ escape (t.drop s.pos)

/-- Before the end a turn reads what it asks for, moves on but not past the end, and writes what
the escaped text has there. -/
theorem exists_turn (hpos : s.pos < t.length) :
    ∃ s', s.turn t = some s' ∧ s.pos < s'.pos ∧ s'.pos ≤ t.length ∧ s'.whole t = s.whole t := by
  have hfirst := List.drop_eq_getElem_cons hpos
  have hlength := sequenceLength_le (t.drop s.pos)
  rw [List.length_drop] at hlength
  simp only [turn, List.getElem?_eq_getElem hpos, lengthAt_eq hpos, Option.bind_eq_bind,
    Option.bind_some]
  by_cases hascii : t[s.pos] < 0x80
  · rw [if_pos hascii]
    refine ⟨_, rfl, Nat.lt_succ_self _, hpos, ?_⟩
    rw [whole, whole, hfirst, escape_ascii hascii, List.append_assoc]
  rw [if_neg hascii]
  by_cases hstray : sequenceLength (t.drop s.pos) = 0
  · rw [if_pos hstray]
    refine ⟨_, rfl, Nat.lt_succ_self _, hpos, ?_⟩
    rw [hfirst] at hstray
    rw [whole, whole, hfirst, escape_stray hascii hstray, List.append_assoc]
  · rw [if_neg hstray]
    refine ⟨_, rfl, Nat.lt_add_of_pos_right (Nat.pos_of_ne_zero hstray),
      Nat.add_le_of_le_sub' (Nat.le_of_lt hpos) hlength, ?_⟩
    rw [hfirst] at hstray
    rw [whole, whole, hfirst, escape_sequence hascii hstray, ← hfirst, List.drop_drop,
      List.append_assoc]

theorem stops_whole {s : Scan} (hpos : s.pos ≤ t.length) : Stops t s (s.whole t) := by
  induction hleft : t.length - s.pos using Nat.strongRecOn generalizing s with
  | ind left ih =>
    by_cases hend : s.pos = t.length
    · have hwhole : s.whole t = s.out := by
        rw [whole, hend, List.drop_length, escape, pieces, List.flatMap_nil, List.append_nil]
      rw [hwhole]
      exact .ended hend
    · obtain ⟨s', hturn, hon, hle, hwhole⟩ := exists_turn (Nat.lt_of_le_of_ne hpos hend)
      rw [← hwhole]
      exact .turned ⟨hend, hturn⟩ (ih (t.length - s'.pos) (by omega) hle rfl)

theorem Stops.unique {out' : Text} (h : Stops t s out) (h' : Stops t s out') : out = out' := by
  induction h with
  | ended hend =>
    cases h' with
    | ended => rfl
    | turned hstep => exact absurd hend hstep.1
  | turned hstep hrest ih =>
    cases h' with
    | ended hend => exact absurd hend hstep.1
    | turned hstep' hrest' =>
      obtain rfl := Option.some.inj (hstep.2.symm.trans hstep'.2)
      exact ih hrest'

theorem Reached.pos_le (h : Reached t s) : s.pos ≤ t.length := by
  induction h with
  | refl => exact Nat.zero_le _
  | tail _ hstep ih =>
    obtain ⟨s', hturn, -, hle, -⟩ := exists_turn (Nat.lt_of_le_of_ne ih hstep.1)
    exact Option.some.inj (hturn.symm.trans hstep.2) ▸ hle

end Scan

open Scan

/-- At every position of every text the length that is found is that of the encoded code point
beyond ASCII that stands there, and zero if none stands there; the reader asks for no octet past the
end. So the loop stops, with the escaped text written, and in every state that it comes to it stands
at the end or takes a turn that moves on, never past the end. -/
theorem scan_exact :
    (∀ (t : Text) (pos : Nat), pos < t.length →
      ∃ n, lengthAt t pos = some n ∧ pos + n ≤ t.length ∧
        (∀ m, 0 < m → (n = m ↔ EncodedAt t pos m)) ∧ (n = 0 ↔ ∀ m, ¬EncodedAt t pos m)) ∧
    ∀ t : Text, (∀ out, Stops t start out ↔ out = escape t) ∧
      ∀ s, Reached t s → s.pos ≤ t.length ∧
        (s.pos = t.length ∨ ∃ s', s.turn t = some s' ∧ s.pos < s'.pos ∧ s'.pos ≤ t.length) := by
  refine ⟨fun t pos hpos => ?_, fun t => ⟨fun out => ?_, fun s hs => ⟨hs.pos_le, ?_⟩⟩⟩
  · have hread := lengthAt_eq hpos
    have hbound := sequenceLength_le (t.drop pos)
    rw [List.length_drop] at hbound
    refine ⟨_, hread, by omega, fun m hm => ?_, ?_⟩
    · rw [← lengthAt_eq_some_iff hpos hm, hread, Option.some.injEq]
    · rw [← lengthAt_eq_zero_iff hpos, hread, Option.some.injEq]
  · have hstops : Stops t start (escape t) := stops_whole (s := start) (Nat.zero_le _)
    constructor
    · exact fun h => h.unique hstops
    · rintro rfl
      exact hstops
  · by_cases hend : s.pos = t.length
    · exact .inl hend
    · obtain ⟨s', hturn, hon, hle, -⟩ := exists_turn (Nat.lt_of_le_of_ne hs.pos_le hend)
      exact .inr ⟨s', hturn, hon, hle⟩

/-- A quotation mark, the euro sign, and a longer sequence that is cut off by the end. -/
theorem scan_exact_cutOff :
    let t : Text := [0x22, 0xe2, 0x82, 0xac, 0xf0, 0x9f, 0x98]
    4 < t.length ∧ EncodedAt t 1 3 ∧ lengthAt t 4 = some 0 ∧ (∀ m, ¬EncodedAt t 4 m) ∧
      Stops t start ([92, 34, 0xe2, 0x82, 0xac] ++ replacement ++ replacement ++ replacement) := by
  intro t
  obtain ⟨hfound, hscan⟩ := scan_exact
  have hlength : 4 < t.length := by decide
  have hthree : lengthAt t 1 = some 3 := by decide
  have hzero : lengthAt t 4 = some 0 := by decide
  obtain ⟨n, hn, -, hencoded, -⟩ := hfound t 1 (by decide)
  obtain rfl : n = 3 := Option.some.inj (hn.symm.trans hthree)
  obtain ⟨n, hn, -, -, hnone⟩ := hfound t 4 hlength
  obtain rfl : n = 0 := Option.some.inj (hn.symm.trans hzero)
  exact ⟨hlength, (hencoded 3 (by decide)).mp rfl, hzero, hnone.mp rfl,
    ((hscan t).1 _).mpr (by decide +kernel)⟩

end JsonText

end StructuredLog
