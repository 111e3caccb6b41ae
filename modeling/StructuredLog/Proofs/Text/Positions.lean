import StructuredLog.Proofs.Text.Repair

/-!
# Sequences at positions

A text may also be read octet by octet at positions, where nothing keeps a reader from asking for an
octet past the end. The length of the sequence at a position is found without that, and it is the
length of the encoded code point that stands there.
-/

namespace StructuredLog

namespace Utf8

open String (utf8EncodeChar)

def IsCodePoint (v : Nat) : Prop := 0x80 ≤ v ∧ v ≤ 0x10ffff ∧ ¬(0xd800 ≤ v ∧ v ≤ 0xdfff)

/-- The octets of a code point beyond ASCII: as many as its bits need, six of them in each behind
the first. -/
def encoding (v : Nat) : Text :=
  if v < 0x800 then [0xc0 + v / 64, 0x80 + v % 64].map UInt8.ofNat
  else if v < 0x10000 then [0xe0 + v / 4096, 0x80 + v / 64 % 64, 0x80 + v % 64].map UInt8.ofNat
  else [0xf0 + v / 262144, 0x80 + v / 4096 % 64, 0x80 + v / 64 % 64, 0x80 + v % 64].map UInt8.ofNat

def EncodedAt (t : Text) (pos n : Nat) : Prop :=
  ∃ v, IsCodePoint v ∧ encoding v <+: t.drop pos ∧ (encoding v).length = n

def continuesAt (t : Text) (pos : Nat) : (count : Nat) → Option Bool
  | 0 => some true
  | count + 1 => do
    let b ← t[pos]?
    if isContinuation b then continuesAt t (pos + 1) count else some false

/-- The length of the sequence at the position, or zero, from its octets one at a time; nothing if
an octet is asked for that the text does not have. -/
def lengthAt (t : Text) (pos : Nat) : Option Nat := do
  let lead ← t[pos]?
  match leadShape lead with
  | none => some 0
  | some (n, low, high) =>
    if t.length - pos < n then some 0
    else
      let second ← t[pos + 1]?
      if second < low ∨ high < second then some 0
      else
        let continues ← continuesAt t (pos + 2) (n - 2)
        some (if continues then n else 0)

theorem encode_eq_encoding {c : Char} (h : 128 ≤ c.val.toNat) :
    utf8EncodeChar c = encoding c.val.toNat := by
  rw [encoding]
  split_ifs with htwo hthree
  · rw [encode_two h htwo]
    simp only [List.map_cons, List.map_nil, Nat.add_comm]
  · rw [encode_three (Nat.not_lt.mp htwo) hthree]
    simp only [List.map_cons, List.map_nil, Nat.add_comm]
  · rw [encode_four (Nat.not_lt.mp hthree)]
    simp only [List.map_cons, List.map_nil, Nat.add_comm]

theorem isCodePoint_iff {v : Nat} :
    IsCodePoint v ↔ ∃ c : Char, 128 ≤ c.val.toNat ∧ c.val.toNat = v := by
  constructor
  · rintro ⟨hlow, hhigh, hsurrogate⟩
    obtain ⟨c, hc⟩ := exists_char (v := v) (by simp only [Nat.isValidChar]; omega)
    exact ⟨c, hc.symm ▸ hlow, hc⟩
  · rintro ⟨c, hlow, rfl⟩
    have hvalid := c.valid
    simp only [UInt32.isValidChar, Nat.isValidChar] at hvalid
    exact ⟨hlow, by omega, by omega⟩

variable {t : Text} {pos n : Nat}

theorem encodedAt_iff : EncodedAt t pos n ↔ ∃ c : Char, 128 ≤ c.val.toNat ∧
    utf8EncodeChar c <+: t.drop pos ∧ (utf8EncodeChar c).length = n := by
  constructor
  · rintro ⟨v, hv, hstarts, hlength⟩
    obtain ⟨c, hc, rfl⟩ := isCodePoint_iff.mp hv
    rw [← encode_eq_encoding hc] at hstarts hlength
    exact ⟨c, hc, hstarts, hlength⟩
  · rintro ⟨c, hc, hstarts, hlength⟩
    rw [encode_eq_encoding hc] at hstarts hlength
    exact ⟨_, isCodePoint_iff.mpr ⟨c, hc, rfl⟩, hstarts, hlength⟩

theorem continuesAt_eq {count : Nat} (h : pos + count ≤ t.length) :
    continuesAt t pos count = some (((t.drop pos).take count).all isContinuation) := by
  induction count generalizing pos with
  | zero => rfl
  | succ count ih =>
    have hpos : pos < t.length := by omega
    rw [continuesAt, List.getElem?_eq_getElem hpos, Option.bind_eq_bind, Option.bind_some,
      List.drop_eq_getElem_cons hpos, List.take_succ_cons, List.all_cons]
    cases isContinuation t[pos] with
    | true => exact ih (by omega)
    | false => rfl

theorem sequenceLength_of_short {x low high : UInt8} {rest : Text}
    (hshape : leadShape x = some (n, low, high)) (h : rest.length + 1 < n) :
    sequenceLength (x :: rest) = 0 := by
  cases rest with
  | nil => rfl
  | cons y rest =>
    rw [sequenceLength_of_shape hshape, if_neg]
    rintro ⟨-, -, hroom, -⟩
    rw [List.length_cons] at h
    omega

/-- No octet past the end is asked for: where the text has fewer octets than the first announces, no
other is read. -/
theorem lengthAt_eq (hpos : pos < t.length) :
    lengthAt t pos = some (sequenceLength (t.drop pos)) := by
  rw [lengthAt, List.getElem?_eq_getElem hpos, Option.bind_eq_bind, Option.bind_some,
    List.drop_eq_getElem_cons hpos]
  cases hshape : leadShape t[pos] with
  | none =>
    cases t.drop (pos + 1) with
    | nil => rfl
    | cons y rest => simp only [sequenceLength, hshape]
  | some shape =>
    obtain ⟨n, low, high⟩ := shape
    have hn := leadShape_length hshape
    dsimp only
    by_cases hroom : t.length - pos < n
    · rw [if_pos hroom, sequenceLength_of_short hshape (by rw [List.length_drop]; omega)]
    · have hnext : pos + 1 < t.length := by omega
      rw [if_neg hroom, List.getElem?_eq_getElem hnext, Option.bind_eq_bind, Option.bind_some,
        List.drop_eq_getElem_cons hnext, sequenceLength_of_shape hshape,
        continuesAt_eq (by omega)]
      have hrest : n - 2 ≤ (t.drop (pos + 1 + 1)).length := by
        rw [List.length_drop]
        omega
      by_cases hsecond : t[pos + 1] < low ∨ high < t[pos + 1]
      · rw [if_pos hsecond, if_neg]
        rw [UInt8.lt_iff_toNat_lt, UInt8.lt_iff_toNat_lt] at hsecond
        omega
      · rw [if_neg hsecond, Option.bind_some]
        rw [UInt8.lt_iff_toNat_lt, UInt8.lt_iff_toNat_lt, not_or, Nat.not_lt, Nat.not_lt] at hsecond
        simp only [hsecond.1, hsecond.2, hrest, true_and]

theorem lengthAt_eq_some_iff (hpos : pos < t.length) (hn : 0 < n) :
    lengthAt t pos = some n ↔ EncodedAt t pos n := by
  rw [lengthAt_eq hpos, Option.some.injEq, encodedAt_iff]
  constructor
  · rintro rfl
    obtain ⟨c, hc, hencode⟩ := exists_encode_of_sequence (Nat.ne_of_gt hn)
    refine ⟨c, hc, hencode ▸ List.take_prefix _ _, ?_⟩
    rw [hencode, List.length_take, Nat.min_eq_left (sequenceLength_le _)]
  · rintro ⟨c, hc, ⟨rest, hrest⟩, rfl⟩
    rw [← hrest, sequenceLength_encode hc]

theorem EncodedAt.length_pos (h : EncodedAt t pos n) : 0 < n := by
  obtain ⟨c, -, -, rfl⟩ := encodedAt_iff.mp h
  exact List.length_pos_iff.mpr String.utf8EncodeChar_ne_nil

theorem lengthAt_eq_zero_iff (hpos : pos < t.length) :
    lengthAt t pos = some 0 ↔ ∀ n, ¬EncodedAt t pos n := by
  constructor
  · intro hzero n h
    rw [(lengthAt_eq_some_iff hpos h.length_pos).mpr h, Option.some.injEq] at hzero
    exact Nat.ne_of_gt h.length_pos hzero
  · intro hnone
    have hread := lengthAt_eq hpos
    rcases Nat.eq_zero_or_pos (sequenceLength (t.drop pos)) with hzero | hpositive
    · rw [hread, hzero]
    · exact absurd ((lengthAt_eq_some_iff hpos hpositive).mp hread) (hnone _)

end Utf8

end StructuredLog
