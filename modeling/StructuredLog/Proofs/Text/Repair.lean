import StructuredLog.Format.JsonText
import StructuredLog.Proofs.Text.Sequences

/-!
# Texts made well-formed

A text with U+FFFD for each octet that is part of no encoded character. The relation reads a text
character by character and does not know how the pieces are found.
-/

namespace StructuredLog

namespace Utf8

open String (utf8EncodeChar)

def IsEncoded (t : Text) : Prop := ∃ cs : List Char, t = cs.flatMap utf8EncodeChar

theorem IsEncoded.nil : IsEncoded [] := ⟨[], rfl⟩

theorem IsEncoded.char (c : Char) : IsEncoded (utf8EncodeChar c) := ⟨[c], by simp⟩

theorem IsEncoded.append {s t : Text} (hs : IsEncoded s) (ht : IsEncoded t) :
    IsEncoded (s ++ t) := by
  obtain ⟨cs, rfl⟩ := hs
  obtain ⟨ds, rfl⟩ := ht
  exact ⟨cs ++ ds, List.flatMap_append.symm⟩

theorem exists_char_of_ascii {b : UInt8} (h : b.toNat < 128) :
    ∃ c : Char, c.val.toNat = b.toNat ∧ utf8EncodeChar c = [b] := by
  obtain ⟨c, hc⟩ := exists_char (v := b.toNat) (by simp only [Nat.isValidChar]; omega)
  refine ⟨c, hc, ?_⟩
  rw [encode_one (by omega), hc, UInt8.ofNat_toNat]

theorem IsEncoded.ascii {t : Text} (h : ∀ b ∈ t, b.toNat < 128) : IsEncoded t := by
  induction t with
  | nil => exact .nil
  | cons b t ih =>
    obtain ⟨c, -, hc⟩ := exists_char_of_ascii (h b List.mem_cons_self)
    have ht := ih fun b hb => h b (List.mem_cons_of_mem _ hb)
    rw [← List.singleton_append, ← hc]
    exact (IsEncoded.char c).append ht

theorem IsEncoded.flatMap {α : Type} {f : α → Text} {l : List α} (h : ∀ a ∈ l, IsEncoded (f a)) :
    IsEncoded (l.flatMap f) := by
  induction l with
  | nil => exact .nil
  | cons a l ih =>
    rw [List.flatMap_cons]
    exact (h a List.mem_cons_self).append (ih fun a ha => h a (List.mem_cons_of_mem _ ha))

/-- `out` is `t` with U+FFFD in place of each octet that starts no encoded character. -/
inductive Repaired : Text → Text → Prop where
  | nil : Repaired [] []
  | char (c : Char) {t out : Text} (h : Repaired t out) :
    Repaired (utf8EncodeChar c ++ t) (utf8EncodeChar c ++ out)
  | stray {b : UInt8} {t out : Text} (hb : ∀ c, ¬utf8EncodeChar c <+: b :: t)
    (h : Repaired t out) : Repaired (b :: t) (utf8EncodeChar '\uFFFD' ++ out)

def Piece.repaired : Piece → Text
  | .ascii b => [b]
  | .sequence octets => octets
  | .stray _ => utf8EncodeChar '\uFFFD'

def repair (t : Text) : Text := (pieces t).flatMap Piece.repaired

def Piece.Proper : Piece → Prop
  | .ascii b => b.toNat < 128
  | .sequence octets => ∃ c : Char, 128 ≤ c.val.toNat ∧ octets = utf8EncodeChar c
  | .stray _ => True

theorem encode_prefix_cons {c : Char} {b : UInt8} {t : Text} (hb : 128 ≤ b.toNat)
    (h : utf8EncodeChar c <+: b :: t) : 128 ≤ c.val.toNat := by
  rcases Nat.lt_or_ge c.val.toNat 128 with hlt | hge
  · rw [encode_one hlt, List.cons_prefix_cons] at h
    rwa [← h.1, UInt8.toNat_ofNat_of_lt (by omega)] at hb
  · exact hge

theorem pieces_ascii {b : UInt8} {rest : Text} (hb : b < 0x80) :
    pieces (b :: rest) = .ascii b :: pieces rest := by
  rw [pieces, if_pos hb]

theorem pieces_stray {b : UInt8} {rest : Text} (hb : ¬b < 0x80)
    (hn : sequenceLength (b :: rest) = 0) : pieces (b :: rest) = .stray b :: pieces rest := by
  rw [pieces, if_neg hb]
  simp only [hn, if_true]

theorem pieces_sequence {b : UInt8} {rest : Text} (hb : ¬b < 0x80)
    (hn : sequenceLength (b :: rest) ≠ 0) : pieces (b :: rest) =
      .sequence ((b :: rest).take (sequenceLength (b :: rest))) ::
        pieces (rest.drop (sequenceLength (b :: rest) - 1)) := by
  rw [pieces, if_neg hb]
  simp only [hn, if_false]

theorem pieces_proper (t : Text) : ∀ p ∈ pieces t, p.Proper := by
  induction t using pieces.induct with
  | case1 =>
    rw [pieces]
    exact nofun
  | case2 b rest hb ih =>
    rw [pieces_ascii hb, List.forall_mem_cons]
    exact ⟨UInt8.lt_iff_toNat_lt.mp hb, ih⟩
  | case3 b rest hb n hn ih =>
    rw [pieces_stray hb hn, List.forall_mem_cons]
    exact ⟨trivial, ih⟩
  | case4 b rest hb n hn ih =>
    rw [pieces_sequence hb hn, List.forall_mem_cons]
    obtain ⟨c, hc, hencode⟩ := exists_encode_of_sequence hn
    exact ⟨⟨c, hc, hencode.symm⟩, ih⟩

theorem repaired_repair (t : Text) : Repaired t (repair t) := by
  induction t using pieces.induct with
  | case1 =>
    rw [repair, pieces]
    exact .nil
  | case2 b rest hb ih =>
    rw [repair, pieces_ascii hb, List.flatMap_cons]
    obtain ⟨c, -, hc⟩ := exists_char_of_ascii (UInt8.lt_iff_toNat_lt.mp hb)
    have hchar := Repaired.char c ih
    rwa [hc] at hchar
  | case3 b rest hb n hn ih =>
    rw [repair, pieces_stray hb hn, List.flatMap_cons]
    refine .stray (fun c hprefix => ?_) ih
    have hb' : 128 ≤ b.toNat := Nat.not_lt.mp fun hlt => hb (UInt8.lt_iff_toNat_lt.mpr hlt)
    obtain ⟨tail, htail⟩ := hprefix
    have hlength := sequenceLength_encode (encode_prefix_cons hb' ⟨tail, htail⟩) tail
    rw [htail, show sequenceLength (b :: rest) = 0 from hn] at hlength
    exact String.utf8EncodeChar_ne_nil (List.length_eq_zero_iff.mp hlength.symm)
  | case4 b rest hb n hn ih =>
    rw [repair, pieces_sequence hb hn, List.flatMap_cons]
    obtain ⟨c, -, hencode⟩ := exists_encode_of_sequence hn
    have hsplit : b :: rest = utf8EncodeChar c ++ rest.drop (n - 1) := by
      have hdrop : rest.drop (n - 1) = (b :: rest).drop n := by
        obtain ⟨m, hm⟩ := Nat.exists_eq_succ_of_ne_zero hn
        have hm' : n = m + 1 := hm
        rw [hm', List.drop_succ_cons, Nat.add_sub_cancel]
      rw [hencode, hdrop]
      exact (List.take_append_drop n (b :: rest)).symm
    have hchar := Repaired.char c ih
    rw [← hsplit] at hchar
    rw [Piece.repaired, ← hencode]
    exact hchar

theorem encode_head_ne {c d : Char} (hc : c.val.toNat < 128) (hd : 128 ≤ d.val.toNat)
    {s t : Text} : utf8EncodeChar c ++ s ≠ utf8EncodeChar d ++ t := by
  intro h
  rw [encode_one hc] at h
  obtain ⟨b, rest, hb⟩ := List.exists_cons_of_ne_nil (String.utf8EncodeChar_ne_nil (c := d))
  have hhigh := le_of_mem_encode hd (b := b) (by simp [hb])
  rw [hb] at h
  rw [← (List.cons.inj h).1, UInt8.toNat_ofNat_of_lt (by omega)] at hhigh
  omega

theorem encode_append_inj {c d : Char} {s t : Text}
    (h : utf8EncodeChar c ++ s = utf8EncodeChar d ++ t) :
    utf8EncodeChar c = utf8EncodeChar d ∧ s = t := by
  refine List.append_inj h ?_
  rcases Nat.lt_or_ge c.val.toNat 128 with hc | hc
  · rcases Nat.lt_or_ge d.val.toNat 128 with hd | hd
    · rw [encode_one hc, encode_one hd]
      rfl
    · exact absurd h (encode_head_ne hc hd)
  · rcases Nat.lt_or_ge d.val.toNat 128 with hd | hd
    · exact absurd h.symm (encode_head_ne hd hc)
    · rw [← sequenceLength_encode hc s, h, sequenceLength_encode hd t]

theorem encode_append_ne_nil {c : Char} {t : Text} : utf8EncodeChar c ++ t ≠ [] := fun h =>
  String.utf8EncodeChar_ne_nil (List.append_eq_nil_iff.mp h).1

theorem Repaired.unique {t out out' : Text} (h : Repaired t out) (h' : Repaired t out') :
    out = out' := by
  induction h generalizing out' with
  | nil =>
    generalize hu : [] = u at h'
    cases h' with
    | nil => rfl
    | char d h' => exact absurd hu.symm encode_append_ne_nil
    | stray hd h' => cases hu
  | @char c t out h ih =>
    generalize hu : utf8EncodeChar c ++ t = u at h'
    cases h' with
    | nil => exact absurd hu encode_append_ne_nil
    | char d h' =>
      obtain ⟨hcd, rfl⟩ := encode_append_inj hu
      rw [hcd, ih h']
    | stray hd h' => exact absurd ⟨t, hu⟩ (hd c)
  | @stray b t out hb h ih =>
    generalize hu : b :: t = u at h'
    cases h' with
    | nil => cases hu
    | char d h' => exact absurd ⟨_, hu.symm⟩ (hb d)
    | stray hd h' =>
      obtain ⟨-, rfl⟩ := List.cons.inj hu
      rw [ih h']

theorem repaired_self {t : Text} (h : IsEncoded t) : Repaired t t := by
  obtain ⟨cs, rfl⟩ := h
  induction cs with
  | nil => exact .nil
  | cons c cs ih =>
    rw [List.flatMap_cons]
    exact .char c ih

theorem repair_of_isEncoded {t : Text} (h : IsEncoded t) : repair t = t :=
  (repaired_repair t).unique (repaired_self h)

theorem repaired_iff {t out : Text} : Repaired t out ↔ out = repair t := by
  constructor
  · exact fun h => h.unique (repaired_repair t)
  · rintro rfl
    exact repaired_repair t

end Utf8

end StructuredLog
