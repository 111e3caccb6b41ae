import StructuredLog.Proofs.Format.JsonReader
import StructuredLog.Proofs.Text.Repair

/-!
# Strings in JSON

An escaped text is one line of UTF-8, and its reading is the text with its stray octets replaced.
Both follow piece by piece: an escape is read back as its octet, and the octets of a longer
character stand for themselves.
-/

namespace StructuredLog

open Utf8 (IsEncoded Piece pieces pieces_proper repair)
open String (utf8EncodeChar)

namespace Text

def IsPrintable (t : Text) : Prop := t.all fun b => decide (32 ≤ b.toNat ∧ b.toNat < 128)

instance (t : Text) : Decidable (IsPrintable t) := inferInstanceAs (Decidable (_ = true))

theorem isPrintable_iff {t : Text} : IsPrintable t ↔ ∀ b ∈ t, 32 ≤ b.toNat ∧ b.toNat < 128 := by
  simp [IsPrintable]

theorem IsPrintable.append {s t : Text} (hs : IsPrintable s) (ht : IsPrintable t) :
    IsPrintable (s ++ t) :=
  isPrintable_iff.mpr
    (List.forall_mem_append.mpr ⟨isPrintable_iff.mp hs, isPrintable_iff.mp ht⟩)

theorem isPrintable_of_digits {t : Text} (h : ∀ b ∈ t, isDigit b = true) : IsPrintable t := by
  rw [isPrintable_iff]
  intro b hb
  have := isDigit_iff.mp (h b hb)
  omega

theorem IsPrintable.isEncoded {t : Text} (h : IsPrintable t) : IsEncoded t :=
  .ascii fun b hb => (isPrintable_iff.mp h b hb).2

/-- One line of UTF-8: encoded characters, none of them a control. -/
structure IsLine (t : Text) : Prop where
  encoded : IsEncoded t
  visible : ∀ b ∈ t, 32 ≤ b.toNat

theorem IsPrintable.isLine {t : Text} (h : IsPrintable t) : IsLine t :=
  ⟨h.isEncoded, fun b hb => (isPrintable_iff.mp h b hb).1⟩

theorem IsLine.append {s t : Text} (hs : IsLine s) (ht : IsLine t) : IsLine (s ++ t) :=
  ⟨hs.encoded.append ht.encoded, List.forall_mem_append.mpr ⟨hs.visible, ht.visible⟩⟩

theorem IsLine.flatMap {α : Type} {f : α → Text} {l : List α} (h : ∀ a ∈ l, IsLine (f a)) :
    IsLine (l.flatMap f) := by
  refine ⟨.flatMap fun a ha => (h a ha).encoded, fun b hb => ?_⟩
  obtain ⟨a, ha, hb⟩ := List.mem_flatMap.mp hb
  exact (h a ha).visible b hb

theorem isLine_encode {c : Char} (h : 128 ≤ c.val.toNat) : IsLine (utf8EncodeChar c) :=
  ⟨.char c, fun _ hb => Nat.le_trans (by decide) (Utf8.le_of_mem_encode h hb)⟩

end Text

namespace JsonText

open Text Json

theorem hexValue_hexDigit : ∀ n : Fin 16, hexValue (Decimal.hexDigit n) = some n.val := by
  decide

theorem isPrintable_hexDigit : ∀ n : Fin 16, IsPrintable [Decimal.hexDigit n] := by
  decide

theorem encodePoint_of_lt : ∀ n : Fin 32, encodePoint n = [UInt8.ofNat n] := by
  decide

theorem readEscape_control {b : UInt8} (hb : b.toNat < 32) (t : Text) :
    readEscape ([117, 48, 48, Decimal.hexDigit (b.toNat / 16),
      Decimal.hexDigit (b.toNat % 16)] ++ t) = some ([b], t) := by
  have hhigh := hexValue_hexDigit ⟨b.toNat / 16, by omega⟩
  have hlow := hexValue_hexDigit ⟨b.toNat % 16, by omega⟩
  have hpoint := encodePoint_of_lt ⟨b.toNat, hb⟩
  have hzero : hexValue 48 = some 0 := rfl
  have hvalue : ((0 * 16 + 0) * 16 + b.toNat / 16) * 16 + b.toNat % 16 = b.toNat := by omega
  simp only [UInt8.ofNat_toNat] at hhigh hlow hpoint
  simp only [List.cons_append, List.nil_append, readEscape]
  rw [if_neg (by decide), if_neg (by decide), if_neg (by decide), if_neg (by decide),
    if_neg (by decide), if_neg (by decide), if_pos trivial]
  simp only [readPoint, readHex, hzero, hhigh, hlow, Option.bind_eq_bind, Option.bind_some,
    hvalue]
  rw [if_neg (by omega), if_neg (by omega), hpoint]

def Plain (b : UInt8) : Prop := b ≠ 34 ∧ b ≠ 92 ∧ 32 ≤ b.toNat

theorem escapeAscii_cases {b : UInt8} (hb : b.toNat < 128) :
    (escapeAscii b = [b] ∧ Plain b) ∨
      ∃ e, escapeAscii b = 92 :: e ∧ IsPrintable e ∧
        ∀ t, readEscape (e ++ t) = some ([b], t) := by
  unfold escapeAscii
  split_ifs with h34 h92 h8 h12 h10 h13 h9 hcontrol
  · exact .inr ⟨[34], rfl, by decide, fun t => by rw [h34]; rfl⟩
  · exact .inr ⟨[92], rfl, by decide, fun t => by rw [h92]; rfl⟩
  · exact .inr ⟨[98], rfl, by decide, fun t => by rw [h8]; rfl⟩
  · exact .inr ⟨[102], rfl, by decide, fun t => by rw [h12]; rfl⟩
  · exact .inr ⟨[110], rfl, by decide, fun t => by rw [h10]; rfl⟩
  · exact .inr ⟨[114], rfl, by decide, fun t => by rw [h13]; rfl⟩
  · exact .inr ⟨[116], rfl, by decide, fun t => by rw [h9]; rfl⟩
  · have hcode : IsPrintable [117, 48, 48] := by decide
    have hdigits := (isPrintable_hexDigit ⟨b.toNat / 16, by omega⟩).append
      (isPrintable_hexDigit ⟨b.toNat % 16, by omega⟩)
    have hlt := UInt8.lt_iff_toNat_lt.mp hcontrol
    exact .inr ⟨_, rfl, hcode.append hdigits, readEscape_control hlt⟩
  · exact .inl ⟨rfl, h34, h92, Nat.not_lt.mp fun h => hcontrol (UInt8.lt_iff_toNat_lt.mpr h)⟩

def ReadsBody (content t : Text) : Prop :=
  ∀ fuel rest, content.length < fuel → readBody fuel (content ++ 34 :: rest) = some (t, rest)

theorem readsBody_nil : ReadsBody [] [] := by
  intro fuel rest h
  obtain ⟨fuel, rfl⟩ := Nat.exists_eq_succ_of_ne_zero (Nat.ne_of_gt h)
  rfl

theorem ReadsBody.cons {content t : Text} (h : ReadsBody content t) {b : UInt8} (hb : Plain b) :
    ReadsBody (b :: content) (b :: t) := by
  intro fuel rest hlt
  obtain ⟨fuel, rfl⟩ := Nat.exists_eq_succ_of_ne_zero (Nat.ne_of_gt (Nat.zero_lt_of_lt hlt))
  have hvisible : ¬b < 32 := fun h => Nat.not_lt.mpr hb.2.2 (UInt8.lt_iff_toNat_lt.mp h)
  rw [List.cons_append, readBody, if_neg hb.1, if_neg hb.2.1, if_neg hvisible,
    h fuel rest (Nat.lt_of_succ_lt_succ hlt)]
  rfl

theorem ReadsBody.append {content t : Text} (h : ReadsBody content t) {raw : Text}
    (hraw : ∀ b ∈ raw, Plain b) : ReadsBody (raw ++ content) (raw ++ t) := by
  induction raw with
  | nil => exact h
  | cons b raw ih =>
    exact (ih fun b hb => hraw b (List.mem_cons_of_mem _ hb)).cons (hraw b List.mem_cons_self)

theorem ReadsBody.escape {content t e octets : Text} (h : ReadsBody content t)
    (he : ∀ t, readEscape (e ++ t) = some (octets, t)) :
    ReadsBody (92 :: e ++ content) (octets ++ t) := by
  intro fuel rest hlt
  obtain ⟨fuel, rfl⟩ := Nat.exists_eq_succ_of_ne_zero (Nat.ne_of_gt (Nat.zero_lt_of_lt hlt))
  rw [List.length_append, List.length_cons] at hlt
  rw [List.cons_append, List.cons_append, List.append_assoc, readBody, if_neg (by decide),
    if_pos rfl]
  simp only [he, h fuel rest (by omega), Option.bind_eq_bind, Option.bind_some]

theorem plain_of_le {b : UInt8} (h : 128 ≤ b.toNat) : Plain b := by
  refine ⟨?_, ?_, Nat.le_trans (by decide) h⟩
  · rintro rfl
    exact absurd h (by decide)
  · rintro rfl
    exact absurd h (by decide)

theorem replacement_eq : replacement = utf8EncodeChar '\uFFFD' := by decide

theorem ReadsBody.piece {content t : Text} (h : ReadsBody content t) {p : Piece}
    (hp : p.Proper) : ReadsBody (escapePiece p ++ content) (p.repaired ++ t) := by
  have hencoded : ∀ c : Char, 128 ≤ c.val.toNat →
      ReadsBody (utf8EncodeChar c ++ content) (utf8EncodeChar c ++ t) := fun c hc =>
    h.append fun b hb => plain_of_le (Utf8.le_of_mem_encode hc hb)
  cases p with
  | ascii b =>
    rw [escapePiece, Piece.repaired]
    rcases escapeAscii_cases hp with ⟨hself, hplain⟩ | ⟨e, hescape, -, hread⟩
    · rw [hself]
      exact h.cons hplain
    · rw [hescape]
      exact h.escape hread
  | sequence octets =>
    obtain ⟨c, hc, rfl⟩ := hp
    exact hencoded c hc
  | stray b =>
    rw [escapePiece, Piece.repaired, replacement_eq]
    exact hencoded '\uFFFD' (by decide)

theorem readsBody_pieces {ps : List Piece} (h : ∀ p ∈ ps, p.Proper) :
    ReadsBody (ps.flatMap escapePiece) (ps.flatMap Piece.repaired) := by
  induction ps with
  | nil => exact readsBody_nil
  | cons p ps ih =>
    rw [List.flatMap_cons, List.flatMap_cons]
    exact (ih fun p hp => h p (List.mem_cons_of_mem _ hp)).piece (h p List.mem_cons_self)

theorem readString_string (t rest : Text) :
    readString (string t ++ rest) = some (repair t, rest) := by
  have hbody := readsBody_pieces (pieces_proper t) (escape t ++ 34 :: rest).length rest
    (by rw [List.length_append, List.length_cons, escape]; omega)
  rw [string, List.append_assoc, List.append_assoc, List.singleton_append,
    List.singleton_append, readString, if_pos rfl]
  exact hbody

theorem isPrintable_escapeAscii {b : UInt8} (hb : b.toNat < 128) :
    IsPrintable (escapeAscii b) := by
  rcases escapeAscii_cases hb with ⟨hself, hplain⟩ | ⟨e, hescape, he, -⟩
  · rw [hself, isPrintable_iff]
    exact List.forall_mem_singleton.mpr ⟨hplain.2.2, hb⟩
  · have hbackslash : IsPrintable [92] := by decide
    rw [hescape]
    exact hbackslash.append he

theorem isLine_string (t : Text) : IsLine (string t) := by
  have hquote : IsLine [34] := IsPrintable.isLine (by decide)
  refine (hquote.append (IsLine.flatMap fun p hp => ?_)).append hquote
  have hproper := pieces_proper t p hp
  cases p with
  | ascii b => exact (isPrintable_escapeAscii hproper).isLine
  | sequence octets =>
    obtain ⟨c, hc, rfl⟩ := hproper
    exact isLine_encode hc
  | stray b =>
    rw [escapePiece, replacement_eq]
    exact isLine_encode (by decide)

end JsonText

end StructuredLog
