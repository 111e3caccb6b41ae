import StructuredLog.Format.JsonText
import StructuredLog.Proofs.Format.JsonStrings
import StructuredLog.Proofs.Number.ShortestDecimal

/-!
# Numbers in JSON

Integers and doubles are written as numerals of the grammar, and a numeral is read back part by
part. The numeral of a double has a fraction or an exponent, so it is never read as an integer,
and what it stands for lies in the interval that rounds to the double.
-/

namespace StructuredLog

open Text Json

namespace Json

/-! ## Reading a numeral -/

def EndsDigits (t : Text) : Prop := ∀ b ∈ t.head?, isDigit b = false ∧ b ≠ 46

theorem Stops.endsDigits {t : Text} (h : Stops t) : EndsDigits t := by
  intro b hb
  rcases h b hb with rfl | rfl | rfl <;> decide

theorem takeWhile_digits {digits t : Text} (hdigits : ∀ b ∈ digits, isDigit b = true)
    (ht : ∀ b ∈ t.head?, isDigit b = false) : (digits ++ t).takeWhile isDigit = digits ∧
      (digits ++ t).dropWhile isDigit = t := by
  rw [List.takeWhile_append_of_pos hdigits, List.dropWhile_append_of_pos hdigits]
  cases t with
  | nil => simp
  | cons b t => simp [ht b rfl]

theorem readDigits_append {digits t : Text} (hne : digits ≠ [])
    (hdigits : ∀ b ∈ digits, isDigit b = true) (ht : ∀ b ∈ t.head?, isDigit b = false) :
    readDigits (digits ++ t) = some (digits, t) := by
  obtain ⟨htake, hdrop⟩ := takeWhile_digits hdigits ht
  rw [readDigits, htake, hdrop, if_neg hne]

namespace Numeral

structure Valid (n : Numeral) : Prop where
  whole_ne_nil : n.whole ≠ []
  whole : ∀ b ∈ n.whole, isDigit b = true
  leading : n.whole.head? = some 48 → n.whole.length = 1
  fraction : ∀ b ∈ n.fraction, isDigit b = true

def signText (negative : Bool) : Text := if negative then [45] else []

def fractionText (digits : Text) : Text := if digits = [] then [] else 46 :: digits

def exponentText : Option Int → Text
  | none => []
  | some e => 101 :: (if e < 0 then 45 else 43) :: Decimal.padded 2 e.natAbs

def text (n : Numeral) : Text :=
  signText n.negative ++ n.whole ++ fractionText n.fraction ++ exponentText n.exponent

theorem readExponent_text (e : Option Int) {rest : Text} (h : Stops rest) :
    readExponent (exponentText e ++ rest) = some (e, rest) := by
  cases e with
  | none =>
    rw [exponentText, List.nil_append]
    cases rest with
    | nil => rfl
    | cons b t =>
      rw [readExponent]
      rcases h b rfl with rfl | rfl | rfl <;> rfl
  | some e =>
    have hdigits := readDigits_append (Decimal.padded_ne_nil 2 e.natAbs)
      (fun _ => Decimal.isDigit_of_mem_padded) fun b hb => (h.endsDigits b hb).1
    rw [exponentText, List.cons_append, List.cons_append, readExponent, if_pos (.inl rfl),
      readPower]
    by_cases hsign : e < 0
    · rw [if_pos hsign, if_pos rfl]
      simp only [hdigits, Decimal.valueOf_padded, Option.bind_eq_bind, Option.bind_some]
      congr 3
      omega
    · rw [if_neg hsign, if_neg (by decide), if_pos rfl]
      simp only [hdigits, Decimal.valueOf_padded, Option.bind_eq_bind, Option.bind_some]
      congr 3
      omega

theorem endsDigits_exponent (e : Option Int) {rest : Text} (h : Stops rest) :
    EndsDigits (exponentText e ++ rest) := by
  cases e with
  | none => exact h.endsDigits
  | some e =>
    intro b hb
    obtain rfl : 101 = b := Option.some.inj hb
    decide

theorem readFraction_text {digits t : Text} (hdigits : ∀ b ∈ digits, isDigit b = true)
    (ht : EndsDigits t) : readFraction (fractionText digits ++ t) = some (digits, t) := by
  rw [fractionText]
  split
  next h =>
    rw [h, List.nil_append]
    cases t with
    | nil => rfl
    | cons b t => rw [readFraction, if_neg (ht b rfl).2]
  next h =>
    rw [List.cons_append, readFraction, if_pos rfl]
    exact readDigits_append h hdigits fun b hb => (ht b hb).1

theorem head_fraction (digits : Text) {t : Text} (ht : EndsDigits t) :
    ∀ b ∈ (fractionText digits ++ t).head?, isDigit b = false := by
  rw [fractionText]
  split
  · exact fun b hb => (ht b hb).1
  · intro b hb
    obtain rfl : 46 = b := Option.some.inj hb
    decide

theorem readWhole_append {n : Numeral} (h : n.Valid) {t : Text}
    (ht : ∀ b ∈ t.head?, isDigit b = false) : readWhole (n.whole ++ t) = some (n.whole, t) := by
  rw [readWhole, readDigits_append h.whole_ne_nil h.whole ht]
  simp only [Option.bind_eq_bind, Option.bind_some]
  exact if_neg fun hzero => hzero.2 (h.leading hzero.1)

theorem head_whole_ne {n : Numeral} (h : n.Valid) (t : Text) :
    ((n.whole ++ t).head? == some 45) = false := by
  obtain ⟨b, digits, hb⟩ := List.exists_cons_of_ne_nil h.whole_ne_nil
  have hdigit := h.whole b (by simp [hb])
  rw [hb, List.cons_append, List.head?_cons, beq_eq_false_iff_ne]
  rintro heq
  obtain rfl := Option.some.inj heq
  exact absurd hdigit (by decide)

theorem readNumeral_text {n : Numeral} (h : n.Valid) {rest : Text} (hrest : Stops rest) :
    readNumeral (n.text ++ rest) = some (n, rest) := by
  have hexponent := readExponent_text n.exponent hrest
  have hends := endsDigits_exponent n.exponent hrest
  have hfraction := readFraction_text h.fraction hends
  have hwhole := readWhole_append h (head_fraction n.fraction hends)
  rw [text, List.append_assoc, List.append_assoc, List.append_assoc, readNumeral]
  have hhead := head_whole_ne h (fractionText n.fraction ++ (exponentText n.exponent ++ rest))
  obtain ⟨negative, whole, fraction, exponent⟩ := n
  cases negative with
  | true =>
    rw [signText, if_pos rfl, List.singleton_append, List.head?_cons, if_pos (beq_self_eq_true _),
      List.drop_succ_cons, List.drop_zero]
    simp only [hwhole, hfraction, hexponent, Option.bind_eq_bind, Option.bind_some]
    rfl
  | false =>
    rw [signText, if_neg Bool.false_ne_true, List.nil_append, hhead, if_neg Bool.false_ne_true]
    simp only [hwhole, hfraction, hexponent, Option.bind_eq_bind, Option.bind_some]

theorem isPrintable_text {n : Numeral} (h : n.Valid) : IsPrintable n.text := by
  have hsign : IsPrintable (signText n.negative) := by
    cases n.negative <;> decide
  have hfraction : IsPrintable (fractionText n.fraction) := by
    have hpoint : IsPrintable [46] := by decide
    rw [fractionText]
    split
    · decide
    · exact hpoint.append (isPrintable_of_digits h.fraction)
  have hexponent : IsPrintable (exponentText n.exponent) := by
    cases n.exponent with
    | none => decide
    | some e =>
      have hmark : IsPrintable [101, if e < 0 then 45 else 43] := by
        split <;> decide
      exact hmark.append (isPrintable_of_digits fun _ => Decimal.isDigit_of_mem_padded)
  exact ((hsign.append (isPrintable_of_digits h.whole)).append hfraction).append hexponent

/-! ## What a numeral stands for -/

def toRat (n : Numeral) : ℚ := n.digits * 10 ^ n.power

theorem toDouble_of_surrounds {n : Numeral} {x : Binary64} (hfinite : x.isFinite = true)
    (hsign : n.negative = x.isNegative) (hpos : 0 < n.toRat)
    (h : x.Surrounds (n.toRat / 2 ^ x.exponent)) : n.toDouble = x := by
  have hdigits : 0 < n.digits := by
    refine Nat.pos_of_ne_zero fun hzero => ?_
    rw [toRat, hzero, Nat.cast_zero, zero_mul] at hpos
    exact lt_irrefl _ hpos
  rw [toDouble, hsign]
  split
  next hpower =>
    refine Binary64.ofRatio_of_surrounds hfinite
      (Nat.mul_pos hdigits (Nat.pow_pos (by decide))) Nat.one_pos ?_
    convert h using 2
    rw [toRat, Nat.cast_one, div_one, Nat.cast_mul, Nat.cast_pow, ← zpow_natCast,
      Int.toNat_of_nonneg hpower]
    rfl
  next hpower =>
    refine Binary64.ofRatio_of_surrounds hfinite hdigits (Nat.pow_pos (by decide)) ?_
    convert h using 2
    rw [toRat, Nat.cast_pow, ← zpow_natCast, Int.toNat_of_nonneg (by omega), zpow_neg,
      div_inv_eq_mul]
    rfl

theorem toDouble_of_isZero {n : Numeral} {x : Binary64} (hzero : x.isZero = true)
    (hsign : n.negative = x.isNegative) (h : n.toRat = 0) : n.toDouble = x := by
  have hdigits : n.digits = 0 := by
    rcases mul_eq_zero.mp h with h | h
    · exact_mod_cast h
    · exact absurd h (zpow_ne_zero _ (by norm_num))
  rw [toDouble, hsign, hdigits, Nat.zero_mul]
  split <;> exact Binary64.ofRatio_of_isZero hzero _

def Marked (n : Numeral) : Prop := n.fraction ≠ [] ∨ n.exponent.isSome

instance (n : Numeral) : Decidable n.Marked := inferInstanceAs (Decidable (_ ∨ _))

theorem parts_of_not_marked {n : Numeral} (h : ¬n.Marked) :
    n.fraction = [] ∧ n.exponent = none := by
  rw [Marked, not_or, not_not, Option.not_isSome_iff_eq_none] at h
  exact h

theorem toJson_of_marked {n : Numeral} (h : n.Marked) : n.toJson = double n.toDouble := if_pos h

def isMark (b : UInt8) : Bool := b == 46 || b == 101 || b == 69

theorem isMark_of_isDigit {b : UInt8} (h : isDigit b = true) : isMark b = false := by
  have hbounds := isDigit_iff.mp h
  rw [isMark]
  simp only [Bool.or_eq_false_iff, beq_eq_false_iff_ne, ne_eq, ← UInt8.toNat_inj]
  have h46 : (46 : UInt8).toNat = 46 := rfl
  have h101 : (101 : UInt8).toNat = 101 := rfl
  have h69 : (69 : UInt8).toNat = 69 := rfl
  omega

theorem any_isMark_digits {digits : Text} (h : ∀ b ∈ digits, isDigit b = true) :
    digits.any isMark = false :=
  List.any_eq_false.mpr fun b hb => by simp [isMark_of_isDigit (h b hb)]

theorem any_isMark_signText (negative : Bool) : (signText negative).any isMark = false := by
  cases negative <;> rfl

theorem any_isMark_iff {n : Numeral} (h : n.Valid) : n.text.any isMark = true ↔ n.Marked := by
  rw [text, List.any_append, List.any_append, List.any_append, any_isMark_signText,
    any_isMark_digits h.whole, Bool.false_or, Bool.false_or, Bool.or_eq_true, Marked]
  refine or_congr ?_ ?_
  · rw [fractionText]
    split
    next hnil => simp [hnil]
    next hne => simp [hne, isMark]
  · cases n.exponent with
    | none => simp [exponentText]
    | some e => simp [exponentText, isMark]

def mark (n : Numeral) : Numeral := if n.Marked then n else { n with fraction := [48] }

theorem marked_mark (n : Numeral) : n.mark.Marked := by
  rw [mark]
  split
  next h => exact h
  · exact .inl (List.cons_ne_nil _ _)

theorem Valid.mark {n : Numeral} (h : n.Valid) : n.mark.Valid := by
  rw [Numeral.mark]
  split
  · exact h
  · have hzero : ∀ b ∈ ([48] : Text), isDigit b = true := List.forall_mem_singleton.mpr rfl
    exact ⟨h.whole_ne_nil, h.whole, h.leading, hzero⟩

theorem negative_mark (n : Numeral) : n.mark.negative = n.negative := by
  rw [mark]
  split <;> rfl

theorem toRat_mark (n : Numeral) : n.mark.toRat = n.toRat := by
  rw [mark]
  split
  · rfl
  next h =>
    obtain ⟨hfraction, hexponent⟩ := parts_of_not_marked h
    have hzero : Decimal.valueOf [48] = 0 := rfl
    rw [toRat, toRat, digits, digits, power, power, Decimal.valueOf_append, hfraction, hexponent,
      hzero, List.append_nil]
    norm_num
    ring

theorem text_mark {n : Numeral} (h : n.Valid) :
    n.mark.text = if n.text.any isMark then n.text else n.text ++ ascii ".0" := by
  rw [mark]
  by_cases hmarked : n.Marked
  · rw [if_pos hmarked, if_pos ((any_isMark_iff h).mpr hmarked)]
  · rw [if_neg hmarked, if_neg fun hany => hmarked ((any_isMark_iff h).mp hany)]
    obtain ⟨hfraction, hexponent⟩ := parts_of_not_marked hmarked
    rw [text, text, hfraction, hexponent, fractionText, fractionText, if_pos rfl,
      if_neg (List.cons_ne_nil _ _), exponentText, List.append_nil, List.append_nil,
      List.append_nil]
    rfl

/-! ## Integers -/

def integer (negative : Bool) (k : Nat) : Numeral := ⟨negative, Decimal.ofNat k, [], none⟩

theorem valid_integer (negative : Bool) (k : Nat) : (integer negative k).Valid where
  whole_ne_nil := Decimal.ofNat_ne_nil k
  whole := fun _ => Decimal.isDigit_of_mem_ofNat
  leading := fun h => by
    obtain rfl := Decimal.eq_zero_of_head_ofNat h
    rfl
  fraction := fun _ hb => nomatch hb

theorem text_integer (negative : Bool) (k : Nat) :
    (integer negative k).text = signText negative ++ Decimal.ofNat k := by
  rw [text, integer, fractionText, if_pos rfl, exponentText, List.append_nil, List.append_nil]

theorem digits_integer (negative : Bool) (k : Nat) : (integer negative k).digits = k := by
  rw [digits, integer, List.append_nil, Decimal.valueOf_ofNat]

theorem toJson_integer (negative : Bool) (k : Nat) : (integer negative k).toJson =
    if negative then if k ≤ 2 ^ 63 then int (Int64.ofInt (-k))
      else double (integer negative k).toDouble
    else if k < 2 ^ 63 then int (Int64.ofInt k)
    else if k < 2 ^ 64 then uint (UInt64.ofNat k)
    else double (integer negative k).toDouble := by
  have hmarked : ¬(integer negative k).Marked := by simp [Marked, integer]
  rw [toJson, digits_integer]
  exact if_neg hmarked

end Numeral

def Spells (t : Text) (j : Json) : Prop := ∃ n : Numeral, n.Valid ∧ n.text = t ∧ n.toJson = j

open Numeral

theorem spells_natural {k : Nat} (h : k < 2 ^ 63) :
    Spells (Decimal.ofNat k) (int (Int64.ofInt k)) := by
  refine ⟨integer false k, valid_integer _ _, text_integer _ _, ?_⟩
  rw [toJson_integer, if_neg Bool.false_ne_true, if_pos h]

theorem spells_uint (n : LargeWord) : Spells (Decimal.ofNat n.toNat) (uint n.word) := by
  refine ⟨integer false n.toNat, valid_integer _ _, text_integer _ _, ?_⟩
  have hlimit : ¬n.toNat < 2 ^ 63 := Nat.not_lt.mpr n.large
  have hword : n.toNat < 2 ^ 64 := n.word.toNat_lt
  rw [toJson_integer, if_neg Bool.false_ne_true, if_neg hlimit, if_pos hword, LargeWord.toNat,
    UInt64.ofNat_toNat]

theorem spells_int (n : Int64) : Spells (Decimal.ofInt n.toInt) (int n) := by
  have hlow := n.le_toInt
  have hhigh := n.toInt_lt
  cases hn : n.toInt with
  | ofNat k =>
    rw [hn, Int.ofNat_eq_natCast] at hhigh
    have hspells := spells_natural (k := k) (by omega)
    rwa [← Int.ofNat_eq_natCast, ← hn, Int64.ofInt_toInt] at hspells
  | negSucc k =>
    have hvalue : -((k + 1 : Nat) : Int) = n.toInt := by
      rw [hn]
      rfl
    refine ⟨integer true (k + 1), valid_integer _ _, text_integer _ _, ?_⟩
    rw [toJson_integer, if_pos rfl, if_pos (by omega), hvalue, Int64.ofInt_toInt]

end Json

end StructuredLog
