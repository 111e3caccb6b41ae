import StructuredLog.Proofs.Format.JsonNumbers

/-!
# Doubles in JSON

Every layout of the shortest decimal is a numeral that stands for the same number: in positional
notation behind zeros, before zeros or around the point, and in scientific notation. With a
fraction added where there is neither point nor exponent it is read back as the double.
-/

namespace StructuredLog

open Text Json Json.Numeral

namespace Shortest

def Lays (s : Scientific) (t : Text) : Prop := ∀ negative, ∃ n : Numeral, n.Valid ∧
  n.negative = negative ∧ n.toRat = s.toRat ∧ n.text = signText negative ++ t

theorem lays_of_parts (s : Scientific) (whole fraction : Text) (exponent : Option Int)
    (hne : whole ≠ []) (hwhole : ∀ b ∈ whole, isDigit b = true)
    (hleading : whole.head? = some 48 → whole.length = 1)
    (hfraction : ∀ b ∈ fraction, isDigit b = true)
    (hvalue : (Decimal.valueOf (whole ++ fraction) : ℚ) *
      10 ^ (exponent.getD 0 - fraction.length) = s.toRat) :
    Lays s (whole ++ fractionText fraction ++ exponentText exponent) := by
  intro negative
  refine ⟨⟨negative, whole, fraction, exponent⟩, ⟨hne, hwhole, hleading, hfraction⟩, rfl, hvalue,
    ?_⟩
  rw [Numeral.text, List.append_assoc, List.append_assoc, List.append_assoc]

section Layout

variable {s : Scientific}

theorem digits_mem {b : UInt8} (hb : b ∈ Decimal.ofNat s.digits) : isDigit b = true :=
  Decimal.isDigit_of_mem_ofNat hb

theorem digits_leading (hpos : 0 < s.digits) : (Decimal.ofNat s.digits).head? ≠ some 48 :=
  fun h => Nat.ne_of_gt hpos (Decimal.eq_zero_of_head_ofNat h)

theorem lays_behind_zeros (s : Scientific) {k : Nat}
    (hk : s.power = -(k + (Decimal.ofNat s.digits).length : Int)) :
    Lays s (ascii "0." ++ List.replicate k 48 ++ Decimal.ofNat s.digits) := by
  have hfraction : ∀ b ∈ List.replicate k 48 ++ Decimal.ofNat s.digits, isDigit b = true :=
    List.forall_mem_append.mpr ⟨fun _ => Decimal.isDigit_of_mem_zeros, fun _ => digits_mem⟩
  have hlays := lays_of_parts s [48] _ none
    (List.cons_ne_nil _ _) (List.forall_mem_singleton.mpr rfl) (fun _ => rfl) hfraction ?_
  · rw [fractionText, if_neg (by simp [Decimal.ofNat_ne_nil]), exponentText, List.append_nil]
      at hlays
    exact hlays
  · have hzero : Decimal.valueOf [48] = 0 := rfl
    rw [Decimal.valueOf_append, Decimal.valueOf_append, hzero, Decimal.valueOf_zeros,
      Decimal.valueOf_ofNat, Nat.zero_mul, Nat.zero_mul, Nat.zero_add, Nat.zero_add,
      Scientific.toRat, hk, List.length_append, List.length_replicate, Option.getD_none, zero_sub]
    push_cast
    rfl

theorem lays_before_zeros (hpos : 0 < s.digits) {k : Nat} (hk : s.power = k) :
    Lays s (Decimal.ofNat s.digits ++ List.replicate k 48) := by
  have hwhole : ∀ b ∈ Decimal.ofNat s.digits ++ List.replicate k 48, isDigit b = true :=
    List.forall_mem_append.mpr ⟨fun _ => digits_mem, fun _ => Decimal.isDigit_of_mem_zeros⟩
  have hleading : (Decimal.ofNat s.digits ++ List.replicate k 48).head? ≠ some 48 := by
    obtain ⟨b, t, hb⟩ := List.exists_cons_of_ne_nil (Decimal.ofNat_ne_nil s.digits)
    have hhead := digits_leading hpos
    rw [hb] at hhead ⊢
    exact hhead
  have hlays := lays_of_parts s _ [] none
    (by simp [Decimal.ofNat_ne_nil]) hwhole (fun h => absurd h hleading) nofun ?_
  · rw [fractionText, if_pos rfl, exponentText, List.append_nil, List.append_nil] at hlays
    exact hlays
  · rw [List.append_nil, Decimal.valueOf_append, Decimal.valueOf_zeros, Decimal.valueOf_ofNat,
      List.length_replicate, Nat.add_zero, Scientific.toRat, hk, zpow_natCast]
    simp

theorem lays_around_point (hpos : 0 < s.digits) {k : Nat} (hk : 0 < k)
    (hlt : k < (Decimal.ofNat s.digits).length)
    (hpower : s.power = k - (Decimal.ofNat s.digits).length) :
    Lays s ((Decimal.ofNat s.digits).take k ++ ascii "." ++ (Decimal.ofNat s.digits).drop k) := by
  have hleading : ((Decimal.ofNat s.digits).take k).head? ≠ some 48 := by
    rw [List.head?_take, if_neg (by omega)]
    exact digits_leading hpos
  have hlays := lays_of_parts s ((Decimal.ofNat s.digits).take k)
    ((Decimal.ofNat s.digits).drop k) none
    (by simp [Decimal.ofNat_ne_nil]; omega) (fun b hb => digits_mem (List.mem_of_mem_take hb))
    (fun h => absurd h hleading) (fun b hb => digits_mem (List.mem_of_mem_drop hb)) ?_
  · rw [fractionText, if_neg (by simp; omega), exponentText, List.append_nil] at hlays
    rw [List.append_assoc]
    exact hlays
  · rw [List.take_append_drop, Decimal.valueOf_ofNat, Scientific.toRat, hpower, List.length_drop,
      Option.getD_none]
    congr 2
    omega

def mantissa : Text → Text
  | d :: [] => [d]
  | d :: rest => d :: 46 :: rest
  | [] => []

theorem lays_scientific (hpos : 0 < s.digits) {first : Int}
    (hfirst : first = s.power + (Decimal.ofNat s.digits).length - 1) :
    Lays s (mantissa (Decimal.ofNat s.digits) ++
      (if first < 0 then ascii "e-" else ascii "e+") ++ Decimal.padded 2 first.natAbs) := by
  obtain ⟨d, rest, hd⟩ := List.exists_cons_of_ne_nil (Decimal.ofNat_ne_nil s.digits)
  have hleading := digits_leading hpos
  have hdigits : ∀ b ∈ d :: rest, isDigit b = true := fun b hb => digits_mem (hd ▸ hb)
  rw [hd] at hleading
  have hlays := lays_of_parts s [d] rest (some first)
    (List.cons_ne_nil _ _) (fun b hb => hdigits b (List.mem_singleton.mp hb ▸ List.mem_cons_self))
    (fun _ => rfl) (fun b hb => hdigits b (List.mem_cons_of_mem _ hb)) ?_
  · have hmantissa : [d] ++ fractionText rest = mantissa (d :: rest) := by
      cases rest <;> rfl
    have hexponent : exponentText (some first) =
        (if first < 0 then ascii "e-" else ascii "e+") ++ Decimal.padded 2 first.natAbs := by
      rw [exponentText]
      split <;> rfl
    rw [hmantissa, hexponent] at hlays
    rwa [hd, List.append_assoc]
  · rw [List.singleton_append, ← hd, Decimal.valueOf_ofNat, Scientific.toRat, Option.getD_some]
    have hlength := congrArg List.length hd
    rw [List.length_cons] at hlength
    congr 2
    omega

theorem layOut_eq (digits : Text) (first : Int) : layOut fieldLayout digits first =
    if -4 ≤ first ∧ first < 16 then
      if first < 0 then ascii "0." ++ List.replicate (-first - 1).toNat 48 ++ digits
      else if digits.length ≤ first.toNat + 1 then
        digits ++ List.replicate (first.toNat + 1 - digits.length) 48
      else digits.take (first.toNat + 1) ++ ascii "." ++ digits.drop (first.toNat + 1)
    else mantissa digits ++ (if first < 0 then ascii "e-" else ascii "e+") ++
      Decimal.padded 2 first.natAbs := rfl

theorem lays_layOut (hpos : 0 < s.digits) {first : Int}
    (hfirst : first = s.power + (Decimal.ofNat s.digits).length - 1) :
    Lays s (layOut fieldLayout (Decimal.ofNat s.digits) first) := by
  rw [layOut_eq]
  by_cases hrange : -4 ≤ first ∧ first < 16
  · rw [if_pos hrange]
    split_ifs with hneg hwhole
    · exact lays_behind_zeros s (by omega)
    · exact lays_before_zeros hpos (by omega)
    · exact lays_around_point hpos (by omega) (by omega) (by omega)
  · rw [if_neg hrange]
    exact lays_scientific hpos hfirst

end Layout

theorem text_of_isZero {x : Binary64} (h : x.isZero = true) :
    text x = signText x.isNegative ++ [48] := by
  have hfield : x.exponentField = 0 := by
    rw [Binary64.isZero, Bool.and_eq_true, beq_iff_eq] at h
    exact h.1
  have hfinite : x.isFinite = true := by simp [Binary64.isFinite, hfield]
  have hnumber : x.isNaN = false := by simp [Binary64.isNaN, hfield]
  rw [text]
  simp only [hnumber, hfinite, h, Bool.not_true, Bool.false_eq_true, if_false, if_true]
  rfl

theorem text_of_finite {x : Binary64} (hfinite : x.isFinite = true) (h : x.isZero = false) :
    text x = signText x.isNegative ++ layOut fieldLayout (Decimal.ofNat (shortest x).digits)
      ((shortest x).power + (Decimal.ofNat (shortest x).digits).length - 1) := by
  have hnumber : x.isNaN = false := by
    rw [Binary64.isFinite, bne_iff_ne] at hfinite
    simp [Binary64.isNaN, hfinite]
  rw [text]
  simp only [hnumber, hfinite, h, Bool.not_true, Bool.false_eq_true, if_false]
  rfl

end Shortest

namespace Json

open Shortest

theorem spells_of_numeral {n : Numeral} {x : Binary64} (h : n.Valid) (hfinite : x.isFinite = true)
    (htext : n.text = Shortest.text x) (hdouble : n.mark.toDouble = x) :
    Spells (JsonText.double x) (double x) := by
  refine ⟨n.mark, h.mark, ?_, ?_⟩
  · rw [text_mark h, htext, JsonText.double]
    simp only [hfinite, Bool.not_true, Bool.false_eq_true, if_false]
    rfl
  · rw [toJson_of_marked (marked_mark n), hdouble]

theorem spells_double {x : Binary64} (hfinite : x.isFinite = true) :
    Spells (JsonText.double x) (double x) := by
  cases hzero : x.isZero with
  | true =>
    have hdigit : ∀ b ∈ ([48] : Text), isDigit b = true := List.forall_mem_singleton.mpr rfl
    have hvalid : (Numeral.mk x.isNegative [48] [] none).Valid :=
      ⟨List.cons_ne_nil _ _, hdigit, fun _ => rfl, nofun⟩
    refine spells_of_numeral hvalid hfinite ?_ ?_
    · rw [text_of_isZero hzero, Numeral.text, fractionText, if_pos rfl, exponentText,
        List.append_nil, List.append_nil]
    · refine toDouble_of_isZero hzero (negative_mark _) ?_
      rw [toRat_mark, Numeral.toRat]
      exact mul_eq_zero_of_left (Nat.cast_eq_zero.mpr rfl) _
  | false =>
    have hpos := x.significand_pos hzero
    have hdigits := shortest_digits_pos hpos
    obtain ⟨n, hvalid, hsign, hvalue, htext⟩ := lays_layOut hdigits rfl x.isNegative
    refine spells_of_numeral hvalid hfinite (htext.trans (text_of_finite hfinite hzero).symm) ?_
    refine toDouble_of_surrounds hfinite ((negative_mark n).trans hsign) ?_ ?_
    · rw [toRat_mark, hvalue, Scientific.toRat]
      have : (0 : ℚ) < (shortest x).digits := by exact_mod_cast hdigits
      positivity
    · rw [toRat_mark, hvalue]
      exact surrounds_shortest hpos

end Json

end StructuredLog
