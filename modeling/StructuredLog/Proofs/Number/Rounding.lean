import Mathlib.Algebra.Order.Field.Power
import Mathlib.Algebra.Order.Ring.Rat
import Mathlib.Data.Nat.Cast.Order.Field
import Mathlib.Tactic.FieldSimp
import Mathlib.Tactic.Linarith
import Mathlib.Tactic.NormNum
import Mathlib.Tactic.Positivity
import Mathlib.Tactic.Ring
import StructuredLog.Number.Binary64

/-!
# Rounding to the nearest double

Every quotient in the interval around a finite double rounds to that double. The quotient is
first placed between two powers of two, which fixes the exponent; then it is scaled and rounded
to a whole significand. One case is out of line: just below a power of two the significand is
taken with the next smaller exponent, and rounding carries it back.
-/

namespace StructuredLog

namespace Binary64

theorem scaled_pos (num : Nat) {den : Nat} (h : 0 < den) (e : Int) : 0 < (scaled num den e).2 := by
  rw [scaled]
  split
  · exact Nat.mul_pos h (Nat.pow_pos (by decide))
  · exact h

theorem scaled_ratio (num den : Nat) (e : Int) :
    ((scaled num den e).1 : ℚ) / (scaled num den e).2 = num / den / 2 ^ e := by
  rw [scaled]
  split
  next h =>
    obtain ⟨k, rfl⟩ := Int.eq_ofNat_of_zero_le h
    rw [Nat.pow_eq, Nat.cast_mul, Nat.cast_pow, Nat.cast_ofNat, Int.toNat_natCast, zpow_natCast,
      div_div]
  next h =>
    obtain ⟨k, hk⟩ := Int.eq_ofNat_of_zero_le (a := -e) (by omega)
    obtain rfl : e = -(k : Int) := by omega
    rw [Nat.pow_eq, Nat.cast_mul, Nat.cast_pow, Nat.cast_ofNat, neg_neg, Int.toNat_natCast,
      zpow_neg, zpow_natCast, div_inv_eq_mul, div_mul_eq_mul_div]

section FloorLog

variable {num den : Nat} {k : Int}

theorem log2_bounds {n : Nat} (h : 0 < n) :
    (2 : ℚ) ^ (Nat.log2 n : Int) ≤ n ∧ (n : ℚ) < 2 ^ (Nat.log2 n + 1 : Int) := by
  have hne : n ≠ 0 := Nat.ne_of_gt h
  constructor
  · exact_mod_cast Nat.log2_self_le hne
  · exact_mod_cast Nat.lt_log2_self

theorem floorLog2_bounds (hnum : 0 < num) (hden : 0 < den) :
    (2 : ℚ) ^ floorLog2 num den ≤ num / den ∧
      (num : ℚ) / den < 2 ^ (floorLog2 num den + 1) := by
  obtain ⟨hnum1, hnum2⟩ := log2_bounds hnum
  obtain ⟨hden1, hden2⟩ := log2_bounds hden
  have hd : (0 : ℚ) < den := by exact_mod_cast hden
  rw [floorLog2]
  generalize he : (Nat.log2 num : Int) - Nat.log2 den = e
  have hs : (0 : ℚ) < (scaled num den e).2 := by exact_mod_cast scaled_pos num hden e
  have hpow : (0 : ℚ) < 2 ^ e := by positivity
  -- the quotient is at least one exactly if the power of two is not too large
  have hiff : (scaled num den e).2 ≤ (scaled num den e).1 ↔ (2 : ℚ) ^ e ≤ num / den := by
    rw [← one_le_div hpow, ← scaled_ratio, one_le_div hs, Nat.cast_le]
  simp only
  split
  next h =>
    refine ⟨hiff.mp h, ?_⟩
    rw [div_lt_iff₀ hd]
    calc (num : ℚ) < 2 ^ (Nat.log2 num + 1 : Int) := hnum2
      _ = 2 ^ (e + 1) * 2 ^ (Nat.log2 den : Int) := by
        rw [← zpow_add₀ (by norm_num)]
        congr 1
        omega
      _ ≤ 2 ^ (e + 1) * den := by gcongr
  next h =>
    refine ⟨?_, ?_⟩
    · rw [le_div_iff₀ hd]
      calc (2 : ℚ) ^ (e - 1) * den ≤ 2 ^ (e - 1) * 2 ^ (Nat.log2 den + 1 : Int) := by gcongr
        _ = 2 ^ (Nat.log2 num : Int) := by
          rw [← zpow_add₀ (by norm_num)]
          congr 1
          omega
        _ ≤ num := hnum1
    · rw [sub_add_cancel]
      exact not_le.mp fun hle => h (hiff.mpr hle)

theorem le_floorLog2 (hnum : 0 < num) (hden : 0 < den) (h : (2 : ℚ) ^ k ≤ num / den) :
    k ≤ floorLog2 num den := by
  have hlt := h.trans_lt (floorLog2_bounds hnum hden).2
  rw [zpow_lt_zpow_iff_right₀ (by norm_num)] at hlt
  omega

theorem floorLog2_lt (hnum : 0 < num) (hden : 0 < den) (h : (num : ℚ) / den < 2 ^ k) :
    floorLog2 num den < k := by
  have hlt := (floorLog2_bounds hnum hden).1.trans_lt h
  rwa [zpow_lt_zpow_iff_right₀ (by norm_num)] at hlt

end FloorLog

theorem roundQuotient_eq {n d m : Nat} (hd : 0 < d) (hlow : 2 * m * d ≤ 2 * n + d)
    (hhigh : 2 * n ≤ 2 * m * d + d)
    (heven : 2 * m * d = 2 * n + d ∨ 2 * n = 2 * m * d + d → m % 2 = 0) :
    roundQuotient n d = m := by
  have hdiv := Nat.div_add_mod n d
  have hmod := Nat.mod_lt n hd
  rw [roundQuotient]
  generalize n / d = q at hdiv
  generalize n % d = r at hdiv hmod
  -- the quotient is the significand or one below it
  have hq : q = m ∨ q + 1 = m := by
    have h1 : q ≤ m := by
      refine Nat.le_of_lt_succ (Nat.lt_of_mul_lt_mul_left (a := 2 * d) ?_)
      rw [Nat.mul_succ]
      nlinarith
    have h2 : m ≤ q + 1 := by
      refine Nat.le_of_lt_succ (Nat.lt_of_mul_lt_mul_left (a := 2 * d) ?_)
      nlinarith
    omega
  rcases hq with rfl | rfl
  · have hr : 2 * r ≤ d := by nlinarith
    split
    · rfl
    · have hr' : 2 * r = d := by omega
      have := heven (.inr (by rw [← hdiv, ← hr']; ring))
      rw [if_pos hr']
      omega
  · have hr : d ≤ 2 * r := by nlinarith
    rw [if_neg (by omega)]
    split
    next hr' =>
      have := heven (.inl (by rw [← hdiv, ← hr']; ring))
      omega
    · rfl

section Fields

variable (x : Binary64)

theorem fractionField_lt : x.fractionField < hiddenBit := Nat.mod_lt _ (by decide)

theorem exponentField_lt (h : x.isFinite = true) : x.exponentField < 2047 := by
  have hlt : x.exponentField < 2048 := Nat.mod_lt _ (by decide)
  simp only [isFinite, bne_iff_ne, ne_eq] at h
  omega

theorem isNegative_iff : x.isNegative = true ↔ signBit ≤ x.bits.toNat := by
  have hlt := x.bits.toNat_lt
  have hshift : (x.bits >>> 63).toNat = x.bits.toNat / signBit := by
    rw [UInt64.toNat_shiftRight, Nat.shiftRight_eq_div_pow]
    rfl
  rw [isNegative, beq_iff_eq, ← UInt64.toNat_inj, hshift, signBit, UInt64.toNat_one]
  omega

theorem bits_eq : x.bits.toNat = (if x.isNegative then signBit else 0)
    + (x.exponentField * hiddenBit + x.fractionField) := by
  have hlt := x.bits.toNat_lt
  have hsign := isNegative_iff x
  rw [exponentField, fractionField]
  simp only [hiddenBit, signBit] at *
  split <;> simp_all <;> omega

theorem assemble_fields (h : x.isFinite = true) :
    assemble x.isNegative x.significand x.exponent = x := by
  have hfield := exponentField_lt x h
  have hfraction := fractionField_lt x
  have hmagnitude : (if x.significand < hiddenBit then x.significand
      else if 972 ≤ x.exponent then 2047 * hiddenBit
      else (x.exponent + 1075).toNat * hiddenBit + (x.significand - hiddenBit)) =
      x.exponentField * hiddenBit + x.fractionField := by
    rw [significand, exponent]
    split
    next hzero => rw [hzero, Nat.zero_mul, Nat.zero_add]
    next hzero =>
      rw [if_neg (by omega), if_neg (by omega), Nat.add_sub_cancel_left]
      congr 2
      omega
  rw [assemble, hmagnitude, ← bits_eq, UInt64.ofNat_toNat]

theorem exponent_ge : -1074 ≤ x.exponent := by
  rw [exponent]
  split <;> omega

theorem significand_lt : x.significand < 2 * hiddenBit := by
  have := fractionField_lt x
  rw [significand]
  split <;> omega

theorem exponent_of_significand_lt (h : x.significand < hiddenBit) : x.exponent = -1074 := by
  rw [significand] at h
  rw [exponent]
  split at h
  · rw [if_pos ‹_›]
  · omega

theorem significand_eq_zero_iff : x.significand = 0 ↔ x.isZero = true := by
  rw [significand, isZero, Bool.and_eq_true, beq_iff_eq, beq_iff_eq]
  split
  · simp_all
  · simp_all [hiddenBit]

theorem significand_pos (h : x.isZero = false) : 0 < x.significand := by
  rw [Nat.pos_iff_ne_zero, ne_eq, significand_eq_zero_iff, h]
  exact Bool.false_ne_true

end Fields

theorem ofRatio_of_isZero {x : Binary64} (h : x.isZero = true) (den : Nat) :
    ofRatio x.isNegative 0 den = x := by
  have hsignificand := (significand_eq_zero_iff x).mpr h
  have hfinite : x.isFinite = true := by
    simp only [isZero, Bool.and_eq_true, beq_iff_eq] at h
    simp [isFinite, h.1]
  have hexponent := exponent_of_significand_lt x (by rw [hsignificand]; decide)
  rw [ofRatio, if_pos (.inl rfl), ← hexponent, ← hsignificand, assemble_fields x hfinite]

/-- The distance to the lower end of the interval around a double, in units of its last place:
half a unit, and a quarter below a power of two, where the unit halves. -/
def slack (x : Binary64) : ℚ :=
  if x.significand = hiddenBit ∧ 1 < x.exponentField then 1 / 4 else 1 / 2

/-- `q` units of the last place lie in the interval of reals that round to `x`. -/
structure Surrounds (x : Binary64) (q : ℚ) : Prop where
  low : x.significand - x.slack ≤ q
  high : q ≤ x.significand + 1 / 2
  even_of_low : q = x.significand - x.slack → x.significand % 2 = 0
  even_of_high : q = x.significand + 1 / 2 → x.significand % 2 = 0

theorem slack_pos (x : Binary64) : 0 < x.slack := by
  rw [slack]
  split <;> norm_num

theorem slack_le (x : Binary64) : x.slack ≤ 1 / 2 := by
  rw [slack]
  split <;> norm_num

section Quotient

variable {num den : Nat}

theorem roundQuotient_scaled (hden : 0 < den) {e : Int} {m : Nat}
    (hlow : (m : ℚ) - 1 / 2 ≤ num / den / 2 ^ e) (hhigh : (num : ℚ) / den / 2 ^ e ≤ m + 1 / 2)
    (heven : (num : ℚ) / den / 2 ^ e = m - 1 / 2 ∨ (num : ℚ) / den / 2 ^ e = m + 1 / 2 →
      m % 2 = 0) : roundQuotient (scaled num den e).1 (scaled num den e).2 = m := by
  have hd := scaled_pos num hden e
  rw [← scaled_ratio] at hlow hhigh heven
  generalize (scaled num den e).1 = n at *
  generalize (scaled num den e).2 = d at *
  have hd' : (0 : ℚ) < d := by exact_mod_cast hd
  rw [le_div_iff₀ hd'] at hlow
  rw [div_le_iff₀ hd'] at hhigh
  rw [div_eq_iff hd'.ne', div_eq_iff hd'.ne'] at heven
  refine roundQuotient_eq hd ?_ ?_ fun h => heven ?_
  · have : (2 * m * d : ℚ) ≤ 2 * n + d := by linarith
    exact_mod_cast this
  · have : (2 * n : ℚ) ≤ 2 * m * d + d := by linarith
    exact_mod_cast this
  · rcases h with h | h
    · have h' : (2 * m * d : ℚ) = 2 * n + d := by exact_mod_cast h
      exact .inl (by linarith)
    · have h' : (2 * n : ℚ) = 2 * m * d + d := by exact_mod_cast h
      exact .inr (by linarith)

theorem ofRatio_eq (hnum : 0 < num) (hden : 0 < den) (negative : Bool) {e : Int} {m : Nat}
    (he : max (floorLog2 num den - 52) (-1074) = e)
    (hm : roundQuotient (scaled num den e).1 (scaled num den e).2 = m) :
    ofRatio negative num den =
      if m = 2 * hiddenBit then assemble negative hiddenBit (e + 1) else assemble negative m e := by
  rw [ofRatio, if_neg (by omega)]
  simp only
  rw [he, hm]

theorem ofRatio_of_exponent {x : Binary64} (hfinite : x.isFinite = true) (hnum : 0 < num)
    (hden : 0 < den) (h : x.Surrounds (num / den / 2 ^ x.exponent))
    (he : max (floorLog2 num den - 52) (-1074) = x.exponent) :
    ofRatio x.isNegative num den = x := by
  have hslack := slack_le x
  have hlow := h.low
  have hm : roundQuotient (scaled num den x.exponent).1 (scaled num den x.exponent).2 =
      x.significand := by
    refine roundQuotient_scaled hden (by linarith) h.high fun heq => ?_
    rcases heq with heq | heq
    · exact h.even_of_low (by linarith)
    · exact h.even_of_high heq
  rw [ofRatio_eq hnum hden _ he hm, if_neg (significand_lt x).ne, assemble_fields x hfinite]

/-- Just below a power of two: the quotient is rounded with the next smaller exponent. -/
theorem ofRatio_of_carry {x : Binary64} (hfinite : x.isFinite = true) (hnum : 0 < num)
    (hden : 0 < den) (h : x.Surrounds (num / den / 2 ^ x.exponent))
    (hsignificand : x.significand = hiddenBit) (hslack : x.slack = 1 / 4)
    (hbelow : (num : ℚ) / den / 2 ^ x.exponent < hiddenBit)
    (he : max (floorLog2 num den - 52) (-1074) = x.exponent - 1) :
    ofRatio x.isNegative num den = x := by
  have hlow := h.low
  rw [hsignificand, hslack] at hlow
  have hdouble : (num : ℚ) / den / 2 ^ (x.exponent - 1) = 2 * (num / den / 2 ^ x.exponent) := by
    rw [zpow_sub_one₀ (by norm_num)]
    field_simp
  have hm : roundQuotient (scaled num den (x.exponent - 1)).1 (scaled num den (x.exponent - 1)).2 =
      2 * hiddenBit := by
    refine roundQuotient_scaled hden ?_ ?_ fun _ => Nat.mul_mod_right 2 _
    · rw [hdouble]
      push_cast
      linarith
    · rw [hdouble]
      push_cast
      linarith
  rw [ofRatio_eq hnum hden _ he hm, if_pos rfl, sub_add_cancel, ← hsignificand,
    assemble_fields x hfinite]

theorem floorLog2_lt_add (hnum : 0 < num) (hden : 0 < den) {e k : Int}
    (h : (num : ℚ) / den / 2 ^ e < 2 ^ k) : floorLog2 num den < e + k := by
  refine floorLog2_lt hnum hden ?_
  rwa [add_comm, zpow_add₀ (by norm_num), ← div_lt_iff₀ (by positivity)]

theorem add_le_floorLog2 (hnum : 0 < num) (hden : 0 < den) {e k : Int}
    (h : (2 : ℚ) ^ k ≤ num / den / 2 ^ e) : e + k ≤ floorLog2 num den := by
  refine le_floorLog2 hnum hden ?_
  rwa [add_comm, zpow_add₀ (by norm_num), ← le_div_iff₀ (by positivity)]

theorem ofRatio_of_surrounds {x : Binary64} (hfinite : x.isFinite = true)
    (hnum : 0 < num) (hden : 0 < den)
    (h : x.Surrounds (num / den / 2 ^ x.exponent)) : ofRatio x.isNegative num den = x := by
  have hge := exponent_ge x
  have hlow := h.low
  have hhigh := h.high
  have hbit : (hiddenBit : ℚ) = 2 ^ (52 : Int) := by norm_num [hiddenBit]
  have hupper : floorLog2 num den < x.exponent + 53 := by
    refine floorLog2_lt_add hnum hden ?_
    have hlt : (x.significand : ℚ) + 1 ≤ 2 * hiddenBit := by exact_mod_cast significand_lt x
    calc (num : ℚ) / den / 2 ^ x.exponent < 2 * hiddenBit := by linarith
      _ = 2 ^ (53 : Int) := by norm_num [hiddenBit]
  rcases Nat.lt_or_ge x.significand hiddenBit with hlt | hle
  · -- a subnormal number: the exponent is already the least
    have he := exponent_of_significand_lt x hlt
    refine ofRatio_of_exponent hfinite hnum hden h ?_
    have hsmall : floorLog2 num den < x.exponent + 52 := by
      refine floorLog2_lt_add hnum hden ?_
      have hlt' : (x.significand : ℚ) + 1 ≤ hiddenBit := by exact_mod_cast hlt
      linarith
    omega
  rcases le_or_gt (hiddenBit : ℚ) (num / den / 2 ^ x.exponent) with hreach | hbelow
  · refine ofRatio_of_exponent hfinite hnum hden h ?_
    have hexact := add_le_floorLog2 hnum hden (hbit ▸ hreach)
    omega
  have hslack := slack_le x
  have heq : x.significand = hiddenBit := by
    refine le_antisymm (Nat.lt_succ_iff.mp ?_) hle
    have hlt : (x.significand : ℚ) < hiddenBit + 1 := by linarith
    exact_mod_cast hlt
  by_cases hfield : 1 < x.exponentField
  · have hquarter : x.slack = 1 / 4 := if_pos ⟨heq, hfield⟩
    refine ofRatio_of_carry hfinite hnum hden h heq hquarter hbelow ?_
    have hsmall := floorLog2_lt_add hnum hden (hbit ▸ hbelow)
    have hexact : x.exponent + 51 ≤ floorLog2 num den := by
      refine add_le_floorLog2 hnum hden ?_
      calc (2 : ℚ) ^ (51 : Int) ≤ hiddenBit - 1 / 4 := by norm_num [hiddenBit]
        _ ≤ num / den / 2 ^ x.exponent := by rwa [heq, hquarter] at hlow
    have hnormal : -1073 ≤ x.exponent := by
      rw [exponent, if_neg (by omega)]
      omega
    omega
  · have hleast : x.exponent = -1074 := by
      rw [exponent]
      split <;> omega
    exact ofRatio_of_exponent hfinite hnum hden h (by omega)

end Quotient

end Binary64

end StructuredLog
