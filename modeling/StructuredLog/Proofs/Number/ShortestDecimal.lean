import Mathlib.Tactic.SplitIfs
import StructuredLog.Number.Shortest
import StructuredLog.Proofs.Number.Rounding

/-!
# The shortest decimal

The search for a decimal always ends with one, and that decimal lies in the interval of reals
that round to the double. Sixteen places behind the first digit the grid is finer than the
interval, so one of the two neighbours of the double is inside.
-/

namespace StructuredLog

namespace Shortest

open Binary64

def Scientific.toRat (s : Scientific) : ℚ := s.digits * 10 ^ s.power

structure Interval.Spans (i : Interval) (x : Binary64) : Prop where
  den_pos : 0 < i.den
  value : (i.value : ℚ) / i.den = x.significand * 2 ^ x.exponent
  low : (i.low : ℚ) / i.den = (x.significand - x.slack) * 2 ^ x.exponent
  high : (i.high : ℚ) / i.den = (x.significand + 1 / 2) * 2 ^ x.exponent
  closed : i.closed = (x.significand % 2 == 0)

theorem low_eq {x : Binary64} (hpos : 0 < x.significand) :
    ((4 * x.significand - if x.significand = hiddenBit ∧ 1 < x.exponentField then 1 else 2 : Nat)
      : ℚ) = 4 * (x.significand - x.slack) := by
  rw [slack]
  split
  all_goals
    rw [Nat.cast_sub (by omega)]
    push_cast
    ring

theorem interval_spans {x : Binary64} (hpos : 0 < x.significand) : (interval x).Spans x := by
  have hlow := low_eq hpos
  by_cases he : 0 ≤ x.exponent
  · have hup : ((Nat.pow 2 x.exponent.toNat : Nat) : ℚ) = 2 ^ x.exponent := by
      rw [Nat.pow_eq, Nat.cast_pow, ← zpow_natCast, Int.toNat_of_nonneg he]
      rfl
    simp only [interval, if_pos he]
    refine ⟨Nat.succ_pos 3, ?_, ?_, ?_, rfl⟩
    · simp only [Nat.cast_mul, hup]
      push_cast
      ring
    · simp only [Nat.cast_mul, hup, hlow]
      push_cast
      ring
    · simp only [Nat.cast_mul, hup]
      push_cast
      ring
  · have hdown : ((Nat.pow 2 (-x.exponent).toNat : Nat) : ℚ) = (2 ^ x.exponent)⁻¹ := by
      rw [Nat.pow_eq, Nat.cast_pow, ← zpow_natCast, Int.toNat_of_nonneg (by omega), zpow_neg]
      rfl
    simp only [interval, if_neg he]
    refine ⟨Nat.mul_pos (by decide) (Nat.pow_pos (by decide)), ?_, ?_, ?_, rfl⟩
    · simp only [Nat.cast_mul, hdown]
      push_cast
      field_simp
    · simp only [Nat.cast_mul, hdown, hlow]
      push_cast
      field_simp
    · simp only [Nat.cast_mul, hdown]
      push_cast
      field_simp
      ring

section Contains

variable {i : Interval} {x : Binary64} {num den : Nat}

theorem surrounds_of_contains (hi : i.Spans x) (hden : 0 < den)
    (h : i.contains num den = true) : x.Surrounds (num / den / 2 ^ x.exponent) := by
  have hd : (0 : ℚ) < den := by exact_mod_cast hden
  have hid : (0 : ℚ) < i.den := by exact_mod_cast hi.den_pos
  have hp : (0 : ℚ) < 2 ^ x.exponent := by positivity
  -- the comparisons of whole numbers are comparisons of quotients
  have hlow_le : i.low * den ≤ num * i.den ↔
      x.significand - x.slack ≤ num / den / 2 ^ x.exponent := by
    rw [le_div_iff₀ hp, ← hi.low, div_le_div_iff₀ hid hd]
    exact_mod_cast Iff.rfl
  have hhigh_le : num * i.den ≤ i.high * den ↔
      (num : ℚ) / den / 2 ^ x.exponent ≤ x.significand + 1 / 2 := by
    rw [div_le_iff₀ hp, ← hi.high, div_le_div_iff₀ hd hid]
    exact_mod_cast Iff.rfl
  rw [Interval.contains, hi.closed] at h
  split at h
  next heven =>
    simp only [Bool.and_eq_true, decide_eq_true_eq] at h
    rw [beq_iff_eq] at heven
    exact ⟨hlow_le.mp h.1, hhigh_le.mp h.2, fun _ => heven, fun _ => heven⟩
  next hodd =>
    simp only [Bool.and_eq_true, decide_eq_true_eq] at h
    have hlow : x.significand - x.slack < num / den / 2 ^ x.exponent := by
      rw [lt_div_iff₀ hp, ← hi.low, div_lt_div_iff₀ hid hd]
      exact_mod_cast h.1
    have hhigh : (num : ℚ) / den / 2 ^ x.exponent < x.significand + 1 / 2 := by
      rw [div_lt_iff₀ hp, ← hi.high, div_lt_div_iff₀ hd hid]
      exact_mod_cast h.2
    exact ⟨hlow.le, hhigh.le, fun heq => absurd heq hlow.ne', fun heq => absurd heq hhigh.ne⟩

theorem contains_of_inside (hi : i.Spans x) (hden : 0 < den)
    (hlow : (x.significand - x.slack) * 2 ^ x.exponent < (num : ℚ) / den)
    (hhigh : (num : ℚ) / den < (x.significand + 1 / 2) * 2 ^ x.exponent) :
    i.contains num den = true := by
  have hd : (0 : ℚ) < den := by exact_mod_cast hden
  have hid : (0 : ℚ) < i.den := by exact_mod_cast hi.den_pos
  rw [← hi.low, div_lt_div_iff₀ hid hd] at hlow
  rw [← hi.high, div_lt_div_iff₀ hd hid] at hhigh
  have hlow' : i.low * den < num * i.den := by exact_mod_cast hlow
  have hhigh' : num * i.den < i.high * den := by exact_mod_cast hhigh
  rw [Interval.contains]
  split
  · simp [hlow'.le, hhigh'.le]
  · simp [hlow', hhigh']

end Contains

theorem numeralLength_pos (n : Nat) : 0 < numeralLength n := Nat.length_toDigits_pos

theorem lt_pow_numeralLength (n : Nat) : n < 10 ^ numeralLength n :=
  (Nat.length_toDigits_le_iff (by decide) (numeralLength_pos n)).mp le_rfl

theorem pow_numeralLength_le {n : Nat} (h : 0 < n) : 10 ^ (numeralLength n - 1) ≤ n := by
  by_contra hlt
  rcases Nat.eq_zero_or_pos (numeralLength n - 1) with hone | hlonger
  · rw [hone] at hlt
    omega
  · have := (Nat.length_toDigits_le_iff (by decide) hlonger).mpr (not_le.mp hlt)
    rw [← numeralLength] at this
    have := numeralLength_pos n
    omega

theorem pow_floorLog10_le {num den : Nat} (hnum : 0 < num) (hden : 0 < den) :
    (10 : ℚ) ^ floorLog10 num den ≤ num / den := by
  have hd : (0 : ℚ) < den := by exact_mod_cast hden
  rw [floorLog10]
  split
  next h =>
    have hlength := numeralLength_pos (num / den)
    have hle := pow_numeralLength_le (Nat.div_pos h hden)
    have hcast : ((numeralLength (num / den) : Int) - 1) =
        ((numeralLength (num / den) - 1 : Nat) : Int) := by omega
    rw [hcast, zpow_natCast, le_div_iff₀ hd]
    calc (10 : ℚ) ^ (numeralLength (num / den) - 1) * den ≤ (num / den : Nat) * den := by
          gcongr
          exact_mod_cast hle
      _ ≤ num := by exact_mod_cast Nat.div_mul_le_self num den
  next h =>
    have hn : (0 : ℚ) < num := by exact_mod_cast hnum
    have hlt := lt_pow_numeralLength ((den - 1) / num)
    rw [Nat.div_lt_iff_lt_mul hnum] at hlt
    generalize numeralLength ((den - 1) / num) = k at hlt
    have hle : den ≤ 10 ^ k * num := by omega
    rw [zpow_neg, zpow_natCast, inv_le_comm₀ (by positivity) (by positivity), inv_div,
      div_le_iff₀ hn]
    exact_mod_cast hle

theorem toRat_stripZeros (fuel : Nat) (s : Scientific) :
    (s.stripZeros fuel).toRat = s.toRat := by
  induction fuel generalizing s with
  | zero => rfl
  | succ fuel ih =>
    rw [Scientific.stripZeros]
    split
    next h =>
      rw [ih, Scientific.toRat, Scientific.toRat, zpow_add_one₀ (by norm_num)]
      have hdiv : s.digits = s.digits / 10 * 10 := by omega
      conv_rhs => rw [hdiv]
      push_cast
      ring
    · rfl

section Grid

variable {i : Interval} {x : Binary64} {power : Int}

theorem ten_pow_eq (power : Int) :
    ((Nat.pow 10 power.toNat : Nat) : ℚ) / (Nat.pow 10 (-power).toNat : Nat) = 10 ^ power := by
  rw [Nat.pow_eq, Nat.pow_eq, Nat.cast_pow, Nat.cast_pow, ← zpow_natCast, ← zpow_natCast,
    Nat.cast_ofNat, ← zpow_sub₀ (by norm_num)]
  congr 1
  omega

def Interval.floor (i : Interval) (power : Int) : Nat :=
  i.value * Nat.pow 10 (-power).toNat / (i.den * Nat.pow 10 power.toNat)

theorem multiple_eq (k : Nat) (power : Int) : ((k * Nat.pow 10 power.toNat : Nat) : ℚ) /
    (Nat.pow 10 (-power).toNat : Nat) = k * 10 ^ power := by
  rw [Nat.cast_mul, mul_div_assoc, ten_pow_eq]

theorem gridPoint_spec {s : Scientific} (h : gridPoint i power = some s) :
    s.power = power ∧ i.floor power ≤ s.digits ∧
      i.contains (s.digits * Nat.pow 10 power.toNat) (Nat.pow 10 (-power).toNat) = true := by
  rw [gridPoint] at h
  rw [Interval.floor]
  generalize i.value * Nat.pow 10 (-power).toNat / (i.den * Nat.pow 10 power.toNat) = k at h ⊢
  simp only [Bool.and_eq_true] at h
  split_ifs at h with hboth hnear htie hfloor hceil
  all_goals obtain rfl := Option.some.inj h
  · exact ⟨rfl, le_rfl, hboth.1⟩
  · rcases Nat.mod_two_eq_zero_or_one k with hk | hk
    · rw [hk]
      exact ⟨rfl, le_rfl, hboth.1⟩
    · rw [hk]
      exact ⟨rfl, k.le_succ, hboth.2⟩
  · exact ⟨rfl, k.le_succ, hboth.2⟩
  · exact ⟨rfl, le_rfl, hfloor⟩
  · exact ⟨rfl, k.le_succ, hceil⟩

theorem surrounds_of_gridPoint (hi : i.Spans x) {s : Scientific}
    (h : gridPoint i power = some s) : x.Surrounds (s.toRat / 2 ^ x.exponent) := by
  have hden : 0 < Nat.pow 10 (-power).toNat := Nat.pow_pos (by decide)
  obtain ⟨rfl, -, hcontains⟩ := gridPoint_spec h
  have hs := surrounds_of_contains hi hden hcontains
  rwa [multiple_eq] at hs

theorem floor_bounds (hi : i.Spans x) (power : Int) :
    (i.floor power : ℚ) * 10 ^ power ≤ x.significand * 2 ^ x.exponent ∧
      x.significand * 2 ^ x.exponent < ((i.floor power + 1 : Nat) : ℚ) * 10 ^ power := by
  have hden : 0 < Nat.pow 10 (-power).toNat := Nat.pow_pos (by decide)
  have hnum : 0 < Nat.pow 10 power.toNat := Nat.pow_pos (by decide)
  have hd : (0 : ℚ) < (Nat.pow 10 (-power).toNat : Nat) := by exact_mod_cast hden
  have hid : (0 : ℚ) < i.den := by exact_mod_cast hi.den_pos
  have hbelow : i.floor power * (i.den * Nat.pow 10 power.toNat) ≤
      i.value * Nat.pow 10 (-power).toNat := Nat.div_mul_le_self _ _
  have habove : i.value * Nat.pow 10 (-power).toNat <
      i.den * Nat.pow 10 power.toNat * (i.floor power + 1) :=
    Nat.lt_mul_div_succ _ (Nat.mul_pos hi.den_pos hnum)
  constructor
  · rw [← multiple_eq, ← hi.value, div_le_div_iff₀ hd hid]
    have : i.floor power * Nat.pow 10 power.toNat * i.den ≤
        i.value * Nat.pow 10 (-power).toNat := by
      calc _ = i.floor power * (i.den * Nat.pow 10 power.toNat) := by ring
        _ ≤ _ := hbelow
    exact_mod_cast this
  · rw [← multiple_eq, ← hi.value, div_lt_div_iff₀ hid hd]
    have : i.value * Nat.pow 10 (-power).toNat <
        (i.floor power + 1) * Nat.pow 10 power.toNat * i.den := by
      calc _ < i.den * Nat.pow 10 power.toNat * (i.floor power + 1) := habove
        _ = _ := by ring
    exact_mod_cast this

theorem contains_multiple (hi : i.Spans x) {k : Nat}
    (hlow : (x.significand - x.slack) * 2 ^ x.exponent < (k : ℚ) * 10 ^ power)
    (hhigh : (k : ℚ) * 10 ^ power < (x.significand + 1 / 2) * 2 ^ x.exponent) :
    i.contains (k * Nat.pow 10 power.toNat) (Nat.pow 10 (-power).toNat) = true := by
  rw [← multiple_eq] at hlow hhigh
  exact contains_of_inside hi (Nat.pow_pos (by decide)) hlow hhigh

theorem gridPoint_isSome_of_contains
    (h : i.contains (i.floor power * Nat.pow 10 power.toNat) (Nat.pow 10 (-power).toNat) = true ∨
      i.contains ((i.floor power + 1) * Nat.pow 10 power.toNat) (Nat.pow 10 (-power).toNat)
        = true) : (gridPoint i power).isSome = true := by
  rw [gridPoint]
  simp only [Bool.and_eq_true]
  split_ifs with hboth hnear htie hfloor hceil
  any_goals rfl
  exact absurd h (not_or.mpr ⟨hfloor, hceil⟩)

theorem gridPoint_isSome (hi : i.Spans x)
    (hfine : (10 : ℚ) ^ power < (x.slack + 1 / 2) * 2 ^ x.exponent) :
    (gridPoint i power).isSome = true := by
  have hp : (0 : ℚ) < 2 ^ x.exponent := by positivity
  have hslack : 0 < x.slack * 2 ^ x.exponent := mul_pos (slack_pos x) hp
  obtain ⟨hbelow, habove⟩ := floor_bounds hi power
  refine gridPoint_isSome_of_contains ?_
  rcases lt_or_ge ((x.significand - x.slack) * 2 ^ x.exponent) (i.floor power * (10 : ℚ) ^ power)
    with h | h
  · exact .inl (contains_multiple hi h (by linarith))
  · refine .inr (contains_multiple hi (by linarith) ?_)
    push_cast
    linarith

end Grid

section Shortest

variable {x : Binary64}

theorem interval_value_pos (hpos : 0 < x.significand) : 0 < (interval x).value := by
  have hi := interval_spans hpos
  have hid : (0 : ℚ) < (interval x).den := by exact_mod_cast hi.den_pos
  have hquotient : (0 : ℚ) < (interval x).value / (interval x).den := by
    rw [hi.value]
    positivity
  exact_mod_cast (div_pos_iff_of_pos_right hid).mp hquotient

theorem seventeenth_place_lt (hpos : 0 < x.significand) :
    (10 : ℚ) ^ (floorLog10 (interval x).value (interval x).den - 16) <
      (x.slack + 1 / 2) * 2 ^ x.exponent := by
  have hi := interval_spans hpos
  have hp : (0 : ℚ) < 2 ^ x.exponent := by positivity
  have hlog := pow_floorLog10_le (interval_value_pos hpos) hi.den_pos
  rw [hi.value] at hlog
  rw [zpow_sub₀ (by norm_num)]
  have hwide : (x.significand : ℚ) < 10 ^ (16 : Int) * (x.slack + 1 / 2) := by
    rw [slack]
    split
    next h =>
      rw [h.1]
      norm_num [hiddenBit]
    next h =>
      have hlt : (x.significand : ℚ) < 2 * hiddenBit := by exact_mod_cast significand_lt x
      rw [hiddenBit] at hlt
      norm_num at hlt ⊢
      linarith
  rw [div_lt_iff₀ (by norm_num)]
  calc (10 : ℚ) ^ floorLog10 (interval x).value (interval x).den
      ≤ x.significand * 2 ^ x.exponent := hlog
    _ < 10 ^ (16 : Int) * (x.slack + 1 / 2) * 2 ^ x.exponent := by gcongr
    _ = (x.slack + 1 / 2) * 2 ^ x.exponent * 10 ^ (16 : Int) := by ring

theorem shortest_spec (hpos : 0 < x.significand) :
    ∃ (n : Nat) (g : Scientific),
      gridPoint (interval x) (floorLog10 (interval x).value (interval x).den - n) = some g ∧
      shortest x = g.stripZeros 20 ∧ ∀ m : Nat, m < n →
        gridPoint (interval x) (floorLog10 (interval x).value (interval x).den - m) = none := by
  have hsome : ((List.range 17).findSome? fun n : Nat => gridPoint (interval x)
      (floorLog10 (interval x).value (interval x).den - n)).isSome = true := by
    rw [List.isSome_findSome?, List.any_eq_true]
    exact ⟨16, by decide, gridPoint_isSome (interval_spans hpos) (seventeenth_place_lt hpos)⟩
  obtain ⟨g, hg⟩ := Option.isSome_iff_exists.mp hsome
  obtain ⟨before, n, after, hrange, hn, hnone⟩ := List.findSome?_eq_some_iff.mp hg
  refine ⟨n, g, hn, ?_, fun m hm => hnone m ?_⟩
  · rw [shortest]
    simp only [hg]
  · -- what is tried after `n` is larger than `n`
    have hsorted := List.pairwise_lt_range (n := 17)
    have hlt : n ∈ List.range 17 := hrange ▸ List.mem_append_right _ List.mem_cons_self
    have hmem : m ∈ List.range 17 := List.mem_range.mpr (hm.trans (List.mem_range.mp hlt))
    rw [hrange] at hsorted hmem
    have hafter := (List.pairwise_cons.mp (List.pairwise_append.mp hsorted).2.1).1 m
    rw [List.mem_append, List.mem_cons] at hmem
    rcases hmem with hmem | rfl | hmem
    · exact hmem
    · exact absurd hm (lt_irrefl _)
    · exact absurd hm (hafter hmem).asymm

/-- The shortest decimal lies in the interval of reals that round to the double. -/
theorem surrounds_shortest (hpos : 0 < x.significand) :
    x.Surrounds ((shortest x).toRat / 2 ^ x.exponent) := by
  obtain ⟨n, g, hg, hshortest, -⟩ := shortest_spec hpos
  rw [hshortest, toRat_stripZeros]
  exact surrounds_of_gridPoint (interval_spans hpos) hg

theorem shortest_digits_pos (hpos : 0 < x.significand) : 0 < (shortest x).digits := by
  have hlow := (surrounds_shortest hpos).low
  have hslack := slack_le x
  have hone : (1 : ℚ) ≤ x.significand := by exact_mod_cast hpos
  rw [Nat.pos_iff_ne_zero]
  intro hzero
  rw [Scientific.toRat, hzero, Nat.cast_zero, zero_mul, zero_div] at hlow
  linarith

end Shortest

end Shortest

end StructuredLog
