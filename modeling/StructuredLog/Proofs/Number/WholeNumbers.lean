import StructuredLog.Proofs.Number.ShortestDecimal

/-!
# Whole numbers and their shortest decimals

The shortest decimal of a double has no fraction exactly if the double is a whole number: on the
grid of ones a whole number is a grid point itself, and a whole number among the reals that round
to a double with a fraction would be nearer than half a unit of its last place. The two also lie
on the same side of `10 ^ 16`, which is itself a double.
-/

namespace StructuredLog

namespace Binary64

variable {x : Binary64}

def magnitude (x : Binary64) : ℚ := x.significand * 2 ^ x.exponent

def IsWhole (x : Binary64) : Prop := x.isFinite = true ∧ ∃ n : ℕ, x.magnitude = n

theorem exponent_le_of_magnitude_lt (h : x.magnitude < 10 ^ 16) : x.exponent ≤ 16 := by
  by_contra hlarge
  have hnormal : hiddenBit ≤ x.significand := by
    by_contra hlt
    have := exponent_of_significand_lt x (not_le.mp hlt)
    omega
  have hbit : (hiddenBit : ℚ) ≤ x.significand := by exact_mod_cast hnormal
  have hpow : (2 : ℚ) ^ (17 : Int) ≤ 2 ^ x.exponent :=
    zpow_le_zpow_right₀ (by norm_num) (by omega)
  have hge : (hiddenBit : ℚ) * 2 ^ (17 : Int) ≤ x.magnitude :=
    mul_le_mul hbit hpow (by positivity) (by positivity)
  have hbig : (10 : ℚ) ^ 16 < hiddenBit * 2 ^ (17 : Int) := by norm_num [hiddenBit]
  linarith

/-- Below `10 ^ 16` the limit is a whole number of units of the last place, so half a unit does
not reach it. -/
theorem Surrounds.lt_of_magnitude_lt {q : ℚ} (h : x.Surrounds q) (hlt : x.magnitude < 10 ^ 16) :
    q * 2 ^ x.exponent < 10 ^ 16 := by
  have hp : (0 : ℚ) < 2 ^ x.exponent := by positivity
  have hexponent := exponent_le_of_magnitude_lt hlt
  obtain ⟨units, hunits⟩ : ∃ units : ℕ, (units : ℚ) * 2 ^ x.exponent = 10 ^ 16 := by
    refine ⟨5 ^ 16 * 2 ^ (16 - x.exponent).toNat, ?_⟩
    rw [Nat.cast_mul, mul_assoc, Nat.cast_pow, Nat.cast_pow, ← zpow_natCast (_ : ℚ) (Int.toNat _),
      Int.toNat_of_nonneg (by omega), Nat.cast_ofNat, Nat.cast_ofNat, ← zpow_add₀ (by norm_num),
      sub_add_cancel]
    norm_num
  rw [magnitude, ← hunits, mul_lt_mul_iff_left₀ hp] at hlt
  have hle : (x.significand : ℚ) + 1 ≤ units := by exact_mod_cast hlt
  have hhigh := h.high
  rw [← hunits, mul_lt_mul_iff_left₀ hp]
  linarith

theorem Surrounds.whole {k : ℕ} (h : x.Surrounds (k / 2 ^ x.exponent)) :
    ∃ n : ℕ, x.magnitude = n := by
  have hp : (0 : ℚ) < 2 ^ x.exponent := by positivity
  rcases le_or_gt 0 x.exponent with hexponent | hexponent
  · refine ⟨x.significand * 2 ^ x.exponent.toNat, ?_⟩
    rw [magnitude, Nat.cast_mul, Nat.cast_pow, ← zpow_natCast, Int.toNat_of_nonneg hexponent,
      Nat.cast_ofNat]
  · -- counted in units of the last place the whole number is one too
    obtain ⟨units, hunits⟩ : ∃ units : ℕ, (k : ℚ) / 2 ^ x.exponent = units := by
      refine ⟨k * 2 ^ (-x.exponent).toNat, ?_⟩
      rw [Nat.cast_mul, Nat.cast_pow, ← zpow_natCast, Int.toNat_of_nonneg (by omega),
        Nat.cast_ofNat, zpow_neg, div_eq_mul_inv]
    have hslack := slack_le x
    have hlow := h.low
    have hhigh := h.high
    rw [hunits] at hlow hhigh
    have hle : units < x.significand + 1 := by
      have : (units : ℚ) < x.significand + 1 := by linarith
      exact_mod_cast this
    have hge : x.significand < units + 1 := by
      have : (x.significand : ℚ) < units + 1 := by linarith
      exact_mod_cast this
    have heq : x.significand = units := by omega
    exact ⟨k, by rw [magnitude, heq, ← hunits, div_mul_cancel₀ _ hp.ne']⟩

end Binary64

namespace Shortest

open Binary64

theorem le_floorLog10 {num den k : ℕ} (hden : 0 < den) (h : (10 : ℚ) ^ k ≤ num / den) :
    (k : Int) ≤ floorLog10 num den := by
  have hd : (0 : ℚ) < den := by exact_mod_cast hden
  have hle : 10 ^ k * den ≤ num := by
    rw [le_div_iff₀ hd] at h
    exact_mod_cast h
  have hone : den ≤ num := (Nat.le_mul_of_pos_left den (Nat.pow_pos (by decide))).trans hle
  have hdiv : 10 ^ k ≤ num / den := (Nat.le_div_iff_mul_le hden).mpr hle
  have hlength : k < numeralLength (num / den) :=
    (Nat.pow_lt_pow_iff_right (by decide)).mp (hdiv.trans_lt (lt_pow_numeralLength _))
  rw [floorLog10, if_pos hone]
  omega

namespace Scientific

theorem power_le_stripZeros (fuel : Nat) (s : Scientific) :
    s.power ≤ (s.stripZeros fuel).power := by
  induction fuel generalizing s with
  | zero => exact le_rfl
  | succ fuel ih =>
    rw [stripZeros]
    split
    · exact (Int.le_add_one le_rfl).trans (ih _)
    · exact le_rfl

theorem toRat_lt_iff {s : Scientific} (hpos : 0 < s.digits) (k : Int) :
    s.toRat < 10 ^ k ↔ s.power + numeralLength s.digits ≤ k := by
  have hlength := numeralLength_pos s.digits
  have hp : (0 : ℚ) < 10 ^ s.power := by positivity
  have hbelow : (s.digits : ℚ) < 10 ^ (numeralLength s.digits : Int) := by
    exact_mod_cast lt_pow_numeralLength s.digits
  have habove : (10 : ℚ) ^ ((numeralLength s.digits : Int) - 1) ≤ s.digits := by
    have hcast : ((numeralLength s.digits : Int) - 1) = (numeralLength s.digits - 1 : ℕ) := by omega
    rw [hcast]
    exact_mod_cast pow_numeralLength_le hpos
  rw [toRat]
  constructor
  · intro h
    have hlt : (10 : ℚ) ^ (s.power + numeralLength s.digits - 1) < 10 ^ k := by
      calc (10 : ℚ) ^ (s.power + numeralLength s.digits - 1)
          = 10 ^ ((numeralLength s.digits : Int) - 1) * 10 ^ s.power := by
            rw [← zpow_add₀ (by norm_num)]
            congr 1
            omega
        _ ≤ s.digits * 10 ^ s.power := by gcongr
        _ < 10 ^ k := h
    rw [zpow_lt_zpow_iff_right₀ (by norm_num)] at hlt
    omega
  · intro h
    calc (s.digits : ℚ) * 10 ^ s.power
        < 10 ^ (numeralLength s.digits : Int) * 10 ^ s.power := by gcongr
      _ = 10 ^ (s.power + numeralLength s.digits) := by
        rw [← zpow_add₀ (by norm_num), add_comm]
      _ ≤ 10 ^ k := zpow_le_zpow_right₀ (by norm_num) h

end Scientific

section Shortest

variable {x : Binary64}

theorem gridPoint_ones {n : ℕ} (hpos : 0 < x.significand) (h : x.magnitude = n) :
    (gridPoint (interval x) 0).isSome = true := by
  have hi := interval_spans hpos
  have hp : (0 : ℚ) < 2 ^ x.exponent := by positivity
  have hslack : 0 < x.slack * 2 ^ x.exponent := mul_pos (slack_pos x) hp
  obtain ⟨hbelow, habove⟩ := floor_bounds hi 0
  rw [← magnitude, h, zpow_zero, mul_one, Nat.cast_le] at hbelow
  rw [← magnitude, h, zpow_zero, mul_one, Nat.cast_lt] at habove
  have hfloor : (interval x).floor 0 = n := by omega
  refine gridPoint_isSome_of_contains (.inl (contains_multiple hi ?_ ?_))
  all_goals
    rw [hfloor, zpow_zero, mul_one, ← h, magnitude]
    linarith

theorem pow_floorLog10_le_shortest (hpos : 0 < x.significand) :
    (10 : ℚ) ^ floorLog10 (interval x).value (interval x).den ≤ (shortest x).toRat := by
  have hi := interval_spans hpos
  obtain ⟨n, g, hg, hshortest, -⟩ := shortest_spec hpos
  obtain ⟨hpower, hdigits, -⟩ := gridPoint_spec hg
  have hlog := pow_floorLog10_le (interval_value_pos hpos) hi.den_pos
  have habove := (floor_bounds hi (floorLog10 (interval x).value (interval x).den - n)).2
  generalize floorLog10 (interval x).value (interval x).den = e at *
  have hsplit : (10 : ℚ) ^ e = 10 ^ n * 10 ^ (e - n) := by
    rw [← zpow_natCast, ← zpow_add₀ (by norm_num), add_sub_cancel]
  have hp : (0 : ℚ) < 10 ^ (e - n) := by positivity
  rw [hi.value] at hlog
  have hlt : 10 ^ n < (interval x).floor (e - n) + 1 := by
    have := hlog.trans_lt habove
    rw [hsplit, mul_lt_mul_iff_left₀ hp] at this
    exact_mod_cast this
  have hle : (10 : ℚ) ^ n ≤ g.digits := by
    have : 10 ^ n ≤ g.digits := by omega
    exact_mod_cast this
  rw [hshortest, toRat_stripZeros, Scientific.toRat, hpower, hsplit]
  gcongr

theorem shortest_power_nonneg_iff (hpos : 0 < x.significand) :
    0 ≤ (shortest x).power ↔ ∃ n : ℕ, x.magnitude = n := by
  have hi := interval_spans hpos
  constructor
  · intro h
    have hwhole : (shortest x).toRat =
        ((shortest x).digits * 10 ^ (shortest x).power.toNat : ℕ) := by
      rw [Scientific.toRat, Nat.cast_mul, Nat.cast_pow, ← zpow_natCast, Int.toNat_of_nonneg h,
        Nat.cast_ofNat]
    have hsurrounds := surrounds_shortest hpos
    rw [hwhole] at hsurrounds
    exact hsurrounds.whole
  · rintro ⟨n, hn⟩
    have hone : (1 : ℚ) ≤ x.magnitude := by
      have hpositive : (0 : ℚ) < x.magnitude := mul_pos (by exact_mod_cast hpos) (by positivity)
      rw [hn] at hpositive ⊢
      exact_mod_cast hpositive
    have hlog : ((0 : ℕ) : Int) ≤ floorLog10 (interval x).value (interval x).den :=
      le_floorLog10 hi.den_pos (by rwa [hi.value, pow_zero, ← magnitude])
    obtain ⟨place, g, hg, hshortest, hnone⟩ := shortest_spec hpos
    obtain ⟨hpower, -⟩ := gridPoint_spec hg
    generalize floorLog10 (interval x).value (interval x).den = e at *
    -- the search does not go beyond the grid of ones
    have hplace : place ≤ e.toNat := by
      by_contra hlt
      have hones := gridPoint_ones hpos hn
      have hzero := hnone e.toNat (not_le.mp hlt)
      rw [Int.toNat_of_nonneg hlog, sub_self] at hzero
      rw [hzero] at hones
      cases hones
    have hstrip := g.power_le_stripZeros 20
    rw [hshortest]
    omega

theorem shortest_lt_iff (hpos : 0 < x.significand) :
    (shortest x).toRat < 10 ^ (16 : Int) ↔ x.magnitude < 10 ^ 16 := by
  have hi := interval_spans hpos
  have hp : (0 : ℚ) < 2 ^ x.exponent := by positivity
  have hpow : (10 : ℚ) ^ (16 : Int) = 10 ^ 16 := zpow_natCast 10 16
  constructor
  · intro h
    by_contra hge
    rw [not_lt, magnitude, ← hi.value] at hge
    have hlog := le_floorLog10 hi.den_pos hge
    have hreach : (10 : ℚ) ^ (16 : Int) ≤ (shortest x).toRat :=
      (zpow_le_zpow_right₀ (by norm_num) hlog).trans (pow_floorLog10_le_shortest hpos)
    exact absurd h (not_lt.mpr hreach)
  · intro h
    have hlt := (surrounds_shortest hpos).lt_of_magnitude_lt h
    rwa [div_mul_cancel₀ _ hp.ne', ← hpow] at hlt

end Shortest

end Shortest

end StructuredLog
