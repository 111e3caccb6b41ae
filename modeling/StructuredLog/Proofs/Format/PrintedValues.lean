import StructuredLog.Format.ConsoleLine
import StructuredLog.Proofs.Format.JsonDoubles
import StructuredLog.Proofs.Number.WholeNumbers

/-!
# Printed values and the console

A value prints as the console shows it behind the name of a field, with two exceptions among the
doubles. The console writes doubles as JSON does: a whole number below `10 ^ 16`, whose shortest
text reads as an integer, gets a fraction, and what is no number at all is null. Printing has the
shortest text in both cases. Main statement: `Value.shown_eq_printed_iff`.
-/

namespace StructuredLog

open Text Json.Numeral

namespace Shortest

variable {x : Binary64}

theorem length_ofNat (n : Nat) : (Decimal.ofNat n).length = numeralLength n := List.length_map _

theorem any_isMark_layOut (s : Scientific) :
    (layOut fieldLayout (Decimal.ofNat s.digits)
      (s.power + (Decimal.ofNat s.digits).length - 1)).any isMark = false ↔
        0 ≤ s.power ∧ s.power + numeralLength s.digits ≤ 16 := by
  have hdigits : (Decimal.ofNat s.digits).any isMark = false :=
    any_isMark_digits fun _ => digits_mem
  have hzeros : ∀ k : Nat, (List.replicate k (48 : UInt8)).any isMark = false := fun _ =>
    any_isMark_digits fun _ => Decimal.isDigit_of_mem_zeros
  have hlength := List.length_pos_of_ne_nil (Decimal.ofNat_ne_nil s.digits)
  have hpoint : (ascii "0.").any isMark = true := rfl
  have hdot : (ascii ".").any isMark = true := rfl
  have hminus : (ascii "e-").any isMark = true := rfl
  have hplus : (ascii "e+").any isMark = true := rfl
  rw [layOut_eq, ← length_ofNat]
  split_ifs with hrange hbehind hbefore hsmall
  · simp only [List.any_append, hpoint, Bool.true_or, Bool.true_eq_false, false_iff]
    omega
  · simp only [List.any_append, hdigits, hzeros, Bool.or_false, true_iff]
    omega
  · simp only [List.any_append, hdot, Bool.true_or, Bool.or_true, Bool.true_eq_false, false_iff]
    omega
  · simp only [List.any_append, hminus, Bool.true_or, Bool.or_true, Bool.true_eq_false, false_iff]
    omega
  · simp only [List.any_append, hplus, Bool.true_or, Bool.or_true, Bool.true_eq_false, false_iff]
    omega

/-- The text of a finite double reads as an integer exactly for whole numbers below `10 ^ 16`. -/
theorem any_isMark_text (hfinite : x.isFinite = true) :
    (text x).any isMark = false ↔ x.IsWhole ∧ x.magnitude < 10 ^ 16 := by
  cases hzero : x.isZero with
  | true =>
    have hmagnitude : x.magnitude = 0 := by
      rw [Binary64.magnitude, (Binary64.significand_eq_zero_iff x).mpr hzero, Nat.cast_zero,
        zero_mul]
    have hwhole : x.IsWhole := ⟨hfinite, 0, by rw [hmagnitude, Nat.cast_zero]⟩
    rw [text_of_isZero hzero, List.any_append, any_isMark_signText, hmagnitude]
    exact iff_of_true rfl ⟨hwhole, by positivity⟩
  | false =>
    have hpos := x.significand_pos hzero
    rw [text_of_finite hfinite hzero, List.any_append, any_isMark_signText, Bool.false_or,
      any_isMark_layOut, shortest_power_nonneg_iff hpos,
      ← Scientific.toRat_lt_iff (shortest_digits_pos hpos), shortest_lt_iff hpos,
      Binary64.IsWhole, and_iff_right hfinite]

theorem text_of_not_finite (h : x.isFinite = false) :
    text x = signText x.isNegative ++ if x.isNaN then ascii "nan" else ascii "inf" := by
  rw [text]
  simp only [h, Bool.not_false, if_true]
  split <;> rfl

theorem text_ne_null (h : x.isFinite = false) : text x ≠ ascii "null" := by
  rw [text_of_not_finite h]
  cases x.isNegative <;> cases x.isNaN <;> decide

end Shortest

theorem JsonText.double_of_finite {x : Binary64} (h : x.isFinite = true) : JsonText.double x =
    if (Shortest.text x).any isMark then Shortest.text x
    else Shortest.text x ++ ascii ".0" := by
  rw [JsonText.double]
  simp only [h, Bool.not_true, Bool.false_eq_true, if_false]
  rfl

theorem JsonText.double_of_not_finite {x : Binary64} (h : x.isFinite = false) :
    JsonText.double x = ascii "null" := by
  rw [JsonText.double]
  simp only [h, Bool.not_false, if_true]

namespace Value

/-- A whole number below `10 ^ 16`: the shortest text of the double reads as an integer. -/
def ReadsAsInteger : Value → Prop
  | double x => x.IsWhole ∧ x.magnitude < 10 ^ 16
  | _ => False

def Numberless : Value → Prop
  | double x => x.isFinite = false
  | _ => False

/-- A value prints as the console shows it unless it is a double whose shortest text reads as an
integer, to which the console adds a fraction, or one without a number, which the console shows
as null. -/
theorem shown_eq_printed_iff (v : Value) :
    (ConsoleLine.value v = v.printed ↔ ¬v.ReadsAsInteger ∧ ¬v.Numberless) ∧
      (v.ReadsAsInteger → ConsoleLine.value v = v.printed ++ ascii ".0") ∧
      (v.Numberless → ConsoleLine.value v = ascii "null") := by
  cases v with
  | double x =>
    change (JsonText.double x = Shortest.text x ↔ _) ∧ (_ → JsonText.double x = _) ∧
      (_ → JsonText.double x = _)
    rw [Numberless, ReadsAsInteger]
    cases hfinite : x.isFinite with
    | false =>
      have hnot : ¬x.IsWhole := fun h => by
        rw [Binary64.IsWhole, hfinite] at h
        exact Bool.false_ne_true h.1
      rw [JsonText.double_of_not_finite hfinite]
      refine ⟨iff_of_false (Shortest.text_ne_null hfinite).symm fun h => h.2 rfl,
        fun h => absurd h.1 hnot, fun _ => rfl⟩
    | true =>
      have hmark := Shortest.any_isMark_text hfinite
      rw [JsonText.double_of_finite hfinite, ← hmark]
      cases (Shortest.text x).any isMark with
      | true => simp
      | false =>
        have hlonger : ascii ".0" ≠ [] := by decide
        simp [hlonger, printed]
  | bool b => cases b <;> exact ⟨iff_of_true rfl ⟨id, id⟩, False.elim, False.elim⟩
  | _ => exact ⟨iff_of_true rfl ⟨id, id⟩, False.elim, False.elim⟩

def one : Value := double ⟨0x3ff0000000000000⟩

theorem one_readsAsInteger : one.ReadsAsInteger := by
  have hmagnitude : Binary64.magnitude ⟨0x3ff0000000000000⟩ = 1 := by
    have hsignificand : Binary64.significand ⟨0x3ff0000000000000⟩ = 2 ^ 52 := by decide
    have hexponent : Binary64.exponent ⟨0x3ff0000000000000⟩ = -52 := by decide
    rw [Binary64.magnitude, hsignificand, hexponent]
    norm_num
  refine ⟨⟨by decide, 1, ?_⟩, ?_⟩
  · rw [hmagnitude, Nat.cast_one]
  · rw [hmagnitude]
    norm_num

theorem shown_eq_printed_iff_one :
    one.ReadsAsInteger ∧ ConsoleLine.value one = one.printed ++ ascii ".0" :=
  ⟨one_readsAsInteger, (shown_eq_printed_iff one).2.1 one_readsAsInteger⟩

theorem one_printed_apart : one.printed = ascii "1" ∧ ConsoleLine.value one = ascii "1.0" ∧
    ¬∀ v : Value, v.printed = ConsoleLine.value v := by
  have hprinted : one.printed = ascii "1" := by decide +kernel
  have hshown : ConsoleLine.value one = ascii "1.0" := by decide +kernel
  refine ⟨hprinted, hshown, fun h => ?_⟩
  have hone := h one
  rw [hprinted, hshown] at hone
  exact absurd hone (by decide)

end Value

end StructuredLog
