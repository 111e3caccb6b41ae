import Mathlib.Algebra.Group.Nat.Defs
import Mathlib.Data.List.Induction
import Mathlib.Logic.Function.Defs
import StructuredLog.Number.Decimal

/-!
# Decimal numerals

A numeral is a run of digits that denotes the number it was printed from, so different numbers
have different numerals.
-/

namespace StructuredLog

open Text

theorem Text.isDigit_iff {b : UInt8} : isDigit b = true ↔ 48 ≤ b.toNat ∧ b.toNat ≤ 57 := by
  simp only [isDigit, Bool.and_eq_true, decide_eq_true_eq, UInt8.le_iff_toNat_le,
    UInt8.toNat_ofNat]

namespace Decimal

def digit (d : Nat) : UInt8 := UInt8.ofNat (48 + d)

theorem toNat_digit {d : Nat} (h : d < 10) : (digit d).toNat = 48 + d := by
  rw [digit, UInt8.toNat_ofNat']
  omega

theorem isDigit_digit {d : Nat} (h : d < 10) : isDigit (digit d) = true := by
  rw [isDigit_iff, toNat_digit h]
  omega

theorem digitChar_octet {d : Nat} (h : d < 10) : UInt8.ofNat (Nat.digitChar d).toNat = digit d := by
  have hall : ∀ d : Fin 10, UInt8.ofNat (Nat.digitChar d).toNat = digit d := by decide
  exact hall ⟨d, h⟩

theorem ofNat_of_lt {n : Nat} (h : n < 10) : ofNat n = [digit n] := by
  rw [ofNat, Nat.toDigits_of_lt_base h, List.map_singleton, digitChar_octet h]

theorem ofNat_of_le {n : Nat} (h : 10 ≤ n) : ofNat n = ofNat (n / 10) ++ [digit (n % 10)] := by
  have hlast : n % 10 < 10 := Nat.mod_lt _ (by decide)
  rw [ofNat, Nat.toDigits_of_base_le (by decide) h, List.map_append, List.map_singleton,
    digitChar_octet hlast, ofNat]

theorem valueOf_append_singleton (t : Text) (b : UInt8) :
    valueOf (t ++ [b]) = valueOf t * 10 + (b.toNat - 48) := by
  rw [valueOf, List.foldl_append, valueOf]
  rfl

theorem valueOf_append (s t : Text) :
    valueOf (s ++ t) = valueOf s * 10 ^ t.length + valueOf t := by
  induction t using List.reverseRecOn with
  | nil =>
    rw [List.append_nil, List.length_nil, Nat.pow_zero, Nat.mul_one]
    rfl
  | append_singleton t b ih =>
    rw [← List.append_assoc, valueOf_append_singleton, ih, valueOf_append_singleton,
      List.length_append, List.length_singleton, Nat.pow_succ, Nat.add_mul, Nat.mul_assoc,
      Nat.add_assoc]

theorem valueOf_zeros (k : Nat) : valueOf (List.replicate k 48) = 0 := by
  induction k with
  | zero => rfl
  | succ k ih =>
    rw [List.replicate_succ', valueOf_append_singleton, ih]
    rfl

theorem valueOf_ofNat (n : Nat) : valueOf (ofNat n) = n := by
  induction n using Nat.strongRecOn with
  | ind n ih =>
    rcases Nat.lt_or_ge n 10 with hlt | hle
    · rw [ofNat_of_lt hlt, valueOf, List.foldl_cons, List.foldl_nil, toNat_digit hlt]
      omega
    · have hlast : n % 10 < 10 := Nat.mod_lt _ (by decide)
      rw [ofNat_of_le hle, valueOf_append_singleton, ih (n / 10) (by omega), toNat_digit hlast]
      omega

theorem ofNat_injective : Function.Injective ofNat := by
  intro m n h
  rw [← valueOf_ofNat m, h, valueOf_ofNat]

theorem ofNat_ne_nil (n : Nat) : ofNat n ≠ [] := by
  rcases Nat.lt_or_ge n 10 with hlt | hle
  · simp [ofNat_of_lt hlt]
  · simp [ofNat_of_le hle]

theorem length_ofNat_mono {m n : Nat} (h : m ≤ n) : (ofNat m).length ≤ (ofNat n).length := by
  have hpos : 0 < (Nat.toDigits 10 n).length := by
    have hne := List.length_pos_iff.mpr (ofNat_ne_nil n)
    rwa [ofNat, List.length_map] at hne
  have hbound := (Nat.length_toDigits_le_iff (by decide) hpos).mp (Nat.le_refl _)
  rw [ofNat, ofNat, List.length_map, List.length_map]
  exact (Nat.length_toDigits_le_iff (by decide) hpos).mpr (Nat.lt_of_le_of_lt h hbound)

theorem eq_zero_of_head_ofNat {n : Nat} (h : (ofNat n).head? = some 48) : n = 0 := by
  induction n using Nat.strongRecOn with
  | ind n ih =>
    rcases Nat.lt_or_ge n 10 with hlt | hle
    · rw [ofNat_of_lt hlt, List.head?_cons, Option.some.injEq] at h
      have hdigit := toNat_digit hlt
      rw [h, show (48 : UInt8).toNat = 48 from rfl] at hdigit
      omega
    · obtain ⟨b, t, hb⟩ := List.exists_cons_of_ne_nil (ofNat_ne_nil (n / 10))
      rw [ofNat_of_le hle, hb, List.cons_append, List.head?_cons] at h
      have := ih (n / 10) (by omega) (by rw [hb, List.head?_cons, h])
      omega

theorem valueOf_padded (width n : Nat) : valueOf (padded width n) = n := by
  rw [padded, valueOf_append, valueOf_zeros, valueOf_ofNat, Nat.zero_mul, Nat.zero_add]

theorem padded_ne_nil (width n : Nat) : padded width n ≠ [] := by
  simp [padded, ofNat_ne_nil]

theorem isDigit_of_mem_ofNat {n : Nat} {b : UInt8} (h : b ∈ ofNat n) : isDigit b = true := by
  induction n using Nat.strongRecOn with
  | ind n ih =>
    rcases Nat.lt_or_ge n 10 with hlt | hle
    · rw [ofNat_of_lt hlt, List.mem_singleton] at h
      rw [h]
      exact isDigit_digit hlt
    · rw [ofNat_of_le hle, List.mem_append, List.mem_singleton] at h
      rcases h with h | rfl
      · exact ih (n / 10) (by omega) h
      · exact isDigit_digit (Nat.mod_lt _ (by decide))

theorem isDigit_of_mem_zeros {k : Nat} {b : UInt8} (h : b ∈ List.replicate k 48) :
    isDigit b = true := by
  rw [List.eq_of_mem_replicate h]
  decide

theorem isDigit_of_mem_padded {width n : Nat} {b : UInt8} (h : b ∈ padded width n) :
    isDigit b = true := by
  rw [padded, List.mem_append] at h
  exact h.elim isDigit_of_mem_zeros isDigit_of_mem_ofNat

variable {token : Text} {n : Nat}

def Numeral (token : Text) (n : Nat) : Prop :=
  ∃ zeros, token = List.replicate zeros 48 ++ ofNat n

theorem digit_of_isDigit {b : UInt8} (h : isDigit b = true) :
    b.toNat - 48 < 10 ∧ digit (b.toNat - 48) = b := by
  rw [isDigit_iff] at h
  have hval : 48 + (b.toNat - 48) = b.toNat := by omega
  refine ⟨by omega, ?_⟩
  rw [digit, hval, UInt8.ofNat_toNat]

/-- Every run of digits is the numeral of its value: a digit behind zeros alone begins the number,
and any other digit goes on with it. -/
theorem numeral_valueOf (hne : token ≠ []) (hdigits : ∀ b ∈ token, isDigit b = true) :
    Numeral token (valueOf token) := by
  induction token using List.reverseRecOn with
  | nil => exact absurd rfl hne
  | append_singleton front b ih =>
    obtain ⟨hlt, hb⟩ := digit_of_isDigit (hdigits b (by simp))
    rw [valueOf_append_singleton]
    by_cases hnil : front = []
    · refine ⟨0, ?_⟩
      rw [hnil, valueOf, List.foldl_nil, Nat.zero_mul, Nat.zero_add, ofNat_of_lt hlt, hb]
      rfl
    · obtain ⟨zeros, hfront⟩ := ih hnil fun b hb => hdigits b (by simp [hb])
      by_cases hzero : valueOf front = 0
      · refine ⟨zeros + 1, ?_⟩
        have hone : ofNat 0 = [48] := rfl
        rw [hzero, hone] at hfront
        rw [hzero, Nat.zero_mul, Nat.zero_add, ofNat_of_lt hlt, hb, hfront, List.replicate_succ']
      · refine ⟨zeros, ?_⟩
        have hdiv : (valueOf front * 10 + (b.toNat - 48)) / 10 = valueOf front := by omega
        have hmod : (valueOf front * 10 + (b.toNat - 48)) % 10 = b.toNat - 48 := by omega
        rw [ofNat_of_le (by omega), hdiv, hmod, hb, ← List.append_assoc, ← hfront]

theorem Numeral.digits (h : Numeral token n) : token ≠ [] ∧ ∀ b ∈ token, isDigit b = true := by
  obtain ⟨zeros, rfl⟩ := h
  exact ⟨by simp [ofNat_ne_nil], List.forall_mem_append.mpr
    ⟨fun _ => isDigit_of_mem_zeros, fun _ => isDigit_of_mem_ofNat⟩⟩

theorem Numeral.valueOf_eq (h : Numeral token n) : valueOf token = n := by
  obtain ⟨zeros, rfl⟩ := h
  rw [valueOf_append, valueOf_zeros, valueOf_ofNat, Nat.zero_mul, Nat.zero_add]

theorem toNat?_eq_some_iff : toNat? token = some n ↔ Numeral token n := by
  have hread : toNat? token = some n ↔
      (token ≠ [] ∧ ∀ b ∈ token, isDigit b = true) ∧ valueOf token = n := by
    rw [toNat?, Option.ite_none_right_eq_some, List.all_eq_true, Option.some.injEq]
  rw [hread]
  constructor
  · rintro ⟨⟨hne, hdigits⟩, rfl⟩
    exact numeral_valueOf hne hdigits
  · exact fun h => ⟨h.digits, h.valueOf_eq⟩

end Decimal

end StructuredLog
