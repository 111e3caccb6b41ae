import Mathlib.Data.List.Forall2
import StructuredLog.Text.Basic

/-!
# Letters in either case

Texts that fold to the same one differ in the case of ASCII letters only, octet by octet. A part
occurs in a text, whatever its case, exactly if a piece of the text is a variant of it.
-/

namespace StructuredLog

namespace Text

def SameLetter (a b : UInt8) : Prop :=
  a = b ∨ (isUpper a = true ∧ b = a + 32) ∨ (isUpper b = true ∧ a = b + 32)

/-- The texts differ in the case of ASCII letters at most. -/
def CaseVariant (s t : Text) : Prop := List.Forall₂ SameLetter s t

theorem isUpper_iff {a : UInt8} : isUpper a = true ↔ 65 ≤ a.toNat ∧ a.toNat ≤ 90 := by
  simp [isUpper, UInt8.le_iff_toNat_le]

theorem toNat_lowerOctet (a : UInt8) :
    (lowerOctet a).toNat = if isUpper a = true then a.toNat + 32 else a.toNat := by
  rw [lowerOctet]
  split_ifs with ha
  · rw [isUpper_iff] at ha
    have hstep : (32 : UInt8).toNat = 32 := rfl
    rw [UInt8.toNat_add, hstep]
    omega
  · rfl

theorem lowerOctet_eq_iff {a b : UInt8} : lowerOctet a = lowerOctet b ↔ SameLetter a b := by
  have hlower : ∀ {c d : UInt8}, isUpper c = true → (d = c + 32 ↔ d.toNat = c.toNat + 32) := by
    intro c d hc
    have hc' := toNat_lowerOctet c
    rw [lowerOctet, if_pos hc, if_pos hc] at hc'
    rw [← UInt8.toNat_inj, hc']
  rw [← UInt8.toNat_inj, toNat_lowerOctet, toNat_lowerOctet, SameLetter, ← UInt8.toNat_inj]
  by_cases ha : isUpper a = true <;> by_cases hb : isUpper b = true
  · rw [if_pos ha, if_pos hb, hlower ha, hlower hb]
    rw [isUpper_iff] at ha hb
    omega
  · rw [if_pos ha, if_neg hb, hlower ha]
    rw [isUpper_iff] at ha hb
    simp only [isUpper_iff]
    omega
  · rw [if_neg ha, if_pos hb, hlower hb]
    rw [isUpper_iff] at ha hb
    simp only [isUpper_iff]
    omega
  · simp [ha, hb]

theorem lower_eq_lower_iff {s t : Text} : lower s = lower t ↔ CaseVariant s t := by
  rw [lower, lower, ← List.forall₂_eq_eq_eq, List.forall₂_map_left_iff, List.forall₂_map_right_iff]
  exact ⟨List.Forall₂.imp fun _ _ => lowerOctet_eq_iff.mp,
    List.Forall₂.imp fun _ _ => lowerOctet_eq_iff.mpr⟩

theorem sameFolded_iff {s t : Text} : sameFolded s t = true ↔ CaseVariant s t := by
  rw [sameFolded, beq_iff_eq, lower_eq_lower_iff]

def IsWord (t : Text) : Prop := ∀ b ∈ t, isWord b = true

instance (t : Text) : Decidable (IsWord t) := inferInstanceAs (Decidable (∀ b ∈ t, isWord b = true))

theorem isWord_lowerOctet (b : UInt8) : isWord (lowerOctet b) = isWord b := by
  by_cases hb : isUpper b = true
  · have hlower : isLower (lowerOctet b) = true := by
      rw [isLower, Bool.and_eq_true, decide_eq_true_iff, decide_eq_true_iff, UInt8.le_iff_toNat_le,
        UInt8.le_iff_toNat_le, toNat_lowerOctet, if_pos hb]
      rw [isUpper_iff] at hb
      simp only [UInt8.reduceToNat]
      omega
    simp [isWord, hb, hlower]
  · rw [lowerOctet, if_neg hb]

theorem isWord_lower {t : Text} : IsWord (lower t) ↔ IsWord t := by
  simp [IsWord, lower, isWord_lowerOctet]

theorem CaseVariant.isWord_iff {s t : Text} (h : CaseVariant s t) : IsWord s ↔ IsWord t := by
  rw [← isWord_lower, lower_eq_lower_iff.mpr h, isWord_lower]

theorem contains_iff_infix {t part : Text} : contains t part = true ↔ part <:+: t := by
  induction t with
  | nil => simp [contains, List.isEmpty_iff]
  | cons b t ih => simp [contains, ih, List.infix_cons_iff]

theorem containsFolded_iff {t part : Text} : containsFolded t part = true ↔
    ∃ front middle back, t = front ++ middle ++ back ∧ CaseVariant middle part := by
  rw [containsFolded, contains_iff_infix]
  constructor
  · rintro ⟨front, back, h⟩
    obtain ⟨before, after, rfl, hbefore, -⟩ := List.map_eq_append_iff.mp h.symm
    obtain ⟨front, middle, rfl, -, hmiddle⟩ := List.map_eq_append_iff.mp hbefore
    exact ⟨front, middle, after, rfl, lower_eq_lower_iff.mp hmiddle⟩
  · rintro ⟨front, middle, back, rfl, hmiddle⟩
    refine ⟨lower front, lower back, ?_⟩
    rw [← lower_eq_lower_iff.mpr hmiddle]
    simp [lower]

theorem containsFolded_embed {t part variant : Text} (h : containsFolded t part = true)
    (hvariant : CaseVariant variant t) (front back : Text) :
    containsFolded (front ++ variant ++ back) part = true := by
  rw [containsFolded, contains_iff_infix] at h ⊢
  rw [← lower_eq_lower_iff.mpr hvariant] at h
  exact h.trans ⟨lower front, lower back, by simp [lower]⟩

end Text

end StructuredLog
