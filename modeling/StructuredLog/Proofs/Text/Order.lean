import Mathlib.Data.List.Nodup
import Mathlib.Data.List.Perm.Basic
import Mathlib.Data.Set.Card
import StructuredLog.Text.Basic

/-!
# The order of texts

The order on octets, extended to texts: total, and decided by the first octets that differ. There
is one way to put texts that all differ in order.
-/

namespace StructuredLog

namespace Text

theorem le_refl (t : Text) : le t t = true := by
  induction t with
  | nil => rfl
  | cons b t ih => simp [le, ih]

theorem le_total (s t : Text) : le s t = true ∨ le t s = true := by
  induction s generalizing t with
  | nil => exact .inl (by cases t <;> rfl)
  | cons a s ih =>
    cases t with
    | nil => exact .inr rfl
    | cons b t =>
      by_cases heq : a = b
      · subst heq
        simpa [le] using ih t
      · rcases UInt8.lt_or_lt_of_ne heq with h | h
        · simp [le, h]
        · simp [le, h]

theorem le_trans {r s t : Text} (h : le r s = true) (h' : le s t = true) : le r t = true := by
  induction r generalizing s t with
  | nil => cases t <;> rfl
  | cons a r ih =>
    cases s with
    | nil => cases h
    | cons b s =>
      cases t with
      | nil => cases h'
      | cons c t =>
        simp only [le, Bool.or_eq_true, Bool.and_eq_true, decide_eq_true_eq, beq_iff_eq] at h h' ⊢
        rcases h with h | ⟨rfl, h⟩
        · rcases h' with h' | ⟨rfl, -⟩
          · exact .inl (UInt8.lt_trans h h')
          · exact .inl h
        · rcases h' with h' | ⟨rfl, h'⟩
          · exact .inl h'
          · exact .inr ⟨rfl, ih h h'⟩

theorem le_antisymm {s t : Text} (h : le s t = true) (h' : le t s = true) : s = t := by
  induction s generalizing t with
  | nil =>
    cases t with
    | nil => rfl
    | cons b t => cases h'
  | cons a s ih =>
    cases t with
    | nil => cases h
    | cons b t =>
      simp only [le, Bool.or_eq_true, Bool.and_eq_true, decide_eq_true_eq, beq_iff_eq] at h h'
      rcases h with h | ⟨rfl, h⟩
      · rcases h' with h' | ⟨rfl, -⟩
        · exact absurd h' (UInt8.lt_asymm h)
        · exact absurd h (UInt8.lt_irrefl _)
      · rcases h' with h' | ⟨-, h'⟩
        · exact absurd h' (UInt8.lt_irrefl _)
        · rw [ih h h']

theorem le_append_left (front s t : Text) : le (front ++ s) (front ++ t) = le s t := by
  induction front with
  | nil => rfl
  | cons b front ih => simp [le, ih]

def Before (s t : Text) : Prop := le t s = false

theorem Before.le {s t : Text} (h : Before s t) : Text.le s t = true :=
  (le_total s t).resolve_right (by rw [h]; decide)

theorem Before.ne {s t : Text} (h : Before s t) : s ≠ t := by
  rintro rfl
  rw [Before, le_refl] at h
  cases h

theorem Before.not_before {s t : Text} (h : Before s t) : ¬Before t s := by
  rw [Before, h.le]
  decide

theorem before_append_left {s t : Text} (front : Text) :
    Before (front ++ s) (front ++ t) ↔ Before s t := by
  rw [Before, Before, le_append_left]

theorem before_cons_self {s t : Text} (b : UInt8) : Before (b :: s) (b :: t) ↔ Before s t :=
  before_append_left [b]

theorem before_cons {a b : UInt8} (h : a < b) (s t : Text) : Before (a :: s) (b :: t) := by
  have hne : b ≠ a := fun heq => UInt8.lt_irrefl a (heq ▸ h)
  simp [Before, Text.le, UInt8.lt_asymm h, hne]

theorem Before.append {s t : Text} (h : Before s t) (hlength : s.length = t.length) (s' t' : Text) :
    Before (s ++ s') (t ++ t') := by
  induction s generalizing t with
  | nil =>
    rw [List.eq_nil_of_length_eq_zero hlength.symm] at h
    exact absurd rfl h.ne
  | cons a s ih =>
    cases t with
    | nil => cases hlength
    | cons b t =>
      have hlength' : s.length = t.length := Nat.succ.inj hlength
      by_cases heq : a = b
      · subst heq
        rw [before_cons_self] at h
        rw [List.cons_append, List.cons_append, before_cons_self]
        exact ih h hlength'
      · rcases UInt8.lt_or_lt_of_ne heq with hlt | hlt
        · exact before_cons hlt _ _
        · simp [Before, Text.le, hlt] at h

theorem pairwise_mergeSort (l : List Text) :
    (l.mergeSort le).Pairwise fun s t => le s t = true := by
  have htrans : ∀ r s t : Text, le r s = true → le s t = true → le r t = true :=
    fun _ _ _ => le_trans
  have htotal : ∀ s t : Text, (le s t || le t s) = true := by
    intro s t
    simpa using le_total s t
  exact List.pairwise_mergeSort htrans htotal l

theorem pairwise_before_mergeSort {l : List Text} (h : l.Nodup) :
    (l.mergeSort le).Pairwise Before := by
  have hnodup : (l.mergeSort le).Pairwise fun s t => s ≠ t :=
    (List.mergeSort_perm l le).nodup_iff.mpr h
  refine ((pairwise_mergeSort l).and hnodup).imp fun {s t} hst => ?_
  rw [Before, Bool.eq_false_iff]
  exact fun hts => hst.2 (le_antisymm hst.1 hts)

theorem mergeSort_eq_of_perm {l l' : List Text} (h : l.Perm l') :
    l.mergeSort le = l'.mergeSort le :=
  ((List.mergeSort_perm l le).trans (h.trans (List.mergeSort_perm l' le).symm)).eq_of_pairwise
    (fun _ _ _ _ => le_antisymm) (pairwise_mergeSort l) (pairwise_mergeSort l')

theorem mergeSort_eq {l l' : List Text} (hl : l.Nodup) (hsorted : l'.Pairwise Before)
    (hmem : ∀ t, t ∈ l ↔ t ∈ l') : l.mergeSort le = l' := by
  have hperm : (l.mergeSort le).Perm l' := (List.mergeSort_perm l le).trans
    ((List.perm_ext_iff_of_nodup hl (hsorted.imp Before.ne)).mpr hmem)
  exact hperm.eq_of_pairwise (fun s t _ _ => le_antisymm) (pairwise_mergeSort l)
    (hsorted.imp Before.le)

theorem ncard_mem {texts : List Text} (h : texts.Nodup) : {t | t ∈ texts}.ncard = texts.length := by
  rw [← List.coe_toFinset, Set.ncard_coe_finset, List.toFinset_card_of_nodup h]

end Text

end StructuredLog
