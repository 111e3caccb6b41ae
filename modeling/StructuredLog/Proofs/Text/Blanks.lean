import Mathlib.Data.List.DropRight
import StructuredLog.Proofs.Text.Letters

/-!
# Words between blanks

Trimming takes blanks off both ends of a text and nothing else, so it finds the word that stands
between blanks.
-/

namespace StructuredLog

namespace Text

def AllBlank (t : Text) : Prop := ∀ b ∈ t, isBlank b = true

theorem isBlank_of_isWord {b : UInt8} (h : isWord b = true) : isBlank b = false := by
  rw [← Bool.not_eq_true]
  simp only [isWord, isDigit, isUpper, isLower, isBlank, Bool.or_eq_true, Bool.and_eq_true,
    decide_eq_true_eq, beq_iff_eq, UInt8.le_iff_toNat_le, ← UInt8.toNat_inj,
    UInt8.reduceToNat] at h ⊢
  omega

theorem exists_trim (t : Text) :
    ∃ before after, t = before ++ trim t ++ after ∧ AllBlank before ∧ AllBlank after := by
  have htrim : trim t = (t.dropWhile isBlank).rdropWhile isBlank := rfl
  refine ⟨t.takeWhile isBlank, (t.dropWhile isBlank).rtakeWhile isBlank, ?_,
    fun b hb => List.mem_takeWhile_imp hb, fun b hb => List.mem_rtakeWhile_imp hb⟩
  rw [htrim, List.append_assoc, List.rdropWhile_append_rtakeWhile, List.takeWhile_append_dropWhile]

theorem dropWhile_word {word : Text} (hword : IsWord word) (hne : word ≠ []) (after : Text) :
    (word ++ after).dropWhile isBlank = word ++ after := by
  obtain ⟨first, rest, rfl⟩ := List.exists_cons_of_ne_nil hne
  rw [List.cons_append, List.dropWhile_cons_of_neg]
  rw [isBlank_of_isWord (hword first List.mem_cons_self)]
  exact Bool.false_ne_true

theorem trim_word {before word after : Text} (hbefore : AllBlank before) (hword : IsWord word)
    (hne : word ≠ []) (hafter : AllBlank after) : trim (before ++ word ++ after) = word := by
  have hback : AllBlank after.reverse := fun b hb => hafter b (List.mem_reverse.mp hb)
  have hreverse : IsWord word.reverse := fun b hb => hword b (List.mem_reverse.mp hb)
  have hfront : (before ++ word ++ after).dropWhile isBlank = word ++ after := by
    rw [List.append_assoc, List.dropWhile_append_of_pos hbefore, dropWhile_word hword hne]
  have hend : (word ++ after).reverse.dropWhile isBlank = word.reverse := by
    have hword' := dropWhile_word hreverse (by simpa using hne) []
    rw [List.append_nil] at hword'
    rw [List.reverse_append, List.dropWhile_append_of_pos hback, hword']
  rw [trim, hfront, hend, List.reverse_reverse]

end Text

end StructuredLog
