import Mathlib.Data.List.TakeWhile
import StructuredLog.Files.Path

/-!
# Names in paths

A text without slashes is a file name, alone and behind the slash of a directory. Put behind a path
it lengthens the last name of the path and changes none of the others.
-/

namespace StructuredLog

namespace Text

theorem splitAt_ne_nil (sep : UInt8) (t : Text) : splitAt sep t ≠ [] := by
  cases t with
  | nil => simp [splitAt]
  | cons b t =>
    rw [splitAt]
    split_ifs
    · simp
    · cases splitAt sep t <;> simp

theorem splitAt_of_not_mem {sep : UInt8} {t : Text} (h : sep ∉ t) : splitAt sep t = [t] := by
  induction t with
  | nil => rfl
  | cons b t ih =>
    have hb : b ≠ sep := fun hb => h (by simp [hb])
    rw [splitAt, if_neg hb, ih fun hmem => h (List.mem_cons_of_mem _ hmem)]

theorem splitAt_append {sep : UInt8} {s : Text} (hs : sep ∉ s) (t : Text) :
    ∃ front last, splitAt sep t = front ++ [last] ∧
      splitAt sep (t ++ s) = front ++ [last ++ s] := by
  induction t with
  | nil => exact ⟨[], [], rfl, splitAt_of_not_mem hs⟩
  | cons b t ih =>
    obtain ⟨front, last, ht, hts⟩ := ih
    rw [List.cons_append, splitAt, splitAt]
    by_cases hb : b = sep
    · rw [if_pos hb, if_pos hb, ht, hts]
      exact ⟨[] :: front, last, rfl, rfl⟩
    · rw [if_neg hb, if_neg hb, ht, hts]
      cases front with
      | nil => exact ⟨[], b :: last, rfl, rfl⟩
      | cons part front => exact ⟨(b :: part) :: front, last, rfl, rfl⟩

theorem not_mem_of_mem_splitAt {sep : UInt8} {t part : Text} (h : part ∈ splitAt sep t) :
    sep ∉ part := by
  induction t generalizing part with
  | nil =>
    rw [splitAt, List.mem_singleton] at h
    simp [h]
  | cons b t ih =>
    rw [splitAt] at h
    by_cases hb : b = sep
    · rw [if_pos hb] at h
      rcases List.mem_cons.mp h with rfl | h
      · simp
      · exact ih h
    · rw [if_neg hb] at h
      cases hsplit : splitAt sep t with
      | nil => exact absurd hsplit (splitAt_ne_nil sep t)
      | cons first rest =>
        rw [hsplit] at h ih
        rcases List.mem_cons.mp h with rfl | h
        · have hfirst := ih List.mem_cons_self
          simp [Ne.symm hb, hfirst]
        · exact ih (List.mem_cons_of_mem _ h)

theorem splitAt_last_ne_nil {sep : UInt8} {t last : Text} {parts : List Text}
    (hsplit : splitAt sep t = parts ++ [last]) (hne : t ≠ []) (hend : t.getLast? ≠ some sep) :
    last ≠ [] := by
  induction t generalizing parts with
  | nil => exact absurd rfl hne
  | cons b t ih =>
    rw [splitAt] at hsplit
    cases t with
    | nil =>
      have hb : b ≠ sep := fun hb => hend (by simp [hb])
      rw [if_neg hb] at hsplit
      cases parts with
      | nil =>
        cases hsplit
        simp
      | cons part parts => simp [splitAt] at hsplit
    | cons c t =>
      have hend' : (c :: t).getLast? ≠ some sep := by simpa using hend
      by_cases hb : b = sep
      · rw [if_pos hb] at hsplit
        cases parts with
        | nil =>
          simp only [List.nil_append, List.cons.injEq] at hsplit
          exact absurd hsplit.2 (splitAt_ne_nil sep _)
        | cons part parts => exact ih (List.cons.inj hsplit).2 (by simp) hend'
      · rw [if_neg hb] at hsplit
        cases hrest : splitAt sep (c :: t) with
        | nil => exact absurd hrest (splitAt_ne_nil sep _)
        | cons first rest =>
          rw [hrest] at hsplit
          cases parts with
          | nil =>
            cases hsplit
            simp
          | cons part parts =>
            have hparts : rest = parts ++ [last] := (List.cons.inj hsplit).2
            have hrest' : splitAt sep (c :: t) = (first :: parts) ++ [last] := by
              rw [hrest, hparts]
              rfl
            exact ih hrest' (by simp) hend'

theorem decide_ne_of_not_mem {c : UInt8} {t : Text} (h : c ∉ t) :
    ∀ b ∈ t, decide (b ≠ c) = true := by
  intro b hb
  rw [decide_eq_true_iff]
  rintro rfl
  exact h hb

theorem untilNul_of_not_mem {t : Text} (h : (0 : UInt8) ∉ t) : untilNul t = t :=
  List.takeWhile_eq_self_iff.mpr (decide_ne_of_not_mem h)

theorem untilNul_append {s : Text} (h : 0 ∈ s) (t : Text) : untilNul (s ++ t) = untilNul s := by
  rw [untilNul, untilNul, List.takeWhile_append, if_neg]
  intro hlength
  have hall := List.takeWhile_eq_self_iff.mp ((List.takeWhile_prefix _).eq_of_length hlength) 0 h
  simp at hall

end Text

namespace FilePath

structure IsLabel (ext : Text) : Prop where
  ne_nil : ext ≠ []
  nul_not_mem : 0 ∉ ext
  slash_not_mem : slash ∉ ext

theorem fileName_of_slash_not_mem {name : Text} (hslash : slash ∉ name) : fileName name = name := by
  have hall := Text.decide_ne_of_not_mem (mt List.mem_reverse.mp hslash)
  rw [fileName, List.takeWhile_eq_self_iff.mpr hall, List.reverse_reverse]

theorem fileName_append_slash {name : Text} (hslash : slash ∉ name) (dir : Text) :
    fileName (dir ++ slash :: name) = name := by
  have hall := Text.decide_ne_of_not_mem (mt List.mem_reverse.mp hslash)
  rw [fileName, List.reverse_append, List.reverse_cons, List.append_assoc,
    List.takeWhile_append_of_pos hall, List.singleton_append, List.takeWhile_cons_of_neg (by simp),
    List.append_nil, List.reverse_reverse]

theorem slash_not_mem_of_mem_components {path name : Text} (h : name ∈ components path) :
    slash ∉ name :=
  Text.not_mem_of_mem_splitAt (List.mem_filter.mp h).1

theorem components_append {path s : Text} (hpath : 0 ∉ path) (hs : 0 ∉ s) (hslash : slash ∉ s)
    (hne : path ≠ []) (hend : path.getLast? ≠ some slash) :
    ∃ front name, components path = front ++ [name] ∧
      components (path ++ s) = front ++ [name ++ s] := by
  obtain ⟨front, last, hlast, happend⟩ := Text.splitAt_append hslash path
  have hname : last ≠ [] := Text.splitAt_last_ne_nil hlast hne hend
  have hboth : (0 : UInt8) ∉ path ++ s := by simp [hpath, hs]
  refine ⟨front.filter (· ≠ []), last, ?_, ?_⟩
  · simp [components, Text.untilNul_of_not_mem hpath, hlast, hname]
  · simp [components, Text.untilNul_of_not_mem hboth, happend, hname]

theorem isAbsolute_append {path : Text} (hne : path ≠ []) (s : Text) :
    isAbsolute (path ++ s) = isAbsolute path := by
  cases path with
  | nil => exact absurd rfl hne
  | cons b path => rfl

end FilePath

end StructuredLog
