import Mathlib.Data.List.Induction
import StructuredLog.Text.Basic

/-!
# A shift register of contents

What a log file that rotates by size and its numbered backups hold, without a file system. A write
that would exceed the limit moves every content one slot on and drops the last; any other write
lengthens the current content. Read from the oldest on, the slots are the end of all that was
written, cut only between entries.
-/

namespace StructuredLog

/-- The current content, and the backups from the newest on, with gaps. -/
structure Slots where
  current : Text
  backups : List (Option Text)
  deriving DecidableEq

namespace Slots

def write (limit : Nat) (s : Slots) (entry : Text) : Slots :=
  if limit ≠ 0 ∧ s.current ≠ [] ∧ limit < s.current.length + entry.length then
    ⟨entry, (some s.current :: s.backups).take s.backups.length⟩
  else ⟨s.current ++ entry, s.backups⟩

def run (limit : Nat) (s : Slots) (entries : List Text) : Slots := entries.foldl (write limit) s

theorem exceeds_iff {s : Slots} {size : Nat} (h : s.current.length = size) (limit added : Nat) :
    (limit ≠ 0 ∧ s.current ≠ [] ∧ limit < s.current.length + added) ↔
      limit ≠ 0 ∧ size ≠ 0 ∧ limit < size + added := by
  rw [← h, ne_eq (List.length _), List.length_eq_zero_iff]

theorem run_append_singleton (limit : Nat) (s : Slots) (entries : List Text) (entry : Text) :
    s.run limit (entries ++ [entry]) = (s.run limit entries).write limit entry := by
  rw [run, List.foldl_append, run]
  rfl

def older (s : Slots) : List Text := s.backups.reverse.filterMap id

def chain (s : Slots) : List Text := s.older ++ [s.current]

theorem current_write {limit : Nat} (hlimit : limit ≠ 0) (s : Slots) (entry : Text) :
    (s.write limit entry).current.length ≤ limit ∨ (s.write limit entry).current = entry := by
  rw [write]
  split_ifs with hdue
  · exact .inr rfl
  · by_cases hempty : s.current = []
    · right
      rw [hempty, List.nil_append]
    · left
      have hfits : ¬limit < s.current.length + entry.length := fun h => hdue ⟨hlimit, hempty, h⟩
      rw [List.length_append]
      omega

theorem older_take_suffix (s : Slots) (n : Nat) :
    ((some s.current :: s.backups).take n).reverse.filterMap id <:+ s.chain := by
  have htake := (List.take_prefix n (some s.current :: s.backups)).reverse
  have hfilter := htake.filterMap id
  simpa [chain, older] using hfilter

/-- The entries fall into groups, one for each file that was ever current, and what is left are
the last files. -/
theorem run_groups (limit : Nat) (s : Slots) (entries : List Text) :
    ∃ (first : List Text) (later : List (List Text)), entries = first ++ later.flatten ∧
      (s.run limit entries).chain <:+
        s.older ++ (s.current ++ first.flatten) :: later.map List.flatten := by
  induction entries using List.reverseRecOn with
  | nil => exact ⟨[], [], rfl, by simp [run, chain]⟩
  | append_singleton entries entry ih =>
    obtain ⟨first, later, hentries, hsuffix⟩ := ih
    rw [run_append_singleton]
    set reached := s.run limit entries
    rw [write]
    split_ifs with hdue
    · -- The entry starts a group of its own.
      refine ⟨first, later ++ [[entry]], by simp [hentries], ?_⟩
      have hdrop := reached.older_take_suffix reached.backups.length
      obtain ⟨front, hfront⟩ := hdrop.trans hsuffix
      refine ⟨front, ?_⟩
      simp only [chain, older] at hfront ⊢
      rw [← List.append_assoc, hfront]
      simp
    · -- The entry joins the last group, whose file is current.
      obtain ⟨front, hfront⟩ := hsuffix
      rw [chain, ← List.append_assoc] at hfront
      rcases List.eq_nil_or_concat later with rfl | ⟨later, last, rfl⟩
      · obtain ⟨hbefore, hlast⟩ := List.append_inj' hfront rfl
        refine ⟨first ++ [entry], [], by simp [hentries], front, ?_⟩
        rw [chain, ← List.append_assoc]
        have hcurrent := List.singleton_inj.mp hlast
        simp only [older] at hbefore ⊢
        rw [hbefore, hcurrent]
        simp
      · rw [List.concat_eq_append, List.map_append, ← List.cons_append, ← List.append_assoc]
          at hfront
        obtain ⟨hbefore, hlast⟩ := List.append_inj' hfront rfl
        refine ⟨first, later ++ [last ++ [entry]], by simp [hentries], front, ?_⟩
        rw [chain, ← List.append_assoc]
        have hcurrent := List.singleton_inj.mp hlast
        simp only [older] at hbefore ⊢
        rw [hbefore, hcurrent]
        simp

end Slots

end StructuredLog
