import Mathlib.Data.List.Dedup
import Mathlib.Data.List.Induction
import StructuredLog.Text.Basic

/-!
# A diary

What a daily log file and its dated backups hold, without a file system and without dates as
texts. An entry of a later day than that of the open page closes the page and starts a new one; any
other entry, also of an earlier day, goes to the open page. Of the closed pages the newest are
kept, or all. The pages of entries whose days never go back are the days, each with the entries
of that day; and whatever the days, nothing is lost or moved while all pages are kept.
-/

namespace StructuredLog

/-- Zero stands for all. -/
def newest {α : Type} (keep : Nat) (l : List α) : List α :=
  if keep = 0 then l else l.drop (l.length - keep)

section newest

variable {α β : Type} {keep : Nat}

theorem newest_suffix (keep : Nat) (l : List α) : newest keep l <:+ l := by
  rw [newest]
  split_ifs
  · exact List.suffix_rfl
  · exact List.drop_suffix _ _

theorem newest_zero (l : List α) : newest 0 l = l := rfl

theorem map_newest (f : α → β) (keep : Nat) (l : List α) :
    (newest keep l).map f = newest keep (l.map f) := by
  rw [newest, newest]
  split_ifs
  · rfl
  · rw [List.map_drop, List.length_map]

theorem length_newest (hkeep : keep ≠ 0) (l : List α) :
    (newest keep l).length = min l.length keep := by
  rw [newest, if_neg hkeep, List.length_drop]
  omega

theorem newest_newest_append (keep : Nat) (l : List α) (a : α) :
    newest keep (newest keep l ++ [a]) = newest keep (l ++ [a]) := by
  rcases Nat.eq_zero_or_pos keep with rfl | hpos
  · rfl
  have hkeep : keep ≠ 0 := Nat.ne_of_gt hpos
  have hsuffix : newest keep (newest keep l ++ [a]) <:+ l ++ [a] := by
    obtain ⟨front, hfront⟩ := newest_suffix keep l
    exact (newest_suffix keep _).trans ⟨front, by rw [← List.append_assoc, hfront]⟩
  have hlength : (newest keep (newest keep l ++ [a])).length = (newest keep (l ++ [a])).length := by
    rw [length_newest hkeep, length_newest hkeep, List.length_append, List.length_append,
      length_newest hkeep, List.length_singleton]
    omega
  exact (List.suffix_of_suffix_length_le hsuffix (newest_suffix keep _)
    (Nat.le_of_eq hlength)).eq_of_length hlength

end newest

structure Page where
  day : Int
  text : Text
  deriving DecidableEq

structure Diary where
  closed : List Page
  today : Page
  deriving DecidableEq

namespace Diary

def start (day : Int) (text : Text) : Diary := ⟨[], ⟨day, text⟩⟩

def write (keep : Nat) (d : Diary) (day : Int) (entry : Text) : Diary :=
  if day ≤ d.today.day then ⟨d.closed, ⟨d.today.day, d.today.text ++ entry⟩⟩
  else ⟨newest keep (d.closed ++ [d.today]), ⟨day, entry⟩⟩

def run (keep : Nat) (d : Diary) (entries : List (Int × Text)) : Diary :=
  entries.foldl (fun d e => d.write keep e.1 e.2) d

def pages (d : Diary) : List Page := d.closed ++ [d.today]

theorem pages_write_of_le (keep : Nat) {d : Diary} {day : Int} (h : day ≤ d.today.day)
    (entry : Text) :
    (d.write keep day entry).pages = d.closed ++ [⟨d.today.day, d.today.text ++ entry⟩] := by
  rw [write, if_pos h, pages]

theorem pages_write_of_lt (keep : Nat) {d : Diary} {day : Int} (h : d.today.day < day)
    (entry : Text) : (d.write keep day entry).pages = newest keep d.pages ++ [⟨day, entry⟩] := by
  rw [write, if_neg (Int.not_le.mpr h), pages, pages]

theorem run_cons (keep : Nat) (d : Diary) (e : Int × Text) (entries : List (Int × Text)) :
    d.run keep (e :: entries) = (d.write keep e.1 e.2).run keep entries := rfl

theorem run_append_singleton (keep : Nat) (d : Diary) (entries : List (Int × Text))
    (e : Int × Text) : d.run keep (entries ++ [e]) = (d.run keep entries).write keep e.1 e.2 := by
  rw [run, List.foldl_append, run]
  rfl

def Ordered (d : Diary) : Prop := (d.pages.map (·.day)).Pairwise (· < ·)

theorem start_ordered (day : Int) (text : Text) : (start day text).Ordered := by
  simp [start, Ordered, pages]

theorem Ordered.day_lt {d : Diary} (h : d.Ordered) {p : Page} (hp : p ∈ d.closed) :
    p.day < d.today.day := by
  rw [Ordered, pages, List.map_append, List.pairwise_append] at h
  exact h.2.2 _ (List.mem_map_of_mem hp) _ (by simp)

theorem Ordered.day_le {d : Diary} (h : d.Ordered) {p : Page} (hp : p ∈ d.pages) :
    p.day ≤ d.today.day := by
  rcases List.mem_append.mp hp with hclosed | htoday
  · exact Int.le_of_lt (h.day_lt hclosed)
  · exact Int.le_of_eq (congrArg Page.day (List.mem_singleton.mp htoday))

theorem Ordered.write {d : Diary} (h : d.Ordered) (keep : Nat) (day : Int) (entry : Text) :
    (d.write keep day entry).Ordered := by
  rcases Int.lt_or_le d.today.day day with hday | hday
  · have hnewest : ((newest keep d.pages).map (·.day)).Pairwise (· < ·) :=
      h.sublist ((newest_suffix keep d.pages).sublist.map _)
    rw [Ordered, pages_write_of_lt keep hday, List.map_append, List.pairwise_append]
    refine ⟨hnewest, by simp, fun earlier hearlier later hlater => ?_⟩
    obtain ⟨p, hp, rfl⟩ := List.mem_map.mp hearlier
    rw [List.map_singleton, List.mem_singleton] at hlater
    rw [hlater]
    exact Int.lt_of_le_of_lt (h.day_le ((newest_suffix keep d.pages).subset hp)) hday
  · rw [Ordered, pages_write_of_le keep hday]
    simpa [Ordered, pages] using h

def text (d : Diary) : Text := (d.pages.map (·.text)).flatten

theorem text_write (d : Diary) (day : Int) (entry : Text) :
    (d.write 0 day entry).text = d.text ++ entry := by
  rcases Int.lt_or_le d.today.day day with hday | hday
  · simp [text, pages_write_of_lt 0 hday, newest_zero]
  · rw [text, pages_write_of_le 0 hday]
    simp [text, pages]

theorem text_run (d : Diary) (entries : List (Int × Text)) :
    (d.run 0 entries).text = d.text ++ (entries.map (·.2)).flatten := by
  induction entries generalizing d with
  | nil => simp [run]
  | cons e entries ih => rw [run_cons, ih, text_write, List.map_cons, List.flatten_cons,
      List.append_assoc]

theorem run_keep (keep : Nat) (day : Int) (entry : Text) (entries : List (Int × Text)) :
    (start day entry).run keep entries =
      ⟨newest keep ((start day entry).run 0 entries).closed,
        ((start day entry).run 0 entries).today⟩ := by
  induction entries using List.reverseRecOn with
  | nil =>
    have hnil : newest keep ([] : List Page) = [] := List.suffix_nil.mp (newest_suffix keep [])
    simp [run, start, hnil]
  | append_singleton entries e ih =>
    rw [run_append_singleton, run_append_singleton, ih, write, write]
    split_ifs
    · rfl
    · rw [newest_newest_append, newest_zero]

/-- The entries of a day, one after another. -/
def writtenOn (day : Int) (entries : List (Int × Text)) : Text :=
  ((entries.filter fun e => e.1 = day).map (·.2)).flatten

theorem writtenOn_append_singleton (day : Int) (entries : List (Int × Text)) (e : Int × Text) :
    writtenOn day (entries ++ [e]) = writtenOn day entries ++ if e.1 = day then e.2 else [] := by
  by_cases h : e.1 = day <;> simp [writtenOn, h]

structure Files (d : Diary) (first : Int) (entries : List (Int × Text)) : Prop where
  ordered : d.Ordered
  days : ∀ day, day ∈ d.pages.map (·.day) ↔ day ∈ first :: entries.map (·.1)
  texts : ∀ p ∈ d.pages, p.text = writtenOn p.day entries

theorem Files.writtenOn_eq_nil {d : Diary} {first : Int} {entries : List (Int × Text)}
    (h : d.Files first entries) {day : Int} (hday : d.today.day < day) :
    writtenOn day entries = [] := by
  rw [writtenOn, List.filter_eq_nil_iff.mpr]
  · rfl
  intro e he hsame
  have hmem : day ∈ d.pages.map (·.day) := (h.days _).mpr
    (List.mem_cons_of_mem _ (List.mem_map.mpr ⟨e, he, by simpa using hsame⟩))
  obtain ⟨p, hp, rfl⟩ := List.mem_map.mp hmem
  exact Int.not_lt.mpr (h.ordered.day_le hp) hday

theorem Files.write {d : Diary} {first : Int} {entries : List (Int × Text)}
    (h : d.Files first entries) {e : Int × Text}
    (hlater : ∀ day ∈ first :: entries.map (·.1), day ≤ e.1) :
    (d.write 0 e.1 e.2).Files first (entries ++ [e]) := by
  have hknown : d.today.day ∈ first :: entries.map (·.1) := (h.days _).mp (by simp [pages])
  have hmem : ∀ day, day ∈ first :: (entries ++ [e]).map (·.1) ↔
      day ∈ first :: entries.map (·.1) ∨ day = e.1 := by
    intro day
    rw [List.map_append, ← List.cons_append, List.mem_append, List.map_singleton,
      List.mem_singleton]
  have hearlier : ∀ p ∈ d.pages, p.day < e.1 → p.text = writtenOn p.day (entries ++ [e]) := by
    intro p hp hlt
    rw [writtenOn_append_singleton, if_neg (Int.ne_of_gt hlt), List.append_nil, h.texts p hp]
  rcases Int.lt_or_le d.today.day e.1 with hday | hday
  · -- The first entry of its day.
    have hpages := pages_write_of_lt 0 hday e.2
    rw [newest_zero] at hpages
    refine ⟨h.ordered.write 0 e.1 e.2, fun day => ?_, fun p hp => ?_⟩
    · rw [hpages, hmem, ← h.days, List.map_append, List.mem_append, List.map_singleton,
        List.mem_singleton]
    · rw [hpages] at hp
      rcases List.mem_append.mp hp with hold | hnew
      · exact hearlier p hold (Int.lt_of_le_of_lt (h.ordered.day_le hold) hday)
      · rw [List.mem_singleton.mp hnew, writtenOn_append_singleton, if_pos rfl,
          h.writtenOn_eq_nil hday, List.nil_append]
  · -- The entry is of the day that is open.
    have hsame : e.1 = d.today.day := Int.le_antisymm hday (hlater _ hknown)
    have hpages := pages_write_of_le 0 hday e.2
    refine ⟨h.ordered.write 0 e.1 e.2, fun day => ?_, fun p hp => ?_⟩
    · have hdays : (d.write 0 e.1 e.2).pages.map (·.day) = d.pages.map (·.day) := by
        rw [hpages]
        simp [pages]
      rw [hdays, hmem, h.days, hsame]
      exact ⟨.inl, fun hor => hor.elim id fun heq => heq ▸ hknown⟩
    · rw [hpages] at hp
      rcases List.mem_append.mp hp with hclosed | htoday
      · exact hearlier p (List.mem_append_left _ hclosed) (hsame ▸ h.ordered.day_lt hclosed)
      · have htext := h.texts d.today (by simp [pages])
        rw [List.mem_singleton.mp htoday, writtenOn_append_singleton, if_pos hsame]
        exact congrArg (· ++ e.2) htext

theorem run_files {first : Int} {entries : List (Int × Text)}
    (hdays : (first :: entries.map (·.1)).Pairwise (· ≤ ·)) :
    ((start first []).run 0 entries).Files first entries := by
  induction entries using List.reverseRecOn with
  | nil =>
    exact ⟨start_ordered first [], by simp [run, start, pages],
      by simp [run, start, pages, writtenOn]⟩
  | append_singleton entries e ih =>
    rw [List.map_append, ← List.cons_append, List.pairwise_append] at hdays
    rw [run_append_singleton]
    exact (ih hdays.1).write fun day hday => hdays.2.2 day hday e.1 (by simp)

theorem Files.days_eq {d : Diary} {first : Int} {entries : List (Int × Text)}
    (h : d.Files first entries) (hdays : (first :: entries.map (·.1)).Pairwise (· ≤ ·)) :
    d.pages.map (·.day) = (first :: entries.map (·.1)).dedup := by
  have hdedup : (first :: entries.map (·.1)).dedup.Pairwise (· ≤ ·) :=
    hdays.sublist (List.dedup_sublist _)
  have hperm : (d.pages.map (·.day)).Perm (first :: entries.map (·.1)).dedup :=
    (List.perm_ext_iff_of_nodup (h.ordered.imp Int.ne_of_lt) (List.nodup_dedup _)).mpr
      fun day => (h.days day).trans List.mem_dedup.symm
  exact hperm.eq_of_pairwise (fun _ _ _ _ => Int.le_antisymm) (h.ordered.imp Int.le_of_lt) hdedup

theorem Files.today_day_eq {d : Diary} {first : Int} {entries : List (Int × Text)}
    (h : d.Files first entries) (hdays : (first :: entries.map (·.1)).Pairwise (· ≤ ·)) :
    d.today.day = (first :: entries.map (·.1)).getLast (List.cons_ne_nil _ _) := by
  have hlast := List.getLast_mem (List.cons_ne_nil first (entries.map (·.1)))
  have hknown : d.today.day ∈ first :: entries.map (·.1) := (h.days _).mp (by simp [pages])
  obtain ⟨p, hp, hpday⟩ := List.mem_map.mp ((h.days _).mpr hlast)
  refine Int.le_antisymm ?_ (hpday ▸ h.ordered.day_le hp)
  rw [← List.dropLast_append_getLast (List.cons_ne_nil first (entries.map (·.1)))] at hdays hknown
  rcases List.mem_append.mp hknown with hbefore | htoday
  · exact (List.pairwise_append.mp hdays).2.2 _ hbefore _ (List.mem_singleton.mpr rfl)
  · exact Int.le_of_eq (List.mem_singleton.mp htoday)

/-- A page is left for each of the newest days that are over, with the entries of that day. -/
theorem run_eq {first : Int} {entries : List (Int × Text)}
    (hdays : (first :: entries.map (·.1)).Pairwise (· ≤ ·)) (keep : Nat) :
    let today := (first :: entries.map (·.1)).getLast (List.cons_ne_nil _ _)
    (start first []).run keep entries =
      ⟨(newest keep ((first :: entries.map (·.1)).dedup.filter (· < today))).map
        fun day => ⟨day, writtenOn day entries⟩, ⟨today, writtenOn today entries⟩⟩ := by
  intro today
  have hfiles := run_files hdays
  set d := (start first []).run 0 entries with hd
  have htoday : d.today = ⟨today, writtenOn today entries⟩ := by
    have htext := hfiles.texts d.today (by simp [pages])
    rw [hfiles.today_day_eq hdays] at htext
    exact congrArg₂ Page.mk (hfiles.today_day_eq hdays) htext
  have hclosed : d.closed.map (·.day) = (first :: entries.map (·.1)).dedup.filter (· < today) := by
    rw [← hfiles.days_eq hdays, pages, List.map_append, List.filter_append]
    have hall : (d.closed.map (·.day)).filter (· < today) = d.closed.map (·.day) := by
      rw [List.filter_eq_self]
      intro day hday
      obtain ⟨p, hp, rfl⟩ := List.mem_map.mp hday
      have hlt := hfiles.ordered.day_lt hp
      rw [htoday] at hlt
      exact decide_eq_true hlt
    simp [hall, htoday]
  have hpages : d.closed = (d.closed.map (·.day)).map fun day => ⟨day, writtenOn day entries⟩ := by
    rw [List.map_map]
    conv_lhs => rw [← List.map_id d.closed]
    refine List.map_congr_left fun p hp => ?_
    exact congrArg (Page.mk p.day) (hfiles.texts p (List.mem_append_left _ hp))
  rw [run_keep, ← hd, htoday, hpages, hclosed, map_newest]

end Diary

end StructuredLog
