import Mathlib.Tactic.IntervalCases
import StructuredLog.Proofs.Time.Dates

/-!
# The rules of the calendar

Which years are leap years, how long a month is and which date comes after a date, each said by
itself. By these rules the days up to a date are counted from whole years, whole months and the day
of the month. Counting them from March to March comes to the same, and leads through the valid dates
one after another. Main statements: `daysOfDate_eq_number` and `dateOfDays_succ`.
-/

namespace StructuredLog.Calendar

def IsLeap (year : Int) : Prop := year % 4 = 0 ∧ (year % 100 = 0 → year % 400 = 0)

instance (year : Int) : Decidable (IsLeap year) := inferInstanceAs (Decidable (_ ∧ _))

def yearLength (year : Int) : Nat := if IsLeap year then 366 else 365

def monthLength (year : Int) (month : Nat) : Nat :=
  if month = 2 then if IsLeap year then 29 else 28
  else if month ∈ [4, 6, 9, 11] then 30 else 31

def daysBeforeYear (year : Int) : Int :=
  365 * (year - 1) + (year - 1) / 4 - (year - 1) / 100 + (year - 1) / 400

def daysBeforeMonth (year : Int) (month : Nat) : Nat :=
  ((List.range (month - 1)).map fun m => monthLength year (m + 1)).sum

namespace Date

structure Valid (d : Date) : Prop where
  month_pos : 1 ≤ d.month
  month_le : d.month ≤ 12
  day_pos : 1 ≤ d.day
  day_le : d.day ≤ monthLength d.year d.month

def next (d : Date) : Date :=
  if d.day < monthLength d.year d.month then ⟨d.year, d.month, d.day + 1⟩
  else if d.month < 12 then ⟨d.year, d.month + 1, 1⟩
  else ⟨d.year + 1, 1, 1⟩

def number (d : Date) : Int :=
  daysBeforeYear d.year - daysBeforeYear 1970 + daysBeforeMonth d.year d.month + (d.day - 1)

end Date

theorem monthLength_pos (year : Int) (month : Nat) : 1 ≤ monthLength year month := by
  rw [monthLength]
  split_ifs <;> decide

theorem daysBeforeYear_succ (year : Int) :
    daysBeforeYear (year + 1) = daysBeforeYear year + yearLength year := by
  rw [yearLength, daysBeforeYear, daysBeforeYear]
  split_ifs with hleap <;> rw [IsLeap] at hleap <;> omega

theorem daysBeforeYear_lt {year year' : Int} (h : year < year') :
    daysBeforeYear year + yearLength year ≤ daysBeforeYear year' := by
  rw [← daysBeforeYear_succ, daysBeforeYear, daysBeforeYear]
  omega

theorem daysBeforeMonth_succ {month : Nat} (h : 1 ≤ month) (year : Int) :
    daysBeforeMonth year (month + 1) = daysBeforeMonth year month + monthLength year month := by
  obtain ⟨m, rfl⟩ := Nat.exists_eq_add_of_le' h
  simp [daysBeforeMonth, List.range_succ]

theorem daysBeforeMonth_lt {month month' : Nat} (hpos : 1 ≤ month) (h : month < month')
    (year : Int) :
    daysBeforeMonth year month + monthLength year month ≤ daysBeforeMonth year month' := by
  induction month', h using Nat.le_induction with
  | base => exact (daysBeforeMonth_succ hpos year).ge
  | succ month' hle ih =>
    rw [daysBeforeMonth_succ (by omega)]
    exact Nat.le_add_right_of_le ih

theorem daysBeforeMonth_thirteen (year : Int) : daysBeforeMonth year 13 = yearLength year := by
  simp only [daysBeforeMonth, monthLength, yearLength]
  by_cases h : IsLeap year <;> simp [h, List.range_succ]

namespace Date

variable {d e : Date}

theorem Valid.next (h : d.Valid) : d.next.Valid := by
  obtain ⟨hmonth, hmonth', hday, hday'⟩ := h
  rw [Date.next]
  split_ifs with hlast hyear
  · exact ⟨hmonth, hmonth', Nat.le_add_left 1 _, hlast⟩
  · exact ⟨Nat.le_add_left 1 _, hyear, Nat.le_refl 1, monthLength_pos _ _⟩
  · exact ⟨Nat.le_refl 1, Nat.le_add_left 1 11, Nat.le_refl 1, monthLength_pos _ _⟩

theorem Valid.number_next (h : d.Valid) : d.next.number = d.number + 1 := by
  obtain ⟨hmonth, hmonth', hday, hday'⟩ := h
  rw [Date.next]
  split_ifs with hlast hyear
  · simp only [number]
    omega
  · have hend : d.day = monthLength d.year d.month := by omega
    simp only [number, daysBeforeMonth_succ hmonth, hend]
    omega
  · have hend : d.day = monthLength d.year d.month := by omega
    have hdecember : d.month = 12 := by omega
    have hall := daysBeforeMonth_thirteen d.year
    have hfirst : daysBeforeMonth (d.year + 1) 1 = 0 := rfl
    rw [daysBeforeMonth_succ (by decide)] at hall
    simp only [number, daysBeforeYear_succ, hend, hdecember, hfirst]
    omega

theorem Valid.le_yearLength (h : d.Valid) :
    daysBeforeMonth d.year d.month + d.day ≤ yearLength d.year := by
  have hrest := daysBeforeMonth_lt h.month_pos (Nat.lt_succ_of_le h.month_le) d.year
  rw [daysBeforeMonth_thirteen] at hrest
  exact Nat.le_trans (Nat.add_le_add_left h.day_le _) hrest

theorem Valid.number_lt_of_year_lt (hd : d.Valid) (he : e.Valid) (h : d.year < e.year) :
    d.number < e.number := by
  have hyears := daysBeforeYear_lt h
  have hend := hd.le_yearLength
  have hday := he.day_pos
  simp only [number]
  omega

theorem Valid.number_lt_of_month_lt (hd : d.Valid) (he : e.Valid) (hyear : d.year = e.year)
    (h : d.month < e.month) : d.number < e.number := by
  have hmonths := daysBeforeMonth_lt hd.month_pos h d.year
  have hend := hd.day_le
  have hday := he.day_pos
  simp only [number, ← hyear]
  omega

theorem Valid.number_injective (hd : d.Valid) (he : e.Valid) (h : d.number = e.number) : d = e := by
  have hyear : d.year = e.year := by
    rcases Int.lt_trichotomy d.year e.year with hlt | heq | hlt
    · exact absurd h (hd.number_lt_of_year_lt he hlt).ne
    · exact heq
    · exact absurd h (he.number_lt_of_year_lt hd hlt).ne'
  have hmonth : d.month = e.month := by
    rcases Nat.lt_trichotomy d.month e.month with hlt | heq | hlt
    · exact absurd h (hd.number_lt_of_month_lt he hyear hlt).ne
    · exact heq
    · exact absurd h (he.number_lt_of_month_lt hd hyear.symm hlt).ne'
  have hday : d.day = e.day := by
    simp only [number, hyear, hmonth] at h
    omega
  obtain ⟨year, month, day⟩ := d
  obtain ⟨year', month', day'⟩ := e
  cases hyear
  cases hmonth
  cases hday
  rfl

end Date

/-- Counting from March to March comes to the same as counting from January on. -/
theorem daysOfDate_eq_number {d : Date} (hpos : 1 ≤ d.month) (hle : d.month ≤ 12) :
    daysOfDate d = d.number := by
  obtain ⟨year, month, day⟩ := d
  have hcycles : ∀ y : Int, y / 400 * cycleDays + y % 400 * 365 + y % 400 / 4 - y % 400 / 100 =
      365 * y + y / 4 - y / 100 + y / 400 := by
    intro y
    rw [cycleDays]
    omega
  have hfebruary : (if IsLeap year then 29 else 28 : Int) =
      365 * year + year / 4 - year / 100 + year / 400 - daysBeforeYear year - 337 := by
    simp only [daysBeforeYear, IsLeap]
    split_ifs <;> omega
  simp only [daysOfDate, Date.number, hcycles]
  dsimp only at hpos hle
  interval_cases month <;>
    simp [daysBeforeMonth, monthLength, List.range_succ, hfebruary, daysBeforeYear, epochShift] <;>
    omega

theorem lt_daysBefore_succ {day : Int} (hday : 0 ≤ day) (hcycle : day < cycleDays) :
    day < daysBefore (yearOfCycle day + 1) + if yearOfCycle day = 399 then 1 else 0 := by
  rw [cycleDays] at hcycle
  rcases Int.lt_or_eq_of_le (show day ≤ 146096 by omega) with hlt | rfl
  · obtain ⟨hyear, hcentury, hleap⟩ := yearOfCycle_of_lt hday hlt
    rcases (show yearOfCycle day % 4 ≠ 3 ∨ yearOfCycle day % 4 = 3 by omega) with hfour | hfour
    · have hleap' : (yearOfCycle day + 1) / 4 = yearOfCycle day / 4 := by omega
      have hcentury' : (yearOfCycle day + 1) / 100 = yearOfCycle day / 100 := by omega
      rw [daysBefore, hleap', hcentury']
      split_ifs <;> omega
    · have hleap' : (yearOfCycle day + 1) / 4 = yearOfCycle day / 4 + 1 := by omega
      rw [daysBefore, hleap']
      split_ifs <;> omega
  · decide

theorem MarchDate.valid_date {d : MarchDate} (h : 0 ≤ d.day) (h' : d.day ≤ 365)
    (hleap : d.day = 365 → IsLeap (d.year + 1)) : d.date.Valid := by
  obtain ⟨year, day⟩ := d
  dsimp only at h h' hleap
  have hfebruary : day ≤ 336 + (if IsLeap (year + 1) then 29 else 28) := by
    by_cases hlast : day = 365
    · rw [if_pos (hleap hlast)]
      omega
    · split_ifs <;> omega
  obtain ⟨marchMonth, hmonth⟩ : ∃ m : Int, (5 * day + 2) / 153 = m := ⟨_, rfl⟩
  have hlow : 0 ≤ marchMonth := by omega
  have hhigh : marchMonth ≤ 11 := by omega
  simp only [MarchDate.date, hmonth]
  interval_cases marchMonth <;> constructor <;> simp [monthLength] <;> omega

theorem isLeap_of_day_eq {n : Int} (h : (marchDate n).day = 365) :
    IsLeap ((marchDate n).year + 1) := by
  have hnonneg := Int.emod_nonneg (n + epochShift) cycleDays_ne_zero
  have hlt := Int.emod_lt_of_pos (n + epochShift) cycleDays_pos
  have hbounds := yearOfCycle_bounds hnonneg hlt
  have hnext := lt_daysBefore_succ hnonneg hlt
  simp only [marchDate, daysBefore, IsLeap] at h hnext ⊢
  split_ifs at hnext <;> omega

theorem valid_dateOfDays (n : Int) : (dateOfDays n).Valid := by
  rw [dateOfDays_eq]
  exact MarchDate.valid_date (marchDate_bounds n).1 (marchDate_bounds n).2 isLeap_of_day_eq

theorem number_dateOfDays (n : Int) : (dateOfDays n).number = n := by
  have hvalid := valid_dateOfDays n
  rw [← daysOfDate_eq_number hvalid.month_pos hvalid.month_le, daysOfDate_dateOfDays]

theorem dateOfDays_number {d : Date} (h : d.Valid) : dateOfDays d.number = d :=
  (valid_dateOfDays _).number_injective h (number_dateOfDays _)

theorem dateOfDays_succ (n : Int) : dateOfDays (n + 1) = (dateOfDays n).next := by
  have hvalid := valid_dateOfDays n
  rw [← dateOfDays_number hvalid.next, hvalid.number_next, number_dateOfDays]

end StructuredLog.Calendar
