import StructuredLog.Proofs.Number.Digits
import StructuredLog.Proofs.Text.Order
import StructuredLog.Time.Instant

/-!
# The order of dates

A later day has a later date, and while years have four digits the texts of dates are ordered as
the days are. An instant lies before the midnight that ends a day exactly if its own local day is
not a later one. Main statements: `le_dayText_iff` and `lt_nextMidnight_iff`.
-/

namespace StructuredLog

namespace Decimal

open Text

theorem padded_one {n : Nat} (h : n < 10) : padded 1 n = [digit n] := by
  simp [padded, ofNat_of_lt h]

theorem padded_succ {width n : Nat} (hwidth : 0 < width) :
    padded (width + 1) n = padded width (n / 10) ++ [digit (n % 10)] := by
  rcases Nat.lt_or_ge n 10 with hlt | hle
  · have hdiv : n / 10 = 0 := Nat.div_eq_of_lt hlt
    have hzeros : List.replicate width (48 : UInt8) = List.replicate (width - 1) 48 ++ [48] := by
      rw [← List.replicate_succ']
      congr 1
      omega
    have hzero : ofNat 0 = [48] := rfl
    simp [padded, hdiv, ofNat_of_lt hlt, hzero, Nat.mod_eq_of_lt hlt, hzeros]
  · rw [padded, ofNat_of_le hle, List.length_append, List.length_singleton, Nat.add_sub_add_right,
      ← List.append_assoc, padded]

theorem length_padded {width n : Nat} (hwidth : 0 < width) (h : n < 10 ^ width) :
    (padded width n).length = width := by
  induction width generalizing n with
  | zero => exact absurd hwidth (Nat.lt_irrefl 0)
  | succ width ih =>
    rcases Nat.eq_zero_or_pos width with rfl | hpos
    · rw [padded_one (by simpa using h), List.length_singleton]
    · have hdiv : n / 10 < 10 ^ width := by
        rw [Nat.pow_succ] at h
        omega
      rw [padded_succ hpos, List.length_append, ih hpos hdiv, List.length_singleton]

theorem before_padded {width m n : Nat} (hwidth : 0 < width) (h : m < n) (hn : n < 10 ^ width)
    (s t : Text) : Before (padded width m ++ s) (padded width n ++ t) := by
  induction width generalizing m n s t with
  | zero => exact absurd hwidth (Nat.lt_irrefl 0)
  | succ width ih =>
    have hdigit : ∀ {d e : Nat}, d < e → e < 10 → digit d < digit e := by
      intro d e hde he
      rw [UInt8.lt_iff_toNat_lt, toNat_digit (by omega), toNat_digit he]
      omega
    rcases Nat.eq_zero_or_pos width with rfl | hpos
    · have hn' : n < 10 := by simpa using hn
      rw [padded_one (by omega), padded_one hn']
      exact before_cons (hdigit h hn') s t
    · have hdiv : n / 10 < 10 ^ width := by
        rw [Nat.pow_succ] at hn
        omega
      rw [padded_succ hpos, padded_succ hpos, List.append_assoc, List.append_assoc]
      rcases Nat.lt_or_ge (m / 10) (n / 10) with hlt | hge
      · exact ih hpos hlt hdiv _ _
      · -- The numbers differ in their last digit only.
        rw [show n / 10 = m / 10 by omega, before_append_left]
        exact before_cons (hdigit (by omega) (by omega)) s t

end Decimal

namespace Calendar

open Text Decimal

theorem cycleDays_pos : 0 < cycleDays := by decide

theorem cycleDays_ne_zero : cycleDays ≠ 0 := by decide

def yearOfCycle (day : Int) : Int := (day - day / 1460 + day / 36524 - day / 146096) / 365

def daysBefore (year : Int) : Int := 365 * year + year / 4 - year / 100

/-- Before the cycle's last day, the leap day of the year 400, every century has 36524 days, and
four years have 1461 once a day is put in for each century that ended without one. -/
theorem yearOfCycle_of_lt {day : Int} (hday : 0 ≤ day) (hlt : day < 146096) :
    yearOfCycle day = (day - day / 1460 + day / 36524) / 365 ∧
      yearOfCycle day / 100 = day / 36524 ∧
      yearOfCycle day / 4 = (day + day / 36524) / 1461 := by
  have hyear : yearOfCycle day = (day - day / 1460 + day / 36524) / 365 := by
    rw [yearOfCycle, Int.ediv_eq_zero_of_lt hday hlt, Int.sub_zero]
  exact ⟨hyear, by omega, by omega⟩

theorem yearOfCycle_bounds {day : Int} (hday : 0 ≤ day) (hcycle : day < cycleDays) :
    0 ≤ yearOfCycle day ∧ yearOfCycle day < 400 ∧ daysBefore (yearOfCycle day) ≤ day ∧
      day ≤ daysBefore (yearOfCycle day) + 365 := by
  rw [cycleDays] at hcycle
  rcases Int.lt_or_eq_of_le (show day ≤ 146096 by omega) with hlt | rfl
  · obtain ⟨hyear, hcentury, hleap⟩ := yearOfCycle_of_lt hday hlt
    rw [daysBefore]
    omega
  · decide

theorem yearOfCycle_mono {day day' : Int} (h : day ≤ day') :
    yearOfCycle day ≤ yearOfCycle day' := by
  have hleap : day - day / 1460 ≤ day' - day' / 1460 := by omega
  have hcentury : day / 36524 - day / 146096 ≤ day' / 36524 - day' / 146096 := by omega
  exact Int.ediv_le_ediv (by decide) (by omega)

/-- A year that begins in March, and a day of it from zero on. -/
structure MarchDate where
  year : Int
  day : Int

def marchDate (n : Int) : MarchDate :=
  let day := (n + epochShift) % cycleDays
  ⟨yearOfCycle day + (n + epochShift) / cycleDays * 400, day - daysBefore (yearOfCycle day)⟩

theorem marchDate_bounds (n : Int) : 0 ≤ (marchDate n).day ∧ (marchDate n).day ≤ 365 := by
  have hbounds := yearOfCycle_bounds (Int.emod_nonneg (n + epochShift) cycleDays_ne_zero)
    (Int.emod_lt_of_pos _ cycleDays_pos)
  simp only [marchDate]
  omega

theorem marchDate_lt {m n : Int} (h : m < n) :
    (marchDate m).year < (marchDate n).year ∨
      (marchDate m).year = (marchDate n).year ∧ (marchDate m).day < (marchDate n).day := by
  have hm := Int.emod_nonneg (m + epochShift) cycleDays_ne_zero
  have hn := Int.emod_lt_of_pos (n + epochShift) cycleDays_pos
  have hmbounds := yearOfCycle_bounds hm (Int.emod_lt_of_pos _ cycleDays_pos)
  have hnbounds := yearOfCycle_bounds (Int.emod_nonneg _ cycleDays_ne_zero) hn
  have hdiv : (m + epochShift) / cycleDays ≤ (n + epochShift) / cycleDays :=
    Int.ediv_le_ediv cycleDays_pos (by omega)
  simp only [marchDate]
  rcases Int.lt_or_eq_of_le hdiv with hlt | heq
  · left
    omega
  · have hday : (m + epochShift) % cycleDays < (n + epochShift) % cycleDays := by
      have hmsplit := Int.emod_add_mul_ediv (m + epochShift) cycleDays
      have hnsplit := Int.emod_add_mul_ediv (n + epochShift) cycleDays
      rw [heq] at hmsplit
      omega
    rw [heq]
    rcases Int.lt_or_eq_of_le (yearOfCycle_mono (Int.le_of_lt hday)) with hlt | hsame
    · exact .inl (by omega)
    · right
      rw [hsame]
      omega

def MarchDate.date (d : MarchDate) : Date :=
  let marchMonth := (5 * d.day + 2) / 153
  let month := if marchMonth < 10 then marchMonth + 3 else marchMonth - 9
  ⟨d.year + (if month ≤ 2 then 1 else 0), month.toNat,
    (d.day - (153 * marchMonth + 2) / 5 + 1).toNat⟩

theorem dateOfDays_eq (n : Int) : dateOfDays n = (marchDate n).date := rfl

theorem MarchDate.date_bounds {d : MarchDate} (h : 0 ≤ d.day) (h' : d.day ≤ 365) :
    d.year ≤ d.date.year ∧ d.date.year ≤ d.year + 1 ∧ d.date.month < 100 ∧ d.date.day < 100 := by
  simp only [MarchDate.date]
  omega

theorem MarchDate.date_lt {d e : MarchDate} (hd : 0 ≤ d.day) (hd' : d.day ≤ 365) (he : 0 ≤ e.day)
    (he' : e.day ≤ 365) (h : d.year < e.year ∨ d.year = e.year ∧ d.day < e.day) :
    d.date.year < e.date.year ∨ d.date.year = e.date.year ∧
      (d.date.month < e.date.month ∨ d.date.month = e.date.month ∧ d.date.day < e.date.day) := by
  simp only [MarchDate.date]
  omega

def MarchDate.count (d : MarchDate) : Int :=
  d.year / 400 * cycleDays + daysBefore (d.year % 400) + d.day - epochShift

theorem count_marchDate (n : Int) : (marchDate n).count = n := by
  obtain ⟨hyear, hyear', -, -⟩ :=
    yearOfCycle_bounds (Int.emod_nonneg (n + epochShift) cycleDays_ne_zero)
    (Int.emod_lt_of_pos _ cycleDays_pos)
  have hsplit := Int.emod_add_mul_ediv (n + epochShift) cycleDays
  have hcycle : (marchDate n).year / 400 = (n + epochShift) / cycleDays := by
    simp only [marchDate]
    omega
  have hrest : (marchDate n).year % 400 = yearOfCycle ((n + epochShift) % cycleDays) := by
    simp only [marchDate]
    omega
  rw [MarchDate.count, hcycle, hrest]
  simp only [marchDate]
  rw [Int.mul_comm]
  omega

theorem MarchDate.daysOfDate_date {d : MarchDate} (h : 0 ≤ d.day) (h' : d.day ≤ 365) :
    daysOfDate d.date = d.count := by
  have hyear : (if d.date.month ≤ 2 then d.date.year - 1 else d.date.year) = d.year := by
    simp only [MarchDate.date]
    omega
  have hday :
      (153 * (if d.date.month ≤ 2 then (d.date.month : Int) + 9 else d.date.month - 3) + 2) / 5
        + d.date.day - 1 = d.day := by
    simp only [MarchDate.date]
    omega
  simp only [daysOfDate, hyear, hday, MarchDate.count, daysBefore]
  omega

theorem daysOfDate_dateOfDays (n : Int) : daysOfDate (dateOfDays n) = n := by
  rw [dateOfDays_eq, MarchDate.daysOfDate_date (marchDate_bounds n).1 (marchDate_bounds n).2,
    count_marchDate]

theorem daysOfDate_add (d : Date) (k : Nat) :
    daysOfDate { d with day := d.day + k } = daysOfDate d + k := by
  simp only [daysOfDate]
  omega

def dayText (n : Int) : Text := (dateOfDays n).text

def FourDigit (n : Int) : Prop := 0 ≤ n + epochShift ∧ n + epochShift < 24 * cycleDays

theorem FourDigit.bounds {n : Int} (h : FourDigit n) : 0 ≤ (dateOfDays n).year ∧
    (dateOfDays n).year < 10000 ∧ (dateOfDays n).month < 100 ∧ (dateOfDays n).day < 100 := by
  obtain ⟨hlow, hhigh⟩ := h
  have hcycle := yearOfCycle_bounds (Int.emod_nonneg (n + epochShift) cycleDays_ne_zero)
    (Int.emod_lt_of_pos _ cycleDays_pos)
  have hdiv : 0 ≤ (n + epochShift) / cycleDays := Int.ediv_nonneg hlow (Int.le_of_lt cycleDays_pos)
  have hdiv' : (n + epochShift) / cycleDays < 24 := Int.ediv_lt_of_lt_mul cycleDays_pos hhigh
  have hyear : 0 ≤ (marchDate n).year ∧ (marchDate n).year < 9600 := by
    simp only [marchDate]
    omega
  have hdate := MarchDate.date_bounds (marchDate_bounds n).1 (marchDate_bounds n).2
  rw [dateOfDays_eq]
  omega

theorem text_eq {d : Date} (h : 0 ≤ d.year) : d.text =
    padded 4 d.year.toNat ++ (45 :: (padded 2 d.month ++ (45 :: padded 2 d.day))) := by
  obtain ⟨year, hyear⟩ := Int.eq_ofNat_of_zero_le h
  simp [Date.text, hyear, paddedInt]

theorem before_dayText {m n : Int} (hm : FourDigit m) (hn : FourDigit n) (h : m < n) :
    Before (dayText m) (dayText n) := by
  obtain ⟨hmyear, -, -, -⟩ := hm.bounds
  obtain ⟨hnyear, hnyear', hnmonth, hnday⟩ := hn.bounds
  have hlt := MarchDate.date_lt (marchDate_bounds m).1 (marchDate_bounds m).2 (marchDate_bounds n).1
    (marchDate_bounds n).2 (marchDate_lt h)
  rw [← dateOfDays_eq, ← dateOfDays_eq] at hlt
  rw [dayText, dayText, text_eq hmyear, text_eq hnyear]
  rcases hlt with hyear | ⟨hyear, hlt⟩
  · exact before_padded (by decide) (by omega) (by omega) _ _
  rw [hyear, before_append_left, before_cons_self]
  rcases hlt with hmonth | ⟨hmonth, hday⟩
  · exact before_padded (by decide) hmonth (by omega) _ _
  rw [hmonth, before_append_left, before_cons_self]
  simpa using before_padded (by decide) hday (by omega) [] []

theorem dayText_injective {m n : Int} (hm : FourDigit m) (hn : FourDigit n)
    (h : dayText m = dayText n) : m = n := by
  rcases Int.lt_trichotomy m n with hlt | heq | hgt
  · exact absurd h (before_dayText hm hn hlt).ne
  · exact heq
  · exact absurd h.symm (before_dayText hn hm hgt).ne

theorem le_dayText_iff {m n : Int} (hm : FourDigit m) (hn : FourDigit n) :
    Text.le (dayText m) (dayText n) = true ↔ m ≤ n := by
  constructor
  · intro hle
    by_contra hgt
    have hbefore := before_dayText hn hm (Int.not_le.mp hgt)
    rw [Before, hle] at hbefore
    cases hbefore
  · intro hle
    rcases Int.lt_or_eq_of_le hle with hlt | rfl
    · exact (before_dayText hm hn hlt).le
    · exact Text.le_refl _

theorem length_dayText {n : Int} (h : FourDigit n) : (dayText n).length = 10 := by
  obtain ⟨hyear, hyear', hmonth, hday⟩ := h.bounds
  rw [dayText, text_eq hyear]
  simp only [List.length_append, List.length_cons]
  rw [length_padded (by decide) (by omega), length_padded (by decide) (by omega),
    length_padded (by decide) (by omega)]

theorem getElem?_dayText {n : Int} (h : FourDigit n) :
    (dayText n)[4]? = some 45 ∧ (dayText n)[7]? = some 45 := by
  obtain ⟨hyear, hyear', hmonth, hday⟩ := h.bounds
  have hyearLength : (padded 4 (dateOfDays n).year.toNat).length = 4 :=
    length_padded (by decide) (by omega)
  have hmonthLength : (padded 2 (dateOfDays n).month).length = 2 :=
    length_padded (by decide) (by omega)
  rw [dayText, text_eq hyear]
  constructor
  · rw [List.getElem?_append_right (by omega), hyearLength]
    rfl
  · rw [List.getElem?_append_right (by omega), hyearLength]
    show (padded 2 (dateOfDays n).month ++ _)[2]? = _
    rw [List.getElem?_append_right (by omega), hmonthLength]
    rfl

theorem length_timeText {n : Nat} (h : n < 86400) : (timeText n).length = 8 := by
  simp only [timeText, List.length_append, List.length_cons, List.length_nil]
  rw [length_padded (by decide) (by omega), length_padded (by decide) (by omega),
    length_padded (by decide) (by omega)]

theorem before_timeText {m n : Nat} (h : m < n) (hn : n < 86400) :
    Before (timeText m) (timeText n) := by
  simp only [timeText, List.append_assoc, List.cons_append, List.nil_append]
  rcases Nat.lt_or_ge (m / 3600) (n / 3600) with hlt | hge
  · exact before_padded (by decide) hlt (by omega) _ _
  rw [show n / 3600 = m / 3600 by omega, before_append_left, before_cons_self]
  rcases Nat.lt_or_ge (m / 60 % 60) (n / 60 % 60) with hlt | hge
  · exact before_padded (by decide) hlt (by omega) _ _
  rw [show n / 60 % 60 = m / 60 % 60 by omega, before_append_left, before_cons_self]
  simpa using before_padded (by decide) (show m % 60 < n % 60 by omega) (by omega) [] []

theorem timeText_injective {m n : Nat} (hm : m < 86400) (hn : n < 86400)
    (h : timeText m = timeText n) : m = n := by
  rcases Nat.lt_trichotomy m n with hlt | heq | hgt
  · exact absurd h (before_timeText hlt hn).ne
  · exact heq
  · exact absurd h.symm (before_timeText hgt hm).ne

end Calendar

namespace Instant

open Calendar

/-- Minutes between local time and UTC that leave years with four digits. -/
def IsOffset (offset : Int) : Prop := -1000000000 ≤ offset ∧ offset ≤ 1000000000

/-- The midnight that ends a local day, as a number that does not wrap around. -/
def midnightAfter (offset day : Int) : Int := ((day + 1) * 86400 - 60 * offset) * 1000000000

/-- An instant from the epoch on whose next midnight is representable. -/
structure HasMidnight (offset : Int) (t : Int) : Prop where
  nonneg : 0 ≤ t
  midnight_lt : midnightAfter offset (localDay offset t) < 9223372036854775808

theorem localDay_bounds (offset : Int) {t : Int} (h : 0 ≤ t) :
    localDay offset t * 86400 ≤ t / 1000000000 + 60 * offset ∧
      t / 1000000000 + 60 * offset < (localDay offset t + 1) * 86400 := by
  rw [localDay, localSeconds, seconds, Int.tdiv_eq_ediv_of_nonneg h]
  omega

theorem lt_midnightAfter_iff {offset day : Int} {t : Int} (h : 0 ≤ t) :
    t < midnightAfter offset day ↔ localDay offset t ≤ day := by
  have hbounds := localDay_bounds offset h
  rw [midnightAfter]
  omega

theorem localDay_mono (offset : Int) {t t' : Int} (h : 0 ≤ t) (hle : t ≤ t') :
    localDay offset t ≤ localDay offset t' := by
  have hbounds := localDay_bounds offset h
  have hbounds' := localDay_bounds offset (Int.le_trans h hle)
  omega

theorem HasMidnight.of_le {offset : Int} {t t' : Int} (h : HasMidnight offset t') (ht : 0 ≤ t)
    (hle : t ≤ t') : HasMidnight offset t := by
  have hday := localDay_mono offset ht hle
  have hmidnight := h.midnight_lt
  refine ⟨ht, ?_⟩
  rw [midnightAfter] at hmidnight ⊢
  omega

theorem nextMidnight_eq_wrap (offset : Int) (t : Instant) :
    nextMidnight offset t = wrap (midnightAfter offset (localDay offset t)) := by
  rw [nextMidnight, daysOfDate_add, daysOfDate_dateOfDays]
  rfl

theorem HasMidnight.nextMidnight_eq {offset : Int} {t : Int} (h : HasMidnight offset t) :
    nextMidnight offset t = midnightAfter offset (localDay offset t) := by
  have hlow : t < midnightAfter offset (localDay offset t) :=
    (lt_midnightAfter_iff h.nonneg).mpr (Int.le_refl _)
  have hnonneg := h.nonneg
  have hhigh := h.midnight_lt
  rw [nextMidnight_eq_wrap, wrap]
  rw [midnightAfter] at hlow hhigh ⊢
  exact Int.bmod_eq_of_le (by omega) (by omega)

theorem HasMidnight.lt_nextMidnight_iff {offset : Int} {start t : Int}
    (h : HasMidnight offset start)
    (ht : 0 ≤ t) : t < nextMidnight offset start ↔ localDay offset t ≤ localDay offset start := by
  rw [h.nextMidnight_eq]
  exact lt_midnightAfter_iff ht

/-- Before the next midnight it is the same day, also where the number that stands for that midnight
has wrapped around. -/
theorem localDay_eq_of_lt_nextMidnight {offset : Int} {start t : Int} (hstart : 0 ≤ start)
    (hle : start ≤ t) (hword : t < 9223372036854775808) (h : t < nextMidnight offset start) :
    localDay offset t = localDay offset start := by
  refine Int.le_antisymm ((lt_midnightAfter_iff (Int.le_trans hstart hle)).mp ?_)
    (localDay_mono offset hstart hle)
  have hbounds := localDay_bounds offset hstart
  rw [nextMidnight_eq_wrap, wrap, Int.bmod_def] at h
  rw [midnightAfter] at h ⊢
  split_ifs at h <;> omega

theorem localDay_ofSeconds_floorSeconds (offset : Int) {t : Int} (h : 0 ≤ t)
    (hword : t < 9223372036854775808) : ofSeconds (floorSeconds t) ≤ t ∧
      localDay offset (ofSeconds (floorSeconds t)) = localDay offset t := by
  have hwhole : ofSeconds (floorSeconds t) = t / 1000000000 * 1000000000 := by
    rw [ofSeconds, wrap, floorSeconds]
    exact Int.bmod_eq_of_le (by omega) (by omega)
  have hnonneg : 0 ≤ t / 1000000000 * 1000000000 := by omega
  rw [hwhole]
  refine ⟨Int.ediv_mul_le t (by decide), ?_⟩
  have hbounds := localDay_bounds offset h
  have hbounds' := localDay_bounds offset hnonneg
  omega

theorem HasMidnight.fourDigit {offset : Int} {t : Int} (hoffset : IsOffset offset)
    (h : HasMidnight offset t) : FourDigit (localDay offset t) := by
  obtain ⟨hlow, hhigh⟩ := hoffset
  have hbounds := localDay_bounds offset h.nonneg
  have hnonneg := h.nonneg
  have hmidnight := h.midnight_lt
  rw [midnightAfter] at hmidnight
  rw [FourDigit, epochShift, cycleDays]
  omega

end Instant

end StructuredLog
