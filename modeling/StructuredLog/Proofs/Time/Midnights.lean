import StructuredLog.Proofs.Time.Gregorian

/-!
# Midnights

At a fixed offset from UTC a midnight is an instant at which the clock face shows `00:00:00` and no
fraction of the second is gone. The next midnight of an instant is the first one after it, the date
changes at midnights and at no other time, and with every midnight it becomes the date that comes
after by the rules of the calendar. Main statement: `nextMidnight_begins_next_date`.
-/

namespace StructuredLog.Instant

open Calendar Text

variable {offset t u : Int}

def IsMidnight (offset : Int) (t : Instant) : Prop :=
  t % 1000000000 = 0 ∧ localTime offset t = ascii "00:00:00"

theorem midnightAfter_le_iff {day day' : Int} :
    midnightAfter offset day ≤ midnightAfter offset day' ↔ day ≤ day' := by
  rw [midnightAfter, midnightAfter]
  omega

theorem isMidnight_iff : IsMidnight offset t ↔ ∃ day, t = midnightAfter offset day := by
  have hzero : timeText 0 = ascii "00:00:00" := by decide
  constructor
  · rintro ⟨hwhole, htime⟩
    have hsecond : (localSeconds offset t % 86400).toNat = 0 :=
      timeText_injective (by omega) (by decide) (htime.trans hzero.symm)
    obtain ⟨second, rfl⟩ := Int.dvd_of_emod_eq_zero hwhole
    rw [localSeconds, seconds, Int.mul_tdiv_cancel_left _ (by decide)] at hsecond
    refine ⟨(second + 60 * offset) / 86400 - 1, ?_⟩
    show 1000000000 * second = _
    rw [midnightAfter]
    omega
  · rintro ⟨day, rfl⟩
    refine ⟨Int.mul_emod_left _ _, ?_⟩
    have hsecond : localSeconds offset (midnightAfter offset day) = (day + 1) * 86400 := by
      rw [localSeconds, seconds, midnightAfter, Int.mul_tdiv_cancel _ (by decide)]
      omega
    rw [localTime, hsecond, Int.mul_emod_left]
    exact hzero

theorem exists_isMidnight_iff (ht : 0 ≤ t) (hu : 0 ≤ u) :
    (∃ m, IsMidnight offset m ∧ t < m ∧ m ≤ u) ↔ localDay offset t < localDay offset u := by
  constructor
  · rintro ⟨m, hm, hlow, hhigh⟩
    obtain ⟨day, rfl⟩ := isMidnight_iff.mp hm
    have hlow' := (lt_midnightAfter_iff ht).mp hlow
    have hhigh' : ¬localDay offset u ≤ day :=
      mt (lt_midnightAfter_iff hu).mpr (Int.not_lt.mpr hhigh)
    omega
  · intro hlt
    refine ⟨_, isMidnight_iff.mpr ⟨localDay offset t, rfl⟩, (lt_midnightAfter_iff ht).mpr le_rfl,
      ?_⟩
    exact Int.not_lt.mp (mt (lt_midnightAfter_iff hu).mp (Int.not_le.mpr hlt))

theorem HasMidnight.isMidnight_nextMidnight (h : HasMidnight offset t) :
    IsMidnight offset (nextMidnight offset t) :=
  isMidnight_iff.mpr ⟨_, h.nextMidnight_eq⟩

theorem HasMidnight.lt_nextMidnight (h : HasMidnight offset t) : t < nextMidnight offset t :=
  (h.lt_nextMidnight_iff h.nonneg).mpr le_rfl

theorem HasMidnight.nextMidnight_le (h : HasMidnight offset t) {m : Int}
    (hm : IsMidnight offset m) (hlt : t < m) : nextMidnight offset t ≤ m := by
  obtain ⟨day, rfl⟩ := isMidnight_iff.mp hm
  have hday := (lt_midnightAfter_iff h.nonneg).mp hlt
  rw [h.nextMidnight_eq]
  exact midnightAfter_le_iff.mpr hday

theorem HasMidnight.nextMidnight_le_add (h : HasMidnight offset t) :
    nextMidnight offset t ≤ t + 24 * 60 * 60 * 1000000000 := by
  have hbounds := localDay_bounds offset h.nonneg
  rw [h.nextMidnight_eq]
  show midnightAfter offset _ ≤ t + 24 * 60 * 60 * 1000000000
  rw [midnightAfter]
  omega

theorem HasMidnight.localDay_nextMidnight (h : HasMidnight offset t) :
    localDay offset (nextMidnight offset t) = localDay offset t + 1 := by
  rw [h.nextMidnight_eq, localDay, localSeconds, seconds, midnightAfter,
    Int.mul_tdiv_cancel _ (by decide)]
  omega

theorem localDay_eq (offset : Int) (h : 0 ≤ t) :
    localDay offset t = (t + offset * 60 * 1000000000) / (24 * 60 * 60 * 1000000000) := by
  have hbounds := localDay_bounds offset h
  omega

theorem isOffset_of_lt_day (h : -1440 < offset) (h' : offset < 1440) : IsOffset offset :=
  ⟨by omega, by omega⟩

/-- At any offset below a day, for instants from the epoch on. The next midnight is the first
midnight after the instant, no more than a day away; by the count of days, the date of the instant
is the one that the calendar has for its day, and at the next midnight it is the one that comes
after. Two instants have one date exactly if no midnight lies between them, and a later date exactly
if the next midnight is a later one. -/
theorem nextMidnight_begins_next_date (hlow : -1440 < offset) (hhigh : offset < 1440) :
    (∀ t, HasMidnight offset t →
      t < nextMidnight offset t ∧ IsMidnight offset (nextMidnight offset t) ∧
      (∀ m, IsMidnight offset m → t < m → nextMidnight offset t ≤ m) ∧
      nextMidnight offset t ≤ t + 24 * 60 * 60 * 1000000000 ∧
      ∃ d : Date, d.Valid ∧
        d.number = (t + offset * 60 * 1000000000) / (24 * 60 * 60 * 1000000000) ∧
        localDate offset t = d.text ∧ localDate offset (nextMidnight offset t) = d.next.text) ∧
    ∀ t u, HasMidnight offset t → HasMidnight offset u →
      (t ≤ u → (localDate offset t = localDate offset u ↔
        ¬∃ m, IsMidnight offset m ∧ t < m ∧ m ≤ u)) ∧
      (Before (localDate offset t) (localDate offset u) ↔
        nextMidnight offset t < nextMidnight offset u) := by
  have hoffset := isOffset_of_lt_day hlow hhigh
  refine ⟨fun t ht => ?_, fun t u ht hu => ⟨fun hle => ?_, ?_⟩⟩
  · refine ⟨ht.lt_nextMidnight, ht.isMidnight_nextMidnight, fun m => ht.nextMidnight_le,
      ht.nextMidnight_le_add, dateOfDays (localDay offset t), valid_dateOfDays _, ?_, rfl, ?_⟩
    · rw [number_dateOfDays, localDay_eq offset ht.nonneg]
    · rw [localDate, ht.localDay_nextMidnight, dateOfDays_succ]
  · have hday := localDay_mono offset ht.nonneg hle
    rw [exists_isMidnight_iff ht.nonneg hu.nonneg, Int.not_lt]
    constructor
    · intro hdate
      exact (dayText_injective (ht.fourDigit hoffset) (hu.fourDigit hoffset) hdate).ge
    · intro hback
      rw [localDate, localDate, Int.le_antisymm hday hback]
  · have hmidnights : nextMidnight offset t < nextMidnight offset u ↔
        localDay offset t < localDay offset u := by
      rw [ht.nextMidnight_eq, hu.nextMidnight_eq, ← Int.not_le, ← Int.not_le]
      exact not_congr midnightAfter_le_iff
    rw [hmidnights]
    have hle := le_dayText_iff (hu.fourDigit hoffset) (ht.fourDigit hoffset)
    show Text.le (dayText _) (dayText _) = false ↔ _
    rw [← Bool.not_eq_true, hle, Int.not_le]

/-- An hour ahead of UTC, on a leap day and on the day after it. -/
theorem nextMidnight_begins_next_date_leapDay :
    HasMidnight 60 1709163000000000000 ∧ HasMidnight 60 1709247600000000000 ∧
      nextMidnight 60 1709163000000000000 = 1709247600000000000 ∧
      localDate 60 1709163000000000000 = ascii "2024-02-29" ∧
      localDate 60 1709247600000000000 = ascii "2024-03-01" ∧
      nextMidnight 60 1709163000000000000 < nextMidnight 60 1709247600000000000 := by
  have ht : HasMidnight 60 1709163000000000000 := ⟨by decide, by decide⟩
  have hu : HasMidnight 60 1709247600000000000 := ⟨by decide, by decide⟩
  have hmidnight : nextMidnight 60 1709163000000000000 = 1709247600000000000 := by decide
  obtain ⟨hone, htwo⟩ := @nextMidnight_begins_next_date 60 (by decide) (by decide)
  obtain ⟨-, -, -, -, d, hvalid, hnumber, hdate, hnext⟩ := hone _ ht
  have hd : d = ⟨2024, 2, 29⟩ := hvalid.number_injective
    ⟨by decide, by decide, by decide, by decide⟩ (hnumber.trans (by decide))
  have htext : Date.text ⟨2024, 2, 29⟩ = ascii "2024-02-29" := by decide
  have htext' : (Date.next ⟨2024, 2, 29⟩).text = ascii "2024-03-01" := by decide
  rw [hd, htext] at hdate
  rw [hd, htext', hmidnight] at hnext
  refine ⟨ht, hu, hmidnight, hdate, hnext, (htwo _ _ ht hu).2.mp ?_⟩
  rw [hdate, hnext]
  exact rfl

end StructuredLog.Instant
