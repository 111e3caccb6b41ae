import StructuredLog.Format.JsonLine
import StructuredLog.Proofs.Format.JsonStrings
import StructuredLog.Proofs.Time.Gregorian

/-!
# Time stamps in JSON

The time stamp of a rendered record, read as a date and a time of day in UTC by the rules of the
calendar, is the instant of the record without what is left of its last microsecond. All time stamps
have one shape, so as texts they stand in the order of the instants. Main statement:
`timestamp_tells_microsecond`.
-/

namespace StructuredLog

open Calendar Text Decimal

namespace JsonText

theorem escapeAscii_of_plain {b : UInt8} (h : Plain b) : escapeAscii b = [b] := by
  obtain ⟨hquote, hslash, hvisible⟩ := h
  have hcontrol : ∀ {c : UInt8}, c.toNat < 32 → b ≠ c := by
    rintro c hc rfl
    exact absurd hvisible (Nat.not_le.mpr hc)
  have hnot : ¬b < 32 := fun hlt => absurd hvisible (Nat.not_le.mpr (UInt8.lt_iff_toNat_lt.mp hlt))
  rw [escapeAscii, if_neg hquote, if_neg hslash, if_neg (hcontrol (by decide)),
    if_neg (hcontrol (by decide)), if_neg (hcontrol (by decide)), if_neg (hcontrol (by decide)),
    if_neg (hcontrol (by decide)), if_neg hnot]

theorem plain_of_all {t : Text}
    (h : t.all (fun b => decide (b.toNat < 128 ∧ b ≠ 34 ∧ b ≠ 92 ∧ 32 ≤ b.toNat)) = true) :
    ∀ b ∈ t, b.toNat < 128 ∧ Plain b := by
  intro b hb
  have hplain : b.toNat < 128 ∧ b ≠ 34 ∧ b ≠ 92 ∧ 32 ≤ b.toNat := by
    simpa using List.all_eq_true.mp h b hb
  exact hplain

theorem string_of_plain {content : Text} (h : ∀ b ∈ content, b.toNat < 128 ∧ Plain b) :
    string content = 34 :: (content ++ [34]) := by
  have hescape : escape content = content := by
    induction content with
    | nil => simp [escape, Utf8.pieces]
    | cons b content ih =>
      obtain ⟨⟨hascii, hplain⟩, hrest⟩ := List.forall_mem_cons.mp h
      rw [escape, Utf8.pieces_ascii (UInt8.lt_iff_toNat_lt.mpr hascii), List.flatMap_cons]
      exact congrArg₂ _ (escapeAscii_of_plain hplain) (ih hrest)
  rw [string, hescape]
  rfl

end JsonText

/-- A date and a time of day in UTC, to the microsecond. -/
structure Stamp where
  date : Date
  hour : Nat
  minute : Nat
  second : Nat
  microsecond : Nat

namespace Stamp

structure Valid (s : Stamp) : Prop where
  date_valid : s.date.Valid
  hour_lt : s.hour < 24
  minute_lt : s.minute < 60
  second_lt : s.second < 60
  microsecond_lt : s.microsecond < 1000000

def instant (s : Stamp) : Int :=
  ((((s.date.number * 24 + s.hour) * 60 + s.minute) * 60 + s.second) * 1000000 + s.microsecond) *
    1000

def layout : List (Nat × UInt8) :=
  [(4, 45), (2, 45), (2, 84), (2, 58), (2, 58), (2, 46), (6, 90)]

/-! ## Reading -/

def readNumber (width : Nat) (t : Text) : Option (Nat × Text) :=
  if (t.take width).length = width ∧ (t.take width).all isDigit then
    some (valueOf (t.take width), t.drop width)
  else none

def readMark (mark : UInt8) : Text → Option Text
  | [] => none
  | b :: t => if b = mark then some t else none

def readNumbers : List (Nat × UInt8) → Text → Option (List Nat × Text)
  | [], t => some ([], t)
  | (width, mark) :: layout, t => do
    let (n, t) ← readNumber width t
    let t ← readMark mark t
    let (numbers, t) ← readNumbers layout t
    some (n :: numbers, t)

def read (t : Text) : Option Stamp :=
  match readNumbers layout t with
  | some ([year, month, day, hour, minute, second, microsecond], []) =>
    some ⟨⟨year, month, day⟩, hour, minute, second, microsecond⟩
  | _ => none

theorem readNumber_padded {width n : Nat} (hwidth : 0 < width) (h : n < 10 ^ width) (t : Text) :
    readNumber width (padded width n ++ t) = some (n, t) := by
  have hlength := length_padded hwidth h
  have hdigits : (padded width n).all isDigit = true :=
    List.all_eq_true.mpr fun _ => isDigit_of_mem_padded
  rw [readNumber, List.take_left' hlength, List.drop_left' hlength, if_pos ⟨hlength, hdigits⟩,
    valueOf_padded]

/-! ## Writing -/

def writeNumbers : List (Nat × UInt8) → List Nat → Text
  | (width, mark) :: layout, n :: numbers => padded width n ++ mark :: writeNumbers layout numbers
  | _, _ => []

def Fits (place : Nat × UInt8) (n : Nat) : Prop :=
  0 < place.1 ∧ place.2 ≠ 48 ∧ n < 10 ^ place.1

theorem readNumbers_writeNumbers {places : List (Nat × UInt8)} {numbers : List Nat}
    (h : List.Forall₂ Fits places numbers) (t : Text) :
    readNumbers places (writeNumbers places numbers ++ t) = some (numbers, t) := by
  induction h with
  | nil => rfl
  | @cons place n places numbers hn _ ih =>
    obtain ⟨hwidth, -, hlt⟩ := hn
    rw [readNumbers, writeNumbers, List.append_assoc, readNumber_padded hwidth hlt]
    simp [readMark, ih]

def Follows (place b : UInt8) : Prop := if place = 48 then isDigit b = true else b = place

theorem follows_digits {t : Text} (h : ∀ b ∈ t, isDigit b = true) :
    List.Forall₂ Follows (List.replicate t.length 48) t := by
  induction t with
  | nil => exact .nil
  | cons b t ih =>
    obtain ⟨hb, ht⟩ := List.forall_mem_cons.mp h
    exact .cons ((if_pos rfl).mpr hb) (ih ht)

theorem follows_writeNumbers {places : List (Nat × UInt8)} {numbers : List Nat}
    (h : List.Forall₂ Fits places numbers) :
    List.Forall₂ Follows (places.flatMap fun p => List.replicate p.1 48 ++ [p.2])
      (writeNumbers places numbers) := by
  induction h with
  | nil => exact .nil
  | @cons place n places numbers hn _ ih =>
    obtain ⟨hwidth, hmark, hlt⟩ := hn
    have hdigits := follows_digits (t := padded place.1 n) fun _ => isDigit_of_mem_padded
    rw [length_padded hwidth hlt] at hdigits
    rw [List.flatMap_cons, writeNumbers, List.append_assoc]
    exact List.rel_append hdigits (.cons ((if_neg hmark).mpr rfl) ih)

def shape : Text := ascii "0000-00-00T00:00:00.000000Z"

def HasShape (t : Text) : Prop := List.Forall₂ Follows shape t

def numbers (s : Stamp) : List Nat :=
  [s.date.year.toNat, s.date.month, s.date.day, s.hour, s.minute, s.second, s.microsecond]

def text (s : Stamp) : Text := writeNumbers layout s.numbers

variable {s : Stamp}

theorem Valid.fits (h : s.Valid) (hyear : s.date.year < 10000) :
    List.Forall₂ Fits layout s.numbers := by
  obtain ⟨⟨-, hmonth, -, hday⟩, hhour, hminute, hsecond, hmicrosecond⟩ := h
  have hlength : monthLength s.date.year s.date.month ≤ 31 := by
    rw [monthLength]
    split_ifs <;> decide
  have hyear' : s.date.year.toNat < 10 ^ 4 := by omega
  have two : ∀ {mark : UInt8} {n : Nat}, mark ≠ 48 → n < 100 → Fits (2, mark) n :=
    fun hmark hn => ⟨Nat.zero_lt_two, hmark, hn⟩
  exact .cons ⟨by decide, by decide, hyear'⟩ <| .cons (two (by decide) (by omega)) <|
    .cons (two (by decide) (by omega)) <| .cons (two (by decide) (by omega)) <|
    .cons (two (by decide) (by omega)) <| .cons (two (by decide) (by omega)) <|
    .cons ⟨by decide, by decide, hmicrosecond⟩ .nil

theorem Valid.read_text (h : s.Valid) (hnonneg : 0 ≤ s.date.year) (hyear : s.date.year < 10000) :
    read s.text = some s := by
  have hread := readNumbers_writeNumbers (h.fits hyear) []
  rw [List.append_nil] at hread
  have hsame : (s.date.year.toNat : Int) = s.date.year := Int.toNat_of_nonneg hnonneg
  rw [read, text, hread]
  show some (⟨⟨(s.date.year.toNat : Int), _, _⟩, _, _, _, _⟩ : Stamp) = some s
  rw [hsame]

theorem Valid.hasShape_text (h : s.Valid) (hyear : s.date.year < 10000) : HasShape s.text := by
  have hshape : shape = layout.flatMap fun p => List.replicate p.1 48 ++ [p.2] := by decide
  rw [HasShape, hshape]
  exact follows_writeNumbers (h.fits hyear)

theorem plain_of_isDigit {b : UInt8} (h : isDigit b = true) : b.toNat < 128 ∧ JsonText.Plain b := by
  have hbounds := isDigit_iff.mp h
  refine ⟨by omega, ?_, ?_, by omega⟩
  · rintro rfl
    exact absurd hbounds (by decide)
  · rintro rfl
    exact absurd hbounds (by decide)

theorem plain_of_follows {places t : Text}
    (hplaces : ∀ p ∈ places, p.toNat < 128 ∧ JsonText.Plain p)
    (h : List.Forall₂ Follows places t) : ∀ b ∈ t, b.toNat < 128 ∧ JsonText.Plain b := by
  induction h with
  | nil => exact nofun
  | @cons p b places t hb _ ih =>
    obtain ⟨hp, hrest⟩ := List.forall_mem_cons.mp hplaces
    refine List.forall_mem_cons.mpr ⟨?_, ih hrest⟩
    rw [Follows] at hb
    split_ifs at hb
    · exact plain_of_isDigit hb
    · exact hb ▸ hp

theorem HasShape.plain {t : Text} (h : HasShape t) : ∀ b ∈ t, b.toNat < 128 ∧ JsonText.Plain b :=
  plain_of_follows (JsonText.plain_of_all (by decide)) h

def ofInstant (t : Instant) : Stamp :=
  let second := (t / 1000000000 % 86400).toNat
  ⟨dateOfDays (t / 1000000000 / 86400), second / 3600, second / 60 % 60, second % 60,
    (t / 1000 % 1000000).toNat⟩

theorem valid_ofInstant (t : Instant) : (ofInstant t).Valid := by
  refine ⟨valid_dateOfDays _, ?_, ?_, ?_, ?_⟩ <;> simp only [ofInstant] <;> omega

theorem instant_ofInstant (t : Int) : (ofInstant t).instant = t - t % 1000 := by
  have hnumber : (ofInstant t).date.number = t / 1000000000 / 86400 := number_dateOfDays _
  rw [instant, hnumber]
  simp only [ofInstant]
  omega

end Stamp

namespace JsonLine

open JsonText

variable {t u : Int}

theorem fourDigit_day (h : 0 ≤ t) (h' : t < 2 ^ 63) : FourDigit (t / 1000000000 / 86400) := by
  rw [FourDigit, epochShift, cycleDays]
  omega

theorem year_ofInstant (h : 0 ≤ t) (h' : t < 2 ^ 63) :
    0 ≤ (Stamp.ofInstant t).date.year ∧ (Stamp.ofInstant t).date.year < 10000 := by
  obtain ⟨hyear, hyear', -, -⟩ := (fourDigit_day h h').bounds
  exact ⟨hyear, hyear'⟩

theorem timestamp_parts (h : 0 ≤ t) : timestamp t = dayText (t / 1000000000 / 86400) ++
    84 :: (timeText (t / 1000000000 % 86400).toNat ++
      46 :: (padded 6 (t / 1000 % 1000000).toNat ++ [90])) := by
  have hseconds : Instant.localSeconds 0 t = t / 1000000000 := by
    rw [Instant.localSeconds, Instant.seconds, Int.tdiv_eq_ediv_of_nonneg h, Int.mul_zero,
      Int.add_zero]
  have hdate : Instant.localDate 0 t = dayText (t / 1000000000 / 86400) := by
    rw [Instant.localDate, Instant.localDay, hseconds]
    rfl
  have htime : Instant.localTime 0 t = timeText (t / 1000000000 % 86400).toNat := by
    rw [Instant.localTime, hseconds]
  have hmicrosecond : Instant.microsecond t = ((t / 1000 % 1000000).toNat : Int) := by
    have hnonneg : 0 ≤ t / 1000 := by omega
    rw [Instant.microsecond, Int.tdiv_eq_ediv_of_nonneg h, Int.tmod_eq_emod_of_nonneg hnonneg]
    omega
  rw [timestamp, hdate, htime, hmicrosecond]
  simp only [paddedInt, List.append_assoc]
  rfl

theorem timestamp_eq (h : 0 ≤ t) (h' : t < 2 ^ 63) : timestamp t = (Stamp.ofInstant t).text := by
  have hdate : dayText (t / 1000000000 / 86400) = (Stamp.ofInstant t).date.text := rfl
  rw [timestamp_parts h, hdate, text_eq (year_ofInstant h h').1]
  simp only [timeText, List.append_assoc, List.cons_append, List.nil_append]
  rfl

theorem before_timestamp (h : 0 ≤ t) (h' : u < 2 ^ 63) (hlt : t / 1000 < u / 1000) :
    Before (timestamp t) (timestamp u) := by
  have hu : 0 ≤ u := by omega
  have ht : t < 2 ^ 63 := by omega
  rw [timestamp_parts h, timestamp_parts hu]
  rcases lt_or_ge (t / 1000000000 / 86400) (u / 1000000000 / 86400) with hday | hday
  · refine (before_dayText (fourDigit_day h ht) (fourDigit_day hu h') hday).append ?_ _ _
    rw [length_dayText (fourDigit_day h ht), length_dayText (fourDigit_day hu h')]
  rw [show u / 1000000000 / 86400 = t / 1000000000 / 86400 by omega, before_append_left,
    before_cons_self]
  rcases lt_or_ge (t / 1000000000) (u / 1000000000) with hsecond | hsecond
  · refine (before_timeText (by omega) (by omega)).append ?_ _ _
    rw [length_timeText (by omega), length_timeText (by omega)]
  rw [show u / 1000000000 = t / 1000000000 by omega, before_append_left, before_cons_self]
  exact before_padded (by decide) (by omega) (by omega) _ _

theorem timestamp_congr (h : 0 ≤ t) (hu : 0 ≤ u) (hsame : t / 1000 = u / 1000) :
    timestamp t = timestamp u := by
  rw [timestamp_parts h, timestamp_parts hu, show u / 1000000000 = t / 1000000000 by omega, hsame]

theorem render_eq_timestamp {r : Record} (h : Stamp.HasShape (timestamp r.time)) : ∃ rest,
    render r = ascii "\x7b\"timestamp\":\"" ++ timestamp r.time ++ ascii "\"," ++ rest := by
  have hstring := string_of_plain h.plain
  have hname : string (ascii "timestamp") = 34 :: (ascii "timestamp" ++ [34]) :=
    string_of_plain (plain_of_all (by decide))
  have hopen : ascii "\x7b\"timestamp\":\"" = 123 :: 34 :: (ascii "timestamp" ++ [34, 58, 34]) := by
    decide
  refine ⟨commaSeparated (members r).tail ++ [125], ?_⟩
  have hmembers : render r = [123] ++ (string (ascii "timestamp") ++ [58] ++
      string (timestamp r.time) ++ [44] ++ commaSeparated (members r).tail) ++ [125] := rfl
  have hclose : ascii "\"," = [34, 44] := by decide
  rw [hmembers, hstring, hname, hopen, hclose]
  simp only [List.append_assoc, List.cons_append, List.nil_append]

/-- For instants from the epoch on that a signed 64-bit word holds. The time stamp with which a
record is rendered has the shape `YYYY-MM-DDTHH:MM:SS.ffffffZ` and is read as a date of the calendar
and a time of day that make up the instant, less what is left of its microsecond. Records from later
on have time stamps that are no less as texts, and the same exactly within one microsecond. -/
theorem timestamp_tells_microsecond (r : Record) (hlow : 0 ≤ r.time) (hhigh : r.time < 2 ^ 63) :
    (∃ rest, render r = ascii "\x7b\"timestamp\":\"" ++ timestamp r.time ++ ascii "\"," ++ rest) ∧
      Stamp.HasShape (timestamp r.time) ∧
      (∃ s, Stamp.read (timestamp r.time) = some s ∧ s.Valid ∧
        s.instant = r.time - r.time % 1000) ∧
      ∀ later : Record, r.time ≤ later.time → later.time < 2 ^ 63 →
        Text.le (timestamp r.time) (timestamp later.time) = true ∧
        (timestamp r.time = timestamp later.time ↔ r.time / 1000 = later.time / 1000) := by
  have hvalid := Stamp.valid_ofInstant r.time
  obtain ⟨hyear, hyear'⟩ := year_ofInstant hlow hhigh
  have hshape : Stamp.HasShape (timestamp r.time) := by
    rw [timestamp_eq hlow hhigh]
    exact hvalid.hasShape_text hyear'
  refine ⟨render_eq_timestamp hshape, hshape, ⟨Stamp.ofInstant r.time, ?_, hvalid,
    Stamp.instant_ofInstant _⟩, fun later hle hlater => ?_⟩
  · rw [timestamp_eq hlow hhigh]
    exact hvalid.read_text hyear hyear'
  · have hnonneg : 0 ≤ later.time := Int.le_trans hlow hle
    rcases Int.lt_or_eq_of_le (Int.ediv_le_ediv (by decide : (0 : Int) < 1000) hle) with hlt | hsame
    · have hbefore := before_timestamp hlow hlater hlt
      exact ⟨hbefore.le, iff_of_false hbefore.ne hlt.ne⟩
    · have hequal := timestamp_congr hlow hnonneg hsame
      exact ⟨hequal ▸ Text.le_refl _, iff_of_true hequal hsame⟩

def recordAt (t : Instant) : Record :=
  ⟨t, ⟨2⟩, ascii "svc", ascii "m", .unknown, Fields.empty, Fields.empty, none⟩

/-- The last nanosecond of a leap year and the first one of the year after it. -/
theorem timestamp_tells_microsecond_yearEnd :
    timestamp 1735689599999999999 = ascii "2024-12-31T23:59:59.999999Z" ∧
      (∃ s, Stamp.read (ascii "2024-12-31T23:59:59.999999Z") = some s ∧
        s.instant = 1735689599999999000) ∧
      Text.le (timestamp 1735689599999999999) (timestamp 1735689600000000000) = true ∧
      timestamp 1735689599999999999 ≠ timestamp 1735689600000000000 := by
  have htext : timestamp 1735689599999999999 = ascii "2024-12-31T23:59:59.999999Z" := by decide
  obtain ⟨-, -, ⟨s, hread, -, hinstant⟩, horder⟩ :=
    timestamp_tells_microsecond (recordAt 1735689599999999999) (by decide) (by decide)
  obtain ⟨hle, hsame⟩ := horder (recordAt 1735689600000000000) (by decide) (by decide)
  exact ⟨htext, ⟨s, htext ▸ hread, hinstant⟩, hle, fun heq => absurd (hsame.mp heq) (by decide)⟩

end JsonLine

end StructuredLog
