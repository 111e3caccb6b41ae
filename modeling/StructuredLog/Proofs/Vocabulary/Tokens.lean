import StructuredLog.Proofs.Number.Digits
import StructuredLog.Proofs.Vocabulary.Environments

/-!
# One token and what it means

A reader takes one token off its input, the longest run of letters, digits and underscores, and
leaves all behind it. A token that begins with a digit is a numeral where numerals are read: digits
throughout, of any length. Any other token is looked for among the names, rank by rank, up to the
sentinel. What a rank is printed as is read as that rank again. Main statement: `read_exact`.
-/

namespace StructuredLog

open Text

namespace Text

def EndsToken (rest : Text) : Prop := ∀ b ∈ rest.head?, isWord b = false

instance : (rest : Text) → Decidable (EndsToken rest)
  | [] => isTrue nofun
  | b :: _ => decidable_of_iff (isWord b = false) (by simp [EndsToken])

def DigitLed (token : Text) : Prop := ∃ b ∈ token.head?, isDigit b = true

instance : (token : Text) → Decidable (DigitLed token)
  | [] => isFalse nofun
  | b :: _ => decidable_of_iff (isDigit b = true) (by simp [DigitLed])

theorem exists_token (input : Text) :
    ∃ token rest, input = token ++ rest ∧ IsWord token ∧ EndsToken rest := by
  refine ⟨input.takeWhile isWord, input.dropWhile isWord, List.takeWhile_append_dropWhile.symm,
    fun b hb => List.mem_takeWhile_imp hb, fun b hb => ?_⟩
  have hnot := List.head?_dropWhile_not isWord input
  rw [Option.mem_def.mp hb] at hnot
  exact hnot

theorem isDigit_lowerOctet (b : UInt8) : isDigit (lowerOctet b) = isDigit b := by
  rw [Bool.eq_iff_iff, isDigit_iff, isDigit_iff, toNat_lowerOctet]
  split_ifs with hb
  · rw [isUpper_iff] at hb
    omega
  · rfl

theorem CaseVariant.digitLed_iff {s t : Text} (h : CaseVariant s t) : DigitLed s ↔ DigitLed t := by
  cases h with
  | nil => rfl
  | @cons a b _ _ hletter =>
    have hdigit : isDigit (lowerOctet a) = isDigit (lowerOctet b) :=
      congrArg isDigit (lowerOctet_eq_iff.mpr hletter)
    rw [isDigit_lowerOctet, isDigit_lowerOctet] at hdigit
    simp [DigitLed, hdigit]

end Text

namespace Vocabulary

variable (v : Vocabulary)

def InRange (r : UInt64) : Prop := v.lowest ≤ r ∧ r < v.sentinel

/-- The token is the name, in other letters too if their case does not matter. What is printed as
nothing has no name. -/
def Spelled (token name : Text) : Prop :=
  name ≠ [] ∧ if v.caseSensitive = true then token = name else CaseVariant token name

structure FirstNamed (token : Text) (r : UInt64) : Prop where
  inRange : v.InRange r
  spelled : v.Spelled token (v.name r)
  first : ∀ {s}, v.InRange s → v.Spelled token (v.name s) → r ≤ s

/-- What a token stands for: as a numeral if it begins with a digit and numerals are read, and as
a name else. -/
def Means (token : Text) (r : UInt64) : Prop :=
  if v.numerals = true ∧ DigitLed token then v.InRange r ∧ Decimal.Numeral token r.toNat
  else v.FirstNamed token r

/-- The search as it goes: rank by rank, until it stands on the sentinel. -/
inductive Searches (token : Text) : UInt64 → Option UInt64 → Prop
  | ended : Searches token v.sentinel none
  | found {rank : UInt64} (hrank : rank ≠ v.sentinel)
    (hspells : v.spells token (v.name rank) = true) : Searches token rank (some rank)
  | passed {rank : UInt64} {result : Option UInt64} (hrank : rank ≠ v.sentinel)
    (hspells : v.spells token (v.name rank) = false) (hrest : Searches token (rank + 1) result) :
    Searches token rank result

variable {v} {token rest : Text} {rank r : UInt64}

/-- A search that counts up to the sentinel by a test for being unequal ends, from below it and
also from above. -/
theorem searches_search :
    v.Searches token rank (v.search token (v.sentinel - rank).toNat rank) := by
  generalize hcount : (v.sentinel - rank).toNat = count
  induction count generalizing rank with
  | zero =>
    have hrank : v.sentinel = 0 + rank :=
      UInt64.sub_eq_iff_eq_add.mp (UInt64.toNat_inj.mp hcount)
    rw [UInt64.zero_add] at hrank
    rw [search, ← hrank]
    exact .ended
  | succ count ih =>
    have hrank : rank ≠ v.sentinel := by
      rintro rfl
      rw [UInt64.sub_self] at hcount
      cases hcount
    rw [search]
    split
    next hspells => exact .found hrank hspells
    next hspells =>
      refine .passed hrank (Bool.eq_false_iff.mpr hspells) (ih ?_)
      have hstep : v.sentinel - (rank + 1) = v.sentinel - rank - 1 := by grind
      have hone : (1 : UInt64) ≤ v.sentinel - rank := by
        rw [UInt64.le_iff_toNat_le, hcount]
        exact Nat.succ_le_succ (Nat.zero_le count)
      rw [hstep, UInt64.toNat_sub_of_le _ _ hone, hcount]
      rfl

theorem Searches.unique {result other : Option UInt64} (h : v.Searches token rank result)
    (h' : v.Searches token rank other) : result = other := by
  induction h with
  | ended =>
    cases h' with
    | ended => rfl
    | found hrank => exact absurd rfl hrank
    | passed hrank => exact absurd rfl hrank
  | found hrank hspells =>
    cases h' with
    | ended => exact absurd rfl hrank
    | found => rfl
    | passed _ hnot => rw [hspells] at hnot; cases hnot
  | passed hrank hnot hrest ih =>
    cases h' with
    | ended => exact absurd rfl hrank
    | found _ hspells => rw [hspells] at hnot; cases hnot
    | passed _ _ hrest' => exact ih hrest'

theorem searches_iff {result : Option UInt64} : v.Searches token rank result ↔
    result = v.search token (v.sentinel - rank).toNat rank := by
  constructor
  · exact fun h => h.unique searches_search
  · rintro rfl
    exact searches_search

theorem Spelled.token_ne_nil {name : Text} (h : v.Spelled token name) : token ≠ [] := by
  obtain ⟨hname, hsame⟩ := h
  rintro rfl
  split at hsame
  · exact hname hsame.symm
  · exact hname (List.forall₂_nil_left_iff.mp hsame)

theorem spells_iff_spelled {name : Text} (hne : token ≠ []) :
    v.spells token name = true ↔ v.Spelled token name := by
  have hspells : v.spells token name = true ↔
      if v.caseSensitive = true then token = name else CaseVariant token name := by
    split
    next hcase => rw [spells, if_pos hcase, beq_iff_eq]
    next hcase => exact spells_iff (Bool.not_eq_true _ ▸ hcase)
  rw [Spelled, hspells, iff_and_self]
  rintro hsame rfl
  split at hsame
  · exact hne hsame
  · exact hne (List.forall₂_nil_right_iff.mp hsame)

theorem search_eq_some_iff_firstNamed (hrange : v.lowest ≤ v.sentinel) (hne : token ≠ []) :
    v.search token (v.sentinel - v.lowest).toNat v.lowest = some r ↔ v.FirstNamed token r := by
  have hwidth : (v.sentinel - v.lowest).toNat = v.sentinel.toNat - v.lowest.toNat :=
    UInt64.toNat_sub_of_le _ _ hrange
  have hle : v.lowest.toNat ≤ v.sentinel.toNat := UInt64.le_iff_toNat_le.mp hrange
  have hbound := v.sentinel.toNat_lt
  -- the `i`-th rank that is looked at, and the other way round
  have hplace : ∀ {i}, i < v.sentinel.toNat - v.lowest.toNat →
      (v.lowest + UInt64.ofNat i).toNat = v.lowest.toNat + i := by
    intro i hi
    rw [UInt64.toNat_add, UInt64.toNat_ofNat']
    omega
  have hindex : ∀ {s}, v.InRange s → s.toNat - v.lowest.toNat < v.sentinel.toNat - v.lowest.toNat ∧
      s = v.lowest + UInt64.ofNat (s.toNat - v.lowest.toNat) := by
    rintro s ⟨hlow, hhigh⟩
    rw [UInt64.le_iff_toNat_le] at hlow
    rw [UInt64.lt_iff_toNat_lt] at hhigh
    have hi : s.toNat - v.lowest.toNat < v.sentinel.toNat - v.lowest.toNat := by omega
    refine ⟨hi, UInt64.toNat_inj.mp ?_⟩
    rw [hplace hi]
    omega
  have hinRange : ∀ {i}, i < v.sentinel.toNat - v.lowest.toNat →
      v.InRange (v.lowest + UInt64.ofNat i) := by
    intro i hi
    rw [InRange, UInt64.le_iff_toNat_le, UInt64.lt_iff_toNat_lt, hplace hi]
    omega
  rw [search_eq_some_iff, hwidth]
  constructor
  · rintro ⟨i, hi, rfl, hspells, hleast⟩
    refine ⟨hinRange hi, (spells_iff_spelled hne).mp hspells, fun {s} hs hspelled => ?_⟩
    obtain ⟨-, hplaced⟩ := hindex hs
    have hlow := UInt64.le_iff_toNat_le.mp hs.1
    rw [UInt64.le_iff_toNat_le, hplace hi]
    by_contra hbefore
    have hearlier := hleast (s.toNat - v.lowest.toNat) (by omega)
    rw [← hplaced, (spells_iff_spelled hne).mpr hspelled] at hearlier
    cases hearlier
  · rintro ⟨hinRange', hspelled, hfirst⟩
    obtain ⟨hi, hplaced⟩ := hindex hinRange'
    refine ⟨_, hi, hplaced, (spells_iff_spelled hne).mpr hspelled, fun j hj => ?_⟩
    rw [Bool.eq_false_iff]
    intro hspells
    have hle := hfirst (hinRange (by omega)) ((spells_iff_spelled hne).mp hspells)
    rw [UInt64.le_iff_toNat_le, hplace (by omega)] at hle
    omega

theorem ofNumeral_eq_some_iff : v.ofNumeral token = some r ↔
    v.InRange r ∧ Decimal.Numeral token r.toNat := by
  have hinRange : v.InRange r ↔ v.lowest.toNat ≤ r.toNat ∧ r.toNat < v.sentinel.toNat := by
    rw [InRange, UInt64.le_iff_toNat_le, UInt64.lt_iff_toNat_lt]
  rw [ofNumeral, hinRange, ← Decimal.toNat?_eq_some_iff]
  cases Decimal.toNat? token with
  | none => simp
  | some n =>
    rw [Option.ite_none_right_eq_some, Option.some.injEq, Option.some.injEq]
    constructor
    · rintro ⟨hn, rfl⟩
      have hbound := v.sentinel.toNat_lt
      have hsame : (UInt64.ofNat n).toNat = n := by
        rw [UInt64.toNat_ofNat']
        omega
      exact ⟨hsame.symm ▸ hn, hsame.symm⟩
    · rintro ⟨hr, rfl⟩
      exact ⟨hr, UInt64.ofNat_toNat⟩

theorem lookup_of_numeral (h : v.numerals = true ∧ DigitLed token) :
    v.lookup token = v.ofNumeral token := by
  obtain ⟨hnumerals, b, hb, hdigit⟩ := h
  cases token with
  | nil => cases hb
  | cons c tail =>
    obtain rfl : c = b := Option.some.inj hb
    rw [lookup, if_pos (by rw [hnumerals, hdigit]; rfl)]

theorem lookup_of_not_numeral (hne : token ≠ []) (h : ¬(v.numerals = true ∧ DigitLed token)) :
    v.lookup token = v.search token (v.sentinel - v.lowest).toNat v.lowest := by
  obtain ⟨b, tail, rfl⟩ := List.exists_cons_of_ne_nil hne
  have hnot : ¬(v.numerals && isDigit b) = true := by simpa [DigitLed] using h
  rw [lookup, if_neg hnot]

theorem Means.token_ne_nil (h : v.Means token r) : token ≠ [] := by
  rw [Means] at h
  split at h
  · exact h.2.digits.1
  · exact h.spelled.token_ne_nil

theorem lookup_eq_some_iff_means (hrange : v.lowest ≤ v.sentinel) :
    v.lookup token = some r ↔ v.Means token r := by
  by_cases hne : token = []
  · subst hne
    exact iff_of_false nofun fun h => h.token_ne_nil rfl
  · rw [Means]
    by_cases hnumeral : v.numerals = true ∧ DigitLed token
    · rw [if_pos hnumeral, lookup_of_numeral hnumeral, ofNumeral_eq_some_iff]
    · rw [if_neg hnumeral, lookup_of_not_numeral hne hnumeral,
        search_eq_some_iff_firstNamed hrange hne]

theorem Means.inRange (h : v.Means token r) : v.InRange r := by
  rw [Means] at h
  split at h
  · exact h.1
  · exact h.inRange

theorem read_append (htoken : IsWord token) (hrest : EndsToken rest) :
    v.read (token ++ rest) = ⟨(v.lookup token).getD v.fallback, rest, rest.isEmpty⟩ := by
  have hstop : rest.takeWhile isWord = [] ∧ rest.dropWhile isWord = rest := by
    cases rest with
    | nil => exact ⟨rfl, rfl⟩
    | cons b tail => simp [hrest b rfl]
  rw [read, List.takeWhile_append_of_pos htoken, List.dropWhile_append_of_pos htoken, hstop.1,
    hstop.2, List.append_nil]

end Vocabulary

namespace Severity

open Vocabulary

variable {s : Severity} {token : Text}

def listed : List Severity := [unset, debug, info, warning, error, critical]

theorem mem_listed (h : s < sentinel) : s ∈ listed := by
  have hall : ∀ n < 6, (⟨UInt64.ofNat n⟩ : Severity) ∈ listed := by decide
  have hlt : s.rank.toNat < 6 := UInt64.lt_iff_toNat_lt.mp h
  have hs := hall s.rank.toNat hlt
  rwa [UInt64.ofNat_toNat] at hs

theorem inRange_rank (hs : s < sentinel) : vocabulary.InRange s.rank :=
  ⟨UInt64.le_iff_toNat_le.mpr (Nat.zero_le _), hs⟩

theorem means_name (hs : s < sentinel) (hname : CaseVariant token s.name) :
    IsWord token ∧ vocabulary.Means token s.rank := by
  have hnames : ∀ s ∈ listed, s.name ≠ [] ∧ IsWord s.name ∧ ¬DigitLed s.name := by decide +kernel
  have hapart : ∀ s ∈ listed, ∀ t ∈ listed, lower s.name = lower t.name → s = t := by decide +kernel
  obtain ⟨hnamed, hword, hletter⟩ := hnames s (mem_listed hs)
  refine ⟨hname.isWord_iff.mpr hword, ?_⟩
  rw [Means, if_neg fun h => hletter (hname.digitLed_iff.mp h.2)]
  refine ⟨inRange_rank hs, ⟨hnamed, hname⟩, fun {r} hr hspelled => ?_⟩
  have hother : CaseVariant token (name ⟨r⟩) := hspelled.2
  have hfolded : lower s.name = lower (name ⟨r⟩) := by
    rw [← lower_eq_lower_iff.mpr hname, lower_eq_lower_iff.mpr hother]
  have hsame : s = ⟨r⟩ := hapart s (mem_listed hs) ⟨r⟩ (mem_listed hr.2) hfolded
  rw [hsame]
  exact UInt64.le_refl r

theorem means_numeral (hs : s < sentinel) (hnumeral : Decimal.Numeral token s.rank.toNat) :
    IsWord token ∧ vocabulary.Means token s.rank := by
  obtain ⟨hne, hdigits⟩ := hnumeral.digits
  refine ⟨fun b hb => by simp [isWord, hdigits b hb], ?_⟩
  have hled : DigitLed token := by
    obtain ⟨b, tail, rfl⟩ := List.exists_cons_of_ne_nil hne
    exact ⟨b, rfl, hdigits b List.mem_cons_self⟩
  rw [Means, if_pos ⟨rfl, hled⟩]
  exact ⟨inRange_rank hs, hnumeral⟩

theorem read_spelling {rest : Text} (hs : s < sentinel)
    (h : CaseVariant token s.name ∨ Decimal.Numeral token s.rank.toNat) (hrest : EndsToken rest) :
    vocabulary.read (token ++ rest) = ⟨s.rank, rest, rest.isEmpty⟩ := by
  obtain ⟨hword, hmeans⟩ : IsWord token ∧ vocabulary.Means token s.rank :=
    h.elim (means_name hs) (means_numeral hs)
  have hlookup : vocabulary.lookup token = some s.rank :=
    (lookup_eq_some_iff_means (by decide)).mpr hmeans
  rw [read_append hword hrest, hlookup, Option.getD_some]

end Severity

namespace Vocabulary

/-- Every input is cut behind its longest run of word octets, and what follows is left unread. The
rank is the one in the range that the token means, and the fallback if it means none; an empty
token means none, nor does a numeral too large for a word. The search through the names ends, and in
one way only. A rank that is printed as nothing has no name here, so no token means it by name; the
tables of the library print none so. A severity is read back from its name, in letters of any case,
and from its numerals, whatever stands behind them. -/
theorem read_exact :
    (∀ (v : Vocabulary) (input : Text), v.lowest ≤ v.sentinel →
      let reading := v.read input
      ∃ token, input = token ++ reading.rest ∧ IsWord token ∧ EndsToken reading.rest ∧
        (reading.rank = v.fallback ∨ v.InRange reading.rank) ∧
        (∀ r, v.Means token r → reading.rank = r) ∧
        ((∀ r, ¬v.Means token r) → reading.rank = v.fallback) ∧
        ∃ result, (∀ other, v.Searches token v.lowest other ↔ other = result) ∧
          (token ≠ [] → ¬(v.numerals = true ∧ DigitLed token) →
            reading.rank = result.getD v.fallback)) ∧
    ∀ (s : Severity) (token rest : Text), s < .sentinel →
      (CaseVariant token s.name ∨ Decimal.Numeral token s.rank.toNat) → EndsToken rest →
      Severity.vocabulary.read (token ++ rest) = ⟨s.rank, rest, rest.isEmpty⟩ := by
  refine ⟨fun v input hrange => ?_, fun s token rest => Severity.read_spelling⟩
  obtain ⟨token, rest, rfl, hword, hrest⟩ := exists_token input
  rw [read_append hword hrest]
  refine ⟨token, rfl, hword, hrest, ?_, fun r h => ?_, fun h => ?_, _, fun _ => searches_iff, ?_⟩
  · cases hlookup : v.lookup token with
    | none => exact .inl rfl
    | some r => exact .inr ((lookup_eq_some_iff_means hrange).mp hlookup).inRange
  · rw [(lookup_eq_some_iff_means hrange).mpr h, Option.getD_some]
  · simp only [← lookup_eq_some_iff_means hrange, ← Option.eq_none_iff_forall_ne_some] at h
    rw [h, Option.getD_none]
  · intro hne hname
    rw [lookup_of_not_numeral hne hname]

/-- A numeral that is three more than there are words means nothing, however it would wrap; a name
and a numeral with zeros in front mean the same severity. -/
theorem read_exact_wrapping :
    let v := Severity.vocabulary
    v.lowest ≤ v.sentinel ∧ (v.read (ascii "18446744073709551619 x")).rank = 0 ∧
      v.read (ascii "wArNing" ++ ascii "=") = ⟨3, ascii "=", false⟩ ∧
      v.read (ascii "0003" ++ ascii "=") = ⟨3, ascii "=", false⟩ := by
  intro v
  obtain ⟨hreads, hback⟩ := read_exact
  have hrange : v.lowest ≤ v.sentinel := by decide
  obtain ⟨token, hinput, -, -, -, -, hnothing, -⟩ :=
    hreads v (ascii "18446744073709551619 x") hrange
  have htoken : token = ascii "18446744073709551619" := by
    have hrest : (v.read (ascii "18446744073709551619 x")).rest = ascii " x" := by decide
    rw [hrest] at hinput
    exact (List.append_cancel_right hinput).symm
  have hled : v.numerals = true ∧ DigitLed token := ⟨rfl, htoken ▸ by decide⟩
  have hnone : ∀ r, ¬v.Means token r := by
    intro r h
    rw [Means, if_pos hled] at h
    have hval := h.2.valueOf_eq
    have hlt := r.toNat_lt
    have hwrap : Decimal.valueOf (ascii "18446744073709551619") = 2 ^ 64 + 3 := by decide
    rw [htoken, hwrap] at hval
    omega
  have hmixed : CaseVariant (ascii "wArNing") Severity.warning.name := sameFolded_iff.mp (by decide)
  exact ⟨hrange, hnothing hnone,
    hback .warning (ascii "wArNing") (ascii "=") (by decide) (.inl hmixed) (by decide),
    hback .warning (ascii "0003") (ascii "=") (by decide) (.inr ⟨3, by decide⟩) (by decide)⟩

end Vocabulary

end StructuredLog
