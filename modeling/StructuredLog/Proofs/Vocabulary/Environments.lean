import StructuredLog.Config
import StructuredLog.Proofs.Text.Blanks

/-!
# Texts that name an environment

A text names an environment if it is that one's name, in letters of any case, with nothing but
blanks around it. These texts are read, and no others: a reader stops at the first octet that no
word has, and what is left there makes it fail. Main statement: `parse_exact`.
-/

namespace StructuredLog

open Text

namespace Vocabulary

variable {v : Vocabulary} {token name : Text}

theorem spells_iff (hfolds : v.caseSensitive = false) :
    v.spells token name = true ↔ CaseVariant token name := by
  rw [spells, hfolds, if_neg Bool.false_ne_true, sameFolded_iff]

theorem search_eq_some_iff {count : Nat} {rank r : UInt64} :
    v.search token count rank = some r ↔ ∃ i < count, r = rank + UInt64.ofNat i ∧
      v.spells token (v.name r) = true ∧
      ∀ j < i, v.spells token (v.name (rank + UInt64.ofNat j)) = false := by
  induction count generalizing rank with
  | zero => simp [search]
  | succ count ih =>
    have hshift : ∀ i, rank + 1 + UInt64.ofNat i = rank + UInt64.ofNat (i + 1) := by
      intro i
      rw [UInt64.ofNat_add, UInt64.add_assoc, UInt64.add_comm 1]
      rfl
    have hzero : rank + UInt64.ofNat 0 = rank := UInt64.add_zero rank
    rw [search]
    by_cases hfirst : v.spells token (v.name rank) = true
    · rw [if_pos hfirst]
      constructor
      · intro h
        cases h
        exact ⟨0, Nat.succ_pos count, hzero.symm, hfirst, fun j hj => absurd hj (Nat.not_lt_zero j)⟩
      · rintro ⟨i, -, rfl, -, hleast⟩
        cases i with
        | zero => rw [hzero]
        | succ i =>
          have hnot := hleast 0 (Nat.succ_pos i)
          rw [hzero, hfirst] at hnot
          cases hnot
    · rw [if_neg hfirst, ih]
      constructor
      · rintro ⟨i, hi, rfl, hspells, hleast⟩
        refine ⟨i + 1, Nat.succ_lt_succ hi, hshift i, hspells, fun j hj => ?_⟩
        cases j with
        | zero => rw [hzero, Bool.eq_false_iff.mpr hfirst]
        | succ j => rw [← hshift, hleast j (Nat.lt_of_succ_lt_succ hj)]
      · rintro ⟨i, hi, rfl, hspells, hleast⟩
        cases i with
        | zero =>
          rw [hzero] at hspells
          exact absurd hspells hfirst
        | succ i =>
          refine ⟨i, Nat.lt_of_succ_lt_succ hi, (hshift i).symm, hspells, fun j hj => ?_⟩
          rw [hshift, hleast (j + 1) (Nat.succ_lt_succ hj)]

theorem read_of_isWord (hword : IsWord token) :
    v.read token = ⟨(v.lookup token).getD v.fallback, [], true⟩ := by
  have htake : token.takeWhile isWord = token := List.takeWhile_eq_self_iff.mpr hword
  have hdrop : token.dropWhile isWord = [] := List.dropWhile_eq_nil_iff.mpr hword
  rw [read, htake, hdrop]
  rfl

theorem atEnd_read : (v.read token).atEnd = true ↔ IsWord token := by
  simp [read, List.isEmpty_iff, List.dropWhile_eq_nil_iff, IsWord]

end Vocabulary

namespace Environment

open Vocabulary

def listed : List Environment := [development, testing, staging, production]

/-- The text is the name of the environment, in letters of any case, between blanks. -/
def Named (t : Text) (e : Environment) : Prop :=
  e ∈ listed ∧ ∃ before word after, t = before ++ word ++ after ∧ AllBlank before ∧
    CaseVariant word e.name ∧ AllBlank after

variable {t token : Text} {e : Environment}

theorem isWord_name (he : e ∈ listed) : IsWord e.name := by
  revert e
  decide +kernel

theorem lookup_eq_some_iff (hne : token ≠ []) :
    vocabulary.lookup token = some e.rank ↔ e ∈ listed ∧ CaseVariant token e.name := by
  have hlookup : vocabulary.lookup token = vocabulary.search token 4 0 := by
    obtain ⟨b, rest, rfl⟩ := List.exists_cons_of_ne_nil hne
    rfl
  have hspells : ∀ name, vocabulary.spells token name = true ↔ CaseVariant token name :=
    fun name => spells_iff rfl
  rw [hlookup, search_eq_some_iff]
  constructor
  · rintro ⟨i, hi, hrank, hname, -⟩
    have hlisted : ∀ i < 4, (⟨0 + UInt64.ofNat i⟩ : Environment) ∈ listed := by decide
    obtain ⟨rank⟩ := e
    obtain rfl : rank = 0 + UInt64.ofNat i := hrank
    exact ⟨hlisted i hi, (hspells _).mp hname⟩
  · rintro ⟨he, hname⟩
    -- No two listed names fold to the same text, so no earlier one is found.
    have hapart : ∀ e ∈ listed, e.rank.toNat < 4 ∧ ∀ j < e.rank.toNat,
        lower e.name ≠ lower (vocabulary.name (0 + UInt64.ofNat j)) := by decide
    obtain ⟨hrank, hearlier⟩ := hapart e he
    refine ⟨e.rank.toNat, hrank, by simp, (hspells _).mpr hname, fun j hj => ?_⟩
    rw [← Bool.not_eq_true, hspells]
    intro hother
    refine hearlier j hj ?_
    rw [← lower_eq_lower_iff.mpr hname, lower_eq_lower_iff.mpr hother]

theorem Named.unblanked (h : Named t e) : trim t ≠ [] ∧ CaseVariant (trim t) e.name := by
  obtain ⟨he, before, word, after, rfl, hbefore, hname, hafter⟩ := h
  have hne : word ≠ [] := by
    rintro rfl
    have hnames : ∀ e ∈ listed, e.name ≠ [] := by decide
    exact hnames e he (List.forall₂_nil_left_iff.mp hname)
  rw [trim_word hbefore (hname.isWord_iff.mpr (isWord_name he)) hne hafter]
  exact ⟨hne, hname⟩

theorem named_iff : Named t e ↔ e ∈ listed ∧ CaseVariant (trim t) e.name := by
  refine ⟨fun h => ⟨h.1, h.unblanked.2⟩, fun ⟨he, hname⟩ => ?_⟩
  obtain ⟨before, after, ht, hbefore, hafter⟩ := exists_trim t
  exact ⟨he, before, trim t, after, ht, hbefore, hname, hafter⟩

theorem parse?_eq_some_iff : parse? t = some e ↔ Named t e := by
  rw [parse?]
  by_cases hnil : trim t = []
  · rw [if_pos hnil]
    exact iff_of_false (fun h => nomatch h) fun h => h.unblanked.1 hnil
  rw [if_neg hnil]
  dsimp only
  by_cases hword : IsWord (trim t)
  · rw [read_of_isWord hword, named_iff, ← lookup_eq_some_iff hnil]
    cases hlookup : vocabulary.lookup (trim t) with
    | none => simp [vocabulary, sentinel]
    | some rank =>
      have hlisted := (lookup_eq_some_iff (e := ⟨rank⟩) hnil).mp hlookup
      have hne : ∀ e ∈ listed, e.rank ≠ sentinel.rank := by decide
      obtain ⟨other⟩ := e
      simp [hne _ hlisted.1]
  · have hend : (vocabulary.read (trim t)).atEnd = false := by
      rw [← Bool.not_eq_true, atEnd_read]
      exact hword
    rw [hend, if_pos (.inr rfl)]
    refine iff_of_false (fun h => nomatch h) fun h => hword ?_
    exact h.unblanked.2.isWord_iff.mpr (isWord_name h.1)

theorem parse?_eq_none_iff : parse? t = none ↔ ∀ e, ¬Named t e := by
  rw [Option.eq_none_iff_forall_ne_some]
  exact forall_congr' fun e => not_congr parse?_eq_some_iff

end Environment

namespace Host

def Given (host : Host) (name t : Text) : Prop := Assoc.get? name host.envVars = some t ∧ t ≠ []

variable {host : Host} {name t : Text}

theorem given_iff : host.Given name t ↔ host.variableValue name = t ∧ t ≠ [] := by
  rw [Given, variableValue]
  cases Assoc.get? name host.envVars with
  | none => simp [eq_comm]
  | some val => simp

end Host

namespace Settings

open Environment

variable {host : Host}

theorem fromHost_of_not_given (h : ∀ t, ¬host.Given environmentVariable t) :
    ∃ logDir, fromHost host = .ok ⟨development, logDir⟩ := by
  have hnil : host.variableValue environmentVariable = [] := by
    by_contra hne
    exact h _ (Host.given_iff.mpr ⟨rfl, hne⟩)
  rw [fromHost]
  rw [if_pos hnil]
  exact ⟨_, rfl⟩

theorem fromHost_of_given {t : Text} (h : host.Given environmentVariable t) :
    ∃ logDir, fromHost host = match parse? t with
      | none => .error (.fault (.unknownEnvironment (environmentVariable ++ ascii "=" ++ t)))
      | some e => .ok ⟨e, logDir⟩ := by
  obtain ⟨hval, hne⟩ := Host.given_iff.mp h
  rw [fromHost]
  rw [hval, if_neg hne]
  exact ⟨_, rfl⟩

end Settings

namespace Environment

open Settings

/-- A text is read as the environment it names, and not at all if it names none. The variable of a
host is at fault exactly if it is set and not empty and names no environment; else the settings have
the environment it names, or that of development if it is not set or empty. -/
theorem parse_exact (t : Text) (host : Host) :
    (∀ e, parse? t = some e ↔ Named t e) ∧
    (parse? t = none ↔ ∀ e, ¬Named t e) ∧
    (∀ r, fromHost host = .error r ↔ ∃ val, host.Given environmentVariable val ∧
      (∀ e, ¬Named val e) ∧
      r = .fault (.unknownEnvironment (environmentVariable ++ ascii "=" ++ val))) ∧
    ∀ e, (∃ settings, fromHost host = .ok settings ∧ settings.environment = e) ↔
      (∃ val, host.Given environmentVariable val ∧ Named val e) ∨
        (∀ val, ¬host.Given environmentVariable val) ∧ e = development := by
  refine ⟨fun e => parse?_eq_some_iff, parse?_eq_none_iff, ?_⟩
  by_cases hgiven : ∃ val, host.Given environmentVariable val
  · obtain ⟨val, hval⟩ := hgiven
    have hgives : ∀ {P : Text → Prop}, (∃ other, host.Given environmentVariable other ∧ P other) ↔
        P val :=
      ⟨fun ⟨_, hother, hP⟩ => Option.some.inj (hother.1.symm.trans hval.1) ▸ hP,
        fun hP => ⟨val, hval, hP⟩⟩
    have hsome : ¬∀ other, ¬host.Given environmentVariable other := fun h => h val hval
    obtain ⟨logDir, hsettings⟩ := fromHost_of_given hval
    simp only [hgives, hsome, false_and, or_false, hsettings, ← parse?_eq_some_iff]
    cases parse? val with
    | none => simp [eq_comm]
    | some e => simp
  · rw [not_exists] at hgiven
    obtain ⟨logDir, hsettings⟩ := fromHost_of_not_given hgiven
    simp [hsettings, hgiven, eq_comm]

example : parse? (ascii " \t StaGing\r\n") = some staging := by decide

example : parse? (ascii "stag ing") = none := by decide

end Environment

end StructuredLog
