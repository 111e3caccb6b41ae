import Mathlib.Data.List.DropRight
import StructuredLog.Proofs.Filters.Pipeline
import StructuredLog.Proofs.Text.Letters

/-!
# Where a redaction has to stand

A redaction covers every field it sees, so the fields of the record that leaves the last
redaction of a pipeline are covered. What a logger hands out is covered exactly as far as the
filters behind that redaction leave it so. Main statement: `handed_covered_iff`; a user's filter
behind the last redaction can put a password into the record, as `exposed_password` shows. A user's
filter that only counts as a redaction is none here, as it may do anything.
-/

namespace StructuredLog

namespace Redaction

def IsBlocklisted (key : Text) : Prop :=
  ∃ entry ∈ defaultBlocklist, Text.lower entry <:+: Text.lower key

def IsExtension (r : Redaction) : Prop := ∃ additional, r = extended additional r.sentinel

theorem isExtension_standard : standard.IsExtension := ⟨[], rfl⟩

theorem isSensitive_of_isBlocklisted {r : Redaction} (hr : r.IsExtension) {key : Text}
    (hkey : IsBlocklisted key) : r.isSensitive key = true := by
  obtain ⟨additional, hr⟩ := hr
  obtain ⟨entry, hentry, hinfix⟩ := hkey
  rw [isSensitive, List.any_eq_true]
  refine ⟨entry, ?_, Text.contains_iff_infix.mpr hinfix⟩
  rw [hr]
  exact List.mem_append_left _ hentry

theorem mem_redact {r : Redaction} {f : Fields} {e : Text × Value} :
    e ∈ (r.redact f).toList ↔ ∃ v, (e.1, v) ∈ f.toList ∧ e.2 = r.cover e.1 v := by
  obtain ⟨key, val⟩ := e
  simp only [redact, List.mem_map, Prod.exists, Prod.mk.injEq]
  constructor
  · rintro ⟨k, v, hmem, rfl, rfl⟩
    exact ⟨v, hmem, rfl⟩
  · rintro ⟨v, hmem, rfl⟩
    exact ⟨key, v, hmem, rfl, rfl⟩

end Redaction

namespace Filter

/-- Every blocklisted field holds the sentinel of one of the redactions among the filters. -/
def Covers (filters : List Filter) (record : Record) : Prop :=
  ∀ e ∈ record.context.toList ++ record.extra.toList, Redaction.IsBlocklisted e.1 →
    ∃ r, .sensitive r ∈ filters ∧ e.2 = .text r.sentinel

theorem covers_redactRecord {filters : List Filter} {r : Redaction} (hmem : .sensitive r ∈ filters)
    (hr : r.IsExtension) (record : Record) : Covers filters (redactRecord r record) := by
  intro e he hkey
  have hcover : ∃ v, e.2 = r.cover e.1 v := by
    rcases List.mem_append.mp he with he | he
    · obtain ⟨v, -, hv⟩ := Redaction.mem_redact.mp he
      exact ⟨v, hv⟩
    · obtain ⟨v, -, hv⟩ := Redaction.mem_redact.mp he
      exact ⟨v, hv⟩
  obtain ⟨v, hv⟩ := hcover
  refine ⟨r, hmem, ?_⟩
  rw [hv, Redaction.cover, if_pos (Redaction.isSensitive_of_isBlocklisted hr hkey)]

def isRedaction : Filter → Bool
  | sensitive _ => true
  | _ => false

theorem any_isRedaction {filters : List Filter} :
    filters.any isRedaction = true ↔ ∃ r, .sensitive r ∈ filters := by
  rw [List.any_eq_true]
  constructor
  · rintro ⟨f, hmem, hf⟩
    cases f with
    | level m => cases hf
    | sensitive r => exact ⟨r, hmem⟩
    | custom object apply => cases hf
  · exact fun ⟨r, hmem⟩ => ⟨_, hmem, rfl⟩

def throughRedaction (filters : List Filter) : List Filter :=
  filters.rdropWhile fun f => !f.isRedaction

def behindRedaction (filters : List Filter) : List Filter :=
  filters.rtakeWhile fun f => !f.isRedaction

theorem throughRedaction_append_behind (filters : List Filter) :
    throughRedaction filters ++ behindRedaction filters = filters :=
  List.rdropWhile_append_rtakeWhile

theorem throughRedaction_eq {filters : List Filter} (h : ∃ r, .sensitive r ∈ filters) :
    ∃ front r, throughRedaction filters = front ++ [.sensitive r] := by
  obtain ⟨f, hmem, hf⟩ := List.any_eq_true.mp (any_isRedaction.mpr h)
  have hne : throughRedaction filters ≠ [] := by
    intro hnil
    have hall := List.rdropWhile_eq_nil_iff.mp hnil f hmem
    simp [hf] at hall
  have hlast := List.rdropWhile_last_not (fun f : Filter => !f.isRedaction) filters hne
  have hsplit := List.dropLast_append_getLast hne
  change ¬(!((throughRedaction filters).getLast hne).isRedaction) = true at hlast
  generalize (throughRedaction filters).getLast hne = g at hlast hsplit
  cases g with
  | level m => exact absurd rfl hlast
  | sensitive r => exact ⟨_, r, hsplit.symm⟩
  | custom object apply => exact absurd rfl hlast

theorem covers_of_throughRedaction {filters : List Filter} (hany : ∃ r, .sensitive r ∈ filters)
    (hext : ∀ r, .sensitive r ∈ filters → r.IsExtension) {record passed : Record}
    (h : pipeline (throughRedaction filters) record = .delivered passed) :
    Covers filters passed := by
  obtain ⟨front, r, hthrough⟩ := throughRedaction_eq hany
  have hmem : .sensitive r ∈ filters := by
    rw [← throughRedaction_append_behind filters, hthrough]
    simp
  rw [hthrough] at h
  obtain ⟨seen, -, hlast⟩ := pipeline_append_delivered.mp h
  rw [pipeline_singleton_sensitive] at hlast
  cases hlast
  exact covers_redactRecord hmem (hext r hmem) seen

theorem not_isRedaction_of_mem_behind {filters : List Filter} {f : Filter}
    (hf : f ∈ behindRedaction filters) : f.isRedaction = false := by
  have h := List.mem_rtakeWhile_imp (p := fun f : Filter => !f.isRedaction) hf
  simpa using h

/-- The filter leaves a covered record covered. -/
def Respects (f : Filter) (filters : List Filter) : Prop :=
  ∀ record v, Covers filters record → f.apply record = .ok v → v.kept = true →
    Covers filters v.record

theorem respects_level (m : Severity) (filters : List Filter) : (level m).Respects filters := by
  intro record v hcovers happly _
  cases happly
  exact hcovers

end Filter

namespace Logger

open StructuredLog.Filter StructuredLog.Text

theorem presentFilters?_mem {configured : List (Option Filter)} {filters : List Filter}
    (h : presentFilters? configured = some filters) {f : Filter} (hf : f ∈ filters) :
    some f ∈ configured := by
  induction configured generalizing filters with
  | nil =>
    cases h
    cases hf
  | cons o rest ih =>
    cases o with
    | none => cases h
    | some g =>
      obtain ⟨tail, htail, rfl⟩ := Option.map_eq_some_iff.mp h
      rcases List.mem_cons.mp hf with rfl | hf
      · exact List.mem_cons_self
      · exact List.mem_cons_of_mem _ (ih htail hf)

theorem any_isSensitive_withRedaction (filters : List Filter) :
    (withRedaction filters).any isSensitive = true := by
  rw [withRedaction]
  split
  · assumption
  · simp [isSensitive]

theorem mem_filters_of_build {config : LoggerConfig} {fallback : Channel} {host host' : Host}
    {l : Logger} (hbuild : build config fallback host = (.ok l, host')) {f : Filter}
    (hf : f ∈ l.filters) : some f ∈ config.filters ∨ f = .sensitive .standard := by
  rw [build] at hbuild
  split at hbuild
  · cases hbuild
  · rename_i filters hpresent
    split at hbuild
    · cases hbuild
    · cases hbuild
      rw [withRedaction] at hf
      split at hf
      · exact Or.inl (presentFilters?_mem hpresent hf)
      · rcases List.mem_append.mp hf with hf | hf
        · exact Or.inl (presentFilters?_mem hpresent hf)
        · exact Or.inr (List.mem_singleton.mp hf)

theorem any_isSensitive_of_build {config : LoggerConfig} {fallback : Channel} {host host' : Host}
    {l : Logger} (hbuild : build config fallback host = (.ok l, host')) :
    l.filters.any isSensitive = true := by
  rw [build] at hbuild
  split at hbuild
  · cases hbuild
  · split at hbuild
    · cases hbuild
    · cases hbuild
      exact any_isSensitive_withRedaction _

/-- A logger has a redaction, unless a user's filter that counts as one stands in for it. -/
theorem exists_sensitive_of_build {config : LoggerConfig} {fallback : Channel} {host host' : Host}
    {l : Logger} (hbuild : build config fallback host = (.ok l, host'))
    (hplain : ∀ object apply, some (.custom object apply) ∈ config.filters →
      object.redacts = false) : ∃ r, .sensitive r ∈ l.filters := by
  obtain ⟨f, hmem, hf⟩ := List.any_eq_true.mp (any_isSensitive_of_build hbuild)
  cases f with
  | level m => cases hf
  | sensitive r => exact ⟨r, hmem⟩
  | custom object apply =>
    rcases mem_filters_of_build hbuild hmem with hmem | hstandard
    · exact absurd hf (by simp [isSensitive, hplain object apply hmem])
    · cases hstandard

/-- A record that some call makes and the last redaction passes on. -/
def Redacted (l : Logger) (record : Record) : Prop :=
  ∃ call setting host, l.admits call.severity = true ∧
    pipeline (throughRedaction l.filters) (l.recordOf call setting host) = .delivered record

theorem handed?_iff_redacted {l : Logger} {final : Record} :
    (∃ call setting host, l.handed? call setting host = some final) ↔
      ∃ record, l.Redacted record ∧
        pipeline (behindRedaction l.filters) record = .delivered final := by
  constructor
  · rintro ⟨call, setting, host, h⟩
    obtain ⟨hadmits, hpipe⟩ := handed?_eq_some.mp h
    rw [← throughRedaction_append_behind l.filters] at hpipe
    obtain ⟨record, hthrough, hbehind⟩ := pipeline_append_delivered.mp hpipe
    exact ⟨record, ⟨call, setting, host, hadmits, hthrough⟩, hbehind⟩
  · rintro ⟨record, ⟨call, setting, host, hadmits, hthrough⟩, hbehind⟩
    refine ⟨call, setting, host, handed?_eq_some.mpr ⟨hadmits, ?_⟩⟩
    rw [← throughRedaction_append_behind l.filters]
    exact pipeline_append_delivered.mpr ⟨record, hthrough, hbehind⟩

/-- A logger's records are covered exactly if the filters behind its last redaction deliver
covered records from those it passes on. A logger has a redaction unless a user's filter that counts
as one was configured; then those it passes on are covered themselves, so it is enough that the
users' filters behind it put nothing blocklisted into a covered record. -/
theorem handed_covered_iff {config : LoggerConfig} {fallback : Channel} {host host' : Host}
    {l : Logger} (hbuild : build config fallback host = (.ok l, host'))
    (hext : ∀ r, some (.sensitive r) ∈ config.filters → r.IsExtension) :
    ((∀ call setting host record, l.handed? call setting host = some record →
        Covers l.filters record) ↔
      ∀ record final, l.Redacted record →
        pipeline (behindRedaction l.filters) record = .delivered final →
        Covers l.filters final) ∧
    ((∀ object apply, some (.custom object apply) ∈ config.filters → object.redacts = false) →
      ∃ r, .sensitive r ∈ l.filters) ∧
    ((∃ r, .sensitive r ∈ l.filters) →
      (∀ record, l.Redacted record → Covers l.filters record) ∧
      ((∀ object apply, .custom object apply ∈ behindRedaction l.filters →
          (Filter.custom object apply).Respects l.filters) →
        ∀ call setting host record, l.handed? call setting host = some record →
          Covers l.filters record)) := by
  have hextensions : ∀ r, .sensitive r ∈ l.filters → r.IsExtension := by
    intro r hr
    rcases mem_filters_of_build hbuild hr with hr | hr
    · exact hext r hr
    · cases hr
      exact Redaction.isExtension_standard
  refine ⟨⟨?_, ?_⟩, exists_sensitive_of_build hbuild, fun hany => ?_⟩
  · intro h record final hrecord hbehind
    obtain ⟨call, setting, host, hhanded⟩ := handed?_iff_redacted.mpr ⟨record, hrecord, hbehind⟩
    exact h call setting host final hhanded
  · intro h call setting host final hhanded
    obtain ⟨record, hrecord, hbehind⟩ := handed?_iff_redacted.mp ⟨call, setting, host, hhanded⟩
    exact h record final hrecord hbehind
  · have hcovered : ∀ record, l.Redacted record → Covers l.filters record := by
      rintro record ⟨call, setting, host, -, hthrough⟩
      exact covers_of_throughRedaction hany hextensions hthrough
    refine ⟨hcovered, fun hrespect call setting host final hhanded => ?_⟩
    obtain ⟨record, hrecord, hbehind⟩ := handed?_iff_redacted.mp ⟨call, setting, host, hhanded⟩
    refine pipeline_preserves ?_ (hcovered record hrecord) hbehind
    intro f hf
    cases f with
    | level m => exact respects_level m l.filters
    | sensitive r => cases not_isRedaction_of_mem_behind hf
    | custom object apply => exact hrespect object apply hf

def settingFilter (key val : Text) : Filter :=
  .custom (.plain 0) fun record =>
    .ok ⟨true, { record with extra := record.extra.set key (.text val) }⟩

def exposingConfig : LoggerConfig :=
  { LoggerConfig.basic with
    handlers := [.basic]
    filters := [some (.sensitive .standard),
      some (settingFilter (ascii "password") (ascii "hunter2"))] }

def coveringConfig : LoggerConfig :=
  { exposingConfig with filters := exposingConfig.filters.reverse }

theorem handed_covered_coveringConfig :
    (∀ r, some (.sensitive r) ∈ coveringConfig.filters → r.IsExtension) ∧
    ∃ l host, build coveringConfig .standardError (Host.fresh ⟨0, 0, 0⟩) = (.ok l, host) ∧
      ∀ call setting host record, l.handed? call setting host = some record →
        Covers l.filters record := by
  have hext : ∀ r, some (.sensitive r) ∈ coveringConfig.filters → r.IsExtension := by
    intro r hr
    rcases List.mem_cons.mp hr with hr | hr
    · cases hr
    · cases List.mem_singleton.mp hr
      exact Redaction.isExtension_standard
  have hbuild : build coveringConfig .standardError (Host.fresh ⟨0, 0, 0⟩) = _ := rfl
  obtain ⟨-, hredaction, hcovered⟩ := handed_covered_iff hbuild hext
  have hplain : ∀ object apply, some (.custom object apply) ∈ coveringConfig.filters →
      object.redacts = false := by
    intro object apply hmem
    rcases List.mem_cons.mp hmem with hmem | hmem
    · cases hmem
      rfl
    · cases List.mem_singleton.mp hmem
  refine ⟨hext, _, _, hbuild, (hcovered (hredaction hplain)).2 ?_⟩
  intro object apply hmem
  cases hmem

def plainCall : LogCall := LogMethod.info.call (ascii "m") Fields.empty none Origin.unknown

theorem exposed_password :
    (∀ r, some (.sensitive r) ∈ exposingConfig.filters → r.IsExtension) ∧
    ∃ l record, (build exposingConfig .standardError (Host.fresh ⟨0, 0, 0⟩)).1 = .ok l ∧
      l.handed? plainCall ⟨Fields.empty, none, []⟩ (Host.fresh ⟨0, 0, 0⟩) = some record ∧
      (ascii "password", Value.text (ascii "hunter2")) ∈ record.extra.toList ∧
      ¬Covers l.filters record := by
  refine ⟨?_, _, _, rfl, rfl, List.mem_singleton.mpr rfl, ?_⟩
  · intro r hr
    rcases List.mem_cons.mp hr with hr | hr
    · cases hr
      exact Redaction.isExtension_standard
    · cases List.mem_singleton.mp hr
  · intro hcovers
    obtain ⟨r, hr, hval⟩ := hcovers _ (List.mem_singleton.mpr rfl)
      ⟨ascii "password", by decide, List.infix_rfl⟩
    rcases List.mem_cons.mp hr with hr | hr
    · cases hr
      revert hval
      decide
    · cases List.mem_singleton.mp hr

end Logger

end StructuredLog
