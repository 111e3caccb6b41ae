import Mathlib.Data.List.Basic
import StructuredLog.Proofs.Context.Merging
import StructuredLog.Proofs.Filters.Pipeline

/-!
# Pipelines of levels and redactions

A pipeline without users' filters raises nothing. It vetoes the records that one of its levels
does not admit, and in the others it replaces the values of matching fields: each by the sentinel
of the last redaction that matches. A built logger has the filters it was configured with, and a
redaction behind them if there is none among them.
-/

namespace StructuredLog

namespace Filter

def NoneCustom (filters : List Filter) : Prop := ∀ object apply, .custom object apply ∉ filters

def PassesLevels (filters : List Filter) (s : Severity) : Prop := ∀ m, .level m ∈ filters → m ≤ s

def sentinel? (key : Text) : Filter → Option Text
  | sensitive r => if r.isSensitive key then some r.sentinel else none
  | _ => none

/-- What the filters leave of the value of a field: the last redaction that matches counts. -/
def shown (filters : List Filter) (key : Text) (v : Value) : Value :=
  match filters.reverse.findSome? (sentinel? key) with
  | some sentinel => .text sentinel
  | none => v

def shownFields (filters : List Filter) (f : Fields) : Fields :=
  ⟨f.toList.map fun e => (e.1, shown filters e.1 e.2)⟩

variable {filters : List Filter}

theorem NoneCustom.of_cons {f : Filter} (h : NoneCustom (f :: filters)) : NoneCustom filters :=
  fun object apply hmem => h object apply (List.mem_cons_of_mem _ hmem)

theorem shown_nil (key : Text) (v : Value) : shown [] key v = v := rfl

theorem shown_sensitive_cons (r : Redaction) (filters : List Filter) (key : Text) (v : Value) :
    shown (.sensitive r :: filters) key v = shown filters key (r.cover key v) := by
  simp only [shown, List.reverse_cons, List.findSome?_append]
  cases filters.reverse.findSome? (sentinel? key) with
  | some sentinel => rfl
  | none => by_cases hkey : r.isSensitive key <;> simp [sentinel?, Redaction.cover, hkey]

theorem shown_level_cons (m : Severity) (filters : List Filter) (key : Text) (v : Value) :
    shown (.level m :: filters) key v = shown filters key v := by
  simp only [shown, List.reverse_cons, List.findSome?_append]
  cases filters.reverse.findSome? (sentinel? key) <;> rfl

theorem shownFields_nil (f : Fields) : shownFields [] f = f := by
  simp [shownFields, shown_nil]

theorem shownFields_sensitive_cons (r : Redaction) (filters : List Filter) (f : Fields) :
    shownFields (.sensitive r :: filters) f = shownFields filters (r.redact f) := by
  simp [shownFields, Redaction.redact, shown_sensitive_cons]

theorem shownFields_level_cons (m : Severity) (filters : List Filter) (f : Fields) :
    shownFields (.level m :: filters) f = shownFields filters f := by
  simp only [shownFields, shown_level_cons]

theorem keys_shownFields (filters : List Filter) (f : Fields) :
    (shownFields filters f).keys = f.keys := f.keys_revalued (shown filters)

theorem find?_shownFields (filters : List Filter) (f : Fields) (key : Text) :
    (shownFields filters f).find? key = (f.find? key).map (shown filters key) :=
  f.find?_revalued (shown filters) key

theorem passesLevels_level_cons {m s : Severity} :
    PassesLevels (.level m :: filters) s ↔ m ≤ s ∧ PassesLevels filters s := by
  simp [PassesLevels, or_imp, forall_and]

theorem passesLevels_sensitive_cons {r : Redaction} {s : Severity} :
    PassesLevels (.sensitive r :: filters) s ↔ PassesLevels filters s := by
  simp [PassesLevels]

theorem pipeline_of_passesLevels (hcustom : NoneCustom filters) {record : Record}
    (hlevels : PassesLevels filters record.severity) :
    pipeline filters record = .delivered
      { record with
        context := shownFields filters record.context
        extra := shownFields filters record.extra } := by
  induction filters generalizing record with
  | nil => simp [pipeline, shownFields_nil]
  | cons f rest ih =>
    cases f with
    | level m =>
      obtain ⟨hkept, hrest⟩ := passesLevels_level_cons.mp hlevels
      simp only [pipeline, apply, decide_eq_true hkept, if_true, ih hcustom.of_cons hrest,
        shownFields_level_cons]
    | sensitive r =>
      have hrest : PassesLevels rest (redactRecord r record).severity :=
        passesLevels_sensitive_cons.mp hlevels
      simp only [pipeline, apply, if_true, ih hcustom.of_cons hrest, shownFields_sensitive_cons]
      rfl
    | custom object apply => exact absurd List.mem_cons_self (hcustom object apply)

theorem pipeline_of_not_passesLevels (hcustom : NoneCustom filters) {record : Record}
    (hlevels : ¬PassesLevels filters record.severity) : pipeline filters record = .vetoed := by
  induction filters generalizing record with
  | nil => exact absurd (fun _ hm => nomatch hm) hlevels
  | cons f rest ih =>
    cases f with
    | level m =>
      rw [passesLevels_level_cons, not_and] at hlevels
      by_cases hkept : m ≤ record.severity
      · simp only [pipeline, apply, decide_eq_true hkept, if_true,
          ih hcustom.of_cons (hlevels hkept)]
      · simp only [pipeline, apply, decide_eq_false hkept, Bool.false_eq_true, if_false]
    | sensitive r =>
      have hrest : ¬PassesLevels rest (redactRecord r record).severity :=
        mt passesLevels_sensitive_cons.mpr hlevels
      simp only [pipeline, apply, if_true, ih hcustom.of_cons hrest]
    | custom object apply => exact absurd List.mem_cons_self (hcustom object apply)

end Filter

namespace Logger

open StructuredLog.Filter Record

theorem presentFilters?_eq_some {configured : List (Option Filter)} {filters : List Filter} :
    presentFilters? configured = some filters ↔ configured = filters.map some := by
  induction configured generalizing filters with
  | nil => cases filters <;> simp [presentFilters?]
  | cons o rest ih =>
    cases o with
    | none => cases filters <;> simp [presentFilters?]
    | some f => cases filters <;> simp [presentFilters?, ih, and_comm]

theorem presentFilters?_eq_none {configured : List (Option Filter)} :
    presentFilters? configured = none ↔ none ∈ configured := by
  induction configured with
  | nil => simp [presentFilters?]
  | cons o rest ih => cases o <;> simp [presentFilters?, ih]

theorem filters_of_build {config : LoggerConfig} {fallback : Channel} {host host' : Host}
    {l : Logger} (hbuild : build config fallback host = (.ok l, host')) :
    ∃ configured, config.filters = configured.map some ∧ l.filters = withRedaction configured := by
  rw [build] at hbuild
  split at hbuild
  · cases hbuild
  · rename_i filters hpresent
    split at hbuild
    · cases hbuild
    · cases hbuild
      exact ⟨filters, presentFilters?_eq_some.mp hpresent, rfl⟩

theorem mem_withRedaction_of_mem {filters : List Filter} {f : Filter} (hf : f ∈ filters) :
    f ∈ withRedaction filters := by
  rw [withRedaction]
  split
  · exact hf
  · exact List.mem_append_left _ hf

theorem mem_of_mem_withRedaction {filters : List Filter} {f : Filter}
    (hf : f ∈ withRedaction filters) (hne : f ≠ .sensitive .standard) : f ∈ filters := by
  rw [withRedaction] at hf
  split at hf
  · exact hf
  · rcases List.mem_append.mp hf with hf | hf
    · exact hf
    · exact absurd (List.mem_singleton.mp hf) hne

theorem noneCustom_withRedaction {filters : List Filter} :
    NoneCustom (withRedaction filters) ↔ NoneCustom filters :=
  ⟨fun h identity apply hmem => h identity apply (mem_withRedaction_of_mem hmem),
    fun h identity apply hmem => h identity apply (mem_of_mem_withRedaction hmem nofun)⟩

theorem passesLevels_withRedaction {filters : List Filter} {s : Severity} :
    PassesLevels (withRedaction filters) s ↔ PassesLevels filters s :=
  ⟨fun h m hmem => h m (mem_withRedaction_of_mem hmem),
    fun h m hmem => h m (mem_of_mem_withRedaction hmem nofun)⟩

theorem noneCustom_of_build {config : LoggerConfig} {fallback : Channel} {host host' : Host}
    {l : Logger} (hbuild : build config fallback host = (.ok l, host'))
    (hcustom : ∀ object apply, some (.custom object apply) ∉ config.filters) :
    NoneCustom l.filters := by
  obtain ⟨configured, hconfigured, hfilters⟩ := filters_of_build hbuild
  rw [hfilters, noneCustom_withRedaction]
  exact fun object apply hmem => hcustom object apply (hconfigured ▸ List.mem_map_of_mem hmem)

theorem handed?_of_passesLevels {l : Logger} {call : LogCall} (hcustom : NoneCustom l.filters)
    (hadmits : l.admits call.severity = true) (hlevels : PassesLevels l.filters call.severity)
    (setting : CallSetting) (host : Host) :
    l.handed? call setting host = some
      { l.recordOf call setting host with
        context := shownFields l.filters (setting.context.eraseIf isReserved)
        extra := shownFields l.filters (call.extra.eraseIf isReserved) } :=
  handed?_eq_some.mpr ⟨hadmits, pipeline_of_passesLevels hcustom hlevels⟩

end Logger

end StructuredLog
