import Mathlib.Data.List.Basic
import StructuredLog.Logger

/-!
# Pipelines in parts

What a pipeline delivers is what its second part delivers from the record the first part passed
on, so the filters in front of, at and behind a redaction can be looked at separately. The record
a log call hands to the handlers is the one its pipeline delivers.
-/

namespace StructuredLog

namespace Filter

theorem pipeline_append (first rest : List Filter) (record : Record) :
    pipeline (first ++ rest) record =
      match pipeline first record with
      | .delivered passed => pipeline rest passed
      | .vetoed => .vetoed
      | .raised r => .raised r := by
  induction first generalizing record with
  | nil => rfl
  | cons f first ih =>
    simp only [List.cons_append, pipeline]
    cases f.apply record with
    | error r => rfl
    | ok v =>
      dsimp only
      split
      · exact ih v.record
      · rfl

theorem pipeline_append_delivered {first rest : List Filter} {record final : Record} :
    pipeline (first ++ rest) record = .delivered final ↔
      ∃ passed, pipeline first record = .delivered passed ∧
        pipeline rest passed = .delivered final := by
  rw [pipeline_append]
  cases pipeline first record <;> simp

theorem pipeline_singleton_sensitive (r : Redaction) (record : Record) :
    pipeline [.sensitive r] record = .delivered (redactRecord r record) := rfl

theorem pipeline_cons_delivered {f : Filter} {rest : List Filter} {record final : Record} :
    pipeline (f :: rest) record = .delivered final ↔
      ∃ v, f.apply record = .ok v ∧ v.kept = true ∧ pipeline rest v.record = .delivered final := by
  rw [pipeline]
  cases f.apply record with
  | error r => simp
  | ok v => cases hv : v.kept <;> simp [hv]

theorem pipeline_preserves {P : Record → Prop} {filters : List Filter}
    (hkeep : ∀ f ∈ filters, ∀ record v, P record → f.apply record = .ok v → v.kept = true →
      P v.record)
    {record final : Record} (hP : P record)
    (hfinal : pipeline filters record = .delivered final) : P final := by
  induction filters generalizing record with
  | nil =>
    cases hfinal
    exact hP
  | cons f rest ih =>
    obtain ⟨v, happly, hkept, hrest⟩ := pipeline_cons_delivered.mp hfinal
    have hv := hkeep f List.mem_cons_self record v hP happly hkept
    exact ih (fun g hg => hkeep g (List.mem_cons_of_mem _ hg)) hv hrest

end Filter

namespace Logger

/-- The record that a log call hands to the handlers, if it gets that far. -/
def handed? (l : Logger) (call : LogCall) (setting : CallSetting) (host : Host) : Option Record :=
  if l.admits call.severity then
    match Filter.pipeline l.filters (l.recordOf call setting host) with
    | .delivered record => some record
    | _ => none
  else none

theorem handed?_eq_some {l : Logger} {call : LogCall} {setting : CallSetting} {host : Host}
    {record : Record} :
    l.handed? call setting host = some record ↔
      l.admits call.severity = true ∧
        Filter.pipeline l.filters (l.recordOf call setting host) = .delivered record := by
  unfold handed?
  split
  · rename_i hadmits
    cases Filter.pipeline l.filters (l.recordOf call setting host) <;> simp [hadmits]
  · rename_i hadmits
    simp [hadmits]

theorem log_of_handed? {l : Logger} {call : LogCall} {setting : CallSetting} {host : Host}
    {record : Record} (h : l.handed? call setting host = some record) :
    l.log call setting host =
      ({ l with handlers := (Handler.handleAll record l.handlers host).1 },
        (Handler.handleAll record l.handlers host).2) := by
  obtain ⟨hadmits, hpipe⟩ := handed?_eq_some.mp h
  rw [log, if_pos hadmits, hpipe]

end Logger

end StructuredLog
