import StructuredLog.Proofs.Context.Merging
import StructuredLog.Proofs.Filters.BuiltIn

/-!
# The fields that reach the handlers

With no filters but levels and redactions, the record of a call carries the fields of the frames
and of the caller, each once and in order, without those that have a reserved name, and with the
values that redactions match replaced. Main statement: `handed_fields`.
-/

namespace StructuredLog

namespace Logger

open StructuredLog.ContextStore StructuredLog.Filter StructuredLog.Record StructuredLog.Text

/-- A logger built without users' filters hands every call that passes its level and those of its
filters to all its handlers, whatever they have gone through, and the record carries: no reserved
name; in the context the names of all frames in the order in which they first appear from the
outermost frame on, with the values of the innermost frames; in the extra fields those of the
caller in their order. Values that a redaction in effect matches are replaced by the sentinel of
the last such, all others are as they were. -/
theorem handed_fields {config : LoggerConfig} {fallback : Channel} {host host' : Host}
    {built : Logger} (hbuild : build config fallback host = (.ok built, host'))
    (hcustom : ∀ object apply, some (.custom object apply) ∉ config.filters)
    (handlers : List Handler) {call : LogCall} (hadmits : built.admits call.severity = true)
    (hlevels : ∀ m, some (.level m) ∈ config.filters → m ≤ call.severity) {s : ContextStore}
    {thread : ThreadId} (hframes : ∀ f ∈ s.stack thread, f.fields.keys.Nodup)
    (handling : Option Raised) (frames : List Text) (now : Host) :
    let l := { built with handlers := handlers }
    ∃ configured record, config.filters = configured.map some ∧
      l.filters = withRedaction configured ∧
      l.log call ⟨s.merged thread, handling, frames⟩ now =
        ({ l with handlers := (Handler.handleAll record handlers now).1 },
          (Handler.handleAll record handlers now).2) ∧
      (∀ key ∈ record.context.keys ++ record.extra.keys, isReserved key = false) ∧
      record.context.keys = (firstNames (s.stack thread)).filter (fun key => !isReserved key) ∧
      record.context.keys.Nodup ∧
      (∀ key, isReserved key = false →
        record.context.find? key =
          (innermost? (s.stack thread) key).map (shown (withRedaction configured) key)) ∧
      record.extra.toList = (call.extra.toList.filter fun e => !isReserved e.1).map fun e =>
        (e.1, shown (withRedaction configured) e.1 e.2) := by
  intro l
  obtain ⟨configured, hconfigured, hfilters⟩ := filters_of_build hbuild
  have hl : l.filters = withRedaction configured := hfilters
  have hnone : NoneCustom built.filters := noneCustom_of_build hbuild hcustom
  have hpasses : PassesLevels l.filters call.severity := by
    rw [hl, passesLevels_withRedaction]
    exact fun m hmem => hlevels m (hconfigured ▸ List.mem_map_of_mem hmem)
  have hhanded :=
    handed?_of_passesLevels hnone hadmits hpasses ⟨s.merged thread, handling, frames⟩ now
  refine ⟨configured, _, hconfigured, hl, log_of_handed? hhanded, ?_, ?_, ?_, ?_, ?_⟩
  · intro key hkey
    simp only [keys_shownFields, Fields.keys_eraseIf, List.mem_append, List.mem_filter] at hkey
    rcases hkey with ⟨-, hkey⟩ | ⟨-, hkey⟩ <;> simpa using hkey
  · rw [keys_shownFields, Fields.keys_eraseIf, merged, keys_mergeFrames]
  · rw [keys_shownFields, Fields.keys_eraseIf]
    exact (nodup_keys_mergeFrames _).filter _
  · intro key hkey
    rw [find?_shownFields, Fields.find?_eraseIf_of_not hkey, merged, find?_mergeFrames hframes, hl]
  · rw [hl]
    rfl

def twoRedactions : List Filter :=
  [.sensitive (.extended [ascii "user"] (ascii "A")), .level .info,
    .sensitive (.extended [] (ascii "B"))]

def twiceRedacting : LoggerConfig :=
  { LoggerConfig.basic with handlers := [.basic], filters := twoRedactions.map some }

def nestedFrames : ContextStore :=
  ((ContextStore.empty.enter 0 ⟨[(ascii "user", .int 1), (ascii "token", .int 2),
      (ascii "try", .int 3)]⟩).2.enter 0 ⟨[(ascii "level", .null), (ascii "try", .int 4)]⟩).2

def userCall : LogCall :=
  LogMethod.info.call (ascii "m") ⟨[(ascii "error", .null), (ascii "user", .int 5)]⟩ none
    Origin.unknown

theorem handed_fields_nestedFrames :
    ∃ built host record,
      build twiceRedacting .standardError (Host.fresh ⟨0, 0, 0⟩) = (.ok built, host) ∧
      built.log userCall ⟨nestedFrames.merged 0, none, []⟩ host =
        ({ built with handlers := (Handler.handleAll record built.handlers host).1 },
          (Handler.handleAll record built.handlers host).2) ∧
      record.context.keys = [ascii "user", ascii "token", ascii "try"] ∧
      record.context.find? (ascii "user") = some (.text (ascii "A")) ∧
      record.context.find? (ascii "token") = some (.text (ascii "B")) ∧
      record.context.find? (ascii "try") = some (.int 4) ∧
      record.extra.toList = [(ascii "user", .text (ascii "A"))] := by
  obtain ⟨built, host, hbuild, hadmits⟩ : ∃ built host,
      build twiceRedacting .standardError (Host.fresh ⟨0, 0, 0⟩) = (.ok built, host) ∧
        built.admits userCall.severity = true := ⟨_, _, rfl, by decide⟩
  have hcustom : ∀ object apply, some (.custom object apply) ∉ twiceRedacting.filters := by
    simp [twiceRedacting, twoRedactions]
  have hlevels : ∀ m, some (.level m) ∈ twiceRedacting.filters → m ≤ userCall.severity := by
    have hinfo : Severity.info ≤ userCall.severity := by decide
    simpa [twiceRedacting, twoRedactions] using hinfo
  have hframes : ∀ f ∈ nestedFrames.stack 0, f.fields.keys.Nodup := by decide
  obtain ⟨configured, record, hconfigured, -, hlog, -, hkeys, -, hfind, hextra⟩ :=
    handed_fields hbuild hcustom built.handlers hadmits hlevels hframes none [] host
  have hsame : twoRedactions = configured :=
    List.map_injective_iff.mpr (fun _ _ => Option.some.inj) hconfigured
  subst hsame
  refine ⟨built, host, record, hbuild, hlog, hkeys.trans (by decide), ?_, ?_, ?_,
    hextra.trans (by decide)⟩
  · exact (hfind _ (by decide)).trans (by decide)
  · exact (hfind _ (by decide)).trans (by decide)
  · exact (hfind _ (by decide)).trans (by decide)

end Logger

end StructuredLog
