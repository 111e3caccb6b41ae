import StructuredLog.Proofs.Delivery.Handling
import StructuredLog.Proofs.Filters.BuiltIn
import StructuredLog.Proofs.Redaction.Secrecy

/-!
# One call, one verdict

A call that its logger admits ends in one of three ways: all filters keep the record and the
handlers get what they made of it, a first filter vetoes, or a first filter raises and one notice
goes to the fallback stream. An entry that was dropped makes no difference later on, except that
the notice stands where it was written. Main statement: `log_by_verdict`. The notice is lost if
the fallback stream refuses it, and that stream takes no more, as `notice_lost` shows.
-/

namespace StructuredLog

namespace Filter

/-- All filters keep the record, each as the one before passes it on; `passed` is what the last
one passes on. -/
inductive Keeps : List Filter → Record → Record → Prop
  | nil (record : Record) : Keeps [] record record
  | cons {f : Filter} {rest : List Filter} {record passed : Record} {v : Verdict}
    (happly : f.apply record = .ok v) (hkept : v.kept = true)
    (hrest : Keeps rest v.record passed) : Keeps (f :: rest) record passed

def Judges (front : List Filter) (f : Filter) (record : Record) (verdict : Except Raised Verdict) :
    Prop := ∃ passed, Keeps front record passed ∧ f.apply passed = verdict

variable {filters front behind : List Filter} {f : Filter} {record final : Record}

theorem pipeline_eq_delivered_iff :
    pipeline filters record = .delivered final ↔ Keeps filters record final := by
  constructor
  · intro h
    induction filters generalizing record with
    | nil =>
      cases h
      exact .nil _
    | cons f rest ih =>
      obtain ⟨v, happly, hkept, hrest⟩ := pipeline_cons_delivered.mp h
      exact .cons happly hkept (ih hrest)
  · intro h
    induction h with
    | nil => rfl
    | cons happly hkept _ ih => exact pipeline_cons_delivered.mpr ⟨_, happly, hkept, ih⟩

theorem Judges.vetoed {v : Verdict} (h : Judges front f record (.ok v)) (hkept : v.kept = false)
    (behind : List Filter) : pipeline (front ++ f :: behind) record = .vetoed := by
  obtain ⟨passed, hkeeps, happly⟩ := h
  rw [pipeline_append, pipeline_eq_delivered_iff.mpr hkeeps]
  simp [pipeline, happly, hkept]

theorem Judges.raised {r : Raised} (h : Judges front f record (.error r)) (behind : List Filter) :
    pipeline (front ++ f :: behind) record = .raised r := by
  obtain ⟨passed, hkeeps, happly⟩ := h
  rw [pipeline_append, pipeline_eq_delivered_iff.mpr hkeeps]
  simp [pipeline, happly]

theorem keeps_or_judges (filters : List Filter) (record : Record) :
    (∃ final, Keeps filters record final) ∨
      ∃ front f behind, filters = front ++ f :: behind ∧
        ((∃ v, v.kept = false ∧ Judges front f record (.ok v)) ∨
          ∃ r, Judges front f record (.error r)) := by
  induction filters generalizing record with
  | nil => exact .inl ⟨record, .nil record⟩
  | cons f rest ih =>
    cases happly : f.apply record with
    | error r => exact .inr ⟨[], f, rest, rfl, .inr ⟨r, record, .nil record, happly⟩⟩
    | ok v =>
      cases hkept : v.kept with
      | false => exact .inr ⟨[], f, rest, rfl, .inl ⟨v, hkept, record, .nil record, happly⟩⟩
      | true =>
        rcases ih v.record with ⟨final, hkeeps⟩ | ⟨front, g, behind, hsplit, hjudges⟩
        · exact .inl ⟨final, .cons happly hkept hkeeps⟩
        · refine .inr ⟨f :: front, g, behind, congrArg (f :: ·) hsplit, ?_⟩
          rcases hjudges with ⟨w, hveto, passed, hkeeps, hw⟩ | ⟨r, passed, hkeeps, hr⟩
          · exact .inl ⟨w, hveto, passed, .cons happly hkept hkeeps, hw⟩
          · exact .inr ⟨r, passed, .cons happly hkept hkeeps, hr⟩

end Filter

structure Host.Differ (R : Text → Text → Text → Prop) (host host' : Host) : Prop where
  streams : host.streams.Agree (fun _ => True) R host'.streams
  files_eq : host.files = host'.files
  clock_eq : host.clock = host'.clock

section

variable {R : Text → Text → Text → Prop} {host host' : Host}

namespace Handler

def SameOutput (output : Output) (files : FileSystem) (output' : Output) (files' : FileSystem) :
    Prop := output = output' ∧ files = files'

theorem keptByWrites_sameOutput : KeptByWrites SameOutput where
  stream h := h.1.symm
  device h := h.1.symm
  received h := ⟨rfl, h.2⟩
  file h := ⟨_, h.1.symm, rfl, rfl⟩
  write := by
    rintro log files log' files' ⟨houtput, rfl⟩ clock entry
    cases houtput
    exact ⟨rfl, rfl, rfl, rfl⟩

theorem Alike.of_differ (h : Handler) (hd : host.Differ R host') :
    Alike SameOutput (fun _ => True) R h h host host' :=
  ⟨rfl, rfl, rfl, fun _ _ => trivial, ⟨rfl, hd.files_eq⟩, hd.streams, hd.clock_eq⟩

theorem Alike.differ {h h' : Handler} (ha : Alike SameOutput (fun _ => True) R h h' host host') :
    h = h' ∧ host.Differ R host' := by
  obtain ⟨threshold, formatter, fallback, output⟩ := h
  obtain ⟨threshold', formatter', fallback', output'⟩ := h'
  obtain rfl : threshold = threshold' := ha.threshold_eq
  obtain rfl : formatter = formatter' := ha.formatter_eq
  obtain rfl : fallback = fallback' := ha.fallback_eq
  obtain ⟨houtput, hfiles⟩ := ha.output
  obtain rfl : output = output' := houtput
  exact ⟨rfl, ha.streams, hfiles, ha.clock_eq⟩

theorem handleAll_differ (hR : Streams.KeptByAppend R) (hd : host.Differ R host') (r : Record)
    (handlers : List Handler) :
    (handleAll r handlers host).1 = (handleAll r handlers host').1 ∧
      (handleAll r handlers host).2.Differ R (handleAll r handlers host').2 := by
  induction handlers generalizing host host' with
  | nil => exact ⟨rfl, hd⟩
  | cons h rest ih =>
    obtain ⟨hhandler, hhandled⟩ :=
      ((Alike.of_differ h hd).handle keptByWrites_sameOutput hR r).differ
    obtain ⟨hrest, hall⟩ := ih hhandled
    exact ⟨congrArg₂ List.cons hhandler hrest, hall⟩

end Handler

namespace Logger

theorem log_differ (hR : Streams.KeptByAppend R) (hd : host.Differ R host') (l : Logger)
    (call : LogCall) (setting : CallSetting) :
    (l.log call setting host).1 = (l.log call setting host').1 ∧
      (l.log call setting host).2.Differ R (l.log call setting host').2 := by
  have hrecord : l.recordOf call setting host' = l.recordOf call setting host := by
    rw [recordOf, recordOf, hd.clock_eq]
  rw [log, log, hrecord]
  split
  · cases Filter.pipeline l.filters (l.recordOf call setting host) with
    | vetoed => exact ⟨rfl, hd⟩
    | raised r =>
      exact ⟨rfl, hd.streams.write hR trivial _, hd.files_eq, hd.clock_eq⟩
    | delivered record =>
      obtain ⟨hhandlers, hhosts⟩ := Handler.handleAll_differ hR hd record l.handlers
      exact ⟨congrArg (fun handlers => { l with handlers := handlers }) hhandlers, hhosts⟩
  · exact ⟨rfl, hd⟩

theorem flush_differ (hR : Streams.KeptByAppend R) (hd : host.Differ R host') (l : Logger) :
    (l.flush host).Differ R (l.flush host') := by
  rw [flush, flush]
  generalize l.handlers = handlers
  induction handlers generalizing host host' with
  | nil => exact hd
  | cons h rest ih =>
    exact ih ((Handler.Alike.of_differ h hd).flush Handler.keptByWrites_sameOutput hR).differ.2

end Logger

end

namespace Workplace

structure Differ (R : Text → Text → Text → Prop) (w w' : Workplace) : Prop where
  context_eq : w.context = w'.context
  logger_eq : w.logger = w'.logger
  host : w.host.Differ R w'.host

variable {R : Text → Text → Text → Prop} {w w' : Workplace}

theorem Differ.apply (hR : Streams.KeptByAppend R) (h : w.Differ R w') (a : Action) :
    (a.apply w).Differ R (a.apply w') := by
  obtain ⟨context, logger, host⟩ := w
  obtain ⟨context', logger', host'⟩ := w'
  obtain ⟨rfl, rfl, hhost⟩ := h
  cases a with
  | enter thread fields => exact ⟨rfl, rfl, hhost⟩
  | exit thread token => exact ⟨rfl, rfl, hhost⟩
  | endThread thread => exact ⟨rfl, rfl, hhost⟩
  | log thread call handling frames =>
    obtain ⟨hlogger, hlogged⟩ :=
      logger.log_differ hR hhost call ⟨context.merged thread, handling, frames⟩
    exact ⟨rfl, hlogger, hlogged⟩
  | flush => exact ⟨rfl, rfl, logger.flush_differ hR hhost⟩
  | advance n =>
    exact ⟨rfl, rfl, hhost.streams, hhost.files_eq, congrArg (·.advance n) hhost.clock_eq⟩

theorem Differ.run (hR : Streams.KeptByAppend R) (h : w.Differ R w') (actions : List Action) :
    (w.run actions).Differ R (w'.run actions) := by
  induction actions generalizing w w' with
  | nil => exact h
  | cons a actions ih => exact ih (h.apply hR a)

end Workplace

/-- The contents of a sink without and with a notice behind what it held before; those of other
sinks are the same. -/
def NoticeIn (sink before notice : Text) (name content content' : Text) : Prop :=
  (name = sink → ∃ since, content = before ++ since ∧ content' = before ++ notice ++ since) ∧
    (name ≠ sink → content = content')

theorem keptByAppend_noticeIn (sink before notice : Text) :
    Streams.KeptByAppend (NoticeIn sink before notice) := by
  rintro name content content' t ⟨hsink, hother⟩
  refine ⟨fun hname => ?_, fun hname => congrArg (· ++ t) (hother hname)⟩
  obtain ⟨since, rfl, rfl⟩ := hsink hname
  refine ⟨since ++ t, ?_, ?_⟩ <;> simp only [List.append_assoc]

theorem Host.differ_write {host : Host} {c : Channel} (htakes : host.streams.Takes c) (t : Text) :
    host.Differ (NoticeIn c.sink (host.streams.sinkOf c.sink).content t) (host.write c t) where
  streams :=
    { isBad := fun d _ => (htakes.isBad_write t d).symm
      refuses := fun d _ => (Streams.refuses_write host.streams c t d.sink).symm
      content := by
        intro d _
        have hsink := htakes.sinkOf_write t d.sink
        change NoticeIn _ _ _ _ _ ((host.streams.write c t).sinkOf d.sink).content
        rw [hsink]
        refine ⟨fun hd => ⟨[], by simp [hd]⟩, fun hd => ?_⟩
        rw [if_neg hd] }
  files_eq := rfl
  clock_eq := rfl

namespace Logger

open StructuredLog.Filter Text

theorem admits_iff {l : Logger} {s : Severity} :
    l.admits s = true ↔ 1 ≤ s.rank ∧ s.rank < 6 ∧ l.level ≤ s := by
  have hunset : s ≠ .unset ↔ 1 ≤ s.rank := by
    rw [← not_iff_not, not_not, UInt64.not_le, UInt64.lt_iff_toNat_lt]
    obtain ⟨rank⟩ := s
    simp [Severity.unset, ← UInt64.toNat_inj]
  have hsentinel : s < .sentinel ↔ s.rank < 6 := Iff.rfl
  simp only [admits, Bool.and_eq_true, decide_eq_true_eq, hunset, hsentinel, and_assoc]

theorem reaches_iff {l : Logger} (hcustom : NoneCustom l.filters) {call : LogCall}
    {setting : CallSetting} {now : Host} {h : Handler} :
    (∃ record, l.handed? call setting now = some record ∧ h.accepts record.severity = true) ↔
      l.admits call.severity = true ∧ PassesLevels l.filters call.severity ∧
        h.threshold ≤ call.severity := by
  constructor
  · rintro ⟨record, hhanded, haccepts⟩
    obtain ⟨hadmits, hpipe⟩ := handed?_eq_some.mp hhanded
    by_cases hlevels : PassesLevels l.filters call.severity
    · rw [handed?_of_passesLevels hcustom hadmits hlevels] at hhanded
      cases hhanded
      exact ⟨hadmits, hlevels, of_decide_eq_true haccepts⟩
    · rw [pipeline_of_not_passesLevels hcustom hlevels] at hpipe
      cases hpipe
  · rintro ⟨hadmits, hlevels, hthreshold⟩
    exact ⟨_, handed?_of_passesLevels hcustom hadmits hlevels setting now,
      decide_eq_true hthreshold⟩

/-- What comes of a log call on a built logger, whatever its handlers have gone through. Nothing, if
the logger does not admit the severity. Else the filters, which are those configured and a
redaction behind them if there was none, judge the record in order up to the first that does not
keep it; the handlers get the record if all keep it, a veto changes nothing, and for a raised
object one notice is written to the fallback stream. The frames stay as they are. If the fallback
stream takes the notice, all that is done later comes out as if the entry had not been, but for
the notice. Without users' filters a handler is reached exactly by the severities that all levels
on the way admit. -/
theorem log_by_verdict {config : LoggerConfig} {fallback : Channel} {host host' : Host}
    {built : Logger} (hbuild : build config fallback host = (.ok built, host'))
    (handlers : List Handler) (context : ContextStore) (now : Host) (thread : ThreadId)
    (call : LogCall) (handling : Option Raised) (frames : List Text) :
    let l := { built with handlers := handlers }
    let w : Workplace := ⟨context, l, now⟩
    let setting : CallSetting := ⟨context.merged thread, handling, frames⟩
    let made := l.recordOf call setting now
    let logged := Action.apply w (.log thread call handling frames)
    (∃ configured, config.filters = configured.map some ∧ l.filters = withRedaction configured) ∧
    (l.admits call.severity = false → logged = w) ∧
    (l.admits call.severity = true →
      (∃ final, Keeps l.filters made final ∧
        logged = ⟨context, { l with handlers := (Handler.handleAll final handlers now).1 },
          (Handler.handleAll final handlers now).2⟩) ∨
      ∃ front f behind, l.filters = front ++ f :: behind ∧
        ((∃ v, Judges front f made (.ok v) ∧ v.kept = false ∧ logged = w) ∨
          ∃ r, Judges front f made (.error r) ∧
            logged = ⟨context, l, now.write l.fallback (l.droppedLine call.message r)⟩)) ∧
    (∀ final, l.handed? call setting now = some final ↔
      l.admits call.severity = true ∧ Keeps l.filters made final) ∧
    (∀ front f verdict behind behind', Judges front f made verdict →
      (∀ v, verdict = .ok v → v.kept = false) →
        pipeline (front ++ f :: behind) made = pipeline (front ++ f :: behind') made) ∧
    (∀ r, l.admits call.severity = true → pipeline l.filters made = .raised r →
      now.streams.Takes l.fallback → ∀ later,
        (w.run later).Differ
          (NoticeIn l.fallback.sink (now.streams.sinkOf l.fallback.sink).content
            (l.droppedLine call.message r))
          (logged.run later)) ∧
    ((∀ object apply, some (.custom object apply) ∉ config.filters) → ∀ h : Handler,
      ((∃ record, l.handed? call setting now = some record ∧ h.accepts record.severity = true) ↔
        1 ≤ call.severity.rank ∧ call.severity.rank < 6 ∧ l.level ≤ call.severity ∧
          (∀ m, some (.level m) ∈ config.filters → m ≤ call.severity) ∧
          h.threshold ≤ call.severity)) := by
  intro l w setting made logged
  obtain ⟨configured, hconfigured, hfilters⟩ := filters_of_build hbuild
  have hl : l.filters = withRedaction configured := hfilters
  have hlogged : logged = ⟨context, (l.log call setting now).1, (l.log call setting now).2⟩ := rfl
  have hhanded : ∀ final, l.handed? call setting now = some final ↔
      l.admits call.severity = true ∧ Keeps l.filters made final := by
    intro final
    rw [handed?_eq_some, pipeline_eq_delivered_iff]
  refine ⟨⟨configured, hconfigured, hl⟩, ?_, ?_, hhanded, ?_, ?_, ?_⟩
  · intro hadmits
    rw [hlogged, log, if_neg (by simp [hadmits])]
  · intro hadmits
    rcases keeps_or_judges l.filters made with ⟨final, hkeeps⟩ | ⟨front, f, behind, hsplit, hjudges⟩
    · refine .inl ⟨final, hkeeps, ?_⟩
      rw [hlogged, log_of_handed? ((hhanded final).mpr ⟨hadmits, hkeeps⟩)]
    · refine .inr ⟨front, f, behind, hsplit, ?_⟩
      rcases hjudges with ⟨v, hkept, hjudges⟩ | ⟨r, hjudges⟩
      · have hpipe : pipeline l.filters made = .vetoed := hsplit ▸ hjudges.vetoed hkept behind
        exact .inl ⟨v, hjudges, hkept, by rw [hlogged, log, if_pos hadmits, hpipe]⟩
      · have hpipe : pipeline l.filters made = .raised r := hsplit ▸ hjudges.raised behind
        exact .inr ⟨r, hjudges, by rw [hlogged, log, if_pos hadmits, hpipe]⟩
  · intro front f verdict behind behind' hjudges hdrops
    cases verdict with
    | error r => rw [hjudges.raised, hjudges.raised]
    | ok v => rw [hjudges.vetoed (hdrops v rfl), hjudges.vetoed (hdrops v rfl)]
  · intro r hadmits hpipe htakes later
    have hnotice : logged = ⟨context, l, now.write l.fallback (l.droppedLine call.message r)⟩ := by
      rw [hlogged, log, if_pos hadmits, hpipe]
    have hdiffer : w.Differ _ ⟨context, l, now.write l.fallback (l.droppedLine call.message r)⟩ :=
      ⟨rfl, rfl, Host.differ_write htakes _⟩
    rw [hnotice]
    exact hdiffer.run (keptByAppend_noticeIn _ _ _) later
  · intro hcustom h
    have hnone : NoneCustom l.filters := noneCustom_of_build (l := built) hbuild hcustom
    have hlevels : PassesLevels l.filters call.severity ↔
        ∀ m, some (.level m) ∈ config.filters → m ≤ call.severity := by
      rw [hl, passesLevels_withRedaction, hconfigured]
      simp [PassesLevels]
    rw [reaches_iff hnone, admits_iff, hlevels, and_assoc, and_assoc]

def explosion : Raised := .described (ascii "std::runtime_error") (ascii "filter exploded")

def explodingConfig : LoggerConfig :=
  { LoggerConfig.basic with
    handlers := [.basic]
    filters := [some (.level .info), some (.custom (.plain 0) fun _ => .error explosion)] }

def fallbackSink : Text := ascii "fallback"

theorem log_by_verdict_explosion :
    ∃ built host,
      build explodingConfig (.named fallbackSink) (Host.fresh ⟨0, 0, 0⟩) = (.ok built, host) ∧
      Workplace.Differ
        (NoticeIn fallbackSink []
          (ascii "quire: Logger []: Dropped entry [m] (filter exploded).\n"))
        (Workplace.run [.log 0 plainCall none [], .flush] ⟨.empty, built, host⟩)
        (Workplace.run [.log 0 plainCall none [], .log 0 plainCall none [], .flush]
          ⟨.empty, built, host⟩) := by
  have hbuild : build explodingConfig (.named fallbackSink) (Host.fresh ⟨0, 0, 0⟩) = _ := rfl
  have htakes : (Host.fresh ⟨0, 0, 0⟩).streams.Takes (.named fallbackSink) :=
    ⟨rfl, rfl, fun tied htied => nomatch htied⟩
  obtain ⟨-, -, -, -, -, hlater, -⟩ := log_by_verdict hbuild _ .empty _ 0 plainCall none []
  exact ⟨_, _, hbuild, hlater explosion rfl rfl htakes [.log 0 plainCall none [], .flush]⟩

/-- The fallback stream refuses the notice of a first entry. That of a second one is lost although
its sink accepts again; it would have been written without the first. -/
theorem notice_lost :
    ∃ built host,
      build explodingConfig (.named fallbackSink) (Host.fresh ⟨0, 0, 0⟩) = (.ok built, host) ∧
      let setting : CallSetting := ⟨Fields.empty, none, []⟩
      let refusing := { host with streams := host.streams.setRefuses fallbackSink true }
      let first := (built.log plainCall setting refusing).2
      let accepting := { first with streams := first.streams.setRefuses fallbackSink false }
      built.admits plainCall.severity = true ∧
      pipeline built.filters (built.recordOf plainCall setting accepting) = .raised explosion ∧
      (accepting.streams.sinkOf fallbackSink).refuses = false ∧
      ((built.log plainCall setting accepting).2.streams.sinkOf fallbackSink).content = [] ∧
      ((built.log plainCall setting host).2.streams.sinkOf fallbackSink).content =
        built.droppedLine plainCall.message explosion := by
  refine ⟨_, _, rfl, rfl, rfl, rfl, rfl, rfl⟩

end Logger

end StructuredLog
