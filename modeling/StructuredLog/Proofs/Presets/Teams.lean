import StructuredLog.Proofs.Delivery.Footprints
import StructuredLog.Proofs.Filters.Pipeline
import StructuredLog.Proofs.LogFiles.Neighbours

/-!
# Loggers with a log file each

What a log call of a logger with a stream and a log file does to files is one write of the log file
at most, of an entry that depends on the call and the clock alone. So a run of such loggers is a run
of their log files, and the territories of these stay apart. Main statements: `AgreeOn.run` and
`AgreeOn.item?_log`.
-/

namespace StructuredLog

open FileSystem LogFile Location

def LogFile.Work.writeAny (clock : Clock) : Option Text → Work → Work
  | none, w => w
  | some entry, w => (w.write clock entry).2

namespace Handler

variable {h : Handler} {r : Record} {host : Host}

theorem clock_handle (h : Handler) (r : Record) (host : Host) :
    (h.handle r host).2.clock = host.clock :=
  (handle_streams (p := fun _ => True) ⟨fun _ _ _ _ => trivial, fun _ _ _ => trivial,
    fun _ _ _ => trivial⟩ trivial r).2.1

theorem clock_handleAll (r : Record) (handlers : List Handler) (host : Host) :
    (handleAll r handlers host).2.clock = host.clock := by
  induction handlers generalizing host with
  | nil => rfl
  | cons h rest ih => exact (ih _).trans (h.clock_handle r host)

def entryOf? (h : Handler) (offset : Int) (r : Record) : Option Text :=
  if h.accepts r.severity then (h.formatter.render offset r).toOption.map (· ++ Text.ascii "\n")
  else none

theorem handle_stream {c : Channel} (ho : h.output = .stream c) (r : Record) (host : Host) :
    (h.handle r host).1 = h ∧ (h.handle r host).2.files = host.files := by
  cases haccepts : h.accepts r.severity with
  | false =>
    rw [handle_of_not_accepts haccepts]
    exact ⟨rfl, rfl⟩
  | true =>
    cases hrender : h.formatter.render host.clock.offset r with
    | error x =>
      rw [handle_of_error haccepts hrender]
      exact ⟨rfl, rfl⟩
    | ok text =>
      rw [handle_of_ok haccepts hrender]
      simp only [deliver, ho]
      split_ifs
      · exact ⟨rfl, rfl⟩
      · exact ⟨rfl, rfl⟩

theorem handle_file {log : LogFile} (ho : h.output = .file log) (r : Record) (host : Host) :
    let w := Work.writeAny host.clock (h.entryOf? host.clock.offset r) ⟨log, host.files, []⟩
    (h.handle r host).1 = { h with output := .file w.log } ∧
    (h.handle r host).2.files = w.files := by
  have hself : h = { h with output := .file log } := by rw [← ho]
  rw [entryOf?]
  cases haccepts : h.accepts r.severity with
  | false =>
    rw [handle_of_not_accepts haccepts]
    exact ⟨hself, rfl⟩
  | true =>
    rw [if_pos rfl]
    cases hrender : h.formatter.render host.clock.offset r with
    | error x =>
      rw [handle_of_error haccepts hrender]
      exact ⟨hself, rfl⟩
    | ok text =>
      rw [handle_of_ok haccepts hrender]
      simp only [deliver, ho, reports_eq, files_conclude, Host.files_writeAll]
      exact ⟨rfl, rfl⟩

end Handler

namespace Logger

def withLog (l : Logger) (log : LogFile) : Logger :=
  { l with handlers := l.handlers.map fun h =>
      match h.output with
      | .file _ => { h with output := .file log }
      | _ => h }

structure Files (l : Logger) (h : Handler) (log : LogFile) : Prop where
  exists_stream : ∃ g c, l.handlers = [g, h] ∧ g.output = .stream c
  file : h.output = .file log

def lineFor? (l : Logger) (h : Handler) (call : LogCall) (setting : CallSetting) (host : Host) :
    Option Text :=
  (l.handed? call setting host).bind (h.entryOf? host.clock.offset)

theorem lineFor?_congr (l : Logger) (h : Handler) (call : LogCall) (setting : CallSetting)
    {host host' : Host} (hclock : host.clock = host'.clock) :
    l.lineFor? h call setting host = l.lineFor? h call setting host' := by
  simp only [lineFor?, handed?, recordOf, hclock]

theorem log_of_not_handed {l : Logger} {call : LogCall} {setting : CallSetting} {host : Host}
    (h : l.handed? call setting host = none) : (l.log call setting host).1 = l ∧
      (l.log call setting host).2.files = host.files ∧
      (l.log call setting host).2.clock = host.clock := by
  rw [handed?] at h
  rw [log]
  split_ifs at h ⊢
  · cases hpipe : Filter.pipeline l.filters (l.recordOf call setting host) with
    | vetoed => exact ⟨rfl, rfl, rfl⟩
    | raised x => exact ⟨rfl, rfl, rfl⟩
    | delivered record =>
      rw [hpipe] at h
      cases h
  · exact ⟨rfl, rfl, rfl⟩

variable {l : Logger} {h : Handler} {log₀ : LogFile}

theorem Files.handlers_withLog (hl : l.Files h log₀) : ∃ g c, g.output = .stream c ∧
    ∀ log, (l.withLog log).handlers = [g, { h with output := .file log }] := by
  obtain ⟨g, c, hhandlers, hg⟩ := hl.exists_stream
  refine ⟨g, c, hg, fun log => ?_⟩
  simp only [withLog, hhandlers, List.map_cons, List.map_nil, hg, hl.file]

theorem Files.log (hl : l.Files h log₀) (log : LogFile) (call : LogCall) (setting : CallSetting)
    (host : Host) :
    let w := Work.writeAny host.clock (l.lineFor? h call setting host) ⟨log, host.files, []⟩
    ((l.withLog log).log call setting host).1 = l.withLog w.log ∧
      ((l.withLog log).log call setting host).2.files = w.files ∧
      ((l.withLog log).log call setting host).2.clock = host.clock := by
  obtain ⟨g, c, hg, hhandlers⟩ := hl.handlers_withLog
  have hsame : (l.withLog log).handed? call setting host = l.handed? call setting host := rfl
  rw [lineFor?]
  cases hhanded : l.handed? call setting host with
  | none =>
    obtain ⟨hlogger, hfiles, hclock⟩ := log_of_not_handed (hsame.trans hhanded)
    exact ⟨hlogger, hfiles, hclock⟩
  | some record =>
    obtain ⟨hfirst, hfiles⟩ := Handler.handle_stream hg record host
    obtain ⟨hlast, hlastFiles⟩ :=
      Handler.handle_file (h := { h with output := .file log }) rfl record
      (g.handle record host).2
    rw [g.clock_handle record host, hfiles] at hlast hlastFiles
    rw [log_of_handed? (hsame.trans hhanded)]
    refine ⟨?_, ?_, Handler.clock_handleAll record _ host⟩
    · simp only [hhandlers, Handler.handleAll, hfirst, hlast]
      rw [← hhandlers]
      rfl
    · rw [hhandlers]
      exact hlastFiles

end Logger

structure Team (ι : Type) where
  loggers : ι → Logger
  host : Host

namespace Team

variable {ι : Type}

inductive Event (ι : Type)
  | log (i : ι) (call : LogCall) (setting : CallSetting)
  | clock (c : Clock)

def Event.map {κ : Type} (f : ι → κ) : Event ι → Event κ
  | log i call setting => .log (f i) call setting
  | clock c => .clock c

variable {base : ι → Logger} {handler : ι → Handler} {log₀ : ι → LogFile} {dir : Location}
  {path name : ι → Text} {start : ι → Rotation} {t t' : Team ι} {s s' : Cabinet ι} {i j : ι}

structure Has (base : ι → Logger) (t : Team ι) (s : Cabinet ι) : Prop where
  loggers_eq : ∀ i, t.loggers i = (base i).withLog (s.logs i)
  files_eq : t.host.files = s.files

/-- In two runs at the same time, one of the log files sees the same. -/
structure AgreeOn (base : ι → Logger) (dir : Location) (path name : ι → Text)
    (start : ι → Rotation) (i : ι) (t t' : Team ι) : Prop where
  clock_eq : t.host.clock = t'.host.clock
  cabinets : ∃ s s', Has base t s ∧ Has base t' s' ∧ EachAtSite dir path name start s ∧
    SeesSame dir path name start i s s'

theorem AgreeOn.refl (hr : Has base t s) (hn : Neighbours dir path name start)
    (heach : EachAtSite dir path name start s) (i : ι) :
    AgreeOn base dir path name start i t t :=
  ⟨rfl, s, s, hr, hr, heach, heach.seesSame hn i⟩

theorem AgreeOn.item?_eq (ha : AgreeOn base dir path name start i t t') {loc : Location}
    (hloc : Territory dir (name i) loc) : t.host.files.item? loc = t'.host.files.item? loc := by
  obtain ⟨-, s, s', hr, hr', -, hsees⟩ := ha
  rw [hr.files_eq, hr'.files_eq]
  exact hsees.item?_eq hloc

variable [DecidableEq ι]

def Event.apply (t : Team ι) : Event ι → Team ι
  | log i call setting =>
    let (logger, host) := (t.loggers i).log call setting t.host
    ⟨Function.update t.loggers i logger, host⟩
  | clock c => { t with host := { t.host with clock := c } }

def Event.concerns (i : ι) : Event ι → Bool
  | log j _ _ => decide (j = i)
  | clock _ => true

def run (t : Team ι) (events : List (Event ι)) : Team ι := events.foldl Event.apply t

theorem Has.put (hr : Has base t s) (i : ι) (log : LogFile) (host : Host) :
    Has base ⟨Function.update t.loggers i ((base i).withLog log), host⟩
      ⟨Function.update s.logs i log, host.files⟩ where
  loggers_eq := by
    intro j
    by_cases hj : j = i
    · subst hj
      dsimp only
      rw [Function.update_self, Function.update_self]
    · dsimp only
      rw [Function.update_of_ne hj, Function.update_of_ne hj]
      exact hr.loggers_eq j
  files_eq := rfl

theorem Has.log (hr : Has base t s) (hl : (base i).Files (handler i) (log₀ i)) (call : LogCall)
    (setting : CallSetting) :
    let after := (Event.log i call setting).apply t
    after.host.clock = t.host.clock ∧
      Has base after (match (base i).lineFor? (handler i) call setting t.host with
        | none => s
        | some entry => s.write i t.host.clock entry) := by
  obtain ⟨hlogger, hfiles, hclock⟩ := hl.log (s.logs i) call setting t.host
  rw [← hr.loggers_eq i] at hlogger hfiles hclock
  refine ⟨hclock, ?_⟩
  have hput :=
    hr.put i (Work.writeAny t.host.clock ((base i).lineFor? (handler i) call setting t.host)
      ⟨s.logs i, t.host.files, []⟩).log ((t.loggers i).log call setting t.host).2
  rw [← hlogger, hfiles, hr.files_eq] at hput
  cases hentry : (base i).lineFor? (handler i) call setting t.host with
  | none =>
    rw [hentry] at hput
    simp only [Work.writeAny, Function.update_eq_self] at hput
    exact hput
  | some entry =>
    rw [hentry] at hput
    exact hput

theorem AgreeOn.event (ha : AgreeOn base dir path name start i t t')
    (hl : ∀ i, (base i).Files (handler i) (log₀ i)) (hn : Neighbours dir path name start)
    {e : Event ι} : AgreeOn base dir path name start i (e.apply t)
      (if e.concerns i then e.apply t' else t') := by
  obtain ⟨hclock, s, s', hr, hr', heach, hsees⟩ := ha
  cases e with
  | clock c => exact ⟨rfl, s, s', ⟨hr.loggers_eq, hr.files_eq⟩, ⟨hr'.loggers_eq, hr'.files_eq⟩,
      heach, hsees⟩
  | log j call setting =>
    obtain ⟨hafter, hnext⟩ := hr.log (hl j) call setting
    obtain ⟨hafter', hnext'⟩ := hr'.log (hl j) call setting
    rw [← (base j).lineFor?_congr (handler j) call setting hclock, ← hclock] at hnext'
    simp only [Event.concerns, decide_eq_true_eq]
    split_ifs with hj
    · subst hj
      refine ⟨hafter.trans (hclock.trans hafter'.symm), ?_⟩
      cases hentry : (base j).lineFor? (handler j) call setting t.host with
      | none =>
        rw [hentry] at hnext hnext'
        exact ⟨s, s', hnext, hnext', heach, hsees⟩
      | some entry =>
        rw [hentry] at hnext hnext'
        exact ⟨_, _, hnext, hnext', heach.write hn j _ entry, hsees.own heach hn _ entry⟩
    · refine ⟨hafter.trans hclock, ?_⟩
      cases hentry : (base j).lineFor? (handler j) call setting t.host with
      | none =>
        rw [hentry] at hnext
        exact ⟨s, s', hnext, hr', heach, hsees⟩
      | some entry =>
        rw [hentry] at hnext
        exact ⟨_, _, hnext, hr', heach.write hn j _ entry,
          hsees.other heach hn hj _ entry⟩

theorem AgreeOn.run (ha : AgreeOn base dir path name start i t t')
    (hl : ∀ i, (base i).Files (handler i) (log₀ i)) (hn : Neighbours dir path name start)
    (events : List (Event ι)) : AgreeOn base dir path name start i (t.run events)
      (t'.run (events.filter (·.concerns i))) := by
  induction events generalizing t t' with
  | nil => exact ha
  | cons e events ih =>
    have hnext := ih (ha.event (e := e) hl hn)
    rw [List.filter_cons]
    split_ifs at hnext ⊢
    · exact hnext
    · exact hnext

theorem AgreeOn.item?_log (ha : AgreeOn base dir path name start i t t')
    (hl : ∀ i, (base i).Files (handler i) (log₀ i)) (hn : Neighbours dir path name start)
    (call : LogCall) (setting : CallSetting) {loc : Location} (hloc : ¬Territory dir (name i) loc) :
    ((Event.log i call setting).apply t).host.files.item? loc = t.host.files.item? loc := by
  obtain ⟨-, s, -, hr, -, heach, -⟩ := ha
  obtain ⟨-, hnext⟩ := hr.log (hl i) call setting
  rw [hnext.files_eq, hr.files_eq]
  split
  · rfl
  · exact heach.item?_write hn _ _ hloc

theorem run_map {κ : Type} [DecidableEq κ] {f : ι → κ} (hf : Function.Injective f) (t : Team ι)
    (t' : Team κ) (hhost : t.host = t'.host) (hloggers : ∀ i, t.loggers i = t'.loggers (f i))
    (events : List (Event ι)) :
    (t.run events).host = (t'.run (events.map (Event.map f))).host ∧
      ∀ i, (t.run events).loggers i = (t'.run (events.map (Event.map f))).loggers (f i) := by
  induction events generalizing t t' with
  | nil => exact ⟨hhost, hloggers⟩
  | cons e events ih =>
    cases e with
    | clock c => exact ih _ _ (congrArg (fun host => { host with clock := c }) hhost) hloggers
    | log i call setting =>
      have hlog : (t.loggers i).log call setting t.host =
          (t'.loggers (f i)).log call setting t'.host := by rw [hhost, hloggers]
      refine ih _ _ (congrArg Prod.snd hlog) fun j => ?_
      simp only [Event.apply, Event.map]
      by_cases hj : j = i
      · rw [hj, Function.update_self, Function.update_self, hlog]
      · rw [Function.update_of_ne hj, Function.update_of_ne (hf.ne hj)]
        exact hloggers j

end Team

end StructuredLog
