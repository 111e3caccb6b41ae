import StructuredLog.Proofs.Building.Specs
import StructuredLog.Proofs.LogFiles.Created
import StructuredLog.Proofs.Presets.Teams

/-!
# Building loggers of presets with log files

The logger of a preset with a log file is built exactly when its file can be opened, at the
logger's name in the log directory. Names that differ have territories that are apart. Main
statements: `buildsAt_preset`, `openAtSite_of_preset` and `neighbours_of_presets`.
-/

namespace StructuredLog

open FileSystem LogFile Location

namespace FilePath

theorem fileName_join {dir name : Text} (hslash : slash ∉ name) :
    fileName (join dir name) = name := by
  by_cases hnil : dir = []
  · rw [hnil, join, if_pos (.inr rfl), fileName_of_slash_not_mem hslash]
  · rw [join_eq hslash hnil]
    split_ifs with hend
    · obtain ⟨front, rfl⟩ := List.getLast?_eq_some_iff.mp hend
      rw [List.append_assoc, List.singleton_append, fileName_append_slash hslash]
    · exact fileName_append_slash hslash dir

theorem way_join {dir name : Text} (hnul : 0 ∉ dir) (hname : IsLabel name) :
    start (join dir name) = start dir ∧ components (join dir name) = components dir ++ [name] := by
  by_cases hnil : dir = []
  · have hself : join dir name = name := by rw [join, if_pos (.inr hnil)]
    rw [hself, hnil, start, isAbsolute_of_slash_not_mem hname.slash_not_mem,
      components_of_slash_not_mem hname.nul_not_mem hname.slash_not_mem hname.ne_nil]
    exact ⟨rfl, rfl⟩
  · refine ⟨?_, components_join hnul hname hnil⟩
    rw [join_eq hname.slash_not_mem hnil, start, isAbsolute_append hnil, start]

theorem nul_not_mem_join_iff {dir name : Text} (hname : IsLabel name) :
    0 ∉ join dir name ↔ 0 ∉ dir := by
  by_cases hnil : dir = []
  · rw [hnil, join, if_pos (.inr rfl)]
    exact ⟨fun _ => List.not_mem_nil, fun _ => hname.nul_not_mem⟩
  · refine ⟨fun h hmem => h ?_, fun h => nul_not_mem_join h hname hnil⟩
    rw [join_eq hname.slash_not_mem hnil]
    exact List.mem_append_left _ hmem

end FilePath

structure HandlerSpec.ForJson (s : HandlerSpec) : Prop where
  formatter : s.formatter = none
  format : s.format = .json

theorem HandlerSpec.ForJson.chosenFormatter_eq {s : HandlerSpec} (h : s.ForJson) (host : Host) :
    s.chosenFormatter host = .json := by
  rw [chosenFormatter, h.formatter, h.format]

namespace Logger

open Text

def fileHandler (spec : HandlerSpec) (fallback : Channel) (log : LogFile) : Handler :=
  ⟨spec.threshold, .json, fallback, .file log⟩

def withSpecs (config : LoggerConfig) (filters : List Filter) (console file : HandlerSpec)
    (fallback : Channel) (log : LogFile) : Logger where
  config := config
  filters := withRedaction filters
  handlers := [⟨console.threshold, .json, fallback, .stream console.channel⟩,
    fileHandler file fallback log]
  fallback := fallback

theorem build_of_specs {config : LoggerConfig} {filters : List Filter} {console file : HandlerSpec}
    {schedule : Schedule} (hfilters : presentFilters? config.filters = some filters)
    (hhandlers : config.handlers = [console, file]) (hconsole : console.kind = .stream)
    (hconsoleJson : console.ForJson) (hfileJson : file.ForJson)
    (hfile : file.schedule? = some schedule) (hpath : file.path ≠ []) (fallback : Channel)
    (host : Host) :
    build config fallback host = match create host.clock file.path schedule host.files with
      | (.error e, files) => (.error (.fault (.unwritablePath
          (file.path ++ ascii " (" ++ e.message ++ ascii ")"))), { host with files := files })
      | (.ok log, files) =>
        (.ok (withSpecs config filters console file fallback log),
          { host with files := files }) := by
  have hfirst : console.build fallback host =
      (.ok ⟨console.threshold, .json, fallback, .stream console.channel⟩, host) := by
    rw [HandlerSpec.build, hconsole, ← hconsoleJson.chosenFormatter_eq host]
  have hsecond := HandlerSpec.build_of_schedule hfile hpath fallback host
  rw [hfileJson.chosenFormatter_eq] at hsecond
  rw [build, hfilters, hhandlers]
  simp only [HandlerSpec.buildAll, hfirst, hsecond, HandlerSpec.buildFile]
  cases create host.clock file.path schedule host.files with
  | mk result files =>
    cases result with
    | error e => rfl
    | ok log => rfl

/-- What builds a logger at a path: with a stream and the log file, if this can be created. -/
structure BuildsAt (build : Host → Except Raised Logger × Host) (path : Text) (schedule : Schedule)
    (logger : LogFile → Logger) (handler : LogFile → Handler) : Prop where
  files : ∀ log, (logger log).Files (handler log) log
  withLog : ∀ log log', (logger log).withLog log' = logger log'
  build_eq_ok_iff : ∀ {host l host'}, build host = (.ok l, host') ↔ ∃ log,
    create host.clock path schedule host.files = (.ok log, host'.files) ∧ l = logger log ∧
      host' = { host with files := host'.files }

theorem BuildsAt.build_of_create {build : Host → Except Raised Logger × Host} {path : Text}
    {schedule : Schedule} {logger : LogFile → Logger} {handler : LogFile → Handler}
    (h : BuildsAt build path schedule logger handler) {host : Host} {log : LogFile}
    {files : FileSystem} (hcreate : create host.clock path schedule host.files = (.ok log, files)) :
    build host = (.ok (logger log), { host with files := files }) :=
  h.build_eq_ok_iff.mpr ⟨log, hcreate, rfl, rfl⟩

def buildPreset (name : Text) (environment : Environment) (logDir : Text) (fallback : Channel)
    (host : Host) : Except Raised Logger × Host :=
  match LoggerConfig.preset name environment logDir with
  | .error r => (.error r, host)
  | .ok config => build config fallback host

def presetSchedule (environment : Environment) : Schedule :=
  if environment = .staging then
    .bySize LoggerConfig.stagingMaxBytes.toNat LoggerConfig.stagingBackups.toNat
  else .daily LoggerConfig.productionBackupDays.toNat .wall

theorem handlers_of_preset {environment : Environment}
    (henv : environment = .staging ∨ environment = .production) (name logDir : Text) :
    ∃ config filters console file, LoggerConfig.preset name environment logDir = .ok config ∧
      presentFilters? config.filters = some filters ∧ config.handlers = [console, file] ∧
      console.kind = .stream ∧ console.ForJson ∧ file.ForJson ∧
      file.path = LoggerConfig.presetPath name logDir ∧
      file.schedule? = some (presetSchedule environment) := by
  rcases henv with rfl | rfl
  · exact ⟨_, _, _, _, rfl, rfl, rfl, rfl, ⟨rfl, rfl⟩, ⟨rfl, rfl⟩, rfl, rfl⟩
  · exact ⟨_, _, _, _, rfl, rfl, rfl, rfl, ⟨rfl, rfl⟩, ⟨rfl, rfl⟩, rfl, rfl⟩

theorem logName_eq (name : Text) : name ++ ascii ".log" = extended name (ascii "log") := by
  rw [extended, List.append_assoc]
  rfl

theorem isLabel_logName {name : Text} (hplain : FilePath.slash ∉ name ∧ 0 ∉ name) :
    FilePath.IsLabel (name ++ ascii ".log") := by
  rw [logName_eq]
  exact isLabel_extended hplain.2 hplain.1 ⟨by decide, by decide, by decide⟩

theorem fileName_presetPath {name : Text} (hplain : FilePath.slash ∉ name ∧ 0 ∉ name)
    (logDir : Text) :
    FilePath.fileName (LoggerConfig.presetPath name logDir) = name ++ ascii ".log" :=
  FilePath.fileName_join (isLabel_logName hplain).slash_not_mem

theorem buildsAt_preset {name : Text} {environment : Environment}
    (hplain : FilePath.slash ∉ name ∧ 0 ∉ name)
    (henv : environment = .staging ∨ environment = .production) (logDir : Text)
    (fallback : Channel) :
    ∃ logger handler, BuildsAt (buildPreset name environment logDir fallback)
      (LoggerConfig.presetPath name logDir) (presetSchedule environment) logger handler := by
  obtain ⟨config, filters, console, file, hconfig, hfilters, hhandlers, hconsole, hconsoleJson,
    hfileJson, hpath, hfile⟩ := handlers_of_preset henv name logDir
  have hne : file.path ≠ [] := by
    intro hnil
    have hname := fileName_presetPath hplain logDir
    rw [← hpath, hnil] at hname
    exact (isLabel_logName hplain).ne_nil hname.symm
  have hbuild :=
    build_of_specs hfilters hhandlers hconsole hconsoleJson hfileJson hfile hne fallback
  refine ⟨withSpecs config filters console file fallback, fileHandler file fallback,
    fun log => ⟨⟨_, _, rfl, rfl⟩, rfl⟩, fun log log' => rfl, ?_⟩
  intro host l host'
  rw [buildPreset, hconfig, ← hpath]
  dsimp only
  rw [hbuild]
  cases create host.clock file.path (presetSchedule environment) host.files with
  | mk result files =>
    cases result with
    | error e => simp
    | ok log =>
      simp only [Prod.mk.injEq, Except.ok.injEq]
      refine ⟨?_, ?_⟩
      · rintro ⟨rfl, rfl⟩
        exact ⟨log, ⟨rfl, rfl⟩, rfl, rfl⟩
      · rintro ⟨-, ⟨rfl, hfiles⟩, rfl, hhost⟩
        exact ⟨rfl, hfiles ▸ hhost.symm⟩

theorem way_presetPath {name logDir : Text} (hplain : FilePath.slash ∉ name ∧ 0 ∉ name)
    (hdir : 0 ∉ logDir) :
    start (LoggerConfig.presetPath name logDir) = start logDir ∧
      FilePath.components (LoggerConfig.presetPath name logDir) =
        FilePath.components logDir ++ [name ++ ascii ".log"] :=
  FilePath.way_join hdir (isLabel_logName hplain)

theorem nul_not_mem_presetPath {name logDir : Text} (hplain : FilePath.slash ∉ name ∧ 0 ∉ name) :
    0 ∉ LoggerConfig.presetPath name logDir ↔ 0 ∉ logDir :=
  FilePath.nul_not_mem_join_iff (isLabel_logName hplain)

theorem territory_logName {dir loc : Location} {name name' : Text}
    (h : Territory dir (name ++ ascii ".log") loc)
    (h' : Territory dir (name' ++ ascii ".log") loc) :
    name = name' := by
  rw [logName_eq] at h h'
  refine h.stem_eq (by decide) (fun hending => ?_) h'
  exact absurd (hending.octets 108 (by decide)) (by decide)

theorem sparesWayTo_presetSchedule {environment : Environment} {path : Text}
    (henv : environment = .staging ∨ environment = .production)
    (hway : environment = .production →
      (Schedule.daily LoggerConfig.productionBackupDays.toNat .wall).SparesWayTo path) :
    (presetSchedule environment).SparesWayTo path := by
  rcases henv with rfl | rfl
  · exact trivial
  · exact hway rfl

theorem neighbours_of_presets {ι : Type} {logDir : Text} {name : ι → Text}
    {environment : ι → Environment} {start : ι → Rotation} (hnames : Function.Injective name)
    (hplain : ∀ i, FilePath.slash ∉ name i ∧ 0 ∉ name i)
    (henv : ∀ i, environment i = .staging ∨ environment i = .production)
    (hway : ∀ i, environment i = .production →
      (Schedule.daily LoggerConfig.productionBackupDays.toNat .wall).SparesWayTo
        (LoggerConfig.presetPath (name i) logDir))
    (hdir : 0 ∉ logDir)
    (hstart : ∀ i, ∃ clock size modified,
      start i = startRotation clock size modified (presetSchedule (environment i))) :
    Neighbours (goal logDir) (fun i => LoggerConfig.presetPath (name i) logDir)
      (fun i => name i ++ ascii ".log") start where
  way i j := by
    obtain ⟨hstart, hcomponents⟩ := way_presetPath (hplain i) hdir
    obtain ⟨hstart', hcomponents'⟩ := way_presetPath (hplain j) hdir
    refine ⟨hstart.trans hstart'.symm, ?_⟩
    rw [hcomponents, hcomponents', List.dropLast_concat, List.dropLast_concat]
  apart hi hj := hnames (territory_logName hi hj)
  dated i := by
    obtain ⟨clock, size, modified, h⟩ := hstart i
    exact h ▸ isDated_startRotation clock size modified _
  spares i := by
    obtain ⟨clock, size, modified, h⟩ := hstart i
    exact h ▸ sparesWay_startRotation (sparesWayTo_presetSchedule (henv i) (hway i)) clock size
      modified

variable {name logDir : Text} {schedule : Schedule} {clock : Clock} {fs fs' : FileSystem}
  {log : LogFile} {dir : Location}

theorem openAtSite_of_preset (hplain : FilePath.slash ∉ name ∧ 0 ∉ name) (hs : fs.Sound)
    (hd : fs.Distinct)
    (hcreate : create clock (LoggerConfig.presetPath name logDir) schedule fs = (.ok log, fs')) :
    0 ∉ logDir ∧ fs'.walk (start logDir) (FilePath.components logDir) = .ok (goal logDir) ∧
      OpenAtSite fs' (LoggerConfig.presetPath name logDir) (goal logDir)
        (name ++ ascii ".log") log := by
  have hpath : 0 ∉ LoggerConfig.presetPath name logDir :=
    nul_not_mem_of_create hs
      ((fileName_presetPath hplain logDir).symm ▸ (isLabel_logName hplain).nul_not_mem) hcreate
  have hdir := (nul_not_mem_presetPath hplain).mp hpath
  obtain ⟨hstart, hcomponents⟩ := way_presetPath hplain hdir
  obtain ⟨dir, title, hatSite⟩ := openAtSite_of_create hs hd hpath hcreate
  obtain ⟨-, front, r⟩ := hatSite.site.names.route
  obtain ⟨hfront, htitle⟩ := List.append_inj' (r.components_eq.symm.trans hcomponents) rfl
  obtain rfl := List.singleton_inj.mp htitle
  have hwalk := r.walk_eq
  rw [hfront, hstart] at hwalk
  obtain rfl : goal logDir = dir := follow_of_walk hwalk
  exact ⟨hdir, hwalk, hatSite⟩

theorem site_of_preset (hplain : FilePath.slash ∉ name ∧ 0 ∉ name) (hdir : 0 ∉ logDir)
    {before after : FileSystem}
    (hcreate : create clock (LoggerConfig.presetPath name logDir) schedule before =
      (.ok log, after))
    (hs : fs.Sound) (hwalk : fs.walk (start logDir) (FilePath.components logDir) = .ok dir) :
    Site fs (LoggerConfig.presetPath name logDir) dir (name ++ ascii ".log") := by
  obtain ⟨made, place, title, hnames⟩ := names_of_create hcreate
  obtain ⟨hstart, hcomponents⟩ := way_presetPath hplain hdir
  obtain ⟨-, front, r⟩ := hnames.route
  obtain ⟨-, htitle⟩ := List.append_inj' (r.components_eq.symm.trans hcomponents) rfl
  obtain rfl := List.singleton_inj.mp htitle
  refine .of_names hnames ((nul_not_mem_presetPath hplain).mpr hdir) hs ?_
  rwa [hstart, hcomponents, List.dropLast_concat]

end Logger

namespace Team

variable {ι : Type} [DecidableEq ι] {build : ι → Host → Except Raised Logger × Host}
  {path name : ι → Text} {schedule : ι → Schedule} {logger : ι → LogFile → Logger}
  {handler : ι → LogFile → Handler} {dir : Location} {start : ι → Rotation} {i : ι} {log : LogFile}

def begun (logger : ι → LogFile → Logger) (path : ι → Text) (start : ι → Rotation) (i : ι)
    (log : LogFile) (host : Host) : Team ι where
  loggers j := logger j (Function.update (fun j => dormant (path j) (start j)) i log j)
  host := host

theorem agreeOn_begun
    (hbuilds : ∀ i, Logger.BuildsAt (build i) (path i) (schedule i) (logger i) (handler i))
    (hn : Neighbours dir path name start) {host : Host}
    (heach : EachAtSite dir path name start
      ⟨Function.update (fun j => dormant (path j) (start j)) i log, host.files⟩)
    (events : List (Event ι)) (j : ι) :
    AgreeOn (fun j => logger j (dormant (path j) (start j))) dir path name start j
      ((begun logger path start i log host).run events)
      ((begun logger path start i log host).run (events.filter (·.concerns j))) := by
  have hhas : Has (fun j => logger j (dormant (path j) (start j)))
      (begun logger path start i log host)
      ⟨Function.update (fun j => dormant (path j) (start j)) i log, host.files⟩ :=
    ⟨fun j => ((hbuilds j).withLog _ _).symm, rfl⟩
  exact (AgreeOn.refl hhas hn heach j).run (fun j => (hbuilds j).files _) hn events

end Team

end StructuredLog
