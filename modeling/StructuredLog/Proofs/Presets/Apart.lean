import StructuredLog.Proofs.Presets.Building
import StructuredLog.Proofs.Redaction.Coverage

/-!
# Loggers of presets keep apart

Two loggers with different names that are built from presets with log files, in one log directory,
never touch each other's files: each keeps to its file and the names of backups of that. Pruning can
disturb the other logger in one case only, when the log directory is written with a detour by a
directory that is named like an old backup. Main statement: `PresetPair.separate_of_sparesWay`;
`PresetPair.not_separate_inWindingDir` is a case that it leaves out.
-/

namespace StructuredLog

open FileSystem LogFile Location

inductive Side where
  | first
  | second
  deriving DecidableEq

theorem Side.injective_of_ne {α : Type} {f : Side → α} (h : f .first ≠ f .second) :
    Function.Injective f := by
  intro i j hij
  cases i with
  | first =>
    cases j with
    | first => rfl
    | second => exact absurd hij h
  | second =>
    cases j with
    | first => exact absurd hij.symm h
    | second => rfl

def Team.Event.early : Team.Event Unit → Team.Event Side := .map fun _ => .first

/-- Two loggers with different names, to be built from presets with log files in one log directory,
and the host that the first one is built on: any host whose file system is sound, so that no file
has two names, and has one entry for each location. -/
structure PresetPair where
  logDir : Text
  name : Side → Text
  environment : Side → Environment
  fallback : Side → Channel
  host : Host
  sound : host.files.Sound
  distinct : host.files.Distinct
  name_ne : name .first ≠ name .second
  plain : ∀ i, FilePath.slash ∉ name i ∧ 0 ∉ name i
  environment_cases : ∀ i, environment i = .staging ∨ environment i = .production

namespace PresetPair

open Logger Text

def path (p : PresetPair) (i : Side) : Text := LoggerConfig.presetPath (p.name i) p.logDir

def fileName (p : PresetPair) (i : Side) : Text := p.name i ++ ascii ".log"

def build (p : PresetPair) (i : Side) (host : Host) : Except Raised Logger × Host :=
  buildPreset (p.name i) (p.environment i) p.logDir (p.fallback i) host

def alone? (p : PresetPair) (early : List (Team.Event Unit)) : Option (Team Unit) :=
  match p.build .first p.host with
  | (.error _, _) => none
  | (.ok l, host) => some (Team.run ⟨fun _ => l, host⟩ early)

def join (alone : Team Unit) (l : Logger) (host : Host) : Team Side where
  loggers
    | .first => alone.loggers ()
    | .second => l
  host := host

def both? (p : PresetPair) (early : List (Team.Event Unit)) : Option (Team Side) :=
  (p.alone? early).bind fun alone =>
    match p.build .second alone.host with
    | (.error _, _) => none
    | (.ok l, host) => some (join alone l host)

def run? (p : PresetPair) (early : List (Team.Event Unit)) (events : List (Team.Event Side)) :
    Option (Team Side) :=
  (p.both? early).map (·.run events)

def Owns (p : PresetPair) (i : Side) : Location → Prop :=
  Territory (goal p.logDir) (p.fileName i)

/-- Each logger has places of its own. A call changes nothing at places that its logger does not
own, and neither does building the second logger. What is at the places of a logger in the end is
the same as in the run without the calls of the other one: every name, with contents and times. -/
structure Separate (p : PresetPair) : Prop where
  disjoint : ∀ loc, p.Owns .first loc → ¬p.Owns .second loc
  alone_frame : ∀ early alone, p.alone? early = some alone → ∀ call setting loc,
    ¬p.Owns .first loc → ((Team.Event.log () call setting).apply alone).host.files.item? loc =
      alone.host.files.item? loc
  build_frame : ∀ early alone, p.alone? early = some alone → ∀ l host,
    p.build .second alone.host = (.ok l, host) → ∀ loc, ¬p.Owns .second loc →
      host.files.item? loc = alone.host.files.item? loc
  frame : ∀ early events team, p.run? early events = some team → ∀ i call setting loc,
    ¬p.Owns i loc → ((Team.Event.log i call setting).apply team).host.files.item? loc =
      team.host.files.item? loc
  unaffected : ∀ early events team, p.run? early events = some team → ∀ i,
    ∃ team', p.run? (early.filter (·.early.concerns i)) (events.filter (·.concerns i)) =
      some team' ∧
      ∀ loc, p.Owns i loc → team.host.files.item? loc = team'.host.files.item? loc

variable {p : PresetPair} {early : List (Team.Event Unit)} {alone : Team Unit} {team : Team Side}

theorem alone?_eq_some_iff : p.alone? early = some alone ↔
    ∃ l host, p.build .first p.host = (.ok l, host) ∧
      Team.run ⟨fun _ => l, host⟩ early = alone := by
  rw [alone?]
  cases p.build .first p.host with
  | mk result host =>
    cases result with
    | error e => simp
    | ok l => simp

theorem both?_eq_some_iff : p.both? early = some team ↔ ∃ alone l host,
    p.alone? early = some alone ∧ p.build .second alone.host = (.ok l, host) ∧
      join alone l host = team := by
  rw [both?, Option.bind_eq_some_iff]
  refine exists_congr fun alone => ?_
  cases p.build .second alone.host with
  | mk result host =>
    cases result with
    | error e => simp
    | ok l => simp

structure Precedes (base : Side → Logger) (alone : Team Unit) (s : Cabinet Side) : Prop where
  logger_eq : alone.loggers () = (base .first).withLog (s.logs .first)
  files_eq : alone.host.files = s.files

theorem Precedes.join {base : Side → Logger} {s : Cabinet Side} (h : Precedes base alone s)
    {log : LogFile} {l : Logger} (hl : (base .second).withLog log = l) (host : Host) :
    Team.Has base (join alone l host) (s.put .second ⟨log, host.files, []⟩) where
  loggers_eq i := by
    cases i with
    | first =>
      rw [logs_put_of_ne (by decide)]
      exact h.logger_eq
    | second =>
      rw [logs_put_self]
      exact hl.symm
  files_eq := rfl

theorem precedes_of_has {logger : Side → LogFile → Logger} {path : Side → Text}
    {start : Side → Rotation} {log : LogFile} {host : Host} {base : Side → Logger}
    {s : Cabinet Side} (early : List (Team.Event Unit))
    (hr : Team.Has base
      ((Team.begun logger path start .first log host).run (early.map .early)) s) :
    (Team.run ⟨fun _ => logger .first log, host⟩ early).host.clock =
        ((Team.begun logger path start .first log host).run (early.map .early)).host.clock ∧
      Precedes base (Team.run ⟨fun _ => logger .first log, host⟩ early) s := by
  obtain ⟨hhost, hloggers⟩ := Team.run_map (f := fun _ : Unit => Side.first)
    (Function.injective_of_subsingleton _) ⟨fun _ => logger .first log, host⟩
    (Team.begun logger path start .first log host) rfl
    (fun _ => by simp only [Team.begun, Function.update_self]) early
  exact ⟨congrArg Host.clock hhost, (hloggers ()).trans (hr.loggers_eq _),
    (congrArg Host.files hhost).trans hr.files_eq⟩

def base (p : PresetPair) (logger : Side → LogFile → Logger) (log : Side → LogFile) (i : Side) :
    Logger :=
  logger i (dormant (p.path i) (log i).rotation)

/-- The first logger has been built, and the second one can be. -/
structure FirstBuilt (p : PresetPair) (logger : Side → LogFile → Logger)
    (handler : Side → LogFile → Handler) (log : Side → LogFile) (host : Host) : Prop where
  builds : ∀ i, BuildsAt (p.build i) (p.path i) (presetSchedule (p.environment i)) (logger i)
    (handler i)
  neighbours : Neighbours (goal p.logDir) p.path p.fileName fun i => (log i).rotation
  build_eq : p.build .first p.host = (.ok (logger .first (log .first)), host)
  eachAtSite : EachAtSite (goal p.logDir) p.path p.fileName (fun i => (log i).rotation)
    ⟨Function.update (fun i => dormant (p.path i) (log i).rotation) .first (log .first), host.files⟩

theorem exists_firstBuilt
    (hway : ∀ i, p.environment i = .production →
      (Schedule.daily LoggerConfig.productionBackupDays.toNat .wall).SparesWayTo (p.path i))
    (halone : p.alone? early = some alone) {l : Logger} {host : Host}
    (hbuild : p.build .second alone.host = (.ok l, host)) :
    ∃ logger handler log host₁, p.FirstBuilt logger handler log host₁ ∧
      create alone.host.clock (p.path .second) (presetSchedule (p.environment .second))
        alone.host.files = (.ok (log .second), host.files) ∧
      l = logger .second (log .second) ∧ host = { alone.host with files := host.files } := by
  obtain ⟨l₁, host₁, hbuild₁, -⟩ := alone?_eq_some_iff.mp halone
  choose logger handler hbuilds using fun i =>
    buildsAt_preset (p.plain i) (p.environment_cases i) p.logDir (p.fallback i)
  obtain ⟨log₁, hcreate₁, rfl, -⟩ := (hbuilds .first).build_eq_ok_iff.mp hbuild₁
  obtain ⟨log₂, hcreate₂, hl, hhost⟩ := (hbuilds .second).build_eq_ok_iff.mp hbuild
  obtain ⟨hdir, hwalk, hatSite⟩ := openAtSite_of_preset (p.plain _) p.sound p.distinct hcreate₁
  let log : Side → LogFile := fun | .first => log₁ | .second => log₂
  have hn : Neighbours (goal p.logDir) p.path p.fileName fun i => (log i).rotation := by
    refine neighbours_of_presets (Side.injective_of_ne p.name_ne) p.plain p.environment_cases hway
      hdir ?_
    rintro (_ | _)
    · exact rotation_of_create hcreate₁
    · exact rotation_of_create hcreate₂
  have hsite : ∀ i, Site host₁.files (p.path i) (goal p.logDir) (p.fileName i) := by
    rintro (_ | _)
    · exact hatSite.site
    · exact site_of_preset (p.plain _) hdir hcreate₂ hatSite.site.sound hwalk
  exact ⟨logger, handler, log, host₁, ⟨hbuilds, hn, hbuild₁, hatSite.eachAtSite (.refl _) hsite⟩,
    hcreate₂, hl, hhost⟩

variable {logger : Side → LogFile → Logger} {handler : Side → LogFile → Handler}
  {log : Side → LogFile} {host : Host}

theorem FirstBuilt.alone?_eq (m : p.FirstBuilt logger handler log host)
    (early : List (Team.Event Unit)) :
    p.alone? early = some (Team.run ⟨fun _ => logger .first (log .first), host⟩ early) :=
  alone?_eq_some_iff.mpr ⟨_, _, m.build_eq, rfl⟩

theorem FirstBuilt.agreeOn (m : p.FirstBuilt logger handler log host)
    (halone : p.alone? early = some alone)
    (i : Side) : ∃ alone' s s', p.alone? (early.filter (·.early.concerns i)) = some alone' ∧
      alone.host.clock = alone'.host.clock ∧ Precedes (p.base logger log) alone s ∧
      Precedes (p.base logger log) alone' s' ∧
      EachAtSite (goal p.logDir) p.path p.fileName (fun i => (log i).rotation) s ∧
      SeesSame (goal p.logDir) p.path p.fileName (fun i => (log i).rotation) i s s' := by
  rw [m.alone?_eq, Option.some.injEq] at halone
  obtain rfl := halone
  obtain ⟨hclock, s, s', hr, hr', heach, hsees⟩ :=
    Team.agreeOn_begun m.builds m.neighbours m.eachAtSite (early.map .early) i
  have hevents : (early.map Team.Event.early).filter (·.concerns i) =
      (early.filter (·.early.concerns i)).map .early := by rw [List.filter_map, Function.comp_def]
  rw [hevents] at hclock hr'
  obtain ⟨hsame, hprecedes⟩ := precedes_of_has early hr
  obtain ⟨hsame', hprecedes'⟩ := precedes_of_has _ hr'
  exact ⟨_, s, s', m.alone?_eq _, hsame.trans (hclock.trans hsame'.symm), hprecedes, hprecedes',
    heach, hsees⟩

theorem both_agreeOn
    (hway : ∀ i, p.environment i = .production →
      (Schedule.daily LoggerConfig.productionBackupDays.toNat .wall).SparesWayTo (p.path i))
    (hboth : p.both? early = some team) :
    ∃ (base : Side → Logger) (handler : Side → Handler) (log₀ : Side → LogFile)
      (start : Side → Rotation), (∀ i, (base i).Files (handler i) (log₀ i)) ∧
      Neighbours (goal p.logDir) p.path p.fileName start ∧
      ∀ i, ∃ team', p.both? (early.filter (·.early.concerns i)) = some team' ∧
        Team.AgreeOn base (goal p.logDir) p.path p.fileName start i team team' := by
  obtain ⟨alone, l, host, halone, hbuild, rfl⟩ := both?_eq_some_iff.mp hboth
  obtain ⟨logger, handler, log, host₁, m, hcreate, rfl, hhost⟩ :=
    exists_firstBuilt hway halone hbuild
  have hjoin : ∀ log', (p.base logger log .second).withLog log' = logger .second log' :=
    fun log' => (m.builds .second).withLog _ _
  refine ⟨p.base logger log, _, _, _, fun i => (m.builds i).files _, m.neighbours, fun i => ?_⟩
  obtain ⟨alone', s, s', halone', hclock, hr, hr', heach, hsees⟩ := m.agreeOn halone i
  rw [hr.files_eq] at hcreate
  have hfound := heach.create m.neighbours hcreate (.refl _)
  cases i with
  | first =>
    -- Nobody else calls before the second one is built.
    have hall : early.filter (·.early.concerns .first) = early := by
      refine List.filter_eq_self.mpr fun e _ => ?_
      cases e with
      | log i call setting => rfl
      | clock c => rfl
    rw [hall]
    exact ⟨_, hboth, .refl (hr.join (hjoin _) host) m.neighbours hfound _⟩
  | second =>
    obtain ⟨log', files', hcreate', hsees'⟩ := hsees.create heach hcreate (.refl _)
    rw [hclock, ← hr'.files_eq] at hcreate'
    have hbuild' := (m.builds .second).build_of_create hcreate'
    exact ⟨_, both?_eq_some_iff.mpr ⟨_, _, _, halone', hbuild', rfl⟩,
      (congrArg Host.clock hhost).trans hclock, _, _, hr.join (hjoin _) host,
      hr'.join (hjoin _) _, hfound, hsees'⟩

theorem item?_log_alone
    (hway : p.environment .first = .production →
      (Schedule.daily LoggerConfig.productionBackupDays.toNat .wall).SparesWayTo (p.path .first))
    (halone : p.alone? early = some alone) (call : LogCall) (setting : CallSetting) {loc : Location}
    (hloc : ¬p.Owns .first loc) :
    ((Team.Event.log () call setting).apply alone).host.files.item? loc =
      alone.host.files.item? loc := by
  obtain ⟨l, host, hbuild, rfl⟩ := alone?_eq_some_iff.mp halone
  obtain ⟨logger, handler, hbuilds⟩ :=
    buildsAt_preset (p.plain .first) (p.environment_cases .first) p.logDir (p.fallback .first)
  obtain ⟨log, hcreate, rfl, -⟩ := hbuilds.build_eq_ok_iff.mp hbuild
  obtain ⟨hdir, -, hatSite⟩ := openAtSite_of_preset (p.plain _) p.sound p.distinct hcreate
  have hn : Neighbours (goal p.logDir) (fun _ : Unit => p.path .first) (fun _ => p.fileName .first)
      fun _ => log.rotation :=
    neighbours_of_presets (Function.injective_of_subsingleton _) (fun _ => p.plain .first)
      (fun _ => p.environment_cases .first) (fun _ => hway) hdir fun _ => rotation_of_create hcreate
  have hagree := Team.agreeOn_begun (i := ()) (fun _ => hbuilds) hn
    (hatSite.eachAtSite (.refl _) fun _ => hatSite.site) early ()
  simp only [Team.begun, Function.update_apply, if_true] at hagree
  exact hagree.item?_log (fun _ => hbuilds.files _) hn call setting hloc

/-- Loggers of presets keep to their own files, unless the log directory is written with a detour by
a directory that is named like a backup of one that prunes by date. -/
theorem separate_of_sparesWay (p : PresetPair)
    (hway : ∀ i, p.environment i = .production →
      (Schedule.daily LoggerConfig.productionBackupDays.toNat .wall).SparesWayTo (p.path i)) :
    p.Separate where
  disjoint loc hfirst hsecond := p.name_ne (territory_logName hfirst hsecond)
  alone_frame early alone halone call setting loc hloc :=
    item?_log_alone (hway .first) halone call setting hloc
  build_frame early alone halone l host hbuild loc hloc := by
    obtain ⟨logger, handler, log, host₁, m, hcreate, -, -⟩ := exists_firstBuilt hway halone hbuild
    obtain ⟨alone', s, s', -, -, hr, -, heach, -⟩ := m.agreeOn halone .first
    rw [hr.files_eq] at hcreate ⊢
    exact heach.item?_eq (heach.changesWithin_create m.neighbours hcreate (.refl _)) hloc
  frame early events team hrun i call setting loc hloc := by
    obtain ⟨team₀, hboth, rfl⟩ := Option.map_eq_some_iff.mp hrun
    obtain ⟨base, handler, log₀, start, hfiles, hn, hagree⟩ := both_agreeOn hway hboth
    obtain ⟨team', -, hstart⟩ := hagree i
    exact (hstart.run hfiles hn events).item?_log hfiles hn call setting hloc
  unaffected early events team hrun i := by
    obtain ⟨team₀, hboth, rfl⟩ := Option.map_eq_some_iff.mp hrun
    obtain ⟨base, handler, log₀, start, hfiles, hn, hagree⟩ := both_agreeOn hway hboth
    obtain ⟨team', hboth', hstart⟩ := hagree i
    refine ⟨_, Option.map_eq_some_iff.mpr ⟨team', hboth', rfl⟩, fun loc hloc => ?_⟩
    exact (hstart.run hfiles hn events).item?_eq hloc

def ofLetters (logDir : Text) (files : FileSystem) (hs : files.Sound) (hd : files.Distinct) :
    PresetPair where
  logDir := logDir
  name
    | .first => ascii "a"
    | .second => ascii "b"
  environment _ := .production
  fallback _ := .standardError
  host := { Host.fresh ⟨0, 0, 0⟩ with files := files }
  sound := hs
  distinct := hd
  name_ne := by decide
  plain := by
    rintro (_ | _)
    · decide
    · decide
  environment_cases _ := .inr rfl

def firstDay : List (Team.Event Unit) := [.log () plainCall ⟨Fields.empty, none, []⟩]

def nextDay : List (Team.Event Side) :=
  [.clock ⟨90000000000000, 0, 0⟩, .log .first plainCall ⟨Fields.empty, none, []⟩,
    .log .second plainCall ⟨Fields.empty, none, []⟩]

def inLogs : PresetPair := ofLetters (ascii "logs") FileSystem.empty empty_sound List.nodup_nil

theorem separate_inLogs :
    ∃ team team', inLogs.run? firstDay nextDay = some team ∧
      inLogs.run? (firstDay.filter (·.early.concerns .second))
        (nextDay.filter (·.concerns .second)) =
        some team' ∧
      team.host.files.item? [ascii "logs", ascii "b.log.1970-01-01"] ≠ none ∧
      team.host.files.item? [ascii "logs", ascii "b.log.1970-01-01"] =
        team'.host.files.item? [ascii "logs", ascii "b.log.1970-01-01"] := by
  have hway : ∀ i, inLogs.environment i = .production →
      (Schedule.daily LoggerConfig.productionBackupDays.toNat .wall).SparesWayTo
        (inLogs.path i) := by
    rintro i -
    have hdirect : detours (start (inLogs.path i)) (FilePath.components (inLogs.path i)) = [] := by
      cases i with
      | first => decide
      | second => decide
    refine .inr fun name hmem => ?_
    rw [hdirect] at hmem
    cases hmem
  have hown : inLogs.Owns .second [ascii "logs", ascii "b.log.1970-01-01"] :=
    ⟨_, [], .backup (isTag_localDate 0 0), by decide⟩
  have hruns : (inLogs.run? firstDay nextDay).map (fun team =>
      (team.host.files.item? [ascii "logs", ascii "b.log.1970-01-01"]).isSome) = some true := by cbv
  obtain ⟨team, hrun, hstands⟩ := Option.map_eq_some_iff.mp hruns
  obtain ⟨team', hrun', hsame⟩ :=
    (separate_of_sparesWay inLogs hway).unaffected firstDay nextDay team hrun .second
  exact ⟨team, team', hrun, hrun', Option.isSome_iff_ne_none.mp hstands, hsame _ hown⟩

def december : List Text :=
  (List.range 29).map fun n =>
    ascii "a.log.1969-12-" ++ [UInt8.ofNat (48 + (n + 2) / 10), UInt8.ofNat (48 + (n + 2) % 10)]

def decemberFiles : FileSystem :=
  ⟨december.mapIdx fun n name => ([name], .file n), List.replicate 29 ⟨#[], 0⟩, .ample⟩

theorem decemberFiles_eq : decemberFiles = touchAll FileSystem.empty december := by
  generalize hfs : touchAll FileSystem.empty december = fs
  have hentries : decemberFiles.entries = fs.entries := hfs ▸ by decide +kernel
  have hfiles : decemberFiles.files = fs.files := hfs ▸ by decide +kernel
  have hdisk : decemberFiles.disk = fs.disk := hfs ▸ (disk_touchAll _ _).symm
  exact FileSystem.mk.injEq .. ▸ ⟨hentries, hfiles, hdisk⟩

def windingDir : Text := ascii "a.log.1969-12-01/.."

def inWindingDir : PresetPair :=
  have hfiles : decemberFiles.Sound ∧ decemberFiles.Distinct :=
    decemberFiles_eq ▸ sound_touchAll empty_sound List.nodup_nil december
  ofLetters windingDir decemberFiles hfiles.1 hfiles.2

set_option maxRecDepth 4000 in
/-- Pruning for one logger can remove a directory on the way to the file of the other. -/
theorem not_separate_inWindingDir : ¬inWindingDir.Separate := by
  intro h
  have hown : inWindingDir.Owns .second [ascii "b.log.1970-01-01"] :=
    ⟨_, [], .backup (isTag_localDate 0 0), by decide⟩
  have hgone : (inWindingDir.run? [] nextDay).map (fun team =>
      (team.host.files.item? [ascii "b.log.1970-01-01"]).isSome) = some false := by cbv
  have hkept : (inWindingDir.run? [] (nextDay.filter (·.concerns .second))).map (fun team =>
      (team.host.files.item? [ascii "b.log.1970-01-01"]).isSome) = some true := by decide +kernel
  obtain ⟨team, hrun, hmissing⟩ := Option.map_eq_some_iff.mp hgone
  obtain ⟨team', hrun', hsame⟩ := h.unaffected [] nextDay team hrun .second
  rw [List.filter_nil] at hrun'
  rw [hrun', Option.map_some, Option.some.injEq, ← hsame _ hown, hmissing] at hkept
  cases hkept

end PresetPair

end StructuredLog
