import StructuredLog.Config
import StructuredLog.Proofs.Files.Preparations
import StructuredLog.Proofs.LogFiles.Reopening

/-!
# Building one handler

A spec can be built if its kind is known and has what it needs: a factory that returns a handler,
or a path that a log file can be opened at. Else there is a fault that says what is wrong. Either
way the files are prepared for the log file at most. Main statements: `build_cases` and
`build_readies`.
-/

namespace StructuredLog

open FileSystem Location Text

namespace LogFile

theorem create_cases (clock : Clock) (path : Text) (schedule : Schedule) (fs : FileSystem) :
    (∃ e, create clock path schedule fs = (.error e, (fs.makeParent path).2) ∧
      fs.Refuses path e) ∨
    ∃ log target fs', create clock path schedule fs = (.ok log, fs') ∧ fs.CanOpen path ∧
      (fs.makeParent path).2.openFile path false (Instant.floorSeconds clock.wall) =
        .ok (target, fs') := by
  rw [create, Work.openStream_eq]
  dsimp only
  cases hparent : fs.makeParent path with
  | mk result made =>
    cases result with
    | error e => exact .inl ⟨e, rfl, .inl (congrArg Prod.fst hparent)⟩
    | ok _ =>
      have hpassable : fs.ParentPassable path :=
        makeParent_ok_iff.mp (congrArg Prod.fst hparent)
      have hopenable : (∃ target fs', made.openFile path false
          (Instant.floorSeconds clock.wall) = .ok (target, fs')) ↔ made.Openable path :=
        openFile_ok_iff
      dsimp only
      cases hopen : made.openFile path false (Instant.floorSeconds clock.wall) with
      | error e =>
        refine .inl ⟨.denied, rfl, .inr ⟨hpassable, fun h => ?_, rfl⟩⟩
        rw [hparent, ← hopenable, hopen] at h
        obtain ⟨_, _, h⟩ := h
        cases h
      | ok result =>
        refine .inr ⟨_, result.1, result.2, rfl, ⟨hpassable, ?_⟩, rfl⟩
        rw [hparent]
        exact hopenable.mp ⟨_, _, hopen⟩

theorem create_prepares (clock : Clock) (path : Text) (schedule : Schedule) (fs : FileSystem) :
    Prepares (· ∈ stopsOf (FilePath.parent path)) (· = goal path) fs
      (create clock path schedule fs).2 := by
  have hparent : Prepares (· ∈ stopsOf (FilePath.parent path)) (· = goal path) fs
      (fs.makeParent path).2 := .makeParent fun _ hloc => hloc
  rcases create_cases clock path schedule fs with
    ⟨e, hcreate, -⟩ | ⟨log, target, fs', hcreate, -, hopen⟩
  · rw [hcreate]
    exact hparent
  · rw [hcreate]
    exact hparent.trans (.openFile rfl hopen)

end LogFile

namespace HandlerSpec

variable {s : HandlerSpec} {files : FileSystem} {schedule : LogFile.Schedule}

/-- The factory of a custom handler raises nothing. -/
def FactoryReturns (s : HandlerSpec) : Prop :=
  s.kind = .custom → ∀ factory, s.factory = some factory → ∃ made, factory.make = .ok made

def CanBuild (s : HandlerSpec) (files : FileSystem) : Prop :=
  match s.kind with
  | .stream => True
  | .custom => ∃ factory h, s.factory = some factory ∧ factory.make = .ok (some h)
  | .unlisted _ => False
  | .file | .sizeRotating | .dailyRotating => s.path ≠ [] ∧ files.CanOpen s.path

/-- What is wrong with a spec, and the fault that says so. -/
inductive Problem (s : HandlerSpec) (files : FileSystem) : Fault → Prop
  | noFactory (hkind : s.kind = .custom) (hfactory : s.factory = none) :
      Problem s files (.invalidHandler (ascii "custom handler without factory"))
  | noHandler {factory : Factory} (hkind : s.kind = .custom) (hfactory : s.factory = some factory)
      (hmake : factory.make = .ok none) :
      Problem s files (.invalidHandler (ascii "custom handler factory returned null"))
  | noPath (hcustom : s.kind ≠ .custom) (hstream : s.kind ≠ .stream) (hpath : s.path = []) :
      Problem s files (.invalidHandler (ascii "file handler without path"))
  | unlisted {code : Int} (hkind : s.kind = .unlisted code) (hpath : s.path ≠ []) :
      Problem s files (.invalidHandler (ascii "unknown handler kind"))
  | refused {schedule : LogFile.Schedule} {e : FileError} (hfile : s.schedule? = some schedule)
      (hpath : s.path ≠ []) (hrefuses : files.Refuses s.path e) :
      Problem s files (.unwritablePath (s.path ++ ascii " (" ++ e.message ++ ascii ")"))

theorem canBuild_of_schedule (hfile : s.schedule? = some schedule) :
    s.CanBuild files ↔ s.path ≠ [] ∧ files.CanOpen s.path := by
  rw [CanBuild]
  cases hkind : s.kind <;> simp [schedule?, hkind] at hfile ⊢

theorem build_of_schedule (hfile : s.schedule? = some schedule) (hpath : s.path ≠ [])
    (fallback : Channel) (host : Host) : s.build fallback host =
      buildFile s.threshold (s.chosenFormatter host) s.path schedule fallback host := by
  rw [build]
  cases hkind : s.kind <;> simp [schedule?, hkind] at hfile <;>
    simp [hpath, schedule?, hkind, hfile]

theorem Problem.not_canBuild {f : Fault} (h : s.Problem files f) : ¬s.CanBuild files := by
  cases h with
  | noFactory hkind hfactory => simp [CanBuild, hkind, hfactory]
  | noHandler hkind hfactory hmake => simp [CanBuild, hkind, hfactory, hmake]
  | noPath hcustom hstream hpath =>
    rw [CanBuild]
    cases hkind : s.kind <;> simp_all
  | unlisted hkind hpath => simp [CanBuild, hkind]
  | refused hfile hpath hrefuses =>
    rw [canBuild_of_schedule hfile]
    exact fun h => hrefuses.not_canOpen h.2

theorem buildFile_cases (threshold : Severity) (formatter : Formatter) (path : Text)
    (schedule : LogFile.Schedule) (fallback : Channel) (host : Host) :
    (∃ log, buildFile threshold formatter path schedule fallback host =
        (.ok ⟨threshold, formatter, fallback, .file log⟩,
          { host with files := (LogFile.create host.clock path schedule host.files).2 }) ∧
      host.files.CanOpen path) ∨
    ∃ e, buildFile threshold formatter path schedule fallback host =
        (.error (.fault (.unwritablePath (path ++ ascii " (" ++ e.message ++ ascii ")"))),
          { host with files := (LogFile.create host.clock path schedule host.files).2 }) ∧
      host.files.Refuses path e := by
  rw [buildFile]
  rcases LogFile.create_cases host.clock path schedule host.files with
    ⟨e, hcreate, hrefuses⟩ | ⟨log, target, fs', hcreate, hcan, -⟩
  · rw [hcreate]
    exact .inr ⟨e, rfl, hrefuses⟩
  · rw [hcreate]
    exact .inl ⟨log, rfl, hcan⟩

inductive Built (s : HandlerSpec) (host : Host) : Except Raised Handler × Host → Prop
  | made (h : Handler) (hcan : s.CanBuild host.files) : Built s host (.ok h, host)
  | faulty {f : Fault} (hproblem : s.Problem host.files f) : Built s host (.error (.fault f), host)
  | raised {factory : Factory} {r : Raised} (hkind : s.kind = .custom)
      (hfactory : s.factory = some factory) (hmake : factory.make = .error r) :
      Built s host (.error r, host)
  | opened {schedule : LogFile.Schedule} (h : Handler) (hfile : s.schedule? = some schedule)
      (hcan : s.CanBuild host.files) : Built s host (.ok h,
        { host with files := (LogFile.create host.clock s.path schedule host.files).2 })
  | refused {schedule : LogFile.Schedule} {f : Fault} (hfile : s.schedule? = some schedule)
      (hproblem : s.Problem host.files f) : Built s host (.error (.fault f),
        { host with files := (LogFile.create host.clock s.path schedule host.files).2 })

theorem build_without_path (hcustom : s.kind ≠ .custom) (hstream : s.kind ≠ .stream)
    (hpath : s.path = []) (fallback : Channel) (host : Host) :
    s.build fallback host = (.error (invalid "file handler without path"), host) := by
  rw [build]
  cases hkind : s.kind <;> simp_all

theorem built_build (s : HandlerSpec) (fallback : Channel) (host : Host) :
    s.Built host (s.build fallback host) := by
  by_cases hcustom : s.kind = .custom
  · simp only [build, hcustom]
    cases hfactory : s.factory with
    | none => exact .faulty (.noFactory hcustom hfactory)
    | some factory =>
      dsimp only
      cases hmake : factory.make with
      | error r => exact .raised hcustom hfactory hmake
      | ok made =>
        cases made with
        | none => exact .faulty (.noHandler hcustom hfactory hmake)
        | some h =>
          refine .made h ?_
          simp [CanBuild, hcustom, hfactory, hmake]
  by_cases hstream : s.kind = .stream
  · simp only [build, hstream]
    exact .made _ (by simp [CanBuild, hstream])
  by_cases hpath : s.path = []
  · rw [build_without_path hcustom hstream hpath]
    exact .faulty (.noPath hcustom hstream hpath)
  cases hfile : s.schedule? with
  | some schedule =>
    rw [build_of_schedule hfile hpath]
    rcases buildFile_cases s.threshold (s.chosenFormatter host) s.path schedule fallback host
      with ⟨log, hbuild, hcan⟩ | ⟨e, hbuild, hrefuses⟩
    · rw [hbuild]
      exact .opened _ hfile ((canBuild_of_schedule hfile).mpr ⟨hpath, hcan⟩)
    · rw [hbuild]
      exact .refused hfile (.refused hfile hpath hrefuses)
  | none =>
    rw [build]
    cases hkind : s.kind with
    | unlisted code =>
      simp only [if_neg hpath, hfile]
      exact .faulty (.unlisted hkind hpath)
    | stream => exact absurd hkind hstream
    | custom => exact absurd hkind hcustom
    | file => simp [schedule?, hkind] at hfile
    | sizeRotating => simp [schedule?, hkind] at hfile
    | dailyRotating => simp [schedule?, hkind] at hfile

theorem build_cases (hreturns : s.FactoryReturns) (fallback : Channel) (host : Host) :
    (∃ h, (s.build fallback host).1 = .ok h) ∧ s.CanBuild host.files ∨
    ∃ f, (s.build fallback host).1 = .error (.fault f) ∧ s.Problem host.files f := by
  have hbuilt := s.built_build fallback host
  generalize s.build fallback host = result at hbuilt
  cases hbuilt with
  | made h hcan => exact .inl ⟨⟨h, rfl⟩, hcan⟩
  | faulty hproblem => exact .inr ⟨_, rfl, hproblem⟩
  | raised hkind hfactory hmake =>
    obtain ⟨made, hmade⟩ := hreturns hkind _ hfactory
    rw [hmake] at hmade
    cases hmade
  | opened h hfile hcan => exact .inl ⟨⟨h, rfl⟩, hcan⟩
  | refused hfile hproblem => exact .inr ⟨_, rfl, hproblem⟩

def OnWay (specs : List HandlerSpec) (loc : Location) : Prop :=
  ∃ s ∈ specs, s.schedule?.isSome = true ∧ loc ∈ stopsOf (FilePath.parent s.path)

def AtGoal (specs : List HandlerSpec) (loc : Location) : Prop :=
  ∃ s ∈ specs, s.schedule?.isSome = true ∧ loc = goal s.path

/-- A host is as it was, but for directories and empty files that log files of the specs need. -/
structure Readies (specs : List HandlerSpec) (host host' : Host) : Prop where
  rest : host' = { host with files := host'.files }
  files : Prepares (OnWay specs) (AtGoal specs) host.files host'.files

variable {specs wider : List HandlerSpec} {host host' host'' : Host}

theorem Readies.refl (specs : List HandlerSpec) (host : Host) : Readies specs host host :=
  ⟨rfl, .refl _⟩

theorem Readies.trans (h : Readies specs host host') (h' : Readies specs host' host'') :
    Readies specs host host'' where
  rest := by
    rw [h'.rest, h.rest]
  files := h.files.trans h'.files

theorem Readies.mono (h : Readies specs host host') (hwider : specs ⊆ wider) :
    Readies wider host host' where
  rest := h.rest
  files := h.files.mono (fun _ ⟨s, hs, hloc⟩ => ⟨s, hwider hs, hloc⟩)
    fun _ ⟨s, hs, hloc⟩ => ⟨s, hwider hs, hloc⟩

theorem readies_create {schedule : LogFile.Schedule} (hfile : s.schedule? = some schedule)
    (host : Host) : Readies [s] host
      { host with files := (LogFile.create host.clock s.path schedule host.files).2 } := by
  have hsome : s.schedule?.isSome = true := by rw [hfile, Option.isSome_some]
  refine ⟨rfl, (LogFile.create_prepares host.clock s.path schedule host.files).mono ?_ ?_⟩
  · exact fun loc hloc => ⟨s, List.mem_singleton_self s, hsome, hloc⟩
  · exact fun loc hloc => ⟨s, List.mem_singleton_self s, hsome, hloc⟩

theorem build_readies (s : HandlerSpec) (fallback : Channel) (host : Host) :
    Readies [s] host (s.build fallback host).2 := by
  have hbuilt := s.built_build fallback host
  generalize s.build fallback host = result at hbuilt
  cases hbuilt with
  | made => exact .refl [s] host
  | faulty => exact .refl [s] host
  | raised => exact .refl [s] host
  | opened h hfile => exact readies_create hfile host
  | refused hfile => exact readies_create hfile host

end HandlerSpec

end StructuredLog
