import StructuredLog.Proofs.Building.Specs
import StructuredLog.Proofs.Filters.BuiltIn

/-!
# Building a logger

A logger is built if no filter is absent and each spec can be built where those before it leave the
host. Else the fault is that of an absent filter, before any spec is tried, or that of the first
spec that cannot be built, and none after it is tried. What was tried leaves directories and empty
files at most. Main statement: `build_reports_first`.
-/

namespace StructuredLog

open FileSystem Location Text

namespace HandlerSpec

def hostAfter (fallback : Channel) (specs : List HandlerSpec) (host : Host) : Host :=
  specs.foldl (fun host s => (s.build fallback host).2) host

def EachCanBuild (fallback : Channel) : List HandlerSpec → Host → Prop
  | [], _ => True
  | s :: rest, host => s.CanBuild host.files ∧ EachCanBuild fallback rest (s.build fallback host).2

variable {fallback : Channel} {specs front back : List HandlerSpec} {s : HandlerSpec} {host : Host}

theorem hostAfter_cons (s : HandlerSpec) (rest : List HandlerSpec) (host : Host) :
    hostAfter fallback (s :: rest) host = hostAfter fallback rest (s.build fallback host).2 := rfl

theorem hostAfter_concat (front : List HandlerSpec) (s : HandlerSpec) (host : Host) :
    hostAfter fallback (front ++ [s]) host =
      (s.build fallback (hostAfter fallback front host)).2 := by
  rw [hostAfter, List.foldl_append]
  rfl

theorem readies_hostAfter (fallback : Channel) (specs : List HandlerSpec) (host : Host) :
    Readies specs host (hostAfter fallback specs host) := by
  induction specs generalizing host with
  | nil => exact .refl [] host
  | cons s rest ih =>
    have hfirst : Readies (s :: rest) host (s.build fallback host).2 :=
      (s.build_readies fallback host).mono (by simp)
    exact hfirst.trans ((ih _).mono (List.subset_cons_self s rest))

theorem eachCanBuild_append : EachCanBuild fallback (front ++ back) host ↔
    EachCanBuild fallback front host ∧
      EachCanBuild fallback back (hostAfter fallback front host) := by
  induction front generalizing host with
  | nil => simp [EachCanBuild, hostAfter]
  | cons s front ih =>
    rw [List.cons_append, EachCanBuild, EachCanBuild, ih, hostAfter_cons, and_assoc]

theorem eachCanBuild_or_first (fallback : Channel) (specs : List HandlerSpec) (host : Host) :
    EachCanBuild fallback specs host ∨ ∃ front s back, specs = front ++ s :: back ∧
      EachCanBuild fallback front host ∧ ¬s.CanBuild (hostAfter fallback front host).files := by
  induction specs generalizing host with
  | nil => exact .inl trivial
  | cons s rest ih =>
    by_cases hs : s.CanBuild host.files
    · rcases ih (s.build fallback host).2 with hrest | ⟨front, t, back, rfl, hfront, ht⟩
      · exact .inl ⟨hs, hrest⟩
      · exact .inr ⟨s :: front, t, back, rfl, ⟨hs, hfront⟩, ht⟩
    · exact .inr ⟨[], s, rest, rfl, trivial, hs⟩

theorem buildAll_append (hreturns : ∀ s ∈ front, s.FactoryReturns)
    (hfront : EachCanBuild fallback front host) : ∃ hs, ∀ back,
      buildAll fallback (front ++ back) host =
        match buildAll fallback back (hostAfter fallback front host) with
        | (.error r, host) => (.error r, host)
        | (.ok hs', host) => (.ok (hs ++ hs'), host) := by
  induction front generalizing host with
  | nil =>
    refine ⟨[], fun back => ?_⟩
    change buildAll fallback back host = match buildAll fallback back host with
      | (.error r, host) => (.error r, host)
      | (.ok hs', host) => (.ok hs', host)
    cases buildAll fallback back host with
    | mk result host' => cases result <;> rfl
  | cons s front ih =>
    obtain ⟨hs, hrest⟩ := hfront
    obtain ⟨hreturn, hreturns⟩ := List.forall_mem_cons.mp hreturns
    rcases build_cases hreturn fallback host with ⟨⟨h, hbuild⟩, -⟩ | ⟨f, -, hproblem⟩
    · obtain ⟨handlers, htail⟩ := ih hreturns hrest
      refine ⟨h :: handlers, fun back => ?_⟩
      have hpair : s.build fallback host = (.ok h, (s.build fallback host).2) := by
        rw [← hbuild]
      rw [List.cons_append, buildAll, hpair]
      dsimp only
      rw [htail back, hostAfter_cons]
      cases buildAll fallback back (hostAfter fallback front (s.build fallback host).2) with
      | mk result host' => cases result <;> rfl
    · exact absurd hs hproblem.not_canBuild

theorem buildAll_of_eachCanBuild (hreturns : ∀ s ∈ specs, s.FactoryReturns)
    (h : EachCanBuild fallback specs host) :
    ∃ hs, buildAll fallback specs host = (.ok hs, hostAfter fallback specs host) := by
  obtain ⟨hs, hbuild⟩ := buildAll_append hreturns h
  have hall := hbuild []
  rw [List.append_nil] at hall
  exact ⟨hs ++ [], hall⟩

theorem buildAll_of_first (hreturns : ∀ t ∈ front ++ s :: back, t.FactoryReturns)
    (hfront : EachCanBuild fallback front host)
    (hs : ¬s.CanBuild (hostAfter fallback front host).files) :
    ∃ f, buildAll fallback (front ++ s :: back) host =
        (.error (.fault f), hostAfter fallback (front ++ [s]) host) ∧
      s.Problem (hostAfter fallback front host).files f := by
  have hreturn := hreturns s (by simp)
  obtain ⟨handlers, hbuild⟩ :=
    buildAll_append (fun t ht => hreturns t (List.mem_append_left _ ht)) hfront
  rcases build_cases hreturn fallback (hostAfter fallback front host) with
    ⟨-, hcan⟩ | ⟨f, herror, hproblem⟩
  · exact absurd hcan hs
  · refine ⟨f, ?_, hproblem⟩
    have hpair : s.build fallback (hostAfter fallback front host) =
        (.error (.fault f), hostAfter fallback (front ++ [s]) host) := by
      rw [hostAfter_concat, ← herror]
    rw [hbuild, buildAll, hpair]

end HandlerSpec

namespace Logger

open HandlerSpec

variable {config : LoggerConfig}

theorem build_of_none_mem (hnone : none ∈ config.filters) (fallback : Channel) (host : Host) :
    build config fallback host = (.error (.fault (.nullFilter config.name)), host) := by
  rw [build, presentFilters?_eq_none.mpr hnone]

theorem build_of_none_not_mem (hnone : none ∉ config.filters) (fallback : Channel) (host : Host) :
    ∃ filters, build config fallback host = match buildAll fallback config.handlers host with
      | (.error r, host) => (.error r, host)
      | (.ok handlers, host) => (.ok ⟨config, filters, handlers, fallback⟩, host) := by
  rw [build]
  cases hpresent : presentFilters? config.filters with
  | none => exact absurd (presentFilters?_eq_none.mp hpresent) hnone
  | some filters => exact ⟨withRedaction filters, rfl⟩

/-- A logger is built exactly if no filter is absent and each spec can be built where those before
it leave the host. An absent filter is reported with the name of the logger, and nothing is tried.
Else a failure is the fault of the first spec that cannot be built, and the host is as this one and
those before it leave it. Whatever was tried, all that stood stands and holds what it held, and
there are at most directories and empty files more, which log files of the tried specs need. -/
theorem build_reports_first (hreturns : ∀ s ∈ config.handlers, s.FactoryReturns)
    (fallback : Channel) (host : Host) :
    let built := build config fallback host
    ((∃ l, built.1 = .ok l) ↔
      none ∉ config.filters ∧ EachCanBuild fallback config.handlers host) ∧
    (none ∈ config.filters → built = (.error (.fault (.nullFilter config.name)), host)) ∧
    (∀ r, none ∉ config.filters → built.1 = .error r → ∃ front s back f,
      config.handlers = front ++ s :: back ∧ EachCanBuild fallback front host ∧
        ¬s.CanBuild (hostAfter fallback front host).files ∧
        s.Problem (hostAfter fallback front host).files f ∧ r = .fault f ∧
        built.2 = hostAfter fallback (front ++ [s]) host ∧ Readies (front ++ [s]) host built.2) ∧
    ∀ l, built.1 = .ok l → built.2 = hostAfter fallback config.handlers host ∧
      Readies config.handlers host built.2 := by
  intro built
  by_cases hnone : none ∈ config.filters
  · have hbuilt : built = _ := build_of_none_mem hnone fallback host
    rw [hbuilt]
    refine ⟨iff_of_false (fun ⟨l, hl⟩ => nomatch hl) (fun h => h.1 hnone), fun _ => rfl,
      fun r hpresent => absurd hnone hpresent, fun l hl => nomatch hl⟩
  obtain ⟨filters, hbuilt⟩ := build_of_none_not_mem hnone fallback host
  rcases eachCanBuild_or_first fallback config.handlers host with
    heach | ⟨front, s, back, hsplit, hfront, hs⟩
  · obtain ⟨handlers, hall⟩ := buildAll_of_eachCanBuild hreturns heach
    have hdone : built = (.ok ⟨config, filters, handlers, fallback⟩,
        hostAfter fallback config.handlers host) := by
      rw [hall] at hbuilt
      exact hbuilt
    rw [hdone]
    exact ⟨iff_of_true ⟨_, rfl⟩ ⟨hnone, heach⟩, fun h => absurd h hnone,
      fun r _ hr => (nomatch hr), fun l _ => ⟨rfl, readies_hostAfter fallback config.handlers host⟩⟩
  · rw [hsplit] at hreturns
    obtain ⟨f, hall, hproblem⟩ := buildAll_of_first hreturns hfront hs
    have hfailed : built = (.error (.fault f), hostAfter fallback (front ++ [s]) host) := by
      rw [hsplit, hall] at hbuilt
      exact hbuilt
    have hnot : ¬EachCanBuild fallback config.handlers host := by
      rw [hsplit, eachCanBuild_append]
      exact fun h => hs h.2.1
    rw [hfailed]
    refine ⟨iff_of_false (fun ⟨l, hl⟩ => nomatch hl) (fun h => hnot h.2), fun h => absurd h hnone,
      fun r _ hr => ?_, fun l hl => nomatch hl⟩
    cases hr
    exact ⟨front, s, back, f, hsplit, hfront, hs, hproblem, rfl, rfl,
      readies_hostAfter fallback (front ++ [s]) host⟩

def pathMissing : LoggerConfig :=
  { LoggerConfig.basic with
    name := ascii "app"
    handlers :=
      .ofFactory (some ⟨0, .ok (some ⟨.unset, .json, .standardError, .stream .standardOutput⟩)⟩) ::
        [ascii "d/a.log", [], ascii "later.log"].map fun path =>
          { HandlerSpec.basic with kind := .file, path := path } }

def keepingHost : Host :=
  { Host.fresh ⟨0, 0, 0⟩ with
    files := ⟨([ascii "keep.log"], .file 0) :: Host.devices, [⟨#[104, 105], 7⟩], .ample⟩ }

theorem build_reports_first_pathMissing :
    (∀ s ∈ pathMissing.handlers, s.FactoryReturns) ∧
    let built := build pathMissing .standardError keepingHost
    built.1 = .error (.fault (.invalidHandler (ascii "file handler without path"))) ∧
    built.2.files.node? [ascii "keep.log"] = some (.file 0) ∧
    built.2.files.files[0]? = some ⟨#[104, 105], 7⟩ ∧
    built.2.files.node? [ascii "d", ascii "a.log"] = some (.file 1) ∧
    built.2.files.node? [ascii "later.log"] = none := by
  have hreturns : ∀ s ∈ pathMissing.handlers, s.FactoryReturns := by
    intro s hs hkind factory hfactory
    rcases List.mem_cons.mp hs with rfl | hs
    · cases hfactory
      exact ⟨_, rfl⟩
    · obtain ⟨path, -, rfl⟩ := List.mem_map.mp hs
      cases hkind
  have hfails : (build pathMissing .standardError keepingHost).1 =
      .error (.fault (.invalidHandler (ascii "file handler without path"))) := rfl
  obtain ⟨-, -, hfailure, -⟩ := build_reports_first hreturns .standardError keepingHost
  obtain ⟨front, s, back, f, -, -, -, -, -, -, hreadies⟩ :=
    hfailure _ List.not_mem_nil hfails
  exact ⟨hreturns, hfails, hreadies.files.node rfl, hreadies.files.file Nat.one_pos, rfl, rfl⟩

end Logger

end StructuredLog
