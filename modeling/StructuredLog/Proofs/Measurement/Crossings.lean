import StructuredLog.Proofs.Measurement.Brackets

/-!
# What is raised crosses the operations that are open

Something raised leaves every scope and every measured operation between the place where it is
raised and the place where it is caught. Each operation on the way offers its failure, the
innermost first, and no other offer is made. Main statement: `measured_transparent`.
-/

namespace StructuredLog.Scenario

inductive Fails (r : Raised) : Offer → Offer → Prop
  | intro (id : LoggerId) (operation : Text) (extra : Fields) (setting : CallSetting)
      (frames : List Text) (duration : Binary64) :
    Fails r ⟨id, .starting operation, Measurement.starting operation extra, setting⟩
      ⟨id, .failed operation, Measurement.failed operation extra duration,
        { setting with handling := some r, frames := frames }⟩

def Session.startOf (s : Session) (id : LoggerId) (here : Setting) (operation : Text)
    (extra : Fields) : Offer :=
  s.offer id here (.starting operation) (Measurement.starting operation extra)

mutual

/-- The step comes to raise `r` in the session at the end, and `r` leaves the step after crossing
the operations that were started by the offers, the innermost first. -/
inductive Crosses (r : Raised) : Setting → Session → Step → List Offer → Session → Prop
  | leave {here : Setting} {s : Session} : Crosses r here s (.leave (.raises r)) [] s.observe.2
  | ending {here : Setting} {s started : Session} {operation : Text} {extra : Fields}
      {work : List Step} {id : LoggerId} {run : RunResult} (hcurrent : s.current = some id)
      (hstarts : s.logOn id here (.starting operation) (Measurement.starting operation extra)
        = some started)
      (hrun : runSteps here started.observe.2 work = some run) (hexit : run.exit = none) :
    Crosses r here s (.measure operation extra work (.raises r))
      [s.startOf id here operation extra] run.session
  | measure {here : Setting} {s started s' : Session} {operation : Text} {extra : Fields}
      {work : List Step} {ending : Ending} {id : LoggerId} {opened : List Offer}
      (hcurrent : s.current = some id)
      (hstarts : s.logOn id here (.starting operation) (Measurement.starting operation extra)
        = some started)
      (h : CrossesAll r here started.observe.2 work opened s') :
    Crosses r here s (.measure operation extra work ending)
      (opened ++ [s.startOf id here operation extra]) s'
  | scope {here : Setting} {s s' : Session} {fields : Fields} {handedOver : Bool}
      {work : List Step} {opened : List Offer}
      (h : CrossesAll r here (s.enter here.thread fields).2 work opened s') :
    Crosses r here s (.scope fields handedOver work) opened s'
  | recovery {here : Setting} {s s' : Session} {work recovery : List Step} {caught : Raised}
      {ending : Option Raised} {run : RunResult} {opened : List Offer}
      (hrun : runSteps here s work = some run)
      (hcaught : run.exit.or (ending.map .raises) = some (.raises caught))
      (h : CrossesAll r { here with handling := some caught } run.session recovery opened s') :
    Crosses r here s (.attempt work ending recovery) opened s'
  | propagating {here : Setting} {s s' : Session} {step : Step} {opened : List Offer}
      (h : Crosses r here s step opened s') : Crosses r here s (.propagating step) opened s'

inductive CrossesAll (r : Raised) : Setting → Session → List Step → List Offer → Session → Prop
  | here {here : Setting} {s s' : Session} {step : Step} {rest : List Step} {opened : List Offer}
      (hstep : step.propagates = true) (h : Crosses r here s step opened s') :
    CrossesAll r here s (step :: rest) opened s'
  | later {here : Setting} {s s' : Session} {step : Step} {rest : List Step} {result : StepResult}
      {opened : List Offer} (hresult : runStep here s step = some result)
      (hon : step.passesOn result.exit = none)
      (h : CrossesAll r here result.session rest opened s') :
    CrossesAll r here s (step :: rest) opened s'

end

/-- The offers made since `s'` are the failures of the operations that were started by `opened`. -/
def FailedSince (r : Raised) (opened : List Offer) (s' s : Session) : Prop :=
  ∃ failures, s.offers = s'.offers ++ failures ∧ List.Forall₂ (Fails r) opened failures

variable {n : Nat} {here : Setting} {s s' : Session} {r : Raised} {opened : List Offer}

theorem FailedSince.refl : FailedSince r [] s s := ⟨[], (List.append_nil _).symm, .nil⟩

theorem FailedSince.append {first last : Offer} {s'' : Session} (h : FailedSince r opened s' s)
    (hlast : s''.offers = s.offers ++ [last]) (hfails : Fails r first last) :
    FailedSince r (opened ++ [first]) s' s'' := by
  obtain ⟨failures, hoffers, hall⟩ := h
  refine ⟨failures ++ [last], by rw [hlast, hoffers, List.append_assoc], ?_⟩
  exact List.rel_append hall (.cons hfails .nil)

/-- From every session that is ready, the step ends by raising exactly if that is raised somewhere
and crosses operations on its way out; these are then the ones that fail. -/
def Unwinds (n : Nat) (step : Step) : Prop :=
  ∀ (r : Raised) (here : Setting) (s : Session) (result : StepResult), s.Ready n →
    runStep here s step = some result →
      (result.exit = some (.raises r) ↔ ∃ opened s', Crosses r here s step opened s') ∧
      ∀ opened s', Crosses r here s step opened s' → FailedSince r opened s' result.session

def UnwindsAll (n : Nat) (steps : List Step) : Prop :=
  ∀ (r : Raised) (here : Setting) (s : Session) (run : RunResult), s.Ready n →
    runSteps here s steps = some run →
      (run.exit = some (.raises r) ↔ ∃ opened s', CrossesAll r here s steps opened s') ∧
      ∀ opened s', CrossesAll r here s steps opened s' → FailedSince r opened s' run.session

theorem passesOn_raises {step : Step} :
    step.passesOn (some (.raises r)) = if step.propagates then some (.raises r) else none := rfl

theorem passesOn_eq_raises {step : Step} {exit : Option Ending} :
    step.passesOn exit = some (.raises r) ↔ exit = some (.raises r) ∧ step.propagates = true := by
  cases exit with
  | none => simp [Step.passesOn]
  | some ending =>
    cases ending with
    | returns answer => simp [Step.passesOn]
    | raises r' =>
      rw [passesOn_raises]
      cases step.propagates <;> simp

section

variable {step : Step} {rest work recovery : List Step} {result : StepResult}

theorem runSteps_cons_passed {exit : Ending} (hresult : runStep here s step = some result)
    (hexit : step.passesOn result.exit = some exit) :
    runSteps here s (step :: rest) = some ⟨[result.report], some exit, result.session⟩ := by
  simp only [runSteps, hresult, hexit, bind, Option.bind]

theorem runSteps_cons_on {run : RunResult} (hresult : runStep here s step = some result)
    (hexit : step.passesOn result.exit = none)
    (hrest : runSteps here result.session rest = some run) :
    runSteps here s (step :: rest) =
      some ⟨result.report :: run.reports, run.exit, run.session⟩ := by
  simp only [runSteps, hresult, hexit, hrest, bind, Option.bind]

theorem unwindsAll_nil : UnwindsAll n [] := by
  intro r here s run hs hrun
  cases hrun
  exact ⟨⟨fun h => (nomatch h), fun ⟨_, _, h⟩ => (nomatch h)⟩, fun _ _ h => (nomatch h)⟩

theorem unwindsAll_cons (hruns : Runs n step) (hunwinds : Unwinds n step)
    (hrest : RunsAll n rest) (hunwindsRest : UnwindsAll n rest) : UnwindsAll n (step :: rest) := by
  intro r here s run hs hrun
  obtain ⟨result, hresult, hkept⟩ := hruns here s hs
  obtain ⟨hiff, hfails⟩ := hunwinds r here s result hs hresult
  cases hexit : step.passesOn result.exit with
  | some exit =>
    rw [runSteps_cons_passed hresult hexit] at hrun
    cases hrun
    refine ⟨⟨fun hraises => ?_, fun ⟨opened, s', h⟩ => ?_⟩, fun opened s' h => ?_⟩
    · obtain ⟨hraises', hpropagates⟩ := passesOn_eq_raises.mp (hexit.trans hraises)
      obtain ⟨opened, s', h⟩ := hiff.mp hraises'
      exact ⟨opened, s', .here hpropagates h⟩
    · cases h with
      | here hstep h =>
        exact hexit.symm.trans (passesOn_eq_raises.mpr ⟨hiff.mpr ⟨opened, s', h⟩, hstep⟩)
      | later hresult' hon h =>
        cases hresult.symm.trans hresult'
        cases hexit.symm.trans hon
    · cases h with
      | here hstep h => exact hfails opened s' h
      | later hresult' hon h =>
        cases hresult.symm.trans hresult'
        cases hexit.symm.trans hon
  | none =>
    obtain ⟨more, hmore, -⟩ := hrest here result.session hkept.ready
    obtain ⟨hiffRest, hfailsRest⟩ := hunwindsRest r here result.session more hkept.ready hmore
    rw [runSteps_cons_on hresult hexit hmore] at hrun
    cases hrun
    have honly : ∀ opened s', CrossesAll r here s (step :: rest) opened s' →
        CrossesAll r here result.session rest opened s' := by
      intro opened s' h
      cases h with
      | here hstep h =>
        cases hexit.symm.trans (passesOn_eq_raises.mpr ⟨hiff.mpr ⟨opened, s', h⟩, hstep⟩)
      | later hresult' hon h =>
        cases hresult.symm.trans hresult'
        exact h
    refine ⟨⟨fun hraises => ?_, fun ⟨opened, s', h⟩ => ?_⟩, fun opened s' h => ?_⟩
    · obtain ⟨opened, s', h⟩ := hiffRest.mp hraises
      exact ⟨opened, s', .later hresult hexit h⟩
    · exact hiffRest.mpr ⟨opened, s', honly opened s' h⟩
    · exact hfailsRest opened s' (honly opened s' h)

theorem unwinds_of_quiet
    (hexit : ∀ here s result, s.Ready n → runStep here s step = some result → result.exit = none)
    (hnone : ∀ {r here s opened s'}, ¬Crosses r here s step opened s') : Unwinds n step := by
  intro r here s result hs hresult
  rw [hexit here s result hs hresult]
  exact ⟨⟨fun h => (by cases h), fun ⟨_, _, h⟩ => absurd h hnone⟩, fun _ _ h => absurd h hnone⟩

theorem unwinds_leave (ending : Ending) : Unwinds n (.leave ending) := by
  intro r here s result _ hresult
  simp only [runStep, runPlain, Option.some.injEq] at hresult
  subst hresult
  refine ⟨⟨fun h => ?_, ?_⟩, fun opened s' h => ?_⟩
  · cases h
    exact ⟨_, _, .leave⟩
  · rintro ⟨opened, s', h⟩
    cases h
    rfl
  · cases h
    exact .refl

theorem crosses_propagating_iff :
    Crosses r here s (.propagating step) opened s' ↔ Crosses r here s step opened s' := by
  refine ⟨fun h => ?_, .propagating⟩
  cases h with
  | propagating h => exact h

theorem unwinds_propagating (h : Unwinds n step) : Unwinds n (.propagating step) := by
  intro r here s result hs hresult
  rw [runStep] at hresult
  simp only [crosses_propagating_iff]
  exact h r here s result hs hresult

theorem crosses_scope_iff {fields : Fields} {handedOver : Bool} :
    Crosses r here s (.scope fields handedOver work) opened s' ↔
      CrossesAll r here (s.enter here.thread fields).2 work opened s' := by
  refine ⟨fun h => ?_, .scope⟩
  cases h with
  | scope h => exact h

theorem unwinds_scope (hwork : RunsAll n work) (hunwinds : UnwindsAll n work) (fields : Fields)
    (handedOver : Bool) : Unwinds n (.scope fields handedOver work) := by
  intro r here s result hs hresult
  have hentered := hs.enter here.thread fields
  obtain ⟨run, hrun, -⟩ := hwork here _ hentered
  simp only [runStep, hrun, bind, Option.bind, Option.some.injEq] at hresult
  subst hresult
  simp only [crosses_scope_iff]
  exact hunwinds r here _ run hentered hrun

theorem crosses_attempt_iff {ending : Option Raised} {run : RunResult}
    (hrun : runSteps here s work = some run) :
    Crosses r here s (.attempt work ending recovery) opened s' ↔
      ∃ caught, run.exit.or (ending.map .raises) = some (.raises caught) ∧
        CrossesAll r { here with handling := some caught } run.session recovery opened s' := by
  refine ⟨fun h => ?_, fun ⟨caught, hcaught, h⟩ => .recovery hrun hcaught h⟩
  cases h with
  | recovery hrun' hcaught h =>
    cases hrun.symm.trans hrun'
    exact ⟨_, hcaught, h⟩

theorem unwinds_attempt (hwork : RunsAll n work) (hrecovery : RunsAll n recovery)
    (hunwinds : UnwindsAll n recovery) (ending : Option Raised) :
    Unwinds n (.attempt work ending recovery) := by
  intro r here s result hs hresult
  obtain ⟨run, hrun, hkept⟩ := hwork here s hs
  simp only [crosses_attempt_iff hrun]
  simp only [runStep, hrun, bind, Option.bind] at hresult
  split at hresult
  next caught hcaught =>
    obtain ⟨recovered, hrecovered, -⟩ :=
      hrecovery { here with handling := some caught } run.session hkept.ready
    have hcross :=
      hunwinds r { here with handling := some caught } run.session recovered hkept.ready
      hrecovered
    simp only [hrecovered, Option.some.injEq] at hresult
    subst hresult
    simp only [hcaught, Option.some.injEq, Ending.raises.injEq, exists_eq_left']
    exact hcross
  next hcaught =>
    simp only [Option.some.injEq] at hresult
    subst hresult
    refine ⟨⟨fun h => absurd h (hcaught r), ?_⟩, ?_⟩
    · rintro ⟨opened, s', caught, h, -⟩
      exact absurd h (hcaught caught)
    · rintro opened s' ⟨caught, h, -⟩
      exact absurd h (hcaught caught)

theorem crosses_measure_iff {operation : Text} {extra : Fields} {ending : Ending} {id : LoggerId}
    {started : Session} {run : RunResult}
    (h : Measured n here s operation extra work ending id started run result) :
    Crosses r here s (.measure operation extra work ending) opened s' ↔
      (run.exit = none ∧ ending = .raises r ∧ opened = [s.startOf id here operation extra] ∧
        s' = run.session) ∨
      ∃ inner, opened = inner ++ [s.startOf id here operation extra] ∧
        CrossesAll r here started.observe.2 work inner s' := by
  constructor
  · intro hcross
    cases hcross with
    | ending hcurrent hstarts hrun hexit =>
      cases h.current.symm.trans hcurrent
      cases h.starts.symm.trans hstarts
      cases h.works.symm.trans hrun
      exact .inl ⟨hexit, rfl, rfl, rfl⟩
    | measure hcurrent hstarts hinner =>
      cases h.current.symm.trans hcurrent
      cases h.starts.symm.trans hstarts
      exact .inr ⟨_, rfl, hinner⟩
  · rintro (⟨hexit, rfl, rfl, rfl⟩ | ⟨inner, rfl, hinner⟩)
    · exact .ending h.current h.starts h.works hexit
    · exact .measure h.current h.starts hinner

theorem Measured.fails {operation : Text} {extra : Fields} {work : List Step} {ending : Ending}
    {id : LoggerId} {started : Session} {run : RunResult} {result : StepResult}
    (h : Measured n here s operation extra work ending id started run result) (r : Raised) :
    Fails r (s.startOf id here operation extra)
      (run.session.offer id { here with handling := some r } (.failed operation)
        (Measurement.failed operation extra (elapsed started run))) := by
  rw [Session.startOf, Session.offer, Session.offer, h.merged]
  exact .intro ..

theorem unwinds_measure (hwork : RunsAll n work) (hunwinds : UnwindsAll n work) (operation : Text)
    (extra : Fields) (ending : Ending) : Unwinds n (.measure operation extra work ending) := by
  intro r here s result hs hresult
  obtain ⟨id, started, run, result', h⟩ := exists_measured hs hwork here operation extra ending
  cases h.runs.symm.trans hresult
  obtain ⟨hiff, hfails⟩ := hunwinds r here started.observe.2 run h.ready.observe h.works
  have hraises : ∀ r', run.exit.getD ending = .raises r' →
      ∀ inner s', FailedSince r' inner s' run.session →
        FailedSince r' (inner ++ [s.startOf id here operation extra]) s' result.session :=
    fun r' hr' inner s' hinner => hinner.append (h.failed r' hr').2.2 (h.fails r')
  simp only [crosses_measure_iff h]
  refine ⟨⟨fun hexit => ?_, ?_⟩, ?_⟩
  · cases hending : run.exit.getD ending with
    | returns answer => cases (h.completed answer hending).1.symm.trans hexit
    | raises r' =>
      cases (h.failed r' hending).1.symm.trans hexit
      cases hrun : run.exit with
      | none =>
        rw [hrun] at hending
        exact ⟨_, _, .inl ⟨rfl, hending, rfl, rfl⟩⟩
      | some exit =>
        rw [hrun] at hending
        obtain ⟨opened, s', hinner⟩ := hiff.mp (hrun.trans (congrArg some hending))
        exact ⟨_, _, .inr ⟨opened, rfl, hinner⟩⟩
  · rintro ⟨opened, s', ⟨hexit, rfl, -, -⟩ | ⟨inner, -, hinner⟩⟩
    · exact (h.failed r (by rw [hexit]; rfl)).1
    · exact (h.failed r (by rw [hiff.mpr ⟨inner, s', hinner⟩]; rfl)).1
  · rintro opened s' (⟨hexit, rfl, rfl, rfl⟩ | ⟨inner, rfl, hinner⟩)
    · exact hraises r (by rw [hexit]; rfl) [] _ .refl
    · exact hraises r (by rw [hiff.mpr ⟨inner, s', hinner⟩]; rfl) inner s' (hfails inner s' hinner)

end

theorem unwindsAll_of_forall {steps : List Step} (hruns : ∀ step ∈ steps, Runs n step)
    (h : ∀ step ∈ steps, Unwinds n step) : UnwindsAll n steps := by
  induction steps with
  | nil => exact unwindsAll_nil
  | cons step rest ih =>
    have hrest : ∀ later ∈ rest, Runs n later := fun later hlater =>
      hruns later (List.mem_cons_of_mem _ hlater)
    exact unwindsAll_cons (hruns step List.mem_cons_self) (h step List.mem_cons_self)
      (runsAll_of_forall hrest)
        (ih hrest fun later hlater => h later (List.mem_cons_of_mem _ hlater))

theorem unwinds_log (call : LogCall) : Unwinds n (.log call) := by
  refine unwinds_of_quiet (fun here s result hs hresult => ?_) fun h => by cases h
  obtain ⟨s', hlog, -⟩ := Kept.message hs here call
  simp only [runStep, runPlain, hlog, bind, Option.bind] at hresult
  cases hresult
  rfl

theorem unwinds_logAtSite (present : Bool) (call : LogCall) :
    Unwinds n (.logAtSite present call) := by
  refine unwinds_of_quiet (fun here s result hs hresult => ?_) fun h => by cases h
  obtain ⟨id, -, -, l, hlogger⟩ := hs.logger?
  obtain ⟨s', hlog, -⟩ := Kept.message hs here call
  simp only [runStep, runPlain, hlogger, hlog, bind, Option.bind] at hresult
  split at hresult
  · split at hresult
    · cases hresult
      rfl
    · cases hresult
      rfl
  · cases hresult
    rfl

theorem unwinds_use (id : LoggerId) : Unwinds n (.use id) := by
  refine unwinds_of_quiet (fun here s result _ hresult => ?_) fun h => by cases h
  simp only [runStep, runPlain] at hresult
  split at hresult
  · cases hresult
    rfl
  · cases hresult

theorem unwinds_surroundings {step : Step} (h : step.changesSurroundings = true) :
    Unwinds n step := by
  refine unwinds_of_quiet (fun here s result _ hresult => ?_) fun hcrosses => ?_
  · obtain ⟨change, hchange⟩ := runStep_surroundings h here s
    cases hchange.symm.trans hresult
    rfl
  · cases hcrosses <;> cases h

theorem Step.Structured.unwinds {step : Step} (h : step.Structured n) : Unwinds n step := by
  induction h with
  | log call => exact unwinds_log call
  | logAtSite present call => exact unwinds_logAtSite present call
  | leave ending => exact unwinds_leave ending
  | use _ => exact unwinds_use _
  | measure operation extra ending hwork ih =>
    have hruns := fun step hstep => (hwork step hstep).runs
    exact unwinds_measure (runsAll_of_forall hruns) (unwindsAll_of_forall hruns ih) operation extra
      ending
  | scope fields handedOver hwork ih =>
    have hruns := fun step hstep => (hwork step hstep).runs
    exact unwinds_scope (runsAll_of_forall hruns) (unwindsAll_of_forall hruns ih) fields handedOver
  | attempt ending hwork hrecovery _ ih =>
    have hruns := fun step hstep => (hrecovery step hstep).runs
    exact unwinds_attempt (runsAll_of_structured hwork) (runsAll_of_forall hruns)
      (unwindsAll_of_forall hruns ih) ending
  | propagating _ ih => exact unwinds_propagating ih
  | surroundings h => exact unwinds_surroundings h

theorem unwindsAll_of_structured {steps : List Step} (h : ∀ step ∈ steps, step.Structured n) :
    UnwindsAll n steps :=
  unwindsAll_of_forall (fun step hstep => (h step hstep).runs) fun step hstep =>
    (h step hstep).unwinds

/-- The caller's fields with the duration: in place of the one that had its name, or at the end. -/
structure Timed (extra : Fields) (duration : Binary64) (timed : Fields) : Prop where
  found : timed.find? Measurement.durationKey = some (.double duration)
  others : ∀ key, key ≠ Measurement.durationKey → timed.find? key = extra.find? key
  inPlace : extra.contains Measurement.durationKey = true → timed.keys = extra.keys
  atEnd : extra.contains Measurement.durationKey = false →
    timed.toList = extra.toList ++ [(Measurement.durationKey, .double duration)]

theorem timed_timed (extra : Fields) (duration : Binary64) :
    Timed extra duration (Measurement.timed extra duration) where
  found := Fields.find?_set_self extra _ _
  others key hkey := Fields.find?_set_of_ne hkey extra _
  inPlace h := Assoc.keys_set_of_mem (Fields.contains_iff.mp h) _
  atEnd h := by
    refine Assoc.set_of_get?_eq_none (Assoc.get?_eq_none_iff.mpr fun hmem => ?_) _
    cases h.symm.trans (Fields.contains_iff.mpr hmem)

theorem Fails.error {first last : Offer} (h : Fails r first last) :
    last.error = some (ErrorInfo.capture r last.setting.frames) := by
  cases h
  rfl

theorem error_of_forall₂ {opened failures : List Offer}
    (h : List.Forall₂ (Fails r) opened failures) :
    ∀ o ∈ failures, o.error = some (ErrorInfo.capture r o.setting.frames) := by
  induction h with
  | nil => exact fun o ho => nomatch ho
  | cons hfails _ ih => exact List.forall_mem_cons.mpr ⟨hfails.error, ih⟩

open Text in
/-- A measured operation offers its start, then what its work offers, then its end as completed or
as failed with what was raised, with the caller's fields and the duration, in the context of its
start; and it ends as its work does, with the same answer or by raising the same object. Whatever
a program does, its offers are bracketed. It raises exactly if something is raised in it and leaves
it, and then the offers made on the way out are the failures of the operations that were open, the
innermost first. -/
theorem measured_transparent {s : Session} (hs : s.Ready n) (here : Setting) :
    (∀ (operation : Text) (extra : Fields) (work : List Step) (ending : Ending),
      (∀ step ∈ work, step.Structured n) →
      ∃ id started run result inner last, s.current = some id ∧
        s.logOn id here (.starting operation)
          ⟨.debug, ascii "Starting " ++ operation, extra, false, .unknown⟩ = some started ∧
        started.offers = s.offers ++ [⟨id, .starting operation,
          ⟨.debug, ascii "Starting " ++ operation, extra, false, .unknown⟩,
          ⟨s.context.merged here.thread, here.handling, s.stackAt s.offers.length⟩⟩] ∧
        runSteps here started.observe.2 work = some run ∧
        runStep here s (.measure operation extra work ending) = some result ∧
        run.session.offers = started.offers ++ inner ∧ Bracketed inner ∧
        result.session.offers = run.session.offers ++ [last] ∧
        last.logger = id ∧ last.setting.context = s.context.merged here.thread ∧
        Timed extra (elapsed started run) last.call.extra ∧
        (∀ answer, run.exit.getD ending = .returns answer →
          result.exit = none ∧ result.report.answer = answer.map .number ∧
            last.purpose = .completed operation ∧ last.call.severity = .info ∧
            last.call.message = ascii "Completed " ++ operation ∧ last.error = none) ∧
        ∀ r, run.exit.getD ending = .raises r →
          result.exit = some (.raises r) ∧ result.report.answer = some (.raised r) ∧
            last.purpose = .failed operation ∧ last.call.severity = .error ∧
            last.call.message = ascii "Failed " ++ operation ∧
            last.error = some (ErrorInfo.capture r last.setting.frames)) ∧
    ∀ steps : List Step, (∀ step ∈ steps, step.Structured n) →
      ∃ run new, runSteps here s steps = some run ∧ run.session.offers = s.offers ++ new ∧
        Bracketed new ∧
        ∀ r, (run.exit = some (.raises r) ↔
            ∃ opened thrown, CrossesAll r here s steps opened thrown) ∧
          ∀ opened thrown, CrossesAll r here s steps opened thrown →
            ∃ failures, run.session.offers = thrown.offers ++ failures ∧
              failures.length = opened.length ∧ List.Forall₂ (Fails r) opened failures ∧
              ∀ o ∈ failures, o.error = some (ErrorInfo.capture r o.setting.frames) := by
  refine ⟨fun operation extra work ending hwork => ?_, fun steps hsteps => ?_⟩
  · obtain ⟨id, started, run, result, h⟩ :=
      exists_measured hs (runsAll_of_structured hwork) here operation extra ending
    obtain ⟨inner, hinner, hbracketed⟩ := h.inner.offers
    cases hending : run.exit.getD ending with
    | returns answer =>
      obtain ⟨hexit, hanswer, hlast⟩ := h.completed answer hending
      refine ⟨id, started, run, result, inner, _, h.current, h.starts, h.first, h.works, h.runs,
        hinner, hbracketed, hlast, rfl, h.merged, timed_timed _ _, fun answer' hanswer' => ?_,
        fun r hr => ?_⟩
      · cases hending.symm.trans hanswer'
        exact ⟨hexit, hanswer, rfl, rfl, rfl, rfl⟩
      · cases hending.symm.trans hr
    | raises r =>
      obtain ⟨hexit, hanswer, hlast⟩ := h.failed r hending
      refine ⟨id, started, run, result, inner, _, h.current, h.starts, h.first, h.works, h.runs,
        hinner, hbracketed, hlast, rfl, h.merged, timed_timed _ _, fun answer hanswer' => ?_,
        fun r' hr => ?_⟩
      · cases hending.symm.trans hanswer'
      · cases hending.symm.trans hr
        exact ⟨hexit, hanswer, rfl, rfl, rfl, rfl⟩
  · obtain ⟨run, hrun, hkept⟩ := runsAll_of_structured hsteps here s hs
    obtain ⟨new, hnew, hbracketed⟩ := hkept.offers
    refine ⟨run, new, hrun, hnew, hbracketed, fun r => ?_⟩
    obtain ⟨hiff, hfails⟩ := unwindsAll_of_structured hsteps r here s run hs hrun
    refine ⟨hiff, fun opened thrown h => ?_⟩
    obtain ⟨failures, hoffers, hall⟩ := hfails opened thrown h
    exact ⟨failures, hoffers, hall.length_eq.symm, hall, error_of_forall₂ hall⟩

def attended : Session :=
  ((Session.start (Host.fresh ⟨0, 0, 0⟩) .standardError .standardError).build LoggerConfig.basic).2

theorem ready_attended : attended.Ready 1 :=
  ⟨rfl, ⟨0, Nat.one_pos, rfl⟩, ContextStore.ordered_empty⟩

def exploding : List Step :=
  [.propagating (.measure [97] Fields.empty
    [.propagating (.scope ⟨[([107], .null)]⟩ false
      [.propagating (.measure [98] Fields.empty [.leave (.raises (.foreign [105] []))]
        (.returns none))])]
    (.returns none))]

theorem structured_exploding : ∀ step ∈ exploding, step.Structured 1 := by
  have hinner : ∀ step ∈ [Step.leave (.raises (.foreign [105] []))], step.Structured 1 :=
    List.forall_mem_singleton.mpr (.leave _)
  have hmiddle := List.forall_mem_singleton.mpr
    (Step.Structured.propagating (.measure [98] Fields.empty (.returns none) hinner))
  have houter := List.forall_mem_singleton.mpr
    (Step.Structured.propagating (.scope ⟨[([107], .null)]⟩ false hmiddle))
  exact List.forall_mem_singleton.mpr
    (.propagating (.measure [97] Fields.empty (.returns none) houter))

theorem crosses_exploding : ∃ opened thrown,
    CrossesAll (.foreign [105] []) ⟨0, none⟩ attended exploding opened thrown ∧
      opened.length = 2 :=
  ⟨_, _, .here rfl (.propagating (.measure rfl rfl (.here rfl (.propagating (.scope (.here rfl
    (.propagating (.measure rfl rfl (.here rfl .leave))))))))), rfl⟩

theorem measured_transparent_exploding :
    attended.Ready 1 ∧ (∀ step ∈ exploding, step.Structured 1) ∧
      ∃ (run : RunResult) (thrown : Session) (failures : List Offer),
        runSteps ⟨0, none⟩ attended exploding = some run ∧
        run.exit = some (.raises (.foreign [105] [])) ∧
        run.session.offers = thrown.offers ++ failures ∧ failures.length = 2 ∧
        ∀ o ∈ failures, o.error = some ⟨Text.ascii "unknown", [], o.setting.frames⟩ := by
  obtain ⟨opened, thrown, hcrosses, htwo⟩ := crosses_exploding
  obtain ⟨-, hsteps⟩ := measured_transparent ready_attended ⟨0, none⟩
  obtain ⟨run, -, hrun, -, -, hraises⟩ := hsteps exploding structured_exploding
  obtain ⟨hiff, hfails⟩ := hraises (.foreign [105] [])
  obtain ⟨failures, hoffers, hlength, -, herror⟩ := hfails _ _ hcrosses
  exact ⟨ready_attended, structured_exploding, run, thrown, failures, hrun,
    hiff.mpr ⟨_, _, hcrosses⟩, hoffers, hlength.trans htwo, herror⟩

end StructuredLog.Scenario
