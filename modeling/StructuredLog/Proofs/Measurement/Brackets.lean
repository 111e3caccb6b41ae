import StructuredLog.Proofs.Context.Frames
import StructuredLog.Scenario.Run

/-!
# Measured operations enclose what they measure

Programs log, open scopes, raise, return, catch, and measure operations, nested to any depth. What
such a program offers to loggers is a sequence of messages and of brackets: the start of a measured
operation, what is offered inside, and its end. Here the sequence is followed through the run, one
lemma for each kind of step.
-/

namespace StructuredLog.Scenario

def Offer.error (o : Offer) : Option ErrorInfo :=
  if o.call.capture then o.setting.handling.map (ErrorInfo.capture · o.setting.frames) else none

/-- The first and the last offer of a measured operation: to one logger, in one context, and if it
failed with what was raised. -/
inductive Encloses : Offer → Offer → Prop
  | completed (id : LoggerId) (operation : Text) (extra : Fields) (setting : CallSetting)
      (frames : List Text) (duration : Binary64) :
    Encloses ⟨id, .starting operation, Measurement.starting operation extra, setting⟩
      ⟨id, .completed operation, Measurement.completed operation extra duration,
        { setting with frames := frames }⟩
  | failed (id : LoggerId) (operation : Text) (extra : Fields) (setting : CallSetting)
      (frames : List Text) (duration : Binary64) (r : Raised) :
    Encloses ⟨id, .starting operation, Measurement.starting operation extra, setting⟩
      ⟨id, .failed operation, Measurement.failed operation extra duration,
        { setting with handling := some r, frames := frames }⟩

/-- Every start of an operation has one end, and what is between them is bracketed as well. -/
inductive Bracketed : List Offer → Prop
  | nil : Bracketed []
  | message {o : Offer} {rest : List Offer} (h : o.purpose = .message) (hrest : Bracketed rest) :
    Bracketed (o :: rest)
  | measured {first last : Offer} {inner rest : List Offer} (h : Encloses first last)
      (hinner : Bracketed inner) (hrest : Bracketed rest) :
    Bracketed (first :: (inner ++ last :: rest))

theorem Bracketed.append {offers more : List Offer} (h : Bracketed offers)
    (hmore : Bracketed more) :
    Bracketed (offers ++ more) := by
  induction h with
  | nil => exact hmore
  | message ho _ ih => exact .message ho ih
  | measured hends hinner _ _ ih =>
    rw [List.cons_append, List.append_assoc, List.cons_append]
    exact .measured hends hinner ih

def Step.changesSurroundings : Step → Bool
  | .setTime _ | .advance _ | .setVariable _ _ | .setRefuses _ _ | .spoil _ | .files _ => true
  | _ => false

/-- Programs built from log calls, scopes, measured operations, raising, returning and catching,
on loggers below `n`, while the surroundings change. -/
inductive Step.Structured (n : Nat) : Step → Prop
  | log (call : LogCall) : Structured n (.log call)
  | logAtSite (present : Bool) (call : LogCall) : Structured n (.logAtSite present call)
  | leave (ending : Ending) : Structured n (.leave ending)
  | use {id : LoggerId} (h : id < n) : Structured n (.use id)
  | measure (operation : Text) (extra : Fields) {work : List Step} (ending : Ending)
      (hwork : ∀ step ∈ work, Structured n step) :
    Structured n (.measure operation extra work ending)
  | scope (fields : Fields) (handedOver : Bool) {work : List Step}
      (hwork : ∀ step ∈ work, Structured n step) : Structured n (.scope fields handedOver work)
  | attempt {work recovery : List Step} (ending : Option Raised)
      (hwork : ∀ step ∈ work, Structured n step)
      (hrecovery : ∀ step ∈ recovery, Structured n step) :
    Structured n (.attempt work ending recovery)
  | propagating {step : Step} (h : Structured n step) : Structured n (.propagating step)
  | surroundings {step : Step} (h : step.changesSurroundings = true) : Structured n step

structure Session.Ready (n : Nat) (s : Session) : Prop where
  loggers : s.catalog.roster.loggers.length = n
  current : ∃ id < n, s.current = some id
  ordered : s.context.Ordered

structure Kept (n : Nat) (thread : ThreadId) (s s' : Session) : Prop where
  ready : s'.Ready n
  frames : s'.context.stack thread = s.context.stack thread
  offers : ∃ new, s'.offers = s.offers ++ new ∧ Bracketed new

variable {n : Nat} {here : Setting} {s s' s'' : Session} {thread : ThreadId}

theorem Kept.refl (h : s.Ready n) : Kept n thread s s :=
  ⟨h, rfl, [], (List.append_nil _).symm, .nil⟩

theorem Kept.trans (h : Kept n thread s s') (h' : Kept n thread s' s'') : Kept n thread s s'' := by
  obtain ⟨new, hnew, hbracketed⟩ := h.offers
  obtain ⟨more, hmore, hbracketed'⟩ := h'.offers
  exact ⟨h'.ready, h'.frames.trans h.frames, new ++ more,
    by rw [hmore, hnew, List.append_assoc], hbracketed.append hbracketed'⟩

theorem Kept.merged (h : Kept n thread s s') :
    s'.context.merged thread = s.context.merged thread := congrArg ContextStore.mergeFrames h.frames

theorem Session.Ready.observe (h : s.Ready n) : s.observe.2.Ready n :=
  ⟨h.loggers, h.current, h.ordered⟩

theorem Kept.observe (h : Kept n thread s s') : Kept n thread s s'.observe.2 :=
  ⟨h.ready.observe, h.frames, h.offers⟩

def Session.offer (s : Session) (id : LoggerId) (here : Setting) (purpose : Purpose)
    (call : LogCall) : Offer :=
  ⟨id, purpose, call, ⟨s.context.merged here.thread, here.handling, s.stackAt s.offers.length⟩⟩

theorem Session.Ready.logOn (h : s.Ready n) {id : LoggerId} (hid : id < n) (here : Setting)
    (purpose : Purpose) (call : LogCall) :
    ∃ s', s.logOn id here purpose call = some s' ∧ s'.Ready n ∧ s'.context = s.context ∧
      s'.current = s.current ∧ s'.offers = s.offers ++ [s.offer id here purpose call] := by
  obtain ⟨l, hl⟩ : ∃ l, s.catalog.roster.loggers[id]? = some l :=
    ⟨_, List.getElem?_eq_getElem (h.loggers ▸ hid)⟩
  simp only [Session.logOn, Roster.log, hl, bind, Option.bind]
  exact ⟨_, rfl, ⟨by simpa using h.loggers, h.current, h.ordered⟩, rfl, rfl, rfl⟩

theorem Session.Ready.logger? (h : s.Ready n) :
    ∃ id < n, s.current = some id ∧ ∃ l, s.logger? = some (id, l) := by
  obtain ⟨id, hid, hcurrent⟩ := h.current
  obtain ⟨l, hl⟩ : ∃ l, s.catalog.roster.loggers[id]? = some l :=
    ⟨_, List.getElem?_eq_getElem (h.loggers ▸ hid)⟩
  refine ⟨id, hid, hcurrent, l, ?_⟩
  simp only [Session.logger?, hcurrent, hl, bind, Option.bind]

def Runs (n : Nat) (step : Step) : Prop :=
  ∀ (here : Setting) (s : Session), s.Ready n →
    ∃ result, runStep here s step = some result ∧ Kept n here.thread s result.session

def RunsAll (n : Nat) (steps : List Step) : Prop :=
  ∀ (here : Setting) (s : Session), s.Ready n →
    ∃ run, runSteps here s steps = some run ∧ Kept n here.thread s run.session

theorem runsAll_nil : RunsAll n [] := fun _ s hs => ⟨⟨[], none, s⟩, rfl, .refl hs⟩

theorem runsAll_cons {step : Step} {rest : List Step} (hstep : Runs n step)
    (hrest : RunsAll n rest) : RunsAll n (step :: rest) := by
  intro here s hs
  obtain ⟨result, hresult, hkept⟩ := hstep here s hs
  simp only [runSteps, hresult, bind, Option.bind]
  cases hexit : step.passesOn result.exit with
  | some exit => exact ⟨_, rfl, hkept⟩
  | none =>
    obtain ⟨run, hrun, hmore⟩ := hrest here result.session hkept.ready
    rw [hrun]
    exact ⟨_, rfl, hkept.trans hmore⟩

section

variable {operation : Text} {extra : Fields} {work : List Step} {ending : Ending} {id : LoggerId}
  {l : Logger} {started : Session} {run : RunResult}

def elapsed (started : Session) (run : RunResult) : Binary64 :=
  Measurement.milliseconds started.host.clock.monotonic run.session.host.clock.monotonic

theorem runStep_measure_returns {answer : Option Int} (hlogger : s.logger? = some (id, l))
    (hstarts : s.logOn id here (.starting operation) (Measurement.starting operation extra)
      = some started)
    (hrun : runSteps here started.observe.2 work = some run)
    (hending : run.exit.getD ending = .returns answer)
    (hends : run.session.logOn id here (.completed operation)
      (Measurement.completed operation extra (elapsed started run)) = some s') :
    runStep here s (.measure operation extra work ending) =
      some ⟨.mk (answer.map .number) (some started.observe.1) (some run.reports) none s'.observe.1,
        none, s'.observe.2⟩ := by
  rw [elapsed] at hends
  simp only [runStep, hlogger, hstarts, hrun, hending, hends, bind, Option.bind]

theorem runStep_measure_raises {r : Raised} (hlogger : s.logger? = some (id, l))
    (hstarts : s.logOn id here (.starting operation) (Measurement.starting operation extra)
      = some started)
    (hrun : runSteps here started.observe.2 work = some run)
    (hending : run.exit.getD ending = .raises r)
    (hends : run.session.logOn id { here with handling := some r } (.failed operation)
      (Measurement.failed operation extra (elapsed started run)) = some s') :
    runStep here s (.measure operation extra work ending) =
      some ⟨.mk (some (.raised r)) (some started.observe.1) (some run.reports) none s'.observe.1,
        some (.raises r), s'.observe.2⟩ := by
  rw [elapsed] at hends
  simp only [runStep, hlogger, hstarts, hrun, hending, hends, bind, Option.bind]

end

/-- How a measured operation runs from `s` and ends in `result`: it offers its start, does its
work in between, and offers its end. -/
structure Measured (n : Nat) (here : Setting) (s : Session) (operation : Text) (extra : Fields)
    (work : List Step) (ending : Ending) (id : LoggerId) (started : Session) (run : RunResult)
    (result : StepResult) : Prop where
  current : s.current = some id
  starts : s.logOn id here (.starting operation) (Measurement.starting operation extra) =
    some started
  ready : started.Ready n
  context : started.context = s.context
  first : started.offers =
    s.offers ++ [s.offer id here (.starting operation) (Measurement.starting operation extra)]
  works : runSteps here started.observe.2 work = some run
  inner : Kept n here.thread started.observe.2 run.session
  merged : run.session.context.merged here.thread = s.context.merged here.thread
  runs : runStep here s (.measure operation extra work ending) = some result
  frames : result.session.context = run.session.context
  readyAfter : result.session.Ready n
  completed : ∀ answer, run.exit.getD ending = .returns answer →
    result.exit = none ∧ result.report.answer = answer.map .number ∧
      result.session.offers = run.session.offers ++
        [run.session.offer id here (.completed operation)
          (Measurement.completed operation extra (elapsed started run))]
  failed : ∀ r, run.exit.getD ending = .raises r →
    result.exit = some (.raises r) ∧ result.report.answer = some (.raised r) ∧
      result.session.offers = run.session.offers ++
        [run.session.offer id { here with handling := some r } (.failed operation)
          (Measurement.failed operation extra (elapsed started run))]

theorem exists_measured (hs : s.Ready n) {work : List Step} (hwork : RunsAll n work)
    (here : Setting) (operation : Text) (extra : Fields) (ending : Ending) :
    ∃ id started run result, Measured n here s operation extra work ending id started run
      result := by
  obtain ⟨id, hid, hcurrent, l, hlogger⟩ := hs.logger?
  obtain ⟨started, hstarts, hready, hcontext, -, hfirst⟩ :=
    hs.logOn hid here (.starting operation) (Measurement.starting operation extra)
  obtain ⟨run, hrun, hinner⟩ := hwork here started.observe.2 hready.observe
  have hmerged : run.session.context.merged here.thread = s.context.merged here.thread :=
    hinner.merged.trans (congrArg (ContextStore.merged · here.thread) hcontext)
  cases hending : run.exit.getD ending with
  | returns answer =>
    obtain ⟨s', hends, hready', hcontext', -, hlast⟩ := hinner.ready.logOn hid here
      (.completed operation) (Measurement.completed operation extra (elapsed started run))
    refine ⟨id, started, run, ⟨_, none, s'.observe.2⟩, hcurrent, hstarts, hready, hcontext, hfirst,
      hrun, hinner, hmerged, runStep_measure_returns hlogger hstarts hrun hending hends, hcontext',
      hready'.observe, fun answer' hanswer => ?_, fun r hr => ?_⟩
    · cases hending.symm.trans hanswer
      exact ⟨rfl, rfl, hlast⟩
    · cases hending.symm.trans hr
  | raises r =>
    obtain ⟨s', hends, hready', hcontext', -, hlast⟩ := hinner.ready.logOn hid
      { here with handling := some r } (.failed operation)
      (Measurement.failed operation extra (elapsed started run))
    refine ⟨id, started, run, ⟨_, some (.raises r), s'.observe.2⟩, hcurrent, hstarts, hready,
      hcontext, hfirst, hrun, hinner, hmerged,
      runStep_measure_raises hlogger hstarts hrun hending hends,
      hcontext', hready'.observe, fun answer hanswer => ?_, fun r' hr => ?_⟩
    · cases hending.symm.trans hanswer
    · cases hending.symm.trans hr
      exact ⟨rfl, rfl, hlast⟩

/-- A measured operation encloses what its work offers, and keeps what its work keeps. -/
theorem Measured.kept {operation : Text} {extra : Fields} {work : List Step} {ending : Ending}
    {id : LoggerId} {started : Session} {run : RunResult} {result : StepResult}
    (h : Measured n here s operation extra work ending id started run result) :
    Kept n here.thread s result.session := by
  obtain ⟨inner, hinner, hbracketed⟩ := h.inner.offers
  have hoffers : run.session.offers =
      s.offers ++ (s.offer id here (.starting operation) (Measurement.starting operation extra) ::
        inner) := by
    rw [hinner]
    change started.offers ++ inner = _
    rw [h.first, List.append_assoc, List.singleton_append]
  have hframes : result.session.context.stack here.thread = s.context.stack here.thread := by
    rw [h.frames, h.inner.frames, ← h.context]
    rfl
  refine ⟨h.readyAfter, hframes, ?_⟩
  cases hending : run.exit.getD ending with
  | returns answer =>
    obtain ⟨-, -, hlast⟩ := h.completed answer hending
    rw [hlast, hoffers, List.append_assoc, Session.offer, Session.offer, h.merged]
    exact ⟨_, rfl, .measured (.completed ..) hbracketed .nil⟩
  | raises r =>
    obtain ⟨-, -, hlast⟩ := h.failed r hending
    rw [hlast, hoffers, List.append_assoc, Session.offer, Session.offer, h.merged]
    exact ⟨_, rfl, .measured (.failed ..) hbracketed .nil⟩

theorem runs_measure {work : List Step} (hwork : RunsAll n work) (operation : Text)
    (extra : Fields) (ending : Ending) : Runs n (.measure operation extra work ending) := by
  intro here s hs
  obtain ⟨id, started, run, result, h⟩ := exists_measured hs hwork here operation extra ending
  exact ⟨result, h.runs, h.kept⟩

theorem Session.Ready.enter (hs : s.Ready n) (thread : ThreadId) (fields : Fields) :
    (s.enter thread fields).2.Ready n := ⟨hs.loggers, hs.current, hs.ordered.enter thread fields⟩

theorem Kept.leaveScope (hs : s.Ready n) {fields : Fields}
    (h : Kept n thread (s.enter thread fields).2 s') :
    Kept n thread s (s'.exit thread (s.enter thread fields).1) where
  ready := ⟨h.ready.loggers, h.ready.current, h.ready.ordered.exit thread _⟩
  frames := by
    have hstack :
        s'.context.stack thread = s.context.stack thread ++ [⟨s.context.nextToken, fields⟩] :=
      h.frames.trans (ContextStore.stack_enter s.context thread fields)
    have hbelow : ∀ f ∈ s.context.stack thread, f.token ≠ s.context.nextToken := fun f hf =>
      Nat.ne_of_lt (hs.ordered.issued hf)
    have hself : ContextStore.below s.context.nextToken [⟨s.context.nextToken, fields⟩] = [] :=
      ContextStore.below_cons_self _ _
    change (s'.context.exit thread s.context.nextToken).stack thread = _
    rw [ContextStore.stack_exit, hstack, ContextStore.below_append_of_not_mem hbelow, hself,
      List.append_nil]
  offers := h.offers

theorem runs_scope {work : List Step} (hwork : RunsAll n work) (fields : Fields)
    (handedOver : Bool) : Runs n (.scope fields handedOver work) := by
  intro here s hs
  obtain ⟨run, hrun, hkept⟩ := hwork here _ (hs.enter here.thread fields)
  simp only [runStep, hrun, bind, Option.bind]
  exact ⟨_, rfl, (hkept.leaveScope hs).observe⟩

theorem runs_attempt {work recovery : List Step} (hwork : RunsAll n work)
    (hrecovery : RunsAll n recovery) (ending : Option Raised) :
    Runs n (.attempt work ending recovery) := by
  intro here s hs
  obtain ⟨run, hrun, hkept⟩ := hwork here s hs
  simp only [runStep, hrun, bind, Option.bind]
  split
  next r _ =>
    obtain ⟨recovered, hrecovered, hmore⟩ :=
      hrecovery { here with handling := some r } run.session hkept.ready
    rw [hrecovered]
    exact ⟨_, rfl, (hkept.trans hmore).observe⟩
  next => exact ⟨_, rfl, hkept.observe⟩

theorem runs_propagating {step : Step} (h : Runs n step) : Runs n (.propagating step) := by
  intro here s hs
  obtain ⟨result, hresult, hkept⟩ := h here s hs
  exact ⟨result, by rw [runStep, hresult], hkept⟩

theorem Kept.message (hs : s.Ready n) (here : Setting) (call : LogCall) :
    ∃ s', s.log here call = some s' ∧ Kept n here.thread s s' := by
  obtain ⟨id, hid, hcurrent⟩ := hs.current
  obtain ⟨s', hlog, hready, hcontext, -, hoffers⟩ := hs.logOn hid here .message call
  refine ⟨s', by rw [Session.log, hcurrent]; exact hlog, hready, by rw [hcontext], _, hoffers, ?_⟩
  exact .message rfl .nil

theorem runs_log (call : LogCall) : Runs n (.log call) := by
  intro here s hs
  obtain ⟨s', hlog, hkept⟩ := Kept.message hs here call
  simp only [runStep, runPlain, hlog, bind, Option.bind]
  exact ⟨_, rfl, hkept.observe⟩

theorem runs_logAtSite (present : Bool) (call : LogCall) : Runs n (.logAtSite present call) := by
  intro here s hs
  obtain ⟨id, -, -, l, hlogger⟩ := hs.logger?
  obtain ⟨s', hlog, hkept⟩ := Kept.message hs here call
  simp only [runStep, runPlain, hlogger, hlog, bind, Option.bind]
  split
  · split
    · exact ⟨_, rfl, hkept.observe⟩
    · exact ⟨_, rfl, (Kept.refl hs).observe⟩
  · exact ⟨_, rfl, (Kept.refl hs).observe⟩

theorem runs_use {id : LoggerId} (hid : id < n) : Runs n (.use id) := by
  intro here s hs
  simp only [runStep, runPlain, hs.loggers, if_pos hid]
  exact ⟨_, rfl, ⟨hs.loggers, ⟨id, hid, rfl⟩, hs.ordered⟩, rfl, [], (List.append_nil _).symm, .nil⟩

theorem runs_leave (ending : Ending) : Runs n (.leave ending) := by
  intro here s hs
  simp only [runStep, runPlain]
  exact ⟨_, rfl, (Kept.refl hs).observe⟩

theorem runStep_surroundings {step : Step} (h : step.changesSurroundings = true) (here : Setting)
    (s : Session) : ∃ change, runStep here s step = some (.plain none (s.onHost change)) := by
  cases step <;> cases h
  all_goals
    simp only [runStep, runPlain]
    exact ⟨_, rfl⟩

theorem runs_surroundings {step : Step} (h : step.changesSurroundings = true) : Runs n step := by
  intro here s hs
  obtain ⟨change, hchange⟩ := runStep_surroundings h here s
  exact ⟨_, hchange, ⟨hs.loggers, hs.current, hs.ordered⟩, rfl, [], (List.append_nil _).symm, .nil⟩

theorem runsAll_of_forall {steps : List Step} (h : ∀ step ∈ steps, Runs n step) :
    RunsAll n steps := by
  induction steps with
  | nil => exact runsAll_nil
  | cons step rest ih =>
    exact runsAll_cons (h step List.mem_cons_self) (ih fun s hs => h s (List.mem_cons_of_mem _ hs))

theorem Step.Structured.runs {step : Step} (h : step.Structured n) : Runs n step := by
  induction h with
  | log call => exact runs_log call
  | logAtSite present call => exact runs_logAtSite present call
  | leave ending => exact runs_leave ending
  | use h => exact runs_use h
  | measure operation extra ending _ ih =>
    exact runs_measure (runsAll_of_forall ih) operation extra ending
  | scope fields handedOver _ ih => exact runs_scope (runsAll_of_forall ih) fields handedOver
  | attempt ending _ _ ihwork ihrecovery =>
    exact runs_attempt (runsAll_of_forall ihwork) (runsAll_of_forall ihrecovery) ending
  | propagating _ ih => exact runs_propagating ih
  | surroundings h => exact runs_surroundings h

theorem runsAll_of_structured {steps : List Step} (h : ∀ step ∈ steps, step.Structured n) :
    RunsAll n steps := runsAll_of_forall fun step hstep => (h step hstep).runs

end StructuredLog.Scenario
