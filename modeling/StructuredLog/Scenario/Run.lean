import StructuredLog.Scenario.Session

/-!
Running a scenario. Each step answers, raises or returns; what it raises ends the list of steps it
stands in only if the step propagates, and is an answer otherwise. A scenario that refers to a
logger or handler that does not exist cannot be run.
-/

namespace StructuredLog.Scenario

/-- A step's observation, what it raised or returned, and the session after it. -/
structure StepResult where
  report : Report
  exit : Option Ending
  session : Session

structure RunResult where
  reports : List Report
  exit : Option Ending
  session : Session

namespace StepResult

def plain (answer : Option Answer) (s : Session) : StepResult :=
  let (delta, s) := s.observe
  ⟨.simple answer delta, none, s⟩

def failed (r : Raised) (s : Session) : StepResult :=
  let (delta, s) := s.observe
  ⟨.simple (some (.raised r)) delta, some (.raises r), s⟩

def ofExcept {α : Type} (answer : α → Answer) : Except Raised α × Session → StepResult
  | (.ok a, s) => plain (some (answer a)) s
  | (.error r, s) => failed r s

end StepResult

def raisedOf (exit : Option Ending) : Option Raised := exit.bind Ending.raised?

def answerOr (raised : Option Raised) (answer : Option Answer) : Option Answer :=
  match raised with
  | some r => some (.raised r)
  | none => answer

def runPlain (here : Setting) (s : Session) : Step → Option StepResult
  | .log call => do
    let s ← s.log here call
    some (.plain none s)
  | .logAtSite present call =>
    if present then do
      let (_, l) ← s.logger?
      if l.admits call.severity then
        let s ← s.log here call
        some (.plain (some (.number 1)) s)
      else some (.plain (some (.number 0)) s)
    else some (.plain (some (.number 0)) s)
  | .flush => do
    let (_, l) ← s.logger?
    some (.plain none (s.onHost l.flush))
  | .admits severity => do
    let (_, l) ← s.logger?
    some (.plain (some (.truth (l.admits severity))) s)
  | .describe => do
    let (_, l) ← s.logger?
    some (.plain (some (.loggerInfo (Session.describe l))) s)
  | .build config => some (.ofExcept .logger (s.build config))
  | .get name => some (.ofExcept .logger (s.adopt (s.catalog.get name)))
  | .getConfigured name config =>
    some (.ofExcept .logger (s.adopt (s.catalog.getConfigured name config)))
  | .getPreset name environment logDir =>
    some (.ofExcept .logger (s.adopt (s.catalog.getPreset name environment logDir)))
  | .clear => some (.plain none { s with catalog := s.catalog.clear })
  | .size => some (.plain (some (.number s.catalog.size)) s)
  | .contains name => some (.plain (some (.truth (s.catalog.contains name))) s)
  | .use id =>
    if id < s.catalog.roster.loggers.length then some (.plain none { s with current := some id })
    else none
  | .openHandler spec => some (.ofExcept .number (s.keepHandler (spec.build s.fallback s.host)))
  | .openMonotonicDaily path backups threshold formatter =>
    some (.ofExcept .number (s.keepHandler (HandlerSpec.buildFile threshold formatter path
      (.daily backups .monotonic) s.fallback s.host)))
  | .handle n direct => do
    let h ← s.handler? n
    let call := direct.call
    let record := Record.make s.host.clock.wall call.severity direct.logger call.message call.origin
      direct.context call.extra call.capture here.handling (s.stackAt s.offers.length)
    let (h, host) := h.handle record s.host
    some (.plain none ((s.putHandler n (some h)).setHost host))
  | .flushHandler n => do
    let h ← s.handler? n
    some (.plain none (s.onHost h.flush))
  | .close n => do
    let h ← s.handler? n
    some (.plain none (s.dropHandler n h))
  | .accepts n severity => do
    let h ← s.handler? n
    some (.plain (some (.truth (h.accepts severity))) s)
  | .inspect n => do
    let h ← s.handler? n
    some (.plain (some (.handlerInfo (Session.inspect h))) s)
  | .backupPath n label => do
    let h ← s.handler? n
    let path ← Session.backupPath? h label
    some (.plain (some (.text path)) s)
  | .enter fields =>
    let (token, s) := s.enter here.thread fields
    some (.plain (some (.number token)) s)
  | .exit token => some (.plain none (s.exit here.thread token))
  | .merged => some (.plain (some (.fields (s.context.merged here.thread))) s)
  | .depth => some (.plain (some (.number (s.context.depth here.thread))) s)
  | .openScope id fields =>
    let (token, s) := s.enter here.thread fields
    let s := match Assoc.get? id s.scopes with
      | some old => s.exit here.thread old
      | none => s
    let s := { s with scopes := Assoc.set id token s.scopes }
    some (.plain (some (.number (s.context.depth here.thread))) s)
  | .closeScope id =>
    let s := match Assoc.get? id s.scopes with
      | some token => s.exit here.thread token
      | none => s
    let s := { s with scopes := Assoc.erase id s.scopes }
    some (.plain (some (.number (s.context.depth here.thread))) s)
  | .setTime t => some (.plain none (s.onHost fun h => { h with clock := h.clock.set t }))
  | .advance n => some (.plain none (s.onHost fun h => { h with clock := h.clock.advance n }))
  | .setVariable name val => some (.plain none (s.onHost fun h => h.setVariable name val))
  | .setRefuses sink refuses =>
    some (.plain none (s.onHost fun h => { h with streams := h.streams.setRefuses sink refuses }))
  | .spoil c => some (.plain none (s.onHost fun h => { h with streams := h.streams.spoil c }))
  | .files action =>
    some (.plain none (s.onHost fun h =>
      { h with files := action.run (Instant.floorSeconds h.clock.wall) h.files }))
  | .measure _ _ _ _ => none
  | .attempt _ _ _ => none
  | .thread _ => none
  | .scope _ _ _ => none
  | .propagating _ => none
  | .leave ending => some { StepResult.plain none s with exit := some ending }
  | .unusable => none

mutual

def runStep (here : Setting) (s : Session) : Step → Option StepResult
  | .measure operation extra work ending => do
    let (id, _) ← s.logger?
    let s ← s.logOn id here (.starting operation) (Measurement.starting operation extra)
    let begun := s.host.clock.monotonic
    let (start, s) := s.observe
    let run ← runSteps here s work
    let elapsed := Measurement.milliseconds begun run.session.host.clock.monotonic
    match run.exit.getD ending with
    | .returns answer =>
      let s ← run.session.logOn id here (.completed operation)
        (Measurement.completed operation extra elapsed)
      let (delta, s) := s.observe
      some ⟨.mk (answer.map .number) (some start) (some run.reports) none delta, none, s⟩
    | .raises r =>
      let s ← run.session.logOn id { here with handling := some r } (.failed operation)
        (Measurement.failed operation extra elapsed)
      let (delta, s) := s.observe
      some ⟨.mk (some (.raised r)) (some start) (some run.reports) none delta, some (.raises r), s⟩
  | .attempt work ending recovery => do
    let run ← runSteps here s work
    match run.exit.or (ending.map .raises) with
    | some (.raises r) =>
      let recovered ← runSteps { here with handling := some r } run.session recovery
      let (delta, s) := recovered.session.observe
      some ⟨.mk (answerOr (raisedOf recovered.exit) (some (.raised r))) none (some run.reports)
        (some recovered.reports) delta, recovered.exit, s⟩
    | exit =>
      let (delta, s) := run.session.observe
      some ⟨.mk none none (some run.reports) none delta, exit, s⟩
  | .thread work => do
    let id := s.nextThread
    let run ← runSteps ⟨id, none⟩ { s with nextThread := id + 1 } work
    let s := { run.session with context := run.session.context.endThread id }
    let (delta, s) := s.observe
    let raised := raisedOf run.exit
    some ⟨.mk (answerOr raised none) none (some run.reports) none delta, raised.map .raises, s⟩
  | .scope fields handedOver work => do
    let (token, s) := s.enter here.thread fields
    let run ← runSteps here s work
    let left := run.session.exit here.thread token
    let depth := (if handedOver then left else run.session).context.depth here.thread
    let (delta, s) := left.observe
    some ⟨.mk (answerOr (raisedOf run.exit) (some (.number depth))) none
      (some run.reports) none delta,
      run.exit, s⟩
  | .propagating step => runStep here s step
  | step => runPlain here s step

def runSteps (here : Setting) (s : Session) : List Step → Option RunResult
  | [] => some ⟨[], none, s⟩
  | step :: rest => do
    let result ← runStep here s step
    match step.passesOn result.exit with
    | some exit => some ⟨[result.report], some exit, result.session⟩
    | none =>
      let run ← runSteps here result.session rest
      some ⟨result.report :: run.reports, run.exit, run.session⟩

end

structure Script where
  files : List FileAction
  envVars : List (Text × Option Text)
  firstLogger : Option LoggerConfig
  registryFallback : Channel
  steps : List Step

structure Outcome where
  uncaught : Option Raised
  reports : List Report
  ending : Delta

namespace Script

def fallback : Channel := .named (Text.ascii "fallback")

def prepare (sc : Script) (host : Host) : Host :=
  let second := Instant.floorSeconds host.clock.wall
  let host := { host with files := sc.files.foldl (FileAction.run second) host.files }
  sc.envVars.foldl (fun h v => h.setVariable v.1 v.2) host

def buildFirst (sc : Script) (s : Session) : Option Raised × Session :=
  match sc.firstLogger with
  | none => (none, s)
  | some config =>
    match s.build config with
    | (.ok _, s) => (none, s)
    | (.error r, s) => (some r, s)

def run (sc : Script) (host : Host) : Option Outcome := do
  let s := Session.start (sc.prepare host) sc.registryFallback fallback
  let (raised, s) := sc.buildFirst s
  let result ← match raised with
    | some r => some ⟨[], some (.raises r), s⟩
    | none => runSteps ⟨0, none⟩ s sc.steps
  let (ending, _) := result.session.finish.observe
  some ⟨raisedOf result.exit, result.reports, ending⟩

end Script

end StructuredLog.Scenario
