import Mathlib.Data.List.Forall2
import StructuredLog.Proofs.Redaction.Coverage

/-!
# Blocklisted values cannot be observed

Two programs use one logger in the same way, except for the values of blocklisted fields. These
stay alike through frames and merges, and the first redaction makes them equal. So with no filters
but levels and redactions, streams and files are the same after every action of the two.
Main statement: `host_eq_of_alike`.
-/

namespace StructuredLog

open Redaction

def AlikeEntry (a b : Text × Value) : Prop := a.1 = b.1 ∧ (¬IsBlocklisted a.1 → a.2 = b.2)

namespace Fields

def Alike (f g : Fields) : Prop := List.Forall₂ AlikeEntry f.toList g.toList

variable {f g f' g' : Fields}

theorem Alike.refl (f : Fields) : f.Alike f := List.forall₂_same.mpr fun _ _ => ⟨rfl, fun _ => rfl⟩

theorem forall₂_set {l l' : List (Text × Value)} (h : List.Forall₂ AlikeEntry l l') {key : Text}
    {v w : Value} (hval : ¬IsBlocklisted key → v = w) :
    List.Forall₂ AlikeEntry (Assoc.set key v l) (Assoc.set key w l') := by
  induction h with
  | nil => exact .cons ⟨rfl, hval⟩ .nil
  | @cons a b l l' hab hrest ih =>
    obtain ⟨k, x⟩ := a
    obtain ⟨k', y⟩ := b
    obtain rfl : k = k' := hab.1
    by_cases hk : k = key
    · subst hk
      simpa [Assoc.set] using ⟨⟨rfl, hval⟩, hrest⟩
    · simpa [Assoc.set, hk] using ⟨hab, ih⟩

theorem Alike.setAll (h : f.Alike g) {entries entries' : List (Text × Value)}
    (hentries : List.Forall₂ AlikeEntry entries entries') :
    (f.setAll entries).Alike (g.setAll entries') := by
  induction hentries generalizing f g with
  | nil => exact h
  | @cons a b _ _ hab _ ih =>
    obtain ⟨hkey, hval⟩ := hab
    refine ih ?_
    change List.Forall₂ AlikeEntry (Assoc.set a.1 a.2 _) (Assoc.set b.1 b.2 _)
    rw [← hkey]
    exact forall₂_set h hval

theorem Alike.merge (h : f.Alike g) (h' : f'.Alike g') : (f.merge f').Alike (g.merge g') :=
  h.setAll h'

theorem Alike.eraseIf (h : f.Alike g) (p : Text → Bool) : (f.eraseIf p).Alike (g.eraseIf p) := by
  refine List.rel_filter (fun a b hab => ?_) h
  simp only [hab.1]

theorem Alike.redact_eq (h : f.Alike g) {r : Redaction} (hr : r.IsExtension) :
    r.redact f = r.redact g := by
  have hentry : ∀ a b, AlikeEntry a b → (a.1, r.cover a.1 a.2) = (b.1, r.cover b.1 b.2) := by
    rintro ⟨key, v⟩ ⟨key', w⟩ ⟨hkey, hval⟩
    obtain rfl : key = key' := hkey
    by_cases hblocked : IsBlocklisted key
    · simp [cover, isSensitive_of_isBlocklisted hr hblocked]
    · rw [show v = w from hval hblocked]
  rw [redact, redact, Fields.mk.injEq, ← List.forall₂_eq_eq_eq]
  exact List.rel_map (fun {a b} hab => hentry a b hab) h

end Fields

/-- The same record, but for blocklisted values. -/
structure Record.Alike (r r' : Record) : Prop where
  rest : r' = { r with context := r'.context, extra := r'.extra }
  context : r.context.Alike r'.context
  extra : r.extra.Alike r'.extra

structure LogCall.Alike (c c' : LogCall) : Prop where
  rest : c' = { c with extra := c'.extra }
  extra : c.extra.Alike c'.extra

theorem LogCall.Alike.severity_eq {c c' : LogCall} (h : c.Alike c') : c'.severity = c.severity := by
  rw [h.rest]

namespace Filter

def IsBuiltIn : Filter → Prop
  | level _ => True
  | sensitive r => r.IsExtension
  | custom _ _ => False

theorem redactRecord_eq {record record' : Record} (h : record.Alike record') {r : Redaction}
    (hr : r.IsExtension) : redactRecord r record = redactRecord r record' := by
  rw [h.rest]
  simp only [redactRecord, h.context.redact_eq hr, h.extra.redact_eq hr]

/-- Levels judge alike records alike, and the first redaction makes them equal. -/
theorem pipeline_eq_of_alike {filters : List Filter} (hbuiltIn : ∀ f ∈ filters, f.IsBuiltIn)
    (hany : filters.any isSensitive = true) {record record' : Record}
    (h : record.Alike record') : pipeline filters record = pipeline filters record' := by
  induction filters with
  | nil => cases hany
  | cons f rest ih =>
    have hf := hbuiltIn f List.mem_cons_self
    cases f with
    | level minimum =>
      have hrest := ih (fun g hg => hbuiltIn g (List.mem_cons_of_mem _ hg)) hany
      have hseverity : record'.severity = record.severity := by rw [h.rest]
      simp only [pipeline, apply, hseverity, hrest]
    | sensitive r => simp only [pipeline, apply, redactRecord_eq h hf]
    | custom object apply => exact hf.elim

end Filter

namespace ContextStore

def AlikeFrame (a b : Frame) : Prop := a.token = b.token ∧ a.fields.Alike b.fields

structure Alike (s s' : ContextStore) : Prop where
  nextToken_eq : s.nextToken = s'.nextToken
  stack : ∀ thread, List.Forall₂ AlikeFrame (s.stack thread) (s'.stack thread)

variable {s s' : ContextStore}

theorem Alike.refl (s : ContextStore) : s.Alike s :=
  ⟨rfl, fun _ => List.forall₂_same.mpr fun _ _ => ⟨rfl, .refl _⟩⟩

theorem Alike.setStack (h : s.Alike s') (thread : ThreadId) {frames frames' : List Frame}
    (hframes : List.Forall₂ AlikeFrame frames frames') :
    (s.setStack thread frames).Alike (s'.setStack thread frames') where
  nextToken_eq := h.nextToken_eq
  stack := by
    intro other
    by_cases hother : other = thread
    · rw [hother, stack_setStack_self, stack_setStack_self]
      exact hframes
    · rw [stack_setStack_of_ne hother, stack_setStack_of_ne hother]
      exact h.stack other

theorem Alike.enter (h : s.Alike s') (thread : ThreadId) {f g : Fields} (hfields : f.Alike g) :
    (s.enter thread f).2.Alike (s'.enter thread g).2 := by
  have hframe : AlikeFrame ⟨s.nextToken, f⟩ ⟨s'.nextToken, g⟩ := ⟨h.nextToken_eq, hfields⟩
  have hset := h.setStack thread (List.rel_append (h.stack thread) (.cons hframe .nil))
  exact ⟨congrArg (· + 1) h.nextToken_eq, hset.stack⟩

theorem forall₂_below {frames frames' : List Frame} (h : List.Forall₂ AlikeFrame frames frames')
    (token : FrameToken) : List.Forall₂ AlikeFrame (below token frames) (below token frames') := by
  induction h with
  | nil => exact .nil
  | @cons a b _ _ hab _ ih =>
    have htoken : a.token = b.token := hab.1
    simp only [below] at ih ⊢
    rw [List.takeWhile_cons, List.takeWhile_cons, ← htoken]
    split_ifs
    · exact .cons hab ih
    · exact .nil

theorem Alike.exit (h : s.Alike s') (thread : ThreadId) (token : FrameToken) :
    (s.exit thread token).Alike (s'.exit thread token) :=
  h.setStack thread (forall₂_below (h.stack thread) token)

theorem Alike.endThread (h : s.Alike s') (thread : ThreadId) :
    (s.endThread thread).Alike (s'.endThread thread) where
  nextToken_eq := h.nextToken_eq
  stack := by
    intro other
    simp only [ContextStore.stack, ContextStore.endThread]
    by_cases hother : other = thread
    · simp [hother]
    · rw [Assoc.get?_erase_of_ne hother, Assoc.get?_erase_of_ne hother]
      exact h.stack other

theorem alike_mergeFrames {frames frames' : List Frame}
    (h : List.Forall₂ AlikeFrame frames frames') :
    (mergeFrames frames).Alike (mergeFrames frames') := by
  have hfold : ∀ {f g : Fields}, f.Alike g →
      (frames.foldl (fun acc frame => acc.merge frame.fields) f).Alike
        (frames'.foldl (fun acc frame => acc.merge frame.fields) g) := by
    induction h with
    | nil => exact fun hfg => hfg
    | cons hab _ ih => exact fun hfg => ih (hfg.merge hab.2)
  exact hfold (.refl _)

theorem Alike.merged (h : s.Alike s') (thread : ThreadId) :
    (s.merged thread).Alike (s'.merged thread) := alike_mergeFrames (h.stack thread)

end ContextStore

namespace Logger

/-- Its filters are built in, and one of them is a redaction. -/
structure Redacts (l : Logger) : Prop where
  builtIn : ∀ f ∈ l.filters, f.IsBuiltIn
  any : l.filters.any Filter.isSensitive = true

theorem redacts_of_build {config : LoggerConfig} {fallback : Channel} {host host' : Host}
    {l : Logger} (hbuild : build config fallback host = (.ok l, host'))
    (hfilters : ∀ f, some f ∈ config.filters → f.IsBuiltIn) : l.Redacts where
  builtIn := by
    intro f hf
    rcases mem_filters_of_build hbuild hf with hf | rfl
    · exact hfilters f hf
    · exact isExtension_standard
  any := any_isSensitive_of_build hbuild

theorem filters_log (l : Logger) (call : LogCall) (setting : CallSetting) (host : Host) :
    (l.log call setting host).1.filters = l.filters := by
  rw [log]
  split
  · split <;> rfl
  · rfl

theorem alike_recordOf (l : Logger) {call call' : LogCall} (hcall : call.Alike call')
    {context context' : Fields} (hcontext : context.Alike context') (handling : Option Raised)
    (frames : List Text) (host : Host) :
    (l.recordOf call ⟨context, handling, frames⟩ host).Alike
      (l.recordOf call' ⟨context', handling, frames⟩ host) where
  rest := by
    rw [hcall.rest]
    rfl
  context := hcontext.eraseIf _
  extra := hcall.extra.eraseIf _

theorem log_eq_of_alike {l : Logger} (hl : l.Redacts) {call call' : LogCall}
    (hcall : call.Alike call') {context context' : Fields} (hcontext : context.Alike context')
    (handling : Option Raised) (frames : List Text) (host : Host) :
    l.log call ⟨context, handling, frames⟩ host =
      l.log call' ⟨context', handling, frames⟩ host := by
  have hpipeline := Filter.pipeline_eq_of_alike hl.builtIn hl.any
    (l.alike_recordOf hcall hcontext handling frames host)
  have hmessage : call'.message = call.message := by rw [hcall.rest]
  simp only [log, hcall.severity_eq, hmessage, hpipeline]

end Logger

structure Workplace where
  context : ContextStore
  logger : Logger
  host : Host

inductive Action where
  | enter (thread : ThreadId) (fields : Fields)
  | exit (thread : ThreadId) (token : FrameToken)
  | endThread (thread : ThreadId)
  | log (thread : ThreadId) (call : LogCall) (handling : Option Raised) (frames : List Text)
  | flush
  | advance (n : Int)

namespace Action

def apply (w : Workplace) : Action → Workplace
  | enter thread fields => { w with context := (w.context.enter thread fields).2 }
  | exit thread token => { w with context := w.context.exit thread token }
  | endThread thread => { w with context := w.context.endThread thread }
  | log thread call handling frames =>
    let (logger, host) := w.logger.log call ⟨w.context.merged thread, handling, frames⟩ w.host
    { w with logger := logger, host := host }
  | flush => { w with host := w.logger.flush w.host }
  | advance n => { w with host := { w.host with clock := w.host.clock.advance n } }

inductive Alike : Action → Action → Prop where
  | enter (thread : ThreadId) {f g : Fields} (hfields : f.Alike g) :
    Alike (.enter thread f) (.enter thread g)
  | log (thread : ThreadId) {call call' : LogCall} (hcall : call.Alike call')
    (handling : Option Raised) (frames : List Text) :
    Alike (.log thread call handling frames) (.log thread call' handling frames)
  | refl (a : Action) : Alike a a

end Action

namespace Workplace

def run (actions : List Action) (w : Workplace) : Workplace := actions.foldl Action.apply w

structure Alike (w w' : Workplace) : Prop where
  redacts : w.logger.Redacts
  context : w.context.Alike w'.context
  logger_eq : w.logger = w'.logger
  host_eq : w.host = w'.host

theorem Alike.log {w w' : Workplace} (h : w.Alike w') (thread : ThreadId) {call call' : LogCall}
    (hcall : call.Alike call') (handling : Option Raised) (frames : List Text) :
    (Action.apply w (.log thread call handling frames)).Alike
      (Action.apply w' (.log thread call' handling frames)) := by
  have hlog :=
    Logger.log_eq_of_alike h.redacts hcall (h.context.merged thread) handling frames w.host
  have hfilters := w.logger.filters_log call ⟨w.context.merged thread, handling, frames⟩ w.host
  rw [Action.apply, Action.apply, ← h.logger_eq, ← h.host_eq, ← hlog]
  refine ⟨⟨?_, ?_⟩, h.context, rfl, rfl⟩
  · rw [hfilters]
    exact h.redacts.builtIn
  · rw [hfilters]
    exact h.redacts.any

theorem Alike.apply {w w' : Workplace} (h : w.Alike w') {a a' : Action} (ha : a.Alike a') :
    (a.apply w).Alike (a'.apply w') := by
  obtain ⟨hredacts, hcontext, hlogger, hhost⟩ := h
  cases ha with
  | enter thread hfields => exact ⟨hredacts, hcontext.enter thread hfields, hlogger, hhost⟩
  | log thread hcall handling frames =>
    exact Alike.log ⟨hredacts, hcontext, hlogger, hhost⟩ thread hcall handling frames
  | refl =>
    cases a with
    | enter thread fields => exact ⟨hredacts, hcontext.enter thread (.refl fields), hlogger, hhost⟩
    | exit thread token => exact ⟨hredacts, hcontext.exit thread token, hlogger, hhost⟩
    | endThread thread => exact ⟨hredacts, hcontext.endThread thread, hlogger, hhost⟩
    | log thread call handling frames =>
      exact Alike.log ⟨hredacts, hcontext, hlogger, hhost⟩ thread ⟨rfl, .refl _⟩ handling frames
    | flush => exact ⟨hredacts, hcontext, hlogger, by simp only [Action.apply, hlogger, hhost]⟩
    | advance n => exact ⟨hredacts, hcontext, hlogger, by simp only [Action.apply, hhost]⟩

theorem Alike.run {w w' : Workplace} (h : w.Alike w') {actions actions' : List Action}
    (hactions : List.Forall₂ Action.Alike actions actions') :
    (w.run actions).Alike (w'.run actions') := by
  induction hactions generalizing w w' with
  | nil => exact h
  | cons ha _ ih => exact ih (h.apply ha)

/-- Whatever the values of blocklisted fields are: a logger without users' filters leaves its host,
with all streams and files, and its handlers in the same state after every action. -/
theorem host_eq_of_alike {config : LoggerConfig} {fallback : Channel} {host host' : Host}
    {l : Logger} (hbuild : Logger.build config fallback host = (.ok l, host'))
    (hfilters : ∀ f, some f ∈ config.filters → f.IsBuiltIn) {actions actions' : List Action}
    (hactions : List.Forall₂ Action.Alike actions actions') (n : Nat) :
    (run (actions.take n) ⟨.empty, l, host'⟩).host =
        (run (actions'.take n) ⟨.empty, l, host'⟩).host ∧
      (run (actions.take n) ⟨.empty, l, host'⟩).logger =
        (run (actions'.take n) ⟨.empty, l, host'⟩).logger := by
  have hstart : Alike ⟨.empty, l, host'⟩ ⟨.empty, l, host'⟩ :=
    ⟨Logger.redacts_of_build hbuild hfilters, .refl _, rfl, rfl⟩
  have hend := hstart.run (List.forall₂_take n hactions)
  exact ⟨hend.host_eq, hend.logger_eq⟩

def rotatingConfig : LoggerConfig :=
  { LoggerConfig.basic with
    handlers := [.sizeRotatingFile .info .console (Text.ascii "a.log") 100 1]
    filters := [some (.level .info)] }

def loginFields (val : Value) : Fields :=
  ⟨[(Text.ascii "Password", val), (Text.ascii "try", .int 1)]⟩

def login (val : Value) : List Action :=
  [.enter 0 (loginFields val),
    .log 0 (LogMethod.info.call (Text.ascii "login") Fields.empty none Origin.unknown) none [],
    .log 0 (LogMethod.error.call (Text.ascii "failed") (loginFields val) none Origin.unknown) none
      []]

theorem alike_login (v w : Value) : List.Forall₂ Action.Alike (login v) (login w) := by
  have hblocked : IsBlocklisted (Text.ascii "Password") :=
    ⟨Text.ascii "password", by decide, List.infix_rfl⟩
  have hfields : (loginFields v).Alike (loginFields w) :=
    .cons ⟨rfl, fun h => absurd hblocked h⟩ (.cons ⟨rfl, fun _ => rfl⟩ .nil)
  exact .cons (.enter 0 hfields) (.cons (.refl _) (.cons (.log 0 ⟨rfl, hfields⟩ none []) .nil))

theorem host_eq_of_alike_login :
    (∀ f, some f ∈ rotatingConfig.filters → f.IsBuiltIn) ∧
    ∃ l host, Logger.build rotatingConfig .standardError (Host.fresh ⟨0, 0, 0⟩) = (.ok l, host) ∧
      (run ((login (.text (Text.ascii "hunter2"))).take 3) ⟨.empty, l, host⟩).host =
        (run ((login (.bool true)).take 3) ⟨.empty, l, host⟩).host := by
  have hfilters : ∀ f, some f ∈ rotatingConfig.filters → f.IsBuiltIn := by
    intro f hf
    cases List.mem_singleton.mp hf
    trivial
  have hbuild : Logger.build rotatingConfig .standardError (Host.fresh ⟨0, 0, 0⟩) = _ := rfl
  exact ⟨hfilters, _, _, hbuild, (host_eq_of_alike hbuild hfilters (alike_login _ _) 3).1⟩

end Workplace

end StructuredLog
