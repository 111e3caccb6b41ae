import StructuredLog.Handler
import StructuredLog.Proofs.Delivery.Streams

/-!
# What a handler depends on

A handler sees its output, the channels it writes to and the clock. Two handlers that see the same
handle a record in the same way, whatever else there is on their hosts, and see the same
afterwards. Main statement: `Alike.handle`.
-/

namespace StructuredLog

def Host.writeAll (host : Host) (c : Channel) (texts : List Text) : Host :=
  texts.foldl (fun host t => host.write c t) host

@[simp] theorem Host.files_writeAll (host : Host) (c : Channel) (texts : List Text) :
    (host.writeAll c texts).files = host.files := by
  induction texts generalizing host with
  | nil => rfl
  | cons t texts ih => exact ih (host.write c t)

@[simp] theorem Host.clock_writeAll (host : Host) (c : Channel) (texts : List Text) :
    (host.writeAll c texts).clock = host.clock := by
  induction texts generalizing host with
  | nil => rfl
  | cons t texts ih => exact ih (host.write c t)

namespace Handler

def channels (h : Handler) : List Channel :=
  match h.output with
  | .stream c => [c, h.fallback]
  | .file _ => [h.fallback]
  | .device d => [d.channel, h.fallback]

structure KeptByWrites (S : Output → FileSystem → Output → FileSystem → Prop) : Prop where
  stream : ∀ {c files output files'}, S (.stream c) files output files' → output = .stream c
  device : ∀ {d files output files'}, S (.device d) files output files' → output = .device d
  received : ∀ {d d' files files'}, S (.device d) files (.device d) files' →
    S (.device d') files (.device d') files'
  file : ∀ {log files output files'}, S (.file log) files output files' →
    ∃ log', output = .file log' ∧ log.description = log'.description ∧ log.flushes = log'.flushes
  write : ∀ {log files log' files'}, S (.file log) files (.file log') files' → ∀ clock entry,
    let w := LogFile.Work.write clock entry ⟨log, files, []⟩
    let w' := LogFile.Work.write clock entry ⟨log', files', []⟩
    w.1 = w'.1 ∧ w.2.problems = w'.2.problems ∧
      S (.file w.2.log) w.2.files (.file w'.2.log) w'.2.files

/-- Two handlers on their hosts that see the same: outputs related by `S`, and streams that agree
but for the contents of their sinks, which are related by `R`. -/
structure Alike (S : Output → FileSystem → Output → FileSystem → Prop) (C : Channel → Prop)
    (R : Text → Text → Text → Prop) (h h' : Handler) (host host' : Host) : Prop where
  threshold_eq : h.threshold = h'.threshold
  formatter_eq : h.formatter = h'.formatter
  fallback_eq : h.fallback = h'.fallback
  channels : ∀ c ∈ h.channels, C c
  output : S h.output host.files h'.output host'.files
  streams : host.streams.Agree C R host'.streams
  clock_eq : host.clock = host'.clock

theorem fallback_mem_channels (h : Handler) : h.fallback ∈ h.channels := by
  unfold channels
  cases h.output <;> simp

def reportLines (h : Handler) (problems : List FileProblem) : List Text :=
  problems.map fun p => h.reportLine p.message

theorem reports_eq (h : Handler) (problems : List FileProblem) (host : Host) :
    problems.foldl (fun host p => h.report host p.message) host =
      host.writeAll h.fallback (h.reportLines problems) := by
  rw [Host.writeAll, reportLines, List.foldl_map]
  rfl

theorem handle_of_not_accepts {h : Handler} {r : Record} {host : Host}
    (hnot : h.accepts r.severity = false) : h.handle r host = (h, host) := by
  simp [handle, hnot]

def unrendered (r : Record) (x : Raised) : Text :=
  Text.ascii "Formatter failed (" ++ x.reason ++ Text.ascii "); dropping entry [" ++ r.message
    ++ Text.ascii "]."

theorem handle_of_error {h : Handler} {r : Record} {host : Host} {x : Raised}
    (haccepts : h.accepts r.severity = true)
    (hrender : h.formatter.render host.clock.offset r = .error x) :
    h.handle r host = (h, h.report host (unrendered r x)) := by
  simp [handle, haccepts, hrender, unrendered]

theorem handle_of_ok {h : Handler} {r : Record} {host : Host} {text : Text}
    (haccepts : h.accepts r.severity = true)
    (hrender : h.formatter.render host.clock.offset r = .ok text) :
    h.handle r host =
      let entry := text ++ Text.ascii "\n"
      let delivered := h.deliver entry host
      (delivered.2.1, delivered.2.1.conclude entry delivered.1 delivered.2.2) := by
  simp [handle, haccepts, hrender]

section

variable {S : Output → FileSystem → Output → FileSystem → Prop} {C : Channel → Prop}
  {R : Text → Text → Text → Prop} {h h' : Handler} {host host' : Host}

theorem Alike.description_eq (hS : KeptByWrites S) (ha : Alike S C R h h' host host') :
    h.description = h'.description := by
  have houtput := ha.output
  unfold description
  cases ho : h.output with
  | stream c =>
    rw [ho] at houtput
    rw [hS.stream houtput]
  | file log =>
    rw [ho] at houtput
    obtain ⟨log', hlog', hdescription, -⟩ := hS.file houtput
    rw [hlog']
    exact hdescription
  | device d =>
    rw [ho] at houtput
    rw [hS.device houtput]

theorem Alike.write (ha : Alike S C R h h' host host') (hR : Streams.KeptByAppend R) {c : Channel}
    (hc : C c) (t : Text) : Alike S C R h h' (host.write c t) (host'.write c t) :=
  { ha with streams := ha.streams.write hR hc t }

theorem Alike.report (hS : KeptByWrites S) (hR : Streams.KeptByAppend R)
    (ha : Alike S C R h h' host host') (problem : Text) :
    Alike S C R h h' (h.report host problem) (h'.report host' problem) := by
  have hline : h'.reportLine problem = h.reportLine problem := by
    rw [reportLine, reportLine, ha.description_eq hS]
  rw [Handler.report, Handler.report, hline, ← ha.fallback_eq]
  exact ha.write hR (ha.channels _ h.fallback_mem_channels) _

theorem agree_writeAll (hagree : host.streams.Agree C R host'.streams)
    (hR : Streams.KeptByAppend R) {c : Channel} (hc : C c) (texts : List Text) :
    (host.writeAll c texts).streams.Agree C R (host'.writeAll c texts).streams := by
  induction texts generalizing host host' with
  | nil => exact hagree
  | cons t texts ih => exact ih (hagree.write hR hc t)

theorem Alike.salvage (hS : KeptByWrites S) (hR : Streams.KeptByAppend R)
    (ha : Alike S C R h h' host host') (entry reason : Text) :
    Alike S C R h h' (h.salvage entry reason host) (h'.salvage entry reason host') := by
  rw [Handler.salvage, Handler.salvage, ← ha.fallback_eq]
  exact (ha.report hS hR _).write hR (ha.channels _ h.fallback_mem_channels) entry

theorem Alike.conclude (hS : KeptByWrites S) (hR : Streams.KeptByAppend R)
    (ha : Alike S C R h h' host host') (entry : Text) (response : Response) :
    Alike S C R h h' (h.conclude entry response host) (h'.conclude entry response host') := by
  cases response with
  | done => exact ha
  | failed reason => exact ha.salvage hS hR entry reason
  | raised r => exact (ha.report hS hR _).salvage hS hR entry _

theorem Alike.deliver (hS : KeptByWrites S) (hR : Streams.KeptByAppend R)
    (ha : Alike S C R h h' host host') (entry : Text) :
    (h.deliver entry host).1 = (h'.deliver entry host').1 ∧
      Alike S C R (h.deliver entry host).2.1 (h'.deliver entry host').2.1
        (h.deliver entry host).2.2 (h'.deliver entry host').2.2 := by
  obtain ⟨threshold, formatter, fallback, output⟩ := h
  obtain ⟨threshold', formatter', fallback', output'⟩ := h'
  obtain rfl : threshold = threshold' := ha.threshold_eq
  obtain rfl : formatter = formatter' := ha.formatter_eq
  obtain rfl : fallback = fallback' := ha.fallback_eq
  cases output with
  | stream c =>
    obtain rfl : output' = .stream c := hS.stream ha.output
    have hc : C c := ha.channels c List.mem_cons_self
    have hwritten := ha.streams.write hR hc entry
    have hbad := hwritten.isBad c hc
    simp only [Handler.deliver, ← hbad]
    split
    · exact ⟨rfl, { ha with streams := hwritten.clear c }⟩
    · exact ⟨rfl, { ha with streams := hwritten }⟩
  | file log =>
    obtain ⟨log', rfl, -, -⟩ := hS.file ha.output
    obtain ⟨hok, hproblems, houtput⟩ := hS.write ha.output host.clock entry
    have hlines : reportLines ⟨threshold, formatter, fallback, .file log⟩ =
        reportLines ⟨threshold, formatter, fallback, .file log'⟩ := by
      funext problems
      simp only [reportLines, reportLine, ha.description_eq hS]
    simp only [Handler.deliver, reports_eq, ← ha.clock_eq, ← hok, ← hproblems, ← hlines]
    refine ⟨trivial, rfl, rfl, rfl, ha.channels, ?_, ?_, ?_⟩
    · simpa using houtput
    · exact agree_writeAll (by exact ha.streams) hR (ha.channels _ List.mem_cons_self) _
    · simp [ha.clock_eq]
  | device d =>
    obtain rfl : output' = .device d := hS.device ha.output
    have hc : C d.channel := ha.channels _ List.mem_cons_self
    simp only [Handler.deliver]
    split
    · exact ⟨trivial, { ha with output := hS.received ha.output }⟩
    · exact ⟨trivial, { ha with
        output := hS.received ha.output
        streams := ha.streams.write hR hc _ }⟩

theorem Alike.handle (hS : KeptByWrites S) (hR : Streams.KeptByAppend R)
    (ha : Alike S C R h h' host host') (r : Record) :
    Alike S C R (h.handle r host).1 (h'.handle r host').1 (h.handle r host).2
      (h'.handle r host').2 := by
  have haccepts : h'.accepts r.severity = h.accepts r.severity := by
    rw [accepts, accepts, ha.threshold_eq]
  have hrender : h'.formatter.render host'.clock.offset r =
      h.formatter.render host.clock.offset r := by
    rw [ha.formatter_eq, ha.clock_eq]
  cases hacc : h.accepts r.severity with
  | false =>
    rw [handle_of_not_accepts hacc, handle_of_not_accepts (haccepts.trans hacc)]
    exact ha
  | true =>
    cases htext : h.formatter.render host.clock.offset r with
    | error x =>
      rw [handle_of_error hacc htext, handle_of_error (haccepts.trans hacc) (hrender.trans htext)]
      exact ha.report hS hR _
    | ok text =>
      obtain ⟨hresponse, hdelivered⟩ := ha.deliver hS hR (text ++ Text.ascii "\n")
      rw [handle_of_ok hacc htext, handle_of_ok (haccepts.trans hacc) (hrender.trans htext)]
      dsimp only
      rw [← hresponse]
      exact hdelivered.conclude hS hR _ _

theorem Alike.askFlush (hS : KeptByWrites S) (ha : Alike S C R h h' host host') :
    (h.askFlush host).1 = (h'.askFlush host').1 ∧
      Alike S C R h h' (h.askFlush host).2 (h'.askFlush host').2 := by
  have houtput := ha.output
  unfold Handler.askFlush
  cases ho : h.output with
  | stream c =>
    rw [ho] at houtput
    have hc : C c := ha.channels c (by simp [Handler.channels, ho])
    have hflushed := ha.streams.flush hc
    rw [hS.stream houtput]
    simp only [← hflushed.isBad c hc]
    cases (host.streams.flush c).isBad c with
    | true => exact ⟨rfl, { ha with streams := hflushed.clear c }⟩
    | false => exact ⟨rfl, { ha with streams := hflushed }⟩
  | file log =>
    rw [ho] at houtput
    obtain ⟨log', hlog', -, hflushes⟩ := hS.file houtput
    rw [hlog']
    dsimp only
    rw [hflushes]
    exact ⟨rfl, ha⟩
  | device d =>
    rw [ho] at houtput
    rw [hS.device houtput]
    exact ⟨rfl, ha⟩

theorem Alike.flush (hS : KeptByWrites S) (hR : Streams.KeptByAppend R)
    (ha : Alike S C R h h' host host') : Alike S C R h h' (h.flush host) (h'.flush host') := by
  obtain ⟨hresponse, hasked⟩ := ha.askFlush hS
  rw [Handler.flush, Handler.flush]
  generalize h.askFlush host = asked at hresponse hasked
  generalize h'.askFlush host' = asked' at hresponse hasked
  obtain ⟨response, flushed⟩ := asked
  obtain ⟨response', flushed'⟩ := asked'
  obtain rfl : response = response' := hresponse
  cases response with
  | done => exact hasked
  | failed reason => exact hasked.report hS hR _
  | raised r => exact hasked.report hS hR _

end

end Handler

end StructuredLog
