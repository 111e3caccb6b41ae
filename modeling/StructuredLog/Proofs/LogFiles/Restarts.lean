import Mathlib
import StructuredLog.Proofs.LogFiles.Draining
import StructuredLog.Proofs.LogFiles.Openings
import StructuredLog.Proofs.LogFiles.Upkeep

/-!
# Restarts leave no trace

A log file that takes over from another one, at the same path and with the same schedule, learns
from the file all that the other knew: its size from the content, its period from the second of
the last modification. What it cannot learn is the position of a stream that was opened to empty
the file, and that is the end of the file anyway. So a run with any number of restarts, each after
some entry, leaves the files that one log file leaves. Main statement: `relay_files_eq`.
-/

namespace StructuredLog

open FileSystem LogFile Instant

namespace LogFile

/-- An entry, the clock when it is written, and the clock when another log file takes over after
it, if one does. -/
structure Entry where
  clock : Clock
  text : Text
  successor : Option Clock
  deriving DecidableEq

namespace Entry

def clocks (e : Entry) : List Clock := e.clock :: e.successor.toList

def written (e : Entry) : Clock × Text := (e.clock, e.text)

end Entry

namespace Work

def handOver? (schedule : Schedule) (w : Work) : Option Clock → Option Work
  | none => some w
  | some clock =>
    match create clock w.log.path schedule (w.drained (floorSeconds clock.wall)) with
    | (.ok log, files) => some ⟨log, files, []⟩
    | (.error _, _) => none

/-- Writes entries one after another and lets other log files take over in between, as long as no
operation fails. -/
def relay? (schedule : Schedule) : List Entry → Work → Option Work
  | [], w => some w
  | e :: rest, w => (w.write? e.clock e.text).bind fun w' =>
    (w'.handOver? schedule e.successor).bind (relay? schedule rest)

def appending (w : Work) : Work :=
  { w with log := { w.log with stream := w.log.stream.map fun s => { s with position := none } } }

variable {w w' : Work} {now : Int} {clock : Clock} {entry : Text}

theorem appending_appending (w : Work) : w.appending.appending = w.appending := by
  simp only [appending, Option.map_map]
  rfl

theorem beforeWrite_of_close_eq (clock : Clock)
    (h : w.close (floorSeconds clock.wall) = w'.close (floorSeconds clock.wall)) (size : Nat) :
    w.beforeWrite clock size = w ∧ w'.beforeWrite clock size = w' ∨
      w.beforeWrite clock size = w'.beforeWrite clock size := by
  have hrotation : w.log.rotation = w'.log.rotation := congrArg (·.log.rotation) h
  have hsize : w.log.size = w'.log.size := congrArg (·.log.size) h
  have hpath : w.log.path = w'.log.path := congrArg (·.log.path) h
  rw [beforeWrite, beforeWrite, hrotation, hsize, hpath]
  cases w'.log.rotation with
  | never => exact .inl ⟨rfl, rfl⟩
  | bySize limit backups =>
    dsimp only
    split_ifs
    · exact .inr (by rw [← rotateBySize_close w, h, rotateBySize_close])
    · exact .inl ⟨rfl, rfl⟩
  | daily backups source period =>
    dsimp only
    split_ifs
    · exact .inl ⟨rfl, rfl⟩
    · have hrotate : ∀ target, w.rotateTo (floorSeconds clock.wall) target =
          w'.rotateTo (floorSeconds clock.wall) target := by
        intro target
        have hclosed := congrArg (rotateTo (floorSeconds clock.wall) target) h
        exact hclosed
      exact .inr (by rw [hrotate])

def added (now : Int) (n : Nat) (entry : Text) (w : Work) : Work :=
  { w with
    files := w.files.modifyFile n (·.append entry now)
    log := { w.log with
      stream := w.log.stream.map (·.advance entry.length)
      size := w.log.size + entry.length } }

theorem appending_added (w : Work) (now : Int) (n : Nat) (entry : Text) :
    (w.added now n entry).appending = w.appending.added now n entry := by
  simp only [appending, added, Option.map_map]
  rfl

end Work

namespace AtEnd

variable {w w' : Work} {dir dir' : Location} {name name' : Text} {n n' : Nat} {file file' : File}
  {now : Int} {clock : Clock} {entry : Text}

theorem appending (h : AtEnd w dir name n file) : AtEnd w.appending dir name n file := by
  obtain ⟨position, hstream, -⟩ := h.stream
  refine ⟨h.site, h.node_eq, h.file_eq, ⟨none, ?_, rfl⟩, h.size_eq⟩
  rw [Work.appending, hstream]
  rfl

theorem put_fst (h : AtEnd w dir name n file) (now : Int) (entry : Text) :
    (Work.put now entry w).1 = decide (w.files.room (.file n) entry = entry.length) := by
  obtain ⟨position, hstream, -⟩ := h.stream
  rw [Work.put_eq w now hstream]
  split_ifs with hroom <;> simp [hroom]

theorem put_snd (h : AtEnd w dir name n file) (now : Int) {entry : Text}
    (hroom : w.files.room (.file n) entry = entry.length) :
    (Work.put now entry w).2 = w.added now n entry := by
  obtain ⟨position, hstream, hend⟩ := h.stream
  have hsame : w.files.modifyFile n (·.put position entry now) =
      w.files.modifyFile n (·.append entry now) := by
    rw [modifyFile, modifyFile, FileSystem.mk.injEq]
    refine ⟨rfl, List.ext_getElem? fun m => ?_, rfl⟩
    rw [List.getElem?_modify, List.getElem?_modify]
    by_cases hm : n = m
    · rw [← hm, h.file_eq]
      simp [File.put_of_end hend]
    · simp [hm]
  rw [Work.put_eq w now hstream, if_pos hroom, write_of_room hroom, hsame, Work.added, hstream]
  rfl

theorem write_alike (h : AtEnd w dir name n file) (h' : AtEnd w' dir' name' n' file')
    (hsame : w.appending = w'.appending) (clock : Clock) (entry : Text) :
    (w.write clock entry).1 = (w'.write clock entry).1 ∧
      ((w.write clock entry).1 = true →
        (w.write clock entry).2.appending = (w'.write clock entry).2.appending) := by
  have hfiles : w.files = w'.files := congrArg (·.files) hsame
  have hclose : w.close (floorSeconds clock.wall) = w'.close (floorSeconds clock.wall) := by
    rw [Work.close, Work.close, Work.drained_of_flushes h.flushes,
      Work.drained_of_flushes h'.flushes]
    exact congrArg (fun v : Work => { v with log := { v.log with stream := none } }) hsame
  rw [Work.write, Work.write]
  rcases Work.beforeWrite_of_close_eq clock hclose entry.length with ⟨hkept, hkept'⟩ | hrotated
  · have hnumber : n = n' := by
      obtain ⟨position, hstream, -⟩ := h.appending.stream
      obtain ⟨position', hstream', -⟩ := h'.appending.stream
      rw [hsame, hstream'] at hstream
      cases hstream
      rfl
    simp only [hkept, hkept', h.isWritable, h'.isWritable, if_true]
    rw [h.put_fst, h'.put_fst, hfiles, hnumber]
    refine ⟨rfl, fun hroom => ?_⟩
    have hroom' := of_decide_eq_true hroom
    rw [h.put_snd _ (hfiles ▸ hnumber ▸ hroom'), h'.put_snd _ hroom', Work.appending_added,
      Work.appending_added, hsame, hnumber]
  · rw [hrotated]
    exact ⟨rfl, fun _ => rfl⟩

theorem write?_alike (h : AtEnd w dir name n file) (h' : AtEnd w' dir' name' n' file')
    (hsame : w.appending = w'.appending) (clock : Clock) (entry : Text) :
    w.write? clock entry = none ∧ w'.write? clock entry = none ∨
      ∃ next next', w.write? clock entry = some next ∧ w'.write? clock entry = some next' ∧
        next.appending = next'.appending := by
  obtain ⟨htaken, hwritten⟩ := h.write_alike h' hsame clock entry
  rw [Work.write?, Work.write?]
  cases hwrite : w.write clock entry with
  | mk taken next =>
    cases hwrite' : w'.write clock entry with
    | mk taken' next' =>
      rw [hwrite, hwrite'] at htaken hwritten
      dsimp only at htaken hwritten
      subst htaken
      cases taken with
      | false => exact .inl ⟨rfl, rfl⟩
      | true =>
        have hproblems : next.problems = next'.problems := congrArg (·.problems) (hwritten rfl)
        dsimp only
        rw [hproblems]
        split_ifs
        · exact .inr ⟨next, next', rfl, rfl, hwritten rfl⟩
        · exact .inl ⟨rfl, rfl⟩

end AtEnd

theorem startRotation_eq {schedule : Schedule} {clock : Clock} {last : Instant} {size : Nat}
    (hwall : schedule.ByWallClock) (hlast : 0 ≤ last) (hword : last < 9223372036854775808)
    (hlater : last ≤ clock.wall) (hsize : size ≠ 0) :
    startRotation clock size (some (floorSeconds last)) schedule =
      schedule.rotationFrom clock.offset last := by
  cases schedule with
  | never => rfl
  | bySize limit backups => rfl
  | daily backups source =>
    have hsource : source = .wall := hwall
    subst hsource
    obtain ⟨hle, hday⟩ := localDay_ofSeconds_floorSeconds clock.offset hlast hword
    have hstart : min clock.wall (ofSeconds (floorSeconds last)) = ofSeconds (floorSeconds last) :=
      Int.min_eq_right (Int.le_trans hle hlater)
    rw [startRotation]
    simp only [if_neg hsize, TimeSource.now, hstart]
    exact Schedule.rotationFrom_congr hday (.daily backups .wall)

theorem startRotation_of_empty {schedule : Schedule} (hwall : schedule.ByWallClock) (clock : Clock)
    (modified : Option Int) :
    startRotation clock 0 modified schedule = schedule.rotationFrom clock.offset clock.wall := by
  cases schedule with
  | never => rfl
  | bySize limit backups => rfl
  | daily backups source =>
    have hsource : source = .wall := hwall
    subst hsource
    cases modified <;> rfl

namespace OnSchedule

variable {w w' : Work} {dir dir' : Location} {name name' : Text} {n n' : Nat} {file file' : File}
  {schedule : Schedule} {offset : Int} {last : Clock} {clock : Clock} {entry : Text}

theorem appending (h : OnSchedule schedule offset last.wall w dir name n file) :
    OnSchedule schedule offset last.wall w.appending dir name n file :=
  ⟨h.toAtEnd.appending, h.rotation_eq, h.way⟩

theorem create_eq (h : OnSchedule schedule offset last.wall w dir name n file)
    (hwall : schedule.ByWallClock) (hlast : last.Shows offset) (hsize : file.content.size ≠ 0)
    (hmodified : file.modified = floorSeconds last.wall) (hoffset : clock.offset = offset)
    (hlater : last.wall ≤ clock.wall) :
    create clock w.log.path schedule w.files = (.ok w.appending.log, w.files) := by
  have hopen : Work.openStream (floorSeconds clock.wall) false
      ⟨⟨w.log.path, none, 0, .never⟩, w.files, []⟩ =
        (.ok (), Work.opened ⟨⟨w.log.path, none, 0, .never⟩, w.files, []⟩
          (.file n) false w.files) := by
    rw [Work.openStream_eq]
    simp only [h.site.parent.makeParent_eq, h.site.names.openFile_append h.node_eq]
  have hcontent : w.files.size? w.log.path = some file.content.size := by
    rw [h.site.names.size?_eq h.node_eq, h.file_eq]
    rfl
  have hsecond : w.files.modified? w.log.path = some (floorSeconds last.wall) := by
    rw [modified?, h.site.names.fileAt?_eq h.node_eq, h.file_eq, Option.map_some, hmodified]
  have hrotation : startRotation clock file.content.size (some (floorSeconds last.wall)) schedule =
      w.log.rotation := by
    rw [startRotation_eq hwall hlast.nonneg hlast.representable hlater hsize, hoffset,
      h.rotation_eq]
  obtain ⟨position, hstream, -⟩ := h.stream
  rw [create]
  simp only [hopen, Work.opened, hcontent, hsecond, Option.getD_some, Bool.false_eq_true, if_false,
    hrotation]
  rw [← h.size_eq, Work.appending, hstream]
  rfl

theorem handOver?_eq (h : OnSchedule schedule offset last.wall w dir name n file)
    (hwall : schedule.ByWallClock) (hlast : last.Shows offset) (hsize : file.content.size ≠ 0)
    (hmodified : file.modified = floorSeconds last.wall) (hclean : w.problems = [])
    {successor : Option Clock} (hoffset : ∀ c ∈ successor.toList, c.offset = offset)
    (hlater : ∀ c ∈ successor.toList, last.wall ≤ c.wall) :
    ∃ next, w.handOver? schedule successor = some next ∧
      OnSchedule schedule offset last.wall next dir name n file ∧ next.appending = w.appending := by
  cases successor with
  | none => exact ⟨w, rfl, h, rfl⟩
  | some clock =>
    refine ⟨w.appending, ?_, h.appending, Work.appending_appending w⟩
    rw [Work.handOver?, Work.drained_of_flushes h.flushes,
      h.create_eq hwall hlast hsize hmodified (hoffset clock (by simp)) (hlater clock (by simp))]
    dsimp only
    rw [← hclean]
    rfl

/-- A run in which log files take over from one another ends with the files that one log file
leaves. -/
theorem relay?_files {entries : List Entry}
    (h : OnSchedule schedule offset last.wall w dir name n file)
    (h' : OnSchedule schedule offset last.wall w' dir name n' file')
    (hsame : w.appending = w'.appending) (hwall : schedule.ByWallClock)
    (htexts : ∀ e ∈ entries, e.text ≠ [])
    (hclocks : ∀ c ∈ last :: entries.flatMap Entry.clocks, c.Shows offset)
    (hlater : (last :: entries.flatMap Entry.clocks).Pairwise fun c c' => c.wall ≤ c'.wall) :
    (w.relay? schedule entries).map (·.files) =
      (w'.writeAll? (entries.map Entry.written)).map (·.files) := by
  induction entries generalizing w w' n n' file file' last with
  | nil => exact congrArg (fun w => some w.files) hsame
  | cons e entries ih =>
    rw [List.flatMap_cons, Entry.clocks, List.cons_append] at hclocks hlater
    obtain ⟨hlast, hclock, hrest⟩ : last.Shows offset ∧ e.clock.Shows offset ∧
        ∀ c ∈ e.successor.toList ++ entries.flatMap Entry.clocks, c.Shows offset := by
      simpa only [List.forall_mem_cons] using hclocks
    have hle : last.wall ≤ e.clock.wall := List.rel_of_pairwise_cons hlater List.mem_cons_self
    rw [Work.relay?, List.map_cons, Entry.written, Work.writeAll?_cons]
    rcases h.write?_alike h'.toAtEnd hsame e.clock e.text with
      ⟨hnone, hnone'⟩ | ⟨middle, middle', hsome, hsome', hwritten⟩
    · rw [hnone, hnone']
      rfl
    obtain ⟨hwrite, hclean⟩ := Work.write?_eq_some.mp hsome
    obtain ⟨hwrite', hclean'⟩ := Work.write?_eq_some.mp hsome'
    obtain ⟨m, before, hmiddle⟩ := h.write hwall hlast.nonneg hclock hle hwrite hclean
    obtain ⟨m', before', hmiddle'⟩ := h'.write hwall hlast.nonneg hclock hle hwrite' hclean'
    -- The successor counts from the modification time, which is that of this entry.
    have hsize : (before.append e.text (floorSeconds e.clock.wall)).content.size ≠ 0 := by
      rw [File.size_append]
      have hpos := List.length_pos_iff.mpr (htexts e List.mem_cons_self)
      omega
    have hmodified : (before.append e.text (floorSeconds e.clock.wall)).modified =
        floorSeconds e.clock.wall := if_neg (htexts e List.mem_cons_self)
    obtain ⟨next, hnext, hready, hkept⟩ := hmiddle.handOver?_eq hwall hclock hsize hmodified hclean
      (fun c hc => (hrest c (List.mem_append_left _ hc)).offset_eq)
      (fun c hc => List.rel_of_pairwise_cons hlater.of_cons (List.mem_append_left _ hc))
    rw [hsome, hsome', Option.bind_some, Option.bind_some, hnext, Option.bind_some]
    refine ih hready hmiddle' (hkept.trans hwritten)
      (fun e he => htexts e (List.mem_cons_of_mem _ he)) ?_ ?_
    · rw [List.forall_mem_cons]
      exact ⟨hclock, fun c hc => hrest c (List.mem_append_right _ hc)⟩
    · exact hlater.of_cons.sublist ((List.sublist_append_right _ _).cons_cons _)

end OnSchedule

/-- What a log file leaves behind that starts with nothing at its path does not depend on how often
and when it was closed and opened again, as long as this happens after some entry and pruning cannot
cut off the way to the path. -/
theorem relay_files_eq {fs fs' : FileSystem} {path : Text} {schedule : Schedule} {clock : Clock}
    {log : LogFile} {entries : List Entry} (hsound : fs.Sound) (hpath : 0 ∉ path)
    (hcreate : create clock path schedule fs = (.ok log, fs'))
    (hempty : fs.IsEmptyAt (Location.goal path)) (hway : schedule.SparesWayTo path)
    (hwall : schedule.ByWallClock) (htexts : ∀ e ∈ entries, e.text ≠ [])
    (hclocks : ∀ c ∈ clock :: entries.flatMap Entry.clocks, c.Shows clock.offset)
    (hlater : (clock :: entries.flatMap Entry.clocks).Pairwise fun c c' => c.wall ≤ c'.wall) :
    (Work.relay? schedule entries ⟨log, fs', []⟩).map (·.files) =
      (Work.writeAll? (entries.map Entry.written) ⟨log, fs', []⟩).map (·.files) := by
  obtain ⟨file, hfile, hnone⟩ :=
    Option.map_eq_some_iff.mp (contentAt_of_create hsound hpath hcreate hempty)
  have hsize : file.content.size = 0 := by rw [← Array.length_toList, hnone, List.length_nil]
  obtain ⟨dir, name, n, hsite, hnode, hcontent, rfl⟩ := create_file hsound hpath hcreate hfile
  have hstart := startRotation_of_empty hwall clock (some file.modified)
  rw [hsize, hstart]
  have hready : OnSchedule schedule clock.offset clock.wall ⟨⟨path, some ⟨.file n, none, none⟩, 0,
      schedule.rotationFrom clock.offset clock.wall⟩, fs', []⟩ dir name n file :=
    ⟨⟨hsite, hnode, hcontent, ⟨none, rfl, rfl⟩, hsize.symm⟩, rfl, hway⟩
  exact hready.relay?_files hready rfl hwall htexts hclocks hlater

def firstLog : LogFile :=
  ⟨Text.ascii "a.log", some ⟨.file 0, none, none⟩, 0,
    .daily 1 .wall ⟨Text.ascii "1970-01-01", 86400000000000⟩⟩

def firstFiles : FileSystem := ⟨[([Text.ascii "a.log"], .file 0)], [⟨#[], 0⟩], .ample⟩

def threeDays : List Entry :=
  [⟨⟨0, 0, 0⟩, Text.ascii "a", some ⟨1, 0, 0⟩⟩,
    ⟨⟨86399999999999, 0, 0⟩, Text.ascii "b", some ⟨90000000000000, 0, 0⟩⟩,
    ⟨⟨90000000000000, 0, 0⟩, Text.ascii "c", some ⟨172800000000000, 0, 0⟩⟩,
    ⟨⟨172800000000000, 0, 0⟩, Text.ascii "d", none⟩]

theorem relay_files_eq_threeDays :
    create ⟨0, 0, 0⟩ (Text.ascii "a.log") (.daily 1 .wall) FileSystem.empty =
        (.ok firstLog, firstFiles) ∧
      ∃ w, Work.relay? (.daily 1 .wall) threeDays ⟨firstLog, firstFiles, []⟩ = some w ∧
        w.files.contentAt (Text.ascii "a.log") = some (Text.ascii "d") ∧
        w.files.contentAt (Text.ascii "a.log.1970-01-01") = none ∧
        w.files.contentAt (Text.ascii "a.log.1970-01-02") = some (Text.ascii "c") := by
  have hcreate : create ⟨0, 0, 0⟩ (Text.ascii "a.log") (.daily 1 .wall) FileSystem.empty =
      (.ok firstLog, firstFiles) := rfl
  have hclocks : ∀ c ∈ (⟨0, 0, 0⟩ : Clock) :: threeDays.flatMap Entry.clocks, c.Shows 0 := by
    simp only [threeDays, Entry.clocks, List.flatMap_cons, List.flatMap_nil, Option.toList,
      List.cons_append, List.nil_append, List.append_nil, List.forall_mem_cons]
    refine ⟨⟨rfl, by decide, by decide⟩, ⟨rfl, by decide, by decide⟩, ⟨rfl, by decide, by decide⟩,
      ⟨rfl, by decide, by decide⟩, ⟨rfl, by decide, by decide⟩, ⟨rfl, by decide, by decide⟩,
      ⟨rfl, by decide, by decide⟩, ⟨rfl, by decide, by decide⟩, List.forall_mem_nil _⟩
  have hdirect : Location.detours (Location.start (Text.ascii "a.log"))
      (FilePath.components (Text.ascii "a.log")) = [] := by decide
  have hway : (Schedule.daily 1 .wall).SparesWayTo (Text.ascii "a.log") := by
    refine .inr fun name hmem => ?_
    rw [hdirect] at hmem
    cases hmem
  have hsame :=
    relay_files_eq empty_sound (by decide) hcreate (.inl (by decide)) hway rfl (by decide)
    hclocks (by decide)
  have hwritten : (Work.writeAll? (threeDays.map Entry.written) ⟨firstLog, firstFiles, []⟩).map
      (fun w => (w.files.contentAt (Text.ascii "a.log"),
        w.files.contentAt (Text.ascii "a.log.1970-01-01"),
        w.files.contentAt (Text.ascii "a.log.1970-01-02"))) =
      some (some (Text.ascii "d"), none, some (Text.ascii "c")) := by cbv
  obtain ⟨kept, hkept, hread⟩ := Option.map_eq_some_iff.mp hwritten
  rw [hkept, Option.map_some] at hsame
  obtain ⟨w, hrun, hfiles⟩ := Option.map_eq_some_iff.mp hsame
  rw [← hfiles] at hread
  simp only [Prod.mk.injEq] at hread
  exact ⟨hcreate, w, hrun, hread⟩

def windingPath : Text := Text.ascii "a.log.1969-01-01/../a.log"

def windingLog : LogFile := { firstLog with path := windingPath }

def windingFiles : FileSystem :=
  ⟨[([Text.ascii "a.log.1969-01-01"], .directory), ([Text.ascii "a.log"], .file 0)], [⟨#[], 0⟩],
    .ample⟩

def twoDays : List Entry :=
  [⟨⟨0, 0, 0⟩, Text.ascii "a", none⟩,
    ⟨⟨90000000000000, 0, 0⟩, Text.ascii "b", some ⟨90000000000000, 0, 0⟩⟩,
    ⟨⟨90000000000000, 0, 0⟩, Text.ascii "c", none⟩]

/-- Pruning can remove a directory on the way to the path, and a restart makes it again. -/
theorem relay_files_ne :
    ¬∀ (fs fs' : FileSystem) (path : Text) (schedule : Schedule) (clock : Clock)
    (log : LogFile) (entries : List Entry), fs.Sound → 0 ∉ path →
    create clock path schedule fs = (.ok log, fs') → fs.IsEmptyAt (Location.goal path) →
    schedule.ByWallClock → (∀ e ∈ entries, e.text ≠ []) →
    (∀ c ∈ clock :: entries.flatMap Entry.clocks, c.Shows clock.offset) →
    (clock :: entries.flatMap Entry.clocks).Pairwise (fun c c' => c.wall ≤ c'.wall) →
    (Work.relay? schedule entries ⟨log, fs', []⟩).map (·.files) =
      (Work.writeAll? (entries.map Entry.written) ⟨log, fs', []⟩).map (·.files) := by
  intro hall
  have hclocks : ∀ c ∈ (⟨0, 0, 0⟩ : Clock) :: twoDays.flatMap Entry.clocks, c.Shows 0 := by
    simp only [twoDays, Entry.clocks, List.flatMap_cons, List.flatMap_nil, Option.toList,
      List.cons_append, List.nil_append, List.append_nil, List.forall_mem_cons]
    refine ⟨⟨rfl, by decide, by decide⟩, ⟨rfl, by decide, by decide⟩, ⟨rfl, by decide, by decide⟩,
      ⟨rfl, by decide, by decide⟩, ⟨rfl, by decide, by decide⟩, List.forall_mem_nil _⟩
  have hsame := hall FileSystem.empty windingFiles windingPath (.daily 1 .wall) ⟨0, 0, 0⟩ windingLog
    twoDays empty_sound (by decide) rfl (.inl (by decide)) rfl (by decide) hclocks (by decide)
  have hmade := congrArg (Option.map (·.exists? (Text.ascii "a.log.1969-01-01"))) hsame
  have hrestarted : ((Work.relay? (.daily 1 .wall) twoDays ⟨windingLog, windingFiles, []⟩).map
      (·.files)).map (·.exists? (Text.ascii "a.log.1969-01-01")) = some true := by cbv
  have hkept : ((Work.writeAll? (twoDays.map Entry.written) ⟨windingLog, windingFiles, []⟩).map
      (·.files)).map (·.exists? (Text.ascii "a.log.1969-01-01")) = some false := by cbv
  rw [hrestarted, hkept] at hmade
  cases hmade

end LogFile

end StructuredLog
