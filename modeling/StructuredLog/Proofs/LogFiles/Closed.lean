import StructuredLog.Proofs.LogFiles.Obstacles

/-!
# Rotation by size without an open file

A log file that could not be opened remembers the size that its file had before, and it is by this
size that the next write decides on a rotation, whatever stands at the path by then. Main statement:
`Worked.write_closed`.
-/

namespace StructuredLog

open FileSystem LogFile Location

namespace LogFile

/-- The size that is remembered leaves no room for an entry, so a rotation is due before it. -/
def LeavesNoRoom (limit : Nat) (log : LogFile) (entry : Text) : Prop :=
  limit ≠ 0 ∧ log.size ≠ 0 ∧ limit < log.size + entry.length

variable {path : Text} {dir : Location} {name : Text} {limit backups : Nat} {log : LogFile}
  {w : Work} {now : Int} {clock : Clock} {entry : Text}

namespace Work

theorem beforeWrite_bySize (hrotation : w.log.rotation = .bySize limit backups) (clock : Clock)
    (entry : Text) (hroom : ¬LeavesNoRoom limit w.log entry) :
    w.beforeWrite clock entry.length = w := by
  rw [beforeWrite, hrotation]
  exact if_neg hroom

theorem beforeWrite_rotates (hrotation : w.log.rotation = .bySize limit backups)
    (hbackups : 0 < backups) (clock : Clock) (hdue : LeavesNoRoom limit w.log entry) :
    w.beforeWrite clock entry.length =
      (w.steps (Instant.floorSeconds clock.wall) backups).reopen (Instant.floorSeconds clock.wall)
        false := by
  rw [beforeWrite, hrotation, ← rotateBySize_eq hbackups]
  exact if_pos hdue

theorem size_reopen (hclosed : (w.reopen now false).log.stream = none) :
    (w.reopen now false).log.size = w.log.size := by
  rcases w.reopen_eq now false with ⟨target, files, -, hreopen⟩ | ⟨e, hreopen⟩
  · rw [hreopen] at hclosed
    cases hclosed
  · rw [hreopen]
    rfl

theorem node?_put (w : Work) (now : Int) (entry : Text) :
    (w.put now entry).2.files.node? = w.files.node? := by
  rw [put]
  cases w.log.stream with
  | none => rfl
  | some s =>
    dsimp only
    split_ifs
    · rfl
    · exact node?_write ..
    · exact node?_write ..

theorem put_closed (hclosed : (w.put now entry).2.log.stream = none) :
    w.log.stream = none ∧ (w.put now entry).2 = w := by
  rw [put] at hclosed ⊢
  cases hstream : w.log.stream with
  | none => exact ⟨rfl, rfl⟩
  | some s =>
    simp only [hstream] at hclosed
    split_ifs at hclosed
    rw [hstream] at hclosed
    cases hclosed

inductive Reopened (w : Work) : Work → Prop
  | once (now : Int) : Reopened w (w.reopen now false)
  | again {v : Work} (h : Reopened w v) (hclosed : v.log.stream = none) (now : Int) :
    Reopened w (v.reopen now false)

namespace Reopened

variable {v : Work}

theorem gains (h : Reopened w v) (hstart : w.log.stream = none) : Gains w.files v.files := by
  induction h with
  | once now => exact drained_of_closed hstart now ▸ w.reopen_gains now
  | again h hclosed now ih => exact ih.trans (drained_of_closed hclosed now ▸ reopen_gains _ now)

theorem stepFailed_iff (h : Reopened w v) (k : Nat) :
    StepFailed path backups v.problems k ↔ StepFailed path backups w.problems k := by
  induction h with
  | once now => exact stepFailed_reopen w now false
  | again h hclosed now ih => exact (stepFailed_reopen _ now false).trans ih

theorem size_eq (h : Reopened w v) (hclosed : v.log.stream = none) : v.log.size = w.log.size := by
  induction h with
  | once now => exact size_reopen hclosed
  | again h hbefore now ih => exact (size_reopen hclosed).trans (ih hbefore)

theorem onSite (h : Reopened w v) (hoff : OffSite path dir name w) : OnSite path dir name v := by
  induction h with
  | once now => exact hoff.reopen false
  | again h hclosed now ih => exact ih.offSite.reopen false

end Reopened

/-- A write to a file that is not open takes the steps of a rotation if one is due, and opens the
file again. -/
theorem reopened_ready (hrotation : w.log.rotation = .bySize limit backups) (hbackups : 0 < backups)
    (hclosed : w.log.stream = none) (clock : Clock) (entry : Text) :
    (LeavesNoRoom limit w.log entry →
        Reopened (w.steps (Instant.floorSeconds clock.wall) backups) (w.ready clock entry.length)) ∧
      (¬LeavesNoRoom limit w.log entry → Reopened w (w.ready clock entry.length)) := by
  refine ⟨fun hdue => ?_, fun hroom => ?_⟩
  · rw [ready, beforeWrite_rotates hrotation hbackups clock hdue]
    split_ifs with hwritable
    · exact .once _
    · exact .again (.once _) ((reopen_cases _ _ _).resolve_left hwritable).1 _
  · have hnot : ¬w.isWritable = true := by
      rw [isWritable, hclosed]
      exact Bool.false_ne_true
    rw [ready, beforeWrite_bySize hrotation clock entry hroom, if_neg hnot]
    exact .once _

end Work

/-- A write to a file that is not open leaves all that stands if the size that is remembered leaves
room for the entry. If it does not, the backups are shifted, whatever stands at the path: one stays
in its slot only if it cannot leave it and is not overrun. The size is remembered until the file can
be opened. -/
theorem Worked.write_closed {fs : FileSystem} (h : Worked limit backups path log)
    (hname : 0 ∉ FilePath.fileName path) (hbackups : 0 < backups) (hclosed : log.stream = none)
    (hs : fs.Sound) (clock : Clock) (entry : Text) :
    let written := ((⟨log, fs, []⟩ : Work).write clock entry).2
    (¬LeavesNoRoom limit log entry →
        ∀ loc node, fs.node? loc = some node → written.files.node? loc = some node) ∧
      (LeavesNoRoom limit log entry → AvoidsSlots path backups →
        ∀ i n, 1 ≤ i → i ≤ backups → fs.stat (slotPath path i) = .ok (.file n) →
          (written.files.stat (slotPath path i) = .ok (.file n) ↔
            StepFailed path backups written.problems i ∧
              ¬Overrun fs path backups written.problems i)) ∧
      (written.log.stream = none → written.log.size = log.size) := by
  obtain ⟨hdue, hroom⟩ := Work.reopened_ready (w := ⟨log, fs, []⟩) h.rotation_eq hbackups hclosed
    clock entry
  obtain ⟨hlog, hfiles⟩ := Work.steps_keep ⟨log, fs, []⟩ (Instant.floorSeconds clock.wall) backups
  rw [Work.drained_of_closed hclosed] at hfiles
  rw [Work.write_eq]
  refine ⟨fun hnot loc node hnode => ?_, fun hrotates havoids i n _ hi hstat => ?_, fun hend => ?_⟩
  · rw [Work.node?_put]
    exact ((hroom hnot).gains hclosed).node hnode
  · obtain ⟨origin, dir, name, hknown⟩ := h.known hname
    obtain ⟨hbefore, hnames, hnode⟩ := hknown.names_slot_of_stat hs hstat
    have hstage := Stage.steps (w := ⟨log, fs, []⟩) hbefore h.path_eq rfl hbackups
      (Instant.floorSeconds clock.wall)
    have hready := hdue hrotates
    have honsite := hready.onSite hstage.offSite
    obtain ⟨-, -, hstays⟩ := hstage.landed hbefore (hready.gains (congrArg LogFile.stream hlog))
      honsite.site (hfiles ▸ hs.inhabited hnode) hi hstat
    have hput : OnSite path dir name ((((⟨log, fs, []⟩ : Work).ready clock entry.length).put
        (Instant.floorSeconds clock.wall) entry).2) := honsite.put entry
    rw [Work.problems_put, hput.site.stat_slot_iff hnames, Work.node?_put,
      ← honsite.site.stat_slot_iff hnames, hstays havoids]
    simp only [Overrun, MovesOn, hready.stepFailed_iff]
  · obtain ⟨hready, hput⟩ := Work.put_closed hend
    rw [hput]
    by_cases hrotates : LeavesNoRoom limit log entry
    · rw [(hdue hrotates).size_eq hready, hlog]
      rfl
    · exact (hroom hrotates).size_eq hready

namespace Worked

def closedLog : LogFile := ⟨Text.ascii "d/a.log", none, 4, .bySize 6 1⟩

theorem closedLog_worked : Worked 6 1 (Text.ascii "d/a.log") closedLog := by
  let files := (FileSystem.empty.withDirectory [Text.ascii "d"]).withFile
    [Text.ascii "d", Text.ascii "a.log"] ⟨#[], 0⟩
  let opened : LogFile := ⟨Text.ascii "d/a.log", some ⟨.file 0, none, none⟩, 0, .bySize 6 1⟩
  have hcreate : create ⟨0, 0, 0⟩ (Text.ascii "d/a.log") (.bySize 6 1) FileSystem.empty =
      (.ok opened, files) := rfl
  have hfilled : ((⟨opened, files, []⟩ : Work).write ⟨0, 0, 0⟩ (Text.ascii "aaa\n")).2.log =
      { opened with size := 4 } := by decide
  have hfilled_worked : Worked 6 1 (Text.ascii "d/a.log") { opened with size := 4 } :=
    hfilled ▸ (Worked.created empty_sound hcreate).wrote ⟨0, 0, 0⟩ _ files
  have hclosed : ((⟨{ opened with size := 4 },
      FileSystem.empty.withFile [Text.ascii "d"] ⟨#[120], 0⟩, []⟩ : Work).write ⟨0, 0, 0⟩
        (Text.ascii "bbb\n")).2.log = closedLog := by decide
  exact hclosed ▸ hfilled_worked.wrote ⟨0, 0, 0⟩ _ _

def backupOnly : FileSystem :=
  (FileSystem.empty.withDirectory [Text.ascii "d"]).withFile
    [Text.ascii "d", Text.ascii "a.log.1"] ⟨#[111, 108, 100, 10], 0⟩

theorem backupOnly_sound : backupOnly.Sound := by
  have hdirectory := Follows.withDirectory empty_sound [] (Text.ascii "d") rfl
    ⟨by decide, by decide⟩ rfl
  exact (Follows.withFile hdirectory.sound [Text.ascii "d"] (Text.ascii "a.log.1") rfl
    ⟨by decide, by decide⟩ rfl ⟨#[111, 108, 100, 10], 0⟩).sound

/-- An entry for which there would be room leaves the backup, a longer one removes it. -/
theorem write_closed_backupOnly :
    backupOnly.stat (slotPath (Text.ascii "d/a.log") 1) = .ok (.file 0) ∧
      ((⟨closedLog, backupOnly, []⟩ : Work).write ⟨0, 0, 0⟩ (Text.ascii "c\n")).2.files.node?
        [Text.ascii "d", Text.ascii "a.log.1"] = some (.file 0) ∧
      ((⟨closedLog, backupOnly, []⟩ : Work).write ⟨0, 0, 0⟩ (Text.ascii "cc\n")).2.files.stat
        (slotPath (Text.ascii "d/a.log") 1) ≠ .ok (.file 0) := by
  have hstat : backupOnly.stat (slotPath (Text.ascii "d/a.log") 1) = .ok (.file 0) := rfl
  obtain ⟨hkept, -, -⟩ := closedLog_worked.write_closed (by decide) (by decide) rfl
    backupOnly_sound ⟨0, 0, 0⟩ (Text.ascii "c\n")
  obtain ⟨-, hshifted, -⟩ := closedLog_worked.write_closed (by decide) (by decide) rfl
    backupOnly_sound ⟨0, 0, 0⟩ (Text.ascii "cc\n")
  refine ⟨hstat, hkept ?_ _ _ rfl, fun hstays => ?_⟩
  · rintro ⟨-, -, hlimit⟩
    exact absurd hlimit (by decide)
  · obtain ⟨⟨e, he⟩, -⟩ := (hshifted ⟨by decide, by decide, by decide⟩ (by decide) 1 0 le_rfl
      le_rfl hstat).mp hstays
    have hproblems : ((⟨closedLog, backupOnly, []⟩ : Work).write ⟨0, 0, 0⟩
        (Text.ascii "cc\n")).2.problems =
          [.cannotRotate (slotPath (Text.ascii "d/a.log") 1) .notFound] := by decide
    rw [hproblems] at he
    simp [stepProblem] at he

/-- There is no file at the path, and still the only backup is gone after the write. -/
theorem backup_eaten : Worked 6 1 (Text.ascii "d/a.log") closedLog ∧ closedLog.stream = none ∧
    backupOnly.Sound ∧ backupOnly.contentAt (Text.ascii "d/a.log") = none ∧
    backupOnly.contentAt (slotPath (Text.ascii "d/a.log") 1) = some (Text.ascii "old\n") ∧
    ((⟨closedLog, backupOnly, []⟩ : Work).write ⟨0, 0, 0⟩ (Text.ascii "cc\n")).2.files.contentAt
      (slotPath (Text.ascii "d/a.log") 1) = none :=
  ⟨closedLog_worked, rfl, backupOnly_sound, by decide, by decide, by decide⟩

end Worked

end LogFile

end StructuredLog
