import StructuredLog.Proofs.Files.OtherContents
import StructuredLog.Proofs.LogFiles.Reopening

/-!
# What closing a stream leaves

A stream that was refused octets may hold some of them until it is closed; then they go to its file,
if the disk takes them. It makes no difference to a rotation when before it this happens. Main
statement: `rotateBySize_close`.
-/

namespace StructuredLog

open FileSystem

namespace LogFile

def held (log : LogFile) : Text := (log.stream.bind (·.refused)).getD []

/-- What of this is for the file; nothing, if the stream does not write to it. -/
def heldFor (log : LogFile) (n : Nat) : Text :=
  if log.stream.map (·.target) = some (.file n) then log.held else []

namespace Work

variable {w w' : Work} {now : Int}

theorem drained_of_closed (hclosed : w.log.stream = none) (now : Int) : w.drained now = w.files :=
  drained_of_flushes (by rw [flushes, hclosed]) now

theorem drained_withFiles (w : Work) (now : Int) :
    w.drained now = { w.files with files := (w.drained now).files } := by
  rw [drained]
  split
  next target position held _ => cases target <;> rfl
  · rfl

theorem files_drained_congr (hstream : w'.log.stream = w.log.stream)
    (hfiles : w'.files.files = w.files.files) (hdisk : w'.files.disk = w.files.disk) (now : Int) :
    (w'.drained now).files = (w.drained now).files := by
  rw [drained, drained, hstream]
  split
  next target position held _ =>
    cases target with
    | file n => simp only [FileSystem.write, modifyFile, room, hfiles, hdisk]
    | special kind => exact hfiles
  · exact hfiles

theorem drained_file (happends : ∀ s, w.log.stream = some s → s.position = none) {n : Nat}
    {file : File} (hfile : w.files.files[n]? = some file) (now : Int) :
    ∃ more, more <+: w.log.heldFor n ∧ (w.drained now).files[n]? = some (file.append more now) := by
  have hkept : ∃ more, more <+: w.log.heldFor n ∧ w.files.files[n]? = some (file.append more now) :=
    ⟨[], List.nil_prefix, by rw [file.append_nil, hfile]⟩
  rw [drained]
  split
  next target position held hstream =>
    obtain rfl : position = none := happends _ hstream
    cases target with
    | special kind => exact hkept
    | file m =>
      by_cases hm : n = m
      · subst hm
        refine ⟨held.take (w.files.room (.file n) held), ?_, ?_⟩
        · rw [heldFor, if_pos (by rw [hstream]; rfl), LogFile.held, hstream]
          exact List.take_prefix ..
        · rw [FileSystem.write, getElem?_modifyFile_self hfile, File.put_of_end rfl]
      · rwa [FileSystem.write, getElem?_modifyFile_of_ne hm]
  · exact hkept

theorem close_withFiles {files : FileSystem} (hfiles : files.files = w.files.files)
    (hdisk : files.disk = w.files.disk) (now : Int) :
    close now { w with files := files } =
      { w.close now with files := { files with files := (w.drained now).files } } := by
  have hsame : (drained now { w with files := files }).files = (w.drained now).files :=
    @files_drained_congr w { w with files := files } rfl hfiles hdisk now
  have hdrained := drained_withFiles { w with files := files } now
  rw [hsame] at hdrained
  rw [close, close, hdrained]

theorem removeOldest_close (w : Work) (now : Int) (backups : Nat) :
    (w.close now).removeOldest backups = (w.removeOldest backups).close now := by
  have hremove : (w.close now).files.remove (numberedBackup (w.close now).log.path backups) =
      (w.files.remove (numberedBackup w.log.path backups)).map
        fun after => { after with files := (w.drained now).files } := by
    rw [show (w.close now).files = _ from drained_withFiles w now]
    exact remove_withFiles ..
  rw [removeOldest, removeOldest, hremove]
  cases h : w.files.remove (numberedBackup w.log.path backups) with
  | error e => rfl
  | ok files => exact (close_withFiles (remove_files h) (disk_remove h) now).symm

theorem shiftBackup_close (w : Work) (now : Int) (k : Nat) :
    (w.close now).shiftBackup k = (w.shiftBackup k).close now := by
  have hrename : (w.close now).files.rename (numberedBackup (w.close now).log.path k)
      (numberedBackup (w.close now).log.path (k + 1)) =
        (w.files.rename (numberedBackup w.log.path k) (numberedBackup w.log.path (k + 1))).map
          fun after => { after with files := (w.drained now).files } := by
    rw [show (w.close now).files = _ from drained_withFiles w now]
    exact rename_withFiles ..
  have hexists : (w.close now).files.exists? (numberedBackup (w.close now).log.path k) =
      w.files.exists? (numberedBackup w.log.path k) := by
    rw [show (w.close now).files = _ from drained_withFiles w now]
    exact exists?_withFiles ..
  simp only [shiftBackup, hrename, hexists]
  split_ifs
  · cases h : w.files.rename (numberedBackup w.log.path k) (numberedBackup w.log.path (k + 1)) with
    | error e => rfl
    | ok files => exact (close_withFiles (rename_files h) (rename_disk h) now).symm
  · rfl

theorem shifts_close (w : Work) (now : Int) (order : List Nat) :
    order.foldl shiftBackup (w.close now) = (order.foldl shiftBackup w).close now := by
  induction order generalizing w with
  | nil => rfl
  | cons k order ih => rw [List.foldl_cons, List.foldl_cons, shiftBackup_close, ih]

/-- Every rotation closes the stream, so it does not matter if that has been done before. -/
theorem rotateBySize_close (w : Work) (now : Int) (backups : Nat) :
    (w.close now).rotateBySize now backups = w.rotateBySize now backups := by
  rw [rotateBySize, rotateBySize, removeOldest_close, shifts_close]
  rfl

end Work

end LogFile

end StructuredLog
