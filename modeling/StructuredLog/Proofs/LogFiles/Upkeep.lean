import StructuredLog.Proofs.LogFiles.DailyRotation
import StructuredLog.Proofs.LogFiles.Pruning
import StructuredLog.Proofs.LogFiles.SizeRotation
import StructuredLog.Proofs.Time.Dates

/-!
# What every write keeps up

Whatever the schedule of a log file, and whatever stands where its backups go: as long as nothing
fails, its stream is at the end of the file at its path, and the size it reckons with is that of
this file. If it rotates daily, its period is that of the last write. Main statement:
`OnSchedule.write`.
-/

namespace StructuredLog

open FileSystem LogFile Instant

namespace FileSystem

structure LeavesAlone (fs fs' : FileSystem) (loc : Location) : Prop where
  sound : fs'.Sound
  files_eq : fs'.files = fs.files
  node_eq : fs'.node? loc = fs.node? loc

theorem not_below_sibling {dir : Location} {name other : Text} (h : other ≠ name) :
    ¬dir ++ [other] <+: dir ++ [name] := by
  rw [List.prefix_append_right_inj]
  intro hbelow
  exact h (List.singleton_inj.mp (hbelow.eq_of_length rfl))

end FileSystem

theorem Site.of_resolve {fs fs' : FileSystem} {path : Text} {dir : Location} {name : Text}
    (h : Site fs path dir name) (hs : fs'.Sound) {place : Place}
    (hresolve : fs'.resolve path = .ok place) : Site fs' path dir name :=
  have hnames := h.names.of_resolve hresolve
  ⟨hs, h.no_nul, hnames.hasParent h.no_nul, hnames⟩

namespace LogFile

namespace Work

variable {w : Work} {now : Int} {backups : Nat} {dir : Location} {name : Text}

theorem removeOldest_leaves (hsite : Site w.files w.log.path dir name)
    (hclean : (w.removeOldest backups).problems = []) :
    ∃ files, LeavesAlone w.files files (dir ++ [name]) ∧
      w.removeOldest backups = { w with files := files } := by
  rw [removeOldest] at hclean ⊢
  cases hremove : w.files.remove (numberedBackup w.log.path backups) with
  | error e =>
    rw [hremove] at hclean
    exact absurd hclean (problems_note w _)
  | ok files =>
    rcases hsite.names.withSuffix hsite.no_nul (isLabel_ofNat backups) with hnames | hlong
    · obtain ⟨hs, hfiles, -, hnode⟩ := hnames.remove_sound hsite.sound hremove
      refine ⟨files, ⟨hs, hfiles, ?_⟩, rfl⟩
      rw [hnode, Function.update_of_ne fun heq => extended_ne (Location.last_eq heq).symm]
    · simp [FileSystem.remove, numberedBackup, hlong] at hremove

theorem shiftBackup_leaves {start : FileSystem} (hsite : Site start w.log.path dir name)
    (hleft : LeavesAlone start w.files (dir ++ [name])) {k : Nat}
    (hclean : (w.shiftBackup k).problems = []) :
    ∃ files, LeavesAlone start files (dir ++ [name]) ∧
      w.shiftBackup k = { w with files := files } := by
  simp only [shiftBackup] at hclean ⊢
  split_ifs at hclean ⊢
  · cases hrename : w.files.rename (numberedBackup w.log.path k)
        (numberedBackup w.log.path (k + 1)) with
    | error e =>
      rw [hrename] at hclean
      exact absurd hclean (problems_note w _)
    | ok files =>
      obtain ⟨hs, hfiles, s, t, hsource, htarget, hkept⟩ := rename_sound hleft.sound hrename
      cases hsite.names.withSuffix_of_resolve hsite.no_nul (isLabel_ofNat k) hsource
      cases hsite.names.withSuffix_of_resolve hsite.no_nul (isLabel_ofNat (k + 1)) htarget
      have hnode := hkept (dir ++ [name]) (not_below_sibling extended_ne)
        (not_below_sibling extended_ne)
      exact ⟨files, ⟨hs, hfiles.trans hleft.files_eq, hnode.trans hleft.node_eq⟩, rfl⟩
  · exact ⟨w.files, hleft, rfl⟩

theorem shifts_leave {start : FileSystem} (hsite : Site start w.log.path dir name)
    (hleft : LeavesAlone start w.files (dir ++ [name])) {order : List Nat}
    (hclean : (order.foldl shiftBackup w).problems = []) :
    ∃ files, LeavesAlone start files (dir ++ [name]) ∧
      order.foldl shiftBackup w = { w with files := files } := by
  induction order generalizing w with
  | nil => exact ⟨w.files, hleft, rfl⟩
  | cons k order ih =>
    rw [List.foldl_cons] at hclean ⊢
    obtain ⟨middle, hmiddle, hshift⟩ := shiftBackup_leaves hsite hleft (problems_shifts hclean)
    rw [hshift] at hclean ⊢
    exact ih (w := { w with files := middle }) hsite hmiddle hclean

end Work

/-- Old backups can be removed without cutting off the way to the path: in the directory of the
file, it does not enter one that is named like a backup only to leave it again at once. -/
def Schedule.SparesWayTo (path : Text) : Schedule → Prop
  | daily backups _ => backups = 0 ∨ ∀ name,
      Location.follow (Location.start path) (FilePath.components path).dropLast ++ [name] ∈
        Location.detours (Location.start path) (FilePath.components path) →
      Work.isDatedBackup (FilePath.fileName path) name = false
  | _ => True

theorem Schedule.SparesWayTo.not_mem_detours {fs : FileSystem} {path : Text} {dir : Location}
    {name other : Text} {backups : Nat} {source : TimeSource}
    (hway : (Schedule.daily backups source).SparesWayTo path) (hsite : Site fs path dir name)
    (hbackups : backups ≠ 0) (hother : Work.isDatedBackup name other = true) :
    dir ++ [other] ∉ Location.detours (Location.start path) (FilePath.components path) := by
  obtain ⟨-, front, r⟩ := hsite.names.route
  have hdir : Location.follow (Location.start path) (FilePath.components path).dropLast = dir := by
    rw [r.dropLast_components, follow_of_walk r.walk_eq]
  intro hmem
  have hnot := hway.resolve_left hbackups other (hdir.symm ▸ hmem)
  rw [(hsite.names.list_folder hsite.no_nul).1, hother] at hnot
  cases hnot

/-- A log file whose stream is at the end of the file at its path. -/
structure AtEnd (w : Work) (dir : Location) (name : Text) (n : Nat) (file : File) : Prop where
  site : Site w.files w.log.path dir name
  node_eq : w.files.node? (dir ++ [name]) = some (.file n)
  file_eq : w.files.files[n]? = some file
  stream : ∃ position, w.log.stream = some ⟨.file n, position, none⟩ ∧
    position.getD file.content.size = file.content.size
  size_eq : w.log.size = file.content.size

namespace AtEnd

variable {w w' : Work} {dir : Location} {name : Text} {n : Nat} {file : File} {now : Int}

theorem isWritable (h : AtEnd w dir name n file) : w.isWritable = true := by
  obtain ⟨position, hstream, -⟩ := h.stream
  rw [Work.isWritable, hstream]
  rfl

theorem flushes (h : AtEnd w dir name n file) : w.log.flushes = true := by
  obtain ⟨position, hstream, -⟩ := h.stream
  rw [LogFile.flushes, hstream]
  rfl

theorem put (h : AtEnd w dir name n file) {entry : Text}
    (hput : Work.put now entry w = (true, w')) :
    AtEnd w' dir name n (file.append entry now) ∧ w'.log.path = w.log.path ∧
      w'.log.rotation = w.log.rotation := by
  obtain ⟨position, hstream, hend⟩ := h.stream
  obtain ⟨files, hfollows, hnodes, -, hself, -, hresult⟩ :=
    Work.put_file h.site.sound hstream h.file_eq hend hput
  cases hresult
  have hsize := file.size_append entry now
  refine ⟨⟨h.site.follows hfollows, by rw [hnodes, h.node_eq], hself, ⟨_, rfl, ?_⟩, ?_⟩, rfl, rfl⟩
  · cases position with
    | none => rfl
    | some p =>
      rw [hsize]
      exact congrArg (· + entry.length) hend
  · rw [hsize]
    exact congrArg (· + entry.length) h.size_eq

theorem reopen (h : AtEnd w dir name n file) (hclean : (w.reopen now true).problems = []) :
    AtEnd (w.reopen now true) dir name n ⟨#[], now⟩ ∧
      (w.reopen now true).log.path = w.log.path ∧
      (w.reopen now true).log.rotation = w.log.rotation := by
  obtain ⟨-, target, files, hopen, hresult⟩ := Work.reopen_site h.flushes h.site hclean
  rw [h.site.names.openFile_truncate h.node_eq] at hopen
  cases hopen
  have hself := getElem?_modifyFile_self h.file_eq fun _ => ⟨#[], now⟩
  have hsite := h.site.follows (.modifyFile h.site.sound n fun _ => ⟨#[], now⟩)
  rw [hresult]
  refine ⟨⟨hsite, h.node_eq, hself, ⟨_, rfl, rfl⟩, ?_⟩, rfl, rfl⟩
  rw [Work.opened, hsite.names.size?_eq h.node_eq, hself]
  rfl

theorem rotateTo (h : AtEnd w dir name n file) {ext : Text} (hext : FilePath.IsLabel ext)
    (hclean : (w.rotateTo now (FilePath.withSuffix w.log.path ext)).problems = []) :
    let rotated := w.rotateTo now (FilePath.withSuffix w.log.path ext)
    (∃ m, AtEnd rotated dir name m ⟨#[], now⟩) ∧ rotated.log.path = w.log.path ∧
      rotated.log.rotation = w.log.rotation := by
  obtain ⟨-, files, -, hfollows, hfiles, hnodes, hresult⟩ :=
    Work.rotateTo_clean h.flushes h.site h.node_eq hext hclean
  intro rotated
  rw [show rotated = _ from hresult]
  refine ⟨⟨w.files.files.length, h.site.follows hfollows, ?_, ?_, ⟨none, rfl, rfl⟩, rfl⟩, rfl, rfl⟩
  · rw [hnodes, Function.update_self]
  · rw [hfiles]
    simp

theorem rotateBySize (h : AtEnd w dir name n file) {backups : Nat}
    (hclean : (w.rotateBySize now backups).problems = []) :
    (∃ m, AtEnd (w.rotateBySize now backups) dir name m ⟨#[], now⟩) ∧
      (w.rotateBySize now backups).log.path = w.log.path ∧
      (w.rotateBySize now backups).log.rotation = w.log.rotation := by
  rw [Work.rotateBySize] at hclean ⊢
  split_ifs at hclean ⊢
  · obtain ⟨hemptied, hsame⟩ := h.reopen hclean
    exact ⟨⟨n, hemptied⟩, hsame⟩
  · have hshifts := Work.problems_rotateTo hclean
    obtain ⟨files₁, hremoved, hremove⟩ :=
      Work.removeOldest_leaves h.site (Work.problems_shifts hshifts)
    rw [hremove] at hclean hshifts ⊢
    obtain ⟨files₂, hmoved, hshift⟩ :=
      Work.shifts_leave (w := { w with files := files₁ }) h.site hremoved hshifts
    rw [hshift] at hclean ⊢
    -- The moves may have broken the way to the file, but then the path could not be renamed.
    obtain ⟨renamed, hrename, -⟩ := Work.rotateTo_ok hclean
    rw [Work.drained_of_flushes (w := { w with files := files₂ }) h.flushes] at hrename
    obtain ⟨s, -, -, hresolve, -, -, -⟩ := rename_ok hrename
    have hready : AtEnd { w with files := files₂ } dir name n file :=
      ⟨h.site.of_resolve hmoved.sound hresolve, hmoved.node_eq.trans h.node_eq,
        (congrArg (·[n]?) hmoved.files_eq).trans h.file_eq, h.stream, h.size_eq⟩
    exact hready.rotateTo (isLabel_ofNat 1) hclean

theorem prune (h : AtEnd w dir name n file) {backups : Nat} {source : TimeSource}
    (hway : (Schedule.daily backups source).SparesWayTo w.log.path)
    (hclean : (w.prune backups).problems = []) :
    AtEnd (w.prune backups) dir name n file ∧ (w.prune backups).log = w.log := by
  have hspares : ∀ other ∈ Work.outdated backups w.files dir name,
      Work.Spares w.files w.log.path dir other := by
    intro other hother
    refine .inr (hway.not_mem_detours h.site ?_
      (Work.isDatedBackup_iff.mpr (Work.exists_of_mem_outdated hother)))
    rintro rfl
    cases hother
  obtain ⟨files, hsite, -, hclears, hprune⟩ := Work.prune_clean h.site hspares hclean
  rw [hprune]
  refine ⟨⟨hsite, ?_, ?_, h.stream, h.size_eq⟩, rfl⟩
  · rw [hclears.kept _ fun other hother heq => ?_, h.node_eq]
    obtain ⟨ext, rfl, -⟩ := Work.exists_of_mem_outdated hother
    exact extended_ne (Location.last_eq heq).symm
  · rw [hclears.files_eq, h.file_eq]

end AtEnd

namespace Schedule

def rotationFrom (offset : Int) (t : Instant) : Schedule → Rotation
  | never => .never
  | bySize limit backups => .bySize limit backups
  | daily backups source => .daily backups source (Period.containing offset t)

/-- Days are told by the clock that also tells when a file was modified. -/
def ByWallClock : Schedule → Prop
  | daily _ source => source = .wall
  | _ => True

theorem rotationFrom_congr {offset : Int} {t t' : Instant}
    (h : localDay offset t = localDay offset t') (schedule : Schedule) :
    schedule.rotationFrom offset t = schedule.rotationFrom offset t' := by
  cases schedule with
  | never => rfl
  | bySize limit backups => rfl
  | daily backups source =>
    simp only [rotationFrom, Period.containing, localDate, nextMidnight, h]

end Schedule

end LogFile

structure Clock.Shows (offset : Int) (c : Clock) : Prop where
  offset_eq : c.offset = offset
  nonneg : 0 ≤ c.wall
  representable : c.wall < 9223372036854775808

namespace LogFile

/-- A log file at the end of its file, with the rotation that its schedule gives it as of the last
write, and on a way that pruning leaves alone. -/
structure OnSchedule (schedule : Schedule) (offset : Int) (last : Instant) (w : Work)
    (dir : Location) (name : Text) (n : Nat) (file : File) : Prop extends
    AtEnd w dir name n file where
  rotation_eq : w.log.rotation = schedule.rotationFrom offset last
  way : schedule.SparesWayTo w.log.path

namespace OnSchedule

variable {w w' : Work} {dir : Location} {name : Text} {n : Nat} {file : File}
  {schedule : Schedule} {offset : Int} {last : Instant} {clock : Clock}

theorem beforeWrite (h : OnSchedule schedule offset last w dir name n file)
    (hwall : schedule.ByWallClock) (hlast : 0 ≤ last) (hclock : clock.Shows offset)
    (hlater : last ≤ clock.wall) {size : Nat} (hclean : (w.beforeWrite clock size).problems = []) :
    ∃ m before,
      OnSchedule schedule offset clock.wall (w.beforeWrite clock size) dir name m before := by
  have hway := h.way
  have hrotation := h.rotation_eq
  rw [Work.beforeWrite, hrotation] at hclean ⊢
  cases schedule with
  | never => exact ⟨n, file, h.toAtEnd, hrotation, hway⟩
  | bySize limit backups =>
    dsimp only [Schedule.rotationFrom] at hclean ⊢
    split_ifs at hclean ⊢
    · obtain ⟨⟨m, hrotated⟩, -, hsame⟩ := h.rotateBySize hclean
      exact ⟨m, _, hrotated, hsame.trans hrotation, trivial⟩
    · exact ⟨n, file, h.toAtEnd, hrotation, hway⟩
  | daily backups source =>
    have hsource : source = .wall := hwall
    subst hsource
    dsimp only [Schedule.rotationFrom, TimeSource.now] at hclean ⊢
    split_ifs at hclean ⊢ with hdue
    · have hday := localDay_eq_of_lt_nextMidnight hlast hlater hclock.representable hdue
      have hsame := (Schedule.rotationFrom_congr hday (.daily backups .wall)).symm
      exact ⟨n, file, h.toAtEnd, hrotation.trans hsame, hway⟩
    · obtain ⟨⟨m, hrotated⟩, hpath, -⟩ :=
        h.rotateTo (isLabel_localDate offset last) (Work.problems_prune hclean)
      rw [← hpath] at hway
      obtain ⟨hpruned, hlog⟩ := hrotated.prune hway hclean
      refine ⟨m, _, ⟨hpruned.site, hpruned.node_eq, hpruned.file_eq, hpruned.stream,
        hpruned.size_eq⟩, ?_, ?_⟩
      · rw [hclock.offset_eq]
        rfl
      · exact (congrArg LogFile.path hlog).symm ▸ hway

theorem write (h : OnSchedule schedule offset last w dir name n file)
    (hwall : schedule.ByWallClock) (hlast : 0 ≤ last) (hclock : clock.Shows offset)
    (hlater : last ≤ clock.wall) {entry : Text}
    (hwrite : w.write clock entry = (true, w')) (hclean : w'.problems = []) :
    ∃ (m : Nat) (before : File), OnSchedule schedule offset clock.wall w' dir name m
      (before.append entry (floorSeconds clock.wall)) := by
  obtain ⟨hbefore, hput⟩ := Work.write_clean hwrite hclean
  obtain ⟨m, before, hready⟩ := h.beforeWrite hwall hlast hclock hlater hbefore
  obtain ⟨hwritten, hpath, hrotation⟩ := hready.put (hput hready.isWritable)
  exact ⟨m, before, hwritten, hrotation.trans hready.rotation_eq, hpath ▸ hready.way⟩

end OnSchedule

end LogFile

end StructuredLog
