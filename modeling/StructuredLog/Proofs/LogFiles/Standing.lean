import StructuredLog.Proofs.Files.Mending
import StructuredLog.Proofs.LogFiles.Steps
import StructuredLog.Proofs.LogFiles.Upkeep

/-!
# The way to a log file stands

A rotation can move or remove a directory that the path of its log file leads through, if that is
named like a backup. Opening the file again makes what is missing. So after a write all directories
on the way to the file are there, as they were before, unless pruning can cut the way off. Main
statement: `OnSite.write`.
-/

namespace StructuredLog

open FileSystem LogFile Location

namespace Site

variable {fs fs' : FileSystem} {path p : Text} {dir : Location} {name ext : Text}

theorem walk_parent (h : Site fs path dir name) :
    fs.walk (start (FilePath.parent path)) (FilePath.components (FilePath.parent path)) =
      .ok dir := by
  obtain ⟨-, front, r⟩ := h.names.route
  have hwalk := r.walk_eq
  rwa [← (r.components_parent h.no_nul).1, start, ← FilePath.isAbsolute_parent] at hwalk

theorem standing (h : Site fs path dir name) :
    ∀ loc ∈ stopsOf (FilePath.parent path), fs.node? loc = some .directory :=
  standing_of_walk h.walk_parent

theorem mendable (h : Site fs path dir name) : fs.Mendable path :=
  fun loc hloc => .inl (h.standing loc hloc)

theorem of_names {place : Location} (h : fs.Names path place name) (hnul : 0 ∉ path)
    (hs : fs'.Sound)
    (hwalk : fs'.walk (start path) (FilePath.components path).dropLast = .ok dir) :
    Site fs' path dir name := by
  obtain ⟨hname, front, r⟩ := h.route
  rw [r.dropLast_components] at hwalk
  have hnames := Route.names { r with walk_eq := hwalk } hname
  exact ⟨hs, hnul, hnames.hasParent hnul, hnames⟩

theorem of_walk (h : Site fs path dir name) (hs : fs'.Sound) {here : Location}
    (hwalk : fs'.walk (start path) (FilePath.components path).dropLast = .ok here) :
    Site fs' path dir name := by
  obtain ⟨-, front, r⟩ := h.names.route
  obtain rfl : dir = here := by
    rw [← follow_of_walk r.walk_eq, ← follow_of_walk hwalk, r.dropLast_components]
  exact .of_names h.names h.no_nul hs hwalk

theorem of_resolve_withSuffix (h : Site fs path dir name) (hs : fs'.Sound)
    (hext : FilePath.IsLabel ext) {place : Place}
    (hresolve : fs'.resolve (FilePath.withSuffix path ext) = .ok place) :
    Site fs' path dir name := by
  obtain ⟨-, front, r⟩ := h.names.route
  have hshort : FilePath.isTooLong (FilePath.withSuffix path ext) = false := by
    by_contra hlong
    rw [resolve, if_pos (by simpa using hlong)] at hresolve
    cases hresolve
  obtain ⟨here, hwalk⟩ :=
    walk_of_resolve (r.withSuffix h.no_nul hext hshort).components_eq hresolve
  rw [FilePath.withSuffix, List.append_assoc, start, FilePath.isAbsolute_append r.path_ne_nil,
    ← r.dropLast_components] at hwalk
  exact h.of_walk hs hwalk

theorem made (h : Site fs path dir name) (hs : fs'.Sound) (hmendable : fs'.Mendable path) :
    ∃ made, fs'.makeParent path = (.ok (), made) ∧ Site made path dir name := by
  obtain ⟨-, front, r⟩ := h.names.route
  obtain ⟨hfront, -⟩ := r.components_parent h.no_nul
  have hmade : (fs'.makeParent path).1 = .ok () := makeParent_ok_iff.mpr
    ⟨FilePath.isTooLong_parent h.no_nul r.short, length_of_walk h.walk_parent, hmendable⟩
  obtain ⟨hfollows, -, hparent⟩ := makeParent_made hs (Prod.ext hmade rfl)
  refine ⟨(fs'.makeParent path).2, Prod.ext hmade rfl, ?_⟩
  rcases hparent with hnil | ⟨-, here, hwalk⟩
  · have hwalk : (fs'.makeParent path).2.walk (start path) (FilePath.components path).dropLast =
        .ok (start path) := by
      rw [r.dropLast_components, ← hfront, hnil]
      rfl
    exact h.of_walk hfollows.sound hwalk
  · rw [hfront, start, FilePath.isAbsolute_parent, ← r.dropLast_components] at hwalk
    exact h.of_walk hfollows.sound hwalk

end Site

namespace LogFile

variable {fs : FileSystem} {path : Text} {dir : Location} {name : Text} {w : Work} {now : Int}

def SparesWay (rotation : Rotation) (path : Text) : Prop :=
  ∀ backups source period, rotation = .daily backups source period →
    (Schedule.daily backups source).SparesWayTo path

theorem SparesWay.becomes {start rotation : Rotation} {path : Text} (h : SparesWay start path)
    (hbecomes : Becomes start rotation) : SparesWay rotation path := by
  rintro backups source period rfl
  obtain ⟨period', rfl⟩ := hbecomes.of_daily
  exact h backups source period' rfl

structure OnSite (path : Text) (dir : Location) (name : Text) (w : Work) : Prop where
  path_eq : w.log.path = path
  site : Site w.files path dir name

/-- A log file at work that has come off its site, and gets there again when it opens its file. -/
structure OffSite (path : Text) (dir : Location) (name : Text) (w : Work) : Prop where
  path_eq : w.log.path = path
  known : ∃ fs, Site fs path dir name
  sound : w.files.Sound
  mendable : w.files.Mendable path

theorem OnSite.offSite (h : OnSite path dir name w) : OffSite path dir name w :=
  ⟨h.path_eq, ⟨_, h.site⟩, h.site.sound, h.site.mendable⟩

namespace OffSite

theorem close (h : OffSite path dir name w) (now : Int) : OffSite path dir name (w.close now) where
  path_eq := h.path_eq
  known := h.known
  sound := (Work.follows_drained h.sound now).sound
  mendable loc hloc := by
    have hmakeable := h.mendable loc hloc
    rwa [Makeable, ← Work.node?_drained w now] at hmakeable

theorem note (h : OffSite path dir name w) (p : FileProblem) : OffSite path dir name (w.note p) :=
  { h with }

theorem reopen (h : OffSite path dir name w) (truncate : Bool) :
    OnSite path dir name (w.reopen now truncate) := by
  obtain ⟨fs, hknown⟩ := h.known
  obtain ⟨made, hmade, hsite⟩ := hknown.made (h.close now).sound (h.close now).mendable
  have hpath : (w.close now).log.path = path := h.path_eq
  rw [Work.reopen, Work.openStream_eq, hpath, hmade]
  dsimp only
  cases hopen : made.openFile path truncate now with
  | error e => exact ⟨hpath, hsite⟩
  | ok opened => exact ⟨hpath, hsite.follows (.openFile hsite.sound hopen)⟩

theorem rename (h : OffSite path dir name w) {p q : Text} {files : FileSystem}
    (hp : p = path ∨ ∃ ext, FilePath.IsLabel ext ∧ p = FilePath.withSuffix path ext)
    (hrename : w.files.rename p q = .ok files) :
    OffSite path dir name { w with files := files } := by
  obtain ⟨fs, hknown⟩ := h.known
  obtain ⟨s, -, -, hresolve, -, -, -⟩ := rename_ok hrename
  have hsite : Site w.files path dir name := by
    rcases hp with rfl | ⟨ext, hext, rfl⟩
    · exact hknown.of_resolve h.sound hresolve
    · exact hknown.of_resolve_withSuffix h.sound hext hresolve
  exact ⟨h.path_eq, h.known, (rename_sound h.sound hrename).1,
    fun loc hloc => makeable_of_rename h.sound hrename (hsite.standing loc hloc)⟩

theorem rotateTo (h : OffSite path dir name w) (target : Text) :
    OnSite path dir name (w.rotateTo now target) := by
  rw [Work.rotateTo_eq, h.path_eq]
  cases hrename : (w.drained now).rename path target with
  | error e => exact ((h.close now).note _).reopen false
  | ok files => exact ((h.close now).rename (.inl rfl) hrename).reopen false

theorem removeOldest (h : OffSite path dir name w) (backups : Nat) :
    OffSite path dir name (w.removeOldest backups) := by
  rw [Work.removeOldest]
  cases hremove : w.files.remove (Work.numberedBackup w.log.path backups) with
  | error e => exact h.note _
  | ok files => exact { h with
      sound := h.sound.remove hremove
      mendable := h.mendable.remove h.sound hremove }

theorem shiftBackup (h : OffSite path dir name w) (n : Nat) :
    OffSite path dir name (w.shiftBackup n) := by
  simp only [Work.shiftBackup]
  split_ifs
  · cases hrename : w.files.rename (Work.numberedBackup w.log.path n)
        (Work.numberedBackup w.log.path (n + 1)) with
    | error e => exact h.note _
    | ok files =>
      refine h.rename (.inr ⟨_, isLabel_ofNat n, ?_⟩) hrename
      rw [Work.numberedBackup, h.path_eq]
  · exact h

theorem shifts (h : OffSite path dir name w) (order : List Nat) :
    OffSite path dir name (order.foldl Work.shiftBackup w) := by
  induction order generalizing w with
  | nil => exact h
  | cons n order ih => exact ih (h.shiftBackup n)

theorem rotateBySize (h : OffSite path dir name w) (backups : Nat) :
    OnSite path dir name (w.rotateBySize now backups) := by
  rw [Work.rotateBySize]
  split_ifs
  · exact h.reopen true
  · exact ((h.removeOldest backups).shifts _).rotateTo _

end OffSite

namespace OnSite

theorem follows (h : OnSite path dir name w) {files : FileSystem}
    (hfollows : Follows w.files files) :
    OnSite path dir name { w with files := files } := ⟨h.path_eq, h.site.follows hfollows⟩

theorem removeBackup (h : OnSite path dir name w) {other : Text}
    (hother : Work.Removable w.files path dir other) :
    OnSite path dir name (Work.removeBackup (FilePath.folder path) w other) := by
  rw [Work.removeBackup]
  cases hremove : w.files.remove (FilePath.join (FilePath.folder path) other) with
  | error e => exact { h with }
  | ok files =>
    rcases h.site.names.join h.site.no_nul hother.isLabel hother.ne_dot hother.ne_dotDot with
      hnames | hlong
    · obtain ⟨hs, -, hempty, hnode⟩ := hnames.remove_sound h.site.sound hremove
      exact ⟨h.path_eq, Work.site_vacate h.site hother.spares hs hempty hnode⟩
    · simp [FileSystem.remove, hlong] at hremove

theorem removeBackups (h : OnSite path dir name w) {others : List Text}
    (hothers : ∀ other ∈ others, Work.isDatedBackup name other = true ∧
      dir ++ [other] ∉ detours (start path) (FilePath.components path)) :
    OnSite path dir name (others.foldl (Work.removeBackup (FilePath.folder path)) w) := by
  induction others generalizing w with
  | nil => exact h
  | cons other others ih =>
    obtain ⟨⟨hdated, hspares⟩, hrest⟩ := List.forall_mem_cons.mp hothers
    obtain ⟨ext, rfl, hshape⟩ := Work.isDatedBackup_iff.mp hdated
    exact ih (h.removeBackup (Work.removable_of_hasDateShape h.site (.inr hspares) hshape)) hrest

theorem prune (h : OnSite path dir name w) {backups : Nat} {source : TimeSource}
    (hway : (Schedule.daily backups source).SparesWayTo path) :
    OnSite path dir name (w.prune backups) := by
  rw [Work.prune_eq, h.path_eq]
  split_ifs with hnone
  · exact h
  obtain ⟨hname, hlist⟩ := h.site.names.list_folder h.site.no_nul
  rw [hlist]
  refine h.removeBackups fun other hother => ?_
  have hlisted := List.mem_mergeSort.mp (List.take_subset _ _ hother)
  have hdated := (List.mem_filter.mp hlisted).2
  rw [hname] at hdated
  exact ⟨hdated, hway.not_mem_detours h.site hnone hdated⟩

theorem beforeWrite (h : OnSite path dir name w) (hspares : SparesWay w.log.rotation path)
    (clock : Clock) (entrySize : Nat) :
    OnSite path dir name (w.beforeWrite clock entrySize) := by
  rw [Work.beforeWrite]
  cases hrotation : w.log.rotation with
  | never => exact h
  | bySize limit backups =>
    dsimp only
    split_ifs
    · exact h.offSite.rotateBySize backups
    · exact h
  | daily backups source period =>
    dsimp only
    split_ifs
    · exact h
    · rw [hrotation] at hspares
      obtain ⟨hpath, hsite⟩ := (h.offSite.rotateTo _).prune (hspares _ _ _ rfl)
      exact ⟨hpath, hsite⟩

theorem put (h : OnSite path dir name w) (entry : Text) :
    OnSite path dir name (w.put now entry).2 := by
  rw [Work.put]
  cases w.log.stream with
  | none => exact h
  | some s =>
    dsimp only
    obtain ⟨hpath, hsite⟩ := h.follows (.write h.site.sound s.target s.position entry now)
    split_ifs
    · exact h
    · exact ⟨hpath, hsite⟩
    · exact ⟨hpath, hsite⟩

theorem write (h : OnSite path dir name w) (hspares : SparesWay w.log.rotation path) (clock : Clock)
    (entry : Text) : OnSite path dir name (w.write clock entry).2 := by
  have hbefore := h.beforeWrite hspares clock entry.length
  rw [Work.write_eq, Work.ready]
  split_ifs
  · exact hbefore.put entry
  · exact (hbefore.offSite.reopen false).put entry

end OnSite

end LogFile

end StructuredLog
