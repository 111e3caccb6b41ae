import StructuredLog.Proofs.LogFiles.DailyBackups
import StructuredLog.Proofs.LogFiles.Obstacles

/-!
# Days without entries

A daily rotation moves the file whatever it holds. Each write leaves something in the file, so of
the backups that a run makes only the first can be empty: it is if the file was empty when it was
opened, and its day was over before the first write. Main statement: `backupsMade_nonempty_iff`.
-/

namespace StructuredLog

open FileSystem LogFile Location

namespace FileSystem

def targetNode : WriteTarget → Node
  | .file n => .file n
  | .special kind => .special kind

theorem Names.openFile_stands {fs fs' : FileSystem} {path : Text} {dir : Location} {name : Text}
    {now : Int} {target : WriteTarget} (h : fs.Names path dir name)
    (hopen : fs.openFile path false now = .ok (target, fs')) :
    fs'.node? (dir ++ [name]) = some (targetNode target) := by
  cases hnode : fs.node? (dir ++ [name]) with
  | none =>
    obtain ⟨rfl, -, hupdate⟩ := h.openFile_missing hnode hopen
    rw [hupdate, Function.update_self]
    rfl
  | some node =>
    cases node with
    | directory =>
      obtain ⟨dir', name', hnames, hdir⟩ := names_of_openFile hopen
      have hsame : dir ++ [name] = dir' ++ [name'] :=
        (Place.mk.inj (Except.ok.inj (h.symm.trans hnames))).1
      exact absurd (hsame ▸ hnode) hdir
    | file n =>
      rw [h.openFile_append hnode] at hopen
      cases hopen
      exact hnode
    | special kind =>
      rw [h.openFile_special hnode] at hopen
      cases hopen
      exact hnode

end FileSystem

namespace LogFile

variable {origin : FileSystem} {path : Text} {dir : Location} {name ext : Text} {w w' : Work}
  {now : Int} {clock : Clock} {entry : Text}

namespace Work

theorem rotateTo_moves (hflushes : w.log.flushes = true) (hknown : Site origin path dir name)
    (hs : w.files.Sound) (hpath : w.log.path = path) (hext : FilePath.IsLabel ext)
    (hclean : (w.rotateTo now (FilePath.withSuffix path ext)).problems = []) :
    OnSite path dir name (w.rotateTo now (FilePath.withSuffix path ext)) ∧
      (w.rotateTo now (FilePath.withSuffix path ext)).files.contentAt
        (FilePath.withSuffix path ext) = w.files.contentOf (dir ++ [name]) := by
  obtain ⟨files, hrename, hrotate⟩ := rotateTo_ok hclean
  rw [drained_of_flushes hflushes] at hrename
  obtain ⟨s, t, moved, hsource, htarget, hmoved, hmove⟩ := rename_ok (hpath ▸ hrename)
  have hsite := hknown.of_resolve hs hsource
  have honsite : OnSite path dir name (w.rotateTo now (FilePath.withSuffix path ext)) :=
    (OnSite.offSite ⟨hpath, hsite⟩).rotateTo _
  obtain rfl := hsite.names.withSuffix_of_resolve hsite.no_nul hext htarget
  cases hsite.names.symm.trans hsource
  refine ⟨honsite, ?_⟩
  have hgains := reopen_gains { w.close now with files := files } now
  rw [← hrotate] at hgains
  have hstands : files.node? (dir ++ [extended name ext]) = some moved := by
    obtain ⟨-, -, ⟨hsame, -⟩ | ⟨hmay, rfl⟩⟩ := moveNode_ok hmove
    · exact absurd (Location.last_eq hsame).symm extended_ne
    · have hentry := isEntry_of_resolve htarget (by simp)
      have hself := (canMove_of_mayReplace hs hsite.names.isEntry hentry hmay).node?_target []
      rw [List.append_nil, List.append_nil] at hself
      exact hself.trans hmoved
  rw [(honsite.site.names_withSuffix hext (Names.fits htarget)).contentAt_eq]
  refine contentOf_congr ((hgains.node hstands).trans hmoved.symm) fun n hn => ?_
  have hfiles : files.files = w.files.files := rename_files hrename
  have hlt : n < files.files.length := hfiles ▸ hs.inhabited hn
  exact (hgains.file hlt).trans (congrArg (·[n]?) hfiles)

theorem removeBackup_keeps (hknown : Site origin path dir name) (hs : w.files.Sound) {other : Text}
    (hother : isDatedBackup name other = true) :
    (removeBackup (FilePath.folder path) w other).log = w.log ∧
      LeavesAlone w.files (removeBackup (FilePath.folder path) w other).files (dir ++ [name]) := by
  rw [removeBackup]
  cases hremove : w.files.remove (FilePath.join (FilePath.folder path) other) with
  | error e => exact ⟨rfl, hs, rfl, rfl⟩
  | ok files =>
    obtain ⟨ext, rfl, hshape⟩ := isDatedBackup_iff.mp hother
    refine ⟨rfl, hs.remove hremove, remove_files hremove, ?_⟩
    rcases remove_vacates hs hremove with rfl | ⟨place, hresolve, hend, -, -, -, hnode⟩
    · rfl
    · have hloc : place.location = dir ++ [extended name ext] := by
        rw [(goal_of_resolve hresolve hend).1,
          (hknown.beside_join (isTag_of_hasDateShape hshape)).goal_eq, hknown.goal_parent]
      rw [hnode, hloc, Function.update_of_ne fun heq => extended_ne (Location.last_eq heq).symm]

theorem removeBackups_keep (hknown : Site origin path dir name) (hs : w.files.Sound)
    {others : List Text} (hothers : ∀ other ∈ others, isDatedBackup name other = true) :
    (others.foldl (removeBackup (FilePath.folder path)) w).log = w.log ∧
      LeavesAlone w.files (others.foldl (removeBackup (FilePath.folder path)) w).files
        (dir ++ [name]) := by
  induction others generalizing w with
  | nil => exact ⟨rfl, hs, rfl, rfl⟩
  | cons other others ih =>
    obtain ⟨hother, hrest⟩ := List.forall_mem_cons.mp hothers
    obtain ⟨hlog, hleft⟩ := removeBackup_keeps hknown hs hother
    obtain ⟨hlog', hleft'⟩ := ih hleft.sound hrest
    exact ⟨hlog'.trans hlog, hleft'.sound, hleft'.files_eq.trans hleft.files_eq,
      hleft'.node_eq.trans hleft.node_eq⟩

theorem prune_keeps (hknown : Site origin path dir name) (hs : w.files.Sound)
    (hpath : w.log.path = path) (backups : Nat) :
    (w.prune backups).log = w.log ∧
      LeavesAlone w.files (w.prune backups).files (dir ++ [name]) := by
  rw [prune_eq, hpath]
  split_ifs
  · exact ⟨rfl, hs, rfl, rfl⟩
  · cases w.files.list (FilePath.folder path) with
    | error e => exact ⟨rfl, hs, rfl, rfl⟩
    | ok names =>
      refine removeBackups_keep hknown hs fun other hother => ?_
      have hlisted := List.mem_mergeSort.mp (List.take_subset _ _ hother)
      rw [hknown.fileName_eq] at hlisted
      exact (List.mem_filter.mp hlisted).2

def backup? (clock : Clock) (w : Work) : Option (Text × Option Text) :=
  (w.log.dueDate? clock).map fun date =>
    (date, (w.rotateTo (Instant.floorSeconds clock.wall)
      (datedBackup w.log.path date)).files.contentAt
      (datedBackup w.log.path date))

/-- The backups that a run makes, each with what it holds when it is made. -/
def backupsMade : List (Clock × Text) → Work → List (Text × Option Text)
  | [], _ => []
  | (clock, entry) :: rest, w =>
    (w.backup? clock).toList ++ backupsMade rest (w.write clock entry).2

end Work

structure Stands (path : Text) (dir : Location) (name : Text) (w : Work) : Prop where
  path_eq : w.log.path = path
  known : ∃ fs, Site fs path dir name
  sound : w.files.Sound
  daily : ∃ backups source period, w.log.rotation = .daily backups source period ∧
    FilePath.IsLabel period.date
  stream : ∃ target, w.log.stream = some ⟨target, none, none⟩ ∧
    w.files.node? (dir ++ [name]) = some (targetNode target)

namespace Stands

theorem isWritable (h : Stands path dir name w) : w.isWritable = true := by
  obtain ⟨target, hstream, -⟩ := h.stream
  rw [Work.isWritable, hstream]
  rfl

theorem flushes (h : Stands path dir name w) : w.log.flushes = true := by
  obtain ⟨target, hstream, -⟩ := h.stream
  rw [LogFile.flushes, hstream]
  rfl

theorem put (h : Stands path dir name w) (hentry : entry ≠ [])
    (hput : w.put now entry = (true, w')) :
    Stands path dir name w' ∧ w'.files.contentOf (dir ++ [name]) ≠ some [] := by
  obtain ⟨target, hstream, hnode⟩ := h.stream
  have hkept : ∀ {files : FileSystem} {size : Nat}, files.Sound → files.node? = w.files.node? →
      Stands path dir name ⟨{ w.log with stream := some ⟨target, none, none⟩, size := size },
        files, w.problems⟩ :=
    fun hs hnodes => ⟨h.path_eq, h.known, hs, h.daily, target, rfl, hnodes ▸ hnode⟩
  cases target with
  | file n =>
    have hfile := List.getElem?_eq_getElem (h.sound.inhabited hnode)
    obtain ⟨files, hfollows, hnodes, -, hself, -, hresult⟩ :=
      Work.put_file h.sound hstream hfile rfl hput
    cases hresult
    refine ⟨hkept hfollows.sound hnodes, ?_⟩
    rw [contentOf_file (hnodes ▸ hnode) hself]
    simp [File.append, hentry]
  | special kind =>
    have hroom := Work.room_of_put hstream hput
    rw [Work.put_eq w now hstream, if_pos hroom] at hput
    obtain rfl := congrArg Prod.snd hput
    refine ⟨hkept h.sound rfl, ?_⟩
    have hcontent : w.files.contentOf (dir ++ [name]) = none := by
      rw [contentOf, hnode]
      rfl
    exact fun hempty => absurd (hcontent.symm.trans hempty) (by simp)

theorem rotateTo (h : Stands path dir name w) (hext : FilePath.IsLabel ext)
    (hclean : (w.rotateTo now (FilePath.withSuffix path ext)).problems = []) :
    Stands path dir name (w.rotateTo now (FilePath.withSuffix path ext)) := by
  obtain ⟨origin, hknown⟩ := h.known
  have honsite := (Work.rotateTo_moves h.flushes hknown h.sound h.path_eq hext hclean).1
  obtain ⟨files, -, hrotate⟩ := Work.rotateTo_ok hclean
  rw [hrotate] at hclean honsite ⊢
  obtain ⟨-, made, target, files', -, hopen, hreopen⟩ := Work.reopen_clean hclean
  rw [hreopen] at honsite ⊢
  refine ⟨honsite.path_eq, h.known, honsite.site.sound, h.daily, target, rfl, ?_⟩
  have hopen' : made.openFile path false now = .ok (target, files') := h.path_eq ▸ hopen
  obtain ⟨dir', name', hnames, -⟩ := names_of_openFile hopen'
  exact (hknown.names.of_resolve hnames).openFile_stands hopen'

theorem prune (h : Stands path dir name w) (backups : Nat) :
    Stands path dir name (w.prune backups) := by
  obtain ⟨origin, hknown⟩ := h.known
  obtain ⟨hlog, hleft⟩ := Work.prune_keeps hknown h.sound h.path_eq backups
  refine ⟨hlog ▸ h.path_eq, h.known, hleft.sound, hlog ▸ h.daily, ?_⟩
  rw [hlog, hleft.node_eq]
  exact h.stream

theorem beforeWrite (h : Stands path dir name w) {size : Nat}
    (hclean : (w.beforeWrite clock size).problems = []) :
    Stands path dir name (w.beforeWrite clock size) ∧
      ∀ b ∈ w.backup? clock, b.2 = w.files.contentOf (dir ++ [name]) := by
  obtain ⟨backups, source, period, hrotation, hlabel⟩ := h.daily
  obtain ⟨origin, hknown⟩ := h.known
  have hdate : w.log.dueDate? clock =
      if source.now clock < period.rollover then none else some period.date := by
    rw [dueDate?, hrotation]
  rw [Work.beforeWrite, hrotation] at hclean ⊢
  rw [Work.backup?, hdate, h.path_eq]
  dsimp only at hclean ⊢
  split_ifs at hclean ⊢
  · exact ⟨h, fun b hb => by cases hb⟩
  · rw [h.path_eq] at hclean
    have hrotated := Work.problems_prune hclean
    obtain ⟨hpath, hknown', hs, -, hstream⟩ := (h.rotateTo hlabel hrotated).prune backups
    refine ⟨⟨hpath, hknown', hs, ⟨_, _, _, rfl, Instant.isLabel_localDate _ _⟩, hstream⟩, ?_⟩
    rintro b hb
    cases hb
    exact (Work.rotateTo_moves h.flushes hknown h.sound h.path_eq hlabel hrotated).2

theorem write (h : Stands path dir name w) (hentry : entry ≠ [])
    (hwrite : w.write clock entry = (true, w')) (hclean : w'.problems = []) :
    Stands path dir name w' ∧ w'.files.contentOf (dir ++ [name]) ≠ some [] ∧
      ∀ b ∈ w.backup? clock, b.2 = w.files.contentOf (dir ++ [name]) := by
  obtain ⟨hbefore, hput⟩ := Work.write_clean hwrite hclean
  obtain ⟨hready, hbackup⟩ := h.beforeWrite hbefore
  obtain ⟨hwritten, hfilled⟩ := hready.put hentry (hput hready.isWritable)
  exact ⟨hwritten, hfilled, hbackup⟩

theorem backupsMade_nonempty {entries : List (Clock × Text)} (h : Stands path dir name w)
    (hfilled : w.files.contentOf (dir ++ [name]) ≠ some []) (hentries : ∀ e ∈ entries, e.2 ≠ [])
    (hrun : Work.writeAll? entries w = some w') :
    ∀ b ∈ Work.backupsMade entries w, b.2 ≠ some [] := by
  induction entries generalizing w with
  | nil => exact List.forall_mem_nil _
  | cons e rest ih =>
    obtain ⟨clock, entry⟩ := e
    obtain ⟨hentry, hrest⟩ := List.forall_mem_cons.mp hentries
    obtain ⟨middle, hwrite, hclean, hruns⟩ := Work.writeAll?_cons_eq_some.mp hrun
    obtain ⟨hnext, hfilled', hbackup⟩ := h.write hentry hwrite hclean
    rw [Work.backupsMade, hwrite]
    intro b hb
    rcases List.mem_append.mp hb with hfirst | hlater
    · exact hbackup b (Option.mem_toList.mp hfirst) ▸ hfilled
    · exact ih hnext hfilled' hrest hruns b hlater

theorem backupsMade_cases {entries : List (Clock × Text)} (h : Stands path dir name w)
    (hentries : ∀ e ∈ entries, e.2 ≠ []) (hrun : Work.writeAll? entries w = some w') :
    ((∀ b ∈ Work.backupsMade entries w, b.2 ≠ some []) ↔
      ¬(w.files.contentOf (dir ++ [name]) = some [] ∧
        ∃ e, entries.head? = some e ∧ (w.log.dueDate? e.1).isSome = true)) ∧
      ∀ b ∈ (Work.backupsMade entries w).tail, b.2 ≠ some [] := by
  cases entries with
  | nil => simp [Work.backupsMade]
  | cons e rest =>
    obtain ⟨clock, entry⟩ := e
    obtain ⟨hentry, hrest⟩ := List.forall_mem_cons.mp hentries
    obtain ⟨middle, hwrite, hclean, hruns⟩ := Work.writeAll?_cons_eq_some.mp hrun
    obtain ⟨hnext, hfilled, hbackup⟩ := h.write hentry hwrite hclean
    have hlater := hnext.backupsMade_nonempty hfilled hrest hruns
    rw [Work.backupsMade, hwrite]
    cases hfirst : w.backup? clock with
    | none =>
      have hdue : w.log.dueDate? clock = none := Option.map_eq_none_iff.mp hfirst
      refine ⟨iff_of_true hlater ?_, fun b hb => hlater b (List.mem_of_mem_tail hb)⟩
      rintro ⟨-, e, he, hsome⟩
      cases he
      rw [hdue] at hsome
      cases hsome
    | some b =>
      have hdue : (w.log.dueDate? clock).isSome = true := by
        obtain ⟨date, hdate, -⟩ := Option.map_eq_some_iff.mp hfirst
        rw [hdate]
        rfl
      refine ⟨List.forall_mem_cons.trans ((and_iff_left hlater).trans ?_), hlater⟩
      rw [hbackup b hfirst]
      exact not_congr ⟨fun hempty => ⟨hempty, _, rfl, hdue⟩, And.left⟩

end Stands

/-- Of the backups that a run makes only the first can be empty, and it is if and only if the file
was empty when it was opened and its day was over before the first write. No entry is empty: what a
handler writes ends a line. -/
theorem backupsMade_nonempty_iff {fs fs' : FileSystem} {keep : Nat} {source : TimeSource}
    {log : LogFile} {entries : List (Clock × Text)} (hs : fs.Sound)
    (hname : 0 ∉ FilePath.fileName path)
    (hcreate : create clock path (.daily keep source) fs = (.ok log, fs'))
    (hentries : ∀ e ∈ entries, e.2 ≠ [])
    (hrun : Work.writeAll? entries ⟨log, fs', []⟩ = some w) :
    ((∀ b ∈ Work.backupsMade entries ⟨log, fs', []⟩, b.2 ≠ some []) ↔
      ¬(fs'.contentAt path = some [] ∧
        ∃ e, entries.head? = some e ∧ (log.dueDate? e.1).isSome = true)) ∧
      ∀ b ∈ (Work.backupsMade entries ⟨log, fs', []⟩).tail, b.2 ≠ some [] := by
  have hnul := nul_not_mem_of_create hs hname hcreate
  obtain ⟨made, dir, name, target, -, -, -, hsite, -, hopen, hlog⟩ := create_ok hs hnul hcreate
  have hsite' := hsite.follows (.openFile hsite.sound hopen)
  have hstands : Stands path dir name ⟨log, fs', []⟩ := by
    rw [hlog]
    exact ⟨rfl, ⟨made, hsite⟩, hsite'.sound, ⟨_, _, _, rfl, Instant.isLabel_localDate _ _⟩,
      target, rfl, hsite.names.openFile_stands hopen⟩
  rw [hsite'.names.contentAt_eq]
  exact hstands.backupsMade_cases hentries hrun

def eveFiles : FileSystem :=
  FileSystem.empty.withFile [Text.ascii "a.log.1969-12-31"] ⟨#[111, 108, 100, 10], 0⟩

theorem eveFiles_sound : eveFiles.Sound :=
  (Follows.withFile empty_sound [] (Text.ascii "a.log.1969-12-31") rfl ⟨by decide, by decide⟩ rfl
    ⟨#[111, 108, 100, 10], 0⟩).sound

def quietFiles : FileSystem := eveFiles.withFile [Text.ascii "a.log"] ⟨#[], 0⟩

def quietLog : LogFile := { epochLog 1 with stream := some ⟨.file 1, none, none⟩ }

def quietDay : List (Clock × Text) := [(⟨90000000000000, 90000000000000, 0⟩, Text.ascii "a\n")]

theorem backupsMade_nonempty_iff_quietDay :
    create ⟨0, 0, 0⟩ (Text.ascii "a.log") (.daily 1 .wall) eveFiles = (.ok quietLog, quietFiles) ∧
      ∃ w, Work.writeAll? quietDay ⟨quietLog, quietFiles, []⟩ = some w ∧
        ¬∀ b ∈ Work.backupsMade quietDay ⟨quietLog, quietFiles, []⟩, b.2 ≠ some [] := by
  have hcreate : create ⟨0, 0, 0⟩ (Text.ascii "a.log") (.daily 1 .wall) eveFiles =
      (.ok quietLog, quietFiles) := rfl
  have hsome : (Work.writeAll? quietDay ⟨quietLog, quietFiles, []⟩).isSome = true := by cbv
  obtain ⟨w, hrun⟩ := Option.isSome_iff_exists.mp hsome
  have hiff := (backupsMade_nonempty_iff eveFiles_sound (by decide) hcreate (by decide) hrun).1
  refine ⟨hcreate, w, hrun, fun hnone => hiff.mp hnone ⟨by decide, _, rfl, by decide⟩⟩

/-- The first write leaves an empty backup, and removes the one that held something. -/
theorem empty_backup_made :
    create ⟨0, 0, 0⟩ (Text.ascii "a.log") (.daily 1 .wall) eveFiles = (.ok quietLog, quietFiles) ∧
      quietFiles.contentAt (Work.datedBackup (Text.ascii "a.log") (Text.ascii "1969-12-31")) =
        some (Text.ascii "old\n") ∧
      (Work.writeAll? quietDay ⟨quietLog, quietFiles, []⟩).map (fun w =>
        (w.files.contentAt (Work.datedBackup (Text.ascii "a.log") (Text.ascii "1970-01-01")),
          w.files.contentAt (Work.datedBackup (Text.ascii "a.log") (Text.ascii "1969-12-31")))) =
        some (some [], none) := by
  refine ⟨rfl, by decide, by cbv⟩

end LogFile

end StructuredLog
