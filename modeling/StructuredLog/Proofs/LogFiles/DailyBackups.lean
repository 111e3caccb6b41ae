import Mathlib
import StructuredLog.Proofs.LogFiles.DailyPages
import StructuredLog.Proofs.LogFiles.Openings

/-!
# What a daily log file leaves behind

Two readings of the files of a daily log file after a run. If the clock never goes back, every
entry is under its own day: the file at the path holds those of the last day, and a backup is
there for each of the newest days before it on which the log file was at work. And whatever the
clock does, while all backups are kept they and the file at the path hold, one after another, what
was there at the start and all that was written since, and no rotation goes to a date twice. Main
statements: `writeAll_files_by_day` and `writeAll_keeps_order`.
-/

namespace StructuredLog

open FileSystem LogFile Location Calendar Instant

namespace LogFile

variable {clock : Clock} {path : Text} {keep : Nat} {source : TimeSource} {fs fs' : FileSystem}
  {log : LogFile} {entries : List (Clock × Text)} {w : Work}

theorem hasMidnight_startTime {file : File} (hclock : HasMidnight clock.offset (source.now clock))
    (hmodified : file.content.size ≠ 0 →
      0 ≤ file.modified ∧ file.modified * 1000000000 < 9223372036854775808) :
    HasMidnight clock.offset (startTime source clock file) := by
  rw [startTime]
  split_ifs with hsize
  · exact hclock
  · obtain ⟨hlow, hhigh⟩ := hmodified hsize
    have hseconds : ofSeconds file.modified = file.modified * 1000000000 := by
      rw [ofSeconds, wrap]
      exact Int.bmod_eq_of_le (by omega) (by omega)
    refine hclock.of_le ?_ (Int.min_le_left _ _)
    rw [hseconds]
    exact Int.le_min.mpr ⟨hclock.nonneg, by omega⟩

theorem days_mono {offset : Int} (hclocks : ∀ c ∈ clock :: entries.map (·.1), source.Reads offset c)
    (hlater : (clock :: entries.map (·.1)).Pairwise fun c c' => source.now c ≤ source.now c') :
    (source.day clock :: (source.dated entries).map (·.1)).Pairwise (· ≤ ·) := by
  have hdays : source.day clock :: (source.dated entries).map (·.1) =
      (clock :: entries.map (·.1)).map source.day := by
    simp [TimeSource.dated]
  rw [hdays, List.pairwise_map]
  refine hlater.imp_of_mem fun {c c'} hc hc' hle => ?_
  rw [TimeSource.day, TimeSource.day, (hclocks c hc).offset_eq, (hclocks c' hc').offset_eq]
  exact localDay_mono _ (hclocks c hc).hasMidnight.nonneg hle

theorem startTime_of_empty (source : TimeSource) (clock : Clock) {file : File}
    (h : file.content.toList = []) :
    startTime source clock file = source.now clock := by
  rw [startTime, if_pos]
  rw [← Array.length_toList, h, List.length_nil]

/-- The dates of the dated backups that are files, in the order of their names. -/
def backupDates (fs : FileSystem) (path : Text) : List Text :=
  ((fs.suffixes path).filter fun ext =>
    Work.hasDateShape ext && (fs.contentAt (Work.datedBackup path ext)).isSome).mergeSort Text.le

/-- The dated backups in the order of their names and the file at the path, one after another. -/
def chronicle (fs : FileSystem) (path : Text) : Text :=
  ((backupDates fs path).map fun date =>
    (fs.contentAt (Work.datedBackup path date)).getD []).flatten ++ (fs.contentAt path).getD []

/-- The dates to which a run moves the file at the path. -/
def Work.rotationDates : List (Clock × Text) → Work → List Text
  | [], _ => []
  | (clock, entry) :: rest, w =>
    (w.log.dueDate? clock).toList ++ rotationDates rest (w.write clock entry).2

theorem mem_backupDates {dir : Location} {name ext : Text} (hsite : Site fs path dir name) :
    ext ∈ backupDates fs path ↔ Work.hasDateShape ext = true ∧ FilePath.Fits path name ext ∧
      ∃ n, fs.node? (dir ++ [extended name ext]) = some (.file n) := by
  rw [backupDates, List.mem_mergeSort, List.mem_filter, Bool.and_eq_true,
    hsite.names.mem_suffixes hsite.no_nul]
  constructor
  · rintro ⟨-, hshape, hcontent⟩
    rcases hsite.names.withSuffix hsite.no_nul (Work.isLabel_of_hasDateShape hshape) with
      hnames | hlong
    · rw [Work.datedBackup, hnames.contentAt_eq, hsite.sound.contentOf_isSome] at hcontent
      exact ⟨hshape, hnames.fits, hcontent⟩
    · simp [contentAt, fileAt?, stat, Work.datedBackup, hlong] at hcontent
  · rintro ⟨hshape, hfits, hfile⟩
    have hnames := hsite.names_withSuffix (Work.isLabel_of_hasDateShape hshape) hfits
    refine ⟨?_, hshape, ?_⟩
    · obtain ⟨n, hn⟩ := hfile
      rw [hn]
      exact Option.some_ne_none _
    · rwa [Work.datedBackup, hnames.contentAt_eq, hsite.sound.contentOf_isSome]

namespace Reflects

variable {start : FileSystem} {offset : Int} {dir : Location} {name : Text} {d : Diary} {w' : Work}

theorem dueDate?_eq (h : Reflects start keep source offset w dir name d)
    (hclock : source.Reads offset clock) : w.log.dueDate? clock =
      if source.day clock ≤ d.today.day then none else some (dayText d.today.day) := by
  rw [dueDate?, h.rotation]
  simp only [lt_rollover_iff hclock]

theorem closed_run (h : Reflects start 0 source offset w dir name d) (hoffset : IsOffset offset)
    (hclocks : ∀ e ∈ entries, source.Reads offset e.1) (hrun : w.writeAll? entries = some w') :
    ((d.run 0 (source.dated entries)).closed.map fun p => dayText p.day) =
      (d.closed.map fun p => dayText p.day) ++ w.rotationDates entries := by
  induction entries generalizing w d with
  | nil => simp [Diary.run, TimeSource.dated, Work.rotationDates]
  | cons e entries ih =>
    obtain ⟨clock, entry⟩ := e
    obtain ⟨middle, hwrite, hclean, hrest⟩ := Work.writeAll?_cons_eq_some.mp hrun
    have hclock := hclocks _ List.mem_cons_self
    obtain ⟨hmiddle, -⟩ := h.write hoffset (fun hkeep => absurd rfl hkeep) hclock hwrite hclean
    have hdates := ih hmiddle (fun e he => hclocks e (List.mem_cons_of_mem _ he)) hrest
    have hfirst : ((d.write 0 (source.day clock) entry).closed.map fun p => dayText p.day) =
        (d.closed.map fun p => dayText p.day) ++ (w.log.dueDate? clock).toList := by
      rw [h.dueDate?_eq hclock, Diary.write]
      split_ifs <;> simp [newest_zero]
    rw [hfirst, List.append_assoc] at hdates
    rw [Work.rotationDates, hwrite]
    exact hdates

theorem backupDates_eq (h : Reflects start keep source offset w dir name d)
    (hstart : Site start w.log.path dir name) (hnone : backupDates start w.log.path = []) :
    backupDates w.files w.log.path = d.closed.map fun p => dayText p.day := by
  have hsuffixes := h.site.names.nodup_suffixes h.site.no_nul h.distinct
  refine Text.mergeSort_eq (hsuffixes.filter _) h.before_closed fun ext => ?_
  refine List.mem_mergeSort.symm.trans ((mem_backupDates h.site).trans ⟨?_, fun hclosed => ?_⟩)
  · rintro ⟨hshape, hfits, hfile⟩
    by_contra hother
    have hsame := h.shelf.others ext fun p hp heq => hother (List.mem_map.mpr ⟨p, hp, heq.symm⟩)
    rw [hsame] at hfile
    have hmem := (mem_backupDates hstart).mpr ⟨hshape, hfits, hfile⟩
    rw [hnone] at hmem
    cases hmem
  · obtain ⟨p, hp, rfl⟩ := List.mem_map.mp hclosed
    refine ⟨hasDateShape_dayText (h.fourDigit p (List.mem_append_left _ hp)), h.shelf.fits p hp,
      h.site.sound.contentOf_isSome.mp ?_⟩
    rw [h.shelf.contents p hp]
    rfl

theorem mem_suffixes_iff (h : Reflects start keep source offset w dir name d)
    (hstart : Site start w.log.path dir name) (ext : Text) :
    ext ∈ w.files.suffixes w.log.path ↔
      ext ∈ start.suffixes w.log.path ∨ ∃ p ∈ d.closed, ext = dayText p.day := by
  rw [h.site.names.mem_suffixes h.site.no_nul, h.shelf.stands_iff,
    hstart.names.mem_suffixes hstart.no_nul]

theorem chronicle_eq (h : Reflects start keep source offset w dir name d)
    (hstart : Site start w.log.path dir name) (hnone : backupDates start w.log.path = []) :
    chronicle w.files w.log.path = d.text := by
  have hcontents : ((d.closed.map fun p => dayText p.day).map fun date =>
      (w.files.contentAt (Work.datedBackup w.log.path date)).getD []) = d.closed.map (·.text) := by
    rw [List.map_map]
    refine List.map_congr_left fun p hp => ?_
    simp only [Function.comp_apply, h.contentAt_backup hp, Option.getD_some]
  rw [chronicle, h.backupDates_eq hstart hnone, hcontents, h.contentAt_path, Option.getD_some,
    Diary.text, Diary.pages, List.map_append, List.flatten_append, List.map_singleton,
    List.flatten_singleton]

end Reflects

/-- No directory on the way to the path is named like one of its dated backups. -/
def AvoidsBackups (path : Text) : Prop :=
  ∀ date, Work.hasDateShape date = true →
    goal (Work.datedBackup path date) ∉ stopsOf (FilePath.parent path)

/-- Opening a log file beside which there is no dated backup makes none, but it can make directories
that are named like one. -/
theorem create_withoutBackups {dir : Location} {name : Text} (hsound : fs.Sound) (hpath : 0 ∉ path)
    (hcreate : create clock path (.daily keep source) fs = (.ok log, fs'))
    (hbare : ∀ date, Work.hasDateShape date = true →
      fs.node? (goal (Work.datedBackup path date)) = none) (hsite : Site fs' path dir name) :
    (AvoidsBackups path → WithoutBackups fs' dir name) ∧ backupDates fs' path = [] := by
  have hself : goal path = dir ++ [name] := (goal_of_resolve hsite.names (by simp)).1.symm
  have hdated : ∀ date, Work.hasDateShape date = true →
      fs'.node? (dir ++ [extended name date]) = none ∨
        goal (Work.datedBackup path date) ∈ stopsOf (FilePath.parent path) := by
    intro date hshape
    have hgoal := hsite.goal_datedBackup hshape
    refine or_iff_not_imp_right.mpr fun hway => ?_
    have hne : goal (Work.datedBackup path date) ≠ goal path := by
      rw [hgoal, hself]
      exact fun heq => extended_ne (Location.last_eq heq)
    rw [← hgoal, create_node?_eq hsound hpath hcreate hway hne, hbare date hshape]
  refine ⟨fun havoids date hshape => (hdated date hshape).resolve_right (havoids date hshape), ?_⟩
  refine List.eq_nil_iff_forall_not_mem.mpr fun date hmem => ?_
  obtain ⟨hshape, -, n, hfile⟩ := (mem_backupDates hsite).mp hmem
  rcases hdated date hshape with hnone | hway
  · rw [hnone] at hfile
    cases hfile
  · rw [hsite.goal_datedBackup hshape] at hway
    rw [hsite.standing _ hway] at hfile
    cases hfile

/-- A daily log file that starts empty, with nothing beside it that could be taken for a backup,
and whose clock never goes back, files every entry under its own day, unless old backups go and a
directory on its way could be taken for one. -/
theorem writeAll_files_by_day (hsound : fs.Sound) (hdistinct : fs.Distinct) (hpath : 0 ∉ path)
    (hoffset : IsOffset clock.offset) (hempty : fs.IsEmptyAt (goal path))
    (hbare : ∀ date, Work.hasDateShape date = true →
      fs.node? (goal (Work.datedBackup path date)) = none)
    (hway : keep ≠ 0 → AvoidsBackups path)
    (hcreate : create clock path (.daily keep source) fs = (.ok log, fs'))
    (hclocks : ∀ c ∈ clock :: entries.map (·.1), source.Reads clock.offset c)
    (hlater : (clock :: entries.map (·.1)).Pairwise fun c c' => source.now c ≤ source.now c')
    (hrun : Work.writeAll? entries ⟨log, fs', []⟩ = some w) :
    let days := source.day clock :: (source.dated entries).map (·.1)
    let today := days.getLast (List.cons_ne_nil _ _)
    let kept := newest keep (days.dedup.filter (· < today))
    w.files.contentAt path = some (Diary.writtenOn today (source.dated entries)) ∧
      backupDates w.files path = kept.map dayText ∧
      (∀ day ∈ kept, w.files.contentAt (Work.datedBackup path (dayText day)) =
        some (Diary.writtenOn day (source.dated entries))) ∧
      ∀ ext, ext ∈ w.files.suffixes path ↔
        ext ∈ fs'.suffixes path ∨ ∃ day ∈ kept, ext = dayText day := by
  intro days today kept
  obtain ⟨file, hfile, hnone⟩ :=
    Option.map_eq_some_iff.mp (contentAt_of_create hsound hpath hcreate hempty)
  have hreads : source.Reads clock.offset clock := hclocks clock List.mem_cons_self
  have hstart := startTime_of_empty source clock hnone
  obtain ⟨rfl, dir, name, hcreated⟩ := create_reflects hsound hdistinct hpath hoffset hcreate hfile
    (hstart ▸ hreads.hasMidnight)
  rw [hstart, hnone] at hcreated
  obtain ⟨hbare', hdates⟩ := create_withoutBackups hsound hpath hcreate hbare hcreated.site
  obtain ⟨hlast, hsame⟩ := hcreated.writeAll hoffset (fun hkeep => hbare' (hway hkeep))
    (fun e he => hclocks _ (List.mem_cons_of_mem _ (List.mem_map_of_mem he))) hrun
  have hfiled : (Diary.start (source.day clock) []).run keep (source.dated entries) =
      ⟨kept.map fun day => ⟨day, Diary.writtenOn day (source.dated entries)⟩,
        ⟨today, Diary.writtenOn today (source.dated entries)⟩⟩ :=
    Diary.run_eq (days_mono hclocks hlater) keep
  have hstarted : localDay clock.offset (source.now clock) = source.day clock := rfl
  rw [hstarted, hfiled] at hlast
  have hpath' : w.log.path = log.path := hsame
  have hcurrent := hlast.contentAt_path
  have hbackups := hlast.backupDates_eq (hsame ▸ hcreated.site) (hsame ▸ hdates)
  have hbackup := fun day hday => hlast.contentAt_backup (List.mem_map_of_mem (a := day) hday)
  have hstands := fun ext => hlast.mem_suffixes_iff (hsame ▸ hcreated.site) ext
  rw [hpath'] at hcurrent hbackups hbackup
  simp only [hpath', List.mem_map, exists_exists_and_eq_and] at hstands
  rw [List.map_map] at hbackups
  exact ⟨hcurrent, hbackups, hbackup, hstands⟩

def epochLog (keep : Nat) : LogFile :=
  ⟨Text.ascii "a.log", some ⟨.file 0, none, none⟩, 0,
    .daily keep .wall ⟨Text.ascii "1970-01-01", 86400000000000⟩⟩

def epochFiles : FileSystem := ⟨[([Text.ascii "a.log"], .file 0)], [⟨#[], 0⟩], .ample⟩

def fourDays : List (Clock × Text) :=
  [(⟨0, 0, 0⟩, Text.ascii "a"), (⟨86400000000000, 0, 0⟩, Text.ascii "b"),
    (⟨86400000000001, 0, 0⟩, Text.ascii "c"), (⟨259200000000000, 0, 0⟩, Text.ascii "d")]

theorem reads_fourDays :
    ∀ c ∈ (⟨0, 0, 0⟩ : Clock) :: fourDays.map (·.1), TimeSource.wall.Reads 0 c := by
  simp only [fourDays, List.map_cons, List.map_nil, List.forall_mem_cons]
  refine ⟨⟨rfl, by decide, by decide⟩, ⟨rfl, by decide, by decide⟩, ⟨rfl, by decide, by decide⟩,
    ⟨rfl, by decide, by decide⟩, ⟨rfl, by decide, by decide⟩, List.forall_mem_nil _⟩

theorem writeAll_files_by_day_fourDays :
    create ⟨0, 0, 0⟩ (Text.ascii "a.log") (.daily 1 .wall) FileSystem.empty =
        (.ok (epochLog 1), epochFiles) ∧
      ∃ w, Work.writeAll? fourDays ⟨epochLog 1, epochFiles, []⟩ = some w ∧
        w.files.contentAt (Text.ascii "a.log") = some (Text.ascii "d") ∧
        backupDates w.files (Text.ascii "a.log") = [Text.ascii "1970-01-02"] ∧
        w.files.contentAt (Text.ascii "a.log.1970-01-02") = some (Text.ascii "bc") := by
  have hcreate : create ⟨0, 0, 0⟩ (Text.ascii "a.log") (.daily 1 .wall) FileSystem.empty =
      (.ok (epochLog 1), epochFiles) := rfl
  have hsome : (Work.writeAll? fourDays ⟨epochLog 1, epochFiles, []⟩).isSome = true := by cbv
  obtain ⟨w, hrun⟩ := Option.isSome_iff_exists.mp hsome
  obtain ⟨dir, name, hsite, -⟩ := create_stands empty_sound (by decide) hcreate
  have hbare : ∀ date, Work.hasDateShape date = true →
      FileSystem.empty.node? (goal (Work.datedBackup (Text.ascii "a.log") date)) = none := by
    intro date hshape
    rw [hsite.goal_datedBackup hshape, node?_of_isEntry (hsite.names.isEntry_extended date)]
    rfl
  have hway : stopsOf (FilePath.parent (Text.ascii "a.log")) = [] := by decide
  obtain ⟨hlast, hbackups, hcontents, -⟩ := writeAll_files_by_day empty_sound List.nodup_nil
    (by decide) ⟨by decide, by decide⟩ (.inl (by decide)) hbare
    (fun _ _ _ hmem => by rw [hway] at hmem; cases hmem) hcreate reads_fourDays (by decide) hrun
  refine ⟨hcreate, w, hrun, ?_, ?_, ?_⟩
  · rw [hlast]
    decide
  · rw [hbackups]
    decide
  · exact (hcontents 1 (by decide)).trans (by decide)

def roundaboutPath : Text := Text.ascii "a.log.2999-01-01/../a.log"

def roundaboutLog : LogFile := { epochLog 1 with path := roundaboutPath }

def roundaboutFiles : FileSystem :=
  ⟨[([Text.ascii "a.log.2999-01-01"], .directory), ([Text.ascii "a.log"], .file 0)], [⟨#[], 0⟩],
    .ample⟩

/-- A directory on the way can be taken for the newest backup, and then the others go. -/
theorem not_files_by_day_roundabout : ¬∀ (path : Text) (keep : Nat) (source : TimeSource)
    (clock : Clock) (log : LogFile) (fs' : FileSystem) (entries : List (Clock × Text)) (w : Work),
    0 ∉ path → IsOffset clock.offset →
    create clock path (.daily keep source) FileSystem.empty = (.ok log, fs') →
    (∀ c ∈ clock :: entries.map (·.1), source.Reads clock.offset c) →
    (clock :: entries.map (·.1)).Pairwise (fun c c' => source.now c ≤ source.now c') →
    Work.writeAll? entries ⟨log, fs', []⟩ = some w →
    let days := source.day clock :: (source.dated entries).map (·.1)
    let today := days.getLast (List.cons_ne_nil _ _)
    let kept := newest keep (days.dedup.filter (· < today))
    ∀ day ∈ kept, w.files.contentAt (Work.datedBackup path (dayText day)) =
      some (Diary.writtenOn day (source.dated entries)) := by
  intro hall
  have hsome : (Work.writeAll? fourDays ⟨roundaboutLog, roundaboutFiles, []⟩).isSome = true := by
    cbv
  obtain ⟨w, hrun⟩ := Option.isSome_iff_exists.mp hsome
  have hkept := hall roundaboutPath 1 .wall ⟨0, 0, 0⟩ roundaboutLog roundaboutFiles fourDays w
    (by decide) ⟨by decide, by decide⟩ rfl reads_fourDays (by decide) hrun 1 (by decide)
  have hgone : (Work.writeAll? fourDays ⟨roundaboutLog, roundaboutFiles, []⟩).map
      (·.files.contentAt (Work.datedBackup roundaboutPath (dayText 1))) = some none := by cbv
  rw [hrun, Option.map_some, hkept] at hgone
  cases hgone

/-- Whatever its clock does, a daily log file that keeps all backups loses nothing and changes no
order, and every rotation goes to a later date than the one before. -/
theorem writeAll_keeps_order (hsound : fs.Sound) (hdistinct : fs.Distinct) (hpath : 0 ∉ path)
    (hoffset : IsOffset clock.offset)
    (hcreate : create clock path (.daily 0 source) fs = (.ok log, fs')) {file : File}
    (hfile : fs'.fileAt? path = some file)
    (hmodified : file.content.size ≠ 0 →
      0 ≤ file.modified ∧ file.modified * 1000000000 < 9223372036854775808)
    (hnone : backupDates fs' path = [])
    (hclocks : ∀ c ∈ clock :: entries.map (·.1), source.Reads clock.offset c)
    (hrun : Work.writeAll? entries ⟨log, fs', []⟩ = some w) :
    (Work.rotationDates entries ⟨log, fs', []⟩).Pairwise Text.Before ∧
      chronicle w.files path = file.content.toList ++ (entries.map (·.2)).flatten := by
  have hreads : source.Reads clock.offset clock := hclocks clock List.mem_cons_self
  obtain ⟨rfl, dir, name, hcreated⟩ := create_reflects hsound hdistinct hpath hoffset hcreate hfile
    (hasMidnight_startTime hreads.hasMidnight hmodified)
  have hentries : ∀ e ∈ entries, source.Reads clock.offset e.1 :=
    fun e he => hclocks _ (List.mem_cons_of_mem _ (List.mem_map_of_mem he))
  obtain ⟨hlast, hsame⟩ := hcreated.writeAll hoffset (fun hkeep => absurd rfl hkeep) hentries hrun
  have hdates := hcreated.closed_run hoffset hentries hrun
  constructor
  · have hbefore := hlast.before_closed
    rw [hdates] at hbefore
    exact hbefore
  · have hchronicle := hlast.chronicle_eq (hsame ▸ hcreated.site) (hsame ▸ hnone)
    rw [show w.log.path = log.path from hsame, Diary.text_run, TimeSource.texts_dated] at hchronicle
    rw [hchronicle]
    simp [Diary.start, Diary.text, Diary.pages]

def oldFiles : FileSystem := ⟨[([Text.ascii "a.log"], .file 0)], [⟨#[120], 0⟩], .ample⟩

theorem oldFiles_sound : oldFiles.Sound := by
  have hentry : Location.IsEntry [Text.ascii "a.log"] := ⟨by decide, by decide⟩
  have hnode : oldFiles.node? = Function.update FileSystem.empty.node? ([] ++ [Text.ascii "a.log"])
      (some (.file 0)) := node?_set hentry (.file 0) FileSystem.empty
  refine (Follows.place empty_sound rfl (by decide) hnode (by decide) fun n hn => ?_).sound
  cases hn
  refine ⟨by decide, fun other hother => ?_⟩
  exact absurd (empty_sound.inhabited hother) (Nat.not_lt_zero 0)

def unsteadyDays : List (Clock × Text) :=
  [(⟨345600000000000, 0, 0⟩, Text.ascii "a"), (⟨86400000000000, 0, 0⟩, Text.ascii "b"),
    (⟨432000000000000, 0, 0⟩, Text.ascii "c")]

theorem writeAll_keeps_order_unsteadyDays :
    create ⟨345600000000000, 0, 0⟩ (Text.ascii "a.log") (.daily 0 .wall) oldFiles =
        (.ok { epochLog 0 with size := 1 }, oldFiles) ∧
      ∃ w, Work.writeAll? unsteadyDays ⟨{ epochLog 0 with size := 1 }, oldFiles, []⟩ = some w ∧
        Work.rotationDates unsteadyDays ⟨{ epochLog 0 with size := 1 }, oldFiles, []⟩ =
          [Text.ascii "1970-01-01", Text.ascii "1970-01-05"] ∧
        chronicle w.files (Text.ascii "a.log") = Text.ascii "xabc" := by
  have hcreate : create ⟨345600000000000, 0, 0⟩ (Text.ascii "a.log") (.daily 0 .wall) oldFiles =
      (.ok { epochLog 0 with size := 1 }, oldFiles) := rfl
  have hsome : (Work.writeAll? unsteadyDays
      ⟨{ epochLog 0 with size := 1 }, oldFiles, []⟩).isSome = true := by decide
  obtain ⟨w, hrun⟩ := Option.isSome_iff_exists.mp hsome
  have hclocks : ∀ c ∈ (⟨345600000000000, 0, 0⟩ : Clock) :: unsteadyDays.map (·.1),
      TimeSource.wall.Reads 0 c := by
    simp only [unsteadyDays, List.map_cons, List.map_nil, List.forall_mem_cons]
    refine ⟨⟨rfl, by decide, by decide⟩, ⟨rfl, by decide, by decide⟩, ⟨rfl, by decide, by decide⟩,
      ⟨rfl, by decide, by decide⟩, List.forall_mem_nil _⟩
  have hfile : oldFiles.fileAt? (Text.ascii "a.log") = some ⟨#[120], 0⟩ := rfl
  obtain ⟨hdates, hchronicle⟩ := writeAll_keeps_order oldFiles_sound (List.nodup_singleton _)
    (by decide) ⟨by decide, by decide⟩ hcreate hfile (by decide) (by cbv) hclocks hrun
  refine ⟨hcreate, w, hrun, by decide, hchronicle.trans (by decide)⟩

end LogFile

end StructuredLog
