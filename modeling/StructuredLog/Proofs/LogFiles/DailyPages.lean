import StructuredLog.Proofs.LogFiles.DailyRotation
import StructuredLog.Proofs.LogFiles.Diary
import StructuredLog.Proofs.LogFiles.Pruning
import StructuredLog.Proofs.LogFiles.SizeRotation
import StructuredLog.Proofs.Time.Dates

/-!
# A daily log file keeps a diary

The file at the path of a daily log file is the open page of a diary, and the dated backups are
its closed pages. What ties the two is that the date of the period is that of the open page and
that the period ends at the midnight after it. Main statements: `Reflects.write` for one write,
`Reflects.writeAll` for a run, and `create_reflects` for a log file that was just opened.
-/

namespace StructuredLog

open FileSystem LogFile Calendar Instant

namespace TimeSource

def day (source : TimeSource) (clock : Clock) : Int := localDay clock.offset (source.now clock)

/-- The clock is set to this offset, and shows a time from the epoch on whose next midnight is
representable. -/
structure Reads (source : TimeSource) (offset : Int) (clock : Clock) : Prop where
  offset_eq : clock.offset = offset
  hasMidnight : HasMidnight offset (source.now clock)

def dated (source : TimeSource) (entries : List (Clock × Text)) : List (Int × Text) :=
  entries.map fun e => (source.day e.1, e.2)

theorem texts_dated (source : TimeSource) (entries : List (Clock × Text)) :
    (source.dated entries).map (·.2) = entries.map (·.2) := by
  simp [dated, Function.comp_def]

end TimeSource

theorem hasDateShape_dayText {day : Int} (h : FourDigit day) :
    Work.hasDateShape (dayText day) = true := by
  have hall : (dayText day).all Work.isDateOctet = true :=
    List.all_eq_true.mpr fun _ hb => isDateOctet_of_mem_text hb
  obtain ⟨hfirst, hsecond⟩ := getElem?_dayText h
  rw [Work.hasDateShape, length_dayText h, hall, hfirst, hsecond]
  rfl

theorem isLabel_dayText {day : Int} (h : FourDigit day) : FilePath.IsLabel (dayText day) :=
  Work.isLabel_of_hasDateShape (hasDateShape_dayText h)

theorem before_dates {pages : List Page} (hordered : (pages.map (·.day)).Pairwise (· < ·))
    (hfour : ∀ p ∈ pages, FourDigit p.day) :
    pages.Pairwise fun p q => Text.Before (dayText p.day) (dayText q.day) :=
  (List.pairwise_map.mp hordered).imp_of_mem fun hp hq hlt =>
    before_dayText (hfour _ hp) (hfour _ hq) hlt

namespace LogFile

namespace Work

variable {w : Work} {now : Int} {truncate : Bool} {dir : Location} {name : Text}

theorem distinct_drained (hdistinct : w.files.Distinct) (now : Int) : (w.drained now).Distinct := by
  rw [drained]
  split
  · exact hdistinct.write ..
  · exact hdistinct

theorem distinct_reopen (hdistinct : w.files.Distinct)
    (hclean : (w.reopen now truncate).problems = []) : (w.reopen now truncate).files.Distinct := by
  obtain ⟨-, made, target, files, hparent, hopen, hreopen⟩ := reopen_clean hclean
  have hmade := (distinct_drained hdistinct now).makeParent w.log.path
  rw [hparent] at hmade
  rw [hreopen]
  exact Distinct.openFile hmade hopen

theorem distinct_rotateTo (hdistinct : w.files.Distinct) (hsound : w.files.Sound) {target : Text}
    (hclean : (w.rotateTo now target).problems = []) : (w.rotateTo now target).files.Distinct := by
  obtain ⟨files, hrename, hrotate⟩ := rotateTo_ok hclean
  rw [hrotate] at hclean ⊢
  have hmoved : files.Distinct :=
    (distinct_drained hdistinct now).rename (follows_drained hsound now).sound hrename
  exact distinct_reopen (w := { w.close now with files := files }) hmoved hclean

theorem distinct_put (now : Int) (hdistinct : w.files.Distinct) (entry : Text) :
    (put now entry w).2.files.Distinct := by
  rw [put]
  split
  · exact hdistinct
  · dsimp only
    split_ifs
    · exact hdistinct
    · exact hdistinct.write ..
    · exact hdistinct.write ..

end Work

def WithoutBackups (fs : FileSystem) (dir : Location) (name : Text) : Prop :=
  ∀ date, Work.hasDateShape date = true → fs.node? (dir ++ [extended name date]) = none

/-- The dated backups of a file are these pages. Other entries whose names extend that of the file
are those of the file system at the start. -/
structure Shelf (start fs : FileSystem) (path : Text) (dir : Location) (name : Text)
    (pages : List Page) : Prop where
  fits : ∀ p ∈ pages, FilePath.Fits path name (dayText p.day)
  contents : ∀ p ∈ pages, fs.contentOf (dir ++ [extended name (dayText p.day)]) = some p.text
  others : ∀ ext, (∀ p ∈ pages, ext ≠ dayText p.day) →
    fs.node? (dir ++ [extended name ext]) = start.node? (dir ++ [extended name ext])

namespace Shelf

variable {start fs fs' : FileSystem} {path : Text} {dir : Location} {name : Text}
  {pages : List Page}

theorem nil (fs : FileSystem) (path : Text) (dir : Location) (name : Text) :
    Shelf fs fs path dir name [] := ⟨nofun, nofun, fun _ _ => rfl⟩

theorem put (h : Shelf start fs path dir name pages) (hs : fs.Sound) {n : Nat}
    (hself : fs.node? (dir ++ [name]) = some (.file n)) (hnode : fs'.node? = fs.node?)
    (hfiles : ∀ m, m ≠ n → fs'.files[m]? = fs.files[m]?) : Shelf start fs' path dir name pages where
  fits := h.fits
  contents := by
    intro p hp
    rw [← h.contents p hp]
    exact (hs.untouched hself hnode hfiles (Shared.backup_ne dir name _)).contentOf_eq
  others := fun ext hext => by rw [hnode, h.others ext hext]

theorem rotate (h : Shelf start fs path dir name pages) (hs : fs.Sound) {p : Page} {n : Nat}
    {new : File} (hfits : FilePath.Fits path name (dayText p.day))
    (hself : fs.node? (dir ++ [name]) = some (.file n))
    (htext : fs.contentOf (dir ++ [name]) = some p.text)
    (hnew : ∀ q ∈ pages, dayText q.day ≠ dayText p.day) (hfiles : fs'.files = fs.files ++ [new])
    (hnode : fs'.node? = Function.update
      (Function.update fs.node? (dir ++ [extended name (dayText p.day)]) (some (.file n)))
      (dir ++ [name]) (some (.file fs.files.length))) :
    Shelf start fs' path dir name (pages ++ [p]) := by
  have hother : ∀ ext, ext ≠ dayText p.day →
      fs'.node? (dir ++ [extended name ext]) = fs.node? (dir ++ [extended name ext]) := by
    intro ext hext
    have hne : dir ++ [extended name ext] ≠ dir ++ [extended name (dayText p.day)] :=
      fun heq => hext (extended_injective (Location.last_eq heq))
    rw [hnode, Function.update_of_ne (Shared.backup_ne dir name ext), Function.update_of_ne hne]
  have hbackup : fs'.node? (dir ++ [extended name (dayText p.day)]) = fs.node? (dir ++ [name]) := by
    rw [hnode, Function.update_of_ne (Shared.backup_ne dir name _), Function.update_self, hself]
  have hkept : ∀ {loc m}, fs.node? loc = some (.file m) → fs'.files[m]? = fs.files[m]? := by
    intro loc m hm
    rw [hfiles, List.getElem?_append_left (hs.inhabited hm)]
  refine ⟨fun q hq => ?_, fun q hq => ?_, fun ext hext => ?_⟩
  · rcases List.mem_append.mp hq with hold | hlast
    · exact h.fits q hold
    · rw [List.mem_singleton.mp hlast]
      exact hfits
  · rcases List.mem_append.mp hq with hold | hlast
    · rw [← h.contents q hold]
      exact contentOf_congr (hother _ (hnew q hold)) fun m hm => hkept hm
    · rw [List.mem_singleton.mp hlast, ← htext]
      exact contentOf_congr hbackup fun m hm => hkept hm
  · rw [hother ext (hext p (by simp)), h.others ext fun q hq => hext q (List.mem_append_left _ hq)]

theorem stands_iff (h : Shelf start fs path dir name pages) (ext : Text) :
    fs.node? (dir ++ [extended name ext]) ≠ none ↔
      start.node? (dir ++ [extended name ext]) ≠ none ∨ ∃ p ∈ pages, ext = dayText p.day := by
  by_cases hpage : ∃ p ∈ pages, ext = dayText p.day
  · refine iff_of_true ?_ (.inr hpage)
    obtain ⟨p, hp, rfl⟩ := hpage
    intro hnone
    have hcontent := h.contents p hp
    rw [contentOf, hnone] at hcontent
    cases hcontent
  · rw [h.others ext fun p hp heq => hpage ⟨p, hp, heq⟩, or_iff_left hpage]

theorem dated_iff (h : Shelf start fs path dir name pages) (hbare : WithoutBackups start dir name)
    {date : Text} (hshape : Work.hasDateShape date = true) :
    fs.node? (dir ++ [extended name date]) ≠ none ↔ ∃ p ∈ pages, date = dayText p.day := by
  rw [h.stands_iff, or_iff_right]
  exact fun hstands => hstands (hbare date hshape)

theorem sorted_backups (h : Shelf start fs path dir name pages) (hsite : Site fs path dir name)
    (hdistinct : fs.Distinct) (hbare : WithoutBackups start dir name)
    (hordered : (pages.map (·.day)).Pairwise (· < ·)) (hfour : ∀ p ∈ pages, FourDigit p.day) :
    ((fs.namesIn dir).filter (Work.isDatedBackup name)).mergeSort Text.le =
      pages.map fun p => extended name (dayText p.day) := by
  have hbefore : (pages.map fun p => extended name (dayText p.day)).Pairwise Text.Before :=
    List.pairwise_map.mpr ((before_dates hordered hfour).imp (Text.before_append_left _).mpr)
  refine Text.mergeSort_eq ((hdistinct.nodup_namesIn dir).filter _) hbefore fun t => ?_
  have hmem : ∀ ext, extended name ext ∈ fs.namesIn dir ↔
      fs.node? (dir ++ [extended name ext]) ≠ none :=
    fun ext => mem_namesIn_iff_node? (hsite.names.isEntry_extended ext)
  rw [List.mem_filter, Work.isDatedBackup_iff, List.mem_map]
  constructor
  · rintro ⟨hlisted, ext, rfl, hshape⟩
    obtain ⟨p, hp, rfl⟩ := (h.dated_iff hbare hshape).mp ((hmem ext).mp hlisted)
    exact ⟨p, hp, rfl⟩
  · rintro ⟨p, hp, rfl⟩
    exact ⟨(hmem _).mpr ((h.stands_iff _).mpr (.inr ⟨p, hp, rfl⟩)), _, rfl,
      hasDateShape_dayText (hfour p hp)⟩

theorem outdated_eq (h : Shelf start fs path dir name pages) (hsite : Site fs path dir name)
    (hdistinct : fs.Distinct) {keep : Nat}
    (hbare : keep ≠ 0 → WithoutBackups start dir name)
    (hordered : (pages.map (·.day)).Pairwise (· < ·)) (hfour : ∀ p ∈ pages, FourDigit p.day) :
    ∃ old, pages = old ++ newest keep pages ∧ (keep = 0 → old = []) ∧
      Work.outdated keep fs dir name = old.map fun p => extended name (dayText p.day) := by
  rw [Work.outdated, newest]
  split_ifs with hkeep
  · exact ⟨[], rfl, fun _ => rfl, rfl⟩
  · refine ⟨pages.take (pages.length - keep), (List.take_append_drop _ _).symm,
      fun h => absurd h hkeep, ?_⟩
    rw [Work.doomed, h.sorted_backups hsite hdistinct (hbare hkeep) hordered hfour, List.length_map,
      List.map_take]

theorem spares (h : Shelf start fs path dir name pages) {p : Page} (hp : p ∈ pages) :
    Work.Spares fs path dir (extended name (dayText p.day)) := by
  -- A page is a file, so the way to the path does not lead through it.
  left
  intro hdir
  have hcontent := h.contents p hp
  rw [contentOf, hdir] at hcontent
  cases hcontent

theorem clear (h : Shelf start fs path dir name pages) {old kept : List Page}
    (hsplit : pages = old ++ kept) (hordered : (pages.map (·.day)).Pairwise (· < ·))
    (hfour : ∀ p ∈ pages, FourDigit p.day)
    (hbare : ∀ p ∈ old, start.node? (dir ++ [extended name (dayText p.day)]) = none)
    (hclears : Work.Clears fs fs' dir (old.map fun p => extended name (dayText p.day))) :
    Shelf start fs' path dir name kept := by
  subst hsplit
  have hkept : ∀ ext, (∀ p ∈ old, ext ≠ dayText p.day) →
      fs'.node? (dir ++ [extended name ext]) = fs.node? (dir ++ [extended name ext]) := by
    intro ext hext
    refine hclears.kept _ fun other hother heq => ?_
    obtain ⟨p, hp, rfl⟩ := List.mem_map.mp hother
    exact hext p hp (extended_injective (Location.last_eq heq))
  refine ⟨fun p hp => h.fits p (List.mem_append_right _ hp), fun p hp => ?_, fun ext hext => ?_⟩
  · rw [← h.contents p (List.mem_append_right _ hp)]
    refine contentOf_congr (hkept _ fun q hq heq => ?_) fun m _ => by rw [hclears.files_eq]
    rw [List.map_append, List.pairwise_append] at hordered
    have hlt := hordered.2.2 _ (List.mem_map_of_mem hq) _ (List.mem_map_of_mem hp)
    have hsame := dayText_injective (hfour p (List.mem_append_right _ hp))
      (hfour q (List.mem_append_left _ hq)) heq
    rw [hsame] at hlt
    exact absurd hlt (Int.lt_irrefl _)
  · by_cases hold : ∃ p ∈ old, ext = dayText p.day
    · obtain ⟨p, hp, rfl⟩ := hold
      rw [hclears.gone _ (List.mem_map_of_mem hp), hbare p hp]
    · have hnot : ∀ p ∈ old, ext ≠ dayText p.day := fun p hp heq => hold ⟨p, hp, heq⟩
      rw [hkept ext hnot, h.others ext fun p hp =>
        (List.mem_append.mp hp).elim (hnot p) (hext p)]

end Shelf

/-- The diary whose open page is the file at the path and whose closed pages are the dated
backups, with a period that ends when the day of the open page does. -/
structure Reflects (start : FileSystem) (keep : Nat) (source : TimeSource) (offset : Int) (w : Work)
    (dir : Location) (name : Text) (d : Diary) : Prop where
  site : Site w.files w.log.path dir name
  distinct : w.files.Distinct
  rotation : w.log.rotation =
    .daily keep source ⟨dayText d.today.day, midnightAfter offset d.today.day⟩
  stream : ∃ n file, w.log.stream = some ⟨.file n, none, none⟩ ∧
    w.files.node? (dir ++ [name]) = some (.file n) ∧ w.files.files[n]? = some file ∧
    file.content.toList = d.today.text
  ordered : d.Ordered
  fourDigit : ∀ p ∈ d.pages, FourDigit p.day
  shelf : Shelf start w.files w.log.path dir name d.closed

namespace Reflects

variable {start : FileSystem} {keep : Nat} {source : TimeSource} {offset : Int} {w w' : Work}
  {dir : Location} {name : Text} {d : Diary}

theorem content (h : Reflects start keep source offset w dir name d) :
    w.files.contentOf (dir ++ [name]) = some d.today.text := by
  obtain ⟨n, file, -, hnode, hfile, htext⟩ := h.stream
  rw [contentOf_file hnode hfile, htext]

theorem contentAt_path (h : Reflects start keep source offset w dir name d) :
    w.files.contentAt w.log.path = some d.today.text := by
  rw [h.site.names.contentAt_eq, h.content]

theorem names_backup (h : Reflects start keep source offset w dir name d) {p : Page}
    (hp : p ∈ d.closed) : w.files.Names (Work.datedBackup w.log.path (dayText p.day)) dir
      (extended name (dayText p.day)) :=
  h.site.names_withSuffix (isLabel_dayText (h.fourDigit p (List.mem_append_left _ hp)))
    (h.shelf.fits p hp)

theorem contentAt_backup (h : Reflects start keep source offset w dir name d) {p : Page}
    (hp : p ∈ d.closed) :
    w.files.contentAt (Work.datedBackup w.log.path (dayText p.day)) = some p.text := by
  rw [(h.names_backup hp).contentAt_eq, h.shelf.contents p hp]

theorem before_closed (h : Reflects start keep source offset w dir name d) :
    (d.closed.map fun p => dayText p.day).Pairwise Text.Before := by
  have hordered := h.ordered
  rw [Diary.Ordered, Diary.pages, List.map_append, List.pairwise_append] at hordered
  exact List.pairwise_map.mpr
    (before_dates hordered.1 fun p hp => h.fourDigit p (List.mem_append_left _ hp))

theorem isWritable (h : Reflects start keep source offset w dir name d) :
    w.isWritable = true := by
  obtain ⟨n, file, hstream, -⟩ := h.stream
  rw [Work.isWritable, hstream]
  rfl

theorem flushes (h : Reflects start keep source offset w dir name d) : w.log.flushes = true := by
  obtain ⟨n, file, hstream, -⟩ := h.stream
  rw [LogFile.flushes, hstream]
  rfl

theorem put (h : Reflects start keep source offset w dir name d) {now : Int} {entry : Text}
    (hput : Work.put now entry w = (true, w')) :
    Reflects start keep source offset w' dir name
        ⟨d.closed, ⟨d.today.day, d.today.text ++ entry⟩⟩ ∧ w'.log.path = w.log.path := by
  obtain ⟨n, file, hstream, hnode, hfile, htext⟩ := h.stream
  obtain ⟨files, hfollows, hnodes, -, hself, hothers, hresult⟩ :=
    Work.put_file h.site.sound hstream hfile rfl hput
  have hdistinct := Work.distinct_put now h.distinct entry
  rw [hput] at hdistinct
  cases hresult
  refine ⟨⟨h.site.follows hfollows, hdistinct, h.rotation, ⟨n, _, rfl, ?_, hself, ?_⟩, ?_, ?_, ?_⟩,
    rfl⟩
  · rw [hnodes, hnode]
  · rw [File.append, Array.toList_appendList, htext]
  · simpa [Diary.Ordered, Diary.pages] using h.ordered
  · intro p hp
    rcases List.mem_append.mp hp with hclosed | htoday
    · exact h.fourDigit p (List.mem_append_left _ hclosed)
    · rw [List.mem_singleton.mp htoday]
      exact h.fourDigit d.today (by simp [Diary.pages])
  · exact h.shelf.put h.site.sound hnode hnodes hothers

theorem dayText_ne (h : Reflects start keep source offset w dir name d) {p : Page}
    (hp : p ∈ d.closed) : dayText p.day ≠ dayText d.today.day := by
  intro heq
  have hsame := dayText_injective (h.fourDigit p (List.mem_append_left _ hp))
    (h.fourDigit d.today (by simp [Diary.pages])) heq
  have hlt := h.ordered.day_lt hp
  rw [hsame] at hlt
  exact absurd hlt (Int.lt_irrefl _)

theorem rotateTo (h : Reflects start keep source offset w dir name d) {now : Int}
    (hclean : (w.rotateTo now (Work.datedBackup w.log.path (dayText d.today.day))).problems = []) :
    ∃ n files, Site files w.log.path dir name ∧ files.Distinct ∧
      files.node? (dir ++ [name]) = some (.file n) ∧ files.files[n]? = some ⟨#[], now⟩ ∧
      Shelf start files w.log.path dir name d.pages ∧
      w.rotateTo now (Work.datedBackup w.log.path (dayText d.today.day)) = { w with
        files := files
        log := { w.log with stream := some ⟨.file n, none, none⟩, size := 0 } } := by
  obtain ⟨n, file, -, hnode, -, -⟩ := h.stream
  have hdistinct := Work.distinct_rotateTo h.distinct h.site.sound hclean
  obtain ⟨-, files, hnames, hfollows, hfiles, hnodes, hrotate⟩ :=
    Work.rotateTo_clean h.flushes h.site
      hnode (isLabel_dayText (h.fourDigit d.today (by simp [Diary.pages]))) hclean
  have hrotate' : w.rotateTo now (Work.datedBackup w.log.path (dayText d.today.day)) = _ := hrotate
  rw [hrotate'] at hdistinct
  refine ⟨_, files, h.site.follows hfollows, hdistinct, ?_, ?_, ?_, hrotate'⟩
  · rw [hnodes, Function.update_self]
  · rw [hfiles]
    simp
  · exact h.shelf.rotate h.site.sound hnames.fits hnode h.content (fun p hp => h.dayText_ne hp)
      hfiles hnodes

/-- Closing the open page: the file moves to the backup of its day, old backups go, and an empty
file is there for the new day. -/
theorem turn (h : Reflects start keep source offset w dir name d)
    (hbare : keep ≠ 0 → WithoutBackups start dir name) {now day : Int}
    (hday : d.today.day < day) (hfour : FourDigit day)
    (hclean : ((w.rotateTo now (Work.datedBackup w.log.path (dayText d.today.day))).prune
      keep).problems = []) :
    let turned := (w.rotateTo now (Work.datedBackup w.log.path (dayText d.today.day))).prune keep
    Reflects start keep source offset { turned with log := { turned.log with
        rotation := .daily keep source ⟨dayText day, midnightAfter offset day⟩ } } dir name
        ⟨newest keep d.pages, ⟨day, []⟩⟩ ∧ turned.log.path = w.log.path := by
  intro turned
  obtain ⟨n, files, hsite, hdistinct, hnode, hfile, hshelf, hrotate⟩ :=
    h.rotateTo (Work.problems_prune hclean)
  rw [hrotate] at hclean
  obtain ⟨old, hsplit, hnone, hold⟩ :=
    hshelf.outdated_eq hsite hdistinct hbare h.ordered h.fourDigit
  have hspares : ∀ other ∈ Work.outdated keep files dir name,
      Work.Spares files w.log.path dir other := by
    intro other hother
    rw [hold] at hother
    obtain ⟨p, hp, rfl⟩ := List.mem_map.mp hother
    exact hshelf.spares (hsplit ▸ List.mem_append_left _ hp)
  obtain ⟨files', hsite', hdistinct', hclears, hprune⟩ := Work.prune_clean hsite hspares hclean
  have hturned : turned = _ := (congrArg (Work.prune keep) hrotate).trans hprune
  rw [hturned]
  have hwritten : d.write keep day [] = ⟨newest keep d.pages, ⟨day, []⟩⟩ := by
    rw [Diary.write, if_neg (Int.not_le.mpr hday), Diary.pages]
  refine ⟨⟨hsite', hdistinct' hdistinct, rfl, ⟨n, ⟨#[], now⟩, rfl, ?_, ?_, rfl⟩, ?_, ?_, ?_⟩, rfl⟩
  · show files'.node? (dir ++ [name]) = _
    rw [hclears.kept, hnode]
    -- Pruning removes backups only, so the new file stays.
    rintro other hother heq
    obtain ⟨ext, rfl, -⟩ := Work.exists_of_mem_outdated hother
    exact Shared.backup_ne dir name ext heq.symm
  · show files'.files[n]? = _
    rw [hclears.files_eq, hfile]
  · exact hwritten ▸ h.ordered.write keep day []
  · intro p hp
    rcases List.mem_append.mp hp with hclosed | hlast
    · exact h.fourDigit p ((newest_suffix keep _).subset hclosed)
    · rw [List.mem_singleton.mp hlast]
      exact hfour
  · refine hshelf.clear hsplit h.ordered h.fourDigit ?_ (hold ▸ hclears)
    intro p hp
    refine hbare (fun hkeep => ?_) _ (hasDateShape_dayText (h.fourDigit p ?_))
    · rw [hnone hkeep] at hp
      cases hp
    · rw [hsplit]
      exact List.mem_append_left _ hp

theorem lt_rollover_iff {clock : Clock} (hclock : source.Reads offset clock) (day : Int) :
    source.now clock < midnightAfter offset day ↔ source.day clock ≤ day := by
  rw [TimeSource.day, hclock.offset_eq]
  exact lt_midnightAfter_iff hclock.hasMidnight.nonneg

theorem containing_eq {clock : Clock} (hclock : source.Reads offset clock) :
    Period.containing clock.offset (source.now clock) =
      ⟨dayText (source.day clock), midnightAfter offset (source.day clock)⟩ := by
  rw [Period.containing, TimeSource.day, hclock.offset_eq, hclock.hasMidnight.nextMidnight_eq]
  rfl

theorem fourDigit_day {clock : Clock} (hoffset : IsOffset offset)
    (hclock : source.Reads offset clock) : FourDigit (source.day clock) := by
  rw [TimeSource.day, hclock.offset_eq]
  exact hclock.hasMidnight.fourDigit hoffset

theorem beforeWrite_eq (h : Reflects start keep source offset w dir name d) {clock : Clock}
    (hclock : source.Reads offset clock) (size : Nat) : w.beforeWrite clock size =
      if source.day clock ≤ d.today.day then w
      else
        let turned := (w.rotateTo (floorSeconds clock.wall)
          (Work.datedBackup w.log.path (dayText d.today.day))).prune keep
        let period : Period := ⟨dayText (source.day clock), midnightAfter offset (source.day clock)⟩
        { turned with log := { turned.log with rotation := .daily keep source period } } := by
  rw [Work.beforeWrite, h.rotation]
  simp only [lt_rollover_iff hclock, containing_eq hclock]

/-- A write to the log file is a write in the diary, on the day that the clock shows. -/
theorem write (h : Reflects start keep source offset w dir name d) (hoffset : IsOffset offset)
    (hbare : keep ≠ 0 → WithoutBackups start dir name) {clock : Clock}
    (hclock : source.Reads offset clock) {entry : Text}
    (hwrite : w.write clock entry = (true, w')) (hclean : w'.problems = []) :
    Reflects start keep source offset w' dir name (d.write keep (source.day clock) entry) ∧
      w'.log.path = w.log.path := by
  obtain ⟨hbefore, hput⟩ := Work.write_clean hwrite hclean
  rw [h.beforeWrite_eq hclock] at hbefore hput
  rw [Diary.write]
  by_cases hday : source.day clock ≤ d.today.day
  · rw [if_pos hday] at hput ⊢
    exact h.put (hput h.isWritable)
  · rw [if_neg hday] at hbefore hput ⊢
    obtain ⟨hturned, hpath⟩ :=
      h.turn hbare (Int.not_le.mp hday) (fourDigit_day hoffset hclock) hbefore
    obtain ⟨hwritten, hpath'⟩ := hturned.put (hput hturned.isWritable)
    exact ⟨hwritten, hpath'.trans hpath⟩

theorem writeAll (h : Reflects start keep source offset w dir name d) (hoffset : IsOffset offset)
    (hbare : keep ≠ 0 → WithoutBackups start dir name)
    {entries : List (Clock × Text)} (hclocks : ∀ e ∈ entries, source.Reads offset e.1)
    (hrun : w.writeAll? entries = some w') :
    Reflects start keep source offset w' dir name
        (d.run keep (source.dated entries)) ∧ w'.log.path = w.log.path := by
  induction entries generalizing w d with
  | nil =>
    cases hrun
    exact ⟨h, rfl⟩
  | cons e entries ih =>
    obtain ⟨clock, entry⟩ := e
    obtain ⟨middle, hwrite, hclean, hrest⟩ := Work.writeAll?_cons_eq_some.mp hrun
    obtain ⟨hmiddle, hpath⟩ := h.write hoffset hbare (hclocks _ List.mem_cons_self) hwrite hclean
    obtain ⟨hlast, hpath'⟩ :=
      ih hmiddle (fun e he => hclocks e (List.mem_cons_of_mem _ he)) hrest
    exact ⟨hlast, hpath'.trans hpath⟩

end Reflects

/-- The time from which the period of a file counts: that of its last modification, if it holds
something and this time is past. -/
def startTime (source : TimeSource) (clock : Clock) (file : File) : Instant :=
  if file.content.size = 0 then source.now clock
  else min (source.now clock) (ofSeconds file.modified)

theorem startRotation_daily {clock : Clock} {keep : Nat} {source : TimeSource} (file : File) :
    startRotation clock file.content.size (some file.modified) (.daily keep source) =
      .daily keep source (Period.containing clock.offset (startTime source clock file)) := rfl

theorem distinct_create {clock : Clock} {path : Text} {schedule : Schedule} {fs fs' : FileSystem}
    {log : LogFile} (hs : fs.Sound) (hdistinct : fs.Distinct) (hpath : 0 ∉ path)
    (hcreate : create clock path schedule fs = (.ok log, fs')) : fs'.Distinct := by
  obtain ⟨made, dir, name, target, hparent, -, -, -, -, hopen, -⟩ := create_ok hs hpath hcreate
  have hmade := hdistinct.makeParent path
  rw [hparent] at hmade
  exact Distinct.openFile hmade hopen

theorem create_reflects {clock : Clock} {path : Text} {keep : Nat} {source : TimeSource}
    {fs fs' : FileSystem} {log : LogFile} (hs : fs.Sound) (hdistinct : fs.Distinct)
    (hpath : 0 ∉ path) (hoffset : IsOffset clock.offset)
    (hcreate : create clock path (.daily keep source) fs = (.ok log, fs')) {file : File}
    (hfile : fs'.fileAt? path = some file)
    (htime : HasMidnight clock.offset (startTime source clock file)) :
    log.path = path ∧ ∃ dir name, Reflects fs' keep source clock.offset ⟨log, fs', []⟩ dir name
      (Diary.start (localDay clock.offset (startTime source clock file)) file.content.toList) := by
  obtain ⟨dir, name, n, hsite, hnode, hcontent, rfl⟩ := create_file hs hpath hcreate hfile
  refine ⟨rfl, dir, name, hsite, distinct_create hs hdistinct hpath hcreate, ?_,
    ⟨n, file, rfl, hnode, hcontent, rfl⟩, Diary.start_ordered _ _, ?_, .nil _ _ _ _⟩
  · rw [startRotation_daily, Period.containing, htime.nextMidnight_eq]
    rfl
  · intro p hp
    have hday : p = ⟨localDay clock.offset (startTime source clock file), file.content.toList⟩ :=
      List.mem_singleton.mp hp
    rw [hday]
    exact htime.fourDigit hoffset

end LogFile

end StructuredLog
