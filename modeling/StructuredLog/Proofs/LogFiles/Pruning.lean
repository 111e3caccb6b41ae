import StructuredLog.Proofs.Files.Moves
import StructuredLog.Proofs.LogFiles.Reopening
import StructuredLog.Proofs.Text.Order

/-!
# Pruning dated backups

Pruning removes the entries with the oldest dates from the directory of the path and touches
nothing else. A path keeps leading to its file, unless it enters one of them only to leave it again
at once: such a directory can be empty.
-/

namespace StructuredLog

open FileSystem LogFile

namespace FilePath

structure Fits (path name ext : Text) : Prop where
  short : isTooLong (withSuffix path ext) = false
  name_short : (extended name ext).length ≤ maxName

theorem Fits.of_length_le {path name ext other : Text} (h : Fits path name ext) (hpath : 0 ∉ path)
    (hext : IsLabel ext) (hother : IsLabel other) (hle : other.length ≤ ext.length) :
    Fits path name other := by
  have huncut : ∀ {label}, IsLabel label →
      Text.untilNul (withSuffix path label) = withSuffix path label := by
    intro label hlabel
    refine Text.untilNul_of_not_mem ?_
    simp [withSuffix, dot, hpath, hlabel.nul_not_mem]
  obtain ⟨hshort, hname⟩ := h
  rw [isTooLong, decide_eq_false_iff_not, huncut hext] at hshort
  refine ⟨?_, ?_⟩
  · rw [isTooLong, decide_eq_false_iff_not, huncut hother]
    simp only [withSuffix, List.length_append] at hshort ⊢
    omega
  · simp only [extended, List.length_append] at hname ⊢
    omega

end FilePath

theorem FileSystem.Names.fits {fs : FileSystem} {path : Text} {dir : Location} {name ext : Text}
    (h : fs.Names (FilePath.withSuffix path ext) dir (extended name ext)) :
    FilePath.Fits path name ext := by
  obtain ⟨hname, front, r⟩ := h.route
  exact ⟨r.short, hname⟩

theorem Site.names_withSuffix {fs : FileSystem} {path : Text} {dir : Location} {name ext : Text}
    (h : Site fs path dir name) (hext : FilePath.IsLabel ext)
    (hfits : FilePath.Fits path name ext) :
    fs.Names (FilePath.withSuffix path ext) dir (extended name ext) := by
  obtain ⟨-, front, r⟩ := h.names.route
  exact (r.withSuffix h.no_nul hext hfits.short).names hfits.name_short

namespace LogFile.Work

theorem isDatedBackup_iff {fileName name : Text} : isDatedBackup fileName name = true ↔
    ∃ ext, name = extended fileName ext ∧ hasDateShape ext = true := by
  rw [isDatedBackup, Bool.and_eq_true, List.isPrefixOf_iff_prefix]
  constructor
  · rintro ⟨⟨ext, rfl⟩, hshape⟩
    rw [List.drop_left] at hshape
    exact ⟨ext, rfl, hshape⟩
  · rintro ⟨ext, rfl, hshape⟩
    refine ⟨⟨ext, rfl⟩, ?_⟩
    rw [extended, List.drop_left]
    exact hshape

theorem isLabel_of_hasDateShape {ext : Text} (h : hasDateShape ext = true) :
    FilePath.IsLabel ext := by
  simp only [hasDateShape, Bool.and_eq_true, beq_iff_eq, List.all_eq_true] at h
  obtain ⟨⟨⟨hlength, hall⟩, -⟩, -⟩ := h
  refine ⟨?_, fun hmem => absurd (hall _ hmem) (by decide),
    fun hmem => absurd (hall _ hmem) (by decide)⟩
  rintro rfl
  cases hlength

/-- The entry of this name is no directory, or one that the path does not enter only to leave it
again at once. -/
def Spares (fs : FileSystem) (path : Text) (dir : Location) (other : Text) : Prop :=
  fs.node? (dir ++ [other]) ≠ some .directory ∨
    dir ++ [other] ∉ Location.detours (Location.start path) (FilePath.components path)

theorem site_vacate {fs fs' : FileSystem} {path : Text} {dir : Location} {name other : Text}
    (h : Site fs path dir name) (hspares : Spares fs path dir other) (hs : fs'.Sound)
    (hempty : ∀ below, fs.node? (dir ++ [other] ++ [below]) = none)
    (hnode : fs'.node? = Function.update fs.node? (dir ++ [other]) none) :
    Site fs' path dir name := by
  obtain ⟨hname, front, r⟩ := h.names.route
  rw [Spares, r.components_eq] at hspares
  have hspares' : fs.node? (dir ++ [other]) ≠ some .directory ∨
      dir ++ [other] ∉ Location.detours (Location.start path) front :=
    hspares.imp_right fun hnot hmem => hnot (Location.detours_subset_append _ _ _ hmem)
  have hne : dir ≠ dir ++ [other] := fun heq =>
    List.cons_ne_nil _ _ (List.self_eq_append_right.mp heq)
  have hnames := Route.names
    { r with walk_eq := walk_vacate hnode hempty hspares' hne r.walk_eq } hname
  exact ⟨hs, h.no_nul, hnames.hasParent h.no_nul, hnames⟩

structure Clears (fs fs' : FileSystem) (dir : Location) (names : List Text) : Prop where
  files_eq : fs'.files = fs.files
  gone : ∀ other ∈ names, fs'.node? (dir ++ [other]) = none
  kept : ∀ loc, (∀ other ∈ names, loc ≠ dir ++ [other]) → fs'.node? loc = fs.node? loc

theorem Clears.nil (fs : FileSystem) (dir : Location) : Clears fs fs dir [] :=
  ⟨rfl, nofun, fun _ _ => rfl⟩

theorem Clears.cons {fs middle fs' : FileSystem} {dir : Location} {other : Text}
    {names : List Text} (hfiles : middle.files = fs.files)
    (hnode : middle.node? = Function.update fs.node? (dir ++ [other]) none)
    (h : Clears middle fs' dir names) : Clears fs fs' dir (other :: names) where
  files_eq := h.files_eq.trans hfiles
  gone := by
    intro found hfound
    by_cases hmem : found ∈ names
    · exact h.gone found hmem
    · have hsame : found = other := (List.mem_cons.mp hfound).resolve_right hmem
      have hother : ∀ n ∈ names, dir ++ [found] ≠ dir ++ [n] := by
        rintro n hn heq
        exact hmem (Location.last_eq heq ▸ hn)
      rw [h.kept _ hother, hnode, hsame, Function.update_self]
  kept := by
    intro loc hloc
    rw [h.kept loc fun n hn => hloc n (List.mem_cons_of_mem _ hn), hnode,
      Function.update_of_ne (hloc other List.mem_cons_self)]

variable {w : Work} {dir : Location} {name : Text}

structure Removable (fs : FileSystem) (path : Text) (dir : Location) (other : Text) : Prop where
  isLabel : FilePath.IsLabel other
  ne_dot : other ≠ FilePath.dot
  ne_dotDot : other ≠ FilePath.dotDot
  spares : Spares fs path dir other

theorem Removable.vacate {fs fs' : FileSystem} {path : Text} {other gone : Text}
    (h : Removable fs path dir other)
    (hnode : fs'.node? = Function.update fs.node? (dir ++ [gone]) none) :
    Removable fs' path dir other := by
  refine { h with spares := h.spares.imp_left fun hdir => ?_ }
  rw [hnode]
  by_cases heq : dir ++ [other] = dir ++ [gone]
  · rw [heq, Function.update_self]
    exact (Option.some_ne_none _).symm
  · rwa [Function.update_of_ne heq]

theorem removeBackup_ok {folder other : Text}
    (hclean : (removeBackup folder w other).problems = w.problems) :
    ∃ files, w.files.remove (FilePath.join folder other) = .ok files ∧
      removeBackup folder w other = { w with files := files } := by
  rw [removeBackup] at hclean ⊢
  cases hremove : w.files.remove (FilePath.join folder other) with
  | ok files => exact ⟨files, rfl, rfl⟩
  | error e =>
    rw [hremove] at hclean
    simp [note] at hclean

theorem prefix_removeBackups (folder : Text) (names : List Text) (w : Work) :
    w.problems <+: (names.foldl (removeBackup folder) w).problems := by
  induction names generalizing w with
  | nil => exact List.prefix_rfl
  | cons other names ih =>
    refine List.IsPrefix.trans ?_ (ih _)
    rw [removeBackup]
    split
    · exact List.prefix_rfl
    · exact List.prefix_append _ _

theorem problems_removeBackups {folder : Text} {names : List Text}
    (hclean : (names.foldl (removeBackup folder) w).problems = []) : w.problems = [] :=
  List.prefix_nil.mp (hclean ▸ prefix_removeBackups folder names w)

theorem removeBackup_clean {other : Text} (hsite : Site w.files w.log.path dir name)
    (hother : Removable w.files w.log.path dir other)
    (hclean : (removeBackup (FilePath.folder w.log.path) w other).problems = []) :
    w.problems = [] ∧ ∃ files, Site files w.log.path dir name ∧
      (w.files.Distinct → files.Distinct) ∧ files.files = w.files.files ∧
      files.node? = Function.update w.files.node? (dir ++ [other]) none ∧
      removeBackup (FilePath.folder w.log.path) w other = { w with files := files } := by
  have hproblems : w.problems = [] :=
    List.prefix_nil.mp (hclean ▸ prefix_removeBackups (FilePath.folder w.log.path) [other] w)
  obtain ⟨files, hremove, hstep⟩ := removeBackup_ok (hclean.trans hproblems.symm)
  rcases hsite.names.join hsite.no_nul hother.isLabel hother.ne_dot hother.ne_dotDot with
    hnames | hlong
  · obtain ⟨hs, hfiles, hempty, hnode⟩ := hnames.remove_sound hsite.sound hremove
    exact ⟨hproblems, files, site_vacate hsite hother.spares hs hempty hnode,
      fun hd => hd.remove hremove, hfiles, hnode, hstep⟩
  · simp [FileSystem.remove, hlong] at hremove

theorem removeBackups_clean {names : List Text} (hsite : Site w.files w.log.path dir name)
    (hnames : ∀ other ∈ names, Removable w.files w.log.path dir other)
    (hclean : (names.foldl (removeBackup (FilePath.folder w.log.path)) w).problems = []) :
    ∃ files, Site files w.log.path dir name ∧
      (w.files.Distinct → files.Distinct) ∧ Clears w.files files dir names ∧
      names.foldl (removeBackup (FilePath.folder w.log.path)) w = { w with files := files } := by
  induction names generalizing w with
  | nil => exact ⟨w.files, hsite, id, .nil _ _, rfl⟩
  | cons other names ih =>
    rw [List.foldl_cons] at hclean ⊢
    obtain ⟨-, middle, hsite', hdistinct, hfiles, hnode, hfirst⟩ :=
      removeBackup_clean hsite (hnames other List.mem_cons_self) (problems_removeBackups hclean)
    rw [hfirst] at hclean ⊢
    obtain ⟨files, hsite'', hdistinct', hclears, hrest⟩ :=
      ih (w := { w with files := middle }) hsite'
        (fun n hn => (hnames n (List.mem_cons_of_mem _ hn)).vacate hnode) hclean
    exact ⟨files, hsite'', hdistinct' ∘ hdistinct, .cons hfiles hnode hclears, hrest⟩

def outdated (backups : Nat) (fs : FileSystem) (dir : Location) (name : Text) : List Text :=
  if backups = 0 then [] else doomed backups ((fs.namesIn dir).filter (isDatedBackup name))

theorem exists_of_mem_outdated {backups : Nat} {fs : FileSystem} {other : Text}
    (h : other ∈ outdated backups fs dir name) :
    ∃ ext, other = extended name ext ∧ hasDateShape ext = true := by
  rw [outdated] at h
  split_ifs at h
  · cases h
  · have hmem := (List.take_subset _ _) h
    rw [List.mem_mergeSort, List.mem_filter] at hmem
    exact isDatedBackup_iff.mp hmem.2

theorem removable_of_hasDateShape {fs : FileSystem} {path ext : Text}
    (hsite : Site fs path dir name)
    (hspares : Spares fs path dir (extended name ext)) (hshape : hasDateShape ext = true) :
    Removable fs path dir (extended name ext) := by
  have hlabel := isLabel_of_hasDateShape hshape
  obtain ⟨-, front, r⟩ := hsite.names.route
  have hname := (r.components_parent hsite.no_nul).2
  have hnul : (0 : UInt8) ∉ name := hname ▸ FilePath.nul_not_mem_fileName hsite.no_nul
  have hslash : FilePath.slash ∉ name := hname ▸ FilePath.slash_not_mem_fileName path
  refine ⟨isLabel_extended hnul hslash hlabel, ?_, ?_, hspares⟩
  · exact extended_ne_short r.name_ne_nil hlabel.ne_nil (by decide)
  · exact extended_ne_short r.name_ne_nil hlabel.ne_nil (by decide)

theorem prune_eq (w : Work) (backups : Nat) : w.prune backups = if backups = 0 then w
    else match w.files.list (FilePath.folder w.log.path) with
      | .error e => w.note (.cannotScan (FilePath.folder w.log.path) e)
      | .ok names => (doomed backups (names.filter
          (isDatedBackup (FilePath.fileName w.log.path)))).foldl
          (removeBackup (FilePath.folder w.log.path)) w := rfl

theorem prune_clean {backups : Nat} (hsite : Site w.files w.log.path dir name)
    (hspares : ∀ other ∈ outdated backups w.files dir name, Spares w.files w.log.path dir other)
    (hclean : (w.prune backups).problems = []) :
    ∃ files, Site files w.log.path dir name ∧ (w.files.Distinct → files.Distinct) ∧
      Clears w.files files dir (outdated backups w.files dir name) ∧
      w.prune backups = { w with files := files } := by
  obtain ⟨hname, hlist⟩ := hsite.names.list_folder hsite.no_nul
  have hprune : w.prune backups =
      (outdated backups w.files dir name).foldl (removeBackup (FilePath.folder w.log.path)) w := by
    rw [prune_eq, outdated]
    split_ifs
    · rfl
    · simp only [hlist, hname]
  rw [hprune] at hclean ⊢
  refine removeBackups_clean hsite (fun other hother => ?_) hclean
  obtain ⟨ext, rfl, hshape⟩ := exists_of_mem_outdated hother
  exact removable_of_hasDateShape hsite (hspares _ hother) hshape

theorem problems_prune {backups : Nat} (hclean : (w.prune backups).problems = []) :
    w.problems = [] := by
  rw [prune_eq] at hclean
  split at hclean
  · exact hclean
  split at hclean
  · exact absurd hclean (problems_note w _)
  · exact problems_removeBackups hclean

end LogFile.Work

end StructuredLog
