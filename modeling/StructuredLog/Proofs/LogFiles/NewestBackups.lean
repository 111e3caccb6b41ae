import Mathlib
import StructuredLog.Proofs.Files.Reordering
import StructuredLog.Proofs.LogFiles.Locality

/-!
# The newest backups stay

Pruning sorts the dated backups by name and removes all but the last ones, one after the other. If
nothing fails, those that are left are the newest, whatever else lies in the directory and in
whatever order it is listed. There is one exception: a path can pass through a directory that is
named like an old backup. When this is removed, the path leads nowhere, and removing what is not
there is no failure, so the backups that come after it stay. Main statement: `Work.prune_leaves`.
-/

namespace StructuredLog

open FileSystem LogFile Location

namespace LogFile

def IsBackupName (fileName name : Text) : Prop :=
  ∃ date : Text, name = fileName ++ FilePath.dot ++ date ∧ date.length = 10 ∧
    (∀ b ∈ date, b = 45 ∨ 48 ≤ b ∧ b ≤ 57) ∧ date[4]? = some 45 ∧ date[7]? = some 45

theorem isBackupName_iff {fileName name : Text} :
    IsBackupName fileName name ↔ Work.isDatedBackup fileName name = true := by
  have hshape : ∀ date : Text, Work.hasDateShape date = true ↔ date.length = 10 ∧
      (∀ b ∈ date, b = 45 ∨ 48 ≤ b ∧ b ≤ 57) ∧ date[4]? = some 45 ∧ date[7]? = some 45 := by
    intro date
    simp only [Work.hasDateShape, Work.isDateOctet, Text.isDigit, Bool.and_eq_true, beq_iff_eq,
      List.all_eq_true, Bool.or_eq_true, decide_eq_true_eq, and_assoc]
  simp only [Work.isDatedBackup_iff, hshape]
  rfl

theorem IsBackupName.isLabel {path name : Text} (h : IsBackupName (FilePath.fileName path) name)
    (hnul : 0 ∉ name) : FilePath.IsLabel name ∧ name ≠ FilePath.dot ∧ name ≠ FilePath.dotDot := by
  obtain ⟨date, rfl, hlength, hdate, -, -⟩ := h
  have hlong : 11 ≤ (FilePath.fileName path ++ FilePath.dot ++ date).length := by
    simp only [List.length_append, hlength, FilePath.dot, List.length_singleton]
    omega
  have hslash : FilePath.slash ∉ date := fun hmem => absurd (hdate _ hmem) (by decide)
  refine ⟨⟨?_, hnul, ?_⟩, ?_, ?_⟩
  · exact List.ne_nil_of_length_pos (by omega)
  · rw [List.mem_append, List.mem_append, not_or, not_or]
    exact ⟨⟨FilePath.slash_not_mem_fileName path, by decide⟩, hslash⟩
  · intro heq
    rw [heq] at hlong
    exact absurd hlong (by decide)
  · intro heq
    rw [heq] at hlong
    exact absurd hlong (by decide)

def backupsIn (fs : FileSystem) (dir : Location) (fileName : Text) : Set Text :=
  {n | IsBackupName fileName n ∧ fs.node? (dir ++ [n]) ≠ none}

/-- The last names, as many as `count` if there are so many: after each come fewer. -/
def latest (count : Nat) (names : Set Text) : Set Text :=
  {n ∈ names | {m ∈ names | Text.Before n m}.ncard < count}

section Sorted

variable {names front back : List Text} {n : Text} {count : Nat}

theorem ncard_after (h : (front ++ n :: back).Pairwise Text.Before) :
    {m ∈ {m | m ∈ front ++ n :: back} | Text.Before n m}.ncard = back.length := by
  obtain ⟨-, hback, hacross⟩ := List.pairwise_append.mp h
  obtain ⟨hafter, hsorted⟩ := List.pairwise_cons.mp hback
  have hset : {m ∈ {m | m ∈ front ++ n :: back} | Text.Before n m} = {m | m ∈ back} := by
    ext m
    refine ⟨fun ⟨hmem, hbefore⟩ => ?_, fun hmem => ?_⟩
    · rcases List.mem_append.mp hmem with hfront | hmem
      · exact absurd hbefore (hacross m hfront n List.mem_cons_self).not_before
      · exact (List.mem_cons.mp hmem).resolve_left hbefore.ne.symm
    · exact ⟨List.mem_append_right _ (List.mem_cons_of_mem _ hmem), hafter m hmem⟩
  rw [hset, Text.ncard_mem (hsorted.imp Text.Before.ne)]

theorem mem_latest_iff (h : names.Pairwise Text.Before) :
    n ∈ latest count {n | n ∈ names} ↔ n ∈ names.drop (names.length - count) := by
  constructor
  · rintro ⟨hmem, hfew⟩
    by_contra hnot
    rw [Set.mem_ofPred_eq, ← List.take_append_drop (names.length - count) names, List.mem_append]
      at hmem
    obtain ⟨front, back, hsplit⟩ := List.append_of_mem (hmem.resolve_right hnot)
    have hwhole : names = front ++ n :: (back ++ names.drop (names.length - count)) := by
      conv_lhs => rw [← List.take_append_drop (names.length - count) names, hsplit]
      rw [List.append_assoc, List.cons_append]
    rw [hwhole] at h
    have hcard := ncard_after h
    rw [← hwhole, List.length_append, List.length_drop] at hcard
    have htake := congrArg List.length hsplit
    simp only [List.length_take, List.length_append, List.length_cons] at htake
    omega
  · intro hmem
    refine ⟨List.mem_of_mem_drop hmem, ?_⟩
    obtain ⟨front, back, hsplit⟩ := List.append_of_mem hmem
    have hwhole : names = (names.take (names.length - count) ++ front) ++ n :: back := by
      rw [List.append_assoc, ← hsplit, List.take_append_drop]
    rw [hwhole] at h
    have hcard := ncard_after h
    rw [← hwhole] at hcard
    have hdrop := congrArg List.length hsplit
    simp only [List.length_drop, List.length_append, List.length_cons] at hdrop
    omega

theorem ncard_latest (h : names.Pairwise Text.Before) :
    (latest count {n | n ∈ names}).ncard = min count {n | n ∈ names}.ncard := by
  have hnodup : names.Nodup := h.imp Text.Before.ne
  have hset : latest count {n | n ∈ names} = {n | n ∈ names.drop (names.length - count)} :=
    Set.ext fun n => mem_latest_iff h
  rw [hset, Text.ncard_mem (hnodup.sublist (List.drop_sublist _ _)), Text.ncard_mem hnodup,
    List.length_drop]
  omega

def Reached (blocks : Text → Prop) (names : List Text) (n : Text) : Prop :=
  n ∈ names ∧ ∀ m ∈ names, Text.Before m n → ¬blocks m

variable {blocks : Text → Prop} {first : Text}

theorem not_before_first (h : (first :: names).Pairwise Text.Before) :
    ∀ m ∈ first :: names, ¬Text.Before m first := by
  intro m hm hbefore
  rcases List.mem_cons.mp hm with rfl | hm
  · exact hbefore.ne rfl
  · exact ((List.pairwise_cons.mp h).1 m hm).not_before hbefore

theorem reached_first (h : (first :: names).Pairwise Text.Before) :
    Reached blocks (first :: names) first :=
  ⟨List.mem_cons_self, fun m hm hbefore => absurd hbefore (not_before_first h m hm)⟩

theorem reached_cons_of_blocks (h : (first :: names).Pairwise Text.Before)
    (hblocks : blocks first) :
    Reached blocks (first :: names) n ↔ n = first := by
  constructor
  · rintro ⟨hn, hall⟩
    refine (List.mem_cons.mp hn).resolve_right fun hn => ?_
    exact hall first List.mem_cons_self ((List.pairwise_cons.mp h).1 n hn) hblocks
  · rintro rfl
    exact reached_first h

theorem reached_cons_of_not (h : (first :: names).Pairwise Text.Before) (hblocks : ¬blocks first) :
    Reached blocks (first :: names) n ↔ n = first ∨ Reached blocks names n := by
  constructor
  · rintro ⟨hn, hall⟩
    exact (List.mem_cons.mp hn).imp_right fun hn =>
      ⟨hn, fun m hm => hall m (List.mem_cons_of_mem _ hm)⟩
  · rintro (rfl | ⟨hn, hall⟩)
    · exact reached_first h
    · exact ⟨List.mem_cons_of_mem _ hn, List.forall_mem_cons.mpr ⟨fun _ => hblocks, hall⟩⟩

theorem reached_congr {blocks' : Text → Prop} (h : ∀ m ∈ names, blocks m ↔ blocks' m) :
    Reached blocks names n ↔ Reached blocks' names n :=
  and_congr_right fun _ => forall₂_congr fun m hm => imp_congr_right fun _ => not_congr (h m hm)

end Sorted

/-- The directory of the path is `dir` and can be listed: names do not contain NULs. -/
structure FolderAt (fs : FileSystem) (path : Text) (dir : Location) : Prop where
  sound : fs.Sound
  distinct : fs.Distinct
  found : ∃ pathEnd, fs.resolve (FilePath.folder path) = .ok ⟨dir, pathEnd⟩
  directory : fs.node? dir = some .directory
  no_nul : ∀ name ∈ fs.namesIn dir, 0 ∉ name

/-- The path enters the directory of this name only to leave it again at once. -/
def Passes (fs : FileSystem) (path : Text) (dir : Location) (name : Text) : Prop :=
  fs.node? (dir ++ [name]) = some .directory ∧
    dir ++ [name] ∈ detours (start (FilePath.folder path))
      (FilePath.components (FilePath.folder path))

/-- It is no directory with entries, the system takes its name and its path, and it is not below the
root. -/
structure CanGo (fs : FileSystem) (path : Text) (dir : Location) (name : Text) : Prop where
  empty : fs.node? (dir ++ [name]) = some .directory →
    ∀ below, fs.node? (dir ++ [name] ++ [below]) = none
  free : isFixed (dir ++ [name]) = false
  name_short : name.length ≤ FilePath.maxName
  short : FilePath.isTooLong (FilePath.join (FilePath.folder path) name) = false

theorem CanGo.vacate {fs fs' : FileSystem} {path name : Text} {dir gone : Location}
    (h : CanGo fs path dir name) (hnode : fs'.node? = Function.update fs.node? gone none) :
    CanGo fs' path dir name := by
  have hless : ∀ loc, fs'.node? loc = none ∨ fs'.node? loc = fs.node? loc := by
    intro loc
    rw [hnode]
    by_cases heq : loc = gone
    · left
      rw [heq, Function.update_self]
    · right
      rw [Function.update_of_ne heq]
  refine { h with empty := fun hdir below => ?_ }
  rcases hless (dir ++ [name]) with hnone | hsame
  · rw [hnone] at hdir
    cases hdir
  · rcases hless (dir ++ [name] ++ [below]) with hnone | hsame'
    · exact hnone
    · rw [hsame', h.empty (hsame ▸ hdir)]

theorem CanGo.remove {fs : FileSystem} {path name : Text} {dir : Location}
    (h : CanGo fs path dir name)
    (hnamed : fs.Names (FilePath.join (FilePath.folder path) name) dir name) :
    ∃ files, fs.remove (FilePath.join (FilePath.folder path) name) = .ok files := by
  rw [FileSystem.remove, hnamed]
  cases hnode : fs.node? (dir ++ [name]) with
  | none => exact ⟨fs, by simp only [hnode]⟩
  | some node =>
    simp only [hnode, reduceCtorEq, h.free, Bool.false_eq_true, if_false]
    split_ifs with hdir hfull
    · exact ⟨_, rfl⟩
    · exact absurd (isEmptyDirectory_of_node? hnamed.isEntry (h.empty (hdir ▸ hnode))) hfull
    · exact ⟨_, rfl⟩

section Directory

variable {fs : FileSystem} {path fileName : Text} {dir : Location} {backups : Nat}

theorem FolderAt.walk_folder (h : FolderAt fs path dir) :
    fs.walk (start (FilePath.folder path)) (FilePath.components (FilePath.folder path)) =
      .ok dir := by
  obtain ⟨pathEnd, hfound⟩ := h.found
  exact walk_of_directory hfound h.directory

theorem FolderAt.list_folder (h : FolderAt fs path dir) :
    fs.list (FilePath.folder path) = .ok (fs.namesIn dir) := by
  rw [list, h.walk_folder]

def sortedBackups (fs : FileSystem) (dir : Location) (fileName : Text) : List Text :=
  ((fs.namesIn dir).filter (Work.isDatedBackup fileName)).mergeSort Text.le

theorem pairwise_sortedBackups (h : fs.Distinct) (dir : Location) (fileName : Text) :
    (sortedBackups fs dir fileName).Pairwise Text.Before :=
  Text.pairwise_before_mergeSort ((h.nodup_namesIn dir).filter _)

theorem backupsIn_eq (fs : FileSystem) (dir : Location) (fileName : Text) :
    backupsIn fs dir fileName = {n | n ∈ sortedBackups fs dir fileName} := by
  ext n
  rw [backupsIn, Set.mem_ofPred_eq, Set.mem_ofPred_eq, sortedBackups, List.mem_mergeSort,
    List.mem_filter, isBackupName_iff, and_comm, and_congr_left_iff]
  intro hbackup
  rw [mem_namesIn_iff_node? (isEntry_of_isDatedBackup hbackup dir)]

def oldestBackups (backups : Nat) (fs : FileSystem) (dir : Location) (fileName : Text) :
    List Text :=
  Work.doomed backups ((fs.namesIn dir).filter (Work.isDatedBackup fileName))

theorem oldestBackups_eq (backups : Nat) (fs : FileSystem) (dir : Location) (fileName : Text) :
    oldestBackups backups fs dir fileName = (sortedBackups fs dir fileName).take
      ((sortedBackups fs dir fileName).length - backups) := rfl

theorem mem_oldestBackups_iff (h : fs.Distinct) {n : Text} :
    n ∈ oldestBackups backups fs dir fileName ↔
      n ∈ backupsIn fs dir fileName \ latest backups (backupsIn fs dir fileName) := by
  have hsorted := pairwise_sortedBackups h dir fileName
  have hnodup : (sortedBackups fs dir fileName).Nodup := hsorted.imp Text.Before.ne
  rw [oldestBackups_eq, backupsIn_eq, Set.mem_sdiff, mem_latest_iff hsorted, Set.mem_ofPred_eq]
  constructor
  · intro hmem
    exact ⟨List.mem_of_mem_take hmem, fun hdrop =>
      List.disjoint_take_drop hnodup le_rfl hmem hdrop⟩
  · rintro ⟨hmem, hnot⟩
    rw [← List.take_append_drop ((sortedBackups fs dir fileName).length - backups)
      (sortedBackups fs dir fileName), List.mem_append] at hmem
    exact hmem.resolve_right hnot

theorem FolderAt.of_mem_oldestBackups (h : FolderAt fs path dir) {n : Text}
    (hn : n ∈ oldestBackups backups fs dir (FilePath.fileName path)) :
    n ∈ fs.namesIn dir ∧ FilePath.IsLabel n ∧ n ≠ FilePath.dot ∧ n ≠ FilePath.dotDot := by
  obtain ⟨⟨hbackup, hstands⟩, -⟩ := (mem_oldestBackups_iff h.distinct).mp hn
  have hentry := isEntry_of_isDatedBackup (isBackupName_iff.mp hbackup) dir
  have hmem := (mem_namesIn_iff_node? hentry).mpr hstands
  exact ⟨hmem, hbackup.isLabel (h.no_nul n hmem)⟩

theorem FolderAt.remove_of_nul (h : FolderAt fs path dir) (hnul : 0 ∈ FilePath.folder path)
    {other : Text} (hslash : FilePath.slash ∉ other) (hmem : other ∈ fs.namesIn dir) :
    ∃ e, fs.remove (FilePath.join (FilePath.folder path) other) = .error e := by
  obtain ⟨pathEnd, hfound⟩ := h.found
  have hfull : fs.isEmptyDirectory dir = false := by
    rw [Bool.eq_false_iff, isEmptyDirectory, ne_eq, List.isEmpty_iff]
    exact List.ne_nil_of_mem hmem
  simp only [FileSystem.remove, resolve_join_of_nul hnul hslash, hfound, h.directory, hfull,
    if_true, Bool.false_eq_true, if_false]
  split_ifs
  · exact ⟨_, rfl⟩
  · exact ⟨_, rfl⟩
  · exact ⟨_, rfl⟩

end Directory

namespace Work

variable {w : Work} {folder other : Text} {names : List Text} {dir : Location} {backups : Nat}

theorem removeBackups_cons (hclean :
    ((other :: names).foldl (removeBackup folder) w).problems = w.problems) :
    ∃ files, w.files.remove (FilePath.join folder other) = .ok files ∧
      (other :: names).foldl (removeBackup folder) w =
        names.foldl (removeBackup folder) { w with files := files } := by
  have hfirst : w.problems <+: (removeBackup folder w other).problems :=
    prefix_removeBackups folder [other] w
  have hrest : (removeBackup folder w other).problems <+: w.problems :=
    hclean ▸ prefix_removeBackups folder names _
  have hsame : (removeBackup folder w other).problems = w.problems :=
    (hfirst.eq_of_length_le hrest.length_le).symm
  obtain ⟨files, hremove, hstep⟩ := removeBackup_ok hsame
  exact ⟨files, hremove, by rw [List.foldl_cons, hstep]⟩

/-- Where the way to the directory is cut off, removals succeed and remove nothing. -/
theorem removeBackups_cut (hnul : 0 ∉ folder) (hne : folder ≠ [])
    (hcut : w.files.walk (start folder) (FilePath.components folder) = .error .notFound)
    (hnames : ∀ n ∈ names, FilePath.IsLabel n)
    (hclean : (names.foldl (removeBackup folder) w).problems = w.problems) :
    names.foldl (removeBackup folder) w = w := by
  induction names with
  | nil => rfl
  | cons other names ih =>
    obtain ⟨files, hremove, hrest⟩ := removeBackups_cons hclean
    have hsame : files = w.files := by
      by_cases hlong : FilePath.isTooLong (FilePath.join folder other) = true
      · simp [FileSystem.remove, resolve, hlong] at hremove
      · have hnone := resolve_join_of_error hnul hne hcut (hnames other List.mem_cons_self)
          (by simpa using hlong)
        simpa [FileSystem.remove, hnone, eq_comm] using hremove
    rw [hrest, hsame] at hclean ⊢
    exact ih (fun n hn => hnames n (List.mem_cons_of_mem _ hn)) hclean

theorem removeBackups_sweep {path : Text} (hnul : 0 ∉ FilePath.folder path)
    (hsorted : names.Pairwise Text.Before)
    (hnames : ∀ n ∈ names, FilePath.IsLabel n ∧ n ≠ FilePath.dot ∧ n ≠ FilePath.dotDot)
    (hsound : w.files.Sound)
    (hwalk : w.files.walk (start (FilePath.folder path))
      (FilePath.components (FilePath.folder path)) = .ok dir)
    (hclean : (names.foldl (removeBackup (FilePath.folder path)) w).problems = w.problems) :
    ∃ files gone, names.foldl (removeBackup (FilePath.folder path)) w = { w with files := files } ∧
      Clears w.files files dir gone ∧
        ∀ n, n ∈ gone ↔ Reached (Passes w.files path dir) names n := by
  induction names generalizing w with
  | nil => exact ⟨w.files, [], rfl, .nil _ _, by simp [Reached]⟩
  | cons other names ih =>
    obtain ⟨hbefore, hsorted'⟩ := List.pairwise_cons.mp hsorted
    obtain ⟨hother, hnames'⟩ := List.forall_mem_cons.mp hnames
    obtain ⟨middle, hremove, hrest⟩ := removeBackups_cons hclean
    have hnamed : w.files.Names (FilePath.join (FilePath.folder path) other) dir other := by
      refine (names_join hnul (FilePath.folder_ne_nil path) hwalk hother.1 hother.2.1
        hother.2.2).resolve_right fun hlong => ?_
      simp [FileSystem.remove, hlong] at hremove
    obtain ⟨hs, hfiles, hempty, hnode⟩ := hnamed.remove_sound hsound hremove
    rw [hrest] at hclean ⊢
    by_cases hpass : Passes w.files path dir other
    · have hcut := walk_of_detour hnode hpass.2 hwalk
      refine ⟨middle, [other], ?_, .cons hfiles hnode (.nil _ _), fun n => ?_⟩
      · exact removeBackups_cut (w := { w with files := middle }) hnul
          (FilePath.folder_ne_nil path) hcut (fun n hn => (hnames' n hn).1) hclean
      · rw [reached_cons_of_blocks hsorted hpass, List.mem_singleton]
    · have hne : dir ≠ dir ++ [other] := fun heq =>
        List.cons_ne_nil _ _ (List.self_eq_append_right.mp heq)
      have hwalk' := walk_vacate hnode hempty (not_and_or.mp hpass) hne hwalk
      obtain ⟨files, gone, hdone, hclears, hgone⟩ :=
        ih (w := { w with files := middle }) hsorted' hnames' hs hwalk' hclean
      have hpasses : ∀ m ∈ names, Passes middle path dir m ↔ Passes w.files path dir m := by
        intro m hm
        have hloc : dir ++ [m] ≠ dir ++ [other] := fun heq =>
          (hbefore m hm).ne (Location.last_eq heq).symm
        rw [Passes, Passes, hnode, Function.update_of_ne hloc]
      refine ⟨files, other :: gone, hdone, .cons hfiles hnode hclears, fun n => ?_⟩
      rw [reached_cons_of_not hsorted hpass, List.mem_cons, hgone, reached_congr hpasses]

theorem problems_removeBackups_of_canGo {path : Text} (hnul : 0 ∉ FilePath.folder path)
    (hnames : ∀ n ∈ names, FilePath.IsLabel n ∧ n ≠ FilePath.dot ∧ n ≠ FilePath.dotDot)
    (hcan : ∀ n ∈ names, CanGo w.files path dir n) (hsound : w.files.Sound)
    (hwalk : w.files.walk (start (FilePath.folder path))
      (FilePath.components (FilePath.folder path)) = .ok dir ∨
        w.files.walk (start (FilePath.folder path))
          (FilePath.components (FilePath.folder path)) = .error .notFound) :
    (names.foldl (removeBackup (FilePath.folder path)) w).problems = w.problems := by
  induction names generalizing w with
  | nil => rfl
  | cons other names ih =>
    obtain ⟨hother, hnames'⟩ := List.forall_mem_cons.mp hnames
    obtain ⟨hgo, hcan'⟩ := List.forall_mem_cons.mp hcan
    have hne := FilePath.folder_ne_nil path
    rw [List.foldl_cons]
    rcases hwalk with hwalk | hcut
    · have hnamed := (route_join hnul hne hwalk hother.1 hother.2.1 hother.2.2 hgo.short).names
        hgo.name_short
      obtain ⟨middle, hremove⟩ := hgo.remove hnamed
      obtain ⟨hs, -, hempty, hnode⟩ := hnamed.remove_sound hsound hremove
      have hstep : removeBackup (FilePath.folder path) w other = { w with files := middle } := by
        rw [removeBackup, hremove]
      rw [hstep]
      refine ih (w := { w with files := middle }) hnames' (fun n hn => (hcan' n hn).vacate hnode) hs
        ?_
      by_cases hpass : Passes w.files path dir other
      · exact .inr (walk_of_detour hnode hpass.2 hwalk)
      · exact .inl (walk_vacate hnode hempty (not_and_or.mp hpass) (fun heq =>
          List.cons_ne_nil _ _ (List.self_eq_append_right.mp heq)) hwalk)
    · have hstep : removeBackup (FilePath.folder path) w other = w := by
        rw [removeBackup, FileSystem.remove,
          resolve_join_of_error hnul hne hcut hother.1 hgo.short]
      rw [hstep]
      exact ih hnames' hcan' hsound (.inr hcut)

theorem Clears.mem_backupsIn_iff {fs fs' : FileSystem} {gone : List Text}
    (h : Clears fs fs' dir gone) {fileName n : Text} :
    n ∈ backupsIn fs' dir fileName ↔ n ∈ backupsIn fs dir fileName ∧ n ∉ gone := by
  rw [backupsIn, backupsIn, Set.mem_ofPred_eq, Set.mem_ofPred_eq, and_assoc, and_congr_right_iff]
  rintro -
  by_cases hn : n ∈ gone
  · simp [h.gone n hn, hn]
  · have hother : ∀ other ∈ gone, dir ++ [n] ≠ dir ++ [other] := by
      rintro other hother heq
      exact hn (Location.last_eq heq ▸ hother)
    simp [h.kept _ hother, hn]

theorem prune_eq_sweep (hfolder : FolderAt w.files w.log.path dir) (hbackups : backups ≠ 0) :
    w.prune backups = (oldestBackups backups w.files dir (FilePath.fileName w.log.path)).foldl
      (removeBackup (FilePath.folder w.log.path)) w := by
  rw [prune_eq_list hbackups, hfolder.list_folder]
  rfl

theorem prune_sweep (hfolder : FolderAt w.files w.log.path dir) (hbackups : backups ≠ 0)
    (hclean : (w.prune backups).problems = w.problems) :
    ∃ files gone, w.prune backups = { w with files := files } ∧ Clears w.files files dir gone ∧
      ∀ n, n ∈ gone ↔ Reached (Passes w.files w.log.path dir)
        (oldestBackups backups w.files dir (FilePath.fileName w.log.path)) n := by
  have hsorted : (oldestBackups backups w.files dir (FilePath.fileName w.log.path)).Pairwise
      Text.Before :=
    (pairwise_sortedBackups hfolder.distinct dir _).sublist (List.take_sublist _ _)
  rw [prune_eq_sweep hfolder hbackups] at hclean ⊢
  by_cases hnul : 0 ∈ FilePath.folder w.log.path
  · -- A removal would fail, so there is none.
    cases hnames : oldestBackups backups w.files dir (FilePath.fileName w.log.path) with
    | nil => exact ⟨w.files, [], rfl, .nil _ _, by simp [Reached]⟩
    | cons other names =>
      obtain ⟨hmem, hlabel, -⟩ := hfolder.of_mem_oldestBackups (hnames ▸ List.mem_cons_self)
      obtain ⟨e, herror⟩ := hfolder.remove_of_nul hnul hlabel.slash_not_mem hmem
      rw [hnames] at hclean
      obtain ⟨files, hremove, -⟩ := removeBackups_cons hclean
      cases herror.symm.trans hremove
  · exact removeBackups_sweep hnul hsorted (fun n hn => (hfolder.of_mem_oldestBackups hn).2)
      hfolder.sound hfolder.walk_folder hclean

theorem removeBackup_reordered {files : FileSystem} (h : Reordered w.files files)
    (hd : w.files.Distinct) (folder other : Text) :
    (removeBackup folder w other).files.Distinct ∧
      ∃ files', removeBackup folder { w with files := files } other =
          { removeBackup folder w other with files := files' } ∧
        Reordered (removeBackup folder w other).files files' := by
  have hremove := h.remove hd (FilePath.join folder other)
  rw [removeBackup, removeBackup]
  dsimp only
  generalize hresult : w.files.remove (FilePath.join folder other) = result at hremove
  generalize files.remove (FilePath.join folder other) = result' at hremove
  cases hremove with
  | ok hsame => exact ⟨hd.remove hresult, _, rfl, hsame⟩
  | error e => exact ⟨hd, files, rfl, h⟩

theorem removeBackups_reordered {files : FileSystem} (h : Reordered w.files files)
    (hd : w.files.Distinct) (folder : Text) (names : List Text) :
    ∃ files', names.foldl (removeBackup folder) { w with files := files } =
        { names.foldl (removeBackup folder) w with files := files' } ∧
      Reordered (names.foldl (removeBackup folder) w).files files' := by
  induction names generalizing w files with
  | nil => exact ⟨files, rfl, h⟩
  | cons other names ih =>
    obtain ⟨hd', files', hstep, hsame⟩ := removeBackup_reordered h hd folder other
    rw [List.foldl_cons, List.foldl_cons, hstep]
    exact ih hsame hd'

theorem prune_reordered {files : FileSystem} (h : Reordered w.files files)
    (hd : w.files.Distinct) (backups : Nat) :
    ∃ files', ({ w with files := files } : Work).prune backups =
        { w.prune backups with files := files' } ∧ Reordered (w.prune backups).files files' := by
  by_cases hbackups : backups = 0
  · have hkeeps : ∀ w : Work, w.prune backups = w := fun w => by rw [prune, if_pos hbackups]
    rw [hkeeps, hkeeps]
    exact ⟨files, rfl, h⟩
  rw [prune_eq_list hbackups, prune_eq_list hbackups]
  dsimp only
  have hlist := h.list_perm hd (FilePath.folder w.log.path)
  generalize w.files.list (FilePath.folder w.log.path) = result at hlist
  generalize files.list (FilePath.folder w.log.path) = result' at hlist
  cases hlist with
  | error e => exact ⟨files, rfl, h⟩
  | ok hperm =>
    dsimp only
    rw [← doomed_eq_of_perm (hperm.filter _)]
    exact removeBackups_reordered h hd _ _

def datedBackups (w : Work) (dir : Location) : Set Text :=
  backupsIn w.files dir (FilePath.fileName w.log.path)

structure Pruned (backups : Nat) (w : Work) (dir : Location) : Prop where
  /-- A backup is left if it is one of the newest, or if the path passed through an older one that
  is not. -/
  left_iff : ∀ n, n ∈ (w.prune backups).datedBackups dir ↔
    n ∈ latest backups (w.datedBackups dir) ∨ n ∈ w.datedBackups dir ∧
      ∃ m ∈ w.datedBackups dir \ latest backups (w.datedBackups dir),
        Text.Before m n ∧ Passes w.files w.log.path dir m
  ncard_latest : (latest backups (w.datedBackups dir)).ncard =
    min backups (w.datedBackups dir).ncard
  node?_eq : ∀ loc,
    (∀ n ∈ w.datedBackups dir, n ∉ (w.prune backups).datedBackups dir → loc ≠ dir ++ [n]) →
      (w.prune backups).files.node? loc = w.files.node? loc
  files_eq : (w.prune backups).files.files = w.files.files
  log_eq : (w.prune backups).log = w.log
  reordered : ∀ files, Reordered w.files files →
    ∃ files', ({ w with files := files } : Work).prune backups =
      { w.prune backups with files := files' } ∧ Reordered (w.prune backups).files files'

theorem problems_prune_of_canGo (hfolder : FolderAt w.files w.log.path dir) (hbackups : backups ≠ 0)
    (hnul : 0 ∉ FilePath.folder w.log.path)
    (hcan : ∀ n ∈ w.datedBackups dir \ latest backups (w.datedBackups dir),
      CanGo w.files w.log.path dir n) : (w.prune backups).problems = w.problems := by
  rw [prune_eq_sweep hfolder hbackups]
  exact problems_removeBackups_of_canGo hnul (fun n hn => (hfolder.of_mem_oldestBackups hn).2)
    (fun n hn => hcan n ((mem_oldestBackups_iff hfolder.distinct).mp hn)) hfolder.sound
    (.inl hfolder.walk_folder)

theorem pruned_of_problems (hfolder : FolderAt w.files w.log.path dir) (hbackups : backups ≠ 0)
    (hclean : (w.prune backups).problems = w.problems) : Pruned backups w dir := by
  obtain ⟨files, gone, hprune, hclears, hgone⟩ := prune_sweep hfolder hbackups hclean
  simp only [Reached, mem_oldestBackups_iff hfolder.distinct] at hgone
  have hleft : ∀ n, n ∈ (w.prune backups).datedBackups dir ↔
      n ∈ w.datedBackups dir ∧ n ∉ gone := by
    intro n
    rw [hprune]
    exact hclears.mem_backupsIn_iff
  constructor
  case left_iff =>
    intro n
    rw [hleft, hgone]
    constructor
    · rintro ⟨hn, hnot⟩
      refine or_iff_not_imp_left.mpr fun hold => ⟨hn, ?_⟩
      by_contra hnone
      exact hnot ⟨⟨hn, hold⟩, fun m hm hmn hpass => hnone ⟨m, hm, hmn, hpass⟩⟩
    · rintro (hnew | ⟨hn, m, hm, hmn, hpass⟩)
      · exact ⟨hnew.1, fun h => h.1.2 hnew⟩
      · exact ⟨hn, fun h => h.2 m hm hmn hpass⟩
  case ncard_latest =>
    rw [datedBackups, backupsIn_eq]
    exact LogFile.ncard_latest (pairwise_sortedBackups hfolder.distinct dir _)
  case node?_eq =>
    intro loc hloc
    simp only [hleft] at hloc
    rw [hprune]
    refine hclears.kept loc fun n hn => ?_
    exact hloc n ((hgone n).mp hn).1.1 fun h => h.2 hn
  case files_eq =>
    rw [hprune]
    exact hclears.files_eq
  case log_eq => rw [hprune]
  case reordered => exact fun files' h => prune_reordered h hfolder.distinct backups

theorem Pruned.datedBackups_eq (h : Pruned backups w dir)
    (hway : ∀ m ∈ w.datedBackups dir \ latest backups (w.datedBackups dir),
      ¬Passes w.files w.log.path dir m) :
    (w.prune backups).datedBackups dir = latest backups (w.datedBackups dir) := by
  ext n
  rw [h.left_iff, or_iff_left]
  rintro ⟨-, m, hm, -, hpass⟩
  exact hway m hm hpass

/-- Pruning meets no problem if whatever is not among the newest backups can be removed. When it
meets none it leaves the newest, and more only behind a directory that the path passes through; and
it leaves all else. -/
theorem prune_leaves (hfolder : FolderAt w.files w.log.path dir) (hbackups : 1 ≤ backups) :
    (0 ∉ FilePath.folder w.log.path →
      (∀ n ∈ w.datedBackups dir \ latest backups (w.datedBackups dir),
        CanGo w.files w.log.path dir n) → (w.prune backups).problems = w.problems) ∧
      ((w.prune backups).problems = w.problems → Pruned backups w dir) :=
  have hsome : backups ≠ 0 := Nat.one_le_iff_ne_zero.mp hbackups
  ⟨problems_prune_of_canGo hfolder hsome, pruned_of_problems hfolder hsome⟩

def mixedFiles : FileSystem :=
  touchAll (FileSystem.empty.withDirectory ([] ++ [Text.ascii "a.log.1969-01-01"]))
    [Text.ascii "a.log", Text.ascii "a.log.1970-01-02", Text.ascii "b.log.1970-01-01",
      Text.ascii "a.log.1970-01-01", Text.ascii "a.log.1", Text.ascii "a.log.1970-01-01.gz"]

theorem sound_mixedFiles : mixedFiles.Sound ∧ mixedFiles.Distinct := by
  have hdirectory : Follows FileSystem.empty
      (FileSystem.empty.withDirectory ([] ++ [Text.ascii "a.log.1969-01-01"])) :=
    .withDirectory empty_sound _ _ rfl (isEntry_of_slash_not_mem (by decide) (by decide))
      (by decide)
  exact sound_touchAll hdirectory.sound (List.nodup_singleton _) _

def mixedWork (path : Text) : Work := ⟨⟨path, none, 0, .never⟩, mixedFiles, []⟩

theorem folderAt_mixedFiles {path : Text} {pathEnd : PathEnd}
    (hfound : mixedFiles.resolve (FilePath.folder path) = .ok ⟨[], pathEnd⟩) :
    FolderAt mixedFiles path [] :=
  ⟨sound_mixedFiles.1, sound_mixedFiles.2, ⟨pathEnd, hfound⟩, rfl, by decide +kernel⟩

theorem prune_leaves_lastDay :
    ((mixedWork (Text.ascii "a.log")).prune 1).problems = [] ∧
      ((mixedWork (Text.ascii "a.log")).prune 1).datedBackups [] =
        latest 1 ((mixedWork (Text.ascii "a.log")).datedBackups []) ∧
      ((mixedWork (Text.ascii "a.log")).prune 1).files.namesIn [] =
        [Text.ascii "a.log", Text.ascii "a.log.1970-01-02", Text.ascii "b.log.1970-01-01",
          Text.ascii "a.log.1", Text.ascii "a.log.1970-01-01.gz"] := by
  have hfound : mixedFiles.resolve (FilePath.folder (Text.ascii "a.log")) = .ok ⟨[], .dots⟩ := by
    decide +kernel
  obtain ⟨hquiet, hleaves⟩ := @prune_leaves (mixedWork (Text.ascii "a.log")) [] 1
    (folderAt_mixedFiles hfound) le_rfl
  have holdest : oldestBackups 1 mixedFiles [] (Text.ascii "a.log") =
      [Text.ascii "a.log.1969-01-01", Text.ascii "a.log.1970-01-01"] := by cbv
  have hclean := hquiet (by decide) fun n hn => by
    have hmem : n ∈ oldestBackups 1 mixedFiles [] (Text.ascii "a.log") :=
      (mem_oldestBackups_iff sound_mixedFiles.2).mpr hn
    rw [holdest, List.mem_pair] at hmem
    rcases hmem with rfl | rfl
    · exact ⟨fun _ => node?_of_isEmptyDirectory (isEntry_of_slash_not_mem (by decide) (by decide))
        (by decide +kernel), by decide, by decide, by decide⟩
    · exact ⟨fun hdir => absurd hdir (by decide +kernel), by decide, by decide, by decide⟩
  have hdirect : detours (start (FilePath.folder (Text.ascii "a.log")))
      (FilePath.components (FilePath.folder (Text.ascii "a.log"))) = [] := by decide
  refine ⟨hclean, (hleaves hclean).datedBackups_eq fun m _ hpass => ?_, by cbv⟩
  have hmem := hpass.2
  rw [mixedWork, hdirect] at hmem
  cases hmem

def detourPath : Text := Text.ascii "a.log.1969-01-01/../a.log"

/-- Pruning leaves more than the latest backups where it removes a directory on the way to them. -/
theorem prune_leaves_more : ¬∀ (w : Work) (dir : Location) (backups : Nat),
    FolderAt w.files w.log.path dir → 1 ≤ backups → (w.prune backups).problems = w.problems →
      (w.prune backups).datedBackups dir = latest backups (w.datedBackups dir) := by
  intro hall
  have hfound : mixedFiles.resolve (FilePath.folder detourPath) = .ok ⟨[], .dots⟩ := by
    decide +kernel
  have heq := hall (mixedWork detourPath) [] 1 (folderAt_mixedFiles hfound) le_rfl (by cbv)
  have hname : FilePath.fileName detourPath = Text.ascii "a.log" := by decide
  have hname' : FilePath.fileName ((mixedWork detourPath).prune 1).log.path =
      Text.ascii "a.log" := by cbv
  have hstands : ((mixedWork detourPath).prune 1).files.node?
      ([] ++ [Text.ascii "a.log.1970-01-01"]) = some (.file 3) := by cbv
  have hleft :
      Text.ascii "a.log.1970-01-01" ∈ ((mixedWork detourPath).prune 1).datedBackups [] := by
    rw [datedBackups, hname']
    exact ⟨isBackupName_iff.mpr (by decide), hstands ▸ Option.some_ne_none _⟩
  have hsorted : sortedBackups mixedFiles [] (Text.ascii "a.log") =
      [Text.ascii "a.log.1969-01-01", Text.ascii "a.log.1970-01-01",
        Text.ascii "a.log.1970-01-02"] := by cbv
  have hpairwise := pairwise_sortedBackups sound_mixedFiles.2 [] (Text.ascii "a.log")
  rw [heq, datedBackups, mixedWork, hname, backupsIn_eq, mem_latest_iff hpairwise, hsorted]
    at hleft
  revert hleft
  decide

end Work

end LogFile

end StructuredLog
