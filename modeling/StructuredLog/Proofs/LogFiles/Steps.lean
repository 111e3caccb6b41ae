import StructuredLog.Proofs.Files.Twins
import StructuredLog.Proofs.LogFiles.Pruning

/-!
# The steps of a write

A write makes its way through a rotation in steps, each on a path that can be read off the log
file. So what every single step keeps is kept by the write. Main statement: `KeptBySteps.write`.
-/

namespace StructuredLog

open FileSystem LogFile

namespace LogFile

inductive Uses (path : Text) : Rotation → Text → Prop
  | own (rotation : Rotation) : Uses path rotation path
  | numbered {limit backups n : Nat} (hpos : 1 ≤ n) (hle : n ≤ backups) :
    Uses path (.bySize limit backups) (Work.numberedBackup path n)
  | current {backups : Nat} {source : TimeSource} {period : Period} :
    Uses path (.daily backups source period) (Work.datedBackup path period.date)
  | later {backups : Nat} {source : TimeSource} {period : Period} (offset : Int) (t : Instant) :
    Uses path (.daily backups source period) (Work.datedBackup path (Instant.localDate offset t))
  | listed {backups : Nat} {source : TimeSource} {period : Period} {name : Text}
      (hname : Work.isDatedBackup (FilePath.fileName path) name = true) :
    Uses path (.daily backups source period) (FilePath.join (FilePath.folder path) name)

inductive Becomes : Rotation → Rotation → Prop
  | refl (rotation : Rotation) : Becomes rotation rotation
  | later {backups : Nat} {source : TimeSource} {period : Period} (offset : Int) (t : Instant) :
    Becomes (.daily backups source period) (.daily backups source (Period.containing offset t))

theorem Becomes.uses {path used : Text} {start rotation : Rotation} (h : Becomes start rotation)
    (hused : Uses path rotation used) : Uses path start used := by
  cases h with
  | refl => exact hused
  | later offset t =>
    cases hused with
    | own => exact .own _
    | current => exact .later offset t
    | later offset t => exact .later offset t
    | listed hname => exact .listed hname

theorem Becomes.of_daily {start : Rotation} {backups : Nat} {source : TimeSource} {period : Period}
    (h : Becomes start (.daily backups source period)) :
    ∃ period', start = .daily backups source period' := by
  cases h with
  | refl => exact ⟨_, rfl⟩
  | later => exact ⟨_, rfl⟩

namespace Work

theorem doomed_eq_of_perm {names names' : List Text} (h : names.Perm names') (backups : Nat) :
    doomed backups names = doomed backups names' := by
  simp only [doomed, Text.mergeSort_eq_of_perm h]

theorem prune_eq_list {backups : Nat} (hbackups : backups ≠ 0) (w : Work) :
    w.prune backups = match w.files.list (FilePath.folder w.log.path) with
      | .error e => w.note (.cannotScan (FilePath.folder w.log.path) e)
      | .ok names =>
        (doomed backups (names.filter (isDatedBackup (FilePath.fileName w.log.path)))).foldl
          (removeBackup (FilePath.folder w.log.path)) w := by
  rw [prune, if_neg hbackups]
  rfl

def ready (clock : Clock) (entrySize : Nat) (w : Work) : Work :=
  let prepared := w.beforeWrite clock entrySize
  if prepared.isWritable then prepared else prepared.reopen (Instant.floorSeconds clock.wall) false

theorem write_eq (clock : Clock) (entry : Text) (w : Work) :
    w.write clock entry =
      put (Instant.floorSeconds clock.wall) entry (w.ready clock entry.length) := rfl

theorem isWritable_iff {w : Work} :
    w.isWritable = true ↔ ∃ s, w.log.stream = some s ∧ s.failed = false := by
  rw [isWritable]
  cases w.log.stream <;> simp

theorem reopen_cases (w : Work) (now : Int) (truncate : Bool) :
    (w.reopen now truncate).isWritable = true ∨
      (w.reopen now truncate).log.stream = none ∧
        ∃ e, FileProblem.cannotOpen e ∈ (w.reopen now truncate).problems := by
  rw [reopen, openStream_eq]
  cases (w.close now).files.makeParent (w.close now).log.path with
  | mk result made =>
    cases result with
    | error e => exact .inr ⟨rfl, e, List.mem_append_right _ (List.mem_singleton_self _)⟩
    | ok _ =>
      dsimp only
      cases made.openFile (w.close now).log.path truncate now with
      | error e => exact .inr ⟨rfl, .denied, List.mem_append_right _ (List.mem_singleton_self _)⟩
      | ok opened => exact .inl rfl

theorem ready_cases (clock : Clock) (entrySize : Nat) (w : Work) :
    (∃ s, (w.ready clock entrySize).log.stream = some s ∧ s.failed = false) ∨
      (w.ready clock entrySize).log.stream = none ∧
        ∃ e, FileProblem.cannotOpen e ∈ (w.ready clock entrySize).problems := by
  rw [← isWritable_iff, ready]
  split_ifs with hwritable
  · exact .inl hwritable
  · exact reopen_cases _ _ _

end Work

/-- A relation between log files at work that is kept by the single steps of a write on the paths
that it uses. -/
structure KeptBySteps (path : Text) (start : Rotation) (I : Work → Work → Prop) : Prop where
  path_eq : ∀ {w w'}, I w w' → w.log.path = path ∧ w'.log.path = path
  size_eq : ∀ {w w'}, I w w' → w.log.size = w'.log.size
  rotation_eq : ∀ {w w'}, I w w' → w.log.rotation = w'.log.rotation
  becomes : ∀ {w w'}, I w w' → Becomes start w.log.rotation
  isWritable_eq : ∀ {w w'}, I w w' → w.isWritable = w'.isWritable
  note : ∀ {w w'}, I w w' → ∀ p, I (w.note p) (w'.note p)
  close : ∀ {w w'}, I w w' → ∀ now, I (w.close now) (w'.close now)
  rotation : ∀ {w w'}, I w w' → ∀ {rotation}, Becomes start rotation →
    I { w with log := { w.log with rotation := rotation } }
      { w' with log := { w'.log with rotation := rotation } }
  openStream : ∀ {w w'}, I w w' → ∀ now truncate,
    (w.openStream now truncate).1 = (w'.openStream now truncate).1 ∧
      I (w.openStream now truncate).2 (w'.openStream now truncate).2
  exists?_eq : ∀ {w w'}, I w w' → ∀ {p}, Uses path start p →
    w.files.exists? p = w'.files.exists? p
  rename : ∀ {w w'}, I w w' → ∀ {p q}, Uses path start p → Uses path start q →
    SameResult (fun files files' => I { w with files := files } { w' with files := files' })
      (w.files.rename p q) (w'.files.rename p q)
  remove : ∀ {w w'}, I w w' → ∀ {p}, Uses path start p →
    SameResult (fun files files' => I { w with files := files } { w' with files := files' })
      (w.files.remove p) (w'.files.remove p)
  list : ∀ {w w'}, I w w' → ∀ {backups source period}, start = .daily backups source period →
    SameResult (fun names names' =>
        (names.filter (Work.isDatedBackup (FilePath.fileName path))).Perm
          (names'.filter (Work.isDatedBackup (FilePath.fileName path))))
      (w.files.list (FilePath.folder path)) (w'.files.list (FilePath.folder path))
  put : ∀ {w w'}, I w w' → ∀ now entry,
    (w.put now entry).1 = (w'.put now entry).1 ∧ I (w.put now entry).2 (w'.put now entry).2

namespace KeptBySteps

variable {path : Text} {start : Rotation} {I : Work → Work → Prop} {w w' : Work} {now : Int}
  {backups : Nat}

theorem reopen (hI : KeptBySteps path start I) (h : I w w') (truncate : Bool) :
    I (w.reopen now truncate) (w'.reopen now truncate) := by
  obtain ⟨hresult, hopened⟩ := hI.openStream (hI.close h now) now truncate
  rw [Work.reopen, Work.reopen]
  generalize (w.close now).openStream now truncate = opened at hresult hopened
  generalize (w'.close now).openStream now truncate = opened' at hresult hopened
  obtain ⟨result, opened⟩ := opened
  obtain ⟨result', opened'⟩ := opened'
  obtain rfl : result = result' := hresult
  cases result with
  | ok _ => exact hopened
  | error e => exact hI.note hopened _

theorem rotateTo (hI : KeptBySteps path start I) (h : I w w') {target : Text}
    (htarget : Uses path start target) : I (w.rotateTo now target) (w'.rotateTo now target) := by
  obtain ⟨hpath, hpath'⟩ := hI.path_eq h
  have hrename := hI.rename (hI.close h now) (.own start) htarget
  rw [Work.rotateTo_eq, Work.rotateTo_eq, hpath, hpath']
  change SameResult _ ((w.drained now).rename path target) ((w'.drained now).rename path target)
    at hrename
  generalize (w.drained now).rename path target = result at hrename
  generalize (w'.drained now).rename path target = result' at hrename
  cases hrename with
  | ok hfiles => exact hI.reopen hfiles false
  | error e => exact hI.reopen (hI.note (hI.close h now) _) false

theorem removeOldest (hI : KeptBySteps path start I) (h : I w w')
    (hused : Uses path start (Work.numberedBackup path backups)) :
    I (w.removeOldest backups) (w'.removeOldest backups) := by
  obtain ⟨hpath, hpath'⟩ := hI.path_eq h
  have hremove := hI.remove h hused
  rw [Work.removeOldest, Work.removeOldest, hpath, hpath']
  generalize w.files.remove (Work.numberedBackup path backups) = result at hremove
  generalize w'.files.remove (Work.numberedBackup path backups) = result' at hremove
  cases hremove with
  | ok hfiles => exact hfiles
  | error e => exact hI.note h _

theorem shiftBackup (hI : KeptBySteps path start I) (h : I w w') {n : Nat}
    (hused : Uses path start (Work.numberedBackup path n))
    (hused' : Uses path start (Work.numberedBackup path (n + 1))) :
    I (w.shiftBackup n) (w'.shiftBackup n) := by
  obtain ⟨hpath, hpath'⟩ := hI.path_eq h
  have hrename := hI.rename h hused hused'
  simp only [Work.shiftBackup]
  rw [hpath, hpath', hI.exists?_eq h hused]
  generalize w.files.rename _ _ = result at hrename
  generalize w'.files.rename _ _ = result' at hrename
  split_ifs
  · cases hrename with
    | ok hfiles => exact hfiles
    | error e => exact hI.note h _
  · exact h

theorem shifts (hI : KeptBySteps path start I) {order : List Nat}
    (hused : ∀ n ∈ order, Uses path start (Work.numberedBackup path n) ∧
      Uses path start (Work.numberedBackup path (n + 1)))
    (h : I w w') : I (order.foldl Work.shiftBackup w) (order.foldl Work.shiftBackup w') := by
  induction order generalizing w w' with
  | nil => exact h
  | cons n order ih =>
    obtain ⟨hsource, htarget⟩ := hused n List.mem_cons_self
    exact ih (fun m hm => hused m (List.mem_cons_of_mem _ hm)) (hI.shiftBackup h hsource htarget)

theorem rotateBySize (hI : KeptBySteps path start I) (h : I w w')
    (hused : ∀ n, 1 ≤ n → n ≤ backups → Uses path start (Work.numberedBackup path n)) :
    I (w.rotateBySize now backups) (w'.rotateBySize now backups) := by
  rw [Work.rotateBySize, Work.rotateBySize]
  by_cases hnone : backups = 0
  · rw [if_pos hnone, if_pos hnone]
    exact hI.reopen h true
  rw [if_neg hnone, if_neg hnone]
  have hpos : 1 ≤ backups := Nat.one_le_iff_ne_zero.mpr hnone
  have horder : ∀ n ∈ Work.shiftOrder backups, Uses path start (Work.numberedBackup path n) ∧
      Uses path start (Work.numberedBackup path (n + 1)) := by
    intro n hn
    obtain ⟨m, hm, rfl⟩ := List.mem_map.mp hn
    rw [List.mem_reverse, List.mem_range] at hm
    exact ⟨hused _ (by omega) (by omega), hused _ (by omega) (by omega)⟩
  have hshifted := hI.shifts horder (hI.removeOldest h (hused backups hpos le_rfl))
  rw [(hI.path_eq h).1, (hI.path_eq h).2]
  exact hI.rotateTo hshifted (hused 1 le_rfl hpos)

theorem removeBackups (hI : KeptBySteps path start I) {dir : Text} {names : List Text}
    (hused : ∀ name ∈ names, Uses path start (FilePath.join dir name)) (h : I w w') :
    I (names.foldl (Work.removeBackup dir) w) (names.foldl (Work.removeBackup dir) w') := by
  induction names generalizing w w' with
  | nil => exact h
  | cons name names ih =>
    refine ih (fun other hother => hused other (List.mem_cons_of_mem _ hother)) ?_
    have hremove := hI.remove h (hused name List.mem_cons_self)
    rw [Work.removeBackup, Work.removeBackup]
    generalize w.files.remove (FilePath.join dir name) = result at hremove
    generalize w'.files.remove (FilePath.join dir name) = result' at hremove
    cases hremove with
    | ok hfiles => exact hfiles
    | error e => exact hI.note h _

theorem prune (hI : KeptBySteps path start I) {source : TimeSource} {period : Period}
    (hstart : start = .daily backups source period) (h : I w w') :
    I (w.prune backups) (w'.prune backups) := by
  by_cases hnone : backups = 0
  · rw [Work.prune, Work.prune, if_pos hnone, if_pos hnone]
    exact h
  obtain ⟨hpath, hpath'⟩ := hI.path_eq h
  have hlist := hI.list h hstart
  rw [Work.prune_eq_list hnone, Work.prune_eq_list hnone, hpath, hpath']
  generalize w.files.list (FilePath.folder path) = result at hlist
  generalize w'.files.list (FilePath.folder path) = result' at hlist
  cases hlist with
  | error e => exact hI.note h _
  | ok hnames =>
    dsimp only
    rw [← Work.doomed_eq_of_perm hnames]
    refine hI.removeBackups (fun name hname => ?_) h
    have hfound := (List.mergeSort_perm _ _).mem_iff.mp (List.mem_of_mem_take hname)
    exact hstart ▸ .listed (List.mem_filter.mp hfound).2

theorem beforeWrite (hI : KeptBySteps path start I) (h : I w w') (clock : Clock) (entrySize : Nat) :
    I (w.beforeWrite clock entrySize) (w'.beforeWrite clock entrySize) := by
  have hbecomes := hI.becomes h
  obtain ⟨hpath, hpath'⟩ := hI.path_eq h
  simp only [Work.beforeWrite]
  rw [← hI.rotation_eq h]
  cases hrotation : w.log.rotation with
  | never => exact h
  | bySize limit backups =>
    rw [hrotation] at hbecomes
    dsimp only
    rw [← hI.size_eq h]
    split_ifs
    · exact hI.rotateBySize h fun n hpos hle => hbecomes.uses (.numbered hpos hle)
    · exact h
  | daily backups source period =>
    rw [hrotation] at hbecomes
    obtain ⟨period', hstart⟩ := hbecomes.of_daily
    dsimp only
    split_ifs
    · exact h
    · rw [hpath, hpath']
      exact hI.rotation (hI.prune hstart (hI.rotateTo h (hbecomes.uses .current)))
        (hstart ▸ .later _ _)

theorem ready (hI : KeptBySteps path start I) (h : I w w') (clock : Clock) (entrySize : Nat) :
    I (w.ready clock entrySize) (w'.ready clock entrySize) := by
  have hprepared := hI.beforeWrite h clock entrySize
  rw [Work.ready, Work.ready, ← hI.isWritable_eq hprepared]
  split_ifs
  · exact hprepared
  · exact hI.reopen hprepared false

/-- What the steps of a write keep is kept by the write, which succeeds on both sides or on none. -/
theorem write (hI : KeptBySteps path start I) (h : I w w') (clock : Clock) (entry : Text) :
    (w.write clock entry).1 = (w'.write clock entry).1 ∧
      I (w.write clock entry).2 (w'.write clock entry).2 := by
  rw [Work.write_eq, Work.write_eq]
  exact hI.put (hI.ready h clock entry.length) _ entry

end KeptBySteps

theorem Work.write_becomes (w : Work) (clock : Clock) (entry : Text) :
    (w.write clock entry).2.log.path = w.log.path ∧
      Becomes w.log.rotation (w.write clock entry).2.log.rotation := by
  -- What one work keeps is kept by the relation of the work with itself.
  have hkept : KeptBySteps w.log.path w.log.rotation fun v v' =>
      v = v' ∧ v.log.path = w.log.path ∧ Becomes w.log.rotation v.log.rotation :=
    { path_eq := by
        rintro v _ ⟨rfl, hpath, -⟩
        exact ⟨hpath, hpath⟩
      size_eq := fun h => h.1 ▸ rfl
      rotation_eq := fun h => h.1 ▸ rfl
      becomes := fun h => h.2.2
      isWritable_eq := fun h => h.1 ▸ rfl
      note := fun h p => ⟨congrArg (·.note p) h.1, h.2⟩
      close := fun h now => ⟨congrArg (Work.close now) h.1, h.2⟩
      rotation := by
        rintro v _ ⟨rfl, hpath, -⟩ rotation hbecomes
        exact ⟨rfl, hpath, hbecomes⟩
      openStream := by
        rintro v _ ⟨rfl, h⟩ now truncate
        refine ⟨rfl, rfl, ?_⟩
        rw [openStream_eq]
        cases v.files.makeParent v.log.path with
        | mk result made =>
          cases result with
          | error e => exact h
          | ok _ =>
            dsimp only
            cases made.openFile v.log.path truncate now <;> exact h
      exists?_eq := fun h => by rw [h.1]; exact fun _ => rfl
      rename := by
        rintro v _ ⟨rfl, h⟩ p q - -
        exact .refl fun _ _ => ⟨rfl, h⟩
      remove := by
        rintro v _ ⟨rfl, h⟩ p -
        exact .refl fun _ _ => ⟨rfl, h⟩
      list := by
        rintro v _ ⟨rfl, -⟩ backups source period -
        exact .refl fun _ _ => .refl _
      put := by
        rintro v _ ⟨rfl, h⟩ now entry
        refine ⟨rfl, rfl, ?_⟩
        rw [put]
        cases v.log.stream with
        | none => exact h
        | some s =>
          dsimp only
          split_ifs <;> exact h }
  exact (hkept.write ⟨rfl, rfl, .refl _⟩ clock entry).2.2

end LogFile

end StructuredLog
