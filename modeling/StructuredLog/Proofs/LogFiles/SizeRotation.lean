import StructuredLog.Proofs.Files.Contents
import StructuredLog.Proofs.LogFiles.Reopening
import StructuredLog.Proofs.LogFiles.Slots

/-!
# Rotation by size is a shift register of files

The file at a path and its numbered backups are the slots of a register. As long as no operation
on files fails, every write does to the contents what it does to the slots, and no other file of
the system changes.
-/

namespace StructuredLog

open LogFile FileSystem

namespace LogFile

/-- The path of a slot: zero is the log file itself, the others are its backups. -/
def slotPath (path : Text) : Nat → Text
  | 0 => path
  | n + 1 => Work.numberedBackup path (n + 1)

def slotName (name : Text) : Nat → Text
  | 0 => name
  | n + 1 => extended name (Decimal.ofNat (n + 1))

/-- What the log file at a path and its backups hold. -/
def slotsAt (fs : FileSystem) (path : Text) (backups : Nat) : Slots :=
  ⟨(fs.contentAt path).getD [],
    (List.range backups).map fun i => fs.contentAt (slotPath path (i + 1))⟩

theorem isLabel_ofNat (n : Nat) : FilePath.IsLabel (Decimal.ofNat n) where
  ne_nil := Decimal.ofNat_ne_nil n
  nul_not_mem := fun h => absurd (Decimal.isDigit_of_mem_ofNat h) (by decide)
  slash_not_mem := fun h => absurd (Decimal.isDigit_of_mem_ofNat h) (by decide)

theorem slotName_injective (name : Text) : Function.Injective (slotName name) := by
  intro i j h
  cases i with
  | zero =>
    cases j with
    | zero => rfl
    | succ j => exact absurd h.symm extended_ne
  | succ i =>
    cases j with
    | zero => exact absurd h extended_ne
    | succ j => exact Decimal.ofNat_injective (extended_injective h)

def slot (dir : Location) (name : Text) (i : Nat) : Location := dir ++ [slotName name i]

theorem slot_injective (dir : Location) (name : Text) : Function.Injective (slot dir name) := by
  intro i j h
  have hlast := (List.append_inj' h rfl).2
  exact slotName_injective name (List.singleton_inj.mp hlast)

/-- A site whose slots can all be reached and hold files, or nothing. -/
structure Register (fs : FileSystem) (path : Text) (dir : Location) (name : Text)
    (backups : Nat) : Prop where
  site : Site fs path dir name
  names : ∀ i ≤ backups, fs.Names (slotPath path i) dir (slotName name i)
  plain : ∀ i ≤ backups, fs.IsFileOrFree (slot dir name i)

namespace Register

variable {fs fs' : FileSystem} {path : Text} {dir : Location} {name : Text} {backups : Nat}

theorem slotsAt_eq (h : Register fs path dir name backups) :
    slotsAt fs path backups = ⟨(fs.contentOf (slot dir name 0)).getD [],
      (List.range backups).map fun i => fs.contentOf (slot dir name (i + 1))⟩ := by
  have hcurrent := (h.names 0 (Nat.zero_le _)).contentAt_eq
  rw [slotPath] at hcurrent
  rw [slotsAt, hcurrent]
  congr 1
  refine List.map_congr_left fun i hi => ?_
  exact (h.names (i + 1) (List.mem_range.mp hi)).contentAt_eq

end Register

/-- How far the backups have moved when those from number `k` on are one slot further and slot `k`
is free. -/
structure Shifted (fs fs' : FileSystem) (dir : Location) (name : Text) (backups k : Nat) :
    Prop where
  follows : Follows fs fs'
  files_eq : fs'.files = fs.files
  moved : ∀ i, k ≤ i → i < backups → fs'.node? (slot dir name (i + 1)) = fs.node? (slot dir name i)
  free : fs'.node? (slot dir name k) = none
  waiting : ∀ i, i < k → fs'.node? (slot dir name i) = fs.node? (slot dir name i)
  other : ∀ loc, (∀ i ≤ backups, loc ≠ slot dir name i) → fs'.node? loc = fs.node? loc

/-- What a rotation leaves: every slot one further, a new file in the first, and all else as it
was. -/
structure Rotated (fs fs' : FileSystem) (dir : Location) (name : Text) (backups : Nat) (now : Int) :
    Prop where
  follows : Follows fs fs'
  files_eq : fs'.files = fs.files ++ [⟨#[], now⟩]
  current : fs'.node? (slot dir name 0) = some (.file fs.files.length)
  moved : ∀ i < backups, fs'.node? (slot dir name (i + 1)) = fs.node? (slot dir name i)
  other : ∀ loc, (∀ i ≤ backups, loc ≠ slot dir name i) → fs'.node? loc = fs.node? loc

namespace Shifted

variable {fs fs' fs'' : FileSystem} {dir : Location} {name : Text} {backups k n : Nat}

theorem gap (h : Shifted fs fs' dir name backups (k + 2))
    (hnone : fs.node? (slot dir name (k + 1)) = none) :
    Shifted fs fs' dir name backups (k + 1) := by
  refine ⟨h.follows, h.files_eq, ?_, ?_, ?_, h.other⟩
  · intro i hle hlt
    rcases Nat.eq_or_lt_of_le hle with rfl | hlt'
    · rw [h.free, hnone]
    · exact h.moved i hlt' hlt
  · rw [h.waiting (k + 1) (by omega), hnone]
  · intro i hi
    exact h.waiting i (by omega)

theorem up (h : Shifted fs fs' dir name backups (k + 2)) (hk : k + 1 < backups)
    (hfile : fs.node? (slot dir name (k + 1)) = some (.file n)) (hfollows : Follows fs' fs'')
    (hfiles : fs''.files = fs'.files)
    (hnode : fs''.node? = Function.update (Function.update fs'.node? (slot dir name (k + 1)) none)
      (slot dir name (k + 2)) (some (.file n))) : Shifted fs fs'' dir name backups (k + 1) := by
  have hne : slot dir name (k + 1) ≠ slot dir name (k + 2) :=
    fun heq => absurd (slot_injective dir name heq) (by omega)
  have hapart : ∀ i, i ≠ k + 1 → i ≠ k + 2 →
      fs''.node? (slot dir name i) = fs'.node? (slot dir name i) := by
    intro i hi hi'
    rw [hnode, Function.update_of_ne (fun heq => hi' (slot_injective dir name heq)),
      Function.update_of_ne (fun heq => hi (slot_injective dir name heq))]
  refine ⟨h.follows.trans hfollows, hfiles.trans h.files_eq, ?_, ?_, ?_, ?_⟩
  · intro i hle hlt
    rcases Nat.eq_or_lt_of_le hle with rfl | hlt'
    · rw [hnode, Function.update_self, hfile]
    · rw [hapart (i + 1) (by omega) (by omega)]
      exact h.moved i hlt' hlt
  · rw [hnode, Function.update_of_ne hne, Function.update_self]
  · intro i hi
    rw [hapart i (by omega) (by omega)]
    exact h.waiting i (by omega)
  · intro loc hloc
    rw [hnode, Function.update_of_ne (hloc (k + 2) (by omega)),
      Function.update_of_ne (hloc (k + 1) (by omega))]
    exact h.other loc hloc

theorem rotated {now : Int} (h : Shifted fs fs' dir name backups 1) (hbackups : 0 < backups)
    (hcurrent : fs.node? (slot dir name 0) = some (.file n)) (hfollows : Follows fs' fs'')
    (hfiles : fs''.files = fs'.files ++ [⟨#[], now⟩])
    (hnode : fs''.node? = Function.update
      (Function.update fs'.node? (slot dir name 1) (some (.file n)))
      (slot dir name 0) (some (.file fs'.files.length))) :
        Rotated fs fs'' dir name backups now where
  follows := h.follows.trans hfollows
  files_eq := by rw [hfiles, h.files_eq]
  current := by rw [hnode, Function.update_self, h.files_eq]
  moved := by
    intro i hi
    rw [hnode, Function.update_of_ne fun heq => absurd (slot_injective dir name heq) (by omega)]
    rcases Nat.eq_zero_or_pos i with rfl | hpos
    · rw [Function.update_self, hcurrent]
    · rw [Function.update_of_ne fun heq => absurd (slot_injective dir name heq) (by omega)]
      exact h.moved i hpos hi
  other := by
    intro loc hloc
    rw [hnode, Function.update_of_ne (hloc 0 (by omega)), Function.update_of_ne (hloc 1 (by omega))]
    exact h.other loc hloc

end Shifted

namespace Work

variable {w : Work} {dir : Location} {name : Text} {backups : Nat}

theorem removeOldest_clean (h : Register w.files w.log.path dir name backups)
    (hbackups : 0 < backups) (hclean : (w.removeOldest backups).problems = []) :
    w.problems = [] ∧ ∃ files, Shifted w.files files dir name backups backups ∧
      w.removeOldest backups = { w with files := files } := by
  obtain ⟨last, rfl⟩ : ∃ last, backups = last + 1 := ⟨backups - 1, by omega⟩
  rw [removeOldest] at hclean ⊢
  cases hremove : w.files.remove (numberedBackup w.log.path (last + 1)) with
  | error e =>
    simp only [hremove] at hclean
    exact absurd hclean (problems_note w _)
  | ok files =>
    simp only [hremove] at hclean
    have hplain := (h.plain _ (Nat.le_refl (last + 1))).not_directory
    obtain ⟨hfiles, hnode, -⟩ := (h.names (last + 1) (Nat.le_refl _)).remove_eq hremove
    refine ⟨hclean, files, ⟨.vacate h.site.sound hplain hnode hfiles, hfiles, ?_, ?_, ?_, ?_⟩, rfl⟩
    · intro i hle hlt
      omega
    · rw [hnode]
      exact Function.update_self _ _ _
    · intro i hi
      rw [hnode]
      exact Function.update_of_ne (fun heq => absurd (slot_injective dir name heq) (by omega)) _ _
    · intro loc hloc
      rw [hnode]
      exact Function.update_of_ne (hloc _ (Nat.le_refl _)) _ _

theorem shiftBackup_clean {start : FileSystem} {k : Nat}
    (h : Register start w.log.path dir name backups) (hk : k + 1 < backups)
    (hshifted : Shifted start w.files dir name backups (k + 2))
    (hclean : (w.shiftBackup (k + 1)).problems = []) :
    w.problems = [] ∧ ∃ files, Shifted start files dir name backups (k + 1) ∧
      w.shiftBackup (k + 1) = { w with files := files } := by
  have hsource : w.files.Names (numberedBackup w.log.path (k + 1)) dir (slotName name (k + 1)) :=
    (h.names (k + 1) (by omega)).keeps hshifted.follows.keeps
  have htarget : w.files.Names (numberedBackup w.log.path (k + 2)) dir (slotName name (k + 2)) :=
    (h.names (k + 2) (by omega)).keeps hshifted.follows.keeps
  have hwaiting : w.files.node? (slot dir name (k + 1)) = start.node? (slot dir name (k + 1)) :=
    hshifted.waiting (k + 1) (by omega)
  have hexists : w.files.exists? (numberedBackup w.log.path (k + 1)) =
      (start.node? (slot dir name (k + 1))).isSome := by
    rw [hsource.exists?_eq]
    exact congrArg Option.isSome hwaiting
  rw [shiftBackup] at hclean ⊢
  simp only [hexists] at hclean ⊢
  rcases h.plain (k + 1) (by omega) with hnone | ⟨n, hfile⟩
  · simp only [hnone, Option.isSome_none, Bool.false_eq_true, if_false] at hclean ⊢
    exact ⟨hclean, w.files, hshifted.gap hnone, rfl⟩
  · simp only [hfile, Option.isSome_some, if_true] at hclean ⊢
    cases hrename : w.files.rename (numberedBackup w.log.path (k + 1))
        (numberedBackup w.log.path (k + 1 + 1)) with
    | error e =>
      simp only [hrename] at hclean
      exact absurd hclean (problems_note w _)
    | ok files =>
      simp only [hrename] at hclean
      have hstands : w.files.node? (dir ++ [slotName name (k + 1)]) = some (.file n) := by
        rw [← hfile]
        exact hwaiting
      have hne : slot dir name (k + 1) ≠ slot dir name (k + 2) :=
        fun heq => absurd (slot_injective dir name heq) (by omega)
      obtain ⟨hdir, hfiles, hnode⟩ :=
        hsource.rename_eq hshifted.follows.sound hstands htarget hne hrename
      have hmoved : Follows w.files files :=
        .move hshifted.follows.sound hstands (hshifted.follows.keeps _ h.site.directory) hdir hne
          hfiles hnode hsource.isEntry
      exact ⟨hclean, files, hshifted.up hk hfile hmoved hfiles hnode, rfl⟩

theorem problems_shiftBackup {k : Nat} (hclean : (w.shiftBackup k).problems = []) :
    w.problems = [] := by
  simp only [shiftBackup] at hclean
  split_ifs at hclean
  · cases hrename : w.files.rename (numberedBackup w.log.path k)
        (numberedBackup w.log.path (k + 1)) with
    | error e =>
      simp only [hrename] at hclean
      exact absurd hclean (problems_note w _)
    | ok files =>
      simp only [hrename] at hclean
      exact hclean
  · exact hclean

theorem problems_shifts {order : List Nat} (hclean : (order.foldl shiftBackup w).problems = []) :
    w.problems = [] := by
  induction order generalizing w with
  | nil => exact hclean
  | cons k order ih => exact problems_shiftBackup (ih hclean)

theorem shiftOrder_succ (k : Nat) : (List.range (k + 1)).reverse.map (· + 1) =
    (k + 1) :: (List.range k).reverse.map (· + 1) := by
  simp [List.range_succ]

theorem shifts_clean {start : FileSystem} {k : Nat}
    (h : Register start w.log.path dir name backups) (hk : k + 1 ≤ backups)
    (hshifted : Shifted start w.files dir name backups (k + 1))
    (hclean : (((List.range k).reverse.map (· + 1)).foldl shiftBackup w).problems = []) :
    w.problems = [] ∧ ∃ files, Shifted start files dir name backups 1 ∧
      ((List.range k).reverse.map (· + 1)).foldl shiftBackup w = { w with files := files } := by
  induction k generalizing w with
  | zero => exact ⟨hclean, w.files, hshifted, rfl⟩
  | succ k ih =>
    rw [shiftOrder_succ, List.foldl_cons] at hclean ⊢
    obtain ⟨hproblems, files, hnext, hshift⟩ :=
      shiftBackup_clean h (by omega) hshifted (problems_shifts hclean)
    rw [hshift] at hclean ⊢
    obtain ⟨-, files', hdone, hrest⟩ :=
      ih (w := { w with files := files }) h (by omega) hnext hclean
    exact ⟨hproblems, files', hdone, hrest⟩

end Work

/-- A log file in order: it stands at its path, its stream appends to it, and the size it reckons
with is that of the content. -/
structure Ready (limit backups : Nat) (w : Work) (dir : Location) (name : Text) : Prop where
  register : Register w.files w.log.path dir name backups
  rotation : w.log.rotation = .bySize limit backups
  stream : ∃ n file position, w.log.stream = some ⟨.file n, position, none⟩ ∧
    (position = none ∨ position = some w.log.size) ∧
    w.files.node? (slot dir name 0) = some (.file n) ∧
    w.files.files[n]? = some file ∧ file.content.size = w.log.size

namespace Ready

variable {limit backups : Nat} {w w' : Work} {dir : Location} {name : Text}

theorem register_follows {files : FileSystem}
    (h : Register w.files w.log.path dir name backups) (hfollows : Follows w.files files)
    (hplain : ∀ i ≤ backups, files.IsFileOrFree (slot dir name i)) :
    Register files w.log.path dir name backups where
  site := h.site.follows hfollows
  names := fun i hi => (h.names i hi).keeps hfollows.keeps
  plain := hplain

theorem size_eq (h : Ready limit backups w dir name) :
    (slotsAt w.files w.log.path backups).current.length = w.log.size := by
  obtain ⟨n, file, position, -, -, hnode, hfile, hsize⟩ := h.stream
  rw [h.register.slotsAt_eq, contentOf_file hnode hfile, Option.getD_some, ← hsize,
    Array.length_toList]

theorem isWritable (h : Ready limit backups w dir name) : w.isWritable = true := by
  obtain ⟨n, file, position, hstream, -⟩ := h.stream
  rw [Work.isWritable, hstream]
  rfl

theorem flushes (h : Ready limit backups w dir name) : w.log.flushes = true := by
  obtain ⟨n, file, position, hstream, -⟩ := h.stream
  rw [LogFile.flushes, hstream]
  rfl

theorem put {now : Int} {entry : Text} (h : Ready limit backups w dir name)
    (hput : Work.put now entry w = (true, w')) :
    Ready limit backups w' dir name ∧ w'.log.path = w.log.path ∧
      slotsAt w'.files w.log.path backups =
        ⟨(slotsAt w.files w.log.path backups).current ++ entry,
          (slotsAt w.files w.log.path backups).backups⟩ ∧
      ∀ loc, loc ≠ slot dir name 0 → Untouched w.files w'.files loc := by
  obtain ⟨n, file, position, hstream, hposition, hnode, hfile, hsize⟩ := h.stream
  have hend : position.getD file.content.size = file.content.size := by
    rcases hposition with rfl | rfl
    · rfl
    · rw [hsize]
      rfl
  obtain ⟨files, hfollows, hnodes, -, hself, hothers, hresult⟩ :=
    Work.put_file h.register.site.sound hstream hfile hend hput
  cases hresult
  have huntouched : ∀ loc, loc ≠ slot dir name 0 → Untouched w.files files loc :=
    fun _ => h.register.site.sound.untouched hnode hnodes hothers
  have hregister : Register files w.log.path dir name backups :=
    register_follows h.register hfollows
      (by simpa only [IsFileOrFree, hnodes] using h.register.plain)
  refine ⟨⟨hregister, h.rotation, n, _, _, rfl, ?_, ?_, hself, ?_⟩, rfl, ?_, huntouched⟩
  · rcases hposition with rfl | rfl
    · exact .inl rfl
    · exact .inr rfl
  · rw [hnodes, hnode]
  · rw [File.size_append, hsize]
  · rw [hregister.slotsAt_eq, h.register.slotsAt_eq,
      contentOf_file (hnodes ▸ hnode) hself, contentOf_file hnode hfile]
    congr 1
    · simp [File.append]
    · refine List.map_congr_left fun i _ => ?_
      have hne : slot dir name (i + 1) ≠ slot dir name 0 :=
        fun heq => absurd (slot_injective dir name heq) (by omega)
      exact (huntouched _ hne).contentOf_eq

theorem rotate_nothing {now : Int} (h : Ready limit 0 w dir name)
    (hclean : (w.rotateBySize now 0).problems = []) :
    Ready limit 0 (w.rotateBySize now 0) dir name ∧ w.problems = [] ∧
      (w.rotateBySize now 0).log.path = w.log.path ∧
      slotsAt (w.rotateBySize now 0).files w.log.path 0 = ⟨[], []⟩ ∧
      ∀ loc, loc ≠ slot dir name 0 → Untouched w.files (w.rotateBySize now 0).files loc := by
  obtain ⟨n, file, position, hstream, hposition, hnode, hfile, hsize⟩ := h.stream
  have hreopen : w.rotateBySize now 0 = w.reopen now true := rfl
  rw [hreopen] at hclean ⊢
  obtain ⟨hproblems, target, files, hopen, hresult⟩ :=
    Work.reopen_site h.flushes h.register.site hclean
  have hnames := h.register.site.names
  rw [hnames.openFile_truncate hnode] at hopen
  cases hopen
  have hnode' : (w.files.modifyFile n fun _ => ⟨#[], now⟩).node? (slot dir name 0) =
      some (.file n) := hnode
  have hself := getElem?_modifyFile_self hfile fun _ => ⟨#[], now⟩
  have hfollows := Follows.modifyFile h.register.site.sound n fun _ => ⟨#[], now⟩
  have hempty : (w.files.modifyFile n fun _ => ⟨#[], now⟩).size? w.log.path = some 0 := by
    rw [(hnames.keeps hfollows.keeps).size?_eq hnode', hself]
    rfl
  have hregister : Register (w.files.modifyFile n fun _ => ⟨#[], now⟩) w.log.path dir name 0 :=
    register_follows h.register hfollows h.register.plain
  rw [hresult, Work.opened, hempty]
  refine ⟨⟨hregister, h.rotation, n, ⟨#[], now⟩, some 0, rfl, .inr rfl, hnode', hself, rfl⟩,
    hproblems, rfl, ?_, ?_⟩
  · rw [hregister.slotsAt_eq, contentOf_file hnode' hself]
    rfl
  · exact fun _ => h.register.site.sound.untouched hnode rfl fun m hm =>
      getElem?_modifyFile_of_ne hm _

/-- The oldest backup goes, the others move up, and the current file becomes the first. -/
theorem rotateBySize_clean {now : Int} {last : Nat} (h : Ready limit (last + 1) w dir name)
    (hclean : (w.rotateBySize now (last + 1)).problems = []) :
    w.problems = [] ∧ ∃ files, Rotated w.files files dir name (last + 1) now ∧
      w.rotateBySize now (last + 1) = { w with
        files := files
        log := { w.log with
          stream := some ⟨.file w.files.files.length, none, none⟩
          size := 0 } } := by
  obtain ⟨n, -, -, -, -, hnode, -, -⟩ := h.stream
  have hrotate : w.rotateBySize now (last + 1) =
      (((List.range last).reverse.map (· + 1)).foldl Work.shiftBackup
        (w.removeOldest (last + 1))).rotateTo now (Work.numberedBackup w.log.path 1) := rfl
  rw [hrotate] at hclean ⊢
  have hshifts : (((List.range last).reverse.map (· + 1)).foldl Work.shiftBackup
      (w.removeOldest (last + 1))).problems = [] := Work.problems_rotateTo hclean
  obtain ⟨hproblems, files₁, hremoved, hremove⟩ :=
    Work.removeOldest_clean h.register (Nat.succ_pos last) (Work.problems_shifts hshifts)
  rw [hremove] at hclean hshifts ⊢
  obtain ⟨-, files₂, hmoved, hshift⟩ :=
    Work.shifts_clean (w := { w with files := files₁ }) h.register (Nat.le_refl _) hremoved hshifts
  rw [hshift] at hclean ⊢
  have hcurrent : files₂.node? (dir ++ [name]) = some (.file n) := by
    rw [← hnode]
    exact hmoved.waiting 0 Nat.one_pos
  obtain ⟨-, files₃, -, hfollows, hfiles, hnodes, hresult⟩ :=
    Work.rotateTo_clean (w := { w with files := files₂ }) h.flushes
      (h.register.site.follows hmoved.follows) hcurrent (isLabel_ofNat 1) hclean
  refine ⟨hproblems, files₃, hmoved.rotated (Nat.succ_pos last) hnode hfollows hfiles hnodes, ?_⟩
  rw [← hmoved.files_eq]
  exact hresult

theorem rotate_backups {now : Int} {last : Nat} (h : Ready limit (last + 1) w dir name)
    (hclean : (w.rotateBySize now (last + 1)).problems = []) :
    Ready limit (last + 1) (w.rotateBySize now (last + 1)) dir name ∧ w.problems = [] ∧
      (w.rotateBySize now (last + 1)).log.path = w.log.path ∧
      (∀ i ≤ last, (w.rotateBySize now (last + 1)).files.contentOf (slot dir name (i + 1)) =
        w.files.contentOf (slot dir name i)) ∧
      (w.rotateBySize now (last + 1)).files.contentOf (slot dir name 0) = some [] ∧
      ∀ loc, (∀ i ≤ last + 1, loc ≠ slot dir name i) →
        Untouched w.files (w.rotateBySize now (last + 1)).files loc := by
  obtain ⟨hproblems, files, hrotated, hresult⟩ := h.rotateBySize_clean hclean
  rw [hresult]
  have hnew : files.files[w.files.files.length]? = some ⟨#[], now⟩ := by
    rw [hrotated.files_eq]
    simp
  have hkept : ∀ {loc m}, w.files.node? loc = some (.file m) →
      files.files[m]? = w.files.files[m]? := by
    intro loc m hm
    rw [hrotated.files_eq, List.getElem?_append_left (h.register.site.sound.inhabited hm)]
  have hregister : Register files w.log.path dir name (last + 1) := by
    refine register_follows h.register hrotated.follows fun i hi => ?_
    cases i with
    | zero => exact .inr ⟨_, hrotated.current⟩
    | succ i =>
      rw [IsFileOrFree, hrotated.moved i hi]
      exact h.register.plain i (Nat.le_of_succ_le hi)
  refine ⟨⟨hregister, h.rotation, _, _, none, rfl, .inl rfl, hrotated.current, hnew, rfl⟩,
    hproblems, rfl, fun i hi => ?_, contentOf_file hrotated.current hnew, fun loc hloc => ?_⟩
  · exact contentOf_congr (hrotated.moved i (Nat.lt_succ_of_le hi)) fun m hm => hkept hm
  · exact ⟨hrotated.other loc hloc, fun m hm => hkept hm⟩

theorem rotate {now : Int} (h : Ready limit backups w dir name)
    (hclean : (w.rotateBySize now backups).problems = []) :
    Ready limit backups (w.rotateBySize now backups) dir name ∧ w.problems = [] ∧
      (w.rotateBySize now backups).log.path = w.log.path ∧
      slotsAt (w.rotateBySize now backups).files w.log.path backups =
        ⟨[], (some (slotsAt w.files w.log.path backups).current ::
          (slotsAt w.files w.log.path backups).backups).take backups⟩ ∧
      ∀ loc, (∀ i ≤ backups, loc ≠ slot dir name i) →
        Untouched w.files (w.rotateBySize now backups).files loc := by
  cases backups with
  | zero =>
    obtain ⟨hready, hproblems, hpath, hslots, hothers⟩ := h.rotate_nothing hclean
    exact ⟨hready, hproblems, hpath, hslots, fun loc hloc => hothers loc (hloc 0 (Nat.le_refl 0))⟩
  | succ last =>
    obtain ⟨hready, hproblems, hpath, hshifted, hempty, hothers⟩ := h.rotate_backups hclean
    refine ⟨hready, hproblems, hpath, ?_, hothers⟩
    obtain ⟨n, file, -, -, -, hnode, hfile, -⟩ := h.stream
    have hregister := hready.register
    rw [hpath] at hregister
    rw [hregister.slotsAt_eq, h.register.slotsAt_eq, hempty, contentOf_file hnode hfile]
    congr 1
    have hall : some file.content.toList :: (List.range (last + 1)).map
        (fun i => w.files.contentOf (slot dir name (i + 1))) =
        (List.range (last + 2)).map fun i => w.files.contentOf (slot dir name i) := by
      rw [← contentOf_file hnode hfile, List.range_succ_eq_map (n := last + 1), List.map_cons,
        List.map_map]
      rfl
    rw [Option.getD_some, hall, ← List.map_take, List.take_range, Nat.min_eq_left (by omega)]
    refine List.map_congr_left fun i hi => ?_
    exact hshifted i (Nat.lt_succ_iff.mp (List.mem_range.mp hi))

theorem write {clock : Clock} {entry : Text} (h : Ready limit backups w dir name)
    (hwrite : w.write clock entry = (true, w')) (hclean : w'.problems = []) :
    Ready limit backups w' dir name ∧ w'.log.path = w.log.path ∧
      slotsAt w'.files w.log.path backups =
        (slotsAt w.files w.log.path backups).write limit entry ∧
      ∀ loc, (∀ i ≤ backups, loc ≠ slot dir name i) → Untouched w.files w'.files loc := by
  obtain ⟨hbefore, hput⟩ := Work.write_clean hwrite hclean
  have hlength : (slotsAt w.files w.log.path backups).backups.length = backups := by
    simp [slotsAt]
  have hdue := Slots.exceeds_iff h.size_eq limit entry.length
  have hstep : w.beforeWrite clock entry.length =
      if limit ≠ 0 ∧ w.log.size ≠ 0 ∧ limit < w.log.size + entry.length then
        w.rotateBySize (Instant.floorSeconds clock.wall) backups
      else w := by
    rw [Work.beforeWrite, h.rotation]
  rw [hstep] at hbefore hput
  rw [Slots.write]
  by_cases hrotates : limit ≠ 0 ∧ w.log.size ≠ 0 ∧ limit < w.log.size + entry.length
  · rw [if_pos hrotates] at hbefore hput
    rw [if_pos (hdue.mpr hrotates), hlength]
    obtain ⟨hready, -, hpath, hslots, hothers⟩ := h.rotate hbefore
    obtain ⟨hready', hpath', hslots', hothers'⟩ := hready.put (hput hready.isWritable)
    rw [hpath, hslots] at hslots'
    refine ⟨hready', hpath'.trans hpath, hslots', fun loc hloc => ?_⟩
    exact (hothers loc hloc).trans (hothers' loc (hloc 0 (Nat.zero_le _)))
  · rw [if_neg hrotates] at hput
    rw [if_neg fun h' => hrotates (hdue.mp h')]
    obtain ⟨hready', hpath', hslots', hothers'⟩ := h.put (hput h.isWritable)
    exact ⟨hready', hpath', hslots', fun loc hloc => hothers' loc (hloc 0 (Nat.zero_le _))⟩

end Ready

def Work.writeAll? : List (Clock × Text) → Work → Option Work
  | [], w => some w
  | (clock, entry) :: rest, w =>
    match w.write clock entry with
    | (true, w') => if w'.problems = [] then writeAll? rest w' else none
    | (false, _) => none

namespace Work

def write? (clock : Clock) (entry : Text) (w : Work) : Option Work :=
  match w.write clock entry with
  | (true, w') => if w'.problems = [] then some w' else none
  | (false, _) => none

variable {clock : Clock} {entry : Text} {rest : List (Clock × Text)} {w w' : Work}

theorem write?_eq_some :
    w.write? clock entry = some w' ↔ w.write clock entry = (true, w') ∧ w'.problems = [] := by
  rw [write?]
  constructor
  · intro h
    split at h
    next middle hwrite =>
      split_ifs at h with hclean
      cases h
      exact ⟨hwrite, hclean⟩
    · cases h
  · rintro ⟨hwrite, hclean⟩
    simp only [hwrite, hclean, if_true]

theorem writeAll?_cons (clock : Clock) (entry : Text) (rest : List (Clock × Text)) (w : Work) :
    w.writeAll? ((clock, entry) :: rest) = (w.write? clock entry).bind (writeAll? rest) := by
  rw [writeAll?, write?]
  cases w.write clock entry with
  | mk taken next =>
    cases taken with
    | false => rfl
    | true =>
      dsimp only
      split_ifs <;> rfl

theorem writeAll?_cons_eq_some :
    w.writeAll? ((clock, entry) :: rest) = some w' ↔
      ∃ middle, w.write clock entry = (true, middle) ∧ middle.problems = [] ∧
        middle.writeAll? rest = some w' := by
  rw [writeAll?_cons, Option.bind_eq_some_iff]
  simp only [write?_eq_some, and_assoc]

end Work

theorem Work.writeAll?_refines {limit backups : Nat} {Holds : Work → Prop} {apart : Location → Prop}
    (hstep : ∀ {clock entry w w'}, Holds w → w.write clock entry = (true, w') → w'.problems = [] →
      Holds w' ∧ w'.log.path = w.log.path ∧
        slotsAt w'.files w.log.path backups =
          (slotsAt w.files w.log.path backups).write limit entry ∧
        ∀ loc, apart loc → Untouched w.files w'.files loc)
    {w w' : Work} {entries : List (Clock × Text)} (h : Holds w)
    (hrun : w.writeAll? entries = some w') :
    slotsAt w'.files w.log.path backups =
        (slotsAt w.files w.log.path backups).run limit (entries.map (·.2)) ∧
      ∀ loc, apart loc → Untouched w.files w'.files loc := by
  induction entries generalizing w with
  | nil =>
    cases hrun
    exact ⟨rfl, fun loc _ => .refl _ loc⟩
  | cons e entries ih =>
    obtain ⟨clock, entry⟩ := e
    obtain ⟨middle, hwrite, hclean, hrest⟩ := Work.writeAll?_cons_eq_some.mp hrun
    obtain ⟨hholds, hpath, hslots, hothers⟩ := hstep h hwrite hclean
    obtain ⟨hslots', hothers'⟩ := ih hholds hrest
    rw [hpath, hslots] at hslots'
    exact ⟨hslots', fun loc hloc => (hothers loc hloc).trans (hothers' loc hloc)⟩

end LogFile

end StructuredLog
