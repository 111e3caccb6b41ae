import StructuredLog.Files.LogFile
import StructuredLog.Proofs.Files.Directories
import StructuredLog.Proofs.Number.Digits

/-!
# Opening, rotating and writing without problems

When nothing is noted, every operation of a log file at work took the way of success. At a path
whose directories are there, opening again makes at most the file itself, and a rotation moves the
file to its new name and starts an empty one.
-/

namespace StructuredLog

open FileSystem

namespace File

def append (f : File) (data : Text) (now : Int) : File :=
  ⟨f.content ++ data, if data = [] then f.modified else now⟩

theorem append_nil (f : File) (now : Int) : f.append [] now = f := by
  simp [append]

theorem put_of_end {f : File} {position : Option Nat}
    (h : position.getD f.content.size = f.content.size)
    (data : Text) (now : Int) : f.put position data now = f.append data now := by
  rw [put, append, h]
  split_ifs with hempty
  · simp [hempty]
  · rw [overlay, if_pos rfl]

theorem size_append (f : File) (data : Text) (now : Int) :
    (f.append data now).content.size = f.content.size + data.length := by
  rw [append, ← Array.length_toList, Array.toList_appendList, List.length_append,
    Array.length_toList]

end File

/-- A path at which a log file can live: it has no NUL, the directories above it are there, and it
ends in a name. -/
structure Site (fs : FileSystem) (path : Text) (dir : Location) (name : Text) : Prop where
  sound : fs.Sound
  no_nul : 0 ∉ path
  parent : fs.HasParent path
  names : fs.Names path dir name

namespace Site

variable {fs fs' : FileSystem} {path : Text} {dir : Location} {name : Text}

theorem follows (h : Site fs path dir name) (hfollows : Follows fs fs') :
    Site fs' path dir name where
  sound := hfollows.sound
  no_nul := h.no_nul
  parent := h.parent.keeps hfollows.keeps
  names := h.names.keeps hfollows.keeps

theorem directory (h : Site fs path dir name) : fs.node? dir = some .directory :=
  h.names.directory h.sound

theorem openFile_missing (h : Site fs path dir name) (hfree : fs.node? (dir ++ [name]) = none)
    {truncate : Bool} {now : Int} {target : WriteTarget}
    (hopen : fs.openFile path truncate now = .ok (target, fs')) :
    target = .file fs.files.length ∧ Follows fs fs' ∧ fs'.files = fs.files ++ [⟨#[], now⟩] ∧
      fs'.node? = Function.update fs.node? (dir ++ [name]) (some (.file fs.files.length)) := by
  obtain ⟨htarget, hfiles, hnode⟩ := h.names.openFile_missing hfree hopen
  exact ⟨htarget, .openFile h.sound hopen, hfiles, hnode⟩

end Site

namespace LogFile

namespace Work

variable {w : Work} {now : Int} {truncate : Bool} {path : Text} {dir : Location} {name : Text}

def opened (w : Work) (target : WriteTarget) (truncate : Bool) (files : FileSystem) : Work :=
  { w with
    files := files
    log := { w.log with
      stream := some ⟨target, if truncate then some 0 else none, none⟩
      size := (files.size? w.log.path).getD 0 } }

theorem drained_of_flushes (h : w.log.flushes = true) (now : Int) : w.drained now = w.files := by
  rw [drained]
  split
  next hstream =>
    rw [flushes, hstream] at h
    cases h
  · rfl

theorem follows_drained (hs : w.files.Sound) (now : Int) : Follows w.files (w.drained now) := by
  rw [drained]
  split
  · exact .write hs ..
  · exact .refl hs

theorem node?_drained (w : Work) (now : Int) : (w.drained now).node? = w.files.node? := by
  rw [drained]
  split
  · exact node?_write ..
  · rfl

theorem openStream_eq (w : Work) (now : Int) (truncate : Bool) :
    w.openStream now truncate = match w.files.makeParent w.log.path with
      | (.error e, files) => (.error e, { w with files := files })
      | (.ok (), files) =>
        match files.openFile w.log.path truncate now with
        | .error _ => (.error .denied, { w with files := files })
        | .ok (target, files) => (.ok (), w.opened target truncate files) := rfl

theorem openStream_ok {w' : Work} (h : w.openStream now truncate = (.ok (), w')) :
    ∃ made target files, w.files.makeParent w.log.path = (.ok (), made) ∧
      made.openFile w.log.path truncate now = .ok (target, files) ∧
      w' = w.opened target truncate files := by
  rw [openStream_eq] at h
  cases hparent : w.files.makeParent w.log.path with
  | mk result made =>
    rw [hparent] at h
    cases result with
    | error e => cases h
    | ok _ =>
      dsimp only at h
      cases hopen : made.openFile w.log.path truncate now with
      | error e =>
        rw [hopen] at h
        cases h
      | ok result =>
        rw [hopen] at h
        cases h
        exact ⟨made, result.1, result.2, rfl, hopen, rfl⟩

theorem problems_note (w : Work) (p : FileProblem) : (w.note p).problems ≠ [] := by
  simp [note]

theorem problems_openStream {result : Except FileError Unit} {w' : Work}
    (h : w.openStream now truncate = (result, w')) : w'.problems = w.problems := by
  rw [openStream] at h
  dsimp only at h
  split at h
  · cases h
    rfl
  · split at h
    · cases h
      rfl
    · cases h
      rfl

theorem reopen_clean (h : (w.reopen now truncate).problems = []) :
    w.problems = [] ∧ ∃ made target files,
      (w.drained now).makeParent w.log.path = (.ok (), made) ∧
      made.openFile w.log.path truncate now = .ok (target, files) ∧
      w.reopen now truncate = w.opened target truncate files := by
  rw [reopen] at h ⊢
  cases hopen : (w.close now).openStream now truncate with
  | mk result w' =>
    rw [hopen] at h
    cases result with
    | error e => exact absurd h (problems_note w' _)
    | ok _ =>
      have hproblems := problems_openStream hopen
      obtain ⟨made, target, files, hparent, hfile, rfl⟩ := openStream_ok hopen
      exact ⟨hproblems ▸ h, made, target, files, hparent, hfile, rfl⟩

theorem reopen_site (hflushes : w.log.flushes = true) (hsite : Site w.files w.log.path dir name)
    (h : (w.reopen now truncate).problems = []) :
    w.problems = [] ∧
      ∃ target files, w.files.openFile w.log.path truncate now = .ok (target, files) ∧
      w.reopen now truncate = w.opened target truncate files := by
  obtain ⟨hproblems, made, target, files, hparent, hfile, hreopen⟩ := reopen_clean h
  rw [drained_of_flushes hflushes, hsite.parent.makeParent_eq] at hparent
  cases hparent
  exact ⟨hproblems, target, files, hfile, hreopen⟩

theorem reopen_missing (hflushes : w.log.flushes = true) (hsite : Site w.files w.log.path dir name)
    (hfree : w.files.node? (dir ++ [name]) = none)
    (h : (w.reopen now truncate).problems = []) :
    w.problems = [] ∧ ∃ files,
      Follows w.files files ∧
      files.files = w.files.files ++ [⟨#[], now⟩] ∧
      files.node? = Function.update w.files.node? (dir ++ [name])
        (some (.file w.files.files.length)) ∧
      w.reopen now truncate = { w with
        files := files
        log := { w.log with
          stream := some ⟨.file w.files.files.length, if truncate then some 0 else none, none⟩
          size := 0 } } := by
  obtain ⟨hproblems, target, files, hopen, hreopen⟩ := reopen_site hflushes hsite h
  obtain ⟨rfl, hfollows, hfiles, hnode⟩ := hsite.openFile_missing hfree hopen
  have hstands : files.node? (dir ++ [name]) = some (.file w.files.files.length) := by
    rw [hnode, Function.update_self]
  have hsize : files.size? w.log.path = some 0 := by
    rw [(hsite.follows hfollows).names.size?_eq hstands, hfiles]
    simp
  refine ⟨hproblems, files, hfollows, hfiles, hnode, ?_⟩
  rw [hreopen, opened, hsize]
  rfl

theorem rotateTo_eq (w : Work) (now : Int) (target : Text) :
    w.rotateTo now target = match (w.drained now).rename w.log.path target with
      | .ok files => reopen now false { w.close now with files := files }
      | .error e => reopen now false ((w.close now).note (.cannotRotate target e)) := rfl

theorem rotateTo_ok {target : Text} (h : (w.rotateTo now target).problems = []) :
    ∃ files, (w.drained now).rename w.log.path target = .ok files ∧
      w.rotateTo now target = reopen now false { w.close now with files := files } := by
  rw [rotateTo_eq] at h ⊢
  cases hrename : (w.drained now).rename w.log.path target with
  | error e =>
    rw [hrename] at h
    exact absurd (reopen_clean h).1 (problems_note _ _)
  | ok files => exact ⟨files, rfl, rfl⟩

theorem problems_rotateTo {target : Text} (h : (w.rotateTo now target).problems = []) :
    w.problems = [] := by
  obtain ⟨files, -, hrotate⟩ := rotateTo_ok h
  rw [hrotate] at h
  exact (reopen_clean h).1

theorem rotateTo_clean (hflushes : w.log.flushes = true)
    (hsite : Site w.files w.log.path dir name) {n : Nat}
    (hfile : w.files.node? (dir ++ [name]) = some (.file n)) {ext : Text}
    (hext : FilePath.IsLabel ext)
    (h : (w.rotateTo now (FilePath.withSuffix w.log.path ext)).problems = []) :
    w.problems = [] ∧ ∃ files,
      w.files.Names (FilePath.withSuffix w.log.path ext) dir (extended name ext) ∧
      Follows w.files files ∧
      files.files = w.files.files ++ [⟨#[], now⟩] ∧
      files.node? = Function.update
        (Function.update w.files.node? (dir ++ [extended name ext]) (some (.file n)))
        (dir ++ [name]) (some (.file w.files.files.length)) ∧
      w.rotateTo now (FilePath.withSuffix w.log.path ext) = { w with
        files := files
        log := { w.log with
          stream := some ⟨.file w.files.files.length, none, none⟩
          size := 0 } } := by
  obtain ⟨files, hrename, hrotate⟩ := rotateTo_ok h
  rw [drained_of_flushes hflushes] at hrename
  rw [hrotate] at h ⊢
  have htarget : w.files.Names (FilePath.withSuffix w.log.path ext) dir (extended name ext) := by
    rcases hsite.names.withSuffix hsite.no_nul hext with hnames | hlong
    · exact hnames
    · exact absurd hlong (resolve_of_rename hrename)
  have hne : dir ++ [name] ≠ dir ++ [extended name ext] :=
    fun heq => extended_ne (Location.last_eq heq).symm
  obtain ⟨hdir, hfiles, hnode⟩ := hsite.names.rename_eq hsite.sound hfile htarget hne hrename
  have hmoved : Follows w.files files :=
    .move hsite.sound hfile hsite.directory hdir hne hfiles hnode hsite.names.isEntry
  have hfree : files.node? (dir ++ [name]) = none := by
    rw [hnode, Function.update_of_ne hne, Function.update_self]
  obtain ⟨hproblems, files', hfollows, hfiles', hnode', hreopen⟩ :=
    reopen_missing (w := { w.close now with files := files }) rfl (hsite.follows hmoved) hfree h
  refine ⟨hproblems, files', htarget, hmoved.trans hfollows, ?_, ?_, ?_⟩
  · rw [hfiles', hfiles]
  · rw [hnode', hnode, hfiles, Function.update_comm hne, Function.update_idem,
      Function.update_comm hne.symm]
  · simp only [hreopen, hfiles]
    rfl

theorem put_eq_of_order {s : WriteStream} (w : Work) (hstream : w.log.stream = some s)
    (horder : s.failed = false) (now : Int) (entry : Text) :
    put now entry w =
      if w.files.room s.target entry = entry.length then
        (true, { w with
          files := w.files.write s.target s.position entry now
          log := { w.log with
            stream := some (s.advance entry.length)
            size := w.log.size + entry.length } })
      else
        (false, { w with
          files := w.files.write s.target s.position entry now
          log := { w.log with
            stream := some { s.advance (w.files.room s.target entry) with
              refused := some (w.files.disk.held entry) } } }) := by
  rw [put, hstream]
  simp only [horder, Bool.false_eq_true, if_false, disk_write]
  split_ifs with hroom
  · rw [hroom]
  · rfl

theorem put_eq {target : WriteTarget} {position : Option Nat} (w : Work) (now : Int)
    (hstream : w.log.stream = some ⟨target, position, none⟩) (entry : Text) :
    put now entry w =
      if w.files.room target entry = entry.length then
        (true, { w with
          files := w.files.write target position entry now
          log := { w.log with
            stream := some ⟨target, position.map (· + entry.length), none⟩
            size := w.log.size + entry.length } })
      else
        (false, { w with
          files := w.files.write target position entry now
          log := { w.log with
            stream := some ⟨target, position.map (· + w.files.room target entry),
              some (w.files.disk.held entry)⟩ } }) :=
  put_eq_of_order w hstream rfl now entry

theorem room_of_put {w' : Work} {target : WriteTarget} {position : Option Nat}
    (hstream : w.log.stream = some ⟨target, position, none⟩) {entry : Text}
    (h : put now entry w = (true, w')) : w.files.room target entry = entry.length := by
  rw [put_eq w now hstream] at h
  split_ifs at h with hroom
  · exact hroom
  · cases h

theorem put_file (hs : w.files.Sound) {n : Nat} {position : Option Nat} {file : File}
    (hstream : w.log.stream = some ⟨.file n, position, none⟩)
    (hfile : w.files.files[n]? = some file)
    (hend : position.getD file.content.size = file.content.size) {entry : Text} {w' : Work}
    (hput : put now entry w = (true, w')) :
    ∃ files, Follows w.files files ∧ files.node? = w.files.node? ∧
      files.files.length = w.files.files.length ∧
      files.files[n]? = some (file.append entry now) ∧
      (∀ m, m ≠ n → files.files[m]? = w.files.files[m]?) ∧
      w' = { w with
        files := files
        log := { w.log with
          stream := some ⟨.file n, position.map (· + entry.length), none⟩
          size := w.log.size + entry.length } } := by
  have hroom := room_of_put hstream hput
  have hwrite := write_of_room hroom position now
  refine ⟨w.files.write (.file n) position entry now, .write hs .., node?_write .., ?_, ?_, ?_, ?_⟩
  · rw [hwrite]
    exact List.length_modify _ _ _
  · rw [hwrite, getElem?_modifyFile_self hfile, File.put_of_end hend]
  · intro m hm
    rw [hwrite, getElem?_modifyFile_of_ne hm]
  · rw [put_eq w now hstream, if_pos hroom] at hput
    exact (congrArg Prod.snd hput).symm

theorem problems_put (w : Work) (now : Int) (entry : Text) :
    (put now entry w).2.problems = w.problems := by
  rw [put]
  split
  · rfl
  · split_ifs
    · rfl
    · dsimp only
      split_ifs <;> rfl

theorem write_clean {clock : Clock} {entry : Text} {w' : Work}
    (h : w.write clock entry = (true, w')) (hclean : w'.problems = []) :
    (w.beforeWrite clock entry.length).problems = [] ∧
      ((w.beforeWrite clock entry.length).isWritable = true →
        put (Instant.floorSeconds clock.wall) entry (w.beforeWrite clock entry.length) =
          (true, w')) := by
  rw [write] at h
  have hproblems := problems_put
    (if (w.beforeWrite clock entry.length).isWritable then w.beforeWrite clock entry.length
      else (w.beforeWrite clock entry.length).reopen (Instant.floorSeconds clock.wall) false)
    (Instant.floorSeconds clock.wall) entry
  rw [h, hclean] at hproblems
  by_cases hwritable : (w.beforeWrite clock entry.length).isWritable = true
  · rw [if_pos hwritable] at h hproblems
    exact ⟨hproblems.symm, fun _ => h⟩
  · rw [if_neg hwritable] at hproblems
    obtain ⟨hbefore, -⟩ := reopen_clean hproblems.symm
    exact ⟨hbefore, fun hcontra => absurd hcontra hwritable⟩

end Work

theorem create_eq_ok_iff {clock : Clock} {path : Text} {schedule : Schedule} {fs fs' : FileSystem}
    {log : LogFile} : create clock path schedule fs = (.ok log, fs') ↔
      ∃ w, Work.openStream (Instant.floorSeconds clock.wall) false
        ⟨⟨path, none, 0, .never⟩, fs, []⟩ =
          (.ok (), w) ∧ w.files = fs' ∧ log = { w.log with
            rotation := startRotation clock w.log.size (w.files.modified? path) schedule } := by
  rw [create]
  dsimp only
  cases hopen : Work.openStream (Instant.floorSeconds clock.wall) false
      ⟨⟨path, none, 0, .never⟩, fs, []⟩ with
  | mk result w =>
    cases result with
    | error e => simp
    | ok _ => simp [eq_comm, and_comm]

theorem create_ok {clock : Clock} {path : Text} {schedule : Schedule} {fs fs' : FileSystem}
    {log : LogFile} (hs : fs.Sound) (hpath : 0 ∉ path)
    (h : create clock path schedule fs = (.ok log, fs')) :
    ∃ made dir name target, fs.makeParent path = (.ok (), made) ∧ Follows fs made ∧
      AddsDirectories fs made ∧ Site made path dir name ∧
        made.node? (dir ++ [name]) ≠ some .directory ∧
      made.openFile path false (Instant.floorSeconds clock.wall) = .ok (target, fs') ∧
      log = ⟨path, some ⟨target, none, none⟩, (fs'.size? path).getD 0,
        startRotation clock ((fs'.size? path).getD 0) (fs'.modified? path) schedule⟩ := by
  obtain ⟨w, hopen, rfl, rfl⟩ := create_eq_ok_iff.mp h
  obtain ⟨made, target, files, hparent, hfile, rfl⟩ := Work.openStream_ok hopen
  obtain ⟨hfollows, hadds, hhas⟩ := makeParent_made hs hparent
  obtain ⟨dir, name, hnames, hdir⟩ := names_of_openFile hfile
  exact ⟨made, dir, name, target, hparent, hfollows, hadds, ⟨hfollows.sound, hpath, hhas, hnames⟩,
    hdir, hfile, rfl⟩

theorem create_stands {clock : Clock} {path : Text} {schedule : Schedule} {fs fs' : FileSystem}
    {log : LogFile} (hs : fs.Sound) (hpath : 0 ∉ path)
    (hcreate : create clock path schedule fs = (.ok log, fs')) :
    ∃ dir name, Site fs' path dir name ∧
      ((∃ n file, fs'.node? (dir ++ [name]) = some (.file n) ∧ fs'.files[n]? = some file ∧
        log = ⟨path, some ⟨.file n, none, none⟩, file.content.size,
          startRotation clock file.content.size (some file.modified) schedule⟩) ∨
        ∃ kind, fs'.node? (dir ++ [name]) = some (.special kind)) := by
  obtain ⟨made, dir, name, target, -, -, -, hsite, hdir, hopen, rfl⟩ := create_ok hs hpath hcreate
  have hfile : ∀ {n file}, Site fs' path dir name → fs'.node? (dir ++ [name]) = some (.file n) →
      fs'.files[n]? = some file → fs'.fileAt? path = some file := by
    intro n file hsite' hnode hcontent
    rw [hsite'.names.fileAt?_eq hnode, hcontent]
  cases hnode : made.node? (dir ++ [name]) with
  | none =>
    obtain ⟨rfl, hfollows, hfiles, hnodes⟩ := hsite.openFile_missing hnode hopen
    have hsite' := hsite.follows hfollows
    have hself : fs'.node? (dir ++ [name]) = some (.file made.files.length) := by
      rw [hnodes, Function.update_self]
    have hcontent := List.getElem?_eq_getElem (hsite'.sound.inhabited hself)
    refine ⟨dir, name, hsite', .inl ⟨_, _, hself, hcontent, ?_⟩⟩
    rw [size?, modified?, hfile hsite' hself hcontent]
    rfl
  | some node =>
    cases node with
    | directory => exact absurd hnode hdir
    | file n =>
      rw [hsite.names.openFile_append hnode] at hopen
      cases hopen
      have hcontent := List.getElem?_eq_getElem (hsite.sound.inhabited hnode)
      refine ⟨dir, name, hsite, .inl ⟨n, _, hnode, hcontent, ?_⟩⟩
      rw [size?, modified?, hfile hsite hnode hcontent]
      rfl
    | special kind =>
      rw [hsite.names.openFile_special hnode] at hopen
      cases hopen
      exact ⟨dir, name, hsite, .inr ⟨kind, hnode⟩⟩

theorem create_file {clock : Clock} {path : Text} {schedule : Schedule} {fs fs' : FileSystem}
    {log : LogFile} (hs : fs.Sound) (hpath : 0 ∉ path)
    (hcreate : create clock path schedule fs = (.ok log, fs')) {file : File}
    (hfile : fs'.fileAt? path = some file) :
    ∃ dir name n, Site fs' path dir name ∧ fs'.node? (dir ++ [name]) = some (.file n) ∧
      fs'.files[n]? = some file ∧
      log = ⟨path, some ⟨.file n, none, none⟩, file.content.size,
        startRotation clock file.content.size (some file.modified) schedule⟩ := by
  obtain ⟨dir, name, hsite, ⟨n, found, hnode, hcontent, rfl⟩ | ⟨kind, hkind⟩⟩ :=
    create_stands hs hpath hcreate
  · rw [hsite.names.fileAt?_eq hnode, hcontent] at hfile
    cases hfile
    exact ⟨dir, name, n, hsite, hnode, hcontent, rfl⟩
  · rw [fileAt?, hsite.names.stat_eq, hkind] at hfile
    cases hfile

end LogFile

end StructuredLog
