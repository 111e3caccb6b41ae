import StructuredLog.Proofs.Files.Changes

/-!
# What the operations on files do

For paths that end in a name, each operation that succeeds is one change of the map, and leaves the
content of every file alone except for the one it writes to.
-/

namespace StructuredLog

namespace FileSystem

open Location

theorem moveNode_ok {fs fs' : FileSystem} {moved : Node} {s t : Place}
    (h : fs.moveNode moved s t = .ok fs') :
    s.pathEnd ≠ .dots ∧ t.pathEnd ≠ .dots ∧
      (s.location = t.location ∧ fs' = fs ∨
        fs.mayReplace s.location t.location moved = .ok () ∧
          fs' = fs.move s.location t.location) := by
  rw [moveNode] at h
  split at h
  · cases h
  next hdots =>
    rw [not_or] at hdots
    refine ⟨hdots.1, hdots.2, ?_⟩
    split at h
    · cases h
    split at h
    · cases h
    split at h
    next hsame =>
      cases h
      exact .inl ⟨hsame, rfl⟩
    split at h
    · cases h
    next hmay =>
      cases h
      exact .inr ⟨hmay, rfl⟩

theorem canMove_of_mayReplace {fs : FileSystem} (hs : fs.Sound) {source target : Location}
    {moved : Node} (hsource : IsEntry source) (htarget : IsEntry target)
    (h : fs.mayReplace source target moved = .ok ()) : CanMove fs source target := by
  unfold mayReplace at h
  by_cases hbelow : source.isPrefixOf target = true
  · rw [if_pos hbelow] at h
    cases h
  by_cases habove : target.isPrefixOf source = true
  · rw [if_neg hbelow, if_pos habove] at h
    cases h
  rw [if_neg hbelow, if_neg habove] at h
  rw [List.isPrefixOf_iff_prefix] at hbelow habove
  refine ⟨hsource, htarget, hbelow, habove, fun below hnil => ?_⟩
  by_cases hdir : fs.node? target = some .directory
  · obtain ⟨first, rest, rfl⟩ := List.exists_cons_of_ne_nil hnil
    have hempty : fs.isEmptyDirectory target = true := by
      by_contra hnot
      rw [hdir] at h
      cases moved <;> simp [hnot] at h
    have hfirst := node?_of_isEmptyDirectory htarget hempty first
    rcases List.eq_nil_or_concat' rest with rfl | ⟨front, last, rfl⟩
    · exact hfirst
    · rw [List.append_cons]
      exact hs.node?_below (by simp [hfirst]) (by simp)
  · exact hs.node?_below hdir hnil

theorem rename_ok {fs fs' : FileSystem} {path target : Text} (h : fs.rename path target = .ok fs') :
    ∃ s t moved, fs.resolve path = .ok s ∧ fs.resolve target = .ok t ∧
      fs.node? s.location = some moved ∧ fs.moveNode moved s t = .ok fs' := by
  rw [rename] at h
  split at h
  · cases h
  next s hs =>
    split at h
    · cases h
    split at h
    · cases h
    next moved hmoved =>
      split at h
      · cases h
      next t ht => exact ⟨s, t, moved, hs, ht, hmoved, h⟩

section Names

variable {fs : FileSystem} {path : Text} {dir : Location} {name : Text}

theorem Names.stat_eq (h : fs.Names path dir name) :
    fs.stat path = match fs.node? (dir ++ [name]) with
      | none => .error .notFound
      | some node => .ok node := by
  rw [stat, h]
  cases hnode : fs.node? (dir ++ [name]) with
  | none => simp [hnode]
  | some node => cases node <;> simp [hnode]

theorem Names.stat_file (h : fs.Names path dir name) {n : Nat}
    (hfile : fs.node? (dir ++ [name]) = some (.file n)) : fs.stat path = .ok (.file n) := by
  rw [h.stat_eq, hfile]

theorem Names.exists?_eq (h : fs.Names path dir name) :
    fs.exists? path = (fs.node? (dir ++ [name])).isSome := by
  rw [exists?, h.stat_eq]
  cases fs.node? (dir ++ [name]) <;> rfl

theorem Names.fileAt?_eq (h : fs.Names path dir name) {n : Nat}
    (hfile : fs.node? (dir ++ [name]) = some (.file n)) : fs.fileAt? path = fs.files[n]? := by
  rw [fileAt?, h.stat_eq, hfile]

theorem Names.size?_eq (h : fs.Names path dir name) {n : Nat}
    (hfile : fs.node? (dir ++ [name]) = some (.file n)) :
    fs.size? path = fs.files[n]?.map (·.content.size) := by
  rw [size?, h.fileAt?_eq hfile]

theorem Names.openFile_append (h : fs.Names path dir name) {n : Nat}
    (hfile : fs.node? (dir ++ [name]) = some (.file n)) (now : Int) :
    fs.openFile path false now = .ok (.file n, fs) := by
  rw [openFile, h]
  simp [hfile]

theorem Names.openFile_truncate (h : fs.Names path dir name) {n : Nat}
    (hfile : fs.node? (dir ++ [name]) = some (.file n)) (now : Int) :
    fs.openFile path true now = .ok (.file n, fs.modifyFile n fun _ => ⟨#[], now⟩) := by
  rw [openFile, h]
  simp [hfile]

theorem Names.openFile_missing (h : fs.Names path dir name)
    (hfree : fs.node? (dir ++ [name]) = none) {truncate : Bool} {now : Int} {target : WriteTarget}
    {fs' : FileSystem} (hopen : fs.openFile path truncate now = .ok (target, fs')) :
    target = .file fs.files.length ∧ fs'.files = fs.files ++ [⟨#[], now⟩] ∧
      fs'.node? = Function.update fs.node? (dir ++ [name]) (some (.file fs.files.length)) := by
  rw [openFile, h] at hopen
  simp only [ne_eq, not_true_eq_false, if_false, hfree] at hopen
  split_ifs at hopen
  cases hopen
  exact ⟨rfl, rfl, node?_set h.isEntry _ _⟩

theorem Names.openFile_special (h : fs.Names path dir name) {kind : SpecialFile}
    (hspecial : fs.node? (dir ++ [name]) = some (.special kind)) (truncate : Bool) (now : Int) :
    fs.openFile path truncate now = .ok (.special kind, fs) := by
  rw [openFile, h]
  simp [hspecial]

theorem names_of_openFile {truncate : Bool} {now : Int} {target : WriteTarget} {fs' : FileSystem}
    (h : fs.openFile path truncate now = .ok (target, fs')) :
    ∃ dir name, fs.Names path dir name ∧ fs.node? (dir ++ [name]) ≠ some .directory := by
  rw [openFile] at h
  cases hresolve : fs.resolve path with
  | error e =>
    rw [hresolve] at h
    cases h
  | ok place =>
    rw [hresolve] at h
    by_cases hend : place.pathEnd = .name
    · obtain ⟨dir, name, rfl, hnames⟩ := names_of_resolve hresolve hend
      refine ⟨dir, name, hnames, ?_⟩
      intro hdir
      simp [hdir] at h
    · simp only [ne_eq, hend, not_false_eq_true, if_true] at h
      cases h

inductive Opened (fs fs' : FileSystem) (loc : Location) : WriteTarget → Prop
  | added (hfree : fs.node? loc = none) (hlength : fs'.files.length = fs.files.length + 1)
      (hfiles : ∀ n < fs.files.length, fs'.files[n]? = fs.files[n]?)
      (hnode : fs'.node? = Function.update fs.node? loc (some (.file fs.files.length))) :
      Opened fs fs' loc (.file fs.files.length)
  | found {n : Nat} (hstands : fs.node? loc = some (.file n))
      (hchange : fs' = fs ∨ ∃ change, fs' = fs.modifyFile n change) : Opened fs fs' loc (.file n)
  | special {kind : SpecialFile} (hsame : fs' = fs) : Opened fs fs' loc (.special kind)

theorem opened_of_openFile {truncate : Bool} {now : Int} {target : WriteTarget} {fs' : FileSystem}
    (hopen : fs.openFile path truncate now = .ok (target, fs')) :
    ∃ dir name, fs.Names path dir name ∧ Opened fs fs' (dir ++ [name]) target := by
  obtain ⟨dir, name, hnames, hdir⟩ := names_of_openFile hopen
  refine ⟨dir, name, hnames, ?_⟩
  cases hnode : fs.node? (dir ++ [name]) with
  | none =>
    obtain ⟨rfl, hfiles, hupdate⟩ := hnames.openFile_missing hnode hopen
    refine .added hnode (by simp [hfiles]) (fun n hn => ?_) hupdate
    rw [hfiles, List.getElem?_append_left hn]
  | some node =>
    cases node with
    | directory => exact absurd hnode hdir
    | special kind =>
      rw [hnames.openFile_special hnode] at hopen
      cases hopen
      exact .special rfl
    | file n =>
      cases truncate with
      | false =>
        rw [hnames.openFile_append hnode] at hopen
        cases hopen
        exact .found hnode (.inl rfl)
      | true =>
        rw [hnames.openFile_truncate hnode] at hopen
        cases hopen
        exact .found hnode (.inr ⟨_, rfl⟩)

theorem Names.remove_eq (h : fs.Names path dir name) {fs' : FileSystem}
    (hremove : fs.remove path = .ok fs') :
    fs'.files = fs.files ∧ fs'.node? = Function.update fs.node? (dir ++ [name]) none ∧
      (fs.node? (dir ++ [name]) = some .directory →
        fs.isEmptyDirectory (dir ++ [name]) = true) := by
  rw [remove, h] at hremove
  cases hnode : fs.node? (dir ++ [name]) with
  | none =>
    simp only [hnode] at hremove
    cases hremove
    refine ⟨rfl, ?_, by simp⟩
    rw [← hnode, Function.update_eq_self]
  | some node =>
    simp only [hnode, reduceCtorEq, if_false] at hremove
    split_ifs at hremove with hfixed hdir hempty
    · cases hremove
      exact ⟨rfl, node?_erase h.isEntry fs, fun _ => hempty⟩
    · cases hremove
      exact ⟨rfl, node?_erase h.isEntry fs, fun heq => absurd (Option.some.inj heq) hdir⟩

theorem Names.rename_eq (hs : fs.Sound) (h : fs.Names path dir name) {n : Nat}
    (hfile : fs.node? (dir ++ [name]) = some (.file n)) {target : Text} {dir' : Location}
    {name' : Text} (htarget : fs.Names target dir' name')
    (hne : dir ++ [name] ≠ dir' ++ [name']) {fs' : FileSystem}
    (hrename : fs.rename path target = .ok fs') :
    fs.node? (dir' ++ [name']) ≠ some .directory ∧ fs'.files = fs.files ∧
      fs'.node? = Function.update (Function.update fs.node? (dir ++ [name]) none)
        (dir' ++ [name']) (some (.file n)) := by
  obtain ⟨s, t, moved, hsource, htarget', hmoved, hmove⟩ := rename_ok hrename
  cases h.symm.trans hsource
  cases htarget.symm.trans htarget'
  cases hfile.symm.trans hmoved
  obtain ⟨-, -, ⟨hsame, -⟩ | ⟨hmay, rfl⟩⟩ := moveNode_ok hmove
  · exact absurd hsame hne
  · have hcan := canMove_of_mayReplace hs h.isEntry htarget.isEntry hmay
    refine ⟨?_, rfl, node?_move hs hcan hfile⟩
    intro hdir
    simp only [mayReplace, hdir] at hmay
    split_ifs at hmay

theorem resolve_of_rename {target : Text} {fs' : FileSystem}
    (h : fs.rename path target = .ok fs') : fs.resolve target ≠ .error .nameTooLong := by
  obtain ⟨s, t, moved, -, htarget, -, -⟩ := rename_ok h
  rw [htarget]
  simp

theorem exists_of_stat {fs : FileSystem} {p : Text} {n : Nat} (h : fs.stat p = .ok (.file n)) :
    ∃ loc, fs.node? loc = some (.file n) := by
  rw [stat] at h
  cases hresolve : fs.resolve p with
  | error e =>
    rw [hresolve] at h
    cases h
  | ok place =>
    rw [hresolve] at h
    refine ⟨place.location, ?_⟩
    cases hnode : fs.node? place.location with
    | none => simp [hnode] at h
    | some node =>
      cases node with
      | directory => simp [hnode] at h
      | file m =>
        simp only [hnode] at h
        split_ifs at h
        cases h
        rfl
      | special kind =>
        simp only [hnode] at h
        split_ifs at h
        cases h

end Names

theorem getElem?_modifyFile_self {fs : FileSystem} {n : Nat} {file : File}
    (h : fs.files[n]? = some file) (change : File → File) :
    (fs.modifyFile n change).files[n]? = some (change file) := by
  simp [modifyFile, h]

theorem getElem?_modifyFile_of_ne {fs : FileSystem} {n m : Nat} (h : m ≠ n)
    (change : File → File) : (fs.modifyFile n change).files[m]? = fs.files[m]? := by
  simp [modifyFile, Ne.symm h]

theorem Follows.modifyFile {fs : FileSystem} (hs : fs.Sound) (n : Nat) (change : File → File) :
    Follows fs (fs.modifyFile n change) where
  keeps := KeepsDirectories.refl fs
  sound := {
    parent := hs.parent
    inhabited := by
      intro loc m h
      simpa [FileSystem.modifyFile] using hs.inhabited h
    injective := hs.injective }

theorem Follows.openFile {fs fs' : FileSystem} {path : Text} (hs : fs.Sound) {truncate : Bool}
    {now : Int} {target : WriteTarget}
    (hopen : fs.openFile path truncate now = .ok (target, fs')) : Follows fs fs' := by
  obtain ⟨dir, name, hnames, hopened⟩ := opened_of_openFile hopen
  cases hopened with
  | added hfree hlength _ hnode =>
    refine .place hs (hnames.directory hs) (by simp [hfree]) hnode (by omega) ?_
    intro n hn
    cases hn
    refine ⟨by omega, fun other hother => ?_⟩
    exact absurd (hs.inhabited hother) (lt_irrefl _)
  | found _ hchange =>
    rcases hchange with rfl | ⟨change, rfl⟩
    · exact .refl hs
    · exact .modifyFile hs _ change
  | special hsame =>
    subst hsame
    exact .refl hs

theorem disk_openFile {fs fs' : FileSystem} {path : Text} {truncate : Bool} {now : Int}
    {target : WriteTarget} (hopen : fs.openFile path truncate now = .ok (target, fs')) :
    fs'.disk = fs.disk := by
  rw [openFile] at hopen
  split at hopen
  · cases hopen
  split at hopen
  · cases hopen
  split at hopen
  · cases hopen
  · cases hopen
    rfl
  · cases hopen
    split <;> rfl
  · split at hopen
    · cases hopen
    · cases hopen
      rfl

theorem disk_write (fs : FileSystem) (target : WriteTarget) (position : Option Nat) (data : Text)
    (now : Int) : (fs.write target position data now).disk = fs.disk := by
  cases target <;> rfl

theorem node?_write (fs : FileSystem) (target : WriteTarget) (position : Option Nat) (data : Text)
    (now : Int) : (fs.write target position data now).node? = fs.node? := by
  cases target <;> rfl

theorem write_of_room {fs : FileSystem} {n : Nat} {data : Text}
    (h : fs.room (.file n) data = data.length) (position : Option Nat) (now : Int) :
    fs.write (.file n) position data now = fs.modifyFile n (·.put position data now) := by
  rw [write, h, List.take_length]

theorem Follows.write {fs : FileSystem} (hs : fs.Sound) (target : WriteTarget)
    (position : Option Nat) (data : Text) (now : Int) :
    Follows fs (fs.write target position data now) := by
  cases target with
  | file n => exact .modifyFile hs n _
  | special kind => exact .refl hs

theorem Follows.move {fs fs' : FileSystem} (hs : fs.Sound) {source dir : Location} {name : Text}
    {n : Nat} (hfile : fs.node? source = some (.file n)) (hdir : fs.node? dir = some .directory)
    (htarget : fs.node? (dir ++ [name]) ≠ some .directory) (hne : source ≠ dir ++ [name])
    (hfiles : fs'.files = fs.files)
    (hnode : fs'.node? = Function.update (Function.update fs.node? source none)
      (dir ++ [name]) (some (.file n))) (hsource : IsEntry source) : Follows fs fs' := by
  let middle : FileSystem := ⟨Assoc.erase source fs.entries, fs.files, fs.disk⟩
  have hmiddle : middle.node? = Function.update fs.node? source none := node?_erase hsource fs
  have hvacate : Follows fs middle := .vacate hs (by simp [hfile]) hmiddle rfl
  have htarget' : middle.node? (dir ++ [name]) ≠ some .directory := by
    rwa [hmiddle, Function.update_of_ne (Ne.symm hne)]
  refine hvacate.trans (.place hvacate.sound (hvacate.keeps dir hdir) htarget'
    (by rw [hnode, hmiddle]) (by rw [hfiles]) ?_)
  intro m hm
  cases hm
  refine ⟨hfiles ▸ hs.inhabited hfile, ?_⟩
  intro other hother
  rw [hmiddle] at hother
  by_cases heq : other = source
  · rw [heq, Function.update_self] at hother
    cases hother
  · rw [Function.update_of_ne heq] at hother
    exact heq (hs.injective hother hfile)

end FileSystem

end StructuredLog
