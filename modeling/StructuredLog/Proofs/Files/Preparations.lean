import StructuredLog.Proofs.Files.Additions

/-!
# Opening a file, and what that adds

The directories above a path can be made if nothing but directories stands on the way and nothing
is missing in the fixed part. The path can then be opened if it ends in a name, unless that is a
directory's. Whether or not this works out, all that stood stays, and what is new is a directory
that was made on the way or the empty file at its end.
-/

namespace StructuredLog

namespace FileSystem

open Location

variable {fs fs' fs'' : FileSystem} {path : Text} {here : Location} {names : List Text} {now : Int}

def Makeable (fs : FileSystem) (loc : Location) : Prop :=
  fs.node? loc = some .directory ∨ fs.node? loc = none ∧ isFixed loc = false

def Passable (fs : FileSystem) (here : Location) (names : List Text) : Prop :=
  (∀ name ∈ names, name.length ≤ FilePath.maxName) ∧ ∀ loc ∈ stops here names, fs.Makeable loc

theorem isFixed_concat {name : Text} (hslash : FilePath.slash ∉ name) :
    isFixed (here ++ [name]) = isFixed here := by
  cases here with
  | nil =>
    have hne : name ≠ [FilePath.slash] := fun h => hslash (by simp [h])
    simp [isFixed, hne]
  | cons first rest => rfl

theorem passable_cons {name : Text} (hdot : name ≠ FilePath.dot) (hdots : name ≠ FilePath.dotDot) :
    Passable fs here (name :: names) ↔ name.length ≤ FilePath.maxName ∧
      fs.Makeable (here ++ [name]) ∧ Passable fs (here ++ [name]) names := by
  simp only [Passable, stops, if_neg hdot, if_neg hdots, List.forall_mem_cons]
  tauto

theorem makeable_withDirectory {place loc : Location} (hentry : IsEntry place)
    (hplace : fs.Makeable place) : (fs.withDirectory place).Makeable loc ↔ fs.Makeable loc := by
  rw [Makeable, node?_withDirectory hentry]
  by_cases heq : loc = place
  · rw [heq, Function.update_self]
    exact iff_of_true (.inl rfl) hplace
  · rw [Function.update_of_ne heq, Makeable]

theorem passable_withDirectory {place : Location} (hentry : IsEntry place)
    (hplace : fs.Makeable place) :
    Passable (fs.withDirectory place) here names ↔ Passable fs here names := by
  simp only [Passable, makeable_withDirectory hentry hplace]

theorem makeWay_ok_iff {making : Bool} (hnames : ∀ name ∈ names, FilePath.slash ∉ name) :
    (fs.makeWay making here names).1 = .ok () ↔ Passable fs here names := by
  induction names generalizing fs making here with
  | nil => simp [makeWay, Passable, stops]
  | cons name names ih =>
    obtain ⟨hslash, hrest⟩ := List.forall_mem_cons.mp hnames
    by_cases hdot : name = FilePath.dot
    · have hshort : FilePath.dot.length ≤ FilePath.maxName := by decide
      rw [makeWay, if_pos hdot, ih hrest, Passable, Passable, stops, if_pos hdot, hdot]
      simp [hshort]
    by_cases hdots : name = FilePath.dotDot
    · have hshort : FilePath.dotDot.length ≤ FilePath.maxName := by decide
      rw [makeWay, if_neg hdot, if_pos hdots, ih hrest, Passable, Passable, stops, if_neg hdot,
        if_pos hdots, hdots]
      simp [hshort]
    rw [passable_cons hdot hdots, Makeable, isFixed_concat hslash]
    cases wayStep fs making here names hdot hdots with
    | entered hshort hdir hgoes =>
      rw [hgoes, ih hrest]
      simp [hshort, hdir]
    | made hshort hfree hopen hgoes =>
      have hmakeable : fs.Makeable (here ++ [name]) :=
        .inr ⟨hfree, by rwa [isFixed_concat hslash]⟩
      have hentry : IsEntry (here ++ [name]) := isEntry_of_slash_not_mem hdots hslash
      rw [hgoes, ih hrest, passable_withDirectory hentry hmakeable]
      simp [hshort, hfree, hopen]
    | stopped e hshut hstops =>
      rw [hstops]
      exact iff_of_false (by simp) fun h => hshut ⟨h.1, h.2.1⟩

def ParentPassable (fs : FileSystem) (path : Text) : Prop :=
  FilePath.isTooLong (FilePath.parent path) = false ∧
    Passable fs (start (FilePath.parent path)) (FilePath.components (FilePath.parent path))

theorem makeParent_ok_iff : (fs.makeParent path).1 = .ok () ↔ fs.ParentPassable path := by
  rw [makeParent, ParentPassable]
  by_cases hnil : FilePath.parent path = []
  · have hnames : FilePath.components [] = [] := by decide
    have hshort : FilePath.isTooLong [] = false := by decide
    rw [if_pos hnil, hnil, hnames]
    simp [hshort, Passable, stops]
  · rw [if_neg hnil, makeDirectories]
    by_cases hlong : FilePath.isTooLong (FilePath.parent path) = true
    · simp [hlong]
    · rw [if_neg hlong,
        makeWay_ok_iff fun name hname => FilePath.slash_not_mem_of_mem_components hname]
      simp [hlong]

def Openable (fs : FileSystem) (path : Text) : Prop :=
  ∃ loc, fs.resolve path = .ok ⟨loc, .name⟩ ∧ fs.node? loc ≠ some .directory ∧
    (fs.node? loc = none → isFixed loc = false)

theorem openFile_ok_iff {truncate : Bool} :
    (∃ target fs', fs.openFile path truncate now = .ok (target, fs')) ↔ fs.Openable path := by
  rw [openFile, Openable]
  cases fs.resolve path with
  | error e => simp
  | ok place =>
    obtain ⟨loc, pathEnd⟩ := place
    by_cases hend : pathEnd = .name
    · subst hend
      cases hnode : fs.node? loc with
      | none => cases hfixed : isFixed loc <;> simp [hnode, hfixed]
      | some node => cases node <;> simp [hnode]
    · simp [hend]

def CanOpen (fs : FileSystem) (path : Text) : Prop :=
  fs.ParentPassable path ∧ (fs.makeParent path).2.Openable path

def Refuses (fs : FileSystem) (path : Text) (e : FileError) : Prop :=
  (fs.makeParent path).1 = .error e ∨
    fs.ParentPassable path ∧ ¬(fs.makeParent path).2.Openable path ∧ e = .denied

theorem Refuses.not_canOpen {e : FileError} (h : fs.Refuses path e) : ¬fs.CanOpen path := by
  rintro ⟨hparent, hopen⟩
  rcases h with herror | ⟨-, hnot, -⟩
  · rw [makeParent_ok_iff.mpr hparent] at herror
    cases herror
  · exact hnot hopen

structure Prepares (D F : Location → Prop) (fs fs' : FileSystem) : Prop extends Gains fs fs' where
  added : ∀ {loc node}, fs.node? loc = none → fs'.node? loc = some node →
    node = .directory ∧ D loc ∨
      ∃ n file, node = .file n ∧ fs'.files[n]? = some file ∧ file.content = #[] ∧ F loc

variable {D F D' F' : Location → Prop}

theorem Prepares.refl (fs : FileSystem) : Prepares D F fs fs where
  toGains := .refl fs
  added hfree hnode := by
    rw [hfree] at hnode
    cases hnode

theorem Prepares.trans (h : Prepares D F fs fs') (h' : Prepares D F fs' fs'') :
    Prepares D F fs fs'' where
  toGains := h.toGains.trans h'.toGains
  added {loc node} hfree hnode := by
    cases hmiddle : fs'.node? loc with
    | none => exact h'.added hmiddle hnode
    | some middle =>
      obtain rfl : middle = node := by
        rw [h'.node hmiddle] at hnode
        exact Option.some.inj hnode
      refine (h.added hfree hmiddle).imp_right ?_
      rintro ⟨n, file, rfl, hfile, hempty, hF⟩
      obtain ⟨hn, -⟩ := List.getElem?_eq_some_iff.mp hfile
      exact ⟨n, file, rfl, (h'.file hn).trans hfile, hempty, hF⟩

theorem Prepares.mono (h : Prepares D F fs fs') (hD : ∀ loc, D loc → D' loc)
    (hF : ∀ loc, F loc → F' loc) : Prepares D' F' fs fs' where
  toGains := h.toGains
  added {loc node} hfree hnode := by
    rcases h.added hfree hnode with ⟨hdir, hloc⟩ | ⟨n, file, hfile, hcontent, hempty, hloc⟩
    · exact .inl ⟨hdir, hD loc hloc⟩
    · exact .inr ⟨n, file, hfile, hcontent, hempty, hF loc hloc⟩

theorem Prepares.withDirectory {place : Location} (hentry : IsEntry place)
    (hfree : fs.node? place = none) (hD : D place) : Prepares D F fs (fs.withDirectory place) where
  toGains := (AddsDirectories.withDirectory hentry hfree).gains
  added {loc node} hbefore hnode := by
    rw [FileSystem.withDirectory, node?_set hentry] at hnode
    by_cases heq : loc = place
    · subst heq
      rw [Function.update_self] at hnode
      exact .inl ⟨(Option.some.inj hnode).symm, hD⟩
    · rw [Function.update_of_ne heq, hbefore] at hnode
      cases hnode

theorem Prepares.makeParent (hD : ∀ loc ∈ stopsOf (FilePath.parent path), D loc) :
    Prepares D F fs (fs.makeParent path).2 :=
  makeParent_induction .refl .trans
    (fun _ _ hloc hentry hfree => .withDirectory hentry hfree (hD _ hloc)) fs

theorem Prepares.openFile {target : WriteTarget} (hF : F (goal path))
    (hopen : fs.openFile path false now = .ok (target, fs')) : Prepares D F fs fs' where
  toGains := .openFile hopen
  added {loc node} hfree hnode := by
    rcases openFile_adds hopen with rfl | ⟨-, hfiles, hupdate⟩
    · rw [hfree] at hnode
      cases hnode
    · rw [hupdate] at hnode
      by_cases heq : loc = goal path
      · rw [heq, Function.update_self] at hnode
        cases hnode
        refine .inr ⟨_, ⟨#[], now⟩, rfl, ?_, rfl, heq ▸ hF⟩
        rw [hfiles, List.getElem?_concat_length]
      · rw [Function.update_of_ne heq, hfree] at hnode
        cases hnode

end FileSystem

end StructuredLog
