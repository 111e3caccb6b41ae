import StructuredLog.Proofs.Files.Confinement

/-!
# Operations that only add

Making directories and opening a file for appending leave all that stands, whether or not they
succeed. So does every change of a directory for a way that does not look at its entry.
-/

namespace StructuredLog

namespace FileSystem

open Location

variable {fs fs' fs'' : FileSystem} {path : Text} {now : Int}

def withFile (fs : FileSystem) (loc : Location) (file : File) : FileSystem :=
  { fs with
    entries := Assoc.set loc (.file fs.files.length) fs.entries
    files := fs.files ++ [file] }

theorem Follows.withFile (hs : fs.Sound) (here : Location) (name : Text)
    (hhere : fs.node? here = some .directory) (hentry : IsEntry (here ++ [name]))
    (hfree : fs.node? (here ++ [name]) = none) (file : File) :
    Follows fs (fs.withFile (here ++ [name]) file) := by
  have hgrows : fs.files.length < (fs.withFile (here ++ [name]) file).files.length := by
    simp [FileSystem.withFile]
  refine .place hs hhere (by simp [hfree]) (node?_set hentry _ fs) hgrows.le fun n hn => ?_
  cases hn
  exact ⟨hgrows, fun other hother => lt_irrefl _ (hs.inhabited hother)⟩

/-- Making a way is making missing directories, one after another, among those it looks at. A way
that cannot be made to its end is made as far as it goes. -/
theorem makeWay_induction {R : FileSystem → FileSystem → Prop} (hrefl : ∀ fs, R fs fs)
    (htrans : ∀ {fs fs' fs''}, R fs fs' → R fs' fs'' → R fs fs'') {making : Bool} {here : Location}
    {names : List Text} (hnames : ∀ name ∈ names, FilePath.slash ∉ name)
    (hstep : ∀ fs, ∀ loc ∈ stops here names, IsEntry loc → fs.node? loc = none →
      R fs (fs.withDirectory loc)) :
    R fs (fs.makeWay making here names).2 := by
  induction names generalizing fs making here with
  | nil => exact hrefl fs
  | cons name names ih =>
    obtain ⟨hslash, hrest⟩ := List.forall_mem_cons.mp hnames
    rw [stops] at hstep
    by_cases hdot : name = FilePath.dot
    · rw [if_pos hdot] at hstep
      rw [makeWay, if_pos hdot]
      exact ih hrest hstep
    by_cases hdots : name = FilePath.dotDot
    · rw [if_neg hdot, if_pos hdots] at hstep
      rw [makeWay, if_neg hdot, if_pos hdots]
      exact ih hrest hstep
    rw [if_neg hdot, if_neg hdots] at hstep
    have hbehind : ∀ fs, ∀ loc ∈ stops (here ++ [name]) names, IsEntry loc → fs.node? loc = none →
        R fs (fs.withDirectory loc) := fun fs loc hloc => hstep fs loc (List.mem_cons_of_mem _ hloc)
    cases wayStep fs making here names hdot hdots with
    | entered _ _ hgoes =>
      rw [hgoes]
      exact ih hrest hbehind
    | made _ hfree _ hgoes =>
      rw [hgoes]
      exact htrans (hstep fs _ List.mem_cons_self (isEntry_of_slash_not_mem hdots hslash) hfree)
        (ih hrest hbehind)
    | stopped _ _ hends =>
      rw [hends]
      exact hrefl fs

theorem makeParent_induction {R : FileSystem → FileSystem → Prop} (hrefl : ∀ fs, R fs fs)
    (htrans : ∀ {fs fs' fs''}, R fs fs' → R fs' fs'' → R fs fs'')
    (hstep : ∀ fs, ∀ loc ∈ stopsOf (FilePath.parent path), IsEntry loc → fs.node? loc = none →
      R fs (fs.withDirectory loc)) (fs : FileSystem) :
    R fs (fs.makeParent path).2 := by
  rw [makeParent]
  split_ifs
  · exact hrefl fs
  · rw [makeDirectories]
    split_ifs
    · exact hrefl fs
    · exact makeWay_induction hrefl htrans
        (fun name hname => FilePath.slash_not_mem_of_mem_components hname) hstep

theorem makeParent_adds (fs : FileSystem) (path : Text) :
    AddsDirectories fs (fs.makeParent path).2 :=
  makeParent_induction .refl .trans (fun _ _ _ hentry hfree => .withDirectory hentry hfree) fs

/-- All that stood stands and holds what it held, and what is new is no file that was there. -/
structure Gains (fs fs' : FileSystem) : Prop where
  node : ∀ {loc node}, fs.node? loc = some node → fs'.node? loc = some node
  new : ∀ {loc n}, fs'.node? loc = some (.file n) →
    fs.node? loc = some (.file n) ∨ fs.files.length ≤ n
  file : ∀ {n}, n < fs.files.length → fs'.files[n]? = fs.files[n]?
  grows : fs.files.length ≤ fs'.files.length

theorem Gains.refl (fs : FileSystem) : Gains fs fs := ⟨id, .inl, fun _ => rfl, le_rfl⟩

theorem Gains.trans (h : Gains fs fs') (h' : Gains fs' fs'') : Gains fs fs'' where
  node hnode := h'.node (h.node hnode)
  new hnode := by
    rcases h'.new hnode with hbefore | hle
    · exact h.new hbefore
    · exact .inr (h.grows.trans hle)
  file hn := (h'.file (Nat.lt_of_lt_of_le hn h.grows)).trans (h.file hn)
  grows := h.grows.trans h'.grows

theorem AddsDirectories.gains (h : AddsDirectories fs fs') : Gains fs fs' where
  node := h.node?_eq
  new := by
    intro loc n hnode
    rcases h.node_eq loc with heq | ⟨-, hdir⟩
    · exact .inl (heq ▸ hnode)
    · rw [hnode] at hdir
      cases hdir
  file _ := congrArg (·[_]?) h.files_eq
  grows := (congrArg List.length h.files_eq).ge

theorem openFile_adds {target : WriteTarget} (h : fs.openFile path false now = .ok (target, fs')) :
    fs' = fs ∨ fs.node? (goal path) = none ∧ fs'.files = fs.files ++ [⟨#[], now⟩] ∧
      fs'.node? = Function.update fs.node? (goal path) (some (.file fs.files.length)) := by
  obtain ⟨dir, name, hnames, hdir⟩ := names_of_openFile h
  rw [← (goal_of_resolve hnames (by simp)).1]
  cases hnode : fs.node? (dir ++ [name]) with
  | none => exact .inr ⟨rfl, (hnames.openFile_missing hnode h).2⟩
  | some node =>
    left
    cases node with
    | directory => exact absurd hnode hdir
    | file n =>
      rw [hnames.openFile_append hnode] at h
      cases h
      rfl
    | special kind =>
      rw [hnames.openFile_special hnode] at h
      cases h
      rfl

theorem Gains.openFile {target : WriteTarget} (h : fs.openFile path false now = .ok (target, fs')) :
    Gains fs fs' := by
  rcases openFile_adds h with rfl | ⟨hfree, hfiles, hupdate⟩
  · exact .refl fs'
  refine ⟨fun {loc node} hloc => ?_, fun {loc n} hloc => ?_, fun hn => ?_, ?_⟩
  · have hne : loc ≠ goal path := by
      rintro rfl
      rw [hfree] at hloc
      cases hloc
    rw [hupdate, Function.update_of_ne hne, hloc]
  · rw [hupdate] at hloc
    by_cases heq : loc = goal path
    · rw [heq, Function.update_self] at hloc
      cases hloc
      exact .inr le_rfl
    · rw [Function.update_of_ne heq] at hloc
      exact .inl hloc
  · rw [hfiles, List.getElem?_append_left hn]
  · rw [hfiles, List.length_append]
    exact Nat.le_add_right _ _

theorem Gains.gone (h : Gains fs fs') {n : Nat} (hn : n < fs.files.length)
    (hgone : ∀ loc, fs.node? loc ≠ some (.file n)) (loc : Location) :
    fs'.node? loc ≠ some (.file n) := by
  intro hnode
  rcases h.new hnode with hbefore | hle
  · exact hgone loc hbefore
  · exact Nat.not_le.mpr hn hle

theorem mem_stops_of_prefix {entry : Location} (hentry : IsEntry entry) {names : List Text}
    {here loc : Location} (hloc : loc ∈ stops here names) (hbelow : entry <+: loc) :
    entry ∈ stops here names ∨ entry <+: here := by
  induction names generalizing here with
  | nil => cases hloc
  | cons name names ih =>
    rw [stops] at hloc ⊢
    by_cases hdot : name = FilePath.dot
    · rw [if_pos hdot] at hloc ⊢
      exact ih hloc
    by_cases hdots : name = FilePath.dotDot
    · rw [if_neg hdot, if_pos hdots] at hloc ⊢
      refine (ih hloc).imp_right fun habove => ?_
      rw [above] at habove
      split_ifs at habove with hroot hanc
      · exact hroot ▸ habove
      · -- An entry is above no directory that is reached by dots alone.
        obtain ⟨below, hbelow⟩ := habove
        have hnot := (hentry.append below).not_isAncestor
        rw [hbelow, isAncestor, List.all_append] at hnot
        simp only [isAncestor] at hanc
        simp [hanc] at hnot
      · exact habove.trans (List.dropLast_prefix here)
    · rw [if_neg hdot, if_neg hdots] at hloc ⊢
      have hfirst : entry <+: here ++ [name] →
          entry ∈ (here ++ [name]) :: stops (here ++ [name]) names ∨ entry <+: here := by
        intro hprefix
        rcases List.prefix_concat_iff.mp hprefix with rfl | habove
        · exact .inl List.mem_cons_self
        · exact .inr habove
      rcases List.mem_cons.mp hloc with rfl | hrest
      · exact hfirst hbelow
      · rcases ih hrest with hmem | hprefix
        · exact .inl (List.mem_cons_of_mem _ hmem)
        · exact hfirst hprefix

theorem walk_congr {names : List Text} {here : Location}
    (h : ∀ loc ∈ stops here names, fs'.node? loc = fs.node? loc) :
    fs'.walk here names = fs.walk here names := by
  induction names generalizing here with
  | nil => rfl
  | cons name names ih =>
    rw [stops] at h
    rw [walk, walk]
    by_cases hdot : name = FilePath.dot
    · rw [if_pos hdot] at h
      rw [if_pos hdot, if_pos hdot, ih h]
    by_cases hdots : name = FilePath.dotDot
    · rw [if_neg hdot, if_pos hdots] at h
      rw [if_neg hdot, if_pos hdots, if_neg hdot, if_pos hdots, ih h]
    rw [if_neg hdot, if_neg hdots] at h
    obtain ⟨hfirst, hrest⟩ := List.forall_mem_cons.mp h
    rw [if_neg hdot, if_neg hdots, if_neg hdot, if_neg hdots, child?, child?, hfirst, ih hrest]

end FileSystem

end StructuredLog
