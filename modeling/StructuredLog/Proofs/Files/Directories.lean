import StructuredLog.Proofs.Files.Operations

/-!
# The directories above a path

Making the directories on a way adds what is missing and leaves every node that stood. Once they
are made they need not be made again, as long as no directory goes away.
-/

namespace StructuredLog

namespace FileSystem

open Location

structure AddsDirectories (fs fs' : FileSystem) : Prop where
  files_eq : fs'.files = fs.files
  node_eq : ∀ loc, fs'.node? loc = fs.node? loc ∨
    fs.node? loc = none ∧ fs'.node? loc = some .directory

theorem AddsDirectories.refl (fs : FileSystem) : AddsDirectories fs fs := ⟨rfl, fun _ => .inl rfl⟩

theorem AddsDirectories.trans {fs fs' fs'' : FileSystem} (h : AddsDirectories fs fs')
    (h' : AddsDirectories fs' fs'') : AddsDirectories fs fs'' := by
  refine ⟨h'.files_eq.trans h.files_eq, fun loc => ?_⟩
  rcases h.node_eq loc with heq | ⟨hnone, hdir⟩
  · rcases h'.node_eq loc with heq' | ⟨hnone, hdir⟩
    · exact .inl (heq'.trans heq)
    · exact .inr ⟨heq ▸ hnone, hdir⟩
  · rcases h'.node_eq loc with heq' | ⟨hnone', -⟩
    · exact .inr ⟨hnone, heq'.trans hdir⟩
    · rw [hdir] at hnone'
      cases hnone'

theorem AddsDirectories.node?_eq {fs fs' : FileSystem} (h : AddsDirectories fs fs')
    {loc : Location} {node : Node} (hnode : fs.node? loc = some node) :
    fs'.node? loc = some node := by
  rcases h.node_eq loc with heq | ⟨hnone, -⟩
  · rw [heq, hnode]
  · rw [hnode] at hnone
    cases hnone

def withDirectory (fs : FileSystem) (loc : Location) : FileSystem :=
  { fs with entries := Assoc.set loc .directory fs.entries }

theorem node?_withDirectory {loc : Location} (hentry : IsEntry loc) (fs : FileSystem) :
    (fs.withDirectory loc).node? = Function.update fs.node? loc (some .directory) :=
  node?_set hentry .directory fs

theorem node?_withDirectory_self {loc : Location} (hentry : IsEntry loc) (fs : FileSystem) :
    (fs.withDirectory loc).node? loc = some .directory := by
  rw [node?_withDirectory hentry, Function.update_self]

theorem isEntry_of_slash_not_mem {here : Location} {name : Text} (hdots : name ≠ FilePath.dotDot)
    (hslash : FilePath.slash ∉ name) : IsEntry (here ++ [name]) := by
  refine isEntry_append_singleton hdots ?_
  rintro rfl
  exact hslash (by simp)

theorem Follows.withDirectory {fs : FileSystem} (hs : fs.Sound) (here : Location) (name : Text)
    (hhere : fs.node? here = some .directory) (hentry : IsEntry (here ++ [name]))
    (hfree : fs.node? (here ++ [name]) = none) : Follows fs (fs.withDirectory (here ++ [name])) :=
  .place hs hhere (by simp [hfree]) (node?_withDirectory hentry fs) le_rfl (fun n hn => by cases hn)

theorem AddsDirectories.withDirectory {fs : FileSystem} {place : Location} (hentry : IsEntry place)
    (hfree : fs.node? place = none) : AddsDirectories fs (fs.withDirectory place) := by
  refine ⟨rfl, fun loc => ?_⟩
  rw [node?_withDirectory hentry]
  by_cases heq : loc = place
  · rw [heq, Function.update_self]
    exact .inr ⟨hfree, rfl⟩
  · rw [Function.update_of_ne heq]
    exact .inl rfl

/-- All that making a way does about a name that stands for an entry: the directory of this name is
entered, made and entered, or the making stops, with nothing changed. -/
inductive WayStep (fs : FileSystem) (making : Bool) (here : Location) (name : Text)
    (names : List Text) : Prop
  | entered (hshort : name.length ≤ FilePath.maxName)
      (hdir : fs.node? (here ++ [name]) = some .directory)
      (hgoes : fs.makeWay making here (name :: names) = fs.makeWay making (here ++ [name]) names)
  | made (hshort : name.length ≤ FilePath.maxName) (hfree : fs.node? (here ++ [name]) = none)
      (hopen : isFixed here = false)
      (hgoes : fs.makeWay making here (name :: names) =
        (fs.withDirectory (here ++ [name])).makeWay true (here ++ [name]) names)
  | stopped (e : FileError)
      (hshut : ¬(name.length ≤ FilePath.maxName ∧ (fs.node? (here ++ [name]) = some .directory ∨
        fs.node? (here ++ [name]) = none ∧ isFixed here = false)))
      (hstops : fs.makeWay making here (name :: names) = (.error e, fs))

theorem wayStep (fs : FileSystem) (making : Bool) (here : Location) {name : Text}
    (names : List Text) (hdot : name ≠ FilePath.dot) (hdots : name ≠ FilePath.dotDot) :
    WayStep fs making here name names := by
  by_cases hlong : FilePath.maxName < name.length
  · refine .stopped .nameTooLong (fun h => Nat.not_le.mpr hlong h.1) ?_
    rw [makeWay, if_neg hdot, if_neg hdots, child?, if_pos hlong]
  have hshort := Nat.not_lt.mp hlong
  have hchild : fs.child? here name = .ok (fs.node? (here ++ [name])) := by
    rw [child?, if_neg hlong]
  cases hnode : fs.node? (here ++ [name]) with
  | none =>
    by_cases hfixed : isFixed here = true
    · refine .stopped .denied (by simp [hnode, hfixed]) ?_
      simp only [makeWay, if_neg hdot, if_neg hdots, hchild, hnode, if_pos hfixed]
    · refine .made hshort hnode (by rwa [← Bool.not_eq_true]) ?_
      simp only [makeWay, if_neg hdot, if_neg hdots, hchild, hnode, if_neg hfixed, withDirectory]
  | some node =>
    cases node with
    | directory =>
      refine .entered hshort hnode ?_
      simp only [makeWay, if_neg hdot, if_neg hdots, hchild, hnode]
    | file n =>
      refine .stopped (if making then .alreadyExists else .notDirectory) (by simp [hnode]) ?_
      simp only [makeWay, if_neg hdot, if_neg hdots, hchild, hnode]
    | special kind =>
      refine .stopped (if making then .alreadyExists else .notDirectory) (by simp [hnode]) ?_
      simp only [makeWay, if_neg hdot, if_neg hdots, hchild, hnode]

theorem makeWay_made {fs fs' : FileSystem} {making : Bool} {here : Location} {names : List Text}
    (hs : fs.Sound) (hhere : fs.node? here = some .directory)
    (hnames : ∀ name ∈ names, FilePath.slash ∉ name)
    (h : fs.makeWay making here names = (.ok (), fs')) :
    Follows fs fs' ∧ AddsDirectories fs fs' ∧ ∃ place, fs'.Leads here names place := by
  induction names generalizing fs making here with
  | nil =>
    cases h
    exact ⟨.refl hs, .refl _, here, .ended here⟩
  | cons name names ih =>
    obtain ⟨hslash, hrest⟩ := List.forall_mem_cons.mp hnames
    by_cases hdot : name = FilePath.dot
    · rw [makeWay, if_pos hdot] at h
      obtain ⟨hfollows, hadds, place, hleads⟩ := ih hs hhere hrest h
      exact ⟨hfollows, hadds, place, hdot ▸ .stayed hleads⟩
    by_cases hdots : name = FilePath.dotDot
    · rw [makeWay, if_neg hdot, if_pos hdots] at h
      obtain ⟨hfollows, hadds, place, hleads⟩ := ih hs (node?_above hs hhere) hrest h
      exact ⟨hfollows, hadds, place, hdots ▸ .climbed hleads⟩
    cases wayStep fs making here names hdot hdots with
    | entered hshort hdir hgoes =>
      obtain ⟨hfollows, hadds, place, hleads⟩ := ih hs hdir hrest (hgoes ▸ h)
      exact ⟨hfollows, hadds, place, .entered hdot hdots hshort (hadds.node?_eq hdir) hleads⟩
    | made hshort hfree _ hgoes =>
      have hentry : IsEntry (here ++ [name]) := isEntry_of_slash_not_mem hdots hslash
      have hmade := Follows.withDirectory hs here name hhere hentry hfree
      have hdir := node?_withDirectory_self hentry fs
      obtain ⟨hfollows, hadds, place, hleads⟩ := ih hmade.sound hdir hrest (hgoes ▸ h)
      exact ⟨hmade.trans hfollows, (AddsDirectories.withDirectory hentry hfree).trans hadds, place,
        .entered hdot hdots hshort (hadds.node?_eq hdir) hleads⟩
    | stopped e _ hstops =>
      rw [hstops] at h
      cases h

theorem makeWay_of_walk {fs : FileSystem} {making : Bool} {here place : Location}
    {names : List Text} (h : fs.walk here names = .ok place) :
    fs.makeWay making here names = (.ok (), fs) := by
  replace h := leads_of_walk h
  induction h with
  | ended here => rfl
  | stayed _ ih => rwa [makeWay, if_pos rfl]
  | climbed _ ih => rwa [makeWay, if_neg dotDot_ne_dot, if_pos rfl]
  | entered hdot hdots hshort hdir _ ih =>
    rw [makeWay, if_neg hdot, if_neg hdots, child?, if_neg (Nat.not_lt.mpr hshort), hdir]
    exact ih

def makeParent (fs : FileSystem) (path : Text) : Except FileError Unit × FileSystem :=
  if FilePath.parent path = [] then (.ok (), fs) else fs.makeDirectories (FilePath.parent path)

def HasParent (fs : FileSystem) (path : Text) : Prop :=
  FilePath.parent path = [] ∨ FilePath.isTooLong (FilePath.parent path) = false ∧
    ∃ place, fs.walk (start (FilePath.parent path))
      (FilePath.components (FilePath.parent path)) = .ok place

theorem HasParent.keeps {fs fs' : FileSystem} (hk : KeepsDirectories fs fs') {path : Text}
    (h : fs.HasParent path) : fs'.HasParent path := by
  rcases h with hnil | ⟨hshort, place, hwalk⟩
  · exact .inl hnil
  · exact .inr ⟨hshort, place, walk_keeps hk hwalk⟩

theorem HasParent.makeParent_eq {fs : FileSystem} {path : Text} (h : fs.HasParent path) :
    fs.makeParent path = (.ok (), fs) := by
  rw [makeParent]
  rcases h with hnil | ⟨hshort, place, hwalk⟩
  · rw [if_pos hnil]
  · split_ifs with hnil
    · rfl
    · simp only [makeDirectories, hshort, Bool.false_eq_true, if_false]
      exact makeWay_of_walk hwalk

theorem makeParent_made {fs fs' : FileSystem} (hs : fs.Sound) {path : Text}
    (h : fs.makeParent path = (.ok (), fs')) :
    Follows fs fs' ∧ AddsDirectories fs fs' ∧ fs'.HasParent path := by
  rw [makeParent] at h
  split_ifs at h with hnil
  · cases h
    exact ⟨.refl hs, .refl fs, .inl hnil⟩
  · rw [makeDirectories] at h
    split_ifs at h with hlong
    · cases h
    have hslash : ∀ name ∈ FilePath.components (FilePath.parent path), FilePath.slash ∉ name :=
      fun name hname => FilePath.slash_not_mem_of_mem_components hname
    obtain ⟨hfollows, hadds, place, hleads⟩ := makeWay_made hs (node?_start fs _) hslash h
    exact ⟨hfollows, hadds, .inr ⟨by simpa using hlong, place, hleads.walk_eq⟩⟩

end FileSystem

end StructuredLog
