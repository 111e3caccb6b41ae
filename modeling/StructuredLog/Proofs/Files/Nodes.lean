import Mathlib.Data.List.Infix
import Mathlib.Logic.Function.Basic
import StructuredLog.Files.FileSystem
import StructuredLog.Proofs.Files.Names

/-!
# What stands where

The file system as a map from locations to nodes. In a sound one every entry lies in a directory
and no two entries are the same file; the operations on files change the map at the locations they
are given and nowhere else.
-/

namespace StructuredLog

namespace Location

structure IsEntry (loc : Location) : Prop where
  ne_root : loc ≠ root
  not_isAncestor : isAncestor loc = false

theorem last_eq {dir dir' : Location} {name name' : Text} (h : dir ++ [name] = dir' ++ [name']) :
    name = name' := List.singleton_inj.mp (List.append_inj' h rfl).2

theorem isEntry_append_singleton {dir : Location} {name : Text} (hdot : name ≠ FilePath.dotDot)
    (hslash : name ≠ [FilePath.slash]) : IsEntry (dir ++ [name]) where
  ne_root := by
    intro h
    have hlast := congrArg List.getLast? h
    simp [root] at hlast
    exact hslash hlast
  not_isAncestor := by simp [isAncestor, hdot]

theorem IsEntry.append {loc : Location} (h : IsEntry loc) (below : Location) :
    IsEntry (loc ++ below) where
  ne_root := by
    intro hroot
    rcases List.append_eq_singleton_iff.mp hroot with ⟨hnil, -⟩ | ⟨hloc, -⟩
    · rw [hnil] at h
      exact absurd h.not_isAncestor (by decide)
    · exact h.ne_root hloc
  not_isAncestor := by
    have hloc := h.not_isAncestor
    simp only [isAncestor] at hloc ⊢
    simp [List.all_append, hloc]

end Location

namespace FileSystem

open Location

theorem node?_of_isEntry {loc : Location} (h : IsEntry loc) (fs : FileSystem) :
    fs.node? loc = Assoc.get? loc fs.entries := by
  rw [node?, if_neg]
  rintro (hroot | hanc)
  · exact h.ne_root hroot
  · rw [h.not_isAncestor] at hanc
    cases hanc

theorem node?_of_not_isEntry {loc : Location} (h : ¬IsEntry loc) (fs : FileSystem) :
    fs.node? loc = some .directory := by
  rw [node?, if_pos]
  by_cases hroot : loc = root
  · exact Or.inl hroot
  · right
    cases hanc : isAncestor loc with
    | true => rfl
    | false => exact absurd ⟨hroot, hanc⟩ h

/-- Every entry lies in a directory, and every file stands in one place: no file has two names, as
hard links would give it. File operations keep this, so it holds of all they make of `empty`. -/
structure Sound (fs : FileSystem) : Prop where
  parent : ∀ {loc name}, fs.node? (loc ++ [name]) ≠ none → fs.node? loc = some .directory
  inhabited : ∀ {loc n}, fs.node? loc = some (.file n) → n < fs.files.length
  injective : ∀ {loc loc' n}, fs.node? loc = some (.file n) → fs.node? loc' = some (.file n) →
    loc = loc'

theorem Sound.withDisk {fs : FileSystem} (hs : fs.Sound) (disk : Disk) :
    Sound { fs with disk := disk } := ⟨hs.parent, hs.inhabited, hs.injective⟩

theorem empty_sound : empty.Sound := by
  have hnode : ∀ loc, empty.node? loc ≠ none → empty.node? loc = some .directory := by
    intro loc h
    by_cases hloc : IsEntry loc
    · rw [node?_of_isEntry hloc] at h
      exact absurd rfl h
    · exact node?_of_not_isEntry hloc empty
  refine ⟨?_, ?_, ?_⟩
  · intro loc name h
    refine node?_of_not_isEntry (fun hloc => ?_) empty
    rw [node?_of_isEntry (hloc.append [name])] at h
    exact h rfl
  · intro loc n h
    have hdir := hnode loc (by simp [h])
    rw [h] at hdir
    cases hdir
  · intro loc loc' n h
    have hdir := hnode loc (by simp [h])
    rw [h] at hdir
    cases hdir

theorem Sound.node?_below {fs : FileSystem} (hs : fs.Sound) {loc below : Location}
    (hloc : fs.node? loc ≠ some .directory) (hbelow : below ≠ []) :
    fs.node? (loc ++ below) = none := by
  induction below using List.reverseRecOn with
  | nil => exact absurd rfl hbelow
  | append_singleton below name ih =>
    by_contra hnone
    rw [← List.append_assoc] at hnone
    have hdir := hs.parent hnone
    by_cases hnil : below = []
    · rw [hnil, List.append_nil] at hdir
      exact hloc hdir
    · rw [ih hnil] at hdir
      cases hdir

def nameIn? (dir loc : Location) : Option Text :=
  if loc.length = dir.length + 1 ∧ dir.isPrefixOf loc then loc.getLast? else none

theorem nameIn?_eq_some {dir loc : Location} {name : Text} :
    nameIn? dir loc = some name ↔ loc = dir ++ [name] := by
  rw [nameIn?]
  constructor
  · intro h
    split_ifs at h with hbelow
    obtain ⟨below, rfl⟩ := List.isPrefixOf_iff_prefix.mp hbelow.2
    obtain ⟨last, rfl⟩ := List.length_eq_one_iff.mp (by simpa using hbelow.1)
    simpa using h
  · rintro rfl
    simp

theorem namesIn_eq (fs : FileSystem) (dir : Location) :
    fs.namesIn dir = (Assoc.keys fs.entries).filterMap (nameIn? dir) := by
  rw [Assoc.keys, List.filterMap_map]
  rfl

theorem mem_namesIn_iff_node? {fs : FileSystem} {dir : Location} {name : Text}
    (hentry : IsEntry (dir ++ [name])) :
    name ∈ fs.namesIn dir ↔ fs.node? (dir ++ [name]) ≠ none := by
  rw [node?_of_isEntry hentry, ne_eq, Assoc.get?_eq_none_iff, not_not, namesIn_eq,
    List.mem_filterMap]
  constructor
  · rintro ⟨loc, hloc, hname⟩
    rwa [← nameIn?_eq_some.mp hname]
  · intro h
    exact ⟨_, h, nameIn?_eq_some.mpr rfl⟩

theorem node?_of_isEmptyDirectory {fs : FileSystem} {loc : Location} (hloc : IsEntry loc)
    (hempty : fs.isEmptyDirectory loc = true) (name : Text) : fs.node? (loc ++ [name]) = none := by
  by_contra hnode
  have hmem := (mem_namesIn_iff_node? (hloc.append [name])).mpr hnode
  rw [List.isEmpty_iff.mp hempty] at hmem
  cases hmem

theorem isEmptyDirectory_of_node? {fs : FileSystem} {loc : Location} (hloc : IsEntry loc)
    (hnone : ∀ name, fs.node? (loc ++ [name]) = none) : fs.isEmptyDirectory loc = true := by
  rw [isEmptyDirectory, List.isEmpty_iff, List.eq_nil_iff_forall_not_mem]
  exact fun name hmem => (mem_namesIn_iff_node? (hloc.append [name])).mp hmem (hnone name)

def KeepsDirectories (fs fs' : FileSystem) : Prop :=
  ∀ loc, fs.node? loc = some .directory → fs'.node? loc = some .directory

theorem KeepsDirectories.refl (fs : FileSystem) : KeepsDirectories fs fs := fun _ h => h

theorem KeepsDirectories.trans {fs fs' fs'' : FileSystem} (h : KeepsDirectories fs fs')
    (h' : KeepsDirectories fs' fs'') : KeepsDirectories fs fs'' :=
  fun loc hloc => h' loc (h loc hloc)

inductive Leads (fs : FileSystem) : (here : Location) → List Text → (place : Location) → Prop
  | ended (here : Location) : Leads fs here [] here
  | stayed {here place : Location} {names : List Text} (h : Leads fs here names place) :
      Leads fs here (FilePath.dot :: names) place
  | climbed {here place : Location} {names : List Text} (h : Leads fs (above here) names place) :
      Leads fs here (FilePath.dotDot :: names) place
  | entered {here place : Location} {name : Text} {names : List Text} (hdot : name ≠ FilePath.dot)
      (hdots : name ≠ FilePath.dotDot) (hshort : name.length ≤ FilePath.maxName)
      (hdir : fs.node? (here ++ [name]) = some .directory)
      (h : Leads fs (here ++ [name]) names place) : Leads fs here (name :: names) place

theorem dotDot_ne_dot : FilePath.dotDot ≠ FilePath.dot := by decide

theorem Leads.walk_eq {fs : FileSystem} {names : List Text} {here place : Location}
    (h : fs.Leads here names place) : fs.walk here names = .ok place := by
  induction h with
  | ended here => rfl
  | stayed _ ih => rwa [walk, if_pos rfl]
  | climbed _ ih => rwa [walk, if_neg dotDot_ne_dot, if_pos rfl]
  | entered hdot hdots hshort hdir _ ih =>
    rw [walk, if_neg hdot, if_neg hdots, child?, if_neg (Nat.not_lt.mpr hshort), hdir]
    exact ih

theorem leads_of_walk {fs : FileSystem} {names : List Text} {here place : Location}
    (h : fs.walk here names = .ok place) : fs.Leads here names place := by
  induction names generalizing here with
  | nil =>
    cases h
    exact .ended _
  | cons name names ih =>
    rw [walk] at h
    by_cases hdot : name = FilePath.dot
    · rw [if_pos hdot] at h
      exact hdot ▸ .stayed (ih h)
    by_cases hdots : name = FilePath.dotDot
    · rw [if_neg hdot, if_pos hdots] at h
      exact hdots ▸ .climbed (ih h)
    rw [if_neg hdot, if_neg hdots, child?] at h
    by_cases hlong : FilePath.maxName < name.length
    · rw [if_pos hlong] at h
      cases h
    rw [if_neg hlong] at h
    cases hnode : fs.node? (here ++ [name]) with
    | none =>
      rw [hnode] at h
      cases h
    | some node =>
      rw [hnode] at h
      cases node with
      | directory => exact .entered hdot hdots (Nat.not_lt.mp hlong) hnode (ih h)
      | file n => cases h
      | special kind => cases h

theorem Leads.keeps {fs fs' : FileSystem} (hk : KeepsDirectories fs fs') {names : List Text}
    {here place : Location} (h : fs.Leads here names place) : fs'.Leads here names place := by
  induction h with
  | ended here => exact .ended here
  | stayed _ ih => exact .stayed ih
  | climbed _ ih => exact .climbed ih
  | entered hdot hdots hshort hdir _ ih => exact .entered hdot hdots hshort (hk _ hdir) ih

theorem walk_keeps {fs fs' : FileSystem} (hk : KeepsDirectories fs fs') {names : List Text}
    {here place : Location} (h : fs.walk here names = .ok place) :
    fs'.walk here names = .ok place :=
  ((leads_of_walk h).keeps hk).walk_eq

theorem node?_above {fs : FileSystem} (hs : fs.Sound) {loc : Location}
    (h : fs.node? loc = some .directory) : fs.node? (above loc) = some .directory := by
  rw [above]
  split_ifs with hroot hanc
  · exact node?_of_not_isEntry (fun he => he.ne_root rfl) fs
  · refine node?_of_not_isEntry (fun he => ?_) fs
    have hnot := he.not_isAncestor
    simp only [isAncestor] at hanc hnot
    simp [List.all_append, hanc] at hnot
  · have hne : loc ≠ [] := by
      rintro rfl
      exact hanc rfl
    have hentry : fs.node? (loc.dropLast ++ [loc.getLast hne]) ≠ none := by
      rw [List.dropLast_append_getLast hne, h]
      simp
    exact hs.parent hentry

theorem walk_directory {fs : FileSystem} (hs : fs.Sound) {names : List Text}
    {here place : Location} (hhere : fs.node? here = some .directory)
    (h : fs.walk here names = .ok place) : fs.node? place = some .directory := by
  replace h := leads_of_walk h
  induction h with
  | ended here => exact hhere
  | stayed _ ih => exact ih hhere
  | climbed _ ih => exact ih (node?_above hs hhere)
  | entered _ _ _ hdir _ ih => exact ih hdir

theorem node?_start (fs : FileSystem) (path : Text) :
    fs.node? (start path) = some .directory := by
  rw [start]
  split_ifs
  · exact node?_of_not_isEntry (fun he => he.ne_root rfl) fs
  · exact node?_of_not_isEntry (fun he => absurd he.not_isAncestor (by decide)) fs

def Names (fs : FileSystem) (path : Text) (dir : Location) (name : Text) : Prop :=
  fs.resolve path = .ok ⟨dir ++ [name], .name⟩

/-- What it takes for a path to end in a name. -/
structure Route (fs : FileSystem) (path : Text) (front : List Text) (dir : Location)
    (name : Text) : Prop where
  short : FilePath.isTooLong path = false
  components_eq : FilePath.components path = front ++ [name]
  walk_eq : fs.walk (start path) front = .ok dir
  ne_dot : name ≠ FilePath.dot
  ne_dotDot : name ≠ FilePath.dotDot
  no_slash : (Text.untilNul path).getLast? ≠ some FilePath.slash

theorem Route.dropLast_components {fs : FileSystem} {path : Text} {front : List Text}
    {dir : Location} {name : Text} (h : Route fs path front dir name) :
    (FilePath.components path).dropLast = front := by
  rw [h.components_eq, List.dropLast_concat]

theorem Route.resolve_eq {fs : FileSystem} {path : Text} {front : List Text} {dir : Location}
    {name : Text} (h : Route fs path front dir name) : fs.resolve path =
      if FilePath.maxName < name.length then .error .nameTooLong
      else .ok ⟨dir ++ [name], .name⟩ := by
  simp only [resolve, h.short, h.components_eq, List.getLast?_append, List.getLast?_singleton,
    Option.some_or, List.dropLast_concat, h.walk_eq, Bool.false_eq_true, if_false, if_neg h.ne_dot,
    if_neg h.ne_dotDot, if_neg h.no_slash]

theorem Route.names {fs : FileSystem} {path : Text} {front : List Text} {dir : Location}
    {name : Text} (h : Route fs path front dir name) (hname : name.length ≤ FilePath.maxName) :
    fs.Names path dir name := by
  rw [Names, h.resolve_eq, if_neg (Nat.not_lt.mpr hname)]

theorem entry_of_resolve {fs : FileSystem} {path : Text} {place : Place}
    (h : fs.resolve path = .ok place) (hend : place.pathEnd ≠ .dots) :
    FilePath.isTooLong path = false ∧ ∃ front dir name, FilePath.components path = front ++ [name] ∧
      fs.walk (start path) front = .ok dir ∧ name ≠ FilePath.dot ∧ name ≠ FilePath.dotDot ∧
      name.length ≤ FilePath.maxName ∧ place.location = dir ++ [name] ∧
      (place.pathEnd = .name → (Text.untilNul path).getLast? ≠ some FilePath.slash) := by
  rw [resolve] at h
  by_cases hlong : FilePath.isTooLong path = true
  · rw [if_pos hlong] at h
    cases h
  rw [if_neg hlong] at h
  dsimp only at h
  refine ⟨by simpa using hlong, ?_⟩
  cases hlast : (FilePath.components path).getLast? with
  | none =>
    rw [hlast] at h
    by_cases habs : FilePath.isAbsolute path = true
    · simp only [if_pos habs] at h
      cases h
      exact absurd rfl hend
    · simp only [if_neg habs] at h
      cases h
  | some name =>
    rw [hlast] at h
    have hcomponents := (List.dropLast_append_getLast? _ hlast).symm
    cases hwalk : fs.walk (start path) (FilePath.components path).dropLast with
    | error e =>
      simp only [hwalk] at h
      cases h
    | ok dir =>
      simp only [hwalk] at h
      split_ifs at h with hdot hdots hname hslash
      · cases h
        exact absurd rfl hend
      · cases h
        exact absurd rfl hend
      · cases h
        exact ⟨_, dir, name, hcomponents, hwalk, hdot, hdots, Nat.not_lt.mp hname, rfl, by simp⟩
      · cases h
        exact ⟨_, dir, name, hcomponents, hwalk, hdot, hdots, Nat.not_lt.mp hname, rfl,
          fun _ => hslash⟩

theorem isEntry_of_components {path : Text} {front : List Text} {dir : Location} {name : Text}
    (hcomponents : FilePath.components path = front ++ [name]) (hdots : name ≠ FilePath.dotDot) :
    IsEntry (dir ++ [name]) := by
  refine isEntry_append_singleton hdots ?_
  rintro rfl
  have hmem : [FilePath.slash] ∈ FilePath.components path := by simp [hcomponents]
  exact FilePath.slash_not_mem_of_mem_components hmem (by simp)

theorem isEntry_of_resolve {fs : FileSystem} {path : Text} {place : Place}
    (h : fs.resolve path = .ok place) (hend : place.pathEnd ≠ .dots) : IsEntry place.location := by
  obtain ⟨-, front, dir, name, hcomponents, -, -, hdots, -, hloc, -⟩ := entry_of_resolve h hend
  exact hloc ▸ isEntry_of_components hcomponents hdots

theorem route_of_resolve {fs : FileSystem} {path : Text} {place : Place}
    (h : fs.resolve path = .ok place) (hend : place.pathEnd = .name) :
    ∃ front dir name, Route fs path front dir name ∧ name.length ≤ FilePath.maxName ∧
      place = ⟨dir ++ [name], .name⟩ := by
  obtain ⟨hshort, front, dir, name, hcomponents, hwalk, hdot, hdots, hname, hloc, hslash⟩ :=
    entry_of_resolve h (by simp [hend])
  exact ⟨front, dir, name, ⟨hshort, hcomponents, hwalk, hdot, hdots, hslash hend⟩, hname,
    by rw [← hloc, ← hend]⟩

theorem names_of_resolve {fs : FileSystem} {path : Text} {place : Place}
    (h : fs.resolve path = .ok place) (hend : place.pathEnd = .name) :
    ∃ dir name, place = ⟨dir ++ [name], .name⟩ ∧ fs.Names path dir name := by
  obtain ⟨front, dir, name, -, -, rfl⟩ := route_of_resolve h hend
  exact ⟨dir, name, rfl, h⟩

theorem Names.route {fs : FileSystem} {path : Text} {dir : Location} {name : Text}
    (h : fs.Names path dir name) :
    name.length ≤ FilePath.maxName ∧ ∃ front, Route fs path front dir name := by
  obtain ⟨front, dir', name', r, hname, hplace⟩ := route_of_resolve h rfl
  obtain ⟨hdir, hsame⟩ := List.append_inj' (Place.mk.inj hplace).1 rfl
  cases hdir
  cases hsame
  exact ⟨hname, front, r⟩

theorem Names.isEntry {fs : FileSystem} {path : Text} {dir : Location} {name : Text}
    (h : fs.Names path dir name) : IsEntry (dir ++ [name]) := by
  obtain ⟨-, front, r⟩ := h.route
  exact isEntry_of_components r.components_eq r.ne_dotDot

theorem Names.directory {fs : FileSystem} (hs : fs.Sound) {path : Text} {dir : Location}
    {name : Text} (h : fs.Names path dir name) : fs.node? dir = some .directory := by
  obtain ⟨-, front, r⟩ := h.route
  exact walk_directory hs (node?_start fs path) r.walk_eq

theorem Names.keeps {fs fs' : FileSystem} (hk : KeepsDirectories fs fs') {path : Text}
    {dir : Location} {name : Text} (h : fs.Names path dir name) : fs'.Names path dir name := by
  obtain ⟨hname, front, r⟩ := h.route
  exact Route.names { r with walk_eq := walk_keeps hk r.walk_eq } hname

def extended (name ext : Text) : Text := name ++ FilePath.dot ++ ext

theorem extended_length {name ext : Text} (hname : name ≠ []) (hext : ext ≠ []) :
    3 ≤ (extended name ext).length := by
  have hname' := List.length_pos_iff.mpr hname
  have hext' := List.length_pos_iff.mpr hext
  simp only [extended, FilePath.dot, List.length_append, List.length_singleton]
  omega

theorem extended_ne_short {name ext short : Text} (hname : name ≠ []) (hext : ext ≠ [])
    (hshort : short.length < 3) : extended name ext ≠ short := by
  rintro rfl
  have hlength := extended_length hname hext
  omega

theorem extended_injective {name ext ext' : Text} (h : extended name ext = extended name ext') :
    ext = ext' := List.append_cancel_left h

theorem isLabel_extended {name ext : Text} (hnul : 0 ∉ name) (hslash : FilePath.slash ∉ name)
    (hext : FilePath.IsLabel ext) : FilePath.IsLabel (extended name ext) where
  ne_nil := List.append_ne_nil_of_right_ne_nil _ hext.ne_nil
  nul_not_mem := by
    rw [extended, List.mem_append, List.mem_append, not_or, not_or]
    exact ⟨⟨hnul, by decide⟩, hext.nul_not_mem⟩
  slash_not_mem := by
    rw [extended, List.mem_append, List.mem_append, not_or, not_or]
    exact ⟨⟨hslash, by decide⟩, hext.slash_not_mem⟩

theorem extended_ne {name ext : Text} : extended name ext ≠ name := by
  intro h
  have hlength := congrArg List.length h
  simp [extended, FilePath.dot] at hlength

theorem Route.name_ne_nil {fs : FileSystem} {path : Text} {front : List Text} {dir : Location}
    {name : Text} (r : Route fs path front dir name) : name ≠ [] := by
  have hmem : name ∈ FilePath.components path := by simp [r.components_eq]
  simpa using (List.mem_filter.mp hmem).2

theorem Route.path_ne_nil {fs : FileSystem} {path : Text} {front : List Text} {dir : Location}
    {name : Text} (r : Route fs path front dir name) : path ≠ [] := by
  rintro rfl
  have hempty := r.components_eq
  simp [FilePath.components, Text.untilNul, Text.splitAt] at hempty

theorem Route.withSuffix {fs : FileSystem} {path : Text} {front : List Text} {dir : Location}
    {name : Text} (r : Route fs path front dir name) (hpath : 0 ∉ path) {ext : Text}
    (hext : FilePath.IsLabel ext)
    (hlong : FilePath.isTooLong (FilePath.withSuffix path ext) = false) :
    Route fs (FilePath.withSuffix path ext) front dir (extended name ext) := by
  have hname : name ≠ [] := r.name_ne_nil
  have hend : path.getLast? ≠ some FilePath.slash := by
    rw [← Text.untilNul_of_not_mem hpath]
    exact r.no_slash
  have hne : path ≠ [] := r.path_ne_nil
  have hnul : (0 : UInt8) ∉ FilePath.dot ++ ext := by
    have hext' := hext.nul_not_mem
    simp [FilePath.dot, hext']
  have hslash : FilePath.slash ∉ FilePath.dot ++ ext := by
    rw [List.mem_append, not_or]
    exact ⟨by decide, hext.slash_not_mem⟩
  have hsuffix : FilePath.withSuffix path ext = path ++ (FilePath.dot ++ ext) := by
    rw [FilePath.withSuffix, List.append_assoc]
  obtain ⟨front', last, hpathParts, hparts⟩ :=
    FilePath.components_append hpath hnul hslash hne hend
  rw [r.components_eq] at hpathParts
  obtain ⟨hfront, hlast⟩ := List.append_inj' hpathParts rfl
  cases hfront
  cases hlast
  refine ⟨hlong, ?_, ?_, ?_, ?_, ?_⟩
  · rw [hsuffix, hparts, extended, List.append_assoc]
  · rw [hsuffix, start, FilePath.isAbsolute_append hne]
    exact r.walk_eq
  · exact extended_ne_short hname hext.ne_nil (by decide)
  · exact extended_ne_short hname hext.ne_nil (by decide)
  · have hboth : (0 : UInt8) ∉ FilePath.withSuffix path ext := by
      rw [hsuffix, List.mem_append, not_or]
      exact ⟨hpath, hnul⟩
    rw [Text.untilNul_of_not_mem hboth, FilePath.withSuffix,
      List.getLast?_append_of_ne_nil _ hext.ne_nil]
    intro hlast
    exact hext.slash_not_mem (List.mem_of_getLast? hlast)

theorem Names.withSuffix {fs : FileSystem} {path : Text} {dir : Location} {name : Text}
    (h : fs.Names path dir name) (hpath : 0 ∉ path) {ext : Text} (hext : FilePath.IsLabel ext) :
    fs.Names (FilePath.withSuffix path ext) dir (extended name ext) ∨
      fs.resolve (FilePath.withSuffix path ext) = .error .nameTooLong := by
  obtain ⟨-, front, r⟩ := h.route
  by_cases hlong : FilePath.isTooLong (FilePath.withSuffix path ext) = true
  · right
    rw [resolve, if_pos hlong]
  have r' := r.withSuffix hpath hext (by simpa using hlong)
  rcases Nat.lt_or_ge FilePath.maxName (extended name ext).length with hname | hname
  · right
    rw [r'.resolve_eq, if_pos hname]
  · left
    exact r'.names hname

end FileSystem

end StructuredLog
