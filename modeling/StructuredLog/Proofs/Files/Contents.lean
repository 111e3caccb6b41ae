import StructuredLog.Proofs.Files.Operations

/-!
# What the files hold

The content of the file at a path or a location, and when it is the same in two file systems.
-/

namespace StructuredLog

namespace FileSystem

def contentAt (fs : FileSystem) (path : Text) : Option Text :=
  (fs.fileAt? path).map (·.content.toList)

def contentOf (fs : FileSystem) (loc : Location) : Option Text :=
  match fs.node? loc with
  | some (.file n) => fs.files[n]?.map (·.content.toList)
  | _ => none

theorem Names.contentAt_eq {fs : FileSystem} {path : Text} {dir : Location} {name : Text}
    (h : fs.Names path dir name) : fs.contentAt path = fs.contentOf (dir ++ [name]) := by
  rw [contentAt, fileAt?, h.stat_eq, contentOf]
  cases fs.node? (dir ++ [name]) with
  | none => rfl
  | some node => cases node <;> rfl

theorem mem_of_contentAt {fs : FileSystem} {path content : Text}
    (h : fs.contentAt path = some content) : ∃ loc n, (loc, .file n) ∈ fs.entries ∧
      fs.files[n]?.map (·.content.toList) = some content := by
  rw [contentAt, fileAt?] at h
  cases hstat : fs.stat path with
  | error e => simp [hstat] at h
  | ok node =>
    cases node with
    | directory => simp [hstat] at h
    | special kind => simp [hstat] at h
    | file n =>
      rw [hstat] at h
      obtain ⟨loc, hloc⟩ := exists_of_stat hstat
      refine ⟨loc, n, ?_, h⟩
      have hentry : Location.IsEntry loc := by
        by_contra hnot
        rw [node?_of_not_isEntry hnot] at hloc
        cases hloc
      rw [node?_of_isEntry hentry] at hloc
      exact Assoc.mem_of_get? hloc

def IsFileOrFree (fs : FileSystem) (loc : Location) : Prop :=
  fs.node? loc = none ∨ ∃ n, fs.node? loc = some (.file n)

theorem IsFileOrFree.not_directory {fs : FileSystem} {loc : Location} (h : fs.IsFileOrFree loc) :
    fs.node? loc ≠ some .directory := by
  rcases h with hnone | ⟨n, hfile⟩
  · simp [hnone]
  · simp [hfile]

/-- The same node stands at the location, and a file there is as it was. -/
structure Untouched (fs fs' : FileSystem) (loc : Location) : Prop where
  node_eq : fs'.node? loc = fs.node? loc
  file_eq : ∀ n, fs.node? loc = some (.file n) → fs'.files[n]? = fs.files[n]?

theorem Untouched.refl (fs : FileSystem) (loc : Location) : Untouched fs fs loc :=
  ⟨rfl, fun _ _ => rfl⟩

theorem Untouched.trans {fs fs' fs'' : FileSystem} {loc : Location} (h : Untouched fs fs' loc)
    (h' : Untouched fs' fs'' loc) : Untouched fs fs'' loc := by
  refine ⟨h'.node_eq.trans h.node_eq, fun n hn => ?_⟩
  rw [h'.file_eq n (h.node_eq ▸ hn), h.file_eq n hn]

theorem Sound.untouched {fs fs' : FileSystem} (hs : fs.Sound) {here loc : Location} {n : Nat}
    (hhere : fs.node? here = some (.file n)) (hnodes : fs'.node? = fs.node?)
    (hothers : ∀ m, m ≠ n → fs'.files[m]? = fs.files[m]?) (hloc : loc ≠ here) :
    Untouched fs fs' loc := by
  refine ⟨congrFun hnodes loc, fun m hm => hothers m ?_⟩
  rintro rfl
  exact hloc (hs.injective hm hhere)

theorem contentOf_congr {fs fs' : FileSystem} {loc loc' : Location}
    (hnode : fs'.node? loc' = fs.node? loc)
    (hfile : ∀ n, fs.node? loc = some (.file n) → fs'.files[n]? = fs.files[n]?) :
    fs'.contentOf loc' = fs.contentOf loc := by
  rw [contentOf, contentOf, hnode]
  cases hloc : fs.node? loc with
  | none => rfl
  | some node =>
    cases node with
    | file n => simp only [hfile n hloc]
    | directory => rfl
    | special kind => rfl

theorem Untouched.contentOf_eq {fs fs' : FileSystem} {loc : Location} (h : Untouched fs fs' loc) :
    fs'.contentOf loc = fs.contentOf loc :=
  contentOf_congr h.node_eq h.file_eq

theorem contentOf_file {fs : FileSystem} {loc : Location} {n : Nat} {file : File}
    (hnode : fs.node? loc = some (.file n)) (hfile : fs.files[n]? = some file) :
    fs.contentOf loc = some file.content.toList := by
  simp [contentOf, hnode, hfile]

theorem Sound.contentOf_isSome {fs : FileSystem} (hs : fs.Sound) {loc : Location} :
    (fs.contentOf loc).isSome ↔ ∃ n, fs.node? loc = some (.file n) := by
  rw [contentOf]
  constructor
  · intro h
    split at h
    next n hnode => exact ⟨n, hnode⟩
    · cases h
  · rintro ⟨n, hnode⟩
    rw [hnode]
    simpa using hs.inhabited hnode

end FileSystem

end StructuredLog
