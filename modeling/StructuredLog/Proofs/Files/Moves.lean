import StructuredLog.Proofs.Files.Listing

/-!
# Moving and removing any entry

What a rename or a removal that succeeds has found and done, whatever stands at the paths.
-/

namespace StructuredLog

namespace Location

def follow : (here : Location) → List Text → Location
  | here, [] => here
  | here, name :: rest =>
    if name = FilePath.dot then follow here rest
    else if name = FilePath.dotDot then follow (above here) rest
    else follow (here ++ [name]) rest

/-- What a way enters only to leave it again at once. -/
def detours : (here : Location) → List Text → List Location
  | _, [] => []
  | here, name :: rest =>
    if name = FilePath.dot then detours here rest
    else if name = FilePath.dotDot then detours (above here) rest
    else if rest.find? (· ≠ FilePath.dot) = some FilePath.dotDot then
      (here ++ [name]) :: detours (here ++ [name]) rest
    else detours (here ++ [name]) rest

theorem detours_subset_append (here : Location) (names more : List Text) :
    detours here names ⊆ detours here (names ++ more) := by
  induction names generalizing here with
  | nil => exact List.nil_subset _
  | cons name names ih =>
    rw [List.cons_append, detours, detours]
    split_ifs with hdot hdots hback hback'
    · exact ih here
    · exact ih (above here)
    · exact List.cons_subset_cons _ (ih _)
    · rw [List.find?_append, hback] at hback'
      exact absurd rfl hback'
    · exact List.Subset.trans (ih _) (List.subset_cons_self _ _)
    · exact ih _

end Location

namespace FileSystem

open Location

variable {fs fs' : FileSystem} {path target : Text}

theorem follow_of_walk {names : List Text} {here place : Location}
    (h : fs.walk here names = .ok place) : follow here names = place := by
  replace h := leads_of_walk h
  induction h with
  | ended here => rfl
  | stayed _ ih => rwa [follow, if_pos rfl]
  | climbed _ ih => rwa [follow, if_neg dotDot_ne_dot, if_pos rfl]
  | entered hdot hdots _ _ _ ih => rwa [follow, if_neg hdot, if_neg hdots]

theorem Leads.find?_of_empty {names : List Text} {here place : Location}
    (hempty : ∀ name, fs.node? (here ++ [name]) = none) (hplace : place ≠ here)
    (h : fs.Leads here names place) :
    names.find? (· ≠ FilePath.dot) = some FilePath.dotDot := by
  induction h with
  | ended here => exact absurd rfl hplace
  | stayed _ ih =>
    rw [List.find?_cons_of_neg (by simp)]
    exact ih hempty hplace
  | climbed => exact List.find?_cons_of_pos (by decide)
  | entered _ _ _ hdir =>
    rw [hempty] at hdir
    cases hdir

/-- A way leads to the same place without an entry that has none below it, unless the way enters
this entry only to leave it again at once. -/
theorem Leads.vacate {gone here place : Location} {names : List Text}
    (hnode : fs'.node? = Function.update fs.node? gone none)
    (hempty : ∀ name, fs.node? (gone ++ [name]) = none)
    (hspares : fs.node? gone ≠ some .directory ∨ gone ∉ detours here names)
    (hplace : place ≠ gone) (h : fs.Leads here names place) : fs'.Leads here names place := by
  induction h with
  | ended here => exact .ended here
  | stayed _ ih =>
    rw [detours, if_pos rfl] at hspares
    exact .stayed (ih hspares hplace)
  | climbed _ ih =>
    rw [detours, if_neg dotDot_ne_dot, if_pos rfl] at hspares
    exact .climbed (ih hspares hplace)
  | @entered here _ name _ hdot hdots hshort hdir hrest ih =>
    rw [detours, if_neg hdot, if_neg hdots] at hspares
    have hne : here ++ [name] ≠ gone := by
      rintro rfl
      rw [if_pos (hrest.find?_of_empty hempty hplace)] at hspares
      exact hspares.elim (fun hnot => hnot hdir) fun hnot => hnot List.mem_cons_self
    refine .entered hdot hdots hshort ?_ (ih (hspares.imp_right ?_) hplace)
    · rw [hnode, Function.update_of_ne hne, hdir]
    · intro hnot hmem
      split_ifs at hnot
      · exact hnot (List.mem_cons_of_mem _ hmem)
      · exact hnot hmem

theorem walk_vacate {gone here place : Location} {names : List Text}
    (hnode : fs'.node? = Function.update fs.node? gone none)
    (hempty : ∀ name, fs.node? (gone ++ [name]) = none)
    (hspares : fs.node? gone ≠ some .directory ∨ gone ∉ detours here names)
    (hplace : place ≠ gone) (h : fs.walk here names = .ok place) :
    fs'.walk here names = .ok place :=
  ((leads_of_walk h).vacate hnode hempty hspares hplace).walk_eq

theorem walk_of_detour {gone here place : Location} {names : List Text}
    (hnode : fs'.node? = Function.update fs.node? gone none) (hmem : gone ∈ detours here names)
    (h : fs.walk here names = .ok place) : fs'.walk here names = .error .notFound := by
  replace h := leads_of_walk h
  induction h with
  | ended here => cases hmem
  | stayed _ ih =>
    rw [detours, if_pos rfl] at hmem
    rw [walk, if_pos rfl]
    exact ih hmem
  | climbed _ ih =>
    rw [detours, if_neg dotDot_ne_dot, if_pos rfl] at hmem
    rw [walk, if_neg dotDot_ne_dot, if_pos rfl]
    exact ih hmem
  | @entered here _ name _ hdot hdots hshort hdir _ ih =>
    rw [detours, if_neg hdot, if_neg hdots] at hmem
    rw [walk, if_neg hdot, if_neg hdots, child?, if_neg (Nat.not_lt.mpr hshort), hnode]
    by_cases hhere : here ++ [name] = gone
    · rw [hhere, Function.update_self]
    · rw [Function.update_of_ne hhere, hdir]
      refine ih ?_
      split_ifs at hmem
      · exact (List.mem_cons.mp hmem).resolve_left (Ne.symm hhere)
      · exact hmem

theorem resolve_of_walk {here : Location} {place : Place}
    (hwalk : fs.walk (start path) (FilePath.components path).dropLast = .ok here)
    (h : fs'.resolve path = .ok place) : fs.resolve path = .ok place := by
  rw [resolve] at h ⊢
  dsimp only at h ⊢
  cases hwalk' : fs'.walk (start path) (FilePath.components path).dropLast with
  | ok here' => rwa [hwalk', ← follow_of_walk hwalk', follow_of_walk hwalk, ← hwalk] at h
  | error e =>
    -- A path without names ends where it starts.
    rw [hwalk'] at h
    cases hlast : (FilePath.components path).getLast? with
    | none =>
      rw [hlast] at h
      exact h
    | some name =>
      simp only [hlast] at h
      split_ifs at h

theorem Names.of_resolve {dir : Location} {name : Text} (h : fs.Names path dir name) {place : Place}
    (h' : fs'.resolve path = .ok place) : fs'.Names path dir name := by
  obtain ⟨-, front, r⟩ := h.route
  have hwalk : fs.walk (start path) (FilePath.components path).dropLast = .ok dir := by
    rw [r.dropLast_components, r.walk_eq]
  cases h.symm.trans (resolve_of_walk hwalk h')
  exact h'

theorem Names.withSuffix_of_resolve {dir : Location} {name : Text} (h : fs.Names path dir name)
    (hpath : 0 ∉ path) {ext : Text} (hext : FilePath.IsLabel ext) {place : Place}
    (h' : fs'.resolve (FilePath.withSuffix path ext) = .ok place) :
    place = ⟨dir ++ [extended name ext], .name⟩ := by
  obtain ⟨-, front, r⟩ := h.route
  have hshort : FilePath.isTooLong (FilePath.withSuffix path ext) = false := by
    by_contra hlong
    rw [resolve, if_pos (by simpa using hlong)] at h'
    cases h'
  have r' := r.withSuffix hpath hext hshort
  have hwalk : fs.walk (start (FilePath.withSuffix path ext))
      (FilePath.components (FilePath.withSuffix path ext)).dropLast = .ok dir := by
    rw [r'.dropLast_components, r'.walk_eq]
  have hresolve := resolve_of_walk hwalk h'
  rw [r'.resolve_eq] at hresolve
  split_ifs at hresolve
  cases hresolve
  rfl

theorem Names.remove_sound (hs : fs.Sound) {dir : Location} {name : Text}
    (h : fs.Names path dir name) (hremove : fs.remove path = .ok fs') :
    fs'.Sound ∧ fs'.files = fs.files ∧ (∀ below, fs.node? (dir ++ [name] ++ [below]) = none) ∧
      fs'.node? = Function.update fs.node? (dir ++ [name]) none := by
  obtain ⟨hfiles, hnode, hempty⟩ := h.remove_eq hremove
  have hbelow : ∀ below, fs.node? (dir ++ [name] ++ [below]) = none := by
    intro below
    by_cases hdir : fs.node? (dir ++ [name]) = some .directory
    · exact node?_of_isEmptyDirectory h.isEntry (hempty hdir) below
    · exact hs.node?_below hdir (by simp)
  exact ⟨hs.vacate hbelow hnode hfiles, hfiles, hbelow, hnode⟩

theorem rename_sound (hs : fs.Sound) (hrename : fs.rename path target = .ok fs') :
    fs'.Sound ∧ fs'.files = fs.files ∧ ∃ s t, fs.resolve path = .ok s ∧ fs.resolve target = .ok t ∧
      ∀ loc, ¬s.location <+: loc → ¬t.location <+: loc → fs'.node? loc = fs.node? loc := by
  obtain ⟨s, t, moved, hsource, htarget, -, hmove⟩ := rename_ok hrename
  obtain ⟨hends, hendt, ⟨-, rfl⟩ | ⟨hmay, rfl⟩⟩ := moveNode_ok hmove
  · exact ⟨hs, rfl, s, t, hsource, htarget, fun _ _ _ => rfl⟩
  · have hcan := canMove_of_mayReplace hs (isEntry_of_resolve hsource hends)
      (isEntry_of_resolve htarget hendt) hmay
    refine ⟨?_, rfl, s, t, hsource, htarget, fun _ => node?_move_of_apart⟩
    obtain ⟨-, front, dir, name, -, hwalk, -, -, -, hloc, -⟩ := entry_of_resolve htarget hendt
    rw [hloc] at hcan ⊢
    exact hs.move hcan (walk_directory hs (node?_start fs target) hwalk)

end FileSystem

end StructuredLog
