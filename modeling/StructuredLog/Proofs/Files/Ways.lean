import StructuredLog.Proofs.Files.Moves

/-!
# What a path looks at

Following a path looks up one location for each name in it, and which ones these are can be read
off the path. Where the path leads to is the last of them, unless it ends in dots: then it leads to
a directory, as all that was passed on the way is one.
-/

namespace StructuredLog

namespace Location

/-- The locations that are looked up on the way. -/
def stops : (here : Location) → List Text → List Location
  | _, [] => []
  | here, name :: rest =>
    if name = FilePath.dot then stops here rest
    else if name = FilePath.dotDot then stops (above here) rest
    else (here ++ [name]) :: stops (here ++ [name]) rest

def stopsOf (path : Text) : List Location := stops (start path) (FilePath.components path)

/-- Where a path leads, if it does. -/
def goal (path : Text) : Location := follow (start path) (FilePath.components path)

theorem stops_subset_append (here : Location) (names more : List Text) :
    stops here names ⊆ stops here (names ++ more) := by
  induction names generalizing here with
  | nil => exact List.nil_subset _
  | cons name names ih =>
    rw [List.cons_append, stops, stops]
    split_ifs
    · exact ih here
    · exact ih (above here)
    · exact List.cons_subset_cons _ (ih _)

theorem follow_concat {here : Location} {names : List Text} {name : Text}
    (hdot : name ≠ FilePath.dot) (hdots : name ≠ FilePath.dotDot) :
    follow here (names ++ [name]) = follow here names ++ [name] := by
  induction names generalizing here with
  | nil => simp [follow, hdot, hdots]
  | cons other names ih =>
    rw [List.cons_append, follow, follow]
    split_ifs
    · exact ih
    · exact ih
    · exact ih

theorem mem_stops_concat {here : Location} {names : List Text} {name : Text}
    (hdot : name ≠ FilePath.dot) (hdots : name ≠ FilePath.dotDot) :
    follow here names ++ [name] ∈ stops here (names ++ [name]) := by
  induction names generalizing here with
  | nil => simp [follow, stops, hdot, hdots]
  | cons other names ih =>
    rw [List.cons_append, follow, stops]
    split_ifs
    · exact ih
    · exact ih
    · exact List.mem_cons_of_mem _ ih

end Location

namespace FileSystem

open Location

variable {fs : FileSystem} {path : Text} {place : Place}

theorem goal_of_resolve (h : fs.resolve path = .ok place) (hend : place.pathEnd ≠ .dots) :
    place.location = goal path ∧ goal path ∈ stopsOf path := by
  obtain ⟨-, front, dir, name, hcomponents, hwalk, hdot, hdots, -, hloc, -⟩ :=
    entry_of_resolve h hend
  have hgoal : goal path = dir ++ [name] := by
    rw [goal, hcomponents, follow_concat hdot hdots, follow_of_walk hwalk]
  have hmem : follow (start path) front ++ [name] ∈ stops (start path) (front ++ [name]) :=
    mem_stops_concat hdot hdots
  rw [follow_of_walk hwalk] at hmem
  exact ⟨hloc.trans hgoal.symm, by rwa [hgoal, stopsOf, hcomponents]⟩

theorem directory_of_dots (hs : fs.Sound) (h : fs.resolve path = .ok place)
    (hend : place.pathEnd = .dots) : fs.node? place.location = some .directory := by
  rw [resolve] at h
  by_cases hlong : FilePath.isTooLong path = true
  · rw [if_pos hlong] at h
    cases h
  rw [if_neg hlong] at h
  dsimp only at h
  cases hlast : (FilePath.components path).getLast? with
  | none =>
    simp only [hlast] at h
    split_ifs at h
    cases h
    exact node?_of_not_isEntry (fun he => he.ne_root rfl) fs
  | some name =>
    simp only [hlast] at h
    cases hwalk : fs.walk (start path) (FilePath.components path).dropLast with
    | error e =>
      rw [hwalk] at h
      cases h
    | ok here =>
      have hhere := walk_directory hs (node?_start fs path) hwalk
      simp only [hwalk] at h
      split_ifs at h
      · cases h
        exact hhere
      · cases h
        exact node?_above hs hhere
      · cases h
        cases hend
      · cases h
        cases hend

theorem stops_dropLast_subset (path : Text) :
    stops (start path) (FilePath.components path).dropLast ⊆ stopsOf path := by
  rcases List.eq_nil_or_concat' (FilePath.components path) with hnil | ⟨front, name, hcomponents⟩
  · rw [stopsOf, hnil]
    exact List.Subset.refl _
  · rw [stopsOf, hcomponents, List.dropLast_concat]
    exact stops_subset_append _ _ _

end FileSystem

end StructuredLog
