import StructuredLog.Proofs.Files.Preparations

/-!
# Ways that can be made again

Directories on the way to a path may go missing, when they are removed or renamed. As long as
nothing else takes their places, the way can be made again; a rename that succeeds leaves it so.
-/

namespace StructuredLog

namespace FileSystem

open Location

variable {fs fs' : FileSystem} {path p q : Text} {here place : Location} {names : List Text}

theorem standing_of_walk (h : fs.walk here names = .ok place) :
    ∀ loc ∈ stops here names, fs.node? loc = some .directory := by
  replace h := leads_of_walk h
  induction h with
  | ended here => exact List.forall_mem_nil _
  | stayed _ ih => rwa [stops, if_pos rfl]
  | climbed _ ih => rwa [stops, if_neg dotDot_ne_dot, if_pos rfl]
  | entered hdot hdots _ hdir _ ih =>
    rw [stops, if_neg hdot, if_neg hdots]
    exact List.forall_mem_cons.mpr ⟨hdir, ih⟩

theorem length_of_walk (h : fs.walk here names = .ok place) :
    ∀ name ∈ names, name.length ≤ FilePath.maxName := by
  replace h := leads_of_walk h
  induction h with
  | ended here => exact List.forall_mem_nil _
  | stayed _ ih => exact List.forall_mem_cons.mpr ⟨by decide, ih⟩
  | climbed _ ih => exact List.forall_mem_cons.mpr ⟨by decide, ih⟩
  | entered _ _ hshort _ _ ih => exact List.forall_mem_cons.mpr ⟨hshort, ih⟩

theorem isFixed_append_of_ne_nil {loc : Location} (h : isFixed loc = false) (hne : loc ≠ [])
    (below : Location) : isFixed (loc ++ below) = false := by
  cases loc with
  | nil => exact absurd rfl hne
  | cons name rest => exact h

/-- The directories on the way to a path are there, or missing where they can be made. -/
def Mendable (fs : FileSystem) (path : Text) : Prop :=
  ∀ loc ∈ stopsOf (FilePath.parent path), fs.Makeable loc

theorem Mendable.vacate (h : fs.Mendable path) {gone : Location} (hfree : isFixed gone = false)
    (hnode : fs'.node? = Function.update fs.node? gone none) : fs'.Mendable path := by
  intro loc hloc
  rw [Makeable, hnode]
  by_cases heq : loc = gone
  · rw [heq, Function.update_self]
    exact .inr ⟨rfl, hfree⟩
  · rw [Function.update_of_ne heq]
    exact h loc hloc

theorem Mendable.remove (h : fs.Mendable path) (hs : fs.Sound) (hremove : fs.remove p = .ok fs') :
    fs'.Mendable path := by
  rcases remove_vacates hs hremove with rfl | ⟨place, -, -, hfree, -, -, hnode⟩
  · exact h
  · exact h.vacate hfree hnode

theorem isFixed_of_moveNode {moved : Node} {s t : Place} (h : fs.moveNode moved s t = .ok fs') :
    isFixed s.location = false := by
  rw [moveNode] at h
  split_ifs at h with hdots hfixed
  all_goals simpa using (not_or.mp hfixed).1

theorem directory_of_mayReplace {source target : Location} {moved : Node}
    (h : fs.mayReplace source target moved = .ok ())
    (htarget : fs.node? target = some .directory) : moved = .directory := by
  unfold mayReplace at h
  rw [htarget] at h
  cases moved with
  | directory => rfl
  | file n => split_ifs at h
  | special kind => split_ifs at h

theorem makeable_of_rename (hs : fs.Sound) (hrename : fs.rename p q = .ok fs') {loc : Location}
    (hloc : fs.node? loc = some .directory) : fs'.Makeable loc := by
  obtain ⟨s, t, moved, hsource, htarget, hmoved, hmove⟩ := rename_ok hrename
  have hfree := isFixed_of_moveNode hmove
  obtain ⟨hends, hendt, ⟨-, rfl⟩ | ⟨hmay, rfl⟩⟩ := moveNode_ok hmove
  · exact .inl hloc
  have hentry := isEntry_of_resolve hsource hends
  have hcan := canMove_of_mayReplace hs hentry (isEntry_of_resolve htarget hendt) hmay
  have hne : s.location ≠ [] := by
    intro hnil
    rw [hnil] at hentry
    exact absurd hentry.not_isAncestor (by decide)
  by_cases hat : t.location <+: loc
  · obtain ⟨below, rfl⟩ := hat
    cases below with
    | nil =>
      rw [List.append_nil] at hloc
      rw [directory_of_mayReplace hmay hloc] at hmoved
      have hnode := hcan.node?_target []
      rw [List.append_nil, List.append_nil, hmoved] at hnode
      rw [List.append_nil]
      exact .inl hnode
    | cons name below =>
      rw [hcan.free _ (List.cons_ne_nil name below)] at hloc
      cases hloc
  · by_cases hbelow : s.location <+: loc
    · obtain ⟨below, rfl⟩ := hbelow
      exact .inr ⟨hcan.node?_source ⟨below, rfl⟩ hat, isFixed_append_of_ne_nil hfree hne below⟩
    · exact .inl ((node?_move_of_apart hbelow hat).trans hloc)

theorem walk_of_resolve {front : List Text} {name : Text} {place : Place}
    (hcomponents : FilePath.components path = front ++ [name]) (h : fs.resolve path = .ok place) :
    ∃ here, fs.walk (start path) front = .ok here := by
  simp only [resolve, hcomponents, List.getLast?_concat, List.dropLast_concat] at h
  cases hwalk : fs.walk (start path) front with
  | ok here => exact ⟨here, rfl⟩
  | error e =>
    rw [hwalk] at h
    split_ifs at h

end FileSystem

end StructuredLog
