import StructuredLog.Proofs.Files.Additions
import StructuredLog.Proofs.Files.Twins

/-!
# The order of the entries

A directory may list its entries in any order. File systems with the same entries in different
orders have the same nodes, paths lead to the same places in them, and a removal does the same.
-/

namespace StructuredLog

theorem Assoc.get?_eq_of_perm {κ α : Type} [DecidableEq κ] {l l' : List (κ × α)} (h : l.Perm l')
    (hl : (keys l).Nodup) (key : κ) : get? key l = get? key l' := by
  have hl' : (keys l').Nodup := (h.map Prod.fst).nodup_iff.mp hl
  refine Option.ext fun a => ⟨fun ha => ?_, fun ha => ?_⟩
  · exact get?_of_mem hl' (h.subset (mem_of_get? ha))
  · exact get?_of_mem hl (h.symm.subset (mem_of_get? ha))

namespace FileSystem

open Location

structure Reordered (fs fs' : FileSystem) : Prop where
  entries : fs.entries.Perm fs'.entries
  files : fs.files = fs'.files

namespace Reordered

variable {fs fs' : FileSystem}

theorem node?_eq (h : Reordered fs fs') (hd : fs.Distinct) : fs.node? = fs'.node? := by
  funext loc
  rw [node?, node?, Assoc.get?_eq_of_perm h.entries hd]

theorem namesIn_perm (h : Reordered fs fs') (dir : Location) :
    (fs.namesIn dir).Perm (fs'.namesIn dir) := h.entries.filterMap _

theorem isEmptyDirectory_eq (h : Reordered fs fs') (dir : Location) :
    fs.isEmptyDirectory dir = fs'.isEmptyDirectory dir := by
  rw [isEmptyDirectory, isEmptyDirectory, Bool.eq_iff_iff, List.isEmpty_iff, List.isEmpty_iff]
  exact ⟨fun hnil => (hnil ▸ h.namesIn_perm dir).symm.eq_nil,
    fun hnil => (hnil ▸ h.namesIn_perm dir).eq_nil⟩

theorem walk_eq (h : Reordered fs fs') (hd : fs.Distinct) (here : Location) (names : List Text) :
    fs.walk here names = fs'.walk here names :=
  walk_congr fun loc _ => congrFun (h.node?_eq hd) loc

theorem resolve_eq (h : Reordered fs fs') (hd : fs.Distinct) (path : Text) :
    fs.resolve path = fs'.resolve path := by
  rw [resolve, resolve]
  simp only [h.walk_eq hd]

theorem list_perm (h : Reordered fs fs') (hd : fs.Distinct) (path : Text) :
    SameResult List.Perm (fs.list path) (fs'.list path) := by
  rw [list, list, ← h.walk_eq hd]
  cases fs.walk (start path) (FilePath.components path) with
  | error e => exact .error e
  | ok dir => exact .ok (h.namesIn_perm dir)

theorem erase (h : Reordered fs fs') (loc : Location) :
    Reordered { fs with entries := Assoc.erase loc fs.entries }
      { fs' with entries := Assoc.erase loc fs'.entries } :=
  ⟨h.entries.filter _, h.files⟩

theorem remove (h : Reordered fs fs') (hd : fs.Distinct) (path : Text) :
    SameResult Reordered (fs.remove path) (fs'.remove path) := by
  rw [FileSystem.remove, FileSystem.remove, ← h.resolve_eq hd]
  cases fs.resolve path with
  | error e =>
    cases e with
    | notFound => exact .ok h
    | _ => exact .error _
  | ok place =>
    simp only [← h.node?_eq hd, ← h.isEmptyDirectory_eq]
    cases fs.node? place.location with
    | none => exact .ok h
    | some node =>
      dsimp only
      split_ifs
      · exact .error _
      · exact .error _
      · exact .ok (h.erase _)
      · exact .error _
      · exact .error _
      · exact .ok (h.erase _)

end Reordered

end FileSystem

end StructuredLog
