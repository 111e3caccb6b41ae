import StructuredLog.Proofs.Files.Additions

/-!
# Entries apart from contents

Where a path leads does not depend on what the files hold, nor does what a removal or a renaming
does to the entries. These leave what the files hold, and the disk.
-/

namespace StructuredLog

namespace FileSystem

section Kept

variable {fs fs' : FileSystem} {path target : Text}

theorem rename_files (h : fs.rename path target = .ok fs') : fs'.files = fs.files := by
  obtain ⟨s, t, moved, -, -, -, hmove⟩ := rename_ok h
  obtain ⟨-, -, ⟨-, rfl⟩ | ⟨-, rfl⟩⟩ := moveNode_ok hmove <;> rfl

theorem remove_files (h : fs.remove path = .ok fs') : fs'.files = fs.files := by
  rcases remove_ok h with rfl | ⟨place, -, -, -, rfl, -⟩ <;> rfl

theorem rename_disk (h : fs.rename path target = .ok fs') : fs'.disk = fs.disk := by
  obtain ⟨s, t, moved, -, -, -, hmove⟩ := rename_ok h
  obtain ⟨-, -, ⟨-, rfl⟩ | ⟨-, rfl⟩⟩ := moveNode_ok hmove <;> rfl

end Kept

variable (fs : FileSystem) (files : List File) (path target : Text)

theorem walk_withFiles (here : Location) (names : List Text) :
    ({ fs with files := files } : FileSystem).walk here names = fs.walk here names :=
  walk_congr fun _ _ => rfl

theorem resolve_withFiles :
    ({ fs with files := files } : FileSystem).resolve path = fs.resolve path := by
  simp only [resolve, walk_withFiles]

theorem exists?_withFiles :
    ({ fs with files := files } : FileSystem).exists? path = fs.exists? path := by
  rw [exists?, exists?, stat, stat, resolve_withFiles]
  rfl

theorem remove_withFiles : ({ fs with files := files } : FileSystem).remove path =
    (fs.remove path).map fun after => { after with files := files } := by
  rw [remove, remove, resolve_withFiles]
  cases fs.resolve path with
  | error e => cases e <;> rfl
  | ok place =>
    have hnode : node? { fs with files := files } place.location = fs.node? place.location := rfl
    have hempty : isEmptyDirectory { fs with files := files } place.location =
      fs.isEmptyDirectory place.location := rfl
    dsimp only
    rw [hnode, hempty]
    cases fs.node? place.location with
    | none => rfl
    | some node =>
      dsimp only
      split_ifs <;> rfl

theorem moveNode_withFiles (moved : Node) (s t : Place) :
    ({ fs with files := files } : FileSystem).moveNode moved s t =
      (fs.moveNode moved s t).map fun after => { after with files := files } := by
  have hmay : mayReplace { fs with files := files } s.location t.location moved =
    fs.mayReplace s.location t.location moved := rfl
  rw [moveNode, moveNode, hmay]
  split_ifs
  · rfl
  · rfl
  · rfl
  · rfl
  · cases fs.mayReplace s.location t.location moved <;> rfl

theorem rename_withFiles : ({ fs with files := files } : FileSystem).rename path target =
    (fs.rename path target).map fun after => { after with files := files } := by
  rw [rename, rename, resolve_withFiles]
  cases fs.resolve path with
  | error e => rfl
  | ok s =>
    have hnode : node? { fs with files := files } s.location = fs.node? s.location := rfl
    dsimp only
    rw [hnode]
    split_ifs
    · rfl
    · cases fs.node? s.location with
      | none => rfl
      | some moved =>
        dsimp only
        rw [resolve_withFiles]
        cases fs.resolve target with
        | error e => rfl
        | ok t => exact moveNode_withFiles fs files moved s t

end FileSystem

end StructuredLog
