import StructuredLog.Proofs.LogFiles.Territories

/-!
# What opening a log file adds

Opening a log file makes the directories on the way to it, and the file if there is none. So what
was there stays, and what was missing is still missing unless it is the file or the way leads
through it. Main statements: `create_node?_eq` and `contentAt_of_create`.
-/

namespace StructuredLog

open FileSystem LogFile Location

namespace FileSystem

/-- There is nothing at the location, or a file without content. -/
def IsEmptyAt (fs : FileSystem) (loc : Location) : Prop :=
  fs.node? loc = none ∨ fs.contentOf loc = some []

theorem makeParent_node?_eq (fs : FileSystem) {path : Text} {loc : Location}
    (hloc : loc ∉ stopsOf (FilePath.parent path)) :
    (fs.makeParent path).2.node? loc = fs.node? loc := by
  refine makeParent_induction (R := fun fs fs' => fs'.node? loc = fs.node? loc) (fun _ => rfl)
    (fun h h' => h'.trans h) (fun fs stop hstop hentry _ => ?_) fs
  rw [node?_withDirectory hentry, Function.update_of_ne (ne_of_mem_of_not_mem hstop hloc).symm]

end FileSystem

theorem Site.goal_datedBackup {fs : FileSystem} {path : Text} {dir : Location} {name date : Text}
    (h : Site fs path dir name) (hshape : Work.hasDateShape date = true) :
    goal (Work.datedBackup path date) = dir ++ [extended name date] := by
  rw [Work.datedBackup, (h.beside_withSuffix (isTag_of_hasDateShape hshape)).goal_eq, h.goal_parent]

namespace LogFile

variable {clock : Clock} {path : Text} {schedule : Schedule} {fs fs' : FileSystem} {log : LogFile}
  {loc : Location}

theorem create_node?_eq (hs : fs.Sound) (hpath : 0 ∉ path)
    (hcreate : create clock path schedule fs = (.ok log, fs'))
    (hloc : loc ∉ stopsOf (FilePath.parent path)) (hgoal : loc ≠ goal path) :
    fs'.node? loc = fs.node? loc := by
  obtain ⟨made, dir, name, target, hmade, -, -, -, -, hopen, -⟩ := create_ok hs hpath hcreate
  have hway : made.node? loc = fs.node? loc := by
    rw [← makeParent_node?_eq fs hloc, hmade]
  rcases openFile_adds hopen with rfl | ⟨-, -, hnode⟩
  · exact hway
  · rw [hnode, Function.update_of_ne hgoal, hway]

theorem create_isFileOrFree (hs : fs.Sound) (hpath : 0 ∉ path)
    (hcreate : create clock path schedule fs = (.ok log, fs')) (hloc : fs.IsFileOrFree loc) :
    fs'.IsFileOrFree loc ∨ loc ≠ goal path ∧ loc ∈ stopsOf (FilePath.parent path) := by
  by_cases hgoal : loc = goal path
  · left
    obtain ⟨made, dir, name, target, -, -, hadds, hsite, hdir, hopen, -⟩ :=
      create_ok hs hpath hcreate
    rw [hgoal] at hloc ⊢
    rcases openFile_adds hopen with rfl | ⟨-, -, hnode⟩
    · have hstands : goal path = dir ++ [name] := (goal_of_resolve hsite.names (by simp)).1.symm
      rcases hadds.node_eq (goal path) with hsame | ⟨-, hmade⟩
      · rwa [IsFileOrFree, hsame]
      · exact absurd (hstands ▸ hmade) hdir
    · rw [IsFileOrFree, hnode, Function.update_self]
      exact .inr ⟨_, rfl⟩
  · by_cases hway : loc ∈ stopsOf (FilePath.parent path)
    · exact .inr ⟨hgoal, hway⟩
    · left
      rwa [IsFileOrFree, create_node?_eq hs hpath hcreate hway hgoal]

theorem create_untouched (hs : fs.Sound) (hpath : 0 ∉ path)
    (hcreate : create clock path schedule fs = (.ok log, fs')) (hloc : fs.node? loc ≠ none) :
    Untouched fs fs' loc := by
  obtain ⟨made, dir, name, target, -, -, hadds, -, -, hopen, -⟩ := create_ok hs hpath hcreate
  have hgains : Gains fs fs' := hadds.gains.trans (.openFile hopen)
  obtain ⟨node, hnode⟩ := Option.ne_none_iff_exists'.mp hloc
  exact ⟨(hgains.node hnode).trans hnode.symm, fun n hn => hgains.file (hs.inhabited hn)⟩

theorem contentAt_of_create (hs : fs.Sound) (hpath : 0 ∉ path)
    (hcreate : create clock path schedule fs = (.ok log, fs')) (hempty : fs.IsEmptyAt (goal path)) :
    fs'.contentAt path = some [] := by
  obtain ⟨made, dir, name, target, -, -, hadds, hsite, hdir, hopen, -⟩ := create_ok hs hpath hcreate
  have hsite' : Site fs' path dir name := hsite.follows (.openFile hsite.sound hopen)
  have hgoal : goal path = dir ++ [name] := (goal_of_resolve hsite.names (by simp)).1.symm
  rw [hsite'.names.contentAt_eq, ← hgoal]
  rcases hempty with hfree | hcontent
  · have hmissing : made.node? (dir ++ [name]) = none := by
      rcases hadds.node_eq (dir ++ [name]) with hsame | ⟨-, hmade⟩
      · rw [hsame, ← hgoal, hfree]
      · exact absurd hmade hdir
    obtain ⟨-, hfiles, hnode⟩ := hsite.names.openFile_missing hmissing hopen
    have hstands : fs'.node? (goal path) = some (.file made.files.length) := by
      rw [hgoal, hnode, Function.update_self]
    have hadded : fs'.files[made.files.length]? = some ⟨#[], Instant.floorSeconds clock.wall⟩ := by
      rw [hfiles]
      simp
    exact contentOf_file hstands hadded
  · have hstands : fs.node? (goal path) ≠ none := by
      intro hnone
      rw [contentOf, hnone] at hcontent
      cases hcontent
    have hsame := create_untouched hs hpath hcreate hstands
    rw [← hcontent]
    exact hsame.contentOf_eq

end LogFile

end StructuredLog
