import StructuredLog.Proofs.LogFiles.Neighbours

/-!
# Opening log files side by side

A log file that could be opened is at its site. Beside others that are at theirs it is
one more of them, and it comes out the same wherever it sees the same. Main
statements: `OpenAtSite.eachAtSite`, `EachAtSite.create` and `SeesSame.create`.
-/

namespace StructuredLog

open FileSystem LogFile Location

namespace FilePath

theorem components_parent_of_nul {path : Text} (hname : 0 ∉ fileName path) (hnul : 0 ∈ path) :
    parent path ≠ [] ∧ components (parent path) = components path := by
  rcases fileName_cases path with ⟨hsame, -⟩ | ⟨front, k, hsplit, hparent⟩
  · rw [hsame] at hnul
    exact absurd hnul hname
  · have hfront : (0 : UInt8) ∈ front := by
      rw [hsplit, List.mem_append, List.mem_append] at hnul
      rcases hnul with hnul | hnul | hnul
      · exact hnul
      · exact absurd (List.eq_of_mem_replicate hnul) (by decide)
      · exact absurd hnul hname
    rw [if_neg (List.ne_nil_of_mem hfront)] at hparent
    have hcut : Text.untilNul path = Text.untilNul front := by
      rw [hsplit, Text.untilNul_append hfront]
    rw [hparent, components, components, hcut]
    exact ⟨List.ne_nil_of_mem hfront, rfl⟩

end FilePath

namespace LogFile

variable {clock : Clock} {path : Text} {schedule : Schedule} {fs fs' : FileSystem} {log : LogFile}

theorem names_of_create (h : create clock path schedule fs = (.ok log, fs')) :
    ∃ made dir name, FileSystem.Names made path dir name := by
  obtain ⟨w, hopen, -, -⟩ := create_eq_ok_iff.mp h
  obtain ⟨made, target, files, -, hfile, -⟩ := Work.openStream_ok hopen
  obtain ⟨dir, name, hnames, -⟩ := names_of_openFile hfile
  exact ⟨made, dir, name, hnames⟩

/-- No file can be opened at a path with a NUL before its file name: what is left of that has been
made a directory. -/
theorem nul_not_mem_of_create (hs : fs.Sound) (hname : 0 ∉ FilePath.fileName path)
    (h : create clock path schedule fs = (.ok log, fs')) : 0 ∉ path := by
  intro hnul
  obtain ⟨hne, hcut⟩ := FilePath.components_parent_of_nul hname hnul
  obtain ⟨w, hopen, -, -⟩ := create_eq_ok_iff.mp h
  obtain ⟨made, target, files, hmade, hfile, -⟩ := Work.openStream_ok hopen
  obtain ⟨-, -, hparent⟩ := makeParent_made hs hmade
  obtain ⟨-, place, hwalk⟩ := hparent.resolve_left hne
  obtain ⟨dir, name, hnames, hdir⟩ := names_of_openFile hfile
  obtain ⟨-, front, r⟩ := hnames.route
  rw [hcut, Location.start, FilePath.isAbsolute_parent] at hwalk
  change made.walk (Location.start path) (FilePath.components path) = _ at hwalk
  rw [r.components_eq] at hwalk
  refine hdir (standing_of_walk hwalk _ ?_)
  rw [← follow_of_walk r.walk_eq]
  exact mem_stops_concat r.ne_dot r.ne_dotDot

theorem rotation_of_create (h : create clock path schedule fs = (.ok log, fs')) :
    ∃ clock size modified, log.rotation = startRotation clock size modified schedule := by
  obtain ⟨w, -, -, rfl⟩ := create_eq_ok_iff.mp h
  exact ⟨_, _, _, rfl⟩

structure OpenAtSite (fs : FileSystem) (path : Text) (dir : Location) (name : Text)
    (log : LogFile) : Prop where
  site : Site fs path dir name
  distinct : fs.Distinct
  path_eq : log.path = path
  opens : ∀ n, log.HasOpen n → fs.node? (dir ++ [name]) = some (.file n)

theorem openAtSite_of_create (hs : fs.Sound) (hd : fs.Distinct) (hpath : 0 ∉ path)
    (h : create clock path schedule fs = (.ok log, fs')) :
    ∃ dir name, OpenAtSite fs' path dir name log := by
  obtain ⟨made, dir, name, target, hmade, -, -, hsite, -, hopen, rfl⟩ := create_ok hs hpath h
  have hdistinct : made.Distinct := by
    have hparent := hd.makeParent path
    rwa [hmade] at hparent
  have hgoal : goal path = dir ++ [name] := (goal_of_resolve hsite.names (by simp)).1.symm
  obtain ⟨-, hstands⟩ := Confined.openFile (Q := fun _ => True) (A := fun _ => True) hsite.sound
    hdistinct trivial hopen
  rw [hgoal] at hstands
  refine ⟨dir, name, hsite.follows (.openFile hsite.sound hopen), hdistinct.openFile hopen, rfl, ?_⟩
  rintro n ⟨s, hs, htarget⟩
  cases hs
  exact hstands n htarget

theorem sparesWay_startRotation (hway : schedule.SparesWayTo path) (clock : Clock) (size : Nat)
    (modified : Option Int) : SparesWay (startRotation clock size modified schedule) path := by
  rintro backups source period h
  cases schedule with
  | never => cases h
  | bySize limit backups => cases h
  | daily backups source =>
    cases h
    exact hway

def dormant (path : Text) (rotation : Rotation) : LogFile := ⟨path, none, 0, rotation⟩

theorem not_hasOpen_dormant {rotation : Rotation} {n : Nat} :
    ¬(dormant path rotation).HasOpen n := by
  rintro ⟨s, hs, -⟩
  cases hs

end LogFile

namespace LogFile

variable {ι : Type} {dir : Location} {path name : ι → Text} {start : ι → Rotation}
  {s s' : Cabinet ι} {i : ι} {clock : Clock} {schedule : Schedule} {files : FileSystem}
    {log : LogFile}

theorem EachAtSite.changesWithin_create (h : EachAtSite dir path name start s)
    (hn : Neighbours dir path name start)
    (hcreate : create clock (path i) schedule s.files = (.ok log, files))
    (hbecomes : Becomes (start i) log.rotation) :
    ChangesWithin (Territory dir (name i)) (Own dir name i s) (path i) (start i) s.files
      ⟨log, files, []⟩ := by
  have hfresh : ChangesWithin (Territory dir (name i)) (Own dir name i s) (path i) .never s.files
      ⟨dormant (path i) .never, s.files, []⟩ :=
    ⟨rfl, .refl _, .refl (h.sound i) h.distinct, fun st n hst => nomatch hst⟩
  have hchanges := hfresh.openStream (usesWithin_territory (h.site i) isDated_never) (h.covers hn i)
    (h.standing i) (Instant.floorSeconds clock.wall) false
  obtain ⟨w, hopen, rfl, rfl⟩ := create_eq_ok_iff.mp hcreate
  rw [dormant, hopen] at hchanges
  exact ⟨hchanges.path_eq, hbecomes, hchanges.confined, hchanges.stream⟩

variable [DecidableEq ι]

theorem OpenAtSite.eachAtSite (h : OpenAtSite files (path i) dir (name i) log)
    (hbecomes : Becomes (start i) log.rotation) (hsite : ∀ j, Site files (path j) dir (name j)) :
    EachAtSite dir path name start
      ⟨Function.update (fun j => dormant (path j) (start j)) i log, files⟩ := by
  have hopen : ∀ j n, (Function.update (fun j => dormant (path j) (start j)) i log j).HasOpen n →
      j = i ∧ log.HasOpen n := by
    intro j n hopen
    by_cases hj : j = i
    · rw [hj, Function.update_self] at hopen
      exact ⟨hj, hopen⟩
    · rw [Function.update_of_ne hj] at hopen
      exact absurd hopen not_hasOpen_dormant
  refine ⟨h.distinct, hsite, fun j => ?_, fun j => ?_, fun j n hj => ?_, fun j k n hj hk => ?_⟩
  · by_cases hj : j = i
    · dsimp only
      rw [hj, Function.update_self]
      exact h.path_eq
    · dsimp only
      rw [Function.update_of_ne hj, dormant]
  · by_cases hj : j = i
    · dsimp only
      rw [hj, Function.update_self]
      exact hbecomes
    · dsimp only
      rw [Function.update_of_ne hj]
      exact .refl _
  · obtain ⟨rfl, hn⟩ := hopen j n hj
    have hstands := h.opens n hn
    refine ⟨h.site.sound.inhabited hstands, fun loc hnode => ?_⟩
    rw [h.site.sound.injective hnode hstands]
    exact ⟨_, [], .current, rfl⟩
  · rw [(hopen j n hj).1, (hopen k n hk).1]

theorem EachAtSite.create (h : EachAtSite dir path name start s)
    (hn : Neighbours dir path name start)
    (hcreate : create clock (path i) schedule s.files = (.ok log, files))
    (hbecomes : Becomes (start i) log.rotation) :
    EachAtSite dir path name start (s.put i ⟨log, files, []⟩) := by
  obtain ⟨made, -, -, target, -, hmade, -, -, -, hfile, -⟩ :=
    create_ok (h.sound i) (h.site i).no_nul hcreate
  exact h.put hn (h.changesWithin_create hn hcreate hbecomes) fun j =>
    (h.site j).follows (hmade.trans (.openFile hmade.sound hfile))

theorem SeesSame.create (hb : SeesSame dir path name start i s s')
    (h : EachAtSite dir path name start s)
    (hcreate : create clock (path i) schedule s.files = (.ok log, files))
    (hbecomes : Becomes (start i) log.rotation) :
    ∃ log' files', create clock (path i) schedule s'.files = (.ok log', files') ∧
      SeesSame dir path name start i (s.put i ⟨log, files, []⟩) (s'.put i ⟨log', files', []⟩) := by
  obtain ⟨ρ, htwin, -, hfree⟩ := hb.twin
  have hwithin : UsesWithin (Territory dir (name i)) (Approach (path i) dir (name i))
      (path i) .never :=
    usesWithin_territory (h.site i) isDated_never
  have hfresh : SameWork (Territory dir (name i)) (Approach (path i) dir (name i))
      (fun n => ∃ j, j ≠ i ∧ (s.logs j).HasOpen n) (path i) .never
      ⟨dormant (path i) .never, s.files, []⟩ ⟨dormant (path i) .never, s'.files, []⟩ :=
    ⟨⟨rfl, rfl⟩, rfl, rfl, .refl _, rfl, ρ, htwin, .none, hfree⟩
  obtain ⟨hresult, hopened⟩ := hfresh.openStream hwithin (Instant.floorSeconds clock.wall) false
  obtain ⟨w, hopen, rfl, rfl⟩ := create_eq_ok_iff.mp hcreate
  rw [dormant, hopen] at hresult hopened
  cases hopen' : Work.openStream (Instant.floorSeconds clock.wall) false
      ⟨⟨path i, none, 0, .never⟩, s'.files, []⟩ with
  | mk result w' =>
    rw [hopen'] at hresult hopened
    obtain rfl : .ok () = result := hresult
    obtain ⟨ρ', htwin', -, -⟩ := hopened.twin
    have hmodified : w.files.modified? (path i) = w'.files.modified? (path i) := by
      rw [modified?, modified?, htwin'.fileAt?_eq (hwithin.stops (.own _))]
    refine ⟨_, _, create_eq_ok_iff.mpr ⟨w', hopen', rfl, rfl⟩, .put ?_⟩
    exact { hopened with
      rotation_eq := by rw [hopened.size_eq, hmodified]
      becomes := hbecomes
      problems_eq := rfl }

end LogFile

end StructuredLog
