import StructuredLog.Proofs.Files.Directories
import StructuredLog.Proofs.Files.Ways

/-!
# Changes that keep to some places

Each operation changes nodes at the places it is about, and contents of files that stand there or
that it has open. So what stands elsewhere, and the content of every other file, is as it was.
-/

namespace StructuredLog

namespace FileSystem

open Location

/-- A change that keeps to the places `Q`, and to the contents of files that stood there, of those
numbered `A`, and of new ones. The disk stays. -/
structure Confined (Q : Location → Prop) (A : Nat → Prop) (fs fs' : FileSystem) : Prop where
  sound : fs'.Sound
  distinct : fs'.Distinct
  node : ∀ {loc}, ¬Q loc → fs'.node? loc = fs.node? loc
  moved : ∀ {loc n}, Q loc → fs'.node? loc = some (.file n) → n < fs.files.length →
    ∃ loc', Q loc' ∧ fs.node? loc' = some (.file n)
  file : ∀ {n}, n < fs.files.length → ¬A n → (∀ loc, Q loc → fs.node? loc ≠ some (.file n)) →
    fs'.files[n]? = fs.files[n]?
  grows : fs.files.length ≤ fs'.files.length
  disk : fs'.disk = fs.disk

def OwnsBelow (Q : Location → Prop) (path : Text) : Prop := ∀ below, Q (goal path ++ below)

variable {Q : Location → Prop} {A : Nat → Prop} {fs fs' fs'' : FileSystem} {path : Text}

theorem OwnsBelow.goal (h : OwnsBelow Q path) : Q (goal path) := by
  have hself := h []
  rwa [List.append_nil] at hself

theorem Confined.refl (hs : fs.Sound) (hd : fs.Distinct) : Confined Q A fs fs :=
  ⟨hs, hd, fun _ => rfl, fun hloc hnode _ => ⟨_, hloc, hnode⟩, fun _ _ _ => rfl, le_rfl, rfl⟩

theorem Confined.trans (h : Confined Q A fs fs') (h' : Confined Q A fs' fs'') :
    Confined Q A fs fs'' where
  sound := h'.sound
  distinct := h'.distinct
  node hloc := (h'.node hloc).trans (h.node hloc)
  moved := by
    intro loc n hloc hnode hn
    obtain ⟨loc', hloc', hnode'⟩ := h'.moved hloc hnode (Nat.lt_of_lt_of_le hn h.grows)
    exact h.moved hloc' hnode' hn
  file := by
    intro n hn hA hplaces
    have hplaces' : ∀ loc, Q loc → fs'.node? loc ≠ some (.file n) := by
      intro loc hloc hnode
      obtain ⟨loc', hloc', hnode'⟩ := h.moved hloc hnode hn
      exact hplaces loc' hloc' hnode'
    exact (h'.file (Nat.lt_of_lt_of_le hn h.grows) hA hplaces').trans (h.file hn hA hplaces)
  grows := h.grows.trans h'.grows
  disk := h'.disk.trans h.disk

theorem Confined.of_update (hs' : fs'.Sound) (hd' : fs'.Distinct) {loc : Location}
    {node : Option Node} (hloc : Q loc) (hnode : fs'.node? = Function.update fs.node? loc node)
    (hnew : ∀ n, node = some (.file n) → fs.files.length ≤ n)
    (hfiles : ∀ n < fs.files.length, fs'.files[n]? = fs.files[n]?)
    (hgrows : fs.files.length ≤ fs'.files.length) (hdisk : fs'.disk = fs.disk) :
    Confined Q A fs fs' where
  sound := hs'
  distinct := hd'
  node := by
    intro other hother
    have hne : other ≠ loc := fun heq => hother (heq ▸ hloc)
    rw [hnode, Function.update_of_ne hne]
  moved := by
    intro other n hother hn hlt
    rw [hnode] at hn
    by_cases heq : other = loc
    · rw [heq, Function.update_self] at hn
      exact absurd hlt (Nat.not_lt.mpr (hnew n hn))
    · rw [Function.update_of_ne heq] at hn
      exact ⟨other, hother, hn⟩
  file hn _ _ := hfiles _ hn
  grows := hgrows
  disk := hdisk

theorem Confined.modifyFile (hs : fs.Sound) (hd : fs.Distinct) {n : Nat}
    (hn : A n ∨ ∃ loc, Q loc ∧ fs.node? loc = some (.file n)) (change : File → File) :
    Confined Q A fs (fs.modifyFile n change) where
  sound := (Follows.modifyFile hs n change).sound
  distinct := hd
  node _ := rfl
  moved hloc hnode _ := ⟨_, hloc, hnode⟩
  file := by
    intro m _ hA hplaces
    refine getElem?_modifyFile_of_ne ?_ change
    rintro rfl
    rcases hn with hn | ⟨loc, hloc, hnode⟩
    · exact hA hn
    · exact hplaces loc hloc hnode
  grows := (List.length_modify _ _ _).ge
  disk := rfl

theorem Confined.withDirectory (hs : fs.Sound) (hd : fs.Distinct) {here : Location} {name : Text}
    (hhere : fs.node? here = some .directory) (hentry : IsEntry (here ++ [name]))
    (hfree : fs.node? (here ++ [name]) = none) (hQ : Q (here ++ [name])) :
    Confined Q A fs (fs.withDirectory (here ++ [name])) :=
  .of_update (Follows.withDirectory hs _ _ hhere hentry hfree).sound (hd.set _ _) hQ
    (node?_withDirectory hentry fs) (fun n hn => by cases hn) (fun _ _ => rfl) le_rfl rfl

theorem Confined.makeWay (hs : fs.Sound) (hd : fs.Distinct) {making : Bool} {here : Location}
    {names : List Text} (hhere : fs.node? here = some .directory)
    (hnames : ∀ name ∈ names, FilePath.slash ∉ name)
    (hstops : ∀ loc ∈ stops here names, Q loc ∨ fs.node? loc = some .directory) :
    Confined Q A fs (fs.makeWay making here names).2 := by
  induction names generalizing fs making here with
  | nil => exact .refl hs hd
  | cons name names ih =>
    obtain ⟨hslash, hrest⟩ := List.forall_mem_cons.mp hnames
    rw [stops] at hstops
    by_cases hdot : name = FilePath.dot
    · rw [if_pos hdot] at hstops
      rw [FileSystem.makeWay, if_pos hdot]
      exact ih hs hd hhere hrest hstops
    by_cases hdots : name = FilePath.dotDot
    · rw [if_neg hdot, if_pos hdots] at hstops
      rw [FileSystem.makeWay, if_neg hdot, if_pos hdots]
      exact ih hs hd (node?_above hs hhere) hrest hstops
    rw [if_neg hdot, if_neg hdots] at hstops
    obtain ⟨hself, hbehind⟩ := List.forall_mem_cons.mp hstops
    cases wayStep fs making here names hdot hdots with
    | entered _ hdir hgoes =>
      rw [hgoes]
      exact ih hs hd hdir hrest hbehind
    | made _ hfree _ hgoes =>
      rw [hgoes]
      have hentry : IsEntry (here ++ [name]) := isEntry_of_slash_not_mem hdots hslash
      have hQ : Q (here ++ [name]) := hself.resolve_right (by simp [hfree])
      have hkeeps := (Follows.withDirectory hs here name hhere hentry hfree).keeps
      have hmiddle : Confined Q A fs (fs.withDirectory (here ++ [name])) :=
        .withDirectory hs hd hhere hentry hfree hQ
      exact hmiddle.trans (ih hmiddle.sound hmiddle.distinct (node?_withDirectory_self hentry fs)
        hrest fun loc hloc => (hbehind loc hloc).imp_right (hkeeps loc))
    | stopped _ _ hends =>
      rw [hends]
      exact .refl hs hd

theorem Confined.makeDirectories (hs : fs.Sound) (hd : fs.Distinct)
    (hstops : ∀ loc ∈ stopsOf path, Q loc ∨ fs.node? loc = some .directory) :
    Confined Q A fs (fs.makeDirectories path).2 := by
  rw [FileSystem.makeDirectories]
  split_ifs
  · exact .refl hs hd
  · exact .makeWay hs hd (node?_start fs _)
      (fun name hname => FilePath.slash_not_mem_of_mem_components hname) hstops

theorem Confined.makeParent (hs : fs.Sound) (hd : fs.Distinct)
    (hstops : ∀ loc ∈ stopsOf (FilePath.parent path), Q loc ∨ fs.node? loc = some .directory) :
    Confined Q A fs (fs.makeParent path).2 := by
  rw [FileSystem.makeParent]
  split_ifs
  · exact .refl hs hd
  · exact .makeDirectories hs hd hstops

theorem Confined.openFile (hs : fs.Sound) (hd : fs.Distinct) {truncate : Bool} {now : Int}
    {target : WriteTarget} (hgoal : Q (goal path))
    (hopen : fs.openFile path truncate now = .ok (target, fs')) :
    Confined Q A fs fs' ∧
      ∀ n, target = .file n → fs'.node? (goal path) = some (.file n) := by
  obtain ⟨dir, name, hnames, hopened⟩ := opened_of_openFile hopen
  have hloc : dir ++ [name] = goal path := (goal_of_resolve hnames (by simp)).1
  rw [hloc] at hopened
  cases hopened with
  | added _ hlength hfiles hnode =>
    have hfollows := Follows.openFile hs hopen
    refine ⟨.of_update hfollows.sound (hd.openFile hopen) hgoal hnode ?_ hfiles (by omega)
      (disk_openFile hopen), ?_⟩
    · intro n hn
      cases hn
      exact le_rfl
    · intro n hn
      cases hn
      rw [hnode, Function.update_self]
  | @found m hstands hchange =>
    refine ⟨?_, fun n hn => ?_⟩
    · rcases hchange with rfl | ⟨change, rfl⟩
      · exact .refl hs hd
      · exact .modifyFile hs hd (.inr ⟨_, hgoal, hstands⟩) change
    · cases hn
      rcases hchange with rfl | ⟨change, rfl⟩
      · exact hstands
      · exact hstands
  | special hsame =>
    subst hsame
    exact ⟨.refl hs hd, fun n hn => by cases hn⟩

theorem Confined.write (hs : fs.Sound) (hd : fs.Distinct) {target : WriteTarget}
    (htarget : ∀ n, target = .file n → A n ∨ ∃ loc, Q loc ∧ fs.node? loc = some (.file n))
    (position : Option Nat) (data : Text) (now : Int) :
    Confined Q A fs (fs.write target position data now) := by
  cases target with
  | file n => exact .modifyFile hs hd (htarget n rfl) _
  | special kind => exact .refl hs hd

theorem remove_ok (h : fs.remove path = .ok fs') :
    fs' = fs ∨ ∃ place, fs.resolve path = .ok place ∧ place.pathEnd ≠ .dots ∧
      isFixed place.location = false ∧
      fs' = { fs with entries := Assoc.erase place.location fs.entries } ∧
      (fs.node? place.location = some .directory →
        fs.isEmptyDirectory place.location = true) := by
  rw [remove] at h
  split at h
  · cases h
    exact .inl rfl
  · cases h
  next place hresolve =>
    split at h
    · cases h
      exact .inl rfl
    next node hnode =>
      split_ifs at h with hdots hfixed hdir hempty hslash
      · cases h
        exact .inr ⟨place, hresolve, hdots, by simpa using hfixed, rfl, fun _ => hempty⟩
      · cases h
        exact .inr ⟨place, hresolve, hdots, by simpa using hfixed, rfl,
          fun heq => absurd (Option.some.inj (hnode.symm.trans heq)) hdir⟩

theorem remove_vacates (hs : fs.Sound) (h : fs.remove path = .ok fs') :
    fs' = fs ∨ ∃ place, fs.resolve path = .ok place ∧ place.pathEnd ≠ .dots ∧
      isFixed place.location = false ∧ (∀ name, fs.node? (place.location ++ [name]) = none) ∧
      fs'.files = fs.files ∧ fs'.node? = Function.update fs.node? place.location none := by
  refine (remove_ok h).imp_right ?_
  rintro ⟨place, hresolve, hend, hfree, rfl, hempty⟩
  have hentry := isEntry_of_resolve hresolve hend
  refine ⟨place, hresolve, hend, hfree, fun name => ?_, rfl, node?_erase hentry fs⟩
  by_cases hdir : fs.node? place.location = some .directory
  · exact node?_of_isEmptyDirectory hentry (hempty hdir) name
  · exact hs.node?_below hdir (by simp)

theorem Sound.remove (hs : fs.Sound) (h : fs.remove path = .ok fs') : fs'.Sound := by
  rcases remove_vacates hs h with rfl | ⟨place, -, -, -, hempty, hfiles, hnode⟩
  · exact hs
  · exact hs.vacate hempty hnode hfiles

theorem disk_remove (h : fs.remove path = .ok fs') : fs'.disk = fs.disk := by
  rcases remove_ok h with rfl | ⟨place, -, -, -, rfl, -⟩ <;> rfl

theorem Confined.remove (hs : fs.Sound) (hd : fs.Distinct) (hgoal : Q (goal path))
    (hremove : fs.remove path = .ok fs') : Confined Q A fs fs' := by
  rcases remove_vacates hs hremove with rfl | ⟨place, hresolve, hend, -, -, hfiles, hnode⟩
  · exact .refl hs hd
  · exact .of_update (hs.remove hremove) (hd.remove hremove)
      ((goal_of_resolve hresolve hend).1 ▸ hgoal) hnode (fun n hn => by cases hn)
      (fun n _ => congrArg (·[n]?) hfiles) (congrArg List.length hfiles).ge (disk_remove hremove)

theorem Confined.rename (hs : fs.Sound) (hd : fs.Distinct) {target : Text}
    (hsource : OwnsBelow Q path) (htarget : OwnsBelow Q target)
    (hrename : fs.rename path target = .ok fs') : Confined Q A fs fs' := by
  obtain ⟨s, t, moved, hs', ht, hmoved, hmove⟩ := rename_ok hrename
  obtain ⟨hends, hendt, ⟨-, rfl⟩ | ⟨hmay, rfl⟩⟩ := moveNode_ok hmove
  · exact .refl hs hd
  have hcan := canMove_of_mayReplace hs (isEntry_of_resolve hs' hends) (isEntry_of_resolve ht hendt)
    hmay
  have hsloc := (goal_of_resolve hs' hends).1
  have htloc := (goal_of_resolve ht hendt).1
  refine ⟨(rename_sound hs hrename).1, hd.rename hs hrename, ?_, ?_, fun _ _ _ => rfl, le_rfl, rfl⟩
  · intro loc hloc
    refine node?_move_of_apart ?_ ?_
    · rintro ⟨below, rfl⟩
      exact hloc (hsloc ▸ hsource below)
    · rintro ⟨below, rfl⟩
      exact hloc (htloc ▸ htarget below)
  · intro loc n hloc hnode _
    rcases hcan.node?_cases hnode with ⟨below, -, hbefore⟩ | ⟨-, -, hbefore⟩
    · exact ⟨_, hsloc ▸ hsource below, hbefore⟩
    · exact ⟨loc, hloc, hbefore⟩

end FileSystem

end StructuredLog
