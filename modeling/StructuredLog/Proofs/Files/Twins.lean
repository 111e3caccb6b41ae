import StructuredLog.Proofs.Files.Confinement
import StructuredLog.Proofs.Text.Order

/-!
# File systems that are the same at some places

Two file systems can differ elsewhere, and number their files differently. An operation that looks
at no other places has the same result in both, and leaves them the same there.
-/

namespace StructuredLog

inductive SameResult {ε α β : Type} (R : α → β → Prop) : Except ε α → Except ε β → Prop
  | ok {a : α} {b : β} (h : R a b) : SameResult R (.ok a) (.ok b)
  | error (e : ε) : SameResult R (.error e) (.error e)

theorem SameResult.refl {ε α : Type} {R : α → α → Prop} {result : Except ε α}
    (h : ∀ a, result = .ok a → R a a) : SameResult R result result := by
  cases result with
  | ok a => exact .ok (h a rfl)
  | error e => exact .error e

namespace FileSystem

open Location

inductive SameNode (ρ : Nat → Nat → Prop) : Node → Node → Prop
  | directory : SameNode ρ .directory .directory
  | special (kind : SpecialFile) : SameNode ρ (.special kind) (.special kind)
  | file {n n' : Nat} (h : ρ n n') : SameNode ρ (.file n) (.file n')

inductive SameTarget (ρ : Nat → Nat → Prop) : WriteTarget → WriteTarget → Prop
  | special (kind : SpecialFile) : SameTarget ρ (.special kind) (.special kind)
  | file {n n' : Nat} (h : ρ n n') : SameTarget ρ (.file n) (.file n')

/-- Two file systems that are the same at the places `P`, and have directories at the places `D`.
The files that they have in common are matched by `ρ`, and stand nowhere else. The disk behind them
is the same. -/
structure Twin (P D : Location → Prop) (ρ : Nat → Nat → Prop) (fs fs' : FileSystem) : Prop where
  sound : fs.Sound
  sound' : fs'.Sound
  distinct : fs.Distinct
  distinct' : fs'.Distinct
  apart : ∀ {loc}, P loc → ¬D loc
  node : ∀ {loc}, P loc → Option.Rel (SameNode ρ) (fs.node? loc) (fs'.node? loc)
  standing : ∀ {loc}, D loc → fs.node? loc = some .directory
  standing' : ∀ {loc}, D loc → fs'.node? loc = some .directory
  file : ∀ {n n'}, ρ n n' → ∃ file, fs.files[n]? = some file ∧ fs'.files[n']? = some file
  oneToOne : ∀ {n n' m m'}, ρ n n' → ρ m m' → (n = m ↔ n' = m')
  within : ∀ {n n' loc}, ρ n n' → fs.node? loc = some (.file n) → P loc
  within' : ∀ {n n' loc}, ρ n n' → fs'.node? loc = some (.file n') → P loc
  disk : fs.disk = fs'.disk

structure Extends (ρ ρ' : Nat → Nat → Prop) (fs : FileSystem) : Prop where
  kept : ∀ {n n'}, ρ n n' → ρ' n n'
  fresh : ∀ {n n'}, ρ' n n' → ρ n n' ∨ fs.files.length ≤ n

variable {P D : Location → Prop} {A A' : Nat → Prop} {ρ ρ' : Nat → Nat → Prop}
  {fs fs' files files' : FileSystem} {path : Text}

theorem SameNode.mono (h : ∀ {n n'}, ρ n n' → ρ' n n') {node node' : Node}
    (hnode : SameNode ρ node node') : SameNode ρ' node node' := by
  cases hnode with
  | directory => exact .directory
  | special kind => exact .special kind
  | file hn => exact .file (h hn)

theorem SameNode.rel_cases {node node' : Option Node} (h : Option.Rel (SameNode ρ) node node') :
    node = none ∧ node' = none ∨ ∃ a a', node = some a ∧ node' = some a' ∧ SameNode ρ a a' := by
  cases h with
  | none => exact .inl ⟨rfl, rfl⟩
  | some h => exact .inr ⟨_, _, rfl, rfl, h⟩

theorem SameNode.rel_update {nodes nodes' : Location → Option Node} {loc other : Location}
    {node node' : Option Node} (hother : Option.Rel (SameNode ρ) (nodes other) (nodes' other))
    (hnode : Option.Rel (SameNode ρ) node node') :
    Option.Rel (SameNode ρ) (Function.update nodes loc node other)
      (Function.update nodes' loc node' other) := by
  by_cases heq : other = loc
  · rwa [heq, Function.update_self, Function.update_self]
  · rwa [Function.update_of_ne heq, Function.update_of_ne heq]

theorem Extends.refl (ρ : Nat → Nat → Prop) (fs : FileSystem) : Extends ρ ρ fs :=
  ⟨id, .inl⟩

namespace Twin

/-- A file system is its own twin: the files are those at the places `P`, and some that stand
nowhere else. -/
theorem self (hs : fs.Sound) (hd : fs.Distinct) (hapart : ∀ {loc}, P loc → ¬D loc)
    (hstanding : ∀ {loc}, D loc → fs.node? loc = some .directory) {more : Nat → Prop}
    (hmore : ∀ {n}, more n →
      n < fs.files.length ∧ ∀ loc, fs.node? loc = some (.file n) → P loc) :
    Twin P D (fun n n' => n = n' ∧ (more n ∨ ∃ loc, P loc ∧ fs.node? loc = some (.file n))) fs
      fs := by
  have hstands : ∀ {n loc}, (more n ∨ ∃ loc, P loc ∧ fs.node? loc = some (.file n)) →
      fs.node? loc = some (.file n) → P loc := by
    rintro n loc (hn | ⟨loc', hloc', hnode'⟩) hnode
    · exact (hmore hn).2 loc hnode
    · exact hs.injective hnode hnode' ▸ hloc'
  refine ⟨hs, hs, hd, hd, hapart, fun {loc} hloc => ?_, hstanding, hstanding, ?_, ?_, ?_, ?_, rfl⟩
  · cases hnode : fs.node? loc with
    | none => exact .none
    | some node =>
      cases node with
      | directory => exact .some .directory
      | special kind => exact .some (.special kind)
      | file n => exact .some (.file ⟨rfl, .inr ⟨loc, hloc, hnode⟩⟩)
  · rintro n _ ⟨rfl, hn⟩
    have hlt : n < fs.files.length := by
      rcases hn with hn | ⟨loc, -, hnode⟩
      · exact (hmore hn).1
      · exact hs.inhabited hnode
    exact ⟨_, List.getElem?_eq_getElem hlt, List.getElem?_eq_getElem hlt⟩
  · rintro n _ m _ ⟨rfl, -⟩ ⟨rfl, -⟩
    rfl
  · rintro n _ loc ⟨rfl, hn⟩ hnode
    exact hstands hn hnode
  · rintro n _ loc ⟨rfl, hn⟩ hnode
    exact hstands hn hnode

theorem looks (h : Twin P D ρ fs fs') {loc : Location} (hloc : P loc ∨ D loc) :
    Option.Rel (SameNode ρ) (fs.node? loc) (fs'.node? loc) := by
  rcases hloc with hloc | hloc
  · exact h.node hloc
  · rw [h.standing hloc, h.standing' hloc]
    exact .some .directory

/-- What keeps to the places `P` in both and leaves them the same there keeps the twins. -/
theorem step (h : Twin P D ρ fs fs') (hc : Confined P A fs files) (hc' : Confined P A' fs' files')
    (hnode : ∀ {loc}, P loc → Option.Rel (SameNode ρ) (files.node? loc) (files'.node? loc))
    (hfile : ∀ {n n'}, ρ n n' → ∃ file, files.files[n]? = some file ∧
      files'.files[n']? = some file) :
    Twin P D ρ files files' where
  sound := hc.sound
  sound' := hc'.sound
  distinct := hc.distinct
  distinct' := hc'.distinct
  apart := h.apart
  node := hnode
  standing hloc := (hc.node fun hP => h.apart hP hloc).trans (h.standing hloc)
  standing' hloc := (hc'.node fun hP => h.apart hP hloc).trans (h.standing' hloc)
  file := hfile
  oneToOne := h.oneToOne
  within := by
    intro n n' loc hn hloc
    by_contra hP
    rw [hc.node hP] at hloc
    exact hP (h.within hn hloc)
  within' := by
    intro n n' loc hn hloc
    by_contra hP
    rw [hc'.node hP] at hloc
    exact hP (h.within' hn hloc)
  disk := hc.disk.trans (h.disk.trans hc'.disk.symm)

theorem lt_length (h : Twin P D ρ fs fs') {n n' : Nat} (hn : ρ n n') :
    n < fs.files.length ∧ n' < fs'.files.length := by
  obtain ⟨file, hfile, hfile'⟩ := h.file hn
  exact ⟨(List.getElem?_eq_some_iff.mp hfile).1, (List.getElem?_eq_some_iff.mp hfile').1⟩

/-- What keeps to other places and other files leaves the twins the same, as long as the directories
stand after it. -/
theorem elsewhere_of_standing (h : Twin P D ρ fs fs') {Q : Location → Prop}
    (hc : Confined Q A fs files) (hc' : Confined Q A' fs' files') (hQ : ∀ {loc}, Q loc → ¬P loc)
    (hstanding : ∀ {loc}, D loc → files.node? loc = some .directory)
    (hstanding' : ∀ {loc}, D loc → files'.node? loc = some .directory)
    (hA : ∀ {n n'}, ρ n n' → ¬A n ∧ ¬A' n') : Twin P D ρ files files' where
  sound := hc.sound
  sound' := hc'.sound
  distinct := hc.distinct
  distinct' := hc'.distinct
  apart := h.apart
  node hloc := by
    rw [hc.node fun hQloc => hQ hQloc hloc, hc'.node fun hQloc => hQ hQloc hloc]
    exact h.node hloc
  standing := hstanding
  standing' := hstanding'
  file := by
    intro n n' hn
    obtain ⟨hlt, hlt'⟩ := h.lt_length hn
    obtain ⟨file, hfile, hfile'⟩ := h.file hn
    refine ⟨file, ?_, ?_⟩
    · rw [hc.file hlt (hA hn).1 fun loc hloc hnode => hQ hloc (h.within hn hnode), hfile]
    · rw [hc'.file hlt' (hA hn).2 fun loc hloc hnode => hQ hloc (h.within' hn hnode), hfile']
  oneToOne := h.oneToOne
  within := by
    intro n n' loc hn hnode
    by_cases hloc : Q loc
    · obtain ⟨loc', hloc', hbefore⟩ := hc.moved hloc hnode (h.lt_length hn).1
      exact absurd (h.within hn hbefore) (hQ hloc')
    · exact h.within hn ((hc.node hloc).symm.trans hnode)
  within' := by
    intro n n' loc hn hnode
    by_cases hloc : Q loc
    · obtain ⟨loc', hloc', hbefore⟩ := hc'.moved hloc hnode (h.lt_length hn).2
      exact absurd (h.within' hn hbefore) (hQ hloc')
    · exact h.within' hn ((hc'.node hloc).symm.trans hnode)
  disk := hc.disk.trans (h.disk.trans hc'.disk.symm)

theorem elsewhere (h : Twin P D ρ fs fs') {Q : Location → Prop} (hc : Confined Q A fs files)
    (hc' : Confined Q A' fs' files') (hQ : ∀ {loc}, Q loc → ¬P loc ∧ ¬D loc)
    (hA : ∀ {n n'}, ρ n n' → ¬A n ∧ ¬A' n') : Twin P D ρ files files' :=
  h.elsewhere_of_standing hc hc' (fun hloc => (hQ hloc).1)
    (fun hloc => (hc.node fun hQloc => (hQ hQloc).2 hloc).trans (h.standing hloc))
    (fun hloc => (hc'.node fun hQloc => (hQ hQloc).2 hloc).trans (h.standing' hloc)) hA

theorem walk_eq (h : Twin P D ρ fs fs') {here : Location} {names : List Text}
    (hstops : ∀ loc ∈ stops here names, P loc ∨ D loc) :
    fs.walk here names = fs'.walk here names := by
  induction names generalizing here with
  | nil => rfl
  | cons name names ih =>
    rw [stops] at hstops
    rw [walk, walk]
    by_cases hdot : name = FilePath.dot
    · rw [if_pos hdot] at hstops ⊢
      rw [if_pos hdot, ih hstops]
    by_cases hdots : name = FilePath.dotDot
    · rw [if_neg hdot, if_pos hdots] at hstops ⊢
      rw [if_neg hdot, if_pos hdots, ih hstops]
    rw [if_neg hdot, if_neg hdots] at hstops ⊢
    rw [if_neg hdot, if_neg hdots, child?, child?]
    by_cases hlong : FilePath.maxName < name.length
    · rw [if_pos hlong, if_pos hlong]
    rw [if_neg hlong, if_neg hlong]
    have hnode := h.looks (hstops _ List.mem_cons_self)
    generalize fs.node? (here ++ [name]) = node at hnode
    generalize fs'.node? (here ++ [name]) = node' at hnode
    cases hnode with
    | none => rfl
    | some hnode =>
      cases hnode with
      | directory => exact ih fun loc hloc => hstops loc (List.mem_cons_of_mem _ hloc)
      | special kind => rfl
      | file hn => rfl

theorem resolve_eq (h : Twin P D ρ fs fs') (hstops : ∀ loc ∈ stopsOf path, P loc ∨ D loc) :
    fs.resolve path = fs'.resolve path := by
  have hwalk := h.walk_eq fun loc hloc => hstops loc (stops_dropLast_subset path hloc)
  simp only [resolve, hwalk]

theorem node_of_resolve (h : Twin P D ρ fs fs') (hstops : ∀ loc ∈ stopsOf path, P loc ∨ D loc)
    {place : Place} (hresolve : fs.resolve path = .ok place) :
    Option.Rel (SameNode ρ) (fs.node? place.location) (fs'.node? place.location) := by
  by_cases hend : place.pathEnd = .dots
  · rw [directory_of_dots h.sound hresolve hend,
      directory_of_dots h.sound' ((h.resolve_eq hstops).symm.trans hresolve) hend]
    exact .some .directory
  · obtain ⟨hloc, hmem⟩ := goal_of_resolve hresolve hend
    exact h.looks (hstops _ (hloc ▸ hmem))

theorem stat_same (h : Twin P D ρ fs fs') (hstops : ∀ loc ∈ stopsOf path, P loc ∨ D loc) :
    SameResult (SameNode ρ) (fs.stat path) (fs'.stat path) := by
  rw [stat, stat, ← h.resolve_eq hstops]
  cases hresolve : fs.resolve path with
  | error e => exact .error e
  | ok place =>
    have hnode := h.node_of_resolve hstops hresolve
    dsimp only
    generalize fs.node? place.location = node at hnode
    generalize fs'.node? place.location = node' at hnode
    cases hnode with
    | none => exact .error _
    | some hnode =>
      cases hnode with
      | directory => exact .ok .directory
      | special kind =>
        dsimp only
        split_ifs
        · exact .ok (.special kind)
        · exact .error _
      | file hn =>
        dsimp only
        split_ifs
        · exact .ok (.file hn)
        · exact .error _

theorem exists?_eq (h : Twin P D ρ fs fs') (hstops : ∀ loc ∈ stopsOf path, P loc ∨ D loc) :
    fs.exists? path = fs'.exists? path := by
  have hstat := h.stat_same hstops
  rw [exists?, exists?]
  generalize fs.stat path = result at hstat
  generalize fs'.stat path = result' at hstat
  cases hstat <;> rfl

theorem fileAt?_eq (h : Twin P D ρ fs fs') (hstops : ∀ loc ∈ stopsOf path, P loc ∨ D loc) :
    fs.fileAt? path = fs'.fileAt? path := by
  have hstat := h.stat_same hstops
  rw [fileAt?, fileAt?]
  generalize fs.stat path = result at hstat
  generalize fs'.stat path = result' at hstat
  cases hstat with
  | error e => rfl
  | ok hnode =>
    cases hnode with
    | directory => rfl
    | special kind => rfl
    | file hn =>
      obtain ⟨file, hfile, hfile'⟩ := h.file hn
      exact hfile.trans hfile'.symm

theorem update (h : Twin P D ρ fs fs') (hc : Confined P A fs files) (hc' : Confined P A' fs' files')
    {loc : Location} {node : Option Node}
    (hleft : files.node? = Function.update fs.node? loc node)
    (hright : files'.node? = Function.update fs'.node? loc node)
    (hsame : Option.Rel (SameNode ρ) node node) (hfiles : files.files = fs.files)
    (hfiles' : files'.files = fs'.files) : Twin P D ρ files files' := by
  refine h.step hc hc' (fun {other} hother => ?_) ?_
  · rw [hleft, hright]
    exact SameNode.rel_update (h.node hother) hsame
  · rw [hfiles, hfiles']
    exact h.file

theorem withDirectory (h : Twin P D ρ fs fs') {here : Location} {name : Text}
    (hhere : fs.node? here = some .directory) (hhere' : fs'.node? here = some .directory)
    (hentry : IsEntry (here ++ [name])) (hself : P (here ++ [name]) ∨ D (here ++ [name]))
    (hleft : fs.node? (here ++ [name]) = none) (hright : fs'.node? (here ++ [name]) = none) :
    Twin P D ρ (fs.withDirectory (here ++ [name])) (fs'.withDirectory (here ++ [name])) := by
  have hP : P (here ++ [name]) := by
    refine hself.resolve_right fun hD => ?_
    rw [h.standing hD] at hleft
    cases hleft
  exact h.update
    (.withDirectory (A := fun _ => False) h.sound h.distinct hhere hentry hleft hP)
    (.withDirectory (A := fun _ => False) h.sound' h.distinct' hhere' hentry hright hP)
    (node?_withDirectory hentry fs) (node?_withDirectory hentry fs') (.some .directory) rfl rfl

theorem makeWay (h : Twin P D ρ fs fs') {making : Bool} {here : Location} {names : List Text}
    (hhere : fs.node? here = some .directory) (hhere' : fs'.node? here = some .directory)
    (hnames : ∀ name ∈ names, FilePath.slash ∉ name)
    (hstops : ∀ loc ∈ stops here names, P loc ∨ D loc) :
    (fs.makeWay making here names).1 = (fs'.makeWay making here names).1 ∧
      Twin P D ρ (fs.makeWay making here names).2 (fs'.makeWay making here names).2 := by
  induction names generalizing fs fs' making here with
  | nil => exact ⟨rfl, h⟩
  | cons name names ih =>
    have hrest : ∀ other ∈ names, FilePath.slash ∉ other :=
      fun other hother => hnames other (List.mem_cons_of_mem _ hother)
    rw [stops] at hstops
    rw [FileSystem.makeWay, FileSystem.makeWay]
    by_cases hdot : name = FilePath.dot
    · rw [if_pos hdot] at hstops
      rw [if_pos hdot, if_pos hdot]
      exact ih h hhere hhere' hrest hstops
    by_cases hdots : name = FilePath.dotDot
    · rw [if_neg hdot, if_pos hdots] at hstops
      rw [if_neg hdot, if_pos hdots, if_neg hdot, if_pos hdots]
      exact ih h (node?_above h.sound hhere) (node?_above h.sound' hhere') hrest hstops
    rw [if_neg hdot, if_neg hdots] at hstops
    rw [if_neg hdot, if_neg hdots, if_neg hdot, if_neg hdots, child?, child?]
    have hbehind : ∀ loc ∈ stops (here ++ [name]) names, P loc ∨ D loc :=
      fun loc hloc => hstops loc (List.mem_cons_of_mem _ hloc)
    have hself := hstops _ List.mem_cons_self
    by_cases hlong : FilePath.maxName < name.length
    · rw [if_pos hlong, if_pos hlong]
      exact ⟨rfl, h⟩
    rw [if_neg hlong, if_neg hlong]
    rcases SameNode.rel_cases (h.looks hself) with
      ⟨hleft, hright⟩ | ⟨node, node', hleft, hright, hnode⟩
    · rw [hleft, hright]
      dsimp only
      by_cases hfixed : isFixed here = true
      · rw [if_pos hfixed, if_pos hfixed]
        exact ⟨rfl, h⟩
      rw [if_neg hfixed, if_neg hfixed]
      have hentry : IsEntry (here ++ [name]) :=
        isEntry_of_slash_not_mem hdots (hnames name List.mem_cons_self)
      exact ih (h.withDirectory hhere hhere' hentry hself hleft hright)
        (node?_withDirectory_self hentry fs) (node?_withDirectory_self hentry fs') hrest hbehind
    · rw [hleft, hright]
      cases hnode with
      | directory => exact ih h hleft hright hrest hbehind
      | special kind => exact ⟨rfl, h⟩
      | file hn => exact ⟨rfl, h⟩

theorem makeDirectories (h : Twin P D ρ fs fs') (hstops : ∀ loc ∈ stopsOf path, P loc ∨ D loc) :
    (fs.makeDirectories path).1 = (fs'.makeDirectories path).1 ∧
      Twin P D ρ (fs.makeDirectories path).2 (fs'.makeDirectories path).2 := by
  rw [FileSystem.makeDirectories, FileSystem.makeDirectories]
  split_ifs
  · exact ⟨rfl, h⟩
  · exact h.makeWay (node?_start fs _) (node?_start fs' _)
      (fun name hname => FilePath.slash_not_mem_of_mem_components hname) hstops

theorem makeParent (h : Twin P D ρ fs fs')
    (hstops : ∀ loc ∈ stopsOf (FilePath.parent path), P loc ∨ D loc) :
    (fs.makeParent path).1 = (fs'.makeParent path).1 ∧
      Twin P D ρ (fs.makeParent path).2 (fs'.makeParent path).2 := by
  rw [FileSystem.makeParent, FileSystem.makeParent]
  split_ifs
  · exact ⟨rfl, h⟩
  · exact h.makeDirectories hstops

theorem modifyFile (h : Twin P D ρ fs fs') {n n' : Nat} (hn : ρ n n') (change : File → File) :
    Twin P D ρ (fs.modifyFile n change) (fs'.modifyFile n' change) where
  sound := (Follows.modifyFile h.sound n change).sound
  sound' := (Follows.modifyFile h.sound' n' change).sound
  distinct := h.distinct
  distinct' := h.distinct'
  apart := h.apart
  node := h.node
  standing := h.standing
  standing' := h.standing'
  file := by
    intro m m' hm
    obtain ⟨file, hfile, hfile'⟩ := h.file hm
    by_cases heq : m = n
    · have heq' : m' = n' := (h.oneToOne hm hn).mp heq
      subst heq heq'
      exact ⟨change file, getElem?_modifyFile_self hfile change,
        getElem?_modifyFile_self hfile' change⟩
    · have hne' : m' ≠ n' := fun heq' => heq ((h.oneToOne hm hn).mpr heq')
      rw [getElem?_modifyFile_of_ne heq, getElem?_modifyFile_of_ne hne']
      exact ⟨file, hfile, hfile'⟩
  oneToOne := h.oneToOne
  within := h.within
  within' := h.within'
  disk := h.disk

theorem create (h : Twin P D ρ fs fs') {loc : Location} (hentry : IsEntry loc) (file : File)
    (hc : Confined P A fs
      ⟨Assoc.set loc (.file fs.files.length) fs.entries, fs.files ++ [file], fs.disk⟩)
    (hc' : Confined P A' fs'
      ⟨Assoc.set loc (.file fs'.files.length) fs'.entries, fs'.files ++ [file], fs'.disk⟩) :
    ∃ ρ', Extends ρ ρ' fs ∧ ρ' fs.files.length fs'.files.length ∧
      Twin P D ρ' ⟨Assoc.set loc (.file fs.files.length) fs.entries, fs.files ++ [file], fs.disk⟩
        ⟨Assoc.set loc (.file fs'.files.length) fs'.entries, fs'.files ++ [file], fs'.disk⟩ := by
  -- The new copies have the next number in either file system.
  let ρ' : Nat → Nat → Prop := fun n n' => ρ n n' ∨ n = fs.files.length ∧ n' = fs'.files.length
  have hkept : ∀ {n n'}, ρ n n' → ρ' n n' := .inl
  refine ⟨ρ', ⟨hkept, ?_⟩, .inr ⟨rfl, rfl⟩, ?_⟩
  · rintro n n' (hn | ⟨rfl, -⟩)
    · exact .inl hn
    · exact .inr le_rfl
  refine ⟨hc.sound, hc'.sound, hc.distinct, hc'.distinct, h.apart, ?_, ?_, ?_, ?_, ?_, ?_, ?_,
    h.disk⟩
  · intro other hother
    rw [node?_set hentry, node?_set hentry]
    have hbefore : Option.Rel (SameNode ρ') (fs.node? other) (fs'.node? other) := by
      rcases SameNode.rel_cases (h.node hother) with
        ⟨hleft, hright⟩ | ⟨node, node', hleft, hright, hnode⟩
      · rw [hleft, hright]
        exact .none
      · rw [hleft, hright]
        exact .some (hnode.mono hkept)
    exact SameNode.rel_update hbefore (.some (.file (.inr ⟨rfl, rfl⟩)))
  · intro other hother
    exact (hc.node fun hP => h.apart hP hother).trans (h.standing hother)
  · intro other hother
    exact (hc'.node fun hP => h.apart hP hother).trans (h.standing' hother)
  · rintro n n' (hn | ⟨rfl, rfl⟩)
    · obtain ⟨hlt, hlt'⟩ := h.lt_length hn
      obtain ⟨found, hfile, hfile'⟩ := h.file hn
      exact ⟨found, (List.getElem?_append_left hlt).trans hfile,
        (List.getElem?_append_left hlt').trans hfile'⟩
    · exact ⟨file, List.getElem?_concat_length, List.getElem?_concat_length⟩
  · rintro n n' m m' (hn | ⟨rfl, rfl⟩) (hm | ⟨rfl, rfl⟩)
    · exact h.oneToOne hn hm
    · have hlt := h.lt_length hn
      exact ⟨fun heq => absurd heq hlt.1.ne, fun heq => absurd heq hlt.2.ne⟩
    · have hlt := h.lt_length hm
      exact ⟨fun heq => absurd heq hlt.1.ne', fun heq => absurd heq hlt.2.ne'⟩
    · exact ⟨fun _ => rfl, fun _ => rfl⟩
  · intro n n' other hn hother
    by_contra hP
    have hbefore := (hc.node hP).symm.trans hother
    rcases hn with hn | ⟨rfl, -⟩
    · exact hP (h.within hn hbefore)
    · exact absurd (h.sound.inhabited hbefore) (lt_irrefl _)
  · intro n n' other hn hother
    by_contra hP
    have hbefore := (hc'.node hP).symm.trans hother
    rcases hn with hn | ⟨-, rfl⟩
    · exact hP (h.within' hn hbefore)
    · exact absurd (h.sound'.inhabited hbefore) (lt_irrefl _)

theorem openFile (h : Twin P D ρ fs fs') (hstops : ∀ loc ∈ stopsOf path, P loc ∨ D loc)
    (hgoal : P (goal path)) (truncate : Bool) (now : Int) :
    SameResult (fun opened opened' => ∃ ρ', Extends ρ ρ' fs ∧ SameTarget ρ' opened.1 opened'.1 ∧
        Twin P D ρ' opened.2 opened'.2)
      (fs.openFile path truncate now) (fs'.openFile path truncate now) := by
  have hresolve' := h.resolve_eq hstops
  rw [FileSystem.openFile, FileSystem.openFile, ← hresolve']
  cases hresolve : fs.resolve path with
  | error e => exact .error e
  | ok place =>
    dsimp only
    by_cases hend : place.pathEnd = .name
    swap
    · rw [if_pos hend, if_pos hend]
      exact .error _
    rw [if_neg (not_not.mpr hend), if_neg (not_not.mpr hend)]
    obtain ⟨hloc, hmem⟩ := goal_of_resolve hresolve (by simp [hend])
    rw [← hloc] at hmem
    rcases SameNode.rel_cases (h.looks (hstops _ hmem)) with
      ⟨hleft, hright⟩ | ⟨node, node', hleft, hright, hnode⟩
    · by_cases hfixed : isFixed place.location = true
      · simp only [hleft, hright, if_pos hfixed]
        exact .error _
      have hopen : fs.openFile path truncate now = .ok (.file fs.files.length,
          ⟨Assoc.set place.location (.file fs.files.length) fs.entries, fs.files ++ [⟨#[], now⟩],
            fs.disk⟩) := by
        simp [FileSystem.openFile, hresolve, hend, hleft, hfixed]
      have hopen' : fs'.openFile path truncate now = .ok (.file fs'.files.length,
          ⟨Assoc.set place.location (.file fs'.files.length) fs'.entries,
            fs'.files ++ [⟨#[], now⟩], fs'.disk⟩) := by
        simp [FileSystem.openFile, ← hresolve', hresolve, hend, hright, hfixed]
      simp only [hleft, hright, if_neg hfixed]
      obtain ⟨ρ', hextends, hnew, htwin⟩ := h.create
        (isEntry_of_resolve hresolve (by simp [hend])) ⟨#[], now⟩
        (Confined.openFile (A := fun _ => False) h.sound h.distinct hgoal hopen).1
        (Confined.openFile (A := fun _ => False) h.sound' h.distinct' hgoal hopen').1
      exact .ok ⟨ρ', hextends, .file hnew, htwin⟩
    · rw [hleft, hright]
      cases hnode with
      | directory => exact .error _
      | special kind => exact .ok ⟨ρ, .refl ρ fs, .special kind, h⟩
      | file hn =>
        refine .ok ⟨ρ, .refl ρ fs, .file hn, ?_⟩
        dsimp only
        split_ifs
        · exact h.modifyFile hn _
        · exact h

theorem room_eq (h : Twin P D ρ fs fs') {target target' : WriteTarget}
    (htarget : SameTarget ρ target target') (data : Text) :
    fs.room target data = fs'.room target' data := by
  cases htarget with
  | special kind => cases kind <;> rfl
  | file hn =>
    obtain ⟨file, hfile, hfile'⟩ := h.file hn
    simp only [room, hfile, hfile', h.disk]

theorem write (h : Twin P D ρ fs fs') {target target' : WriteTarget}
    (htarget : SameTarget ρ target target') (position : Option Nat) (data : Text) (now : Int) :
    Twin P D ρ (fs.write target position data now) (fs'.write target' position data now) := by
  have hroom := h.room_eq htarget data
  cases htarget with
  | special kind => exact h
  | file hn =>
    rw [FileSystem.write, FileSystem.write, ← hroom]
    exact h.modifyFile hn _

theorem withDisk (h : Twin P D ρ fs fs') (disk : Disk) :
    Twin P D ρ { fs with disk := disk } { fs' with disk := disk } :=
  { h with
    sound := h.sound.withDisk disk
    sound' := h.sound'.withDisk disk
    disk := rfl }

theorem isEmptyDirectory_eq (h : Twin P D ρ fs fs') {loc : Location} (hentry : IsEntry loc)
    (hbelow : ∀ name, P (loc ++ [name])) : fs.isEmptyDirectory loc = fs'.isEmptyDirectory loc := by
  have hnames : ∀ name, name ∈ fs.namesIn loc ↔ name ∈ fs'.namesIn loc := by
    intro name
    rw [mem_namesIn_iff_node? (hentry.append [name]), mem_namesIn_iff_node? (hentry.append [name])]
    have hnode := h.node (hbelow name)
    generalize fs.node? (loc ++ [name]) = node at hnode
    generalize fs'.node? (loc ++ [name]) = node' at hnode
    cases hnode <;> simp
  rw [isEmptyDirectory, isEmptyDirectory, Bool.eq_iff_iff, List.isEmpty_iff, List.isEmpty_iff,
    List.eq_nil_iff_forall_not_mem, List.eq_nil_iff_forall_not_mem]
  simp only [hnames]

theorem erase (h : Twin P D ρ fs fs') {loc : Location} (hentry : IsEntry loc)
    (hc : Confined P A fs { fs with entries := Assoc.erase loc fs.entries })
    (hc' : Confined P A' fs' { fs' with entries := Assoc.erase loc fs'.entries }) :
    Twin P D ρ { fs with entries := Assoc.erase loc fs.entries }
      { fs' with entries := Assoc.erase loc fs'.entries } :=
  h.update hc hc' (node?_erase hentry fs) (node?_erase hentry fs') .none rfl rfl

theorem remove (h : Twin P D ρ fs fs') (hstops : ∀ loc ∈ stopsOf path, P loc ∨ D loc)
    (howns : OwnsBelow P path) :
    SameResult (Twin P D ρ) (fs.remove path) (fs'.remove path) := by
  have hc : ∀ {files}, fs.remove path = .ok files → Confined P (fun _ => False) fs files :=
    .remove h.sound h.distinct howns.goal
  have hc' : ∀ {files}, fs'.remove path = .ok files → Confined P (fun _ => False) fs' files :=
    .remove h.sound' h.distinct' howns.goal
  revert hc hc'
  rw [FileSystem.remove, FileSystem.remove, ← h.resolve_eq hstops]
  cases hresolve : fs.resolve path with
  | error e => cases e <;> first | exact fun _ _ => .ok h | exact fun _ _ => .error _
  | ok place =>
    dsimp only
    rcases SameNode.rel_cases (h.node_of_resolve hstops hresolve) with
      ⟨hleft, hright⟩ | ⟨node, node', hleft, hright, hnode⟩
    · rw [hleft, hright]
      exact fun _ _ => .ok h
    rw [hleft, hright]
    dsimp only
    by_cases hend : place.pathEnd = .dots
    · rw [if_pos hend, if_pos hend]
      exact fun _ _ => .error _
    have hentry := isEntry_of_resolve hresolve hend
    have hloc := (goal_of_resolve hresolve hend).1
    have hempty := h.isEmptyDirectory_eq hentry fun name => hloc ▸ howns [name]
    have hdir : node = .directory ↔ node' = .directory := by cases hnode <;> simp
    rw [if_neg hend, if_neg hend, hempty]
    by_cases hfixed : isFixed place.location = true
    · rw [if_pos hfixed, if_pos hfixed]
      exact fun _ _ => .error _
    rw [if_neg hfixed, if_neg hfixed]
    simp only [hdir]
    split_ifs
    · exact fun hc hc' => .ok (h.erase hentry (hc rfl) (hc' rfl))
    · exact fun _ _ => .error _
    · exact fun _ _ => .error _
    · exact fun hc hc' => .ok (h.erase hentry (hc rfl) (hc' rfl))

theorem mayReplace_eq (h : Twin P D ρ fs fs') {source target : Location} {moved moved' : Node}
    (hentry : IsEntry target) (htarget : ∀ below, P (target ++ below))
    (hmoved : SameNode ρ moved moved') :
    fs.mayReplace source target moved = fs'.mayReplace source target moved' := by
  have hempty := h.isEmptyDirectory_eq hentry fun name => htarget [name]
  have hself := htarget []
  rw [List.append_nil] at hself
  have hnode := h.node hself
  unfold mayReplace
  rw [hempty]
  split_ifs
  · rfl
  · rfl
  all_goals
    generalize fs.node? target = node at hnode
    generalize fs'.node? target = node' at hnode
    cases hnode with
    | none => cases hmoved <;> rfl
    | some hnode => cases hmoved <;> cases hnode <;> rfl

theorem move (h : Twin P D ρ fs fs') {source target : Location} (hcan : CanMove fs source target)
    (hcan' : CanMove fs' source target) (hsource : ∀ below, P (source ++ below))
    (hc : Confined P A fs (fs.move source target))
    (hc' : Confined P A' fs' (fs'.move source target)) :
    Twin P D ρ (fs.move source target) (fs'.move source target) := by
  refine h.step hc hc' (fun {loc} hloc => ?_) h.file
  by_cases htarget : target <+: loc
  · obtain ⟨below, rfl⟩ := htarget
    rw [hcan.node?_target, hcan'.node?_target]
    exact h.node (hsource below)
  · by_cases hbelow : source <+: loc
    · rw [hcan.node?_source hbelow htarget, hcan'.node?_source hbelow htarget]
      exact .none
    · rw [node?_move_of_apart hbelow htarget, node?_move_of_apart hbelow htarget]
      exact h.node hloc

theorem moveNode (h : Twin P D ρ fs fs') {s t : Place} {moved moved' : Node}
    (hmoved : SameNode ρ moved moved') (hs : s.pathEnd ≠ .dots → IsEntry s.location)
    (ht : t.pathEnd ≠ .dots → IsEntry t.location)
    (hsource : s.pathEnd ≠ .dots → ∀ below, P (s.location ++ below))
    (htarget : t.pathEnd ≠ .dots → ∀ below, P (t.location ++ below))
    (hc : ∀ {files}, fs.moveNode moved s t = .ok files → Confined P A fs files)
    (hc' : ∀ {files}, fs'.moveNode moved' s t = .ok files → Confined P A' fs' files) :
    SameResult (Twin P D ρ) (fs.moveNode moved s t) (fs'.moveNode moved' s t) := by
  have hdir : moved ≠ .directory ↔ moved' ≠ .directory := by cases hmoved <;> simp
  revert hc hc'
  rw [FileSystem.moveNode, FileSystem.moveNode]
  by_cases hdots : s.pathEnd = .dots ∨ t.pathEnd = .dots
  · rw [if_pos hdots, if_pos hdots]
    exact fun _ _ => .error _
  rw [if_neg hdots, if_neg hdots]
  obtain ⟨hends, hendt⟩ := not_or.mp hdots
  by_cases hfixed : isFixed s.location = true ∨ isFixed t.location = true
  · rw [if_pos hfixed, if_pos hfixed]
    exact fun _ _ => .error _
  rw [if_neg hfixed, if_neg hfixed]
  by_cases hslash : (s.pathEnd = .slash ∨ t.pathEnd = .slash) ∧ moved ≠ .directory
  · rw [if_pos hslash, if_pos (hslash.imp_right hdir.mp)]
    exact fun _ _ => .error _
  rw [if_neg hslash, if_neg (mt (And.imp_right hdir.mpr) hslash)]
  by_cases hsame : s.location = t.location
  · rw [if_pos hsame, if_pos hsame]
    exact fun _ _ => .ok h
  have hmay' : fs.mayReplace s.location t.location moved =
      fs'.mayReplace s.location t.location moved' :=
    h.mayReplace_eq (ht hendt) (htarget hendt) hmoved
  rw [if_neg hsame, if_neg hsame, ← hmay']
  cases hmay : fs.mayReplace s.location t.location moved with
  | error e => exact fun _ _ => .error e
  | ok _ =>
    intro hc hc'
    exact .ok (h.move (canMove_of_mayReplace h.sound (hs hends) (ht hendt) hmay)
      (canMove_of_mayReplace h.sound' (hs hends) (ht hendt) (hmay'.symm.trans hmay))
      (hsource hends) (hc rfl) (hc' rfl))

theorem rename (h : Twin P D ρ fs fs') {target : Text}
    (hstops : ∀ loc ∈ stopsOf path, P loc ∨ D loc) (howns : OwnsBelow P path)
    (hstops' : ∀ loc ∈ stopsOf target, P loc ∨ D loc) (howns' : OwnsBelow P target) :
    SameResult (Twin P D ρ) (fs.rename path target) (fs'.rename path target) := by
  have hc : ∀ {files}, fs.rename path target = .ok files → Confined P (fun _ => False) fs files :=
    .rename h.sound h.distinct howns howns'
  have hc' : ∀ {files}, fs'.rename path target = .ok files →
      Confined P (fun _ => False) fs' files := .rename h.sound' h.distinct' howns howns'
  revert hc hc'
  rw [FileSystem.rename, FileSystem.rename, ← h.resolve_eq hstops, ← h.resolve_eq hstops']
  cases hs : fs.resolve path with
  | error e => exact fun _ _ => .error e
  | ok s =>
    have hnode := h.node_of_resolve hstops hs
    dsimp only
    by_cases hlong : FilePath.isTooLong target = true
    · rw [if_pos hlong, if_pos hlong]
      exact fun _ _ => .error _
    rw [if_neg hlong, if_neg hlong]
    generalize fs.node? s.location = node at hnode
    generalize fs'.node? s.location = node' at hnode
    cases hnode with
    | none => exact fun _ _ => .error _
    | some hmoved =>
      cases ht : fs.resolve target with
      | error e => exact fun _ _ => .error e
      | ok t =>
        exact h.moveNode hmoved (isEntry_of_resolve hs) (isEntry_of_resolve ht)
          (fun hend => (goal_of_resolve hs hend).1 ▸ howns)
          (fun hend => (goal_of_resolve ht hend).1 ▸ howns')

theorem list_perm (h : Twin P D ρ fs fs') (hstops : ∀ loc ∈ stopsOf path, P loc ∨ D loc)
    {wanted : Text → Bool} (hentry : ∀ name, wanted name = true → IsEntry (goal path ++ [name]))
    (hwanted : ∀ name, wanted name = true → P (goal path ++ [name])) :
    SameResult (fun names names' => (names.filter wanted).Perm (names'.filter wanted))
      (fs.list path) (fs'.list path) := by
  rw [list, list, ← h.walk_eq hstops]
  cases hwalk : fs.walk (start path) (FilePath.components path) with
  | error e => exact .error e
  | ok dir =>
    obtain rfl : goal path = dir := follow_of_walk hwalk
    refine .ok ((List.perm_ext_iff_of_nodup ((h.distinct.nodup_namesIn _).filter _)
      ((h.distinct'.nodup_namesIn _).filter _)).mpr fun name => ?_)
    rw [List.mem_filter, List.mem_filter, and_congr_left_iff]
    intro hname
    rw [mem_namesIn_iff_node? (hentry name hname), mem_namesIn_iff_node? (hentry name hname)]
    have hnode := h.node (hwanted name hname)
    generalize fs.node? (goal path ++ [name]) = node at hnode
    generalize fs'.node? (goal path ++ [name]) = node' at hnode
    cases hnode <;> simp

end Twin

end FileSystem

end StructuredLog
