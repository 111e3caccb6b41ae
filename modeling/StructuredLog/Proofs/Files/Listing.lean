import Mathlib.Data.List.Nodup
import StructuredLog.Proofs.Files.Directories

/-!
# What a directory lists

The directory of a path lists the names of the entries that lie in it, each once. Among them are
those that lengthen the name of the file at the path by a dot and a suffix.
-/

namespace StructuredLog

theorem Text.splitAt_append_sep (sep : UInt8) (s t : Text) :
    splitAt sep (s ++ sep :: t) = splitAt sep s ++ splitAt sep t := by
  induction s with
  | nil => simp [splitAt]
  | cons b s ih =>
    rw [List.cons_append, splitAt, splitAt]
    by_cases hb : b = sep
    · rw [if_pos hb, if_pos hb, ih, List.cons_append]
    · rw [if_neg hb, if_neg hb, ih]
      cases hparts : splitAt sep s with
      | nil => exact absurd hparts (splitAt_ne_nil sep s)
      | cons part parts => rfl

namespace FilePath

theorem components_append_slash {s t : Text} (hs : 0 ∉ s) (ht : 0 ∉ t) :
    components (s ++ slash :: t) = components s ++ components t := by
  have hboth : (0 : UInt8) ∉ s ++ slash :: t := by
    simp only [List.mem_append, List.mem_cons, not_or]
    exact ⟨hs, by decide, ht⟩
  rw [components, components, components, Text.untilNul_of_not_mem hs, Text.untilNul_of_not_mem ht,
    Text.untilNul_of_not_mem hboth, Text.splitAt_append_sep, List.filter_append]

theorem components_of_slash_not_mem {name : Text} (hnul : 0 ∉ name) (hslash : slash ∉ name)
    (hne : name ≠ []) : components name = [name] := by
  rw [components, Text.untilNul_of_not_mem hnul, Text.splitAt_of_not_mem hslash]
  simp [hne]

theorem components_slashes_append {t : Text} (ht : 0 ∉ t) (k : Nat) :
    components (List.replicate k slash ++ t) = components t := by
  induction k with
  | zero => rfl
  | succ k ih =>
    have hnul : (0 : UInt8) ∉ List.replicate k slash ++ t := by
      rw [List.mem_append, not_or]
      exact ⟨fun h => absurd (List.eq_of_mem_replicate h) (by decide), ht⟩
    rw [List.replicate_succ, List.cons_append]
    exact (components_append_slash List.not_mem_nil hnul).trans ih

theorem isAbsolute_of_slash_not_mem {name : Text} (h : slash ∉ name) : isAbsolute name = false := by
  cases name with
  | nil => rfl
  | cons b name =>
    have hb : b ≠ slash := fun heq => h (by simp [heq])
    simpa [isAbsolute] using hb

theorem join_eq {dir name : Text} (hslash : slash ∉ name) (hdir : dir ≠ []) :
    join dir name = dir ++ if dir.getLast? = some slash then name else slash :: name := by
  rw [join, isAbsolute_of_slash_not_mem hslash]
  simp only [Bool.false_eq_true, hdir, or_self, if_false]
  split_ifs
  · rfl
  · rw [List.append_assoc, List.singleton_append]

theorem components_join {dir name : Text} (hnul : 0 ∉ dir) (hname : IsLabel name)
    (hdir : dir ≠ []) : components (join dir name) = components dir ++ [name] := by
  rw [join_eq hname.slash_not_mem hdir,
    ← components_of_slash_not_mem hname.nul_not_mem hname.slash_not_mem hname.ne_nil]
  split_ifs with hend
  · obtain ⟨front, rfl⟩ := List.getLast?_eq_some_iff.mp hend
    have hfront : (0 : UInt8) ∉ front := fun h => hnul (List.mem_append_left _ h)
    have hstripped : components (front ++ [slash]) = components front :=
      (components_append_slash hfront List.not_mem_nil).trans (List.append_nil _)
    rw [hstripped, List.append_assoc]
    exact components_append_slash hfront hname.nul_not_mem
  · exact components_append_slash hnul hname.nul_not_mem

theorem nul_not_mem_join {dir name : Text} (hnul : 0 ∉ dir) (hname : IsLabel name)
    (hdir : dir ≠ []) : 0 ∉ join dir name := by
  have hname' := hname.nul_not_mem
  rw [join_eq hname.slash_not_mem hdir]
  split_ifs
  · simp [hnul, hname']
  · simp [hnul, hname', slash]

theorem getLast?_join {dir name : Text} (hname : IsLabel name) (hdir : dir ≠ []) :
    (join dir name).getLast? = name.getLast? := by
  rw [join_eq hname.slash_not_mem hdir]
  split_ifs
  · exact List.getLast?_append_of_ne_nil _ hname.ne_nil
  · rw [← List.singleton_append, ← List.append_assoc]
    exact List.getLast?_append_of_ne_nil _ hname.ne_nil

theorem slash_not_mem_fileName (path : Text) : slash ∉ fileName path := by
  rw [fileName, List.mem_reverse]
  intro hmem
  simpa using List.mem_takeWhile_imp hmem

theorem fileName_cases (path : Text) :
    (path = fileName path ∧ parent path = []) ∨
      ∃ front k, path = front ++ (List.replicate (k + 1) slash ++ fileName path) ∧
        parent path = if front = [] then [slash] else front := by
  let before := path.reverse.dropWhile (· ≠ slash)
  have hpath : path = before.reverse ++ fileName path := by
    rw [fileName, ← List.reverse_append, List.takeWhile_append_dropWhile, List.reverse_reverse]
  have hparent : parent path = if (before.dropWhile (· = slash)).reverse = [] ∧ isAbsolute path
      then [slash] else (before.dropWhile (· = slash)).reverse := rfl
  cases hbefore : before with
  | nil =>
    rw [hbefore, List.reverse_nil, List.nil_append] at hpath
    refine .inl ⟨hpath, ?_⟩
    rw [hparent, hbefore, isAbsolute_of_slash_not_mem (hpath ▸ slash_not_mem_fileName path)]
    rfl
  | cons b rest =>
    have hb : b = slash := by
      have hhead := List.head?_dropWhile_not (fun c : UInt8 => decide (c ≠ slash)) path.reverse
      have hsome : (path.reverse.dropWhile fun c => decide (c ≠ slash)).head? = some b := by
        rw [show path.reverse.dropWhile _ = b :: rest from hbefore, List.head?_cons]
      rw [hsome] at hhead
      simpa using hhead
    obtain ⟨k, hslashes⟩ : ∃ k, rest.takeWhile (· = slash) = List.replicate k slash :=
      ⟨_, List.eq_replicate_iff.mpr ⟨rfl, fun c hc => by simpa using List.mem_takeWhile_imp hc⟩⟩
    have hdrop : before.dropWhile (· = slash) = rest.dropWhile (· = slash) := by
      rw [hbefore, List.dropWhile_cons_of_pos (by simp [hb])]
    have hrest : before.reverse =
        (rest.dropWhile (· = slash)).reverse ++ List.replicate (k + 1) slash := by
      conv_lhs => rw [hbefore, hb, ← List.takeWhile_append_dropWhile (p := (· = slash)) (l := rest)]
      rw [hslashes, List.reverse_cons, List.reverse_append, List.reverse_replicate,
        List.append_assoc, ← List.replicate_succ']
    rw [hrest, List.append_assoc] at hpath
    refine .inr ⟨_, k, hpath, ?_⟩
    rw [hparent, hdrop]
    by_cases hnil : (rest.dropWhile (· = slash)).reverse = []
    · have habsolute : isAbsolute path = true := by
        rw [hpath, hnil, List.nil_append, List.replicate_succ]
        rfl
      rw [if_pos ⟨hnil, habsolute⟩, if_pos hnil]
    · rw [if_neg (fun h => hnil h.1), if_neg hnil]

theorem fileName_ne_nil {path : Text} (hne : path ≠ []) (hend : path.getLast? ≠ some slash) :
    fileName path ≠ [] := by
  intro hnil
  rcases fileName_cases path with ⟨hname, -⟩ | ⟨front, k, hsplit, -⟩
  · exact hne (hname.trans hnil)
  · refine hend ?_
    rw [hsplit, hnil, List.append_nil, List.replicate_succ', ← List.append_assoc,
      List.getLast?_concat]

theorem nul_not_mem_parent {path : Text} (hpath : 0 ∉ path) : 0 ∉ parent path := by
  rcases fileName_cases path with ⟨-, hparent⟩ | ⟨front, k, hsplit, hparent⟩
  · rw [hparent]
    exact List.not_mem_nil
  · rw [hparent]
    split_ifs
    · decide
    · exact fun hmem => hpath (hsplit ▸ List.mem_append_left _ hmem)

theorem nul_not_mem_fileName {path : Text} (hpath : 0 ∉ path) : 0 ∉ fileName path := by
  intro hmem
  have hreverse := (List.takeWhile_sublist _).subset (List.mem_reverse.mp hmem)
  exact hpath (List.mem_reverse.mp hreverse)

theorem components_parent {path : Text} (hpath : 0 ∉ path) (hname : fileName path ≠ []) :
    components path = components (parent path) ++ [fileName path] := by
  have hlast := nul_not_mem_fileName hpath
  have hsingle := components_of_slash_not_mem hlast (slash_not_mem_fileName path) hname
  rcases fileName_cases path with ⟨hsame, hparent⟩ | ⟨front, k, hsplit, hparent⟩
  · rw [hparent]
    conv_lhs => rw [hsame, hsingle]
    rfl
  · have hfront : (0 : UInt8) ∉ front := fun hmem => hpath (hsplit ▸ List.mem_append_left _ hmem)
    have hrest : (0 : UInt8) ∉ List.replicate k slash ++ fileName path := by
      rw [List.mem_append, not_or]
      exact ⟨fun h => absurd (List.eq_of_mem_replicate h) (by decide), hlast⟩
    have hparts : components (parent path) = components front := by
      rw [hparent]
      split_ifs with hnil
      · rw [hnil]
        rfl
      · rfl
    conv_lhs => rw [hsplit]
    rw [List.replicate_succ, List.cons_append, components_append_slash hfront hrest,
      components_slashes_append hlast, hsingle, hparts]

theorem isAbsolute_parent (path : Text) : isAbsolute (parent path) = isAbsolute path := by
  rcases fileName_cases path with ⟨hsame, hparent⟩ | ⟨front, k, hsplit, hparent⟩
  · have hslash := slash_not_mem_fileName path
    rw [← hsame] at hslash
    rw [hparent, isAbsolute_of_slash_not_mem hslash]
    rfl
  · rw [hparent]
    split_ifs with hnil
    · rw [hsplit, hnil, List.nil_append, List.replicate_succ]
      rfl
    · conv_rhs => rw [hsplit]
      exact (isAbsolute_append hnil _).symm

theorem isTooLong_parent {path : Text} (hpath : 0 ∉ path) (h : isTooLong path = false) :
    isTooLong (parent path) = false := by
  rw [isTooLong, decide_eq_false_iff_not, Nat.not_le] at h ⊢
  rw [Text.untilNul_of_not_mem hpath] at h
  rw [Text.untilNul_of_not_mem (nul_not_mem_parent hpath)]
  rcases fileName_cases path with ⟨-, hparent⟩ | ⟨front, k, hsplit, hparent⟩
  · rw [hparent]
    decide
  · rw [hsplit, List.length_append] at h
    rw [hparent]
    split_ifs
    · decide
    · omega

def folder (path : Text) : Text := if parent path = [] then dot else parent path

theorem folder_ne_nil (path : Text) : folder path ≠ [] := by
  rw [folder]
  split_ifs with hnil
  · simp [dot]
  · exact hnil

end FilePath

namespace FileSystem

open Location FilePath

variable {fs : FileSystem} {path : Text} {front : List Text} {dir : Location} {name : Text}

theorem Route.components_parent (r : Route fs path front dir name) (hpath : 0 ∉ path) :
    components (parent path) = front ∧ fileName path = name := by
  have hend := r.no_slash
  rw [Text.untilNul_of_not_mem hpath] at hend
  have hparts := FilePath.components_parent hpath (fileName_ne_nil r.path_ne_nil hend)
  rw [r.components_eq] at hparts
  obtain ⟨hfront, hlast⟩ := List.append_inj' hparts rfl
  exact ⟨hfront.symm, (List.singleton_inj.mp hlast).symm⟩

theorem Route.walk_folder (r : Route fs path front dir name) (hpath : 0 ∉ path) :
    0 ∉ folder path ∧ fs.walk (start (folder path)) (components (folder path)) = .ok dir := by
  obtain ⟨hfront, -⟩ := r.components_parent hpath
  have hwalk := r.walk_eq
  rw [← hfront, start, ← isAbsolute_parent] at hwalk
  rw [folder]
  split_ifs with hnil
  · rw [hnil] at hwalk
    exact ⟨by decide, hwalk⟩
  · exact ⟨nul_not_mem_parent hpath, hwalk⟩

theorem Names.hasParent (h : fs.Names path dir name) (hpath : 0 ∉ path) : fs.HasParent path := by
  obtain ⟨-, front, r⟩ := h.route
  obtain ⟨-, hwalk⟩ := r.walk_folder hpath
  rw [folder] at hwalk
  by_cases hnil : parent path = []
  · exact .inl hnil
  · rw [if_neg hnil] at hwalk
    exact .inr ⟨isTooLong_parent hpath r.short, dir, hwalk⟩

theorem Names.list_folder (h : fs.Names path dir name) (hpath : 0 ∉ path) :
    fileName path = name ∧ fs.list (folder path) = .ok (fs.namesIn dir) := by
  obtain ⟨-, front, r⟩ := h.route
  obtain ⟨-, hwalk⟩ := r.walk_folder hpath
  exact ⟨(r.components_parent hpath).2, by rw [list, hwalk]⟩

theorem start_join {front other : Text} (hne : front ≠ []) (hslash : slash ∉ other) :
    start (FilePath.join front other) = start front := by
  rw [join_eq hslash hne, start, isAbsolute_append hne, start]

theorem route_join {front other : Text} (hnul : 0 ∉ front) (hne : front ≠ [])
    (hwalk : fs.walk (start front) (components front) = .ok dir) (hother : IsLabel other)
    (hdot : other ≠ dot) (hdots : other ≠ dotDot)
    (hshort : isTooLong (FilePath.join front other) = false) :
    Route fs (FilePath.join front other) (components front) dir other := by
  refine ⟨hshort, components_join hnul hother hne, ?_, hdot, hdots, ?_⟩
  · rw [start_join hne hother.slash_not_mem, hwalk]
  · rw [Text.untilNul_of_not_mem (nul_not_mem_join hnul hother hne), getLast?_join hother hne]
    exact fun hlast => hother.slash_not_mem (List.mem_of_getLast? hlast)

theorem names_join {front other : Text} (hnul : 0 ∉ front) (hne : front ≠ [])
    (hwalk : fs.walk (start front) (components front) = .ok dir) (hother : IsLabel other)
    (hdot : other ≠ dot) (hdots : other ≠ dotDot) :
    fs.Names (FilePath.join front other) dir other ∨
      fs.resolve (FilePath.join front other) = .error .nameTooLong := by
  by_cases hlong : isTooLong (FilePath.join front other) = true
  · right
    rw [resolve, if_pos hlong]
  have r := route_join hnul hne hwalk hother hdot hdots (by simpa using hlong)
  rcases Nat.lt_or_ge maxName other.length with hlength | hlength
  · right
    rw [r.resolve_eq, if_pos hlength]
  · left
    exact r.names hlength

theorem Names.join (h : fs.Names path dir name) (hpath : 0 ∉ path) {other : Text}
    (hother : IsLabel other) (hdot : other ≠ dot) (hdots : other ≠ dotDot) :
    fs.Names (FilePath.join (folder path) other) dir other ∨
      fs.resolve (FilePath.join (folder path) other) = .error .nameTooLong := by
  obtain ⟨-, front, r⟩ := h.route
  obtain ⟨hnul, hwalk⟩ := r.walk_folder hpath
  exact names_join hnul (folder_ne_nil path) hwalk hother hdot hdots

theorem resolve_join_of_error {front : Text} {e : FileError} (hnul : 0 ∉ front) (hne : front ≠ [])
    (hwalk : fs.walk (start front) (components front) = .error e) {other : Text}
    (hother : IsLabel other) (hshort : isTooLong (FilePath.join front other) = false) :
    fs.resolve (FilePath.join front other) = .error e := by
  simp only [resolve, hshort, components_join hnul hother hne, List.getLast?_append,
    List.getLast?_singleton, Option.some_or, List.dropLast_concat,
    start_join hne hother.slash_not_mem, hwalk, Bool.false_eq_true, if_false]

theorem resolve_join_of_nul {front : Text} (hnul : 0 ∈ front) {other : Text}
    (hslash : slash ∉ other) : fs.resolve (FilePath.join front other) = fs.resolve front := by
  have hne : front ≠ [] := List.ne_nil_of_mem hnul
  have hcut : Text.untilNul (FilePath.join front other) = Text.untilNul front := by
    rw [join_eq hslash hne]
    exact Text.untilNul_append hnul _
  have habsolute : isAbsolute (FilePath.join front other) = isAbsolute front := by
    rw [join_eq hslash hne]
    exact isAbsolute_append hne _
  have hlong : isTooLong (FilePath.join front other) = isTooLong front := by
    rw [isTooLong, isTooLong, hcut]
  have hcomponents : components (FilePath.join front other) = components front := by
    rw [components, components, hcut]
  rw [resolve, resolve, hlong, hcomponents, habsolute, start_join hne hslash, hcut]

theorem walk_append {names more : List Text} {here place : Location}
    (h : fs.walk here names = .ok place) : fs.walk here (names ++ more) = fs.walk place more := by
  replace h := leads_of_walk h
  induction h with
  | ended here => rfl
  | stayed _ ih => rwa [List.cons_append, walk, if_pos rfl]
  | climbed _ ih => rwa [List.cons_append, walk, if_neg dotDot_ne_dot, if_pos rfl]
  | entered hdot hdots hshort hdir _ ih =>
    rw [List.cons_append, walk, if_neg hdot, if_neg hdots, child?,
      if_neg (Nat.not_lt.mpr hshort), hdir]
    exact ih

theorem walk_of_directory {place : Place} (h : fs.resolve path = .ok place)
    (hdir : fs.node? place.location = some .directory) :
    fs.walk (start path) (components path) = .ok place.location := by
  rw [resolve] at h
  by_cases hlong : isTooLong path = true
  · rw [if_pos hlong] at h
    cases h
  rw [if_neg hlong] at h
  dsimp only at h
  cases hlast : (components path).getLast? with
  | none =>
    rw [List.getLast?_eq_none_iff] at hlast
    simp only [hlast, List.getLast?_nil] at h
    split_ifs at h with habsolute
    cases h
    rw [hlast, start, if_pos habsolute]
    rfl
  | some last =>
    have hcomponents := (List.dropLast_append_getLast? _ hlast).symm
    simp only [hlast] at h
    cases hwalk : fs.walk (start path) (components path).dropLast with
    | error e =>
      simp only [hwalk] at h
      cases h
    | ok here =>
      simp only [hwalk] at h
      rw [hcomponents, walk_append hwalk, walk]
      split_ifs at h with hdot hdots hname hslash
      · cases h
        rw [if_pos hdot]
        rfl
      · cases h
        rw [if_neg hdot, if_pos hdots]
        rfl
      all_goals
        cases h
        rw [if_neg hdot, if_neg hdots]
        rw [child?, if_neg hname, hdir]
        rfl

def Distinct (fs : FileSystem) : Prop := (Assoc.keys fs.entries).Nodup

theorem Distinct.nodup_namesIn (h : fs.Distinct) (dir : Location) : (fs.namesIn dir).Nodup := by
  rw [namesIn_eq]
  refine h.filterMap fun loc loc' name hloc hloc' => ?_
  rw [nameIn?_eq_some.mp hloc, nameIn?_eq_some.mp hloc']

theorem Distinct.set (h : fs.Distinct) (loc : Location) (node : Node) {files : List File}
    {disk : Disk} : Distinct ⟨Assoc.set loc node fs.entries, files, disk⟩ :=
  Assoc.nodup_keys_set h node

theorem Distinct.erase (h : fs.Distinct) (loc : Location) :
    Distinct ⟨Assoc.erase loc fs.entries, fs.files, fs.disk⟩ :=
  h.sublist (List.filter_sublist.map _)

theorem Distinct.makeWay (h : fs.Distinct) (making : Bool) (here : Location) (names : List Text) :
    (fs.makeWay making here names).2.Distinct := by
  induction names generalizing fs making here with
  | nil => exact h
  | cons name names ih =>
    rw [FileSystem.makeWay]
    split
    · exact ih h _ _
    split
    · exact ih h _ _
    split
    · exact h
    · exact ih h _ _
    · exact h
    · split
      · exact h
      · exact ih (h.set _ _) _ _

theorem Distinct.makeParent (h : fs.Distinct) (path : Text) : (fs.makeParent path).2.Distinct := by
  rw [FileSystem.makeParent]
  split
  · exact h
  rw [makeDirectories]
  split
  · exact h
  · exact h.makeWay _ _ _

theorem Distinct.openFile (h : fs.Distinct) {truncate : Bool} {now : Int} {target : WriteTarget}
    {fs' : FileSystem} (hopen : fs.openFile path truncate now = .ok (target, fs')) :
    fs'.Distinct := by
  rw [FileSystem.openFile] at hopen
  split at hopen
  · cases hopen
  split at hopen
  · cases hopen
  split at hopen
  · cases hopen
  · cases hopen
    exact h
  · cases hopen
    split <;> exact h
  · split at hopen
    · cases hopen
    · cases hopen
      exact h.set _ _

theorem Distinct.write (h : fs.Distinct) (target : WriteTarget) (position : Option Nat)
    (data : Text) (now : Int) : (fs.write target position data now).Distinct := by
  cases target <;> exact h

theorem Distinct.remove (h : fs.Distinct) {fs' : FileSystem} (hremove : fs.remove path = .ok fs') :
    fs'.Distinct := by
  rw [FileSystem.remove] at hremove
  split at hremove
  · cases hremove
    exact h
  · cases hremove
  split at hremove
  · cases hremove
    exact h
  split_ifs at hremove
  · cases hremove
    exact h.erase _
  · cases hremove
    exact h.erase _

theorem Distinct.move (h : fs.Distinct) {source target : Location}
    (hcan : CanMove fs source target) :
    (fs.move source target).Distinct := by
  have hkeys : Assoc.keys (fs.move source target).entries =
      (Assoc.keys (Assoc.erase target fs.entries)).map (relocate source target) := by
    rw [FileSystem.move, moveBelow_eq, Assoc.keys, Assoc.keys, List.map_map, List.map_map]
    rfl
  rw [Distinct, hkeys]
  refine List.Nodup.map_on (fun loc hloc loc' hloc' heq => ?_) (h.erase target)
  obtain ⟨e, he, rfl⟩ := List.mem_map.mp hloc
  obtain ⟨e', he', rfl⟩ := List.mem_map.mp hloc'
  by_cases hbelow : source <+: e.1
  · obtain ⟨rest, hrest⟩ := hbelow
    rw [← hrest, relocate_append] at heq
    by_cases hbelow' : source <+: e'.1
    · obtain ⟨rest', hrest'⟩ := hbelow'
      rw [← hrest', relocate_append] at heq
      rw [← hrest, ← hrest', List.append_cancel_left heq]
    · rw [relocate_of_not_below hbelow'] at heq
      exact absurd ⟨rest, heq⟩ (hcan.not_below_target he')
  · rw [relocate_of_not_below hbelow] at heq
    by_cases hbelow' : source <+: e'.1
    · obtain ⟨rest', hrest'⟩ := hbelow'
      rw [← hrest', relocate_append] at heq
      exact absurd ⟨rest', heq.symm⟩ (hcan.not_below_target he)
    · rwa [relocate_of_not_below hbelow'] at heq

theorem Distinct.rename (h : fs.Distinct) (hs : fs.Sound) {target : Text} {fs' : FileSystem}
    (hrename : fs.rename path target = .ok fs') : fs'.Distinct := by
  obtain ⟨s, t, moved, hsource, htarget, -, hmove⟩ := rename_ok hrename
  obtain ⟨hends, hendt, ⟨-, rfl⟩ | ⟨hmay, rfl⟩⟩ := moveNode_ok hmove
  · exact h
  · exact h.move (canMove_of_mayReplace hs (isEntry_of_resolve hsource hends)
      (isEntry_of_resolve htarget hendt) hmay)

/-- What follows the file name and a dot in the names that its directory lists. -/
def suffixes (fs : FileSystem) (path : Text) : List Text :=
  match fs.list (folder path) with
  | .ok names => names.filterMap fun name => (fileName path ++ dot).isPrefixOf? name
  | .error _ => []

theorem Names.suffixes_eq (h : fs.Names path dir name) (hpath : 0 ∉ path) : fs.suffixes path =
    (fs.namesIn dir).filterMap fun other => (name ++ dot).isPrefixOf? other := by
  obtain ⟨hname, hlist⟩ := h.list_folder hpath
  simp only [suffixes, hlist, hname]

theorem Names.isEntry_extended (h : fs.Names path dir name) (ext : Text) :
    IsEntry (dir ++ [extended name ext]) := by
  obtain ⟨-, front, r⟩ := h.route
  cases name with
  | nil => exact absurd rfl r.name_ne_nil
  | cons b rest =>
    refine isEntry_append_singleton (fun heq => r.ne_dot ?_) fun heq => ?_
    · simp only [extended, dotDot, dot, List.cons_append, List.append_assoc, List.cons.injEq] at heq
      obtain ⟨rfl, hrest⟩ := heq
      have hlength := congrArg List.length hrest
      simp only [List.length_append, List.length_cons, List.length_nil] at hlength
      rw [List.eq_nil_of_length_eq_zero (show rest.length = 0 by omega)]
      rfl
    · have hlength := congrArg List.length heq
      simp only [extended, dot, List.length_append, List.length_cons, List.length_nil] at hlength
      omega

theorem Names.mem_suffixes (h : fs.Names path dir name) (hpath : 0 ∉ path) {ext : Text} :
    ext ∈ fs.suffixes path ↔ fs.node? (dir ++ [extended name ext]) ≠ none := by
  rw [h.suffixes_eq hpath, List.mem_filterMap, ← mem_namesIn_iff_node? (h.isEntry_extended ext)]
  constructor
  · rintro ⟨other, hother, hext⟩
    rwa [extended, List.isPrefixOf?_eq_some_iff_append_eq.mp hext]
  · intro hmem
    exact ⟨_, hmem, List.isPrefixOf?_eq_some_iff_append_eq.mpr rfl⟩

theorem Names.nodup_suffixes (h : fs.Names path dir name) (hpath : 0 ∉ path) (hd : fs.Distinct) :
    (fs.suffixes path).Nodup := by
  rw [h.suffixes_eq hpath]
  refine (hd.nodup_namesIn dir).filterMap fun other other' ext hext hext' => ?_
  rw [← List.isPrefixOf?_eq_some_iff_append_eq.mp hext,
    ← List.isPrefixOf?_eq_some_iff_append_eq.mp hext']

def touchAll (fs : FileSystem) (paths : List Text) : FileSystem :=
  paths.foldl (fun fs path => ((fs.openFile path false 0).map (·.2)).toOption.getD fs) fs

theorem sound_touchAll {fs : FileSystem} (hs : fs.Sound) (hd : fs.Distinct)
    (paths : List Text) : (touchAll fs paths).Sound ∧ (touchAll fs paths).Distinct := by
  induction paths generalizing fs with
  | nil => exact ⟨hs, hd⟩
  | cons path paths ih =>
    rw [touchAll, List.foldl_cons, ← touchAll]
    cases hopen : fs.openFile path false 0 with
    | error e => exact ih hs hd
    | ok opened => exact ih (Follows.openFile hs hopen).sound (hd.openFile hopen)

theorem disk_touchAll (fs : FileSystem) (paths : List Text) :
    (touchAll fs paths).disk = fs.disk := by
  induction paths generalizing fs with
  | nil => rfl
  | cons path paths ih =>
    rw [touchAll, List.foldl_cons, ← touchAll, ih]
    cases hopen : fs.openFile path false 0 with
    | error e => rfl
    | ok opened => exact disk_openFile hopen

end FileSystem

end StructuredLog
