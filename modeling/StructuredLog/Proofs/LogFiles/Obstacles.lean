import StructuredLog.Proofs.LogFiles.Draining
import StructuredLog.Proofs.LogFiles.Created
import StructuredLog.Proofs.LogFiles.Territories

/-!
# Rotation by size around obstacles

A rotation by size empties its slots one after the other, from the last backup down to the file
itself, and goes on when one of these steps fails. A file that could not leave its slot stays there
only if nothing comes in from the slot below: the next step, if it has something to move, puts that
in its place. So a rotation loses the backups that are overrun in this way, and no others but the
last one. Main statement: `Worked.rotation_keeps`.
-/

namespace StructuredLog

open FileSystem LogFile Location

theorem FileSystem.stat_of_exists? {fs : FileSystem} {path : Text} (h : fs.exists? path = true) :
    ∃ node, fs.stat path = .ok node := by
  rw [exists?] at h
  cases hstat : fs.stat path with
  | error e =>
    rw [hstat] at h
    cases h
  | ok node => exact ⟨node, rfl⟩

namespace Site

variable {origin fs fs' : FileSystem} {path : Text} {dir : Location} {name : Text} {k : Nat}

theorem names_slot (h : Site origin path dir name) (hs : fs.Sound) {place : Place}
    (hresolve : fs.resolve (slotPath path k) = .ok place) :
    Site fs path dir name ∧ fs.Names (slotPath path k) dir (slotName name k) := by
  cases k with
  | zero =>
    have hsite := h.of_resolve hs hresolve
    exact ⟨hsite, hsite.names⟩
  | succ k =>
    obtain rfl := h.names.withSuffix_of_resolve h.no_nul (isLabel_ofNat (k + 1)) hresolve
    exact ⟨h.of_resolve_withSuffix hs (isLabel_ofNat (k + 1)) hresolve, hresolve⟩

theorem names_slot_of_names (h : Site fs' path dir name)
    (hnames : fs.Names (slotPath path k) dir (slotName name k)) :
    fs'.Names (slotPath path k) dir (slotName name k) := by
  cases k with
  | zero => exact h.names
  | succ k => exact h.names_withSuffix (isLabel_ofNat (k + 1)) (Names.fits hnames)

theorem names_slot_of_stat (h : Site origin path dir name) (hs : fs.Sound) {node : Node}
    (hstat : fs.stat (slotPath path k) = .ok node) :
    Site fs path dir name ∧ fs.Names (slotPath path k) dir (slotName name k) ∧
      fs.node? (slot dir name k) = some node := by
  cases hresolve : fs.resolve (slotPath path k) with
  | error e =>
    rw [stat, hresolve] at hstat
    cases hstat
  | ok place =>
    obtain ⟨hsite, hnames⟩ := h.names_slot hs hresolve
    refine ⟨hsite, hnames, ?_⟩
    rw [hnames.stat_eq] at hstat
    rw [slot]
    cases hnode : fs.node? (dir ++ [slotName name k]) with
    | none =>
      rw [hnode] at hstat
      cases hstat
    | some node' =>
      rw [hnode] at hstat
      cases hstat
      rfl

theorem stat_slot_iff (h : Site fs path dir name)
    (hnames : fs'.Names (slotPath path k) dir (slotName name k)) {node : Node} :
    fs.stat (slotPath path k) = .ok node ↔ fs.node? (slot dir name k) = some node := by
  refine ⟨fun hstat => (h.names_slot_of_stat h.sound hstat).2.2, fun hnode => ?_⟩
  rw [slot] at hnode
  rw [(h.names_slot_of_names hnames).stat_eq, hnode]

theorem exists?_slot (h : Site fs path dir name) (h' : Site fs' path dir name)
    (hnode : fs'.node? (slot dir name k) = fs.node? (slot dir name k))
    (hexists : fs.exists? (slotPath path k) = true) : fs'.exists? (slotPath path k) = true := by
  obtain ⟨node, hstat⟩ := stat_of_exists? hexists
  obtain ⟨-, hnames, hstands⟩ := h.names_slot_of_stat h.sound hstat
  rw [exists?, (h'.stat_slot_iff hnames).mpr (hnode.trans hstands)]
  rfl

theorem rename_slot (h : Site origin path dir name) (hs : fs.Sound)
    (hrename : fs.rename (slotPath path k) (slotPath path (k + 1)) = .ok fs') :
    Site fs path dir name ∧ fs.Names (slotPath path k) dir (slotName name k) ∧
      fs.Names (slotPath path (k + 1)) dir (slotName name (k + 1)) ∧
      (∃ moved, fs.node? (slot dir name k) = some moved) ∧
      CanMove fs (slot dir name k) (slot dir name (k + 1)) ∧
      fs' = fs.move (slot dir name k) (slot dir name (k + 1)) := by
  obtain ⟨s, t, moved, hsource, htarget, hmoved, hmove⟩ := rename_ok hrename
  obtain ⟨hsite, hnames⟩ := h.names_slot hs hsource
  obtain ⟨-, hnames'⟩ := h.names_slot hs htarget
  cases hnames.symm.trans hsource
  cases hnames'.symm.trans htarget
  refine ⟨hsite, hnames, hnames', ⟨moved, hmoved⟩, ?_⟩
  obtain ⟨-, -, ⟨hsame, -⟩ | ⟨hmay, rfl⟩⟩ := moveNode_ok hmove
  · exact absurd (slot_injective dir name hsame) (Nat.ne_of_lt (Nat.lt_succ_self k))
  · exact ⟨canMove_of_mayReplace hs hnames.isEntry hnames'.isEntry hmay, rfl⟩

theorem goal_slotPath (h : Site fs path dir name) (k : Nat) :
    goal (slotPath path k) = slot dir name k := by
  cases k with
  | zero => rw [slotPath, h.beside_path.goal_eq, h.goal_parent, slot, slotName]
  | succ k =>
    rw [slotPath, Work.numberedBackup, (h.beside_withSuffix (isTag_ofNat (k + 1))).goal_eq,
      h.goal_parent, slot, slotName]

theorem of_stops (h : Site fs path dir name) (hs : fs'.Sound)
    (hsame : ∀ loc ∈ stopsOf (FilePath.parent path), fs'.node? loc = fs.node? loc) :
    Site fs' path dir name := by
  have hwalk := h.walk_parent
  rw [← walk_congr hsame] at hwalk
  obtain ⟨-, front, r⟩ := h.names.route
  rw [(r.components_parent h.no_nul).1, start_parent, ← r.dropLast_components] at hwalk
  exact h.of_walk hs hwalk

theorem remove_slot (h : Site fs path dir name) (hremove : fs.remove (slotPath path k) = .ok fs')
    (loc : Location) (hloc : loc ≠ slot dir name k) : fs'.node? loc = fs.node? loc := by
  rcases remove_vacates h.sound hremove with rfl | ⟨place, hresolve, -, -, -, -, hnode⟩
  · rfl
  · obtain ⟨-, hnames⟩ := h.names_slot h.sound hresolve
    cases hnames.symm.trans hresolve
    exact (congrFun hnode loc).trans (Function.update_of_ne hloc _ _)

end Site

namespace FileSystem

variable {fs fs' : FileSystem} {source target loc entry : Location} {path : Text} {n : Nat}

theorem not_below_of_not_mem_stops (hentry : IsEntry entry) {names : List Text}
    (havoids : entry ∉ stops (start path) names) (hloc : loc ∈ stops (start path) names) :
    ¬entry <+: loc := by
  intro hbelow
  rcases mem_stops_of_prefix hentry hloc hbelow with hmem | hprefix
  · exact havoids hmem
  · have hentry' : IsEntry (start path) := by
      obtain ⟨below, heq⟩ := hprefix
      exact heq ▸ hentry.append below
    rw [start] at hentry'
    split_ifs at hentry'
    · exact hentry'.ne_root rfl
    · exact absurd hentry'.not_isAncestor (by decide)

theorem CanMove.gone (h : CanMove fs source target)
    (hgone : ∀ loc, fs.node? loc ≠ some (.file n)) (loc : Location) :
    (fs.move source target).node? loc ≠ some (.file n) := by
  intro hnode
  rcases h.node?_cases hnode with ⟨below, -, hbefore⟩ | ⟨-, -, hbefore⟩
  · exact hgone _ hbefore
  · exact hgone _ hbefore

theorem CanMove.replaced (h : CanMove fs source target) (hs : fs.Sound)
    (htarget : fs.node? target = some (.file n)) (loc : Location) :
    (fs.move source target).node? loc ≠ some (.file n) := by
  intro hnode
  rcases h.node?_cases hnode with ⟨below, -, hbefore⟩ | ⟨-, hapart, hbefore⟩
  · exact h.not_below ⟨below, hs.injective hbefore htarget⟩
  · exact hapart (hs.injective hbefore htarget ▸ List.prefix_refl _)

end FileSystem

namespace LogFile

variable {before fs fs' : FileSystem} {path : Text} {dir : Location} {name : Text}
  {backups i j k n : Nat} {e : FileError} {problems : List FileProblem} {w : Work} {now : Int}

namespace Work

def moveAway (now : Int) (target : Text) (w : Work) : Work :=
  match (w.drained now).rename w.log.path target with
  | .ok files => { w.close now with files := files }
  | .error e => (w.close now).note (.cannotRotate target e)

theorem rotateTo_eq_moveAway (w : Work) (now : Int) (target : Text) :
    w.rotateTo now target = (w.moveAway now target).reopen now false := by
  rw [rotateTo_eq, moveAway]
  cases (w.drained now).rename w.log.path target <;> rfl

def steps (now : Int) (backups : Nat) (w : Work) : Work :=
  ((shiftOrder backups).foldl shiftBackup (w.removeOldest backups)).moveAway now
    (slotPath w.log.path 1)

theorem rotateBySize_eq (hbackups : 0 < backups) (w : Work) (now : Int) :
    w.rotateBySize now backups = (w.steps now backups).reopen now false := by
  rw [rotateBySize, if_neg (by omega), rotateTo_eq_moveAway, steps, slotPath]

theorem reopen_eq (w : Work) (now : Int) (truncate : Bool) :
    (∃ target files, ((w.drained now).makeParent w.log.path).2.openFile w.log.path truncate now =
        .ok (target, files) ∧ w.reopen now truncate = w.opened target truncate files) ∨
      ∃ e, w.reopen now truncate =
        { w.close now with files := ((w.drained now).makeParent w.log.path).2 }.note
          (.cannotOpen e) := by
  have hclose : (w.close now).files.makeParent (w.close now).log.path =
    (w.drained now).makeParent w.log.path := rfl
  rw [reopen, openStream_eq, hclose]
  cases (w.drained now).makeParent w.log.path with
  | mk result made =>
    cases result with
    | error e => exact .inr ⟨e, rfl⟩
    | ok _ =>
      dsimp only
      cases hopen : made.openFile w.log.path truncate now with
      | error e =>
        have hopen' : made.openFile (w.close now).log.path truncate now = .error e := hopen
        rw [hopen']
        exact .inr ⟨.denied, rfl⟩
      | ok opened =>
        have hopen' : made.openFile (w.close now).log.path truncate now = .ok opened := hopen
        rw [hopen']
        exact .inl ⟨opened.1, opened.2, rfl, rfl⟩

theorem reopen_gains (w : Work) (now : Int) :
    Gains (w.drained now) (w.reopen now false).files := by
  have hadds := (makeParent_adds (w.drained now) w.log.path).gains
  rcases w.reopen_eq now false with ⟨target, files, hopen, hreopen⟩ | ⟨e, hreopen⟩
  · rw [hreopen]
    exact hadds.trans (.openFile hopen)
  · rw [hreopen]
    exact hadds

end Work

/-- How the step of a rotation that is to empty slot `k` is reported to fail: the removal of the
last backup, the shift of another one, or the renaming of the file itself. -/
def stepProblem (path : Text) (backups k : Nat) (e : FileError) : FileProblem :=
  if k = backups then .cannotRemoveOldest e
  else if k = 0 then .cannotRotate (slotPath path 1) e
  else .cannotShift (slotPath path k) e

def StepFailed (path : Text) (backups : Nat) (problems : List FileProblem) (k : Nat) : Prop :=
  ∃ e, stepProblem path backups k e ∈ problems

def MovesOn (before : FileSystem) (path : Text) (backups : Nat) (problems : List FileProblem)
    (k : Nat) : Prop :=
  before.exists? (slotPath path k) = true ∧ ¬StepFailed path backups problems k

/-- What is in the slot could not leave it, and what is in the slot below came in. -/
def Overrun (before : FileSystem) (path : Text) (backups : Nat) (problems : List FileProblem)
    (i : Nat) : Prop :=
  StepFailed path backups problems i ∧ ∃ k, i = k + 1 ∧ MovesOn before path backups problems k

theorem stepProblem_injective (hk : k ≤ backups) (hj : j ≤ backups) {e e' : FileError}
    (h : stepProblem path backups k e = stepProblem path backups j e') : k = j := by
  unfold stepProblem at h
  split_ifs at h
  · omega
  · omega
  · obtain ⟨k, rfl⟩ : ∃ m, k = m + 1 := ⟨k - 1, by omega⟩
    obtain ⟨j, rfl⟩ : ∃ m, j = m + 1 := ⟨j - 1, by omega⟩
    exact Decimal.ofNat_injective (List.append_cancel_left (FileProblem.cannotShift.inj h).1)

theorem stepFailed_append (hk : k ≤ backups) (hj : j ≤ backups) :
    StepFailed path backups (problems ++ [stepProblem path backups k e]) j ↔
      StepFailed path backups problems j ∨ j = k := by
  constructor
  · rintro ⟨e', he'⟩
    rcases List.mem_append.mp he' with hbefore | hnew
    · exact .inl ⟨e', hbefore⟩
    · exact .inr (stepProblem_injective hj hk (List.mem_singleton.mp hnew))
  · rintro (⟨e', he'⟩ | rfl)
    · exact ⟨e', List.mem_append_left _ he'⟩
    · exact ⟨e, List.mem_append_right _ (List.mem_singleton_self _)⟩

/-- What has become of the file `n` of slot `i` after the steps down to that of slot `k`. -/
inductive Fate (before : FileSystem) (path : Text) (dir : Location) (name : Text) (backups k : Nat)
    (fs : FileSystem) (problems : List FileProblem) (i n : Nat) : Prop
  | held (hfailed : StepFailed path backups problems i)
      (hsafe : ∀ j, i = j + 1 → k ≤ j → ¬MovesOn before path backups problems j)
      (hnode : fs.node? (slot dir name i) = some (.file n))
  | overrun {j : Nat} (hnext : i = j + 1) (hdone : k ≤ j)
      (hfailed : StepFailed path backups problems i)
      (hmoves : MovesOn before path backups problems j)
      (hgone : ∀ loc, fs.node? loc ≠ some (.file n))
  | moved (hlt : i < backups) (hok : ¬StepFailed path backups problems i)
      (hnames : ∃ files, Names files (slotPath path (i + 1)) dir (slotName name (i + 1)))
      (hnode : fs.node? (slot dir name (i + 1)) = some (.file n))
  | removed (hlast : i = backups) (hok : ¬StepFailed path backups problems i)
      (hgone : ∀ loc, fs.node? loc ≠ some (.file n))
  | stranded (hok : ¬StepFailed path backups problems i) (hoff : ¬Site fs path dir name)
      (hnode : fs.node? (slot dir name i) = some (.file n))

namespace Fate

theorem idle (h : Fate before path dir name backups (k + 1) fs problems i n)
    (hidle : i = k + 1 → StepFailed path backups problems i →
      ¬MovesOn before path backups problems k) :
    Fate before path dir name backups k fs problems i n := by
  cases h with
  | held hfailed hsafe hnode =>
    refine .held hfailed (fun j hnext hj => ?_) hnode
    rcases Nat.eq_or_lt_of_le hj with rfl | hlt
    · exact hidle hnext hfailed
    · exact hsafe j hnext hlt
  | overrun hnext hdone hfailed hmoves hgone =>
    exact .overrun hnext (Nat.le_of_succ_le hdone) hfailed hmoves hgone
  | moved hlt hok hnames hnode => exact .moved hlt hok hnames hnode
  | removed hlast hok hgone => exact .removed hlast hok hgone
  | stranded hok hoff hnode => exact .stranded hok hoff hnode

theorem fail (h : Fate before path dir name backups (k + 1) fs problems i n) (hki : k < i)
    (hle : i ≤ backups) : Fate before path dir name backups k fs
      (problems ++ [stepProblem path backups k e]) i n := by
  have hsame : ∀ {j}, k < j → j ≤ backups →
      (StepFailed path backups (problems ++ [stepProblem path backups k e]) j ↔
        StepFailed path backups problems j) := by
    intro j hkj hj
    rw [stepFailed_append (by omega) hj]
    exact or_iff_left (by omega)
  have hi := hsame hki hle
  cases h with
  | held hfailed hsafe hnode =>
    refine .held (hi.mpr hfailed) (fun j hnext hj => ?_) hnode
    rcases Nat.eq_or_lt_of_le hj with rfl | hlt
    · exact fun hmoves => hmoves.2 ((stepFailed_append (by omega) (by omega)).mpr (.inr rfl))
    · exact fun hmoves => hsafe j hnext hlt
        ⟨hmoves.1, fun hfailed' => hmoves.2 ((hsame hlt (by omega)).mpr hfailed')⟩
  | overrun hnext hdone hfailed hmoves hgone =>
    exact .overrun hnext (by omega) (hi.mpr hfailed)
      ⟨hmoves.1, fun hfailed' => hmoves.2 ((hsame (by omega) (by omega)).mp hfailed')⟩ hgone
  | moved hlt hok hnames hnode => exact .moved hlt (fun h => hok (hi.mp h)) hnames hnode
  | removed hlast hok hgone => exact .removed hlast (fun h => hok (hi.mp h)) hgone
  | stranded hok hoff hnode => exact .stranded (fun h => hok (hi.mp h)) hoff hnode

end Fate

theorem node?_move_slot (hi : i ≠ k) (hi' : i ≠ k + 1) :
    (fs.move (slot dir name k) (slot dir name (k + 1))).node? (slot dir name i) =
      fs.node? (slot dir name i) :=
  node?_move_of_apart
    (not_below_sibling fun heq => hi (slotName_injective name heq).symm)
    (not_below_sibling fun heq => hi' (slotName_injective name heq).symm)

theorem Fate.move (h : Fate before path dir name backups (k + 1) fs problems i n) (hki : k < i)
    (hsite : Site fs path dir name) (hmoves : MovesOn before path backups problems k)
    (hcan : CanMove fs (slot dir name k) (slot dir name (k + 1))) :
    Fate before path dir name backups k (fs.move (slot dir name k) (slot dir name (k + 1)))
      problems i n := by
  cases h with
  | held hfailed hsafe hnode =>
    rcases Nat.eq_or_lt_of_le (Nat.succ_le_of_lt hki) with rfl | hlt
    · exact .overrun rfl le_rfl hfailed hmoves (hcan.replaced hsite.sound hnode)
    · refine .held hfailed (fun j hnext _ => hsafe j hnext (by omega)) ?_
      rw [node?_move_slot (by omega) (by omega), hnode]
  | overrun hnext hdone hfailed hmoves' hgone =>
    exact .overrun hnext (by omega) hfailed hmoves' (hcan.gone hgone)
  | moved hlt hok hnames hnode =>
    refine .moved hlt hok hnames ?_
    rw [node?_move_slot (by omega) (by omega), hnode]
  | removed hlast hok hgone => exact .removed hlast hok (hcan.gone hgone)
  | stranded hok hoff hnode => exact absurd hsite hoff

/-- The path does not lead through one of the slots. -/
def AvoidsSlots (path : Text) (backups : Nat) : Prop :=
  ∀ k ≤ backups, goal (slotPath path k) ∉ stopsOf (FilePath.parent path)

instance (path : Text) (backups : Nat) : Decidable (AvoidsSlots path backups) :=
  inferInstanceAs
    (Decidable (∀ k ≤ backups, goal (slotPath path k) ∉ stopsOf (FilePath.parent path)))

/-- A rotation whose steps down to that of slot `k` are taken. -/
structure Stage (before : FileSystem) (path : Text) (dir : Location) (name : Text)
    (backups k : Nat) (w : Work) : Prop where
  offSite : OffSite path dir name w
  waiting : ∀ i < k, w.files.node? (slot dir name i) = before.node? (slot dir name i)
  quiet : ∀ i < k, ¬StepFailed path backups w.problems i
  reached : 0 < k → StepFailed path backups w.problems k → Site w.files path dir name
  avoids : AvoidsSlots path backups → Site w.files path dir name
  fate : ∀ i n, k ≤ i → i ≤ backups → before.stat (slotPath path i) = .ok (.file n) →
    Fate before path dir name backups k w.files w.problems i n

namespace Stage

variable {files : FileSystem}

theorem close (h : Stage before path dir name backups k w)
    (now : Int) : Stage before path dir name backups k (w.close now) := by
  have hnode : ∀ loc, (w.drained now).node? loc = w.files.node? loc :=
    congrFun (Work.node?_drained w now)
  have hsound := (Work.follows_drained h.offSite.sound now).sound
  have hsite : Site w.files path dir name → Site (w.drained now) path dir name :=
    fun hsite => hsite.of_stops hsound fun loc _ => hnode loc
  have hback : Site (w.drained now) path dir name → Site w.files path dir name :=
    fun hsite => hsite.of_stops h.offSite.sound fun loc _ => (hnode loc).symm
  refine ⟨h.offSite.close now, fun i hi => (hnode _).trans (h.waiting i hi), h.quiet,
    fun hpos hfailed => hsite (h.reached hpos hfailed), fun havoids => hsite (h.avoids havoids),
    fun i n hki hi hstat => ?_⟩
  have hfate := h.fate i n hki hi hstat
  cases hfate with
  | held hfailed hsafe hstands => exact .held hfailed hsafe ((hnode _).trans hstands)
  | overrun hnext hdone hfailed hmoves hgone =>
    exact .overrun hnext hdone hfailed hmoves fun loc => hnode loc ▸ hgone loc
  | moved hlt hok hnames hstands => exact .moved hlt hok hnames ((hnode _).trans hstands)
  | removed hlast hok hgone => exact .removed hlast hok fun loc => hnode loc ▸ hgone loc
  | stranded hok hoff hstands =>
    exact .stranded hok (fun hsite' => hoff (hback hsite')) ((hnode _).trans hstands)

theorem idle (hbefore : Site before path dir name)
    (h : Stage before path dir name backups (k + 1) w)
    (hidle : w.files.exists? (slotPath path k) = false) :
    Stage before path dir name backups k w where
  offSite := h.offSite
  waiting i hi := h.waiting i (by omega)
  quiet i hi := h.quiet i (by omega)
  reached _ hfailed := absurd hfailed (h.quiet k (by omega))
  avoids := h.avoids
  fate := by
    have hfound : Site w.files path dir name → before.exists? (slotPath path k) = false := by
      intro hsite
      by_contra hexists
      have hfound := hbefore.exists?_slot hsite (h.waiting k (by omega)) (by simpa using hexists)
      rw [hidle] at hfound
      cases hfound
    intro i n hi hle hstat
    rcases Nat.eq_or_lt_of_le hi with rfl | hlt
    · obtain ⟨-, -, hnode⟩ := hbefore.names_slot_of_stat hbefore.sound hstat
      refine .stranded (h.quiet k (by omega)) (fun hsite => ?_)
        ((h.waiting k (by omega)).trans hnode)
      have hnone := hfound hsite
      rw [exists?, hstat] at hnone
      cases hnone
    · refine (h.fate i n hlt hle hstat).idle ?_
      rintro rfl hfailed ⟨hexists, -⟩
      rw [hfound (h.reached (by omega) hfailed)] at hexists
      cases hexists

theorem fail (hbefore : Site before path dir name)
    (h : Stage before path dir name backups (k + 1) w) (hk : k ≤ backups)
    (hreached : 0 < k → Site w.files path dir name) (e : FileError) :
    Stage before path dir name backups k (w.note (stepProblem path backups k e)) where
  offSite := h.offSite.note _
  waiting i hi := h.waiting i (by omega)
  quiet i hi hfailed := by
    rcases (stepFailed_append hk (by omega)).mp hfailed with hfailed | rfl
    · exact h.quiet i (by omega) hfailed
    · omega
  reached hpos _ := hreached hpos
  avoids := h.avoids
  fate := by
    intro i n hi hle hstat
    rcases Nat.eq_or_lt_of_le hi with rfl | hlt
    · obtain ⟨-, -, hnode⟩ := hbefore.names_slot_of_stat hbefore.sound hstat
      exact .held ((stepFailed_append hk hk).mpr (.inr rfl)) (fun j hnext hj => by omega)
        ((h.waiting k (by omega)).trans hnode)
    · exact (h.fate i n hlt hle hstat).fail hlt hle

theorem move (hbefore : Site before path dir name)
    (h : Stage before path dir name backups (k + 1) w) (hk : k < backups)
    (hrename : w.files.rename (slotPath path k) (slotPath path (k + 1)) = .ok files) :
    Stage before path dir name backups k { w with files := files } := by
  obtain ⟨hsite, hnames, hnames', ⟨moved, hmoved⟩, hcan, rfl⟩ :=
    hbefore.rename_slot h.offSite.sound hrename
  have hquiet := h.quiet k (Nat.lt_succ_self k)
  have hexists : w.files.exists? (slotPath path k) = true := by
    rw [hnames.exists?_eq]
    exact Option.isSome_of_eq_some hmoved
  have hmoves : MovesOn before path backups w.problems k :=
    ⟨hsite.exists?_slot hbefore (h.waiting k (Nat.lt_succ_self k)).symm hexists, hquiet⟩
  have hoff : OffSite path dir name
      { w with files := w.files.move (slot dir name k) (slot dir name (k + 1)) } := by
    refine h.offSite.rename ?_ hrename
    cases k with
    | zero => exact .inl rfl
    | succ k => exact .inr ⟨_, isLabel_ofNat (k + 1), rfl⟩
  refine ⟨hoff, fun i hi => ?_, fun i hi => h.quiet i (by omega),
    fun _ hfailed => absurd hfailed hquiet,
    fun havoids => ?_, fun i n hi hle hstat => ?_⟩
  · exact (node?_move_slot (by omega) (by omega)).trans (h.waiting i (by omega))
  · have hapart : ∀ {i}, i ≤ backups → IsEntry (slot dir name i) →
        ∀ loc ∈ stopsOf (FilePath.parent path), ¬slot dir name i <+: loc := by
      intro i hi hentry loc hloc
      exact not_below_of_not_mem_stops hentry (hsite.goal_slotPath i ▸ havoids i hi) hloc
    exact hsite.of_stops hoff.sound fun loc hloc => node?_move_of_apart
      (hapart (by omega) hnames.isEntry loc hloc) (hapart (by omega) hnames'.isEntry loc hloc)
  · rcases Nat.eq_or_lt_of_le hi with rfl | hlt
    · obtain ⟨-, -, hnode⟩ := hbefore.names_slot_of_stat hbefore.sound hstat
      refine .moved hk hquiet ⟨_, hnames'⟩ ?_
      have hself := hcan.node?_target []
      rw [List.append_nil, List.append_nil, h.waiting k (Nat.lt_succ_self k), hnode] at hself
      exact hself
    · exact (h.fate i n hlt hle hstat).move hlt hsite hmoves hcan

theorem init (hbefore : Site w.files path dir name) (hpath : w.log.path = path)
    (hclean : w.problems = []) : Stage w.files path dir name backups (backups + 1) w := by
  have hquiet : ∀ i, ¬StepFailed path backups w.problems i := by
    rintro i ⟨e, he⟩
    rw [hclean] at he
    cases he
  exact ⟨OnSite.offSite ⟨hpath, hbefore⟩, fun _ _ => rfl, fun i _ => hquiet i,
    fun _ hfailed => absurd hfailed (hquiet _), fun _ => hbefore, fun i n hi hle _ => by omega⟩

theorem removeOldest (hbefore : Site w.files path dir name) (hbackups : 0 < backups)
    (h : Stage w.files path dir name backups (backups + 1) w) :
    Stage w.files path dir name backups backups (w.removeOldest backups) := by
  have hslot : Work.numberedBackup w.log.path backups = slotPath path backups := by
    obtain ⟨last, rfl⟩ : ∃ last, backups = last + 1 := ⟨backups - 1, by omega⟩
    rw [h.offSite.path_eq, slotPath]
  have hremoved := h.offSite.removeOldest backups
  rw [Work.removeOldest, hslot] at hremoved ⊢
  cases hremove : w.files.remove (slotPath path backups) with
  | error e =>
    have hproblem : FileProblem.cannotRemoveOldest e = stepProblem path backups backups e := by
      rw [stepProblem, if_pos rfl]
    dsimp only
    rw [hproblem]
    exact h.fail hbefore le_rfl (fun _ => hbefore) e
  | ok files =>
    rw [hremove] at hremoved
    have hapart := hbefore.remove_slot hremove
    have hquiet := h.quiet backups (Nat.lt_succ_self _)
    refine ⟨hremoved, fun i hi => ?_, fun i hi => h.quiet i (by omega),
      fun _ hfailed => absurd hfailed hquiet, fun havoids => ?_, fun i n hi hle hstat => ?_⟩
    · exact hapart _ fun heq => Nat.ne_of_lt hi (slot_injective dir name heq)
    · refine hbefore.of_stops hremoved.sound fun loc hloc => hapart loc ?_
      rintro rfl
      exact havoids backups le_rfl (hbefore.goal_slotPath backups ▸ hloc)
    · obtain rfl : i = backups := by omega
      obtain ⟨-, hnames, hnode⟩ := hbefore.names_slot_of_stat hbefore.sound hstat
      obtain ⟨-, hvacated, -⟩ := hnames.remove_eq hremove
      refine .removed rfl hquiet fun loc hloc => ?_
      by_cases heq : loc = slot dir name i
      · rw [heq, slot, hvacated, Function.update_self] at hloc
        cases hloc
      · exact heq (hbefore.sound.injective ((hapart loc heq).symm.trans hloc) hnode)

theorem shiftBackup (hbefore : Site before path dir name)
    (h : Stage before path dir name backups (k + 2) w) (hk : k + 2 ≤ backups) :
    Stage before path dir name backups (k + 1) (w.shiftBackup (k + 1)) := by
  have hslot : ∀ n, Work.numberedBackup w.log.path (n + 1) = slotPath path (n + 1) := by
    intro n
    rw [h.offSite.path_eq, slotPath]
  simp only [Work.shiftBackup, hslot]
  split_ifs with hexists
  · cases hrename : w.files.rename (slotPath path (k + 1)) (slotPath path (k + 2)) with
    | error e =>
      have hproblem : FileProblem.cannotShift (slotPath path (k + 1)) e =
          stepProblem path backups (k + 1) e := by
        rw [stepProblem, if_neg (by omega), if_neg (by omega)]
      dsimp only
      rw [hproblem]
      refine h.fail hbefore (by omega) (fun _ => ?_) e
      obtain ⟨node, hstat⟩ := stat_of_exists? hexists
      exact (hbefore.names_slot_of_stat h.offSite.sound hstat).1
    | ok files => exact h.move hbefore (by omega) hrename
  · exact h.idle hbefore (by simpa using hexists)

theorem shifts (hbefore : Site before path dir name) (hk : k + 1 ≤ backups)
    (h : Stage before path dir name backups (k + 1) w) :
    Stage before path dir name backups 1
      (((List.range k).reverse.map (· + 1)).foldl Work.shiftBackup w) := by
  induction k generalizing w with
  | zero => exact h
  | succ k ih =>
    rw [Work.shiftOrder_succ, List.foldl_cons]
    exact ih (by omega) (h.shiftBackup hbefore hk)

theorem moveAway (hbefore : Site before path dir name) (hbackups : 0 < backups)
    (h : Stage before path dir name backups 1 w) :
    Stage before path dir name backups 0 (w.moveAway now (slotPath path 1)) := by
  rw [Work.moveAway, h.offSite.path_eq]
  cases hrename : (w.drained now).rename path (slotPath path 1) with
  | error e =>
    have hproblem :
        FileProblem.cannotRotate (slotPath path 1) e = stepProblem path backups 0 e := by
      rw [stepProblem, if_neg (by omega), if_pos rfl]
    dsimp only
    rw [hproblem]
    exact (h.close now).fail hbefore (Nat.zero_le _)
      (fun hpos => absurd hpos (lt_irrefl 0)) e
  | ok files => exact (h.close now).move hbefore hbackups hrename

end Stage

theorem Stage.steps (hbefore : Site w.files path dir name) (hpath : w.log.path = path)
    (hclean : w.problems = []) (hbackups : 0 < backups) (now : Int) :
    Stage w.files path dir name backups 0 (w.steps now backups) := by
  rw [Work.steps, hpath]
  obtain ⟨last, rfl⟩ : ∃ last, backups = last + 1 := ⟨backups - 1, by omega⟩
  have hremoved := Stage.removeOldest hbefore hbackups (Stage.init hbefore hpath hclean)
  exact (hremoved.shifts hbefore le_rfl).moveAway hbefore hbackups

/-- After all steps a file is in a slot again if it is not overrun and was not in the last one; in
its own slot it is only if it could not leave that. -/
theorem Stage.landed (hbefore : Site before path dir name)
    (h : Stage before path dir name backups 0 w) (hgains : Gains w.files fs)
    (hafter : Site fs path dir name) (hn : n < w.files.files.length) (hi : i ≤ backups)
    (hstat : before.stat (slotPath path i) = .ok (.file n)) :
    (¬Overrun before path backups w.problems i → i < backups →
        ∃ j ≤ backups, fs.stat (slotPath path j) = .ok (.file n)) ∧
      (Overrun before path backups w.problems i → ∀ loc, fs.node? loc ≠ some (.file n)) ∧
      (AvoidsSlots path backups →
        (fs.stat (slotPath path i) = .ok (.file n) ↔
          StepFailed path backups w.problems i ∧ ¬Overrun before path backups w.problems i)) := by
  obtain ⟨-, hnames, -⟩ := hbefore.names_slot_of_stat hbefore.sound hstat
  have hgone : (∀ loc, w.files.node? loc ≠ some (.file n)) →
      fs.stat (slotPath path i) ≠ .ok (.file n) := fun hgone hstands =>
    hgains.gone hn hgone _ ((hafter.stat_slot_iff hnames).mp hstands)
  cases h.fate i n (Nat.zero_le i) hi hstat with
  | held hfailed hsafe hnode =>
    have hstands := (hafter.stat_slot_iff hnames).mpr (hgains.node hnode)
    have hnot : ¬Overrun before path backups w.problems i := by
      rintro ⟨-, k, hnext, hmoves⟩
      exact hsafe k hnext (Nat.zero_le k) hmoves
    exact ⟨fun _ _ => ⟨i, hi, hstands⟩, fun hover => absurd hover hnot,
      fun _ => iff_of_true hstands ⟨hfailed, hnot⟩⟩
  | overrun hnext hdone hfailed hmoves hnone =>
    have hover : Overrun before path backups w.problems i := ⟨hfailed, _, hnext, hmoves⟩
    exact ⟨fun hnot => absurd hover hnot, fun _ => hgains.gone hn hnone,
      fun _ => iff_of_false (hgone hnone) fun hsafe => hsafe.2 hover⟩
  | moved hlt hok hnames' hnode =>
    obtain ⟨files, hnames'⟩ := hnames'
    refine ⟨fun _ _ => ⟨i + 1, hlt, (hafter.stat_slot_iff hnames').mpr (hgains.node hnode)⟩,
      fun hover => absurd hover.1 hok,
      fun _ => iff_of_false (fun hstands => ?_) fun hsafe => hok hsafe.1⟩
    have hsame := hafter.sound.injective ((hafter.stat_slot_iff hnames).mp hstands)
      (hgains.node hnode)
    exact absurd (slot_injective dir name hsame) (Nat.ne_of_lt (Nat.lt_succ_self i))
  | removed hlast hok hnone =>
    exact ⟨fun _ hlt => absurd hlast (Nat.ne_of_lt hlt), fun hover => absurd hover.1 hok,
      fun _ => iff_of_false (hgone hnone) fun hsafe => hok hsafe.1⟩
  | stranded hok hoff hnode =>
    exact ⟨fun _ _ => ⟨i, hi, (hafter.stat_slot_iff hnames).mpr (hgains.node hnode)⟩,
      fun hover => absurd hover.1 hok, fun havoids => absurd (h.avoids havoids) hoff⟩

theorem stepFailed_reopen (w : Work) (now : Int) (truncate : Bool) :
    StepFailed path backups (w.reopen now truncate).problems k ↔
      StepFailed path backups w.problems k := by
  rcases w.reopen_eq now truncate with ⟨target, files, -, hreopen⟩ | ⟨e, hreopen⟩
  · rw [hreopen]
    rfl
  · have hother : ∀ e', stepProblem path backups k e' ≠ .cannotOpen e := by
      intro e'
      rw [stepProblem]
      split_ifs <;> simp
    rw [hreopen, StepFailed, StepFailed]
    refine exists_congr fun e' => ?_
    rw [Work.note, List.mem_append, List.mem_singleton]
    exact or_iff_left (hother e')

namespace Work

theorem removeOldest_keeps (w : Work) (backups : Nat) :
    (w.removeOldest backups).log = w.log ∧
      (w.removeOldest backups).files.files = w.files.files ∧
      (w.removeOldest backups).files.disk = w.files.disk := by
  rw [removeOldest]
  cases hremove : w.files.remove (numberedBackup w.log.path backups) with
  | error e => exact ⟨rfl, rfl, rfl⟩
  | ok files => exact ⟨rfl, remove_files hremove, disk_remove hremove⟩

theorem shiftBackup_keeps (w : Work) (n : Nat) :
    (w.shiftBackup n).log = w.log ∧ (w.shiftBackup n).files.files = w.files.files ∧
      (w.shiftBackup n).files.disk = w.files.disk := by
  simp only [shiftBackup]
  split_ifs
  · cases hrename : w.files.rename (numberedBackup w.log.path n)
        (numberedBackup w.log.path (n + 1)) with
    | error e => exact ⟨rfl, rfl, rfl⟩
    | ok files => exact ⟨rfl, rename_files hrename, rename_disk hrename⟩
  · exact ⟨rfl, rfl, rfl⟩

theorem shifts_keep (w : Work) (order : List Nat) :
    (order.foldl shiftBackup w).log = w.log ∧
      (order.foldl shiftBackup w).files.files = w.files.files ∧
      (order.foldl shiftBackup w).files.disk = w.files.disk := by
  induction order generalizing w with
  | nil => exact ⟨rfl, rfl, rfl⟩
  | cons n order ih =>
    obtain ⟨hlog, hfiles, hdisk⟩ := ih (w.shiftBackup n)
    obtain ⟨hlog', hfiles', hdisk'⟩ := w.shiftBackup_keeps n
    exact ⟨hlog.trans hlog', hfiles.trans hfiles', hdisk.trans hdisk'⟩

theorem moveAway_keeps (w : Work) (now : Int) (target : Text) :
    (w.moveAway now target).log = (w.close now).log ∧
      (w.moveAway now target).files.files = (w.drained now).files := by
  rw [moveAway]
  cases hrename : (w.drained now).rename w.log.path target with
  | error e => exact ⟨rfl, rfl⟩
  | ok files => exact ⟨rfl, rename_files hrename⟩

theorem steps_keep (w : Work) (now : Int) (backups : Nat) :
    (w.steps now backups).log = (w.close now).log ∧
      (w.steps now backups).files.files = (w.drained now).files := by
  obtain ⟨hlog, hfiles, hdisk⟩ := w.removeOldest_keeps backups
  obtain ⟨hlog', hfiles', hdisk'⟩ := (w.removeOldest backups).shifts_keep (shiftOrder backups)
  obtain ⟨hlog'', hfiles''⟩ := moveAway_keeps
    ((shiftOrder backups).foldl shiftBackup (w.removeOldest backups)) now (slotPath w.log.path 1)
  refine ⟨hlog''.trans ?_, hfiles''.trans (files_drained_congr ?_ ?_ ?_ now)⟩
  · rw [close, close, hlog', hlog]
  · rw [hlog', hlog]
  · exact hfiles'.trans hfiles
  · exact hdisk'.trans hdisk

end Work

/-- The states of a log file that rotates by size, from its opening on; the file system may be any
at each write. -/
inductive Worked (limit backups : Nat) (path : Text) : LogFile → Prop
  | created {clock : Clock} {fs fs' : FileSystem} {log : LogFile} (hs : fs.Sound)
      (hcreate : create clock path (.bySize limit backups) fs = (.ok log, fs')) :
      Worked limit backups path log
  | wrote {log : LogFile} (h : Worked limit backups path log) (clock : Clock) (entry : Text)
      (fs : FileSystem) : Worked limit backups path ((⟨log, fs, []⟩ : Work).write clock entry).2.log

namespace Worked

variable {limit : Nat} {log : LogFile}

theorem path_eq (h : Worked limit backups path log) : log.path = path := by
  induction h with
  | created hs hcreate =>
    obtain ⟨w, hopen, -, rfl⟩ := create_eq_ok_iff.mp hcreate
    obtain ⟨made, target, files, -, -, rfl⟩ := Work.openStream_ok hopen
    rfl
  | wrote h clock entry fs ih => exact (Work.write_becomes _ clock entry).1.trans ih

theorem rotation_eq (h : Worked limit backups path log) : log.rotation = .bySize limit backups := by
  induction h with
  | created hs hcreate =>
    obtain ⟨clock, size, modified, hrotation⟩ := rotation_of_create hcreate
    exact hrotation
  | @wrote log h clock entry fs ih =>
    have hbecomes := (Work.write_becomes ⟨log, fs, []⟩ clock entry).2
    rw [ih] at hbecomes
    generalize ((⟨log, fs, []⟩ : Work).write clock entry).2.log.rotation = rotation at hbecomes
    cases hbecomes
    rfl

theorem known (h : Worked limit backups path log) (hname : 0 ∉ FilePath.fileName path) :
    ∃ fs dir name, Site fs path dir name := by
  induction h with
  | created hs hcreate =>
    obtain ⟨made, dir, name, target, -, -, -, hsite, -, -, -⟩ :=
      create_ok hs (nul_not_mem_of_create hs hname hcreate) hcreate
    exact ⟨made, dir, name, hsite⟩
  | wrote h clock entry fs ih => exact ih

theorem appends (h : Worked limit backups path log) (hbackups : 0 < backups) :
    ∀ s, log.stream = some s → s.position = none := by
  have hreopened : ∀ (w : Work) now s, (w.reopen now false).log.stream = some s →
      s.position = none := by
    intro w now s hs
    rcases w.reopen_eq now false with ⟨target, files, -, hreopen⟩ | ⟨e, hreopen⟩
    · rw [hreopen] at hs
      cases hs
      rfl
    · rw [hreopen] at hs
      cases hs
  induction h with
  | created hs hcreate =>
    obtain ⟨w, hopen, -, rfl⟩ := create_eq_ok_iff.mp hcreate
    obtain ⟨made, target, files, -, -, rfl⟩ := Work.openStream_ok hopen
    rintro s hstream
    cases hstream
    rfl
  | @wrote log h clock entry fs ih =>
    have hready : ∀ s, ((⟨log, fs, []⟩ : Work).ready clock entry.length).log.stream = some s →
        s.position = none := by
      have hbefore : ∀ s, ((⟨log, fs, []⟩ : Work).beforeWrite clock entry.length).log.stream =
          some s → s.position = none := by
        rw [Work.beforeWrite, h.rotation_eq]
        dsimp only
        split_ifs
        · rw [Work.rotateBySize_eq hbackups]
          exact hreopened _ _
        · exact ih
      rw [Work.ready]
      split_ifs
      · exact hbefore
      · exact hreopened _ _
    rw [Work.write_eq, Work.put]
    cases hstream : ((⟨log, fs, []⟩ : Work).ready clock entry.length).log.stream with
    | none => exact hready
    | some s =>
      have hnone := hready s hstream
      dsimp only
      split_ifs
      · exact hready
      · rintro s' hs'
        cases hs'
        simp [WriteStream.advance, hnone]
      · rintro s' hs'
        cases hs'
        simp [WriteStream.advance, hnone]

/-- A rotation leaves every file its content, and adds to the open one at most what its
stream still held. Of the files in the slots below the last one, all stand in a slot
again, but those that are overrun: these stand nowhere. -/
theorem rotation_keeps {fs : FileSystem} (h : Worked limit backups path log)
    (hname : 0 ∉ FilePath.fileName path) (hbackups : 0 < backups) (hs : fs.Sound) (now : Int) :
    let rotated := (⟨log, fs, []⟩ : Work).rotateBySize now backups
    (∀ (n : Nat) (file : File), fs.files[n]? = some file → ∃ more, more <+: log.heldFor n ∧
        rotated.files.files[n]? = some (file.append more now)) ∧
      ∀ i n, i < backups → fs.stat (slotPath path i) = .ok (.file n) →
        (¬Overrun fs path backups rotated.problems i →
          ∃ j ≤ backups, rotated.files.stat (slotPath path j) = .ok (.file n)) ∧
        (Overrun fs path backups rotated.problems i →
          ∀ loc, rotated.files.node? loc ≠ some (.file n)) := by
  intro rotated
  have hrotated : rotated = ((⟨log, fs, []⟩ : Work).steps now backups).reopen now false :=
    Work.rotateBySize_eq hbackups _ now
  obtain ⟨hlog, hfiles⟩ := Work.steps_keep ⟨log, fs, []⟩ now backups
  have hclosed : ((⟨log, fs, []⟩ : Work).steps now backups).drained now =
      ((⟨log, fs, []⟩ : Work).steps now backups).files :=
    Work.drained_of_flushes (congrArg LogFile.flushes hlog) now
  have hgains := Work.reopen_gains ((⟨log, fs, []⟩ : Work).steps now backups) now
  rw [← hrotated, hclosed] at hgains
  refine ⟨fun n file hfile => ?_, fun i n hi hstat => ?_⟩
  · obtain ⟨more, hmore, hleft⟩ :=
      Work.drained_file (w := ⟨log, fs, []⟩) (h.appends hbackups) hfile now
    rw [← hfiles] at hleft
    exact ⟨more, hmore, (hgains.file (List.getElem?_eq_some_iff.mp hleft).1).trans hleft⟩
  · obtain ⟨origin, dir, name, hknown⟩ := h.known hname
    obtain ⟨hbefore, -, hnode⟩ := hknown.names_slot_of_stat hs hstat
    have hstage : Stage fs path dir name backups 0 ((⟨log, fs, []⟩ : Work).steps now backups) :=
      Stage.steps (w := ⟨log, fs, []⟩) hbefore h.path_eq rfl hbackups now
    have hlt : n < ((⟨log, fs, []⟩ : Work).steps now backups).files.files.length := by
      rw [hfiles]
      exact (Work.follows_drained (w := ⟨log, fs, []⟩) hs now).sound.inhabited
        ((congrFun (Work.node?_drained _ now) _).trans hnode)
    have hafter : OnSite path dir name rotated := hrotated ▸ hstage.offSite.reopen false
    obtain ⟨hkept, hgone, -⟩ := hstage.landed hbefore hgains hafter.site hlt hi.le hstat
    have hover : Overrun fs path backups rotated.problems i ↔
        Overrun fs path backups ((⟨log, fs, []⟩ : Work).steps now backups).problems i := by
      simp only [Overrun, MovesOn, hrotated, stepFailed_reopen]
    rw [hover]
    exact ⟨fun hnot => hkept hnot hi, hgone⟩

def obstructed : FileSystem :=
  (((FileSystem.empty.withFile [Text.ascii "a.log"] ⟨#[116, 119, 111, 10], 0⟩).withFile
    [Text.ascii "a.log.1"] ⟨#[111, 110, 101, 10], 0⟩).withDirectory
      [Text.ascii "a.log.2"]).withDirectory
    [Text.ascii "a.log.2", Text.ascii "x"]

theorem obstructed_sound : obstructed.Sound := by
  have hfile := Follows.withFile empty_sound [] (Text.ascii "a.log") rfl ⟨by decide, by decide⟩ rfl
    ⟨#[116, 119, 111, 10], 0⟩
  have hbackup := Follows.withFile hfile.sound [] (Text.ascii "a.log.1") rfl
    ⟨by decide, by decide⟩ rfl ⟨#[111, 110, 101, 10], 0⟩
  have hdirectory := Follows.withDirectory hbackup.sound [] (Text.ascii "a.log.2") rfl
    ⟨by decide, by decide⟩ rfl
  exact (Follows.withDirectory hdirectory.sound [Text.ascii "a.log.2"] (Text.ascii "x") rfl
    ⟨by decide, by decide⟩ rfl).sound

def obstructedLog : LogFile :=
  ⟨Text.ascii "a.log", some ⟨.file 0, none, none⟩, 4, .bySize 4 2⟩

theorem obstructedLog_worked : Worked 4 2 (Text.ascii "a.log") obstructedLog := by
  have hcreate : create ⟨0, 0, 0⟩ (Text.ascii "a.log") (.bySize 4 2) obstructed =
      (.ok obstructedLog, obstructed) := rfl
  exact .created obstructed_sound hcreate

/-- The first backup can leave its slot no more than the second one, and the file itself takes its
place. -/
theorem rotation_keeps_obstructed :
    let rotated := (⟨obstructedLog, obstructed, []⟩ : Work).rotateBySize 0 2
    obstructed.stat (slotPath (Text.ascii "a.log") 0) = .ok (.file 0) ∧
      obstructed.stat (slotPath (Text.ascii "a.log") 1) = .ok (.file 1) ∧
      (∃ j ≤ 2, rotated.files.stat (slotPath (Text.ascii "a.log") j) = .ok (.file 0)) ∧
      ∀ loc, rotated.files.node? loc ≠ some (.file 1) := by
  have hproblems : ((⟨obstructedLog, obstructed, []⟩ : Work).rotateBySize 0 2).problems =
      [.cannotRemoveOldest .notEmpty,
        .cannotShift (slotPath (Text.ascii "a.log") 1) .isDirectory] := rfl
  have hfirst : obstructed.stat (slotPath (Text.ascii "a.log") 0) = .ok (.file 0) := rfl
  have hsecond : obstructed.stat (slotPath (Text.ascii "a.log") 1) = .ok (.file 1) := rfl
  have hmoves : MovesOn obstructed (Text.ascii "a.log") 2
      ((⟨obstructedLog, obstructed, []⟩ : Work).rotateBySize 0 2).problems 0 := by
    refine ⟨rfl, ?_⟩
    rintro ⟨e, he⟩
    rw [hproblems] at he
    simp [stepProblem] at he
  have hfailed : StepFailed (Text.ascii "a.log") 2
      ((⟨obstructedLog, obstructed, []⟩ : Work).rotateBySize 0 2).problems 1 := by
    refine ⟨.isDirectory, ?_⟩
    rw [hproblems]
    exact List.mem_cons_of_mem _ List.mem_cons_self
  obtain ⟨-, hkept⟩ :=
    obstructedLog_worked.rotation_keeps (by decide) (by decide) obstructed_sound 0
  refine ⟨hfirst, hsecond, (hkept 0 0 (by decide) hfirst).1 ?_,
    (hkept 1 1 (by decide) hsecond).2 ?_⟩
  · rintro ⟨-, k, hk, -⟩
    cases hk
  · exact ⟨hfailed, 0, rfl, hmoves⟩

/-- The content of the first backup is gone with that rotation. -/
theorem backup_overrun : Worked 4 2 (Text.ascii "a.log") obstructedLog ∧ obstructed.Sound ∧
    obstructed.contentAt (slotPath (Text.ascii "a.log") 1) = some (Text.ascii "one\n") ∧
    ∀ e ∈ ((⟨obstructedLog, obstructed, []⟩ : Work).rotateBySize 0 2).files.tree,
      e.2.map Array.toList ≠ some (Text.ascii "one\n") := by
  refine ⟨obstructedLog_worked, obstructed_sound, by decide, fun e he => ?_⟩
  -- the listing is sorted by a recursion that does not evaluate; what is in it does
  rw [FileSystem.tree, List.mem_mergeSort] at he
  revert e
  decide

end Worked

end LogFile

end StructuredLog
