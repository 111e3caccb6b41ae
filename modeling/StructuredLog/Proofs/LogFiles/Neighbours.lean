import StructuredLog.Proofs.LogFiles.Territories

/-!
# Log files side by side

Several log files in one directory whose territories are apart. A write of one changes nothing
outside of its territory and leaves the way to the others as it was. So the others see the same as
without it. Main statements: `EachAtSite.write`, `EachAtSite.item?_write` and `SeesSame.other`.
-/

namespace StructuredLog

open FileSystem LogFile Location

inductive Item where
  | directory
  | special (kind : SpecialFile)
  | file (f : File)
  deriving DecidableEq

namespace FileSystem

def item? (fs : FileSystem) (loc : Location) : Option Item :=
  match fs.node? loc with
  | none => none
  | some .directory => some .directory
  | some (.special kind) => some (.special kind)
  | some (.file n) => fs.files[n]?.map .file

variable {P D Q : Location → Prop} {A : Nat → Prop} {ρ : Nat → Nat → Prop} {fs fs' : FileSystem}
  {loc : Location}

theorem Confined.item?_eq (hs : fs.Sound) (hc : Confined Q A fs fs') (hloc : ¬Q loc)
    (hA : ∀ n, fs.node? loc = some (.file n) → ¬A n) : fs'.item? loc = fs.item? loc := by
  have hnode := hc.node hloc
  rw [item?, item?, hnode]
  cases hstands : fs.node? loc with
  | none => rfl
  | some node =>
    cases node with
    | directory => rfl
    | special kind => rfl
    | file n =>
      have hfile : fs'.files[n]? = fs.files[n]? := by
        refine hc.file (hs.inhabited hstands) (hA n hstands) fun other hother hnode => ?_
        exact hloc (hs.injective hstands hnode ▸ hother)
      dsimp only
      rw [hfile]

theorem Twin.item?_eq (h : Twin P D ρ fs fs') (hloc : P loc) : fs.item? loc = fs'.item? loc := by
  rw [item?, item?]
  rcases SameNode.rel_cases (h.node hloc) with ⟨hleft, hright⟩ | ⟨node, node', hleft, hright, hnode⟩
  · rw [hleft, hright]
  · rw [hleft, hright]
    cases hnode with
    | directory => rfl
    | special kind => rfl
    | file hn =>
      obtain ⟨file, hfile, hfile'⟩ := h.file hn
      dsimp only
      rw [hfile, hfile']

end FileSystem

namespace LogFile

def HasOpen (log : LogFile) (n : Nat) : Prop := ∃ s, log.stream = some s ∧ s.target = .file n

structure Cabinet (ι : Type) where
  logs : ι → LogFile
  files : FileSystem

variable {ι : Type}

/-- Paths to names in one directory, with rotations to start from, that keep log files apart. -/
structure Neighbours (dir : Location) (path name : ι → Text) (start : ι → Rotation) : Prop where
  way : ∀ i j, Location.start (path i) = Location.start (path j) ∧
    (FilePath.components (path i)).dropLast = (FilePath.components (path j)).dropLast
  apart : ∀ {i j loc}, Territory dir (name i) loc → Territory dir (name j) loc → i = j
  dated : ∀ i, IsDated (start i)
  spares : ∀ i, SparesWay (start i) (path i)

/-- The log files are at their paths. Each has open what stands in its own territory, if anywhere,
and what no other has open. -/
structure EachAtSite (dir : Location) (path name : ι → Text) (start : ι → Rotation)
    (s : Cabinet ι) :
    Prop where
  distinct : s.files.Distinct
  site : ∀ i, Site s.files (path i) dir (name i)
  path_eq : ∀ i, (s.logs i).path = path i
  becomes : ∀ i, Becomes (start i) (s.logs i).rotation
  opens : ∀ i n, (s.logs i).HasOpen n → n < s.files.files.length ∧
    ∀ loc, s.files.node? loc = some (.file n) → Territory dir (name i) loc
  exclusive : ∀ i j n, (s.logs i).HasOpen n → (s.logs j).HasOpen n → i = j

def Own (dir : Location) (name : ι → Text) (i : ι) (s : Cabinet ι) (n : Nat) : Prop :=
  (∀ loc, s.files.node? loc = some (.file n) → Territory dir (name i) loc) ∧
    ∀ j, j ≠ i → ¬(s.logs j).HasOpen n

/-- One of the log files sees the same in two runs, and has open what no other has. -/
def SeesSame (dir : Location) (path name : ι → Text) (start : ι → Rotation) (i : ι)
    (s s' : Cabinet ι) :
    Prop :=
  SameWork (Territory dir (name i)) (Approach (path i) dir (name i))
    (fun n => ∃ j, j ≠ i ∧ (s.logs j).HasOpen n) (path i) (start i) ⟨s.logs i, s.files, []⟩
    ⟨s'.logs i, s'.files, []⟩

variable {dir : Location} {path name : ι → Text} {start : ι → Rotation} {s s' : Cabinet ι} {i j : ι}
  {A : Nat → Prop}

theorem EachAtSite.sound (h : EachAtSite dir path name start s) (i : ι) : s.files.Sound :=
  (h.site i).sound

theorem EachAtSite.usesWithin (h : EachAtSite dir path name start s)
    (hn : Neighbours dir path name start) (i : ι) :
    UsesWithin (Territory dir (name i)) (Approach (path i) dir (name i)) (path i) (start i) :=
  usesWithin_territory (h.site i) (hn.dated i)

theorem EachAtSite.own (h : EachAtSite dir path name start s) {n : Nat}
    (hopen : (s.logs i).HasOpen n) :
    Own dir name i s n :=
  ⟨(h.opens i n hopen).2, fun j hj hopen' => hj (h.exclusive j i n hopen' hopen)⟩

theorem EachAtSite.covers (h : EachAtSite dir path name start s)
    (hn : Neighbours dir path name start)
    (i : ι) : Covers (Territory dir (name i)) (Own dir name i s) s.files where
  standing hloc hnode :=
    ⟨fun _ hnode' => (h.sound i).injective hnode hnode' ▸ hloc,
      fun j hj hopen => hj (hn.apart ((h.opens j _ hopen).2 _ hnode) hloc)⟩
  fresh hnew :=
    ⟨fun _ hnode => absurd ((h.sound i).inhabited hnode) (Nat.not_lt.mpr hnew),
      fun j _ hopen => absurd (h.opens j _ hopen).1 (Nat.not_lt.mpr hnew)⟩

theorem EachAtSite.seesSame (h : EachAtSite dir path name start s)
    (hn : Neighbours dir path name start)
    (i : ι) : SeesSame dir path name start i s s := by
  have htwin : Twin (Territory dir (name i)) (Approach (path i) dir (name i)) (fun n n' => n = n' ∧
      ((s.logs i).HasOpen n ∨ ∃ loc, Territory dir (name i) loc ∧
        s.files.node? loc = some (.file n)))
      s.files s.files :=
    .self (h.sound i) h.distinct (fun hloc happroach => happroach.2 hloc)
      (fun happroach => (h.site i).standing _ happroach.1) (h.opens i _)
  refine ⟨⟨h.path_eq i, h.path_eq i⟩, rfl, rfl, h.becomes i, rfl, _, htwin, ?_, ?_⟩
  · cases hstream : (s.logs i).stream with
    | none => exact .none
    | some st =>
      refine .some ⟨?_, rfl, rfl⟩
      cases htarget : st.target with
      | special kind => exact .special kind
      | file n => exact .file ⟨rfl, .inl ⟨st, hstream, htarget⟩⟩
  · rintro n ⟨j, hj, hopen⟩
    refine ⟨(h.opens j n hopen).1, ?_⟩
    rintro n' ⟨-, hown | ⟨loc, hloc, hnode⟩⟩
    · exact hj (h.exclusive j i n hopen hown)
    · exact hj (hn.apart ((h.opens j n hopen).2 loc hnode) hloc)

theorem SeesSame.item?_eq (hb : SeesSame dir path name start i s s') {loc : Location}
    (hloc : Territory dir (name i) loc) : s.files.item? loc = s'.files.item? loc := by
  obtain ⟨ρ, htwin, -⟩ := hb.twin
  exact htwin.item?_eq hloc

theorem EachAtSite.standing (h : EachAtSite dir path name start s) (i : ι) {loc : Location}
    (hloc : Approach (path i) dir (name i) loc) :
    s.files.node? loc = some .directory ∧ ¬Territory dir (name i) loc :=
  ⟨(h.site i).standing loc hloc.1, hloc.2⟩

theorem EachAtSite.changesWithin (h : EachAtSite dir path name start s)
    (hn : Neighbours dir path name start)
    (hcovers : Covers (Territory dir (name i)) A s.files) (hopens : ∀ n, (s.logs i).HasOpen n → A n)
    (clock : Clock) (entry : Text) :
    ChangesWithin (Territory dir (name i)) A (path i) (start i) s.files
      (Work.write clock entry ⟨s.logs i, s.files, []⟩).2 := by
  have hstart : ChangesWithin (Territory dir (name i)) A (path i) (start i) s.files
      ⟨s.logs i, s.files, []⟩ :=
    ⟨h.path_eq i, h.becomes i, .refl (h.sound i) h.distinct, fun st n hst hn =>
      ⟨hopens n ⟨st, hst, hn⟩, (h.opens i n ⟨st, hst, hn⟩).1⟩⟩
  have hkept := keptBySteps_changesWithin (h.usesWithin hn i) hcovers (h.standing i)
  exact (hkept.write ⟨rfl, hstart⟩ clock
    entry).2.2

theorem EachAtSite.changesWithin_write (h : EachAtSite dir path name start s)
    (hn : Neighbours dir path name start)
    (i : ι) (clock : Clock) (entry : Text) :
    ChangesWithin (Territory dir (name i)) (Own dir name i s) (path i) (start i) s.files
      (Work.write clock entry ⟨s.logs i, s.files, []⟩).2 :=
  h.changesWithin hn (h.covers hn i) (fun _ hopen => h.own hopen) clock entry

theorem EachAtSite.item?_eq (h : EachAtSite dir path name start s) {w : Work}
    (hchanges : ChangesWithin (Territory dir (name i)) (Own dir name i s) (path i)
      (start i) s.files w)
    {loc : Location} (hloc : ¬Territory dir (name i) loc) : w.files.item? loc = s.files.item? loc :=
  hchanges.confined.item?_eq (h.sound i) hloc fun _ hnode hown => hloc (hown.1 loc hnode)

variable [DecidableEq ι]

def Cabinet.put (s : Cabinet ι) (i : ι) (w : Work) : Cabinet ι :=
  ⟨Function.update s.logs i w.log, w.files⟩

def Cabinet.write (s : Cabinet ι) (i : ι) (clock : Clock) (entry : Text) : Cabinet ι :=
  s.put i (Work.write clock entry ⟨s.logs i, s.files, []⟩).2

theorem logs_put_of_ne (hne : j ≠ i) (w : Work) : (s.put i w).logs j = s.logs j :=
  Function.update_of_ne hne _ _

theorem logs_put_self (w : Work) : (s.put i w).logs i = w.log := Function.update_self _ _ _

namespace EachAtSite

theorem put (h : EachAtSite dir path name start s) (hn : Neighbours dir path name start) {w : Work}
    (hchanges : ChangesWithin (Territory dir (name i)) (Own dir name i s) (path i)
      (start i) s.files w)
    (hsite : ∀ j, Site w.files (path j) dir (name j)) :
    EachAtSite dir path name start (s.put i w) := by
  have hown : ∀ {n}, w.log.HasOpen n → Own dir name i s n ∧ n < w.files.files.length :=
    fun ⟨st, hst, htarget⟩ => hchanges.stream st _ hst htarget
  refine ⟨hchanges.confined.distinct, hsite, fun j => ?_, fun j => ?_, fun j n hopen => ?_,
    fun j k n hopen hopen' => ?_⟩
  · by_cases hj : j = i
    · rw [hj, logs_put_self]
      exact hchanges.path_eq
    · rw [logs_put_of_ne hj]
      exact h.path_eq j
  · by_cases hj : j = i
    · rw [hj, logs_put_self]
      exact hchanges.becomes
    · rw [logs_put_of_ne hj]
      exact h.becomes j
  · by_cases hj : j = i
    · rw [hj, logs_put_self] at hopen
      obtain ⟨⟨hall, -⟩, hlt⟩ := hown hopen
      refine ⟨hlt, fun loc hnode => ?_⟩
      rw [hj]
      by_contra hloc
      exact hloc (hall loc ((hchanges.confined.node hloc).symm.trans hnode))
    · rw [logs_put_of_ne hj] at hopen
      obtain ⟨hlt, hall⟩ := h.opens j n hopen
      refine ⟨Nat.lt_of_lt_of_le hlt hchanges.confined.grows, fun loc hnode => ?_⟩
      by_cases hloc : Territory dir (name i) loc
      · -- What stands there now was there before, so it is no file of a neighbour.
        obtain ⟨loc', hloc', hbefore⟩ := hchanges.confined.moved hloc hnode hlt
        exact absurd (hn.apart (hall loc' hbefore) hloc') hj
      · exact hall loc ((hchanges.confined.node hloc).symm.trans hnode)
  · by_cases hj : j = i
    · by_cases hk : k = i
      · rw [hj, hk]
      · rw [hj, logs_put_self] at hopen
        rw [logs_put_of_ne hk] at hopen'
        exact absurd hopen' ((hown hopen).1.2 k hk)
    · by_cases hk : k = i
      · rw [hk, logs_put_self] at hopen'
        rw [logs_put_of_ne hj] at hopen
        exact absurd hopen ((hown hopen').1.2 j hj)
      · rw [logs_put_of_ne hj] at hopen
        rw [logs_put_of_ne hk] at hopen'
        exact h.exclusive j k n hopen hopen'

theorem item?_write (h : EachAtSite dir path name start s) (hn : Neighbours dir path name start)
    (clock : Clock) (entry : Text) {loc : Location} (hloc : ¬Territory dir (name i) loc) :
    (s.write i clock entry).files.item? loc = s.files.item? loc :=
  h.item?_eq (h.changesWithin_write hn i clock entry) hloc

theorem site_write (h : EachAtSite dir path name start s) (hn : Neighbours dir path name start)
    (i j : ι) (clock : Clock) (entry : Text) :
    Site (s.write i clock entry).files (path j) dir (name j) := by
  have honsite : OnSite (path i) dir (name i) ⟨s.logs i, s.files, []⟩ := ⟨h.path_eq i, h.site i⟩
  have hwritten := (honsite.write ((hn.spares i).becomes (h.becomes i)) clock entry).site
  obtain ⟨-, front, r⟩ := hwritten.names.route
  have hwalk := r.walk_eq
  rw [← r.dropLast_components, (hn.way i j).1, (hn.way i j).2] at hwalk
  exact (h.site j).of_walk hwritten.sound hwalk

theorem write (h : EachAtSite dir path name start s) (hn : Neighbours dir path name start) (i : ι)
    (clock : Clock) (entry : Text) : EachAtSite dir path name start (s.write i clock entry) :=
  h.put hn (h.changesWithin_write hn i clock entry) fun j => h.site_write hn i j clock entry

end EachAtSite

namespace SeesSame

theorem put {w w' : Work} (h : SameWork (Territory dir (name i)) (Approach (path i) dir (name i))
      (fun n => ∃ j, j ≠ i ∧ (s.logs j).HasOpen n) (path i) (start i) w w') :
    SeesSame dir path name start i (s.put i w) (s'.put i w') := by
  have hothers : (fun n => ∃ j, j ≠ i ∧ ((s.put i w).logs j).HasOpen n) =
      fun n => ∃ j, j ≠ i ∧ (s.logs j).HasOpen n := by
    funext n
    refine propext (exists_congr fun j => and_congr_right fun hj => ?_)
    rw [logs_put_of_ne hj]
  rw [SeesSame, hothers, logs_put_self, logs_put_self]
  exact { h with problems_eq := rfl }

theorem own (hb : SeesSame dir path name start i s s') (h : EachAtSite dir path name start s)
    (hn : Neighbours dir path name start) (clock : Clock) (entry : Text) :
    SeesSame dir path name start i (s.write i clock entry) (s'.write i clock entry) :=
  put ((keptBySteps_sameWork (h.usesWithin hn i)).write hb clock entry).2

theorem other (hb : SeesSame dir path name start i s s') (h : EachAtSite dir path name start s)
    (hn : Neighbours dir path name start) (hj : j ≠ i) (clock : Clock) (entry : Text) :
    SeesSame dir path name start i (s.write j clock entry) s' := by
  obtain ⟨ρ, htwin, hstream, hfree⟩ := hb.twin
  have hforeign : ∀ {loc}, Territory dir (name j) loc → ¬Territory dir (name i) loc :=
    fun hloc hloc' => hj (hn.apart hloc hloc')
  have hcovers : Covers (Territory dir (name j)) (fun n => ∀ n', ¬ρ n n') s.files := by
    refine ⟨fun {loc n} hloc hnode n' hρ => ?_, fun {n} hnew n' hρ => ?_⟩
    · exact hforeign hloc (htwin.within hρ hnode)
    · exact absurd (htwin.lt_length hρ).1 (Nat.not_lt.mpr hnew)
  have hchanges :=
    h.changesWithin hn hcovers (fun n hopen => (hfree n ⟨j, hj, hopen⟩).2) clock entry
  have hstanding : ∀ {loc}, Approach (path i) dir (name i) loc →
      (s.write j clock entry).files.node? loc = some .directory :=
    fun hloc => (h.site_write hn j i clock entry).standing _ hloc.1
  have hstays : Confined (Territory dir (name j)) (fun _ => False) s'.files s'.files :=
    .refl htwin.sound' htwin.distinct'
  have htwin' := htwin.elsewhere_of_standing hchanges.confined hstays hforeign hstanding
    htwin.standing' fun hρ => ⟨fun hnot => hnot _ hρ, id⟩
  rw [Cabinet.write, SeesSame, logs_put_of_ne hj.symm]
  refine { hb with twin := ⟨ρ, htwin', hstream, ?_⟩ }
  rintro n ⟨k, hk, hopen⟩
  by_cases hkj : k = j
  · rw [hkj, logs_put_self] at hopen
    obtain ⟨st, hst, htarget⟩ := hopen
    exact (hchanges.stream st n hst htarget).symm
  · rw [logs_put_of_ne hkj] at hopen
    obtain ⟨hlt, hnot⟩ := hfree n ⟨k, hk, hopen⟩
    exact ⟨Nat.lt_of_lt_of_le hlt hchanges.confined.grows, hnot⟩

end SeesSame

end LogFile

end StructuredLog
