import StructuredLog.Proofs.LogFiles.Steps

/-!
# Log files that keep to places of their own

A write looks at the places of its log file and the ways to them, and changes nothing elsewhere. So
it comes out the same whatever else is there, and leaves what lives elsewhere alone. Main
statements: `keptBySteps_sameWork` and `keptBySteps_changesWithin`.
-/

namespace StructuredLog

open FileSystem LogFile Location

namespace LogFile

/-- All that the writes of a log file look at is at the places `P`, but for directories at the
places `D` on the way there. -/
structure UsesWithin (P D : Location → Prop) (path : Text) (rotation : Rotation) : Prop where
  way : ∀ loc ∈ stopsOf (FilePath.parent path), P loc ∨ D loc
  stops : ∀ {p}, Uses path rotation p → ∀ loc ∈ stopsOf p, P loc ∨ D loc
  owns : ∀ {p}, Uses path rotation p → OwnsBelow P p
  dated : ∀ {backups source period}, rotation = .daily backups source period → ∀ {name},
    Work.isDatedBackup (FilePath.fileName path) name = true →
      P (goal (FilePath.folder path) ++ [name])

variable {P D Q : Location → Prop} {A : Nat → Prop} {ρ ρ' : Nat → Nat → Prop} {path : Text}
  {start rotation : Rotation}

theorem UsesWithin.becomes (h : UsesWithin P D path start) (hbecomes : Becomes start rotation) :
    UsesWithin P D path rotation where
  way := h.way
  stops hused := h.stops (hbecomes.uses hused)
  owns hused := h.owns (hbecomes.uses hused)
  dated := by
    rintro backups source period rfl
    obtain ⟨period', rfl⟩ := hbecomes.of_daily
    exact h.dated rfl

theorem UsesWithin.folder (h : UsesWithin P D path start) :
    ∀ loc ∈ stopsOf (FilePath.folder path), P loc ∨ D loc := by
  rw [FilePath.folder]
  split_ifs
  · exact List.forall_mem_nil _
  · exact h.way

theorem isEntry_of_isDatedBackup {fileName name : Text}
    (h : Work.isDatedBackup fileName name = true)
    (dir : Location) : IsEntry (dir ++ [name]) := by
  obtain ⟨ext, rfl, hshape⟩ := Work.isDatedBackup_iff.mp h
  simp only [Work.hasDateShape, Bool.and_eq_true, beq_iff_eq] at hshape
  have hlength : 11 ≤ (extended fileName ext).length := by
    simp only [extended, List.length_append, hshape.1.1.1, FilePath.dot, List.length_singleton]
    omega
  refine isEntry_append_singleton ?_ ?_
  · intro heq
    rw [heq] at hlength
    revert hlength
    decide
  · intro heq
    rw [heq] at hlength
    revert hlength
    decide

structure SameStream (ρ : Nat → Nat → Prop) (s s' : WriteStream) : Prop where
  target : SameTarget ρ s.target s'.target
  position_eq : s.position = s'.position
  refused_eq : s.refused = s'.refused

/-- Log files at work that differ only in what they do not look at. No stream elsewhere is on a file
that they have in common; such streams are on the files numbered `A`. -/
structure SameWork (P D : Location → Prop) (A : Nat → Prop) (path : Text) (start : Rotation)
    (w w' : Work) : Prop where
  path_eq : w.log.path = path ∧ w'.log.path = path
  size_eq : w.log.size = w'.log.size
  rotation_eq : w.log.rotation = w'.log.rotation
  becomes : Becomes start w.log.rotation
  problems_eq : w.problems = w'.problems
  twin : ∃ ρ, Twin P D ρ w.files w'.files ∧
    Option.Rel (SameStream ρ) w.log.stream w'.log.stream ∧
    ∀ n, A n → n < w.files.files.length ∧ ∀ n', ¬ρ n n'

variable {w w' : Work}

theorem SameWork.isWritable_eq (h : SameWork P D A path start w w') :
    w.isWritable = w'.isWritable := by
  obtain ⟨ρ, -, hstream, -⟩ := h.twin
  rw [Work.isWritable, Work.isWritable]
  generalize w.log.stream = stream at hstream
  generalize w'.log.stream = stream' at hstream
  cases hstream with
  | none => rfl
  | some hstream => simp [WriteStream.failed, hstream.refused_eq]

theorem SameWork.withFiles (h : SameWork P D A path start w w')
    {result result' : Except FileError FileSystem}
    (hresult : ∀ {ρ}, Twin P D ρ w.files w'.files → SameResult (Twin P D ρ) result result')
    (hgrows : ∀ files, result = .ok files → w.files.files.length ≤ files.files.length) :
    SameResult (fun files files' => SameWork P D A path start { w with files := files }
      { w' with files := files' }) result result' := by
  obtain ⟨ρ, htwin, hstream, hfree⟩ := h.twin
  cases hresult htwin with
  | error e => exact .error e
  | ok hfiles =>
    refine .ok { h with twin := ⟨ρ, hfiles, hstream, fun n hn => ?_⟩ }
    exact ⟨Nat.lt_of_lt_of_le (hfree n hn).1 (hgrows _ rfl), (hfree n hn).2⟩

theorem SameWork.opened (h : SameWork P D A path start w w') {files files' : FileSystem}
    {target target' : WriteTarget} (htwin : Twin P D ρ files files')
    (htarget : SameTarget ρ target target')
    (hfree : ∀ n, A n → n < files.files.length ∧ ∀ n', ¬ρ n n')
    (hstops : ∀ loc ∈ stopsOf path, P loc ∨ D loc) (truncate : Bool) :
    SameWork P D A path start (w.opened target truncate files)
      (w'.opened target' truncate files') := by
  obtain ⟨hpath, hpath'⟩ := h.path_eq
  refine { h with size_eq := ?_, twin := ⟨ρ, htwin, .some ⟨htarget, rfl, rfl⟩, hfree⟩ }
  simp only [Work.opened, size?, hpath, hpath', htwin.fileAt?_eq hstops]

theorem SameWork.openStream (hwithin : UsesWithin P D path start)
    (h : SameWork P D A path start w w')
    (now : Int) (truncate : Bool) :
    (w.openStream now truncate).1 = (w'.openStream now truncate).1 ∧
      SameWork P D A path start (w.openStream now truncate).2 (w'.openStream now truncate).2 := by
  obtain ⟨hpath, hpath'⟩ := h.path_eq
  obtain ⟨ρ, htwin, hstream, hfree⟩ := h.twin
  obtain ⟨hresult, hmade⟩ := htwin.makeParent hwithin.way
  have hgrows : w.files.files.length ≤ (w.files.makeParent path).2.files.length :=
    (Confined.makeParent (Q := P) (A := fun _ => False) htwin.sound htwin.distinct
      fun loc hloc => (hwithin.way loc hloc).imp_right htwin.standing).grows
  have hfree' : ∀ n, A n → n < (w.files.makeParent path).2.files.length ∧ ∀ n', ¬ρ n n' :=
    fun n hn => ⟨Nat.lt_of_lt_of_le (hfree n hn).1 hgrows, (hfree n hn).2⟩
  rw [Work.openStream_eq, Work.openStream_eq, hpath, hpath']
  generalize w.files.makeParent path = made at hresult hmade hfree'
  generalize w'.files.makeParent path = made' at hresult hmade
  obtain ⟨result, made⟩ := made
  obtain ⟨result', made'⟩ := made'
  obtain rfl : result = result' := hresult
  cases result with
  | error e => exact ⟨rfl, { h with twin := ⟨ρ, hmade, hstream, hfree'⟩ }⟩
  | ok _ =>
    have hstops := hwithin.stops (.own start)
    have hgoal := (hwithin.owns (.own start)).goal
    have hopen := hmade.openFile hstops hgoal truncate now
    dsimp only
    cases hleft : made.openFile path truncate now with
    | error e =>
      rw [hleft] at hopen
      generalize made'.openFile path truncate now = opened' at hopen
      cases hopen
      exact ⟨rfl, { h with twin := ⟨ρ, hmade, hstream, hfree'⟩ }⟩
    | ok opened =>
      obtain ⟨target, files⟩ := opened
      have hgrows' := (Confined.openFile (Q := P) (A := fun _ => False) hmade.sound hmade.distinct
        hgoal hleft).1.grows
      rw [hleft] at hopen
      generalize made'.openFile path truncate now = opened' at hopen
      cases hopen with
      | ok hopened =>
        obtain ⟨ρ', hextends, htarget, hfiles⟩ := hopened
        refine ⟨rfl, h.opened hfiles htarget (fun n hn => ?_) hstops truncate⟩
        -- A file that is open elsewhere is an old one, and only new files are newly matched.
        obtain ⟨hlt, hnot⟩ := hfree' n hn
        refine ⟨Nat.lt_of_lt_of_le hlt hgrows', fun n' hn' => ?_⟩
        rcases hextends.fresh hn' with hbefore | hge
        · exact hnot n' hbefore
        · exact absurd hlt (Nat.not_lt.mpr hge)

theorem twin_write {files files' : FileSystem} (htwin : Twin P D ρ files files')
    (hfree : ∀ n, A n → n < files.files.length ∧ ∀ n', ¬ρ n n') {target target' : WriteTarget}
    (htarget : SameTarget ρ target target') (position : Option Nat) (data : Text) (now : Int) :
    Twin P D ρ (files.write target position data now) (files'.write target' position data now) ∧
      ∀ n, A n → n < (files.write target position data now).files.length ∧ ∀ n', ¬ρ n n' := by
  have hgrows : files.files.length ≤ (files.write target position data now).files.length :=
    (Confined.write (Q := P) (A := fun _ => True) htwin.sound htwin.distinct
      (fun _ _ => .inl trivial) position data now).grows
  exact ⟨htwin.write htarget position data now,
    fun n hn => ⟨Nat.lt_of_lt_of_le (hfree n hn).1 hgrows, (hfree n hn).2⟩⟩

theorem SameWork.close (h : SameWork P D A path start w w') (now : Int) :
    SameWork P D A path start (w.close now) (w'.close now) := by
  obtain ⟨ρ, htwin, hstream, hfree⟩ := h.twin
  have hdrained : Twin P D ρ (w.drained now) (w'.drained now) ∧
      ∀ n, A n → n < (w.drained now).files.length ∧ ∀ n', ¬ρ n n' := by
    rw [Work.drained, Work.drained]
    cases hleft : w.log.stream with
    | none =>
      rw [hleft] at hstream
      generalize w'.log.stream = stream' at hstream
      cases hstream
      exact ⟨htwin, hfree⟩
    | some s =>
      rw [hleft] at hstream
      cases hright : w'.log.stream with
      | none => simp [hright] at hstream
      | some s' =>
        rw [hright, Option.rel_some_some] at hstream
        obtain ⟨target, position, refused⟩ := s
        obtain ⟨target', position', refused'⟩ := s'
        obtain ⟨htarget, hposition, hrefused⟩ := hstream
        dsimp only at htarget hposition hrefused
        rw [← hposition, ← hrefused]
        cases refused with
        | none => exact ⟨htwin, hfree⟩
        | some held => exact twin_write htwin hfree htarget position held now
  exact { h with twin := ⟨ρ, hdrained.1, .none, hdrained.2⟩ }

theorem SameWork.put (h : SameWork P D A path start w w') (now : Int) (entry : Text) :
    (w.put now entry).1 = (w'.put now entry).1 ∧
      SameWork P D A path start (w.put now entry).2 (w'.put now entry).2 := by
  obtain ⟨ρ, htwin, hstream, hfree⟩ := h.twin
  rw [Work.put, Work.put]
  cases hleft : w.log.stream with
  | none =>
    rw [hleft] at hstream
    generalize w'.log.stream = stream' at hstream
    cases hstream
    exact ⟨rfl, h⟩
  | some s =>
    rw [hleft] at hstream
    cases hright : w'.log.stream with
    | none => simp [hright] at hstream
    | some s' =>
      rw [hright, Option.rel_some_some] at hstream
      obtain ⟨htarget, hposition, hrefused⟩ := hstream
      dsimp only
      rw [WriteStream.failed, WriteStream.failed, ← hrefused, ← hposition,
        ← htwin.room_eq htarget entry]
      obtain ⟨hwritten, hfree'⟩ := twin_write htwin hfree htarget s.position entry now
      split_ifs
      · exact ⟨rfl, h⟩
      · exact ⟨rfl, { h with
          size_eq := congrArg (· + entry.length) h.size_eq
          twin := ⟨ρ, hwritten, .some ⟨htarget, by simp [WriteStream.advance, hposition], hrefused⟩,
            hfree'⟩ }⟩
      · exact ⟨rfl, { h with
          twin := ⟨ρ, hwritten, .some ⟨htarget, by simp [WriteStream.advance, hposition],
            by rw [hwritten.disk]⟩, hfree'⟩ }⟩

theorem keptBySteps_sameWork (hwithin : UsesWithin P D path start) :
    KeptBySteps path start (SameWork P D A path start) where
  path_eq h := h.path_eq
  size_eq h := h.size_eq
  rotation_eq h := h.rotation_eq
  becomes h := h.becomes
  isWritable_eq h := h.isWritable_eq
  note h p := { h with problems_eq := congrArg (· ++ [p]) h.problems_eq }
  close h now := h.close now
  rotation h _ hbecomes := { h with rotation_eq := rfl, becomes := hbecomes }
  openStream h now truncate := h.openStream hwithin now truncate
  exists?_eq h _ hused := by
    obtain ⟨ρ, htwin, -, -⟩ := h.twin
    exact htwin.exists?_eq (hwithin.stops hused)
  rename h _ _ hsource htarget := by
    obtain ⟨_, htwin, -, -⟩ := h.twin
    refine h.withFiles (fun htwin => htwin.rename (hwithin.stops hsource) (hwithin.owns hsource)
      (hwithin.stops htarget) (hwithin.owns htarget)) fun files hrename => ?_
    exact (Confined.rename (A := fun _ => False) htwin.sound htwin.distinct (hwithin.owns hsource)
      (hwithin.owns htarget) hrename).grows
  remove h _ hused := by
    obtain ⟨_, htwin, -, -⟩ := h.twin
    refine h.withFiles (fun htwin => htwin.remove (hwithin.stops hused) (hwithin.owns hused))
      fun files hremove => ?_
    exact (Confined.remove (A := fun _ => False) htwin.sound htwin.distinct
      (hwithin.owns hused).goal hremove).grows
  list h _ _ _ hstart := by
    obtain ⟨ρ, htwin, -, -⟩ := h.twin
    exact htwin.list_perm hwithin.folder (fun name hname => isEntry_of_isDatedBackup hname _)
      fun name hname => hwithin.dated hstart hname
  put h now entry := h.put now entry

/-- What a log file that lives at the places `Q` has done to the files `fs` is confined to these
places and to the files numbered `A`, which all that it has open are among. -/
structure ChangesWithin (Q : Location → Prop) (A : Nat → Prop) (path : Text) (start : Rotation)
    (fs : FileSystem) (w : Work) : Prop where
  path_eq : w.log.path = path
  becomes : Becomes start w.log.rotation
  confined : Confined Q A fs w.files
  stream : ∀ s n, w.log.stream = some s → s.target = .file n → A n ∧ n < w.files.files.length

structure Covers (Q : Location → Prop) (A : Nat → Prop) (fs : FileSystem) : Prop where
  standing : ∀ {loc n}, Q loc → fs.node? loc = some (.file n) → A n
  fresh : ∀ {n}, fs.files.length ≤ n → A n

theorem Covers.confined {fs fs' : FileSystem} (h : Covers Q A fs) (hc : Confined Q A fs fs') :
    Covers Q A fs' where
  standing := by
    intro loc n hloc hnode
    rcases Nat.lt_or_ge n fs.files.length with hlt | hge
    · obtain ⟨loc', hloc', hbefore⟩ := hc.moved hloc hnode hlt
      exact h.standing hloc' hbefore
    · exact h.fresh hge
  fresh hn := h.fresh (hc.grows.trans hn)

section

variable {fs : FileSystem}

theorem ChangesWithin.withFiles (h : ChangesWithin Q A path start fs w) {files : FileSystem}
    (hc : Confined Q A w.files files) : ChangesWithin Q A path start fs { w with files := files } :=
  { h with
    confined := h.confined.trans hc
    stream := fun s n hs hn =>
      (h.stream s n hs hn).imp_right fun hlt => Nat.lt_of_lt_of_le hlt hc.grows }

theorem ChangesWithin.openStream (hwithin : UsesWithin Q D path start) (hcovers : Covers Q A fs)
    (hstanding : ∀ {loc}, D loc → fs.node? loc = some .directory ∧ ¬Q loc)
    (h : ChangesWithin Q A path start fs w) (now : Int) (truncate : Bool) :
    ChangesWithin Q A path start fs (w.openStream now truncate).2 := by
  have hdirectory : ∀ {loc}, D loc → w.files.node? loc = some .directory := fun hloc =>
    (h.confined.node (hstanding hloc).2).trans (hstanding hloc).1
  have hmade : Confined Q A w.files (w.files.makeParent path).2 :=
    .makeParent h.confined.sound h.confined.distinct fun loc hloc =>
      (hwithin.way loc hloc).imp_right hdirectory
  rw [Work.openStream_eq, h.path_eq]
  generalize w.files.makeParent path = made at hmade
  obtain ⟨result, made⟩ := made
  cases result with
  | error e => exact h.withFiles hmade
  | ok _ =>
    dsimp only at hmade ⊢
    cases hopen : made.openFile path truncate now with
    | error e => exact h.withFiles hmade
    | ok opened =>
      obtain ⟨target, files⟩ := opened
      have hgoal := (hwithin.owns (.own start)).goal
      obtain ⟨hopened, hnode⟩ :=
        Confined.openFile (A := A) hmade.sound hmade.distinct hgoal hopen
      have hall : Confined Q A fs files := (h.confined.trans hmade).trans hopened
      refine ⟨h.path_eq, h.becomes, hall, fun s n hs hn => ?_⟩
      cases hs
      have hstands := hnode n hn
      exact ⟨(hcovers.confined hall).standing hgoal hstands, hall.sound.inhabited hstands⟩

theorem ChangesWithin.write (h : ChangesWithin Q A path start fs w) {s : WriteStream}
    (hstream : w.log.stream = some s) (position : Option Nat) (data : Text) (now : Int) :
    ChangesWithin Q A path start fs { w with files := w.files.write s.target position data now } :=
  h.withFiles (.write h.confined.sound h.confined.distinct
    (fun n hn => .inl (h.stream s n hstream hn).1) position data now)

theorem ChangesWithin.close (h : ChangesWithin Q A path start fs w) (now : Int) :
    ChangesWithin Q A path start fs (w.close now) := by
  have hdrained : ChangesWithin Q A path start fs { w with files := w.drained now } := by
    rw [Work.drained]
    split
    · exact h.write (by assumption) _ _ _
    · exact h
  exact { hdrained with stream := fun s n hs => absurd hs.symm (Option.some_ne_none s) }

theorem ChangesWithin.put (h : ChangesWithin Q A path start fs w) (now : Int) (entry : Text) :
    ChangesWithin Q A path start fs (w.put now entry).2 := by
  rw [Work.put]
  cases hstream : w.log.stream with
  | none => exact h
  | some s =>
    have hwritten := h.write hstream s.position entry now
    have hopen := hwritten.stream s
    dsimp only
    split_ifs
    · exact h
    · refine { hwritten with stream := fun s' n hs hn => ?_ }
      cases hs
      exact hopen n hstream hn
    · refine { hwritten with stream := fun s' n hs hn => ?_ }
      cases hs
      exact hopen n hstream hn

theorem keptBySteps_changesWithin (hwithin : UsesWithin Q D path start) (hcovers : Covers Q A fs)
    (hstanding : ∀ {loc}, D loc → fs.node? loc = some .directory ∧ ¬Q loc) :
    KeptBySteps path start fun w w' => w = w' ∧ ChangesWithin Q A path start fs w where
  path_eq := by
    rintro w _ ⟨rfl, h⟩
    exact ⟨h.path_eq, h.path_eq⟩
  size_eq h := congrArg (·.log.size) h.1
  rotation_eq h := congrArg (·.log.rotation) h.1
  becomes h := h.2.becomes
  isWritable_eq h := congrArg (·.isWritable) h.1
  note := by
    rintro w _ ⟨rfl, h⟩ p
    exact ⟨rfl, { h with }⟩
  close := by
    rintro w _ ⟨rfl, h⟩ now
    exact ⟨rfl, h.close now⟩
  rotation := by
    rintro w _ ⟨rfl, h⟩ rotation hbecomes
    exact ⟨rfl, { h with becomes := hbecomes }⟩
  openStream := by
    rintro w _ ⟨rfl, h⟩ now truncate
    exact ⟨rfl, rfl, h.openStream hwithin hcovers hstanding now truncate⟩
  exists?_eq h _ _ := by rw [h.1]
  rename := by
    rintro w _ ⟨rfl, h⟩ p q hp hq
    refine .refl fun files hrename => ⟨rfl, h.withFiles ?_⟩
    exact .rename h.confined.sound h.confined.distinct (hwithin.owns hp) (hwithin.owns hq) hrename
  remove := by
    rintro w _ ⟨rfl, h⟩ p hp
    refine .refl fun files hremove => ⟨rfl, h.withFiles ?_⟩
    exact .remove h.confined.sound h.confined.distinct (hwithin.owns hp).goal hremove
  list := by
    rintro w _ ⟨rfl, h⟩ backups source period hstart
    exact .refl fun names _ => List.Perm.refl _
  put := by
    rintro w _ ⟨rfl, h⟩ now entry
    exact ⟨rfl, rfl, h.put now entry⟩

end

end LogFile

end StructuredLog
