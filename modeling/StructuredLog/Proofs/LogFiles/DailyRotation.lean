import StructuredLog.Proofs.Files.Contents
import StructuredLog.Proofs.LogFiles.Reopening

/-!
# Daily log files that share a path

Any number of log files may be open at one path, each with its own period, and each rotates to the
backup of its own date. A stream follows its file when another log file moves it. A run is recorded
with the file that took each entry and the file that each rotation moved, and an entry is still in
one of the files exactly if no later rotation used the date to which its file was moved.
-/

namespace StructuredLog

open LogFile FileSystem

theorem Calendar.isDateOctet_of_mem_text {d : Calendar.Date} {b : UInt8} (h : b ∈ d.text) :
    Work.isDateOctet b = true := by
  have hdigit : ∀ {width n}, b ∈ Decimal.padded width n → Work.isDateOctet b = true := by
    intro width n hb
    simp [Work.isDateOctet, Decimal.isDigit_of_mem_padded hb]
  have hdash : b = 45 → Work.isDateOctet b = true := by
    rintro rfl
    rfl
  simp only [Calendar.Date.text, List.mem_append, List.mem_singleton] at h
  rcases h with (((hyear | hb) | hb) | hb) | hb
  · cases hyear' : d.year with
    | ofNat n =>
      rw [hyear'] at hyear
      exact hdigit hyear
    | negSucc n =>
      rw [hyear'] at hyear
      rcases List.mem_cons.mp hyear with hb | hb
      · exact hdash hb
      · exact hdigit hb
  · exact hdash hb
  · exact hdigit hb
  · exact hdash hb
  · exact hdigit hb

theorem Instant.isLabel_localDate (offset : Int) (t : Instant) :
    FilePath.IsLabel (localDate offset t) where
  ne_nil := by simp [localDate, Calendar.Date.text]
  nul_not_mem := fun h => absurd (Calendar.isDateOctet_of_mem_text h) (by decide)
  slash_not_mem := fun h => absurd (Calendar.isDateOctet_of_mem_text h) (by decide)

structure Shared where
  files : FileSystem
  handlers : List LogFile
  ledger : List (Nat × Text)
  rotated : List (Text × Nat)

inductive Use where
  | open (clock : Clock) (source : TimeSource)
  | write (handler : Nat) (clock : Clock) (entry : Text)

def Use.entry? : Use → Option Text
  | .open _ _ => none
  | .write _ _ entry => some entry

def LogFile.fileNumber? (log : LogFile) : Option Nat :=
  match log.stream with
  | some ⟨.file n, _, _⟩ => some n
  | _ => none

def LogFile.dueDate? (log : LogFile) (clock : Clock) : Option Text :=
  match log.rotation with
  | .daily _ source period =>
    if source.now clock < period.rollover then none else some period.date
  | _ => none

namespace Shared

def start (files : FileSystem) : Shared := ⟨files, [], [], []⟩

def rotation? (s : Shared) (log : LogFile) (clock : Clock) : Option (Text × Nat) :=
  match log.dueDate? clock, s.files.stat log.path with
  | some date, .ok (.file n) => some (date, n)
  | _, _ => none

/-- One use of a path by log files that keep all backups. There is no next state if an operation
fails or what stands at the path is no regular file. -/
def step? (path : Text) (s : Shared) : Use → Option Shared
  | .open clock source =>
    match create clock path (.daily 0 source) s.files with
    | (.ok log, files) =>
      if log.fileNumber?.isSome then some { s with files := files, handlers := s.handlers ++ [log] }
      else none
    | (.error _, _) => none
  | .write i clock entry =>
    match s.handlers[i]? with
    | none => none
    | some log =>
      match Work.write clock entry ⟨log, s.files, []⟩ with
      | (true, ⟨log', files, []⟩) =>
        some {
          files := files
          handlers := s.handlers.set i log'
          ledger := s.ledger ++ log'.fileNumber?.toList.map fun n => (n, entry)
          rotated := s.rotated ++ (s.rotation? log clock).toList }
      | _ => none

def run? (path : Text) : List Use → Shared → Option Shared
  | [], s => some s
  | use :: uses, s => (s.step? path use).bind (run? path uses)

/-- The entry is in the file that took it, and that file is the one at the path or its backup for
some local date. -/
def Keeps (s : Shared) (path : Text) (x : Nat × Text) : Prop :=
  ∃ p, (p = path ∨ ∃ offset t, p = Work.datedBackup path (Instant.localDate offset t)) ∧
    s.files.stat p = .ok (.file x.1) ∧
    ∃ file, s.files.files[x.1]? = some file ∧ x.2 <:+: file.content.toList

/-- The file was moved to a date that a later rotation used again. -/
def Overwritten (rotated : List (Text × Nat)) (n : Nat) : Prop :=
  ∃ before date after, rotated = before ++ (date, n) :: after ∧ date ∈ after.map (·.1)

theorem not_overwritten_of_nodup {rotated : List (Text × Nat)} (h : (rotated.map (·.1)).Nodup)
    (n : Nat) : ¬Overwritten rotated n := by
  rintro ⟨before, date, after, rfl, hagain⟩
  rw [List.map_append, List.map_cons, List.nodup_append] at h
  exact (List.nodup_cons.mp h.2.1).1 hagain

def Known (s : Shared) (loc : Location) (n : Nat) : Prop :=
  s.files.node? loc = some (.file n) ∨ ∃ date, (date, n) ∈ s.rotated

structure AppendsToKnown (s : Shared) (path : Text) (loc : Location) (log : LogFile) : Prop where
  path_eq : log.path = path
  stream : ∃ n, log.stream = some ⟨.file n, none, none⟩ ∧ s.Known loc n
  rotation : ∃ source offset t rollover,
    log.rotation = .daily 0 source ⟨Instant.localDate offset t, rollover⟩

/-- What a rotation left behind: the file it moved stands at the backup of the date, unless a
later rotation used the date again; then the file is gone. -/
structure Moved (s : Shared) (path : Text) (dir : Location) (name date : Text) (n : Nat)
    (after : List (Text × Nat)) : Prop where
  exists_file : n < s.files.files.length
  isDate : ∃ offset t, date = Instant.localDate offset t
  names : s.files.Names (Work.datedBackup path date) dir (extended name date)
  stands : date ∉ after.map (·.1) → s.files.node? (dir ++ [extended name date]) = some (.file n)
  gone : date ∈ after.map (·.1) → ∀ loc, s.files.node? loc ≠ some (.file n)

theorem AppendsToKnown.imp {s s' : Shared} {path : Text} {loc : Location} {log : LogFile}
    (h : s.AppendsToKnown path loc log) (hknown : ∀ n, s.Known loc n → s'.Known loc n) :
    s'.AppendsToKnown path loc log := by
  obtain ⟨hpath, ⟨n, hstream, hn⟩, hrotation⟩ := h
  exact ⟨hpath, ⟨n, hstream, hknown n hn⟩, hrotation⟩

theorem Moved.congr {s s' : Shared} {path : Text} {dir : Location} {name date : Text} {n : Nat}
    {after : List (Text × Nat)} (h : s.Moved path dir name date n after)
    (hfiles : s'.files = s.files) : s'.Moved path dir name date n after := by
  obtain ⟨hexists, hdate, hnames, hstands, hgone⟩ := h
  rw [← hfiles] at hexists hnames hstands hgone
  exact ⟨hexists, hdate, hnames, hstands, hgone⟩

structure Rotates (s : Shared) (path : Text) (dir : Location) (name date : Text) (current : Nat)
    (now : Int) (files : FileSystem) : Prop where
  stands : s.files.node? (dir ++ [name]) = some (.file current)
  isDate : ∃ offset t, date = Instant.localDate offset t
  names : s.files.Names (Work.datedBackup path date) dir (extended name date)
  follows : Follows s.files files
  files_eq : files.files = s.files.files ++ [⟨#[], now⟩]
  node?_eq : files.node? = Function.update
    (Function.update s.files.node? (dir ++ [extended name date]) (some (.file current)))
    (dir ++ [name]) (some (.file s.files.files.length))

section Rotates

variable {s : Shared} {path : Text} {dir : Location} {name date : Text} {current : Nat} {now : Int}
  {files : FileSystem}

theorem backup_ne (dir : Location) (name date : Text) :
    dir ++ [extended name date] ≠ dir ++ [name] :=
  fun heq => extended_ne (List.singleton_inj.mp (List.append_inj' heq rfl).2)

theorem Rotates.length_le (hr : s.Rotates path dir name date current now files) :
    s.files.files.length ≤ files.files.length := by
  rw [hr.files_eq, List.length_append]
  exact Nat.le_add_right _ _

theorem Rotates.node?_self (hr : s.Rotates path dir name date current now files) :
    files.node? (dir ++ [name]) = some (.file s.files.files.length) := by
  rw [hr.node?_eq, Function.update_self]

theorem Rotates.node?_backup (hr : s.Rotates path dir name date current now files) :
    files.node? (dir ++ [extended name date]) = some (.file current) := by
  rw [hr.node?_eq, Function.update_of_ne (backup_ne dir name date), Function.update_self]

theorem Rotates.node?_other (hr : s.Rotates path dir name date current now files) {other : Text}
    (hne : other ≠ date) :
    files.node? (dir ++ [extended name other]) = s.files.node? (dir ++ [extended name other]) := by
  have hother : dir ++ [extended name other] ≠ dir ++ [extended name date] := fun heq =>
    hne (extended_injective (List.singleton_inj.mp (List.append_inj' heq rfl).2))
  rw [hr.node?_eq, Function.update_of_ne (backup_ne dir name other), Function.update_of_ne hother]

theorem Rotates.node?_before (hr : s.Rotates path dir name date current now files) {m : Nat}
    {loc : Location} (hm : m ≠ current) (hlt : m < s.files.files.length)
    (hloc : files.node? loc = some (.file m)) :
    s.files.node? loc = some (.file m) ∧ loc ≠ dir ++ [extended name date] := by
  rw [hr.node?_eq] at hloc
  by_cases hpath : loc = dir ++ [name]
  · rw [hpath, Function.update_self] at hloc
    cases hloc
    exact absurd hlt (lt_irrefl _)
  rw [Function.update_of_ne hpath] at hloc
  by_cases hdate : loc = dir ++ [extended name date]
  · rw [hdate, Function.update_self] at hloc
    cases hloc
    exact absurd rfl hm
  · rw [Function.update_of_ne hdate] at hloc
    exact ⟨hloc, hdate⟩

theorem Rotates.moved_last (hr : s.Rotates path dir name date current now files)
    (hsound : s.files.Sound) {s' : Shared} (hfiles : s'.files = files) :
    s'.Moved path dir name date current [] := by
  subst hfiles
  have hlt : current < s.files.files.length := hsound.inhabited hr.stands
  exact ⟨Nat.lt_of_lt_of_le hlt hr.length_le, hr.isDate, hr.names.keeps hr.follows.keeps,
    fun _ => hr.node?_backup, nofun⟩

theorem Rotates.moved_earlier (hr : s.Rotates path dir name date current now files)
    (hsound : s.files.Sound) {earlier : Text} {m : Nat} {after : List (Text × Nat)}
    (hmoved : s.Moved path dir name earlier m after) {s' : Shared} (hfiles : s'.files = files) :
    s'.Moved path dir name earlier m (after ++ [(date, current)]) := by
  subst hfiles
  have hdates : earlier ∈ (after ++ [(date, current)]).map (·.1) ↔
      earlier ∈ after.map (·.1) ∨ earlier = date := by
    simp
  have hm : m ≠ current := by
    rintro rfl
    by_cases hagain : earlier ∈ after.map (·.1)
    · exact hmoved.gone hagain _ hr.stands
    · exact backup_ne dir name earlier (hsound.injective (hmoved.stands hagain) hr.stands)
  refine ⟨Nat.lt_of_lt_of_le hmoved.exists_file hr.length_le, hmoved.isDate,
    hmoved.names.keeps hr.follows.keeps, ?_, ?_⟩
  · intro hnot
    rw [hdates, not_or] at hnot
    rw [hr.node?_other hnot.2]
    exact hmoved.stands hnot.1
  · intro hagain loc hloc
    obtain ⟨hloc', hdate⟩ := hr.node?_before hm hmoved.exists_file hloc
    by_cases hearlier : earlier ∈ after.map (·.1)
    · exact hmoved.gone hearlier loc hloc'
    · have hsame := hsound.injective hloc' (hmoved.stands hearlier)
      rcases hdates.mp hagain with hin | rfl
      · exact hearlier hin
      · exact hdate hsame

end Rotates

/-- The invariant of a run, once a log file was opened. -/
structure Accounted (s : Shared) (path : Text) (dir : Location) (name : Text) : Prop where
  site : Site s.files path dir name
  handlers : ∀ log ∈ s.handlers, s.AppendsToKnown path (dir ++ [name]) log
  ledger : ∀ x ∈ s.ledger, s.Known (dir ++ [name]) x.1 ∧
    ∃ file, s.files.files[x.1]? = some file ∧ x.2 <:+: file.content.toList
  moved : ∀ before date n after, s.rotated = before ++ (date, n) :: after →
    s.Moved path dir name date n after

namespace Accounted

variable {s : Shared} {path : Text} {dir : Location} {name : Text}

theorem exists_file (h : s.Accounted path dir name) {n : Nat} (hn : s.Known (dir ++ [name]) n) :
    n < s.files.files.length := by
  rcases hn with hstands | ⟨date, hmem⟩
  · exact h.site.sound.inhabited hstands
  · obtain ⟨before, after, hsplit⟩ := List.append_of_mem hmem
    exact (h.moved _ _ _ _ hsplit).exists_file

theorem keeps_iff (h : s.Accounted path dir name) {x : Nat × Text} (hx : x ∈ s.ledger) :
    s.Keeps path x ↔ ¬Overwritten s.rotated x.1 := by
  obtain ⟨hknown, hcontent⟩ := h.ledger x hx
  constructor
  · rintro ⟨p, -, hstat, -⟩ ⟨before, date, after, hsplit, hagain⟩
    obtain ⟨loc, hloc⟩ := exists_of_stat hstat
    exact (h.moved _ _ _ _ hsplit).gone hagain loc hloc
  · intro hnot
    rcases hknown with hstands | ⟨date, hmem⟩
    · exact ⟨path, .inl rfl, h.site.names.stat_file hstands, hcontent⟩
    · obtain ⟨before, after, hsplit⟩ := List.append_of_mem hmem
      have hmoved := h.moved _ _ _ _ hsplit
      obtain ⟨offset, t, rfl⟩ := hmoved.isDate
      have hstands := hmoved.stands fun hagain => hnot ⟨before, _, after, hsplit, hagain⟩
      exact ⟨_, .inr ⟨offset, t, rfl⟩, hmoved.names.stat_file hstands, hcontent⟩

theorem setHandler (h : s.Accounted path dir name) {log : LogFile}
    (hlog : s.AppendsToKnown path (dir ++ [name]) log) (i : Nat) :
    Accounted { s with handlers := s.handlers.set i log } path dir name where
  site := h.site
  handlers := by
    intro other hother
    rcases List.mem_or_eq_of_mem_set hother with hmem | rfl
    · exact (h.handlers other hmem).imp fun _ hn => hn
    · exact hlog.imp fun _ hn => hn
  ledger := h.ledger
  moved := fun before date n after hsplit => (h.moved before date n after hsplit).congr rfl

theorem put (h : s.Accounted path dir name) {n : Nat} (hn : s.Known (dir ++ [name]) n)
    {file : File} (hfile : s.files.files[n]? = some file) {files : FileSystem} {now : Int}
    {entry : Text} (hfollows : Follows s.files files) (hnode : files.node? = s.files.node?)
    (hlength : files.files.length = s.files.files.length)
    (hself : files.files[n]? = some ⟨file.content ++ entry, now⟩)
    (hothers : ∀ m, m ≠ n → files.files[m]? = s.files.files[m]?) :
    Accounted { s with files := files, ledger := s.ledger ++ [(n, entry)] } path dir name := by
  have hknown : ∀ m, s.Known (dir ++ [name]) m →
      Known { s with files := files, ledger := s.ledger ++ [(n, entry)] } (dir ++ [name]) m := by
    rintro m (hstands | hmoved)
    · exact .inl (hnode ▸ hstands)
    · exact .inr hmoved
  refine ⟨h.site.follows hfollows, fun log hlog => (h.handlers log hlog).imp hknown, ?_, ?_⟩
  · intro x hx
    rcases List.mem_append.mp hx with hold | hnew
    · obtain ⟨hx', found, hfound, hinfix⟩ := h.ledger x hold
      refine ⟨hknown _ hx', ?_⟩
      by_cases heq : x.1 = n
      · rw [heq, hfile] at hfound
        cases hfound
        refine ⟨_, heq ▸ hself, ?_⟩
        rw [Array.toList_appendList]
        exact hinfix.trans (List.prefix_append _ _).isInfix
      · exact ⟨found, (hothers x.1 heq).trans hfound, hinfix⟩
    · rw [List.mem_singleton] at hnew
      rw [hnew]
      refine ⟨hknown n hn, _, hself, ?_⟩
      rw [Array.toList_appendList]
      exact (List.suffix_append _ _).isInfix
  · intro before date m after hsplit
    have hmoved := h.moved before date m after hsplit
    refine ⟨hlength ▸ hmoved.exists_file, hmoved.isDate, hmoved.names.keeps hfollows.keeps, ?_, ?_⟩
    · rw [hnode]
      exact hmoved.stands
    · rw [hnode]
      exact hmoved.gone

theorem rotate (h : s.Accounted path dir name) {date : Text} {current : Nat} {now : Int}
    {files : FileSystem} (hr : s.Rotates path dir name date current now files) :
    Accounted { s with files := files, rotated := s.rotated ++ [(date, current)] } path dir
      name := by
  have hknown : ∀ m, s.Known (dir ++ [name]) m →
      Known { s with files := files, rotated := s.rotated ++ [(date, current)] }
        (dir ++ [name]) m := by
    rintro m (hstands | ⟨other, hmem⟩)
    · rw [hr.stands] at hstands
      cases hstands
      exact .inr ⟨_, List.mem_append_right _ (List.mem_singleton.mpr rfl)⟩
    · exact .inr ⟨other, List.mem_append_left _ hmem⟩
  refine ⟨h.site.follows hr.follows, fun log hlog => (h.handlers log hlog).imp hknown, ?_, ?_⟩
  · intro x hx
    obtain ⟨hx', found, hfound, hinfix⟩ := h.ledger x hx
    refine ⟨hknown _ hx', found, ?_, hinfix⟩
    show files.files[x.1]? = some found
    rw [hr.files_eq, List.getElem?_append_left (h.exists_file hx'), hfound]
  · intro before other m after hsplit
    rcases List.eq_nil_or_concat after with rfl | ⟨after, last, rfl⟩
    · -- The rotation at hand.
      obtain ⟨-, hlast⟩ := List.append_inj' hsplit rfl
      cases List.singleton_inj.mp hlast
      exact hr.moved_last h.site.sound rfl
    · -- A rotation before.
      rw [List.concat_eq_append, ← List.cons_append, ← List.append_assoc] at hsplit
      obtain ⟨hsplit', hlast⟩ := List.append_inj' hsplit rfl
      cases List.singleton_inj.mp hlast
      rw [List.concat_eq_append]
      exact hr.moved_earlier h.site.sound (h.moved before other m after hsplit') rfl

theorem rotation?_eq (h : s.Accounted path dir name) {current : Nat}
    (hcurrent : s.files.node? (dir ++ [name]) = some (.file current)) {log : LogFile}
    (hpath : log.path = path) {source : TimeSource} {period : Period}
    (hrotation : log.rotation = .daily 0 source period) (clock : Clock) :
    s.rotation? log clock =
      if source.now clock < period.rollover then none else some (period.date, current) := by
  have hstat : s.files.stat log.path = .ok (.file current) := by
    rw [hpath]
    exact h.site.names.stat_file hcurrent
  rw [rotation?, dueDate?, hrotation, hstat]
  by_cases hdue : source.now clock < period.rollover
  · simp only [if_pos hdue]
  · simp only [if_neg hdue]

theorem putEntry (h : s.Accounted path dir name) {current : Nat}
    (hcurrent : s.files.node? (dir ++ [name]) = some (.file current)) {log : LogFile}
    (hlog : s.AppendsToKnown path (dir ++ [name]) log) (i : Nat) {now : Int} {entry : Text}
    {log' : LogFile}
    {files : FileSystem}
    (hput : Work.put now entry ⟨log, s.files, []⟩ = (true, ⟨log', files, []⟩)) :
    ∃ n, log'.fileNumber? = some n ∧
      Accounted ⟨files, s.handlers.set i log', s.ledger ++ [(n, entry)], s.rotated⟩ path dir name ∧
      files.node? (dir ++ [name]) = some (.file current) := by
  obtain ⟨hpath, ⟨n, hstream, hn⟩, hrotation⟩ := hlog
  have hfile := List.getElem?_eq_getElem (h.exists_file hn)
  obtain ⟨files', hfollows, hnode, hlength, hself, hothers, hresult⟩ :=
    Work.put_file (w := ⟨log, s.files, []⟩) h.site.sound hstream hfile rfl hput
  cases hresult
  have hwritten := h.put hn hfile hfollows hnode hlength hself hothers
  have happends : AppendsToKnown { s with files := files, ledger := s.ledger ++ [(n, entry)] } path
      (dir ++ [name]) { log with
        stream := some ⟨.file n, none, none⟩
        size := log.size + entry.length } :=
    ⟨hpath, ⟨n, rfl, hn.imp_left fun hstands => hnode ▸ hstands⟩, hrotation⟩
  exact ⟨n, rfl, hwritten.setHandler happends i, hnode ▸ hcurrent⟩

theorem exists_rotates (h : s.Accounted path dir name) {current : Nat}
    (hcurrent : s.files.node? (dir ++ [name]) = some (.file current)) {log : LogFile}
    (hpath : log.path = path) (hflushes : log.flushes = true) {now offset : Int} {t : Instant}
    (hclean : (Work.rotateTo now (Work.datedBackup log.path (Instant.localDate offset t))
      ⟨log, s.files, []⟩).problems = []) :
    ∃ files, s.Rotates path dir name (Instant.localDate offset t) current now files ∧
      Work.rotateTo now (Work.datedBackup log.path (Instant.localDate offset t))
        ⟨log, s.files, []⟩ =
        ⟨{ log with stream := some ⟨.file s.files.files.length, none, none⟩, size := 0 },
          files, []⟩ := by
  have hsite : Site s.files log.path dir name := hpath ▸ h.site
  obtain ⟨-, files, hnames, hfollows, hfiles, hnode, hrotate⟩ :=
    Work.rotateTo_clean (w := ⟨log, s.files, []⟩) hflushes hsite hcurrent
      (Instant.isLabel_localDate offset t) hclean
  exact ⟨files, ⟨hcurrent, ⟨offset, t, rfl⟩, hpath ▸ hnames, hfollows, hfiles, hnode⟩, hrotate⟩

theorem write (h : s.Accounted path dir name) {current : Nat}
    (hcurrent : s.files.node? (dir ++ [name]) = some (.file current)) {i : Nat} {log : LogFile}
    (hlog : s.handlers[i]? = some log) {clock : Clock} {entry : Text} {log' : LogFile}
    {files : FileSystem}
    (hwrite : Work.write clock entry ⟨log, s.files, []⟩ = (true, ⟨log', files, []⟩)) :
    ∃ n, log'.fileNumber? = some n ∧
      Accounted ⟨files, s.handlers.set i log', s.ledger ++ [(n, entry)],
        s.rotated ++ (s.rotation? log clock).toList⟩ path dir name ∧
      ∃ current, files.node? (dir ++ [name]) = some (.file current) := by
  have happends := h.handlers log (List.mem_of_getElem? hlog)
  have ⟨hpath, ⟨n, hstream, _⟩, source, offset, t, rollover, hrotation⟩ := happends
  obtain ⟨hbefore, hput⟩ := Work.write_clean hwrite rfl
  have hstep : Work.beforeWrite clock entry.length ⟨log, s.files, []⟩ =
      if source.now clock < rollover then ⟨log, s.files, []⟩
      else
        let w := Work.rotateTo (Instant.floorSeconds clock.wall)
          (Work.datedBackup log.path (Instant.localDate offset t)) ⟨log, s.files, []⟩
        { w with log := { w.log with
          rotation := .daily 0 source (Period.containing clock.offset (source.now clock)) } } := by
    rw [Work.beforeWrite, hrotation]
    rfl
  have hrotates := h.rotation?_eq hcurrent hpath hrotation clock
  rw [hstep] at hbefore hput
  by_cases hdue : source.now clock < rollover
  · rw [if_pos hdue] at hput hrotates
    have hdone := hput (by rw [Work.isWritable, hstream]; rfl)
    obtain ⟨m, hm, happends', hstands⟩ := h.putEntry hcurrent happends i hdone
    rw [hrotates]
    exact ⟨m, hm, by simpa using happends', current, hstands⟩
  · -- The file is moved first, and the entry starts a new one.
    rw [if_neg hdue] at hbefore hput hrotates
    have hflushes : log.flushes = true := by rw [flushes, hstream]; rfl
    obtain ⟨files', hr, hrotate⟩ := h.exists_rotates hcurrent hpath hflushes hbefore
    rw [hrotate] at hput
    have hafter : AppendsToKnown { s with
        files := files'
        rotated := s.rotated ++ [(Instant.localDate offset t, current)] } path (dir ++ [name])
        { log with
          stream := some ⟨.file s.files.files.length, none, none⟩
          size := 0
          rotation := .daily 0 source (Period.containing clock.offset (source.now clock)) } :=
      ⟨hpath, ⟨_, rfl, .inl hr.node?_self⟩, source, clock.offset, source.now clock, _, rfl⟩
    obtain ⟨m, hm, happends', hstands⟩ :=
      (h.rotate hr).putEntry hr.node?_self hafter i (hput rfl)
    rw [hrotates]
    exact ⟨m, hm, happends', _, hstands⟩

theorem addHandler (h : s.Accounted path dir name) {log : LogFile}
    (hlog : s.AppendsToKnown path (dir ++ [name]) log) :
    Accounted { s with handlers := s.handlers ++ [log] } path dir name where
  site := h.site
  handlers := by
    intro other hother
    rcases List.mem_append.mp hother with hmem | hmem
    · exact (h.handlers other hmem).imp fun _ hn => hn
    · rw [List.mem_singleton.mp hmem]
      exact hlog.imp fun _ hn => hn
  ledger := h.ledger
  moved := fun before date n after hsplit => (h.moved before date n after hsplit).congr rfl

theorem fresh (h : s.Accounted path dir name) (hfree : s.files.node? (dir ++ [name]) = none)
    {files : FileSystem} {now : Int} (hfollows : Follows s.files files)
    (hfiles : files.files = s.files.files ++ [⟨#[], now⟩])
    (hnode : files.node? = Function.update s.files.node? (dir ++ [name])
      (some (.file s.files.files.length))) :
    Accounted { s with files := files } path dir name := by
  have hkeeps : ∀ {loc m}, s.files.node? loc = some (.file m) →
      files.node? loc = some (.file m) := by
    intro loc m hloc
    have hne : loc ≠ dir ++ [name] := by
      rintro rfl
      rw [hfree] at hloc
      cases hloc
    rw [hnode, Function.update_of_ne hne, hloc]
  have hknown : ∀ m, s.Known (dir ++ [name]) m →
      Known { s with files := files } (dir ++ [name]) m := by
    rintro m (hstands | hmoved)
    · exact .inl (hkeeps hstands)
    · exact .inr hmoved
  refine ⟨h.site.follows hfollows, fun log hlog => (h.handlers log hlog).imp hknown, ?_, ?_⟩
  · intro x hx
    obtain ⟨hx', found, hfound, hinfix⟩ := h.ledger x hx
    refine ⟨hknown _ hx', found, ?_, hinfix⟩
    show files.files[x.1]? = some found
    rw [hfiles, List.getElem?_append_left (h.exists_file hx'), hfound]
  · intro before date m after hsplit
    have hmoved := h.moved before date m after hsplit
    refine ⟨?_, hmoved.isDate, hmoved.names.keeps hfollows.keeps,
      fun hnot => hkeeps (hmoved.stands hnot), ?_⟩
    · show m < files.files.length
      rw [hfiles, List.length_append]
      exact Nat.lt_of_lt_of_le hmoved.exists_file (Nat.le_add_right _ _)
    · intro hagain loc hloc
      have hloc' : files.node? loc = some (.file m) := hloc
      rw [hnode] at hloc'
      by_cases heq : loc = dir ++ [name]
      · rw [heq, Function.update_self] at hloc'
        cases hloc'
        exact absurd hmoved.exists_file (lt_irrefl _)
      · rw [Function.update_of_ne heq] at hloc'
        exact hmoved.gone hagain loc hloc'

theorem opened (h : s.Accounted path dir name)
    (hdir : s.files.node? (dir ++ [name]) ≠ some .directory) {clock : Clock} {source : TimeSource}
    {target : WriteTarget} {files : FileSystem} {size : Nat} {modified : Option Int}
    (hopen : s.files.openFile path false (Instant.floorSeconds clock.wall) = .ok (target, files))
    {log : LogFile} (hlog : log = ⟨path, some ⟨target, none, none⟩, size,
      startRotation clock size modified (.daily 0 source)⟩)
    (hfile : log.fileNumber?.isSome) :
    Accounted { s with files := files, handlers := s.handlers ++ [log] } path dir name ∧
      ∃ current, files.node? (dir ++ [name]) = some (.file current) := by
  have happends : ∀ n, target = .file n → files.node? (dir ++ [name]) = some (.file n) →
      AppendsToKnown { s with files := files } path (dir ++ [name]) log := by
    rintro n rfl hstands
    rw [hlog]
    exact ⟨rfl, ⟨n, rfl, .inl hstands⟩, source, clock.offset, _, _, rfl⟩
  cases hplace : s.files.node? (dir ++ [name]) with
  | some node =>
    cases node with
    | directory => exact absurd hplace hdir
    | special kind =>
      rw [h.site.names.openFile_special hplace] at hopen
      cases hopen
      rw [hlog] at hfile
      cases hfile
    | file n =>
      rw [h.site.names.openFile_append hplace] at hopen
      cases hopen
      exact ⟨h.addHandler (happends n rfl hplace), n, hplace⟩
  | none =>
    obtain ⟨htarget, hfollows, hfiles, hnode⟩ := h.site.openFile_missing hplace hopen
    have hstands : files.node? (dir ++ [name]) = some (.file s.files.files.length) := by
      rw [hnode, Function.update_self]
    have hfresh := h.fresh hplace hfollows hfiles hnode
    exact ⟨hfresh.addHandler (happends _ htarget hstands), _, hstands⟩

end Accounted

inductive Sane (s : Shared) (path : Text) : Prop where
  | unopened (hsound : s.files.Sound) (hnone : s = start s.files)
  | opened (dir : Location) (name : Text) (haccounted : s.Accounted path dir name) (current : Nat)
    (hcurrent : s.files.node? (dir ++ [name]) = some (.file current))

theorem Sane.create {s : Shared} {path : Text} (hpath : 0 ∉ path) (h : s.Sane path) {clock : Clock}
    {source : TimeSource} {log : LogFile} {files : FileSystem}
    (hcreate : LogFile.create clock path (.daily 0 source) s.files = (.ok log, files))
    (hfile : log.fileNumber?.isSome) :
    Sane { s with files := files, handlers := s.handlers ++ [log] } path := by
  cases h with
  | unopened hsound hnone =>
    obtain ⟨made, dir, name, target, -, hfollows, -, hsite, hdir, hopen, hlog⟩ :=
      create_ok hsound hpath hcreate
    have haccounted : Accounted { s with files := made } path dir name := by
      rw [hnone]
      refine ⟨hsite, nofun, nofun, fun before date n after hsplit => ?_⟩
      exact absurd hsplit.symm (by simp [start])
    obtain ⟨haccounted', current, hcurrent⟩ := haccounted.opened hdir hopen hlog hfile
    exact .opened dir name haccounted' current hcurrent
  | opened dir name haccounted current hcurrent =>
    obtain ⟨made, dir', name', target, hparent, -, -, hsite, hdir, hopen, hlog⟩ :=
      create_ok haccounted.site.sound hpath hcreate
    rw [haccounted.site.parent.makeParent_eq] at hparent
    cases hparent
    obtain ⟨haccounted', current', hcurrent'⟩ :=
      haccounted.opened (by simp [hcurrent]) hopen hlog hfile
    exact .opened dir name haccounted' current' hcurrent'

theorem Sane.write {s : Shared} {path : Text} (h : s.Sane path) {i : Nat} {log log' : LogFile}
    (hlog : s.handlers[i]? = some log) {clock : Clock} {entry : Text} {files : FileSystem}
    (hwrite : Work.write clock entry ⟨log, s.files, []⟩ = (true, ⟨log', files, []⟩)) :
    ∃ n, log'.fileNumber? = some n ∧ Sane ⟨files, s.handlers.set i log', s.ledger ++ [(n, entry)],
      s.rotated ++ (s.rotation? log clock).toList⟩ path := by
  cases h with
  | unopened hsound hnone =>
    rw [hnone] at hlog
    cases hlog
  | opened dir name haccounted current hcurrent =>
    obtain ⟨n, hn, haccounted', current', hcurrent'⟩ := haccounted.write hcurrent hlog hwrite
    exact ⟨n, hn, .opened dir name haccounted' current' hcurrent'⟩

theorem Sane.step {s s' : Shared} {path : Text} {use : Use} (hpath : 0 ∉ path)
    (h : s.Sane path) (hstep : s.step? path use = some s') :
    s'.Sane path ∧ s'.ledger.map (·.2) = s.ledger.map (·.2) ++ use.entry?.toList := by
  cases use with
  | «open» clock source =>
    rw [step?] at hstep
    cases hcreate : LogFile.create clock path (.daily 0 source) s.files with
    | mk result files =>
      rw [hcreate] at hstep
      cases result with
      | error e => cases hstep
      | ok log =>
        dsimp only at hstep
        split_ifs at hstep with hfile
        cases hstep
        exact ⟨h.create hpath hcreate hfile, by simp [Use.entry?]⟩
  | write i clock entry =>
    rw [step?] at hstep
    cases hlog : s.handlers[i]? with
    | none =>
      rw [hlog] at hstep
      cases hstep
    | some log =>
      rw [hlog] at hstep
      dsimp only at hstep
      split at hstep
      · rename_i log' files hwrite
        cases hstep
        obtain ⟨n, hn, hsane⟩ := h.write hlog hwrite
        simp only [hn]
        exact ⟨hsane, by simp [Use.entry?]⟩
      · cases hstep

theorem Sane.run {s s' : Shared} {path : Text} {uses : List Use} (hpath : 0 ∉ path)
    (h : s.Sane path) (hrun : run? path uses s = some s') :
    s'.Sane path ∧ s'.ledger.map (·.2) = s.ledger.map (·.2) ++ uses.filterMap Use.entry? := by
  induction uses generalizing s with
  | nil =>
    cases hrun
    exact ⟨h, by simp⟩
  | cons use uses ih =>
    rw [run?, Option.bind_eq_some_iff] at hrun
    obtain ⟨middle, hstep, hrest⟩ := hrun
    obtain ⟨hmiddle, hledger⟩ := h.step hpath hstep
    obtain ⟨hsane, hledger'⟩ := ih hmiddle hrest
    refine ⟨hsane, ?_⟩
    rw [hledger', hledger, List.append_assoc]
    cases hentry : use.entry? <;> simp [hentry]

/-- However log files that keep all backups share a path, every entry is still in the file that
took it, and that file at the path or at its date, unless a later rotation used the date again; so
nothing is lost as long as no date is used twice. -/
theorem keeps_iff_not_overwritten {fs : FileSystem} {path : Text} (hsound : fs.Sound)
    (hpath : 0 ∉ path) {uses : List Use} {s : Shared} (hrun : run? path uses (start fs) = some s) :
    s.ledger.map (·.2) = uses.filterMap Use.entry? ∧
      (∀ x ∈ s.ledger, s.Keeps path x ↔ ¬Overwritten s.rotated x.1) ∧
      ((s.rotated.map (·.1)).Nodup → ∀ x ∈ s.ledger, s.Keeps path x) := by
  obtain ⟨hsane, hledger⟩ := Sane.run hpath (.unopened hsound rfl) hrun
  have hiff : ∀ x ∈ s.ledger, s.Keeps path x ↔ ¬Overwritten s.rotated x.1 := by
    intro x hx
    cases hsane with
    | unopened _ hnone =>
      rw [hnone] at hx
      cases hx
    | opened dir name haccounted _ _ => exact haccounted.keeps_iff hx
  refine ⟨by simpa [start] using hledger, hiff, fun hnodup x hx => ?_⟩
  exact (hiff x hx).mpr (not_overwritten_of_nodup hnodup x.1)

def secondRotation : List Use :=
  [.open ⟨0, 0, 0⟩ .wall, .open ⟨0, 0, 0⟩ .wall, .write 0 ⟨0, 0, 0⟩ (Text.ascii "a"),
    .write 0 ⟨90000000000000, 90000000000000, 0⟩ (Text.ascii "b"),
    .write 1 ⟨90000000000000, 90000000000000, 0⟩ (Text.ascii "c")]

theorem secondRotation_run :
    (run? (Text.ascii "d.log") secondRotation (start FileSystem.empty)).map
      (fun s => (s.ledger, s.rotated, s.files.entries, s.files.files.map (·.content.toList))) =
    some ([(0, Text.ascii "a"), (1, Text.ascii "b"), (2, Text.ascii "c")],
      [(Text.ascii "1970-01-01", 0), (Text.ascii "1970-01-01", 1)],
      [([Text.ascii "d.log.1970-01-01"], .file 1), ([Text.ascii "d.log"], .file 2)],
      [Text.ascii "a", Text.ascii "b", Text.ascii "c"]) := by
  rfl

theorem keeps_iff_not_overwritten_secondRotation :
    ∃ s, run? (Text.ascii "d.log") secondRotation (start FileSystem.empty) = some s ∧
      ¬s.Keeps (Text.ascii "d.log") (0, Text.ascii "a") ∧
      s.Keeps (Text.ascii "d.log") (2, Text.ascii "c") := by
  obtain ⟨s, hrun, hvalues⟩ := Option.map_eq_some_iff.mp secondRotation_run
  simp only [Prod.mk.injEq] at hvalues
  obtain ⟨hledger, hrotated, -, -⟩ := hvalues
  have hiff := (keeps_iff_not_overwritten empty_sound (by decide) hrun).2.1
  rw [hledger, hrotated] at hiff
  refine ⟨s, hrun, ?_, ?_⟩
  · rw [hiff _ (by simp), not_not]
    exact ⟨[], _, [(Text.ascii "1970-01-01", 1)], rfl, by simp⟩
  · rw [hiff _ (by simp)]
    rintro ⟨before, date, after, hsplit, -⟩
    have hmem : (date, 2) ∈ [(Text.ascii "1970-01-01", 0), (Text.ascii "1970-01-01", 1)] := by
      rw [hsplit]
      simp
    simp at hmem

/-- What the first log file wrote on the first day is in no file any more. -/
theorem first_day_lost :
    ∃ s, run? (Text.ascii "d.log") secondRotation (start FileSystem.empty) = some s ∧
      (0, Text.ascii "a") ∈ s.ledger ∧
      ∀ p content, s.files.contentAt p = some content → ¬Text.ascii "a" <:+: content := by
  obtain ⟨s, hrun, hvalues⟩ := Option.map_eq_some_iff.mp secondRotation_run
  simp only [Prod.mk.injEq] at hvalues
  obtain ⟨hledger, -, hentries, hfiles⟩ := hvalues
  refine ⟨s, hrun, by simp [hledger], fun p content hcontent => ?_⟩
  obtain ⟨loc, n, hmem, hn⟩ := mem_of_contentAt hcontent
  rw [hentries] at hmem
  have hn' : (s.files.files.map (·.content.toList))[n]? = some content := by
    rw [List.getElem?_map, hn]
  rw [hfiles] at hn'
  simp only [List.mem_cons, Prod.mk.injEq, Node.file.injEq, List.not_mem_nil, or_false] at hmem
  rcases hmem with ⟨-, rfl⟩ | ⟨-, rfl⟩
  · cases hn'
    decide
  · cases hn'
    decide

end Shared

end StructuredLog
