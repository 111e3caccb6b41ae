import StructuredLog.Proofs.LogFiles.Locality
import StructuredLog.Proofs.LogFiles.Standing

/-!
# Territories of log files

The names of a log file and its backups end in a dot and a tag of digits and dashes, or have none.
Names of log files that have the same ending, which is no such tag, are told apart by what is before
it, and so are the names of their backups. A log file uses only what has these names in its
directory, and what is below that.
-/

namespace StructuredLog

open FileSystem LogFile Location

namespace FileSystem

theorem extended_inj {name name' ext ext' : Text} (hext : 46 ∉ ext) (hext' : 46 ∉ ext') :
    extended name ext = extended name' ext' ↔ name = name' ∧ ext = ext' := by
  rw [extended, extended, List.append_assoc, List.append_assoc]
  constructor
  · intro h
    -- Where one name goes on behind the other, the dot behind it is in the other's ending.
    rcases List.append_eq_append_iff.mp h with ⟨more, hname, hrest⟩ | ⟨more, hname, hrest⟩
    · cases more with
      | nil => exact ⟨by simpa using hname.symm, by simpa [FilePath.dot] using hrest⟩
      | cons b more =>
        have hmore : ext = more ++ (FilePath.dot ++ ext') := (List.cons.inj hrest).2
        exact absurd (by simp [hmore, FilePath.dot]) hext
    · cases more with
      | nil => exact ⟨by simpa using hname, by simpa [FilePath.dot] using hrest.symm⟩
      | cons b more =>
        have hmore : ext' = more ++ (FilePath.dot ++ ext) := (List.cons.inj hrest).2
        exact absurd (by simp [hmore, FilePath.dot]) hext'
  · rintro ⟨rfl, rfl⟩
    rfl

end FileSystem

namespace LogFile

structure IsTag (ext : Text) : Prop where
  ne_nil : ext ≠ []
  octets : ∀ b ∈ ext, Work.isDateOctet b = true

theorem IsTag.not_mem {ext : Text} (h : IsTag ext) {b : UInt8} (hb : Work.isDateOctet b = false) :
    b ∉ ext := by
  intro hmem
  rw [h.octets b hmem] at hb
  cases hb

theorem IsTag.isLabel {ext : Text} (h : IsTag ext) : FilePath.IsLabel ext :=
  ⟨h.ne_nil, h.not_mem (by decide), h.not_mem (by decide)⟩

theorem isTag_ofNat (n : Nat) : IsTag (Decimal.ofNat n) where
  ne_nil := Decimal.ofNat_ne_nil n
  octets b hb := by simp [Work.isDateOctet, Decimal.isDigit_of_mem_ofNat hb]

theorem isTag_localDate (offset : Int) (t : Instant) : IsTag (Instant.localDate offset t) where
  ne_nil := (Instant.isLabel_localDate offset t).ne_nil
  octets _ hb := Calendar.isDateOctet_of_mem_text hb

theorem isTag_of_hasDateShape {ext : Text} (h : Work.hasDateShape ext = true) : IsTag ext where
  ne_nil := (Work.isLabel_of_hasDateShape h).ne_nil
  octets := by
    simp only [Work.hasDateShape, Bool.and_eq_true, List.all_eq_true] at h
    exact h.1.1.2

inductive Titles (fileName : Text) : Text → Prop
  | current : Titles fileName fileName
  | backup {ext : Text} (hext : IsTag ext) : Titles fileName (extended fileName ext)

theorem Titles.stem_eq {stem stem' ending title : Text} (hdot : 46 ∉ ending)
    (hending : ¬IsTag ending)
    (h : Titles (extended stem ending) title) (h' : Titles (extended stem' ending) title) :
    stem = stem' := by
  have hnot : ∀ {ext : Text}, IsTag ext → 46 ∉ ext := fun hext => hext.not_mem (by decide)
  cases h with
  | current =>
    generalize hfile : extended stem ending = fileName at h'
    cases h' with
    | current => exact ((extended_inj hdot hdot).mp hfile).1
    | backup hext =>
      obtain ⟨-, rfl⟩ := (extended_inj hdot (hnot hext)).mp hfile
      exact absurd hext hending
  | @backup ext hext =>
    generalize hfile : extended (extended stem ending) ext = title at h'
    cases h' with
    | current =>
      obtain ⟨-, rfl⟩ := (extended_inj (hnot hext) hdot).mp hfile
      exact absurd hext hending
    | backup hext' =>
      obtain ⟨hstems, -⟩ := (extended_inj (hnot hext) (hnot hext')).mp hfile
      exact ((extended_inj hdot hdot).mp hstems).1

def Territory (dir : Location) (fileName : Text) (loc : Location) : Prop :=
  ∃ title below, Titles fileName title ∧ loc = dir ++ title :: below

theorem Territory.stem_eq {dir loc : Location} {stem stem' ending : Text} (hdot : 46 ∉ ending)
    (hending : ¬IsTag ending) (h : Territory dir (extended stem ending) loc)
    (h' : Territory dir (extended stem' ending) loc) : stem = stem' := by
  obtain ⟨title, below, htitle, rfl⟩ := h
  obtain ⟨title', below', htitle', hloc⟩ := h'
  obtain ⟨rfl, -⟩ := List.cons.inj (List.append_cancel_left hloc)
  exact htitle.stem_eq hdot hending htitle'

end LogFile

namespace Location

theorem stops_concat {here : Location} {names : List Text} {name : Text}
    (hdot : name ≠ FilePath.dot)
    (hdots : name ≠ FilePath.dotDot) :
    stops here (names ++ [name]) = stops here names ++ [follow here names ++ [name]] := by
  induction names generalizing here with
  | nil => simp [follow, stops, hdot, hdots]
  | cons other names ih =>
    rw [List.cons_append, follow, stops, stops]
    split_ifs
    · exact ih
    · exact ih
    · rw [ih, List.cons_append]

structure Beside (path p name : Text) : Prop where
  stops_eq : stopsOf p = stopsOf (FilePath.parent path) ++ [goal (FilePath.parent path) ++ [name]]
  goal_eq : goal p = goal (FilePath.parent path) ++ [name]

theorem stopsOf_folder (path : Text) :
    stopsOf (FilePath.folder path) = stopsOf (FilePath.parent path) := by
  rw [FilePath.folder]
  split_ifs with hnil
  · rw [hnil]
    rfl
  · rfl

theorem goal_folder (path : Text) : goal (FilePath.folder path) = goal (FilePath.parent path) := by
  rw [FilePath.folder]
  split_ifs with hnil
  · rw [hnil]
    rfl
  · rfl

theorem beside_of_components {path p dir name : Text}
    (hcomponents : FilePath.components p = FilePath.components dir ++ [name])
    (hstart : start p = start dir) (hstops : stopsOf dir = stopsOf (FilePath.parent path))
    (hgoal : goal dir = goal (FilePath.parent path)) (hdot : name ≠ FilePath.dot)
    (hdots : name ≠ FilePath.dotDot) : Beside path p name where
  stops_eq := by
    rw [← hstops, ← hgoal, stopsOf, hcomponents, hstart, stops_concat hdot hdots]
    rfl
  goal_eq := by
    rw [← hgoal, goal, hcomponents, hstart, follow_concat hdot hdots]
    rfl

end Location

namespace Site

variable {fs : FileSystem} {path : Text} {dir : Location} {name : Text}

theorem goal_parent (h : Site fs path dir name) : goal (FilePath.parent path) = dir :=
  follow_of_walk h.walk_parent

theorem fileName_eq (h : Site fs path dir name) : FilePath.fileName path = name :=
  (h.names.list_folder h.no_nul).1

theorem ne_dots_of_titles (h : Site fs path dir name) {title : Text} (htitle : Titles name title) :
    title ≠ FilePath.dot ∧ title ≠ FilePath.dotDot := by
  obtain ⟨-, front, r⟩ := h.names.route
  cases htitle with
  | current => exact ⟨r.ne_dot, r.ne_dotDot⟩
  | backup hext =>
    exact ⟨extended_ne_short r.name_ne_nil hext.ne_nil (by decide),
      extended_ne_short r.name_ne_nil hext.ne_nil (by decide)⟩

theorem components_eq (h : Site fs path dir name) :
    FilePath.components path = FilePath.components (FilePath.parent path) ++ [name] := by
  obtain ⟨-, front, r⟩ := h.names.route
  rw [r.components_eq, (r.components_parent h.no_nul).1]

theorem start_parent (path : Text) : start (FilePath.parent path) = start path := by
  rw [start, start, FilePath.isAbsolute_parent]

theorem beside_path (h : Site fs path dir name) : Beside path path name :=
  have ⟨hdot, hdots⟩ := h.ne_dots_of_titles .current
  beside_of_components h.components_eq (start_parent path).symm rfl rfl hdot hdots

theorem beside_withSuffix (h : Site fs path dir name) {ext : Text} (hext : IsTag ext) :
    Beside path (FilePath.withSuffix path ext) (extended name ext) := by
  obtain ⟨hdot, hdots⟩ := h.ne_dots_of_titles (.backup hext)
  obtain ⟨-, front, r⟩ := h.names.route
  have hend : path.getLast? ≠ some FilePath.slash := by
    rw [← Text.untilNul_of_not_mem h.no_nul]
    exact r.no_slash
  have hnul : (0 : UInt8) ∉ FilePath.dot ++ ext := by
    rw [List.mem_append, not_or]
    exact ⟨by decide, hext.isLabel.nul_not_mem⟩
  have hslash : FilePath.slash ∉ FilePath.dot ++ ext := by
    rw [List.mem_append, not_or]
    exact ⟨by decide, hext.isLabel.slash_not_mem⟩
  obtain ⟨front', last, hpath, hsuffixed⟩ :=
    FilePath.components_append h.no_nul hnul hslash r.path_ne_nil hend
  rw [h.components_eq] at hpath
  obtain ⟨rfl, hlast⟩ := List.append_inj' hpath rfl
  obtain rfl := List.singleton_inj.mp hlast
  have hcomponents : FilePath.components (FilePath.withSuffix path ext) =
      FilePath.components (FilePath.parent path) ++ [extended name ext] := by
    rw [FilePath.withSuffix, List.append_assoc, hsuffixed, extended, List.append_assoc]
  have hstart : start (FilePath.withSuffix path ext) = start (FilePath.parent path) := by
    rw [start_parent, start, start, FilePath.withSuffix, List.append_assoc,
      FilePath.isAbsolute_append r.path_ne_nil]
  exact beside_of_components hcomponents hstart rfl rfl hdot hdots

theorem beside_join (h : Site fs path dir name) {ext : Text} (hext : IsTag ext) :
    Beside path (FilePath.join (FilePath.folder path) (extended name ext)) (extended name ext) := by
  obtain ⟨hdot, hdots⟩ := h.ne_dots_of_titles (.backup hext)
  obtain ⟨-, front, r⟩ := h.names.route
  have hnul := h.fileName_eq ▸ FilePath.nul_not_mem_fileName h.no_nul
  have hslash := h.fileName_eq ▸ FilePath.slash_not_mem_fileName path
  have hlabel := isLabel_extended hnul hslash hext.isLabel
  have hfolder : FilePath.folder path ≠ [] := FilePath.folder_ne_nil path
  refine beside_of_components (FilePath.components_join (r.walk_folder h.no_nul).1 hlabel hfolder)
    ?_
    (stopsOf_folder path) (goal_folder path) hdot hdots
  rw [start, start, FilePath.join_eq hlabel.slash_not_mem hfolder,
    FilePath.isAbsolute_append hfolder]

end Site

namespace LogFile

variable {fs : FileSystem} {path p : Text} {dir : Location} {name : Text} {rotation : Rotation}

def IsDated (rotation : Rotation) : Prop :=
  ∀ backups source period, rotation = .daily backups source period → IsTag period.date

theorem isDated_never : IsDated .never := by
  rintro backups source period h
  cases h

theorem isDated_startRotation (clock : Clock) (size : Nat) (modified : Option Int)
    (schedule : Schedule) : IsDated (startRotation clock size modified schedule) := by
  rintro backups source period h
  cases schedule with
  | never => cases h
  | bySize limit backups => cases h
  | daily backups source =>
    cases h
    exact isTag_localDate _ _

theorem Uses.beside (h : Uses path rotation p) (hsite : Site fs path dir name)
    (hdated : IsDated rotation) : ∃ title, Titles name title ∧ Beside path p title := by
  cases h with
  | own => exact ⟨name, .current, hsite.beside_path⟩
  | @numbered _ _ n => exact ⟨_, .backup (isTag_ofNat n), hsite.beside_withSuffix (isTag_ofNat n)⟩
  | current =>
    have hdate := hdated _ _ _ rfl
    exact ⟨_, .backup hdate, hsite.beside_withSuffix hdate⟩
  | later offset t =>
    exact ⟨_, .backup (isTag_localDate offset t),
      hsite.beside_withSuffix (isTag_localDate offset t)⟩
  | listed hname =>
    rw [hsite.fileName_eq] at hname
    obtain ⟨ext, rfl, hshape⟩ := Work.isDatedBackup_iff.mp hname
    have htag := isTag_of_hasDateShape hshape
    exact ⟨_, .backup htag, hsite.beside_join htag⟩

def Approach (path : Text) (dir : Location) (name : Text) (loc : Location) : Prop :=
  loc ∈ stopsOf (FilePath.parent path) ∧ ¬Territory dir name loc

theorem Titles.territory {title : Text} (h : Titles name title) (below : Location) :
    Territory dir name (dir ++ [title] ++ below) :=
  ⟨title, below, h, by rw [List.append_assoc, List.singleton_append]⟩

theorem usesWithin_territory (hsite : Site fs path dir name) (hdated : IsDated rotation) :
    UsesWithin (Territory dir name) (Approach path dir name) path rotation where
  way loc hloc := (em (Territory dir name loc)).imp_right fun hnot => ⟨hloc, hnot⟩
  stops := by
    rintro p hp loc hloc
    obtain ⟨title, htitle, hbeside⟩ := hp.beside hsite hdated
    rw [hbeside.stops_eq, hsite.goal_parent, List.mem_append, List.mem_singleton] at hloc
    rcases hloc with hloc | rfl
    · exact (em (Territory dir name loc)).imp_right fun hnot => ⟨hloc, hnot⟩
    · exact .inl ⟨title, [], htitle, rfl⟩
  owns := by
    intro p hp below
    obtain ⟨title, htitle, hbeside⟩ := hp.beside hsite hdated
    rw [hbeside.goal_eq, hsite.goal_parent]
    exact htitle.territory below
  dated := by
    intro backups source period _ other hother
    rw [hsite.fileName_eq] at hother
    obtain ⟨ext, rfl, hshape⟩ := Work.isDatedBackup_iff.mp hother
    rw [goal_folder, hsite.goal_parent]
    exact ⟨_, [], .backup (isTag_of_hasDateShape hshape), rfl⟩

end LogFile

end StructuredLog
