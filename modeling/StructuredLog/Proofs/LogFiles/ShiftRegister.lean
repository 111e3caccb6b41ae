import StructuredLog.Proofs.LogFiles.Obstacles
import StructuredLog.Proofs.LogFiles.Openings

/-!
# A log file and its numbered backups as a shift register

Where the slots of a log file hold files or nothing when it is opened, its writes shift contents as
long as no operation fails. There may be a directory in a slot by then, if the path leads through
it, and a slot may have no name that the system takes. But a rotation cannot succeed in either case:
it would have to remove the last slot, or to cut off its own way. Main statement:
`writeAll_refines_slots`.
-/

namespace StructuredLog

open FileSystem LogFile Location

namespace Site

variable {origin fs fs' : FileSystem} {path : Text} {dir : Location} {name : Text} {k : Nat}

theorem contentAt_slot_of_not_names (h : Site fs path dir name)
    (hnames : ¬fs.Names (slotPath path k) dir (slotName name k)) :
    fs.contentAt (slotPath path k) = none := by
  cases hstat : fs.stat (slotPath path k) with
  | error e => rw [contentAt, fileAt?, hstat]; rfl
  | ok node => exact absurd (h.names_slot_of_stat h.sound hstat).2.1 hnames

theorem contentAt_slot (h : Site fs path dir name) (h' : Site fs' path dir name)
    (hsame : Untouched fs fs' (slot dir name k)) :
    fs'.contentAt (slotPath path k) = fs.contentAt (slotPath path k) := by
  by_cases hnames : fs.Names (slotPath path k) dir (slotName name k)
  · rw [hnames.contentAt_eq, (h'.names_slot_of_names hnames).contentAt_eq]
    exact hsame.contentOf_eq
  · rw [h.contentAt_slot_of_not_names hnames, h'.contentAt_slot_of_not_names fun hnames' =>
      hnames (h.names_slot_of_names hnames')]

theorem names_slot_of_le (h : Site fs path dir name) {n : Nat} (hkn : k ≤ n)
    (hnames : fs.Names (slotPath path n) dir (slotName name n)) :
    fs.Names (slotPath path k) dir (slotName name k) := by
  cases k with
  | zero => exact h.names
  | succ k =>
    obtain ⟨n, rfl⟩ : ∃ m, n = m + 1 := ⟨n - 1, by omega⟩
    have hlength := Decimal.length_ofNat_mono hkn
    exact h.names_withSuffix (isLabel_ofNat (k + 1)) ((Names.fits hnames).of_length_le h.no_nul
      (isLabel_ofNat (n + 1)) (isLabel_ofNat (k + 1)) hlength)

end Site

namespace LogFile

variable {origin : FileSystem} {w : Work} {path : Text} {dir : Location} {name : Text} {now : Int}
  {backups k : Nat}

namespace Work

theorem shifts_of_cut_off (h : Site origin path dir name) (hpath : w.log.path = path)
    (hs : w.files.Sound) (hlost : ¬Site w.files path dir name) (order : List Nat) :
    order.foldl shiftBackup w = w := by
  have hmissing : ∀ k, w.files.exists? (numberedBackup w.log.path k) = false := by
    intro k
    cases hresolve : w.files.resolve (numberedBackup w.log.path k) with
    | error e => rw [exists?, stat, hresolve]; rfl
    | ok place =>
      exact absurd (h.of_resolve_withSuffix hs (isLabel_ofNat k) (hpath ▸ hresolve)) hlost
  induction order with
  | nil => rfl
  | cons k order ih => rw [List.foldl_cons, shiftBackup, hmissing, if_neg (by simp), ih]

theorem site_of_rotateTo (h : Site origin path dir name) (hpath : w.log.path = path)
    (hs : w.files.Sound) {target : Text} (hclean : (w.rotateTo now target).problems = []) :
    Site w.files path dir name := by
  obtain ⟨files, hrename, -⟩ := rotateTo_ok hclean
  obtain ⟨place, -, -, hresolve, -, -, -⟩ := rename_ok hrename
  have hdrained := h.of_resolve (follows_drained hs now).sound (hpath ▸ hresolve)
  exact hdrained.of_stops hs fun loc _ => (congrFun (node?_drained w now) loc).symm

theorem removeOldest_vacates (h : Site w.files w.log.path dir name)
    (hclean : (w.removeOldest (k + 1)).problems = []) :
    w.files.Names (slotPath w.log.path (k + 1)) dir (slotName name (k + 1)) ∧
      (w.removeOldest (k + 1)).files.node? (slot dir name (k + 1)) = none := by
  rw [removeOldest] at hclean ⊢
  cases hremove : w.files.remove (numberedBackup w.log.path (k + 1)) with
  | error e =>
    rw [hremove] at hclean
    exact absurd hclean (problems_note w _)
  | ok files =>
    rcases h.names.withSuffix h.no_nul (isLabel_ofNat (k + 1)) with hnames | hlong
    · obtain ⟨-, -, -, hnode⟩ := hnames.remove_sound h.sound hremove
      refine ⟨hnames, ?_⟩
      rw [hnode]
      exact Function.update_self _ _ _
    · simp [FileSystem.remove, numberedBackup, hlong] at hremove

theorem shiftBackup_vacates (h : Site w.files w.log.path dir name)
    (hnames : w.files.Names (slotPath w.log.path (k + 1)) dir (slotName name (k + 1)))
    (hclean : (w.shiftBackup (k + 1)).problems = []) :
    (w.shiftBackup (k + 1)).files.node? (slot dir name (k + 1)) = none := by
  have hexists : w.files.exists? (numberedBackup w.log.path (k + 1)) =
      (w.files.node? (slot dir name (k + 1))).isSome := Names.exists?_eq hnames
  simp only [shiftBackup, hexists] at hclean ⊢
  cases hnode : w.files.node? (slot dir name (k + 1)) with
  | none => simpa using hnode
  | some node =>
    simp only [hnode, Option.isSome_some, if_true] at hclean ⊢
    cases hrename : w.files.rename (numberedBackup w.log.path (k + 1))
        (numberedBackup w.log.path (k + 1 + 1)) with
    | error e =>
      rw [hrename] at hclean
      exact absurd hclean (problems_note w _)
    | ok files =>
      obtain ⟨-, -, -, -, hmove, rfl⟩ := h.rename_slot (k := k + 1) h.sound hrename
      refine hmove.node?_source (List.prefix_refl _) (not_below_sibling fun heq => ?_)
      exact absurd (slotName_injective name heq) (by omega)

theorem site_of_shifts {start : FileSystem} (h : Site start w.log.path dir name)
    (hleft : LeavesAlone start w.files (dir ++ [name])) {before after : List Nat} {target : Text}
    (hclean : (((before ++ after).foldl shiftBackup w).rotateTo now target).problems = []) :
    ∃ reached, Site reached w.log.path dir name ∧
      before.foldl shiftBackup w = { w with files := reached } := by
  rw [List.foldl_append] at hclean
  have hbefore := problems_shifts (problems_rotateTo hclean)
  obtain ⟨reached, hreached, hfold⟩ := shifts_leave h hleft hbefore
  refine ⟨reached, ?_, hfold⟩
  rw [hfold] at hclean
  by_contra hlost
  -- Steps that are cut off do nothing, so the file could not be moved at the end.
  have hidle := shifts_of_cut_off (w := { w with files := reached }) h rfl hreached.sound hlost
  rw [hidle after] at hclean
  exact hlost (site_of_rotateTo (w := { w with files := reached }) h rfl hreached.sound hclean)

theorem slot_avoids_of_shifts {start : FileSystem} (h : Site start w.log.path dir name)
    (hleft : LeavesAlone start w.files (dir ++ [name])) {before after : List Nat} {target : Text}
    (hnames : start.Names (slotPath w.log.path (k + 1)) dir (slotName name (k + 1)))
    (hclean : (((before ++ (k + 1) :: after).foldl shiftBackup w).rotateTo now target).problems =
      []) : slot dir name (k + 1) ∉ stopsOf (FilePath.parent w.log.path) := by
  intro hmem
  obtain ⟨reached, hsite, hbefore⟩ := site_of_shifts h hleft hclean
  rw [List.append_cons] at hclean
  obtain ⟨shifted, hsite', hshifted⟩ := site_of_shifts h hleft hclean
  rw [List.foldl_append, hbefore, List.foldl_cons, List.foldl_nil] at hshifted
  have hstep : (shiftBackup { w with files := reached } (k + 1)).problems = [] := by
    rw [← List.append_cons, List.foldl_append, hbefore, List.foldl_cons] at hclean
    exact problems_shifts (problems_rotateTo hclean)
  have hvacated := shiftBackup_vacates (w := { w with files := reached }) hsite
    (hsite.names_slot_of_names hnames) hstep
  rw [hshifted, hsite'.standing _ hmem] at hvacated
  cases hvacated

end Work

/-- What a rotation needs to succeed: the last backup has a name that the system takes, and the path
does not lead through one of the slots. -/
structure CanShift (path : Text) (dir : Location) (name : Text) (backups : Nat) : Prop where
  named : ∃ fs : FileSystem, fs.Names (slotPath path backups) dir (slotName name backups)
  avoids : AvoidsSlots path backups

/-- If nothing fails, the way to the file stands after every step, since it cannot come back once it
is cut off. So no slot that was emptied was on it. -/
theorem canShift_of_clean (h : Site w.files w.log.path dir name)
    (hself : w.files.node? (slot dir name 0) ≠ some .directory) (hbackups : 0 < backups)
    (hclean : (w.rotateBySize now backups).problems = []) :
    CanShift w.log.path dir name backups := by
  rw [Work.rotateBySize, if_neg (by omega)] at hclean
  have hremoved := Work.problems_shifts (Work.problems_rotateTo hclean)
  obtain ⟨last, rfl⟩ : ∃ m, backups = m + 1 := ⟨backups - 1, by omega⟩
  obtain ⟨hnames, hgone⟩ := Work.removeOldest_vacates h hremoved
  obtain ⟨files, hleft, hremove⟩ := Work.removeOldest_leaves h hremoved
  rw [hremove] at hclean hgone
  refine ⟨⟨_, hnames⟩, fun i hi hmem => ?_⟩
  rw [h.goal_slotPath] at hmem
  rcases Nat.eq_zero_or_pos i with rfl | hpos
  · exact hself (h.standing _ hmem)
  rcases Nat.eq_or_lt_of_le hi with rfl | hlt
  · rw [← List.nil_append (Work.shiftOrder (last + 1))] at hclean
    obtain ⟨reached, hsite, hreached⟩ :=
      Work.site_of_shifts (w := { w with files := files }) h hleft hclean
    cases hreached
    rw [hsite.standing _ hmem] at hgone
    cases hgone
  · obtain ⟨k, rfl⟩ : ∃ m, i = m + 1 := ⟨i - 1, by omega⟩
    have horder : k + 1 ∈ Work.shiftOrder (last + 1) := by
      rw [Work.shiftOrder, List.mem_map]
      exact ⟨k, List.mem_reverse.mpr (List.mem_range.mpr (by omega)), rfl⟩
    obtain ⟨before, after, hsplit⟩ := List.append_of_mem horder
    rw [hsplit] at hclean
    exact Work.slot_avoids_of_shifts (w := { w with files := files }) h hleft
      (h.names_slot_of_le (by omega) hnames) hclean hmem

/-- A log file at the end of its file which cannot rotate. -/
structure Blocked (limit backups : Nat) (w : Work) (dir : Location) (name : Text) : Prop where
  atEnd : ∃ n file, AtEnd w dir name n file
  rotation : w.log.rotation = .bySize limit backups
  pos : 0 < backups
  stuck : ¬CanShift w.log.path dir name backups

namespace Blocked

variable {limit : Nat} {clock : Clock} {entry : Text} {w' : Work}

theorem write (h : Blocked limit backups w dir name) (hwrite : w.write clock entry = (true, w'))
    (hclean : w'.problems = []) :
    Blocked limit backups w' dir name ∧ w'.log.path = w.log.path ∧
      slotsAt w'.files w.log.path backups =
        (slotsAt w.files w.log.path backups).write limit entry ∧
      ∀ loc, loc ≠ slot dir name 0 → Untouched w.files w'.files loc := by
  obtain ⟨n, file, hready⟩ := h.atEnd
  obtain ⟨hbefore, hput⟩ := Work.write_clean hwrite hclean
  have hcurrent : (slotsAt w.files w.log.path backups).current = file.content.toList := by
    rw [slotsAt, hready.site.names.contentAt_eq, contentOf_file hready.node_eq hready.file_eq,
      Option.getD_some]
  have hroom : ¬(limit ≠ 0 ∧ w.log.size ≠ 0 ∧ limit < w.log.size + entry.length) := by
    intro hdue
    rw [Work.beforeWrite, h.rotation] at hbefore
    dsimp only at hbefore
    rw [if_pos hdue] at hbefore
    have hself : w.files.node? (slot dir name 0) = some (.file n) := hready.node_eq
    exact h.stuck (canShift_of_clean hready.site (by simp [hself]) h.pos hbefore)
  have hstep : w.beforeWrite clock entry.length = w := by
    rw [Work.beforeWrite, h.rotation]
    exact if_neg hroom
  rw [hstep] at hput
  obtain ⟨hwritten, hpath, hrotation⟩ := hready.put (hput hready.isWritable)
  obtain ⟨position, hstream, hend⟩ := hready.stream
  obtain ⟨files, -, hnodes, -, -, hothers, hresult⟩ :=
    Work.put_file hready.site.sound hstream hready.file_eq hend (hput hready.isWritable)
  have huntouched : ∀ loc, loc ≠ slot dir name 0 → Untouched w.files w'.files loc := by
    intro loc hloc
    cases hresult
    exact hready.site.sound.untouched hready.node_eq hnodes hothers hloc
  have hsite : Site w'.files w.log.path dir name := hpath ▸ hwritten.site
  refine ⟨⟨⟨_, _, hwritten⟩, hrotation.trans h.rotation, h.pos, hpath ▸ h.stuck⟩, hpath, ?_,
    huntouched⟩
  have hsize : (slotsAt w.files w.log.path backups).current.length = w.log.size := by
    rw [hcurrent, Array.length_toList, hready.size_eq]
  rw [Slots.write, if_neg fun hdue => hroom ((Slots.exceeds_iff hsize _ _).mp hdue), hcurrent,
    slotsAt, slotsAt, hsite.names.contentAt_eq,
    contentOf_file hwritten.node_eq hwritten.file_eq, Option.getD_some]
  congr 1
  · simp [File.append]
  · refine List.map_congr_left fun i _ => ?_
    refine hready.site.contentAt_slot hsite (huntouched _ fun heq => ?_)
    exact absurd (slot_injective dir name heq) (by omega)

end Blocked

/-- A log file that was just opened is in order, or it cannot rotate. -/
theorem create_register {clock : Clock} {path : Text} {limit backups : Nat} {fs fs' : FileSystem}
    {log : LogFile} (hs : fs.Sound) (hpath : 0 ∉ path)
    (hcreate : create clock path (.bySize limit backups) fs = (.ok log, fs'))
    (hplain : ∀ i ≤ backups, fs.IsFileOrFree (goal (slotPath path i))) :
    log.path = path ∧ ∃ dir name, Site fs' path dir name ∧
      (Ready limit backups ⟨log, fs', []⟩ dir name ∨
        Blocked limit backups ⟨log, fs', []⟩ dir name) := by
  obtain ⟨dir, name, hsite, hstands⟩ := create_stands hs hpath hcreate
  have hslots : ∀ i ≤ backups, fs'.IsFileOrFree (slot dir name i) ∨
      slot dir name i ≠ goal path ∧ slot dir name i ∈ stopsOf (FilePath.parent path) := by
    intro i hi
    rw [← hsite.goal_slotPath i]
    exact create_isFileOrFree hs hpath hcreate (hplain i hi)
  have hzero : slot dir name 0 = goal path := (hsite.goal_slotPath 0).symm
  have hself : fs'.IsFileOrFree (slot dir name 0) :=
    (hslots 0 (Nat.zero_le _)).resolve_right fun hway => hway.1 hzero
  rcases hstands with ⟨n, file, hnode, hfile, rfl⟩ | ⟨kind, hkind⟩
  · refine ⟨rfl, dir, name, hsite, ?_⟩
    have hready : (∀ i ≤ backups, fs'.Names (slotPath path i) dir (slotName name i)) →
        (∀ i ≤ backups, fs'.IsFileOrFree (slot dir name i)) →
        Ready limit backups ⟨⟨path, some ⟨.file n, none, none⟩, file.content.size,
          .bySize limit backups⟩, fs', []⟩ dir name := fun hnames hplain =>
      ⟨⟨hsite, hnames, hplain⟩, rfl, n, file, none, rfl, .inl rfl, hnode, hfile, rfl⟩
    rcases Nat.eq_zero_or_pos backups with rfl | hpos
    · refine .inl (hready (fun i hi => ?_) fun i hi => ?_)
      · obtain rfl := Nat.le_zero.mp hi
        exact hsite.names
      · obtain rfl := Nat.le_zero.mp hi
        exact hself
    by_cases hcan : CanShift path dir name backups
    · obtain ⟨other, hlast⟩ := hcan.named
      refine .inl (hready (fun i hi => ?_) fun i hi => (hslots i hi).resolve_right fun hway => ?_)
      · exact hsite.names_slot_of_le hi (hsite.names_slot_of_names hlast)
      · rw [← hsite.goal_slotPath] at hway
        exact hcan.avoids i hi hway.2
    · exact .inr ⟨⟨n, file, hsite, hnode, hfile, ⟨none, rfl, rfl⟩, rfl⟩, rfl, hpos, hcan⟩
  · rcases hself with hnone | ⟨n, hfile⟩
    · rw [slot, slotName, hkind] at hnone
      cases hnone
    · rw [slot, slotName, hkind] at hfile
      cases hfile

/-- The file at a path and its numbered backups are a shift register of contents. What is left of
a run are the last of the files it filled, each of them whole, and the current one exceeds the
limit only if it holds a single entry. -/
theorem writeAll_refines_slots {clock : Clock} {path : Text} {limit backups : Nat}
    {fs fs' : FileSystem} {log : LogFile} (hsound : fs.Sound) (hpath : 0 ∉ path)
    (hcreate : create clock path (.bySize limit backups) fs = (.ok log, fs'))
    (hplain : ∀ i ≤ backups, fs.IsFileOrFree (goal (slotPath path i)))
    {entries : List (Clock × Text)} {w : Work}
    (hrun : Work.writeAll? entries ⟨log, fs', []⟩ = some w) :
    (∀ loc, fs.node? loc ≠ none → Untouched fs fs' loc) ∧
      slotsAt w.files path backups =
        (slotsAt fs' path backups).run limit (entries.map (·.2)) ∧
      (∀ loc, (∀ i ≤ backups, fs'.resolve (slotPath path i) ≠ .ok ⟨loc, .name⟩) →
        Untouched fs' w.files loc) ∧
      (∃ (first : List Text) (later : List (List Text)),
        entries.map (·.2) = first ++ later.flatten ∧
        (slotsAt w.files path backups).chain <:+ (slotsAt fs' path backups).older ++
          ((slotsAt fs' path backups).current ++ first.flatten) :: later.map List.flatten) ∧
      (limit ≠ 0 → ∀ last ∈ (entries.map (·.2)).getLast?,
        (slotsAt w.files path backups).current.length ≤ limit ∨
          (slotsAt w.files path backups).current = last) := by
  obtain ⟨hlog, dir, name, hsite, hstate⟩ := create_register hsound hpath hcreate hplain
  have hkept : slotsAt w.files log.path backups =
        (slotsAt fs' log.path backups).run limit (entries.map (·.2)) ∧
      ∀ loc, (∀ i ≤ backups, fs'.resolve (slotPath path i) ≠ .ok ⟨loc, .name⟩) →
        Untouched fs' w.files loc := by
    rcases hstate with hready | hblocked
    · obtain ⟨hslots, hothers⟩ := Work.writeAll?_refines Ready.write hready hrun
      refine ⟨hslots, fun loc hloc => hothers loc fun i hi heq => ?_⟩
      have hnames := hready.register.names i hi
      rw [heq] at hloc
      exact hloc i hi (hlog ▸ hnames)
    · obtain ⟨hslots, hothers⟩ := Work.writeAll?_refines Blocked.write hblocked hrun
      refine ⟨hslots, fun loc hloc => hothers loc ?_⟩
      rintro rfl
      exact hloc 0 (Nat.zero_le _) hsite.names
  rw [hlog] at hkept
  obtain ⟨hslots, hothers⟩ := hkept
  refine ⟨fun loc hloc => create_untouched hsound hpath hcreate hloc, hslots, hothers, ?_, ?_⟩
  · rw [hslots]
    exact Slots.run_groups limit _ _
  · intro hlimit last hlast
    obtain ⟨before, hbefore⟩ := List.getLast?_eq_some_iff.mp hlast
    rw [hslots, hbefore, Slots.run_append_singleton]
    exact Slots.current_write hlimit _ _

theorem writeAll_refines_slots_two_backups :
    let path := Text.ascii "a.log"
    let log : LogFile := ⟨path, some ⟨.file 0, none, none⟩, 0, .bySize 5 2⟩
    let fs : FileSystem := ⟨[([path], .file 0)], [⟨#[], 0⟩], .ample⟩
    create ⟨0, 0, 0⟩ path (.bySize 5 2) FileSystem.empty = (.ok log, fs) ∧
      ∃ w, Work.writeAll? [(⟨0, 0, 0⟩, Text.ascii "aa"), (⟨0, 0, 0⟩, Text.ascii "bb"),
          (⟨0, 0, 0⟩, Text.ascii "ccc"), (⟨0, 0, 0⟩, Text.ascii "dddddd")] ⟨log, fs, []⟩ = some w ∧
        slotsAt w.files path 2 =
          ⟨Text.ascii "dddddd", [some (Text.ascii "ccc"), some (Text.ascii "aabb")]⟩ := by
  intro path log fs
  have hcreate : create ⟨0, 0, 0⟩ path (.bySize 5 2) FileSystem.empty = (.ok log, fs) := rfl
  have hplain : ∀ i ≤ 2, FileSystem.empty.IsFileOrFree (goal (slotPath path i)) := by
    intro i hi
    obtain rfl | rfl | rfl : i = 0 ∨ i = 1 ∨ i = 2 := by omega
    · exact .inl rfl
    · exact .inl rfl
    · exact .inl rfl
  have hsome : (Work.writeAll? [(⟨0, 0, 0⟩, Text.ascii "aa"), (⟨0, 0, 0⟩, Text.ascii "bb"),
      (⟨0, 0, 0⟩, Text.ascii "ccc"), (⟨0, 0, 0⟩, Text.ascii "dddddd")]
      ⟨log, fs, []⟩).isSome = true := by decide
  obtain ⟨w, hrun⟩ := Option.isSome_iff_exists.mp hsome
  refine ⟨hcreate, w, hrun, ?_⟩
  rw [(writeAll_refines_slots empty_sound (by decide) hcreate hplain hrun).2.1]
  decide

end LogFile

end StructuredLog
