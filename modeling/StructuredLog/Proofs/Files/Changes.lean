import StructuredLog.Proofs.Files.Nodes

/-!
# Operations as changes of the map

Making, removing and moving an entry update the map at one or two locations. What was sound stays
sound, and no directory goes away.
-/

namespace StructuredLog

namespace FileSystem

open Location

structure Follows (fs fs' : FileSystem) : Prop where
  sound : fs'.Sound
  keeps : KeepsDirectories fs fs'

theorem Follows.refl {fs : FileSystem} (hs : fs.Sound) : Follows fs fs :=
  ⟨hs, KeepsDirectories.refl fs⟩

theorem Follows.trans {fs fs' fs'' : FileSystem} (h : Follows fs fs') (h' : Follows fs' fs'') :
    Follows fs fs'' := ⟨h'.sound, h.keeps.trans h'.keeps⟩

theorem Sound.vacate {fs fs' : FileSystem} (hs : fs.Sound) {loc : Location}
    (hbelow : ∀ name, fs.node? (loc ++ [name]) = none)
    (hnode : fs'.node? = Function.update fs.node? loc none) (hfiles : fs'.files = fs.files) :
    fs'.Sound := by
  have hother : ∀ {other node}, fs'.node? other = some node → fs.node? other = some node := by
    intro other node h
    rw [hnode] at h
    by_cases heq : other = loc
    · rw [heq, Function.update_self] at h
      cases h
    · rwa [Function.update_of_ne heq] at h
  refine ⟨?_, ?_, ?_⟩
  · intro other name h
    obtain ⟨node, hsome⟩ := Option.ne_none_iff_exists'.mp h
    have hbefore : fs.node? (other ++ [name]) ≠ none := by
      rw [hother hsome]
      exact Option.some_ne_none node
    have hne : other ≠ loc := by
      rintro rfl
      exact hbefore (hbelow name)
    rw [hnode, Function.update_of_ne hne]
    exact hs.parent hbefore
  · intro other n h
    rw [hfiles]
    exact hs.inhabited (hother h)
  · intro other other' n h h'
    exact hs.injective (hother h) (hother h')

theorem Follows.vacate {fs fs' : FileSystem} (hs : fs.Sound) {loc : Location}
    (hloc : fs.node? loc ≠ some .directory) (hnode : fs'.node? = Function.update fs.node? loc none)
    (hfiles : fs'.files = fs.files) : Follows fs fs' := by
  refine ⟨hs.vacate (fun name => hs.node?_below hloc (by simp)) hnode hfiles, ?_⟩
  intro other h
  have hne : other ≠ loc := fun heq => hloc (heq ▸ h)
  rwa [hnode, Function.update_of_ne hne]

theorem Follows.place {fs fs' : FileSystem} (hs : fs.Sound) {dir : Location} {name : Text}
    {node : Node} (hdir : fs.node? dir = some .directory)
    (hloc : fs.node? (dir ++ [name]) ≠ some .directory)
    (hnode : fs'.node? = Function.update fs.node? (dir ++ [name]) (some node))
    (hfiles : fs.files.length ≤ fs'.files.length)
    (hnew : ∀ n, node = .file n → n < fs'.files.length ∧ ∀ other, fs.node? other ≠ some (.file n)) :
    Follows fs fs' := by
  have hkeeps : KeepsDirectories fs fs' := by
    intro other h
    have hne : other ≠ dir ++ [name] := fun heq => hloc (heq ▸ h)
    rwa [hnode, Function.update_of_ne hne]
  have hother : ∀ {other node'}, other ≠ dir ++ [name] → fs'.node? other = some node' →
      fs.node? other = some node' := by
    intro other node' hne h
    rwa [hnode, Function.update_of_ne hne] at h
  have hself : ∀ {node'}, fs'.node? (dir ++ [name]) = some node' → node = node' := by
    intro node' h
    rw [hnode, Function.update_self] at h
    exact Option.some.inj h
  refine ⟨⟨?_, ?_, ?_⟩, hkeeps⟩
  · intro other name' h
    obtain ⟨node', hsome⟩ := Option.ne_none_iff_exists'.mp h
    by_cases heq : other ++ [name'] = dir ++ [name]
    · obtain ⟨rfl, -⟩ := List.append_inj' heq rfl
      exact hkeeps _ hdir
    · have hbefore : fs.node? (other ++ [name']) ≠ none := by
        rw [hother heq hsome]
        exact Option.some_ne_none node'
      exact hkeeps _ (hs.parent hbefore)
  · intro other n h
    by_cases heq : other = dir ++ [name]
    · exact (hnew n (hself (heq ▸ h))).1
    · exact Nat.lt_of_lt_of_le (hs.inhabited (hother heq h)) hfiles
  · intro other other' n h h'
    by_cases heq : other = dir ++ [name]
    · by_cases heq' : other' = dir ++ [name]
      · rw [heq, heq']
      · exact absurd (hother heq' h') ((hnew n (hself (heq ▸ h))).2 other')
    · by_cases heq' : other' = dir ++ [name]
      · exact absurd (hother heq h) ((hnew n (hself (heq' ▸ h'))).2 other)
      · exact hs.injective (hother heq h) (hother heq' h')

theorem node?_set {loc : Location} (hloc : IsEntry loc) (node : Node) (fs : FileSystem)
    {files : List File} {disk : Disk} : node? ⟨Assoc.set loc node fs.entries, files, disk⟩ =
      Function.update fs.node? loc (some node) := by
  funext other
  by_cases heq : other = loc
  · rw [heq, Function.update_self, node?_of_isEntry hloc, Assoc.get?_set_self]
  rw [Function.update_of_ne heq]
  by_cases hother : IsEntry other
  · rw [node?_of_isEntry hother, node?_of_isEntry hother, Assoc.get?_set_of_ne heq]
  · rw [node?_of_not_isEntry hother, node?_of_not_isEntry hother]

theorem node?_erase {loc : Location} (hloc : IsEntry loc) (fs : FileSystem) {files : List File}
    {disk : Disk} : node? ⟨Assoc.erase loc fs.entries, files, disk⟩ =
      Function.update fs.node? loc none := by
  funext other
  by_cases heq : other = loc
  · rw [heq, Function.update_self, node?_of_isEntry hloc, Assoc.get?_erase_self]
  rw [Function.update_of_ne heq]
  by_cases hother : IsEntry other
  · rw [node?_of_isEntry hother, node?_of_isEntry hother, Assoc.get?_erase_of_ne heq]
  · rw [node?_of_not_isEntry hother, node?_of_not_isEntry hother]

theorem mem_entries_node? {fs : FileSystem} {e : Location × Node} (he : e ∈ fs.entries)
    (hentry : IsEntry e.1) : fs.node? e.1 ≠ none := by
  rw [node?_of_isEntry hentry, ne_eq, Assoc.get?_eq_none_iff, not_not]
  exact List.mem_map_of_mem he

def relocate (source target loc : Location) : Location :=
  if source.isPrefixOf loc then target ++ loc.drop source.length else loc

theorem relocate_append (source target below : Location) :
    relocate source target (source ++ below) = target ++ below := by
  simp [relocate]

theorem relocate_of_not_below {source target loc : Location} (h : ¬source <+: loc) :
    relocate source target loc = loc := by
  rw [relocate, if_neg fun hprefix => h (List.isPrefixOf_iff_prefix.mp hprefix)]

theorem moveBelow_eq (source target : Location) (entries : List (Location × Node)) :
    moveBelow source target entries = entries.map fun e => (relocate source target e.1, e.2) := by
  refine List.map_congr_left fun e _ => ?_
  rw [relocate]
  split_ifs <;> rfl

structure CanMove (fs : FileSystem) (source target : Location) : Prop where
  source_isEntry : IsEntry source
  target_isEntry : IsEntry target
  not_below : ¬source <+: target
  not_above : ¬target <+: source
  free : ∀ below, below ≠ [] → fs.node? (target ++ below) = none

def move (fs : FileSystem) (source target : Location) : FileSystem :=
  { fs with entries := moveBelow source target (Assoc.erase target fs.entries) }

theorem node?_move_of_apart {fs : FileSystem} {source target loc : Location}
    (hsource : ¬source <+: loc) (htarget : ¬target <+: loc) :
    (fs.move source target).node? loc = fs.node? loc := by
  by_cases hloc : IsEntry loc
  · have hsame : relocate source target loc = loc := relocate_of_not_below hsource
    have halone : ∀ e ∈ Assoc.erase target fs.entries,
        relocate source target e.1 = relocate source target loc → e.1 = loc := by
      intro e _ heq
      rw [hsame] at heq
      by_cases hbelow : source <+: e.1
      · obtain ⟨rest, hrest⟩ := hbelow
        rw [← hrest, relocate_append] at heq
        exact absurd ⟨rest, heq⟩ htarget
      · rwa [relocate_of_not_below hbelow] at heq
    have hne : loc ≠ target := fun heq => htarget (heq ▸ List.prefix_refl loc)
    have hfound := Assoc.get?_map_keys halone
    rw [hsame, Assoc.get?_erase_of_ne hne] at hfound
    rw [node?_of_isEntry hloc, node?_of_isEntry hloc, move, moveBelow_eq, hfound]
  · rw [node?_of_not_isEntry hloc, node?_of_not_isEntry hloc]

namespace CanMove

variable {fs : FileSystem} {source target : Location}

theorem not_below_target (h : CanMove fs source target) {e : Location × Node}
    (he : e ∈ Assoc.erase target fs.entries) : ¬target <+: e.1 := by
  rintro ⟨below, hbelow⟩
  obtain ⟨he, hne⟩ := List.mem_filter.mp he
  have hnil : below ≠ [] := by
    rintro rfl
    rw [List.append_nil] at hbelow
    simp [hbelow] at hne
  exact mem_entries_node? he (hbelow ▸ h.target_isEntry.append below) (hbelow ▸ h.free below hnil)

theorem node?_target (h : CanMove fs source target) (below : Location) :
    (fs.move source target).node? (target ++ below) = fs.node? (source ++ below) := by
  have halone : ∀ e ∈ Assoc.erase target fs.entries,
      relocate source target e.1 = relocate source target (source ++ below) →
      e.1 = source ++ below := by
    intro e he heq
    rw [relocate_append] at heq
    by_cases hbelow : source <+: e.1
    · obtain ⟨rest, hrest⟩ := hbelow
      rw [← hrest, relocate_append] at heq
      rw [← hrest, List.append_cancel_left heq]
    · rw [relocate_of_not_below hbelow] at heq
      exact absurd ⟨below, heq.symm⟩ (h.not_below_target he)
  have hne : source ++ below ≠ target := fun heq => h.not_below ⟨below, heq⟩
  rw [node?_of_isEntry (h.target_isEntry.append below),
    node?_of_isEntry (h.source_isEntry.append below), move, moveBelow_eq,
    ← relocate_append source target below, Assoc.get?_map_keys halone, Assoc.get?_erase_of_ne hne]

theorem node?_source (h : CanMove fs source target) {loc : Location} (hsource : source <+: loc)
    (htarget : ¬target <+: loc) : (fs.move source target).node? loc = none := by
  have hloc : IsEntry loc := by
    obtain ⟨below, rfl⟩ := hsource
    exact h.source_isEntry.append below
  rw [node?_of_isEntry hloc, Assoc.get?_eq_none_iff, move, moveBelow_eq, Assoc.keys, List.map_map,
    List.mem_map]
  rintro ⟨e, -, heq⟩
  rw [Function.comp_apply] at heq
  by_cases hbelow : source <+: e.1
  · obtain ⟨rest, hrest⟩ := hbelow
    rw [← hrest, relocate_append] at heq
    exact htarget ⟨rest, heq⟩
  · rw [relocate_of_not_below hbelow] at heq
    exact hbelow (heq ▸ hsource)

theorem node?_cases (h : CanMove fs source target) {loc : Location} {node : Node}
    (hnode : (fs.move source target).node? loc = some node) :
    (∃ below, loc = target ++ below ∧ fs.node? (source ++ below) = some node) ∨
      ¬source <+: loc ∧ ¬target <+: loc ∧ fs.node? loc = some node := by
  by_cases htarget : target <+: loc
  · obtain ⟨below, rfl⟩ := htarget
    rw [h.node?_target] at hnode
    exact .inl ⟨below, rfl, hnode⟩
  · by_cases hsource : source <+: loc
    · rw [h.node?_source hsource htarget] at hnode
      cases hnode
    · rw [node?_move_of_apart hsource htarget] at hnode
      exact .inr ⟨hsource, htarget, hnode⟩

end CanMove

theorem Sound.move {fs : FileSystem} (hs : fs.Sound) {source dir : Location} {name : Text}
    (h : CanMove fs source (dir ++ [name])) (hdir : fs.node? dir = some .directory) :
    (fs.move source (dir ++ [name])).Sound := by
  have hshort : ¬dir ++ [name] <+: dir := fun hbelow => by
    have hlength := hbelow.length_le
    rw [List.length_append, List.length_singleton] at hlength
    omega
  refine ⟨?_, ?_, ?_⟩
  · intro loc last hnode
    obtain ⟨node, hsome⟩ := Option.ne_none_iff_exists'.mp hnode
    rcases h.node?_cases hsome with ⟨below, hloc, hbefore⟩ | ⟨hsource, htarget, hbefore⟩
    · rcases List.eq_nil_or_concat' below with rfl | ⟨below, last', rfl⟩
      · -- It is the entry itself that was moved, so its directory is the new one.
        rw [List.append_nil] at hloc
        obtain ⟨rfl, -⟩ := List.append_inj' hloc rfl
        rw [node?_move_of_apart (fun hbelow =>
          h.not_below (hbelow.trans (List.prefix_append _ _))) hshort]
        exact hdir
      · rw [← List.append_assoc] at hloc hbefore
        obtain ⟨rfl, -⟩ := List.append_inj' hloc rfl
        rw [h.node?_target]
        exact hs.parent (hbefore ▸ Option.some_ne_none node)
    · have habove := List.prefix_append loc [last]
      rw [node?_move_of_apart (fun hbelow => hsource (hbelow.trans habove))
        fun hbelow => htarget (hbelow.trans habove)]
      exact hs.parent (hbefore ▸ Option.some_ne_none node)
  · intro loc n hfile
    rcases h.node?_cases hfile with ⟨below, -, hbefore⟩ | ⟨-, -, hbefore⟩
    · exact hs.inhabited hbefore
    · exact hs.inhabited hbefore
  · intro loc loc' n hfile hfile'
    rcases h.node?_cases hfile with ⟨below, rfl, hbefore⟩ | ⟨hsource, -, hbefore⟩
    · rcases h.node?_cases hfile' with ⟨below', rfl, hbefore'⟩ | ⟨hsource', -, hbefore'⟩
      · rw [List.append_cancel_left (hs.injective hbefore hbefore')]
      · exact absurd ⟨below, hs.injective hbefore hbefore'⟩ hsource'
    · rcases h.node?_cases hfile' with ⟨below', rfl, hbefore'⟩ | ⟨-, -, hbefore'⟩
      · exact absurd ⟨below', hs.injective hbefore' hbefore⟩ hsource
      · exact hs.injective hbefore hbefore'

theorem node?_move {fs : FileSystem} (hs : fs.Sound) {source target : Location} {n : Nat}
    (h : CanMove fs source target) (hfile : fs.node? source = some (.file n)) :
    (fs.move source target).node? =
      Function.update (Function.update fs.node? source none) target (some (.file n)) := by
  funext loc
  by_cases htarget : target <+: loc
  · obtain ⟨below, rfl⟩ := htarget
    rw [h.node?_target]
    by_cases hnil : below = []
    · rw [hnil, List.append_nil, List.append_nil, Function.update_self, hfile]
    · have hne : target ++ below ≠ target := fun heq => hnil (List.append_right_eq_self.mp heq)
      have hsource : target ++ below ≠ source := fun heq => h.not_above ⟨below, heq⟩
      rw [hs.node?_below (by simp [hfile]) hnil, Function.update_of_ne hne,
        Function.update_of_ne hsource, h.free below hnil]
  · have hne : loc ≠ target := fun heq => htarget (heq ▸ List.prefix_refl loc)
    rw [Function.update_of_ne hne]
    by_cases hsource : source <+: loc
    · rw [h.node?_source hsource htarget]
      obtain ⟨below, rfl⟩ := hsource
      by_cases hnil : below = []
      · rw [hnil, List.append_nil, Function.update_self]
      · have hne : source ++ below ≠ source := fun heq => hnil (List.append_right_eq_self.mp heq)
        rw [Function.update_of_ne hne, hs.node?_below (by simp [hfile]) hnil]
    · have hne' : loc ≠ source := fun heq => hsource (heq ▸ List.prefix_refl loc)
      rw [node?_move_of_apart hsource htarget, Function.update_of_ne hne']

end FileSystem

end StructuredLog
