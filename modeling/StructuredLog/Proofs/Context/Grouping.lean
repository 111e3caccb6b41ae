import Mathlib.Data.List.Basic
import StructuredLog.Proofs.Context.Merging

/-!
# Frames may be grouped at will

Merging fields is associative, also in the order of the names, with the empty set as its identity,
and merging fields into themselves changes nothing. So neighbouring frames can be merged before they
are entered, and names can be dropped before or after frames are merged. Main statement:
`merge_regroups`.
-/

namespace StructuredLog

namespace Assoc

variable {κ α : Type} [DecidableEq κ] {key other : κ} {l : List (κ × α)}

theorem set_set_of_mem (hne : other ≠ key) (hmem : key ∈ keys l) (val otherVal : α) :
    set key val (set other otherVal l) = set other otherVal (set key val l) := by
  induction l with
  | nil => cases hmem
  | cons e rest ih =>
    obtain ⟨k, a⟩ := e
    by_cases hk : k = key
    · have hk' : k ≠ other := fun h => hne (h ▸ hk)
      simp [set, hk, Ne.symm hne]
    · have hrest : key ∈ keys rest := by simpa [keys, Ne.symm hk] using hmem
      by_cases hk' : k = other
      · simp [set, hk', hne]
      · simp [set, hk, hk', ih hrest]

theorem filter_set (p : κ → Bool) (val : α) : (set key val l).filter (fun e => !p e.1) =
    if p key then l.filter (fun e => !p e.1) else set key val (l.filter fun e => !p e.1) := by
  induction l with
  | nil => by_cases hp : p key <;> simp [set, hp]
  | cons e rest ih =>
    obtain ⟨k, a⟩ := e
    by_cases hk : k = key
    · subst hk
      by_cases hp : p k <;> simp [set, hp]
    · by_cases hp : p key <;> by_cases hpk : p k <;> simp [set, hk, hp, hpk] at ih ⊢ <;> exact ih

end Assoc

namespace Fields

inductive Built : Fields → Prop where
  | empty : Built empty
  | set {f : Fields} (h : Built f) (key : Text) (val : Value) : Built (f.set key val)
  | merge {f g : Fields} (hf : Built f) (hg : Built g) : Built (f.merge g)
  | eraseIf {f : Fields} (h : Built f) (p : Text → Bool) : Built (f.eraseIf p)
  | assign {f : Fields} (h : Built f) (change : Text → Value → Value) :
    Built ⟨f.toList.map fun e => (e.1, change e.1 e.2)⟩

variable {f g : Fields} {key : Text}

theorem Built.nodup (h : Built f) : f.keys.Nodup := by
  induction h with
  | empty => exact List.nodup_nil
  | set _ key val ih => exact nodup_keys_set ih key val
  | merge _ _ ih _ => exact nodup_keys_setAll ih _
  | eraseIf _ p ih =>
    rw [keys_eraseIf]
    exact ih.filter _
  | @assign f _ change ih =>
    rw [keys, Assoc.keys, List.map_map]
    exact ih

theorem merge_cons (f : Fields) (key : Text) (val : Value) (rest : List (Text × Value)) :
    f.merge ⟨(key, val) :: rest⟩ = (f.set key val).merge ⟨rest⟩ := rfl

theorem set_merge_of_not_mem (hkey : key ∈ f.keys) (hother : key ∉ g.keys) (val : Value) :
    (f.merge g).set key val = (f.set key val).merge g := by
  obtain ⟨entries⟩ := g
  induction entries generalizing f with
  | nil => rfl
  | cons e rest ih =>
    obtain ⟨k, v⟩ := e
    have hne : k ≠ key := fun h => hother (h ▸ List.mem_cons_self)
    have hrest : key ∉ (Fields.mk rest).keys := fun h => hother (List.mem_cons_of_mem _ h)
    have hmem : key ∈ (f.set k v).keys := by
      rw [keys_set]
      split_ifs
      · exact hkey
      · exact List.mem_append_left _ hkey
    have hswap : (f.set k v).set key val = (f.set key val).set k v :=
      congrArg Fields.mk (Assoc.set_set_of_mem hne hkey val v)
    rw [merge_cons, merge_cons, ih hmem hrest, hswap]

theorem merge_set (hg : g.keys.Nodup) (f : Fields) (key : Text) (val : Value) :
    f.merge (g.set key val) = (f.merge g).set key val := by
  obtain ⟨entries⟩ := g
  induction entries generalizing f with
  | nil => rfl
  | cons e rest ih =>
    obtain ⟨k, v⟩ := e
    obtain ⟨hk, hrest⟩ := List.nodup_cons.mp hg
    by_cases hkey : k = key
    · subst hkey
      have hset : (Fields.mk ((k, v) :: rest)).set k val = ⟨(k, val) :: rest⟩ :=
        congrArg Fields.mk (if_pos rfl)
      have hthere : k ∈ (f.set k v).keys := by
        rw [← contains_iff, contains, find?_set_self]
        rfl
      have htwice : (f.set k v).set k val = f.set k val :=
        congrArg Fields.mk (Assoc.set_set k v val _)
      rw [hset, merge_cons, merge_cons, set_merge_of_not_mem hthere hk, htwice]
    · have hset : (Fields.mk ((k, v) :: rest)).set key val =
          ⟨(k, v) :: ((Fields.mk rest).set key val).toList⟩ := congrArg Fields.mk (if_neg hkey)
      rw [hset, merge_cons, merge_cons]
      exact ih (f.set k v) hrest

theorem merge_assoc (hg : g.keys.Nodup) (f h : Fields) :
    (f.merge g).merge h = f.merge (g.merge h) := by
  obtain ⟨entries⟩ := h
  induction entries generalizing g with
  | nil => rfl
  | cons e rest ih =>
    obtain ⟨k, v⟩ := e
    rw [merge_cons, merge_cons, ← merge_set hg, ih (nodup_keys_set hg k v)]

theorem merge_empty (f : Fields) : f.merge empty = f := rfl

theorem merge_of_disjoint (hg : g.keys.Nodup) (h : ∀ key ∈ g.keys, key ∉ f.keys) :
    f.merge g = ⟨f.toList ++ g.toList⟩ := by
  obtain ⟨entries⟩ := g
  induction entries generalizing f with
  | nil => exact congrArg Fields.mk (List.append_nil _).symm
  | cons e rest ih =>
    obtain ⟨k, v⟩ := e
    obtain ⟨hk, hrest⟩ := List.nodup_cons.mp hg
    have hnew : f.set k v = ⟨f.toList ++ [(k, v)]⟩ := congrArg Fields.mk
      (Assoc.set_of_get?_eq_none (Assoc.get?_eq_none_iff.mpr (h k List.mem_cons_self)) v)
    rw [merge_cons, hnew, ih hrest]
    · rw [List.append_assoc]
      rfl
    · intro key hkey
      rw [keys, Assoc.keys, List.map_append, List.mem_append, not_or]
      refine ⟨h key (List.mem_cons_of_mem _ hkey), fun hmem => hk ?_⟩
      rwa [← List.mem_singleton.mp hmem]

theorem empty_merge (hf : f.keys.Nodup) : empty.merge f = f :=
  merge_of_disjoint hf fun _ _ => List.not_mem_nil

theorem merge_of_find? (h : ∀ e ∈ g.toList, f.find? e.1 = some e.2) : f.merge g = f := by
  obtain ⟨entries⟩ := g
  induction entries with
  | nil => rfl
  | cons e rest ih =>
    obtain ⟨hfirst, hrest⟩ := List.forall_mem_cons.mp h
    have hset : f.set e.1 e.2 = f := congrArg Fields.mk (Assoc.set_of_get? hfirst)
    rw [merge_cons, hset, ih hrest]

theorem merge_self (hf : f.keys.Nodup) : f.merge f = f :=
  merge_of_find? fun _ => Assoc.get?_of_mem hf

theorem eraseIf_set (p : Text → Bool) (f : Fields) (key : Text) (val : Value) :
    (f.set key val).eraseIf p = if p key then f.eraseIf p else (f.eraseIf p).set key val := by
  have h : (Assoc.set key val f.toList).filter (fun e => !p e.1) =
      if p key then f.toList.filter (fun e => !p e.1)
      else Assoc.set key val (f.toList.filter fun e => !p e.1) := Assoc.filter_set p val
  split_ifs at h ⊢
  · exact congrArg Fields.mk h
  · exact congrArg Fields.mk h

theorem eraseIf_merge (p : Text → Bool) (f g : Fields) :
    (f.merge g).eraseIf p = (f.eraseIf p).merge (g.eraseIf p) := by
  obtain ⟨entries⟩ := g
  induction entries generalizing f with
  | nil => rfl
  | cons e rest ih =>
    obtain ⟨k, v⟩ := e
    rw [merge_cons, ih, eraseIf_set]
    by_cases hp : p k
    · have hdrop : (Fields.mk ((k, v) :: rest)).eraseIf p = (Fields.mk rest).eraseIf p :=
        congrArg Fields.mk (List.filter_cons_of_neg (by simp [hp]))
      rw [if_pos hp, hdrop]
    · have hkeep : (Fields.mk ((k, v) :: rest)).eraseIf p =
          ⟨(k, v) :: ((Fields.mk rest).eraseIf p).toList⟩ :=
        congrArg Fields.mk (List.filter_cons_of_pos (by simp [hp]))
      rw [if_neg hp, hkeep, merge_cons]

end Fields

namespace ContextStore

variable {s : ContextStore} {thread : ThreadId}

theorem merged_enter (s : ContextStore) (thread : ThreadId) (f : Fields) :
    (s.enter thread f).2.merged thread = (s.merged thread).merge f := by
  rw [merged, stack_enter, mergeFrames_concat]
  rfl

def enterAll (s : ContextStore) (thread : ThreadId) (frames : List Fields) : ContextStore :=
  frames.foldl (fun s f => (s.enter thread f).2) s

def together (frames : List Fields) : Fields := frames.foldl Fields.merge Fields.empty

theorem merged_enterAll (s : ContextStore) (thread : ThreadId) (frames : List Fields) :
    (s.enterAll thread frames).merged thread = frames.foldl Fields.merge (s.merged thread) := by
  induction frames generalizing s with
  | nil => rfl
  | cons f frames ih =>
    rw [enterAll, List.foldl_cons, List.foldl_cons, ← merged_enter]
    exact ih _

theorem nodup_foldl_merge {f : Fields} (hf : f.keys.Nodup) (frames : List Fields) :
    (frames.foldl Fields.merge f).keys.Nodup := by
  induction frames generalizing f with
  | nil => exact hf
  | cons g frames ih => exact ih (Fields.nodup_keys_setAll hf _)

theorem foldl_merge_eq {frames : List Fields} (h : ∀ f ∈ frames, f.keys.Nodup) (outer : Fields) :
    frames.foldl Fields.merge outer = outer.merge (together frames) := by
  induction frames using List.reverseRecOn with
  | nil => rfl
  | append_singleton frames f ih =>
    have hfront := fun g hg => h g (List.mem_append_left _ hg)
    rw [together, List.foldl_append, List.foldl_append, ih hfront]
    exact Fields.merge_assoc (nodup_foldl_merge (f := Fields.empty) List.nodup_nil frames) _ _

theorem merged_enterAll_flatten {groups : List (List Fields)}
    (h : ∀ frames ∈ groups, ∀ f ∈ frames, f.keys.Nodup) (s : ContextStore) (thread : ThreadId) :
    (s.enterAll thread groups.flatten).merged thread =
      (s.enterAll thread (groups.map together)).merged thread := by
  rw [merged_enterAll, merged_enterAll, List.foldl_flatten, List.foldl_map]
  exact List.foldl_ext _ _ _ fun outer frames hmem => foldl_merge_eq (h frames hmem) outer

theorem mergeFrames_eraseIf (p : Text → Bool) (frames : List Frame) :
    mergeFrames (frames.map fun f => { f with fields := f.fields.eraseIf p }) =
      (mergeFrames frames).eraseIf p := by
  induction frames using List.reverseRecOn with
  | nil => rfl
  | append_singleton frames f ih =>
    rw [List.map_append, List.map_singleton, mergeFrames_concat, mergeFrames_concat, ih,
      Fields.eraseIf_merge]

/-- For fields made by their operations. Merging is associative, with the empty set as its identity
on both sides, and merging fields into themselves changes nothing. The merge of a stack of frames
has each name once, where it first appears from the outermost frame on, with the value of the
innermost frame that has it. Entering frames one by one leads to the same merge as entering one
frame for each group of neighbours, two frames among them; and dropping names from every frame that
is merged comes to the same as dropping them from the merge. -/
theorem merge_regroups :
    (∀ a b c : Fields, a.Built → b.Built → c.Built → (a.merge b).merge c = a.merge (b.merge c)) ∧
    (∀ a : Fields, a.Built →
      Fields.empty.merge a = a ∧ a.merge Fields.empty = a ∧ a.merge a = a) ∧
    (∀ (a b : Fields) (p : Text → Bool), a.Built → b.Built →
      (a.merge b).eraseIf p = (a.eraseIf p).merge (b.eraseIf p)) ∧
    ∀ (s : ContextStore) (thread : ThreadId), (∀ f ∈ s.stack thread, f.fields.Built) →
      (s.merged thread).keys = firstNames (s.stack thread) ∧
      (∀ key, (s.merged thread).find? key = innermost? (s.stack thread) key) ∧
      (∀ f g : Fields, f.Built → g.Built →
        ((s.enter thread f).2.enter thread g).2.merged thread =
          (s.enter thread (f.merge g)).2.merged thread) ∧
      (∀ groups : List (List Fields), (∀ frames ∈ groups, ∀ f ∈ frames, f.Built) →
        (s.enterAll thread groups.flatten).merged thread =
          (s.enterAll thread (groups.map together)).merged thread) ∧
      ∀ p : Text → Bool,
        mergeFrames ((s.stack thread).map fun f => { f with fields := f.fields.eraseIf p }) =
          (s.merged thread).eraseIf p := by
  refine ⟨fun a b c _ hb _ => Fields.merge_assoc hb.nodup a c, fun a ha => ?_,
    fun a b p _ _ => Fields.eraseIf_merge p a b, fun s thread hframes => ?_⟩
  · exact ⟨Fields.empty_merge ha.nodup, Fields.merge_empty a, Fields.merge_self ha.nodup⟩
  refine ⟨keys_mergeFrames _, find?_mergeFrames fun f hf => (hframes f hf).nodup,
    fun f g hf _ => ?_, fun groups hgroups => ?_, fun p => mergeFrames_eraseIf p _⟩
  · rw [merged_enter, merged_enter, merged_enter, Fields.merge_assoc hf.nodup]
  · exact merged_enterAll_flatten
      (fun frames hmem f hf => (hgroups frames hmem f hf).nodup) s thread

def jobFields : Fields :=
  (Fields.empty.set (Text.ascii "user") (.text (Text.ascii "ann"))).set (Text.ascii "step")
    (.bool false)

def stepFields : Fields :=
  (Fields.empty.set (Text.ascii "step") (.bool true)).set (Text.ascii "part") .null

theorem merge_regroups_step :
    jobFields.Built ∧ stepFields.Built ∧
      (jobFields.merge stepFields).merge jobFields = jobFields.merge (stepFields.merge jobFields) ∧
      jobFields.merge jobFields = jobFields ∧
      ((empty.enter 0 jobFields).2.enter 0 stepFields).2.merged 0 =
        ⟨[(Text.ascii "user", .text (Text.ascii "ann")), (Text.ascii "step", .bool true),
          (Text.ascii "part", .null)]⟩ := by
  have hjob : jobFields.Built := .set (.set .empty _ _) _ _
  have hstep : stepFields.Built := .set (.set .empty _ _) _ _
  obtain ⟨hassoc, hunit, -, hstack⟩ := merge_regroups
  obtain ⟨-, -, htwo, -, -⟩ := hstack empty 0 nofun
  refine ⟨hjob, hstep, hassoc _ _ _ hjob hstep hjob, (hunit _ hjob).2.2, ?_⟩
  rw [htwo _ _ hjob hstep]
  decide

end ContextStore

end StructuredLog
