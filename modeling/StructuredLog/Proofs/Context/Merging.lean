import Mathlib.Data.List.Induction
import StructuredLog.Context

/-!
# What a merge of frames holds

Every name that a frame has is in the merge once, where it first appeared when the frames are read
from the outermost on, and with the value of the innermost frame that has it.
-/

namespace StructuredLog

namespace Fields

theorem find?_cons (key k : Text) (v : Value) (rest : List (Text × Value)) :
    (Fields.mk ((k, v) :: rest)).find? key =
      if k = key then some v else (Fields.mk rest).find? key := Assoc.get?_cons key k v rest

theorem find?_eq_none_iff {f : Fields} {key : Text} : f.find? key = none ↔ key ∉ f.keys :=
  Assoc.get?_eq_none_iff

theorem keys_set (f : Fields) (key : Text) (val : Value) :
    (f.set key val).keys = if key ∈ f.keys then f.keys else f.keys ++ [key] := by
  split
  · exact Assoc.keys_set_of_mem ‹_› val
  · exact Assoc.keys_set_of_not_mem ‹_› val

theorem nodup_keys_setAll {f : Fields} (hf : f.keys.Nodup) (entries : List (Text × Value)) :
    (f.setAll entries).keys.Nodup := by
  induction entries generalizing f with
  | nil => exact hf
  | cons e rest ih => exact ih (nodup_keys_set hf e.1 e.2)

theorem ofList_concat (entries : List (Text × Value)) (e : Text × Value) :
    ofList (entries ++ [e]) = (ofList entries).set e.1 e.2 := by
  simp [ofList, setAll]

theorem keys_ofList (entries : List (Text × Value)) :
    (ofList entries).keys = (entries.map (·.1)).eraseDups := by
  induction entries using List.reverseRecOn with
  | nil => rfl
  | append_singleton entries e ih =>
    rw [ofList_concat, keys_set, List.map_append, List.eraseDups_append, ih]
    by_cases he : e.1 ∈ entries.map (·.1)
    · simp [List.removeAll, he]
    · simp [List.removeAll, he, List.eraseDups_cons]

theorem find?_merge {f g : Fields} (hg : g.keys.Nodup) (key : Text) :
    (f.merge g).find? key = (g.find? key).or (f.find? key) := by
  obtain ⟨entries⟩ := g
  induction entries generalizing f with
  | nil => rfl
  | cons e rest ih =>
    obtain ⟨k, v⟩ := e
    obtain ⟨hk, hrest⟩ := List.nodup_cons.mp hg
    have hmerge : f.merge ⟨(k, v) :: rest⟩ = (f.set k v).merge ⟨rest⟩ := rfl
    rw [hmerge, ih hrest, find?_cons]
    by_cases hkey : k = key
    · subst hkey
      rw [if_pos rfl, find?_set_self, find?_eq_none_iff.mpr hk]
      rfl
    · rw [if_neg hkey, find?_set_of_ne (Ne.symm hkey)]

theorem find?_eraseIf_of_match {f : Fields} {p : Text → Bool} {key : Text} (hkey : p key = true) :
    (f.eraseIf p).find? key = none := by
  rw [find?_eq_none_iff, keys_eraseIf, List.mem_filter]
  simp [hkey]

theorem find?_eraseIf_of_not {f : Fields} {p : Text → Bool} {key : Text} (hkey : p key = false) :
    (f.eraseIf p).find? key = f.find? key := by
  obtain ⟨entries⟩ := f
  simp only [eraseIf, find?]
  induction entries with
  | nil => rfl
  | cons e rest ih =>
    by_cases he : p e.1
    · have hne : e.1 ≠ key := fun h => by simp [h, hkey] at he
      rw [List.filter_cons_of_neg (by simp [he]), ih, Assoc.get?_cons, if_neg hne]
    · rw [List.filter_cons_of_pos (by simp [he]), Assoc.get?_cons, Assoc.get?_cons, ih]

theorem countErased_eq_countP (f : Fields) (p : Text → Bool) :
    f.countErased p = f.keys.countP p := by
  rw [keys, Assoc.keys, List.countP_map]
  rfl

def revalued (f : Fields) (change : Text → Value → Value) : Fields :=
  ⟨f.toList.map fun e => (e.1, change e.1 e.2)⟩

theorem keys_revalued (f : Fields) (change : Text → Value → Value) :
    (f.revalued change).keys = f.keys := by
  simp [revalued, keys, Assoc.keys, Function.comp_def]

theorem find?_revalued (f : Fields) (change : Text → Value → Value) (key : Text) :
    (f.revalued change).find? key = (f.find? key).map (change key) := by
  obtain ⟨entries⟩ := f
  simp only [revalued, find?]
  induction entries with
  | nil => rfl
  | cons e rest ih =>
    rw [List.map_cons, Assoc.get?_cons, Assoc.get?_cons, ih]
    by_cases hkey : e.1 = key
    · rw [if_pos hkey, if_pos hkey, hkey]
      rfl
    · rw [if_neg hkey, if_neg hkey]

end Fields

namespace ContextStore

def firstNames (frames : List Frame) : List Text := (frames.flatMap (·.fields.keys)).eraseDups

/-- The value that the innermost frame with the name has for it. -/
def innermost? (frames : List Frame) (key : Text) : Option Value :=
  frames.reverse.findSome? (·.fields.find? key)

theorem mergeFrames_eq_ofList (frames : List Frame) :
    mergeFrames frames = Fields.ofList (frames.flatMap (·.fields.toList)) := by
  rw [Fields.ofList, Fields.setAll, List.foldl_flatMap]
  rfl

theorem mergeFrames_concat (frames : List Frame) (f : Frame) :
    mergeFrames (frames ++ [f]) = (mergeFrames frames).merge f.fields := by
  simp [mergeFrames]

theorem keys_mergeFrames (frames : List Frame) : (mergeFrames frames).keys = firstNames frames := by
  rw [mergeFrames_eq_ofList, Fields.keys_ofList, List.map_flatMap]
  rfl

theorem find?_mergeFrames {frames : List Frame} (hframes : ∀ f ∈ frames, f.fields.keys.Nodup)
    (key : Text) : (mergeFrames frames).find? key = innermost? frames key := by
  induction frames using List.reverseRecOn with
  | nil => rfl
  | append_singleton frames f ih =>
    have hlast := hframes f (List.mem_append_right _ (List.mem_singleton_self f))
    have hfront := ih fun g hg => hframes g (List.mem_append_left _ hg)
    rw [mergeFrames_concat, Fields.find?_merge hlast, hfront]
    simp [innermost?, List.findSome?_cons]
    cases f.fields.find? key <;> rfl

theorem nodup_keys_mergeFrames (frames : List Frame) : (mergeFrames frames).keys.Nodup := by
  rw [mergeFrames_eq_ofList]
  exact Fields.nodup_keys_setAll (f := Fields.empty) List.nodup_nil _

end ContextStore

end StructuredLog
