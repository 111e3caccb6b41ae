import Mathlib.Data.List.DropRight
import Mathlib.Logic.ExistsUnique
import StructuredLog.Proofs.Files.Names
import StructuredLog.SourcePath

/-!
# Names of source modules

The path of a source file is made of a directory, a name and an extension in exactly one way. One
search from the end of the path cuts it behind its last slash, and another one from the end of that
segment cuts it at its last dot, if that is not its first octet. What they leave is the segment and
the name of the module. Main statement: `parts_exact`.
-/

namespace StructuredLog

namespace SourcePath

open FilePath (slash)
open Text (ascii)

def dot : UInt8 := 46

structure Parts where
  directory : Text
  name : Text
  extension : Text
  deriving DecidableEq, Repr

structure Parts.Of (parts : Parts) (path : Text) : Prop where
  whole : path = parts.directory ++ parts.name ++ parts.extension
  directory_ends : parts.directory = [] ∨ parts.directory.getLast? = some slash
  slash_not_mem : slash ∉ parts.name ++ parts.extension
  extension_starts :
    parts.extension = [] ∨ parts.extension.head? = some dot ∧ dot ∉ parts.extension.tail
  name_ne_nil : parts.name ++ parts.extension ≠ [] → parts.name ≠ []
  dot_not_mem : parts.extension = [] → dot ∉ parts.name.tail

def behindLast (sep : UInt8) (low : Nat) (t : Text) : Nat → Option Nat
  | 0 => none
  | pos + 1 =>
    if low < pos + 1 then
      if t[pos]? = some sep then some (pos + 1) else behindLast sep low t pos
    else none

/-- What a search tells of the text: where it can be cut, or that it cannot. -/
inductive Cut (sep : UInt8) (low : Nat) (t : Text) : Option Nat → Prop
  | nowhere (h : sep ∉ t.drop low) : Cut sep low t none
  | behind {before after : Text} (ht : t = before ++ sep :: after) (hlow : low ≤ before.length)
      (hafter : sep ∉ after) : Cut sep low t (some (before.length + 1))

def searchedSegment (path : Text) : Text :=
  match behindLast slash 0 path path.length with
  | none => path
  | some pos => path.drop pos

def searchedStem (segment : Text) : Text :=
  match behindLast dot 1 segment segment.length with
  | none => segment
  | some pos => segment.rdrop (segment.length - (pos - 1))

variable {sep : UInt8} {low : Nat} {t path segment : Text} {parts parts' : Parts}

theorem cut_behindLast {pos : Nat} (hpos : pos ≤ t.length) (hpassed : sep ∉ t.drop pos) :
    Cut sep low t (behindLast sep low t pos) := by
  have hended : ∀ pos ≤ low, sep ∉ t.drop pos → Cut sep low t none := fun pos hle h =>
    .nowhere fun hmem => h (List.drop_subset_drop_left t hle hmem)
  induction pos with
  | zero => exact hended 0 (Nat.zero_le low) hpassed
  | succ pos ih =>
    have hdrop : t.drop pos = t[pos] :: t.drop (pos + 1) := List.drop_eq_getElem_cons hpos
    simp only [behindLast, List.getElem?_eq_getElem hpos, Option.some.injEq]
    split_ifs with hlow hsep
    · have hsplit : t = t.take pos ++ sep :: t.drop (pos + 1) := by
        rw [← hsep, ← hdrop, List.take_append_drop]
      have hlength : (t.take pos).length = pos := List.length_take_of_le (Nat.le_of_lt hpos)
      have hcut := Cut.behind hsplit (hlength.symm ▸ Nat.le_of_lt_succ hlow) hpassed
      rwa [hlength] at hcut
    · refine ih (Nat.le_of_lt hpos) ?_
      rw [hdrop, List.mem_cons, not_or]
      exact ⟨Ne.symm hsep, hpassed⟩
    · exact hended (pos + 1) (Nat.le_of_not_lt hlow) hpassed

theorem cut_text (sep : UInt8) (low : Nat) (t : Text) :
    Cut sep low t (behindLast sep low t t.length) :=
  cut_behindLast (Nat.le_refl _) (by simp)

theorem exists_directory (path : Text) :
    ∃ directory, path = directory ++ searchedSegment path ∧
      (directory = [] ∨ directory.getLast? = some slash) ∧ slash ∉ searchedSegment path := by
  have hcut := cut_text slash 0 path
  rw [searchedSegment]
  generalize behindLast slash 0 path path.length = found at hcut
  cases hcut with
  | nowhere h => exact ⟨[], rfl, .inl rfl, h⟩
  | @behind before after ht _ hafter =>
    have hpath : path = (before ++ [slash]) ++ after := by simpa using ht
    have hdrop : path.drop (before.length + 1) = after := by
      rw [hpath, List.drop_left' (by simp)]
    dsimp only
    rw [hdrop]
    exact ⟨before ++ [slash], hpath, .inr (by simp), hafter⟩

theorem exists_extension (segment : Text) :
    ∃ extension, segment = searchedStem segment ++ extension ∧
      (extension = [] ∨ extension.head? = some dot ∧ dot ∉ extension.tail) ∧
      (segment ≠ [] → searchedStem segment ≠ []) ∧
      (extension = [] → dot ∉ (searchedStem segment).tail) := by
  have hcut := cut_text dot 1 segment
  rw [searchedStem]
  generalize behindLast dot 1 segment segment.length = found at hcut
  cases hcut with
  | nowhere h =>
    refine ⟨[], (List.append_nil _).symm, .inl rfl, id, fun _ => ?_⟩
    rwa [← List.drop_one]
  | @behind before after hsegment hlow hafter =>
    have hlength : segment.length - (before.length + 1 - 1) = (dot :: after).length := by
      rw [hsegment, List.length_append]
      omega
    have hstem : segment.rdrop (segment.length - (before.length + 1 - 1)) = before := by
      rw [hlength, hsegment, List.rdrop_append_length]
    dsimp only
    rw [hstem]
    exact ⟨dot :: after, hsegment, .inr ⟨rfl, hafter⟩,
      fun _ => List.length_pos_iff.mp hlow, fun h => nomatch h⟩

theorem exists_parts (path : Text) :
    ∃ parts : Parts, parts.Of path ∧ searchedSegment path = parts.name ++ parts.extension ∧
      searchedStem (searchedSegment path) = parts.name := by
  obtain ⟨directory, hpath, hends, hslash⟩ := exists_directory path
  obtain ⟨extension, hsegment, hstarts, hname, hdot⟩ := exists_extension (searchedSegment path)
  refine ⟨⟨directory, searchedStem (searchedSegment path), extension⟩, ?_, hsegment, rfl⟩
  exact
    { whole := by rw [List.append_assoc, ← hsegment, ← hpath]
      directory_ends := hends
      slash_not_mem := hsegment ▸ hslash
      extension_starts := hstarts
      name_ne_nil := fun h => hname (hsegment ▸ h)
      dot_not_mem := hdot }

theorem lastSegment_eq_fileName (path : Text) : lastSegment path = FilePath.fileName path := rfl

theorem dropExtension_of_dot_not_mem (h : dot ∉ segment.tail) :
    dropExtension segment = segment := by
  cases segment with
  | nil => rfl
  | cons first rest =>
    have hnone : rest.reverse.dropWhile (· ≠ 46) = [] :=
      List.dropWhile_eq_nil_iff.mpr (Text.decide_ne_of_not_mem (mt List.mem_reverse.mp h))
    rw [dropExtension, hnone]

theorem dropExtension_append_dot {name after : Text} (hname : name ≠ []) (h : dot ∉ after) :
    dropExtension (name ++ dot :: after) = name := by
  obtain ⟨first, rest, rfl⟩ := List.exists_cons_of_ne_nil hname
  have hall : ∀ b ∈ after.reverse, decide (b ≠ 46) = true :=
    Text.decide_ne_of_not_mem (mt List.mem_reverse.mp h)
  have hlast : (rest ++ dot :: after).reverse.dropWhile (· ≠ 46) = dot :: rest.reverse := by
    rw [List.reverse_append, List.reverse_cons, List.append_assoc,
      List.dropWhile_append_of_pos hall, List.singleton_append,
      List.dropWhile_cons_of_neg (by decide)]
  rw [List.cons_append, dropExtension, hlast]
  dsimp only
  rw [List.reverse_reverse]

namespace Parts.Of

theorem lastSegment_eq (h : parts.Of path) : lastSegment path = parts.name ++ parts.extension := by
  rw [lastSegment_eq_fileName, h.whole, List.append_assoc]
  rcases h.directory_ends with hnil | hslash
  · rw [hnil, List.nil_append, FilePath.fileName_of_slash_not_mem h.slash_not_mem]
  · obtain ⟨above, habove⟩ := List.getLast?_eq_some_iff.mp hslash
    rw [habove, List.append_assoc, List.singleton_append,
      FilePath.fileName_append_slash h.slash_not_mem]

theorem stem_eq (h : parts.Of path) : stem path = parts.name := by
  rw [stem, h.lastSegment_eq]
  rcases h.extension_starts with hnil | ⟨hdot, hrest⟩
  · rw [hnil, List.append_nil, dropExtension_of_dot_not_mem (h.dot_not_mem hnil)]
  · obtain ⟨rest, hextension⟩ := List.head?_eq_some_iff.mp hdot
    have hname : parts.name ≠ [] := h.name_ne_nil (by simp [hextension])
    rw [hextension, List.tail_cons] at hrest
    rw [hextension, dropExtension_append_dot hname hrest]

theorem unique (h : parts.Of path) (h' : parts'.Of path) : parts = parts' := by
  obtain ⟨directory, name, extension⟩ := parts
  obtain ⟨directory', name', extension'⟩ := parts'
  obtain rfl : name = name' := h.stem_eq.symm.trans h'.stem_eq
  have hsegment : name ++ extension = name ++ extension' :=
    h.lastSegment_eq.symm.trans h'.lastSegment_eq
  obtain rfl : extension = extension' := List.append_cancel_left hsegment
  have hwhole : directory ++ name ++ extension = directory' ++ name ++ extension :=
    h.whole.symm.trans h'.whole
  rw [List.append_assoc, List.append_assoc] at hwhole
  obtain rfl : directory = directory' := List.append_cancel_right hwhole
  rfl

theorem below (h : parts.Of path) (dir : Text) :
    { parts with directory := dir ++ slash :: parts.directory }.Of (dir ++ slash :: path) where
  whole := by rw [h.whole]; simp
  directory_ends := by
    refine .inr ?_
    rcases h.directory_ends with hnil | hslash
    · simp [hnil]
    · simp [List.getLast?_append, List.getLast?_cons, hslash]
  slash_not_mem := h.slash_not_mem
  extension_starts := h.extension_starts
  name_ne_nil := h.name_ne_nil
  dot_not_mem := h.dot_not_mem

end Parts.Of

/-- A path has exactly one directory, name and extension. Its last segment is the name with the
extension and its stem is the name, and this is what the searches from the end leave. So the stem of
a segment that is not empty is not empty, a dot in front belongs to the stem, and a directory put in
front of the path changes neither the segment nor the stem. -/
theorem parts_exact (path : Text) :
    (∃! parts : Parts, parts.Of path) ∧
    (∀ parts : Parts, parts.Of path →
      lastSegment path = parts.name ++ parts.extension ∧ stem path = parts.name) ∧
    (searchedSegment path = lastSegment path ∧ searchedStem (searchedSegment path) = stem path) ∧
    (lastSegment path ≠ [] → stem path ≠ []) ∧
    (∀ rest, lastSegment path = dot :: rest →
      (stem path).head? = some dot ∧ (dot ∉ rest → stem path = dot :: rest)) ∧
    ∀ dir, lastSegment (dir ++ slash :: path) = lastSegment path ∧
      stem (dir ++ slash :: path) = stem path := by
  obtain ⟨parts, hparts, hsegment, hstem⟩ := exists_parts path
  have hne : lastSegment path ≠ [] → stem path ≠ [] := by
    rw [hparts.lastSegment_eq, hparts.stem_eq]
    exact hparts.name_ne_nil
  refine ⟨⟨parts, hparts, fun _ h => h.unique hparts⟩,
    fun _ h => ⟨h.lastSegment_eq, h.stem_eq⟩, ⟨?_, ?_⟩, hne, fun rest hdot => ⟨?_, fun hrest => ?_⟩,
    fun dir => ⟨?_, ?_⟩⟩
  · rw [hsegment, hparts.lastSegment_eq]
  · rw [hstem, hparts.stem_eq]
  · obtain ⟨first, more, hfirst⟩ := List.exists_cons_of_ne_nil (hne (by simp [hdot]))
    have hhead : (dot :: rest).head? = (stem path ++ parts.extension).head? := by
      rw [hparts.stem_eq, ← hparts.lastSegment_eq, hdot]
    rw [hfirst] at hhead ⊢
    exact hhead.symm
  · rw [stem, hdot]
    exact dropExtension_of_dot_not_mem hrest
  · rw [(hparts.below dir).lastSegment_eq, hparts.lastSegment_eq]
  · rw [(hparts.below dir).stem_eq, hparts.stem_eq]

/-- Dots in the directory, in front of the name, inside it and before the extension. -/
theorem parts_exact_dotted :
    let path := ascii "src/.cache/.log.tar.gz"
    let hidden := ascii "src/.cache/.log"
    let parts : Parts := ⟨ascii "src/.cache/", ascii ".log.tar", ascii ".gz"⟩
    parts.Of path ∧ lastSegment path = ascii ".log.tar.gz" ∧ stem path = ascii ".log.tar" ∧
      stem path ≠ [] ∧ (stem path).head? = some dot ∧
      lastSegment hidden = dot :: ascii "log" ∧ dot ∉ ascii "log" ∧
      stem hidden = dot :: ascii "log" := by
  intro path hidden parts
  have hparts : parts.Of path := by constructor <;> decide
  obtain ⟨hsegment, hstem⟩ := (parts_exact path).2.1 parts hparts
  obtain ⟨-, -, -, hne, hleading, -⟩ := parts_exact path
  obtain ⟨-, -, -, -, hwhole, -⟩ := parts_exact hidden
  have hhidden : lastSegment hidden = dot :: ascii "log" := by decide
  have hplain : dot ∉ ascii "log" := by decide
  exact ⟨hparts, hsegment, hstem, hne (by rw [hsegment]; decide),
    (hleading (ascii "log.tar.gz") hsegment).1, hhidden, hplain, (hwhole _ hhidden).2 hplain⟩

end SourcePath

end StructuredLog
