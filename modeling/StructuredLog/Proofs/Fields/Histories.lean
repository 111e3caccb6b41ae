import Mathlib.Data.List.Induction
import StructuredLog.Proofs.Context.Merging
import StructuredLog.Proofs.Text.Order
import StructuredLog.Redaction

/-!
# Fields remember the order of insertion

A history of changes tells of every name whether it is there, which value it was given last, and
when it came in. The fields that the changes lead to hold just that, in the order in which the
names came in, and so do the fields that any operations of users lead to. Main statement:
`history_remembered`.
-/

namespace StructuredLog

/-- Something happened that was fit to happen after what came before it, and all that came later
is of one kind. -/
def Since {α : Type} (happens : List α → α → Prop) (holds : α → Prop) (history : List α) : Prop :=
  ∃ before e after, history = before ++ e :: after ∧ happens before e ∧ ∀ later ∈ after, holds later

section Since

variable {α : Type} {happens : List α → α → Prop} {holds : α → Prop}

theorem not_since_nil : ¬Since happens holds [] := by
  rintro ⟨before, e, after, heq, -, -⟩
  simp at heq

theorem since_concat (history : List α) (e : α) : Since happens holds (history ++ [e]) ↔
    happens history e ∨ holds e ∧ Since happens holds history := by
  constructor
  · rintro ⟨before, x, after, heq, hx, hafter⟩
    rcases List.eq_nil_or_concat' after with rfl | ⟨front, last, rfl⟩
    · obtain ⟨rfl, hlast⟩ := List.append_inj' heq rfl
      cases hlast
      exact .inl hx
    · rw [← List.cons_append, ← List.append_assoc] at heq
      obtain ⟨rfl, hlast⟩ := List.append_inj' heq rfl
      cases hlast
      exact .inr ⟨hafter e (by simp), before, x, front, rfl, hx,
        fun later hlater => hafter later (by simp [hlater])⟩
  · rintro (he | ⟨hlast, before, x, after, rfl, hx, hafter⟩)
    · exact ⟨history, e, [], rfl, he, by simp⟩
    · refine ⟨before, x, after ++ [e], by simp, hx, fun later hlater => ?_⟩
      rcases List.mem_append.mp hlater with hlater | hlater
      · exact hafter later hlater
      · rwa [List.mem_singleton.mp hlater]

end Since

namespace Fields

inductive Change where
  | assign (key : Text) (val : Value)
  | overwrite (p : Text → Bool) (val : Value)
  | remove (p : Text → Bool)

namespace Change

def apply (f : Fields) : Change → Fields
  | assign key val => f.set key val
  | overwrite p val => f.revalued fun key old => if p key then val else old
  | remove p => f.eraseIf p

def Inserts (key : Text) : Change → Prop
  | assign k _ => k = key
  | _ => False

def Removes (key : Text) : Change → Prop
  | remove p => p key = true
  | _ => False

def Concerns (key : Text) : Change → Prop
  | assign k _ => k = key
  | overwrite p _ => p key = true
  | remove p => p key = true

end Change

def Present (key : Text) : List Change → Prop :=
  Since (fun _ c => c.Inserts key) fun c => ¬c.Removes key

def Change.Gives (key : Text) (val : Value) (before : List Change) : Change → Prop
  | assign k v => k = key ∧ v = val
  | overwrite p v => p key = true ∧ v = val ∧ Present key before
  | remove _ => False

/-- The name was given the value, and neither got another one nor went since. -/
def LastGiven (key : Text) (val : Value) : List Change → Prop :=
  Since (fun before c => c.Gives key val before) fun c => ¬c.Concerns key

/-- The name was not there when it came in after `n` changes, and has not gone since. -/
def InsertedAfter (n : Nat) (key : Text) : List Change → Prop :=
  Since (fun before c => before.length = n ∧ ¬Present key before ∧ c.Inserts key)
    fun c => ¬c.Removes key

variable {f : Fields} {key k : Text} {val v : Value} {p : Text → Bool} {history : List Change}
  {n : Nat} {c : Change}

theorem present_concat :
    Present key (history ++ [c]) ↔ c.Inserts key ∨ ¬c.Removes key ∧ Present key history :=
  since_concat history c

theorem lastGiven_concat : LastGiven key val (history ++ [c]) ↔
    c.Gives key val history ∨ ¬c.Concerns key ∧ LastGiven key val history :=
  since_concat history c

theorem insertedAfter_concat : InsertedAfter n key (history ++ [c]) ↔
    (history.length = n ∧ ¬Present key history ∧ c.Inserts key) ∨
      ¬c.Removes key ∧ InsertedAfter n key history :=
  since_concat history c

theorem InsertedAfter.lt_length (h : InsertedAfter n key history) : n < history.length := by
  obtain ⟨before, c, after, rfl, ⟨rfl, -, -⟩, -⟩ := h
  simp

theorem InsertedAfter.present (h : InsertedAfter n key history) : Present key history := by
  obtain ⟨before, c, after, heq, ⟨-, -, hc⟩, hafter⟩ := h
  exact ⟨before, c, after, heq, hc, hafter⟩

theorem InsertedAfter.unique {m : Nat} (hm : InsertedAfter m key history)
    (hn : InsertedAfter n key history) : m = n := by
  induction history using List.reverseRecOn with
  | nil => exact absurd hm not_since_nil
  | append_singleton history c ih =>
    rcases insertedAfter_concat.mp hm with ⟨rfl, habsent, -⟩ | ⟨-, hm⟩
    · rcases insertedAfter_concat.mp hn with ⟨heq, -, -⟩ | ⟨-, hn⟩
      · exact heq
      · exact absurd hn.present habsent
    · rcases insertedAfter_concat.mp hn with ⟨-, habsent, -⟩ | ⟨-, hn⟩
      · exact absurd hm.present habsent
      · exact ih hm hn

theorem Present.exists_insertedAfter (h : Present key history) :
    ∃ n, InsertedAfter n key history := by
  induction history using List.reverseRecOn with
  | nil => exact absurd h not_since_nil
  | append_singleton history c ih =>
    by_cases hpresent : Present key history
    · rcases present_concat.mp h with hc | ⟨hc, -⟩
      · have hkept : ¬c.Removes key := by
          cases c with
          | assign k v => exact id
          | overwrite p v => exact absurd hc id
          | remove p => exact absurd hc id
        exact (ih hpresent).imp fun n hn => insertedAfter_concat.mpr (.inr ⟨hkept, hn⟩)
      · exact (ih hpresent).imp fun n hn => insertedAfter_concat.mpr (.inr ⟨hc, hn⟩)
    · have hc := (present_concat.mp h).resolve_right fun hold => hpresent hold.2
      exact ⟨history.length, insertedAfter_concat.mpr (.inl ⟨rfl, hpresent, hc⟩)⟩

theorem insertedAfter_concat_of_present (h : Present key history) :
    InsertedAfter n key (history ++ [c]) ↔ ¬c.Removes key ∧ InsertedAfter n key history := by
  rw [insertedAfter_concat, or_iff_right fun hnew => hnew.2.1 h]

/-- Fields hold what a history tells: each name that is there once, with the value it was given
last, in the order in which the names came in. -/
structure Remembers (f : Fields) (history : List Change) : Prop where
  nodup : f.keys.Nodup
  mem_keys : ∀ {key}, key ∈ f.keys ↔ Present key history
  find? : ∀ {key val}, f.find? key = some val ↔ LastGiven key val history
  ordered : f.keys.Pairwise fun a b =>
    ∀ m n, InsertedAfter m a history → InsertedAfter n b history → m < n

theorem Remembers.mem_toList (h : Remembers f history) {e : Text × Value} :
    e ∈ f.toList ↔ LastGiven e.1 e.2 history := by
  rw [← h.find?]
  exact ⟨Assoc.get?_of_mem h.nodup, Assoc.mem_of_get?⟩

theorem Remembers.find?_eq_none_iff (h : Remembers f history) :
    f.find? key = none ↔ ¬Present key history := by
  rw [Fields.find?_eq_none_iff, h.mem_keys]

theorem Remembers.size_eq (h : Remembers f history) :
    f.size = {key | Present key history}.ncard := by
  have hkeys : {key | Present key history} = {key | key ∈ f.keys} :=
    Set.ext fun key => h.mem_keys.symm
  rw [hkeys, Text.ncard_mem h.nodup, size, keys, Assoc.keys, List.length_map]

theorem Remembers.countErased_eq (h : Remembers f history) (p : Text → Bool) :
    f.countErased p = {key | Present key history ∧ p key = true}.ncard := by
  have hkeys : {key | Present key history ∧ p key = true} = {key | key ∈ f.keys.filter p} := by
    ext key
    simp [h.mem_keys]
  rw [hkeys, Text.ncard_mem (h.nodup.filter p), countErased_eq_countP, List.countP_eq_length_filter]

theorem remembers_empty : Remembers empty [] where
  nodup := List.nodup_nil
  mem_keys := ⟨nofun, fun h => absurd h not_since_nil⟩
  find? := ⟨nofun, fun h => absurd h not_since_nil⟩
  ordered := .nil

theorem Remembers.ordered_concat (h : Remembers f history) (c : Change) :
    f.keys.Pairwise fun a b => ∀ m n, InsertedAfter m a (history ++ [c]) →
      InsertedAfter n b (history ++ [c]) → m < n := by
  refine h.ordered.imp_of_mem fun ha hb hab m n hm hn => ?_
  rw [insertedAfter_concat_of_present (h.mem_keys.mp ha)] at hm
  rw [insertedAfter_concat_of_present (h.mem_keys.mp hb)] at hn
  exact hab m n hm.2 hn.2

theorem Remembers.assign (h : Remembers f history) (k : Text) (v : Value) :
    Remembers (f.set k v) (history ++ [.assign k v]) where
  nodup := nodup_keys_set h.nodup k v
  mem_keys := by
    intro key
    rw [present_concat, ← h.mem_keys, keys_set]
    simp only [Change.Inserts, Change.Removes, not_false_eq_true, true_and]
    by_cases hk : k ∈ f.keys
    · rw [if_pos hk, or_iff_right_of_imp fun heq => heq ▸ hk]
    · rw [if_neg hk, List.mem_append, List.mem_singleton, or_comm, eq_comm]
  find? := by
    intro key val
    rw [lastGiven_concat, ← h.find?]
    simp only [Change.Gives, Change.Concerns]
    by_cases hk : k = key
    · subst hk
      simp
    · simp [hk, find?_set_of_ne (Ne.symm hk)]
  ordered := by
    have hold := h.ordered_concat (.assign k v)
    rw [keys_set]
    split_ifs with hk
    · exact hold
    · refine List.pairwise_append.mpr ⟨hold, List.pairwise_singleton _ _, ?_⟩
      intro a ha b hb m n hm hn
      rw [List.mem_singleton.mp hb] at hn
      have habsent : ¬Present k history := fun hpresent => hk (h.mem_keys.mpr hpresent)
      rw [insertedAfter_concat_of_present (h.mem_keys.mp ha)] at hm
      rcases insertedAfter_concat.mp hn with ⟨rfl, -, -⟩ | ⟨-, hn⟩
      · exact hm.2.lt_length
      · exact absurd hn.present habsent

theorem Remembers.overwrite (h : Remembers f history) (p : Text → Bool) (v : Value) :
    Remembers ((Change.overwrite p v).apply f) (history ++ [.overwrite p v]) := by
  have hkeys : ((Change.overwrite p v).apply f).keys = f.keys :=
    f.keys_revalued fun key old => if p key then v else old
  refine ⟨hkeys ▸ h.nodup, ?_, ?_, hkeys ▸ h.ordered_concat _⟩
  · intro key
    rw [hkeys, present_concat, ← h.mem_keys]
    simp [Change.Inserts, Change.Removes]
  · intro key val
    have hfind : ((Change.overwrite p v).apply f).find? key =
        (f.find? key).map fun old => if p key then v else old :=
      f.find?_revalued (fun key old => if p key then v else old) key
    rw [hfind, lastGiven_concat, ← h.find?]
    simp only [Change.Gives, Change.Concerns, ← h.mem_keys, ← contains_iff, contains]
    cases f.find? key <;> by_cases hp : p key <;> simp [hp]

theorem Remembers.remove (h : Remembers f history) (p : Text → Bool) :
    Remembers (f.eraseIf p) (history ++ [.remove p]) where
  nodup := by
    rw [keys_eraseIf]
    exact h.nodup.filter _
  mem_keys := by
    intro key
    rw [keys_eraseIf, List.mem_filter, present_concat, ← h.mem_keys]
    simp [Change.Inserts, Change.Removes, and_comm]
  find? := by
    intro key val
    rw [lastGiven_concat, ← h.find?]
    simp only [Change.Gives, Change.Concerns, false_or]
    by_cases hp : p key = true
    · simp [hp, find?_eraseIf_of_match hp]
    · simp [hp, find?_eraseIf_of_not (Bool.eq_false_iff.mpr hp)]
  ordered := by
    rw [keys_eraseIf]
    exact (h.ordered_concat _).filter _

theorem Remembers.step (h : Remembers f history) (c : Change) :
    Remembers (c.apply f) (history ++ [c]) := by
  cases c with
  | assign k v => exact h.assign k v
  | overwrite p v => exact h.overwrite p v
  | remove p => exact h.remove p

theorem Remembers.run (h : Remembers f history) (changes : List Change) :
    Remembers (changes.foldl Change.apply f) (history ++ changes) := by
  induction changes generalizing f history with
  | nil => simpa using h
  | cons c changes ih => simpa using ih (h.step c)

inductive Operation where
  | make (entries : List (Text × Value))
  | set (key : Text) (val : Value)
  | merge (other : Fields)
  | erase (key : Text)
  | eraseIf (p : Text → Bool)
  | clear
  | redact (r : Redaction)

namespace Operation

def apply (f : Fields) : Operation → Fields
  | make entries => ofList entries
  | set key val => f.set key val
  | merge other => f.merge other
  | erase key => f.erase key
  | eraseIf p => f.eraseIf p
  | clear => empty
  | redact r => r.redact f

def changes : Operation → List Change
  | make entries => .remove (fun _ => true) :: entries.map fun e => .assign e.1 e.2
  | set key val => [.assign key val]
  | merge other => other.toList.map fun e => .assign e.1 e.2
  | erase key => [.remove (· == key)]
  | eraseIf p => [.remove p]
  | clear => [.remove fun _ => true]
  | redact r => [.overwrite r.isSensitive (.text r.sentinel)]

theorem eraseIf_all (f : Fields) : f.eraseIf (fun _ => true) = empty := by
  simp [Fields.eraseIf, empty]

theorem apply_eq (f : Fields) (op : Operation) : op.apply f = op.changes.foldl Change.apply f := by
  cases op with
  | make entries =>
    simp only [changes, List.foldl_cons, List.foldl_map, Change.apply, eraseIf_all]
    rfl
  | set key val => rfl
  | merge other =>
    simp only [changes, List.foldl_map]
    rfl
  | erase key => rfl
  | eraseIf p => rfl
  | clear => exact (eraseIf_all f).symm
  | redact r => rfl

end Operation

def afterAll (ops : List Operation) : Fields := ops.foldl Operation.apply empty

def changesOf (ops : List Operation) : List Change := ops.flatMap Operation.changes

theorem afterAll_remembers (ops : List Operation) : Remembers (afterAll ops) (changesOf ops) := by
  have hfold : afterAll ops = (changesOf ops).foldl Change.apply empty := by
    rw [afterAll, changesOf, List.foldl_flatMap]
    exact List.foldl_ext _ _ _ fun f op _ => op.apply_eq f
  rw [hfold]
  exact remembers_empty.run (changesOf ops)

/-- After any operations the names are distinct. A name has the value that it was given last since
it came in, and none exactly if it is not there. The fields stand in the order in which their names
came in while they were not there, each at a time of its own, and setting one again moves nothing.
Erasing takes out exactly the fields that match, tells their number, and leaves the others in order;
and there are as many fields as names that are there. -/
theorem history_remembered (ops : List Operation) :
    let f := afterAll ops
    let h := changesOf ops
    f.keys.Nodup ∧
    (∀ key val, f.find? key = some val ↔ LastGiven key val h) ∧
    (∀ key, f.find? key = none ↔ ¬Present key h) ∧
    (∀ e, e ∈ f.toList ↔ LastGiven e.1 e.2 h) ∧
    (∀ key, key ∈ f.keys ↔ ∃! n, InsertedAfter n key h) ∧
    (f.keys.Pairwise fun a b => ∀ m n, InsertedAfter m a h → InsertedAfter n b h → m < n) ∧
    (∀ key val, Present key h → (f.set key val).keys = f.keys) ∧
    (∀ p, (f.eraseIf p).toList.Sublist f.toList ∧
      (∀ e, e ∈ (f.eraseIf p).toList ↔ e ∈ f.toList ∧ p e.1 = false) ∧
      f.countErased p = {key | Present key h ∧ p key = true}.ncard) ∧
    (∀ key, (f.erase key).toList.Sublist f.toList ∧
      (∀ e, e ∈ (f.erase key).toList ↔ e ∈ f.toList ∧ e.1 ≠ key) ∧
      (Present key h → f.countErased (· == key) = 1) ∧
      (¬Present key h → f.countErased (· == key) = 0)) ∧
    f.size = {key | Present key h}.ncard := by
  intro f h
  have hf : Remembers f h := afterAll_remembers ops
  refine ⟨hf.nodup, fun key val => hf.find?, fun key => hf.find?_eq_none_iff,
    fun e => hf.mem_toList, fun key => ⟨fun hkey => ?_, fun ⟨n, hn, _⟩ => ?_⟩, hf.ordered,
    fun key val hkey => ?_, fun p => ⟨?_, fun e => ?_, hf.countErased_eq p⟩,
    fun key => ⟨?_, fun e => ?_, fun hkey => ?_, fun hkey => ?_⟩, hf.size_eq⟩
  · obtain ⟨n, hn⟩ := (hf.mem_keys.mp hkey).exists_insertedAfter
    exact ⟨n, hn, fun m hm => InsertedAfter.unique hm hn⟩
  · exact hf.mem_keys.mpr (InsertedAfter.present hn)
  · exact Assoc.keys_set_of_mem (hf.mem_keys.mpr hkey) val
  · exact List.filter_sublist
  · rw [eraseIf, List.mem_filter]
    simp
  · exact List.filter_sublist
  · rw [erase, eraseIf, List.mem_filter]
    simp
  · have hset : {other | Present other h ∧ (other == key) = true} = {key} := by
      ext other
      simp only [beq_iff_eq, Set.mem_ofPred_eq, Set.mem_singleton_iff]
      exact ⟨And.right, fun heq => ⟨heq ▸ hkey, heq⟩⟩
    rw [hf.countErased_eq, hset, Set.ncard_singleton]
  · have hset : {other | Present other h ∧ (other == key) = true} = ∅ := by
      ext other
      simp only [beq_iff_eq, Set.mem_ofPred_eq, Set.mem_empty_iff_false, iff_false]
      rintro ⟨hother, rfl⟩
      exact hkey hother
    rw [hf.countErased_eq, hset, Set.ncard_empty]

def loginOperations : List Operation :=
  [.make [(Text.ascii "user", .text (Text.ascii "ann")), (Text.ascii "step", .bool false),
      (Text.ascii "user", .text (Text.ascii "bob"))],
    .set (Text.ascii "token") (.text (Text.ascii "t0")), .redact .standard,
    .erase (Text.ascii "user"), .merge ⟨[(Text.ascii "user", .null), (Text.ascii "step", .null)]⟩]

theorem history_remembered_login :
    afterAll loginOperations =
      ⟨[(Text.ascii "step", .null), (Text.ascii "token", .text Redaction.defaultSentinel),
        (Text.ascii "user", .null)]⟩ ∧
    Present (Text.ascii "user") (changesOf loginOperations) ∧
    (∃! n, InsertedAfter n (Text.ascii "user") (changesOf loginOperations)) ∧
    (afterAll loginOperations).countErased (· == Text.ascii "user") = 1 ∧
    {key | Present key (changesOf loginOperations)}.ncard = 3 := by
  have hfields : afterAll loginOperations =
      ⟨[(Text.ascii "step", .null), (Text.ascii "token", .text Redaction.defaultSentinel),
        (Text.ascii "user", .null)]⟩ := by decide
  obtain ⟨-, -, hnone, -, hinserted, -, -, -, herase, hsize⟩ := history_remembered loginOperations
  have hpresent : Present (Text.ascii "user") (changesOf loginOperations) := by
    refine Classical.not_not.mp ((hnone _).not.mp ?_)
    rw [hfields]
    decide
  have hmem : Text.ascii "user" ∈ (afterAll loginOperations).keys := by
    rw [hfields]
    decide
  refine ⟨hfields, hpresent, (hinserted _).mp hmem, (herase _).2.2.1 hpresent, ?_⟩
  rw [← hsize, hfields]
  rfl

end Fields

end StructuredLog
