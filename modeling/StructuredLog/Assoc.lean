/-!
Lists of pairs used as finite maps. The first pair with a key counts. Setting a key replaces the
value of that pair in place, and appends a pair if there is none, so the order of the keys is
that of their first insertion.
-/

namespace StructuredLog.Assoc

variable {κ α : Type} [DecidableEq κ]

def get? (key : κ) : List (κ × α) → Option α
  | [] => none
  | (k, a) :: rest => if k = key then some a else get? key rest

def set (key : κ) (val : α) : List (κ × α) → List (κ × α)
  | [] => [(key, val)]
  | (k, a) :: rest => if k = key then (k, val) :: rest else (k, a) :: set key val rest

def erase (key : κ) (l : List (κ × α)) : List (κ × α) := l.filter fun e => decide (e.1 ≠ key)

def keys (l : List (κ × α)) : List κ := l.map (·.1)

@[simp] theorem get?_nil (key : κ) : get? key ([] : List (κ × α)) = none := rfl

theorem get?_cons (key k : κ) (a : α) (l : List (κ × α)) :
    get? key ((k, a) :: l) = if k = key then some a else get? key l := rfl

@[simp] theorem get?_set_self (key : κ) (val : α) (l : List (κ × α)) :
    get? key (set key val l) = some val := by
  induction l with
  | nil => simp [set, get?]
  | cons e rest ih =>
    obtain ⟨k, a⟩ := e
    by_cases h : k = key <;> simp [set, get?, h, ih]

theorem get?_set_of_ne {key other : κ} (h : other ≠ key) (val : α) (l : List (κ × α)) :
    get? other (set key val l) = get? other l := by
  induction l with
  | nil => simp [set, get?, Ne.symm h]
  | cons e rest ih =>
    obtain ⟨k, a⟩ := e
    by_cases hk : k = key
    · subst hk
      simp [set, get?, Ne.symm h]
    · simp [set, get?, hk, ih]

@[simp] theorem get?_erase_self (key : κ) (l : List (κ × α)) : get? key (erase key l) = none := by
  induction l with
  | nil => rfl
  | cons e rest ih =>
    obtain ⟨k, a⟩ := e
    by_cases h : k = key
    · simpa [erase, h] using ih
    · simpa [erase, get?, h] using ih

theorem get?_erase_of_ne {key other : κ} (h : other ≠ key) (l : List (κ × α)) :
    get? other (erase key l) = get? other l := by
  induction l with
  | nil => rfl
  | cons e rest ih =>
    obtain ⟨k, a⟩ := e
    by_cases hk : k = key
    · subst hk
      simpa [erase, get?, Ne.symm h] using ih
    · have hkeep : erase key ((k, a) :: rest) = (k, a) :: erase key rest := by simp [erase, hk]
      rw [hkeep, get?_cons, get?_cons, ih]

theorem get?_isSome_iff {key : κ} {l : List (κ × α)} : (get? key l).isSome ↔ key ∈ keys l := by
  induction l with
  | nil => simp [keys]
  | cons e rest ih =>
    obtain ⟨k, a⟩ := e
    by_cases h : k = key
    · simp [get?, keys, h]
    · simpa [get?, keys, h, Ne.symm h] using ih

theorem get?_eq_none_iff {key : κ} {l : List (κ × α)} : get? key l = none ↔ key ∉ keys l := by
  rw [← get?_isSome_iff]
  cases get? key l <;> simp

theorem mem_of_get? {key : κ} {a : α} {l : List (κ × α)} (h : get? key l = some a) :
    (key, a) ∈ l := by
  induction l with
  | nil => simp at h
  | cons e rest ih =>
    obtain ⟨k, b⟩ := e
    rw [get?_cons] at h
    by_cases hk : k = key
    · rw [if_pos hk] at h
      cases h
      simp [hk]
    · rw [if_neg hk] at h
      exact List.mem_cons_of_mem _ (ih h)

theorem get?_of_mem {l : List (κ × α)} (h : (keys l).Nodup) {e : κ × α} (he : e ∈ l) :
    get? e.1 l = some e.2 := by
  induction l with
  | nil => cases he
  | cons first rest ih =>
    obtain ⟨hfirst, hrest⟩ := List.nodup_cons.mp h
    rw [get?_cons]
    rcases List.mem_cons.mp he with rfl | he
    · rw [if_pos rfl]
    · have hne : first.1 ≠ e.1 := by
        intro heq
        exact hfirst (List.mem_map.mpr ⟨e, he, heq.symm⟩)
      rw [if_neg hne, ih hrest he]

theorem get?_map_keys {f : κ → κ} {key : κ} {l : List (κ × α)}
    (h : ∀ e ∈ l, f e.1 = f key → e.1 = key) :
    get? (f key) (l.map fun e => (f e.1, e.2)) = get? key l := by
  induction l with
  | nil => rfl
  | cons e rest ih =>
    obtain ⟨k, a⟩ := e
    have hrest := ih fun e he => h e (List.mem_cons_of_mem _ he)
    rw [List.map_cons, get?_cons, get?_cons, hrest]
    by_cases hk : k = key
    · rw [if_pos hk, if_pos (congrArg f hk)]
    · rw [if_neg hk, if_neg fun hf => hk (h (k, a) List.mem_cons_self hf)]

theorem keys_set_of_mem {key : κ} {l : List (κ × α)} (h : key ∈ keys l) (val : α) :
    keys (set key val l) = keys l := by
  induction l with
  | nil => simp [keys] at h
  | cons e rest ih =>
    obtain ⟨k, a⟩ := e
    by_cases hk : k = key
    · simp [set, keys, hk]
    · have hmem : key ∈ keys rest := by simpa [keys, Ne.symm hk] using h
      simpa [set, keys, hk] using ih hmem

theorem keys_set_of_not_mem {key : κ} {l : List (κ × α)} (h : key ∉ keys l) (val : α) :
    keys (set key val l) = keys l ++ [key] := by
  induction l with
  | nil => rfl
  | cons e rest ih =>
    obtain ⟨k, a⟩ := e
    have hk : k ≠ key := fun hk => h (by simp [keys, hk])
    have hrest : key ∉ keys rest := fun hmem => h (by simpa [keys] using Or.inr hmem)
    simpa [set, keys, hk] using ih hrest

theorem nodup_keys_set {key : κ} {l : List (κ × α)} (h : (keys l).Nodup) (val : α) :
    (keys (set key val l)).Nodup := by
  by_cases hmem : key ∈ keys l
  · rwa [keys_set_of_mem hmem]
  · rw [keys_set_of_not_mem hmem, List.nodup_append]
    refine ⟨h, by simp, ?_⟩
    intro a ha b hb hab
    rw [List.mem_singleton] at hb
    exact hmem (hb ▸ hab ▸ ha)

theorem set_of_get? {key : κ} {val : α} {l : List (κ × α)} (h : get? key l = some val) :
    set key val l = l := by
  induction l with
  | nil => simp at h
  | cons e rest ih =>
    obtain ⟨k, a⟩ := e
    rw [get?_cons] at h
    by_cases hk : k = key
    · rw [if_pos hk, Option.some.injEq] at h
      rw [set, if_pos hk, h]
    · rw [if_neg hk] at h
      rw [set, if_neg hk, ih h]

theorem set_set (key : κ) (first val : α) (l : List (κ × α)) :
    set key val (set key first l) = set key val l := by
  induction l with
  | nil => simp [set]
  | cons e rest ih =>
    obtain ⟨k, a⟩ := e
    by_cases hk : k = key <;> simp [set, hk, ih]

theorem set_of_get?_eq_none {key : κ} {l : List (κ × α)} (h : get? key l = none) (val : α) :
    set key val l = l ++ [(key, val)] := by
  induction l with
  | nil => rfl
  | cons e rest ih =>
    obtain ⟨k, a⟩ := e
    rw [get?_cons] at h
    by_cases hk : k = key
    · simp [hk] at h
    · rw [if_neg hk] at h
      rw [set, if_neg hk, ih h, List.cons_append]

theorem erase_of_get?_eq_none {key : κ} {l : List (κ × α)} (h : get? key l = none) :
    erase key l = l := by
  rw [get?_eq_none_iff] at h
  refine List.filter_eq_self.mpr fun e he => decide_eq_true fun hk => h ?_
  exact hk ▸ List.mem_map_of_mem he

theorem erase_set_of_get?_eq_none {key : κ} {l : List (κ × α)} (h : get? key l = none) (val : α) :
    erase key (set key val l) = l := by
  have happend : erase key (l ++ [(key, val)]) = erase key l ++ erase key [(key, val)] :=
    List.filter_append _ _
  rw [set_of_get?_eq_none h, happend, erase_of_get?_eq_none h]
  simp [erase]

theorem length_erase_lt {key : κ} {val : α} {l : List (κ × α)} (h : get? key l = some val) :
    (erase key l).length < l.length := by
  refine List.length_filter_lt_length_iff_exists.mpr ⟨(key, val), mem_of_get? h, ?_⟩
  simp

end StructuredLog.Assoc
