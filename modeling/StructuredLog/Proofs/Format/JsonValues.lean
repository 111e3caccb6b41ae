import StructuredLog.Fields
import StructuredLog.Proofs.Format.JsonDoubles

/-!
# Values in JSON

What one value, list or member is written as and read as, whatever stands behind it. Texts of
parts compose: a list of texts that are read as values is, between brackets and with commas, read
as the list of the values.
-/

namespace StructuredLog

open Text Utf8 Json

namespace Json

/-- A value of a log field as it comes back: only a double without a number changes its type. -/
def ofValue : Value → Json
  | .null => null
  | .bool b => bool b
  | .int n => int n
  | .uint n => uint n.word
  | .double x => if x.isFinite then double x else null
  | .text t => string (repair t)

def ofFields (f : Fields) : Json := object (f.toList.map fun e => (repair e.1, ofValue e.2))

def StartsValue (b : UInt8) : Prop := isBlank b = false ∧ b ≠ 93 ∧ b ≠ 125

structure Reads {α : Type} (item : Reader α) (content : Text) (a : α) : Prop where
  line : IsLine content
  starts : ∃ b rest, content = b :: rest ∧ StartsValue b
  reads : ∀ rest, Stops rest → item (content ++ rest) = some (a, rest)

theorem skipBlanks_cons {b : UInt8} (h : isBlank b = false) (t : Text) :
    skipBlanks (b :: t) = b :: t := by
  rw [skipBlanks, List.dropWhile_cons, h, if_neg Bool.false_ne_true]

theorem stops_cons {b : UInt8} (h : b = 44 ∨ b = 93 ∨ b = 125) (t : Text) : Stops (b :: t) := by
  intro c hc
  obtain rfl := Option.some.inj hc
  exact h

theorem stops_nil : Stops [] := nofun

section Lists

variable {α : Type} {item : Reader α} {close : UInt8}

theorem isBlank_of_close (h : close = 93 ∨ close = 125) : isBlank close = false := by
  rcases h with rfl | rfl <;> rfl

theorem commaSeparated_cons_cons (t u : Text) (texts : List Text) :
    JsonText.commaSeparated (t :: u :: texts) =
      t ++ [44] ++ JsonText.commaSeparated (u :: texts) := rfl

theorem length_le_commaSeparated (texts : List Text) (h : ∀ t ∈ texts, t ≠ []) :
    texts.length ≤ (JsonText.commaSeparated texts).length := by
  induction texts with
  | nil => exact Nat.zero_le _
  | cons t texts ih =>
    have hpos := List.length_pos_of_ne_nil (h t List.mem_cons_self)
    have hrest := ih fun t ht => h t (List.mem_cons_of_mem _ ht)
    cases texts with
    | nil => exact hpos
    | cons u texts =>
      rw [commaSeparated_cons_cons, List.length_append, List.length_append, List.length_cons,
        List.length_singleton]
      omega

theorem isLine_commaSeparated {texts : List Text} (h : ∀ t ∈ texts, IsLine t) :
    IsLine (JsonText.commaSeparated texts) := by
  induction texts with
  | nil => exact IsPrintable.isLine rfl
  | cons t texts ih =>
    have hrest := ih fun t ht => h t (List.mem_cons_of_mem _ ht)
    cases texts with
    | nil => exact h t List.mem_cons_self
    | cons u texts =>
      exact ((h t List.mem_cons_self).append (IsPrintable.isLine (by decide))).append hrest

theorem isLine_entries {entries : List (Text × α)} (h : ∀ e ∈ entries, Reads item e.1 e.2) :
    IsLine (JsonText.commaSeparated (entries.map Prod.fst)) := by
  refine isLine_commaSeparated fun t ht => ?_
  obtain ⟨e, he, rfl⟩ := List.mem_map.mp ht
  exact (h e he).line

theorem readItems_commaSeparated (hclose : close = 93 ∨ close = 125) (rest : Text)
    {entries : List (Text × α)} (hne : entries ≠ []) (h : ∀ e ∈ entries, Reads item e.1 e.2) :
    ∀ fuel, entries.length ≤ fuel → readItems item close fuel
      (JsonText.commaSeparated (entries.map Prod.fst) ++ close :: rest) =
        some (entries.map Prod.snd, rest) := by
  induction entries with
  | nil => exact absurd rfl hne
  | cons e entries ih =>
    intro fuel hfuel
    obtain ⟨fuel, rfl⟩ := Nat.exists_eq_succ_of_ne_zero (n := fuel) (by
      rw [List.length_cons] at hfuel
      omega)
    have he := h e List.mem_cons_self
    cases entries with
    | nil =>
      have hstops : Stops (close :: rest) := stops_cons (.inr hclose) rest
      rw [List.map_singleton, JsonText.commaSeparated, readItems, he.reads _ hstops]
      simp only [Option.bind_eq_bind, Option.bind_some,
        skipBlanks_cons (isBlank_of_close hclose), if_true]
      rfl
    | cons e' entries =>
      have hrest := ih (List.cons_ne_nil _ _) (fun e he => h e (List.mem_cons_of_mem _ he)) fuel
        (Nat.le_of_succ_le_succ hfuel)
      have hcomma : ¬(44 : UInt8) = close := by
        rcases hclose with rfl | rfl <;> decide
      rw [List.map_cons, List.map_cons, commaSeparated_cons_cons, List.append_assoc,
        List.append_assoc, List.singleton_append, readItems,
        he.reads _ (stops_cons (.inl rfl) _)]
      simp only [Option.bind_eq_bind, Option.bind_some,
        skipBlanks_cons (show isBlank 44 = false from rfl), if_neg hcomma, if_true]
      rw [← List.map_cons, hrest]
      rfl

theorem skipBlanks_commaSeparated {e : Text × α} (he : Reads item e.1 e.2)
    (entries : List (Text × α)) (rest : Text) : ∃ b t, StartsValue b ∧
      skipBlanks (JsonText.commaSeparated ((e :: entries).map Prod.fst) ++ rest) = b :: t := by
  obtain ⟨b, t, hb, hstarts⟩ := he.starts
  cases entries with
  | nil =>
    refine ⟨b, t ++ rest, hstarts, ?_⟩
    rw [List.map_singleton, JsonText.commaSeparated, hb, List.cons_append,
      skipBlanks_cons hstarts.1]
  | cons e' entries =>
    refine ⟨b, t ++ ([44] ++ JsonText.commaSeparated ((e' :: entries).map Prod.fst)) ++ rest,
      hstarts, ?_⟩
    rw [List.map_cons, List.map_cons, commaSeparated_cons_cons, hb, List.cons_append,
      List.cons_append, List.cons_append, skipBlanks_cons hstarts.1, List.append_assoc t]

theorem readList_commaSeparated (hclose : close = 93 ∨ close = 125) (rest : Text)
    {entries : List (Text × α)} (h : ∀ e ∈ entries, Reads item e.1 e.2) :
    readList item close (JsonText.commaSeparated (entries.map Prod.fst) ++ close :: rest) =
      some (entries.map Prod.snd, rest) := by
  cases entries with
  | nil =>
    rw [List.map_nil, JsonText.commaSeparated, List.nil_append, readList,
      skipBlanks_cons (isBlank_of_close hclose)]
    exact if_pos rfl
  | cons e entries =>
    obtain ⟨b, t, hstarts, hskip⟩ := skipBlanks_commaSeparated
      (h e List.mem_cons_self) entries (close :: rest)
    have hne : b ≠ close := by
      rcases hclose with rfl | rfl
      · exact hstarts.2.1
      · exact hstarts.2.2
    have hlength := length_le_commaSeparated ((e :: entries).map Prod.fst) fun t ht => by
      obtain ⟨e', he', rfl⟩ := List.mem_map.mp ht
      obtain ⟨b, t, hb, -⟩ := (h e' he').starts
      rw [hb]
      exact List.cons_ne_nil _ _
    rw [List.length_map] at hlength
    rw [readList, hskip]
    refine (if_neg hne).trans (readItems_commaSeparated hclose rest (List.cons_ne_nil _ _) h _ ?_)
    rw [List.length_append]
    omega

end Lists

/-! ## Values -/

theorem reads_string (depth : Nat) (t : Text) :
    Reads (readValue (depth + 1)) (JsonText.string t) (string (repair t)) where
  line := JsonText.isLine_string t
  starts := ⟨34, _, rfl, by decide, by decide, by decide⟩
  reads := fun rest _ => by
    have hread := JsonText.readString_string t rest
    rw [JsonText.string, List.append_assoc, List.append_assoc, List.singleton_append] at hread ⊢
    rw [readValue, skipBlanks_cons rfl]
    simp only [hread, if_true, Option.bind_eq_bind, Option.bind_some]

theorem reads_null (depth : Nat) : Reads (readValue (depth + 1)) (ascii "null") null where
  line := IsPrintable.isLine (by decide)
  starts := ⟨110, _, rfl, by decide, by decide, by decide⟩
  reads := fun _ _ => rfl

theorem reads_bool (depth : Nat) (b : Bool) :
    Reads (readValue (depth + 1)) (JsonText.value (.bool b)) (bool b) := by
  cases b with
  | true =>
    exact ⟨IsPrintable.isLine (by decide), ⟨116, _, rfl, by decide, by decide, by decide⟩,
      fun _ _ => rfl⟩
  | false =>
    exact ⟨IsPrintable.isLine (by decide), ⟨102, _, rfl, by decide, by decide, by decide⟩,
      fun _ _ => rfl⟩

theorem number_start {b : UInt8} (h : b = 45 ∨ isDigit b = true) :
    StartsValue b ∧ b ≠ 34 ∧ b ≠ 91 ∧ b ≠ 123 ∧ b ≠ 110 ∧ b ≠ 116 ∧ b ≠ 102 := by
  have hne : ∀ c : UInt8, ¬(c = 45 ∨ isDigit c = true) → b ≠ c := fun c hc heq => hc (heq ▸ h)
  have hblank : isBlank b = false := by
    simp [isBlank, hne 32 (by decide), hne 9 (by decide), hne 10 (by decide), hne 13 (by decide)]
  exact ⟨⟨hblank, hne 93 (by decide), hne 125 (by decide)⟩, hne 34 (by decide), hne 91 (by decide),
    hne 123 (by decide), hne 110 (by decide), hne 116 (by decide), hne 102 (by decide)⟩

theorem Numeral.exists_start {n : Numeral} (h : n.Valid) :
    ∃ b t, n.text = b :: t ∧ (b = 45 ∨ isDigit b = true) := by
  obtain ⟨b, t, hb⟩ := List.exists_cons_of_ne_nil h.whole_ne_nil
  have hdigit := h.whole b (by rw [hb]; exact List.mem_cons_self)
  obtain ⟨negative, whole, fraction, exponent⟩ := n
  obtain rfl : whole = b :: t := hb
  cases negative with
  | true => exact ⟨45, _, rfl, .inl rfl⟩
  | false => exact ⟨b, _, rfl, .inr hdigit⟩

theorem reads_spells (depth : Nat) {t : Text} {j : Json} (h : Spells t j) :
    Reads (readValue (depth + 1)) t j := by
  obtain ⟨n, hvalid, rfl, rfl⟩ := h
  obtain ⟨b, t, ht, hb⟩ := Numeral.exists_start hvalid
  obtain ⟨hstarts, h34, h91, h123, h110, h116, h102⟩ := number_start hb
  refine ⟨(Numeral.isPrintable_text hvalid).isLine, ⟨b, t, ht, hstarts⟩, fun rest hrest => ?_⟩
  have hread := Numeral.readNumeral_text hvalid hrest
  rw [ht, List.cons_append] at hread ⊢
  rw [readValue, skipBlanks_cons hstarts.1]
  simp only [if_neg h34, if_neg h91, if_neg h123, if_neg h110, if_neg h116, if_neg h102, hread,
    Option.bind_eq_bind, Option.bind_some]

theorem reads_value (depth : Nat) (v : Value) :
    Reads (readValue (depth + 1)) (JsonText.value v) (ofValue v) := by
  cases v with
  | null => exact reads_null depth
  | bool b => exact reads_bool depth b
  | int n => exact reads_spells depth (spells_int n)
  | uint n => exact reads_spells depth (spells_uint n)
  | double x =>
    rw [JsonText.value, ofValue]
    cases hfinite : x.isFinite with
    | true => exact reads_spells depth (spells_double hfinite)
    | false =>
      rw [JsonText.double, hfinite]
      exact reads_null depth
  | text t => exact reads_string depth t

/-! ## Members, objects and arrays -/

theorem reads_member {item : Reader Json} {content : Text} {j : Json} (name : Text)
    (h : Reads item content j) :
    Reads (readMember item) (JsonText.member name content) (repair name, j) where
  line := ((JsonText.isLine_string name).append (IsPrintable.isLine (by decide))).append h.line
  starts := ⟨34, _, rfl, by decide, by decide, by decide⟩
  reads := fun rest hrest => by
    have hname := JsonText.readString_string name (58 :: (content ++ rest))
    have hskip : skipBlanks (JsonText.string name ++ 58 :: (content ++ rest)) =
        JsonText.string name ++ 58 :: (content ++ rest) := skipBlanks_cons rfl _
    rw [JsonText.member, List.append_assoc, List.append_assoc, List.singleton_append, readMember,
      hskip, hname]
    simp only [Option.bind_eq_bind, Option.bind_some,
      skipBlanks_cons (show isBlank 58 = false from rfl), if_true, h.reads rest hrest]

theorem reads_object (depth : Nat) (entries : List (Text × (Text × Json)))
    (h : ∀ e ∈ entries, Reads (readMember (readValue depth)) e.1 e.2) :
    Reads (readValue (depth + 1)) (JsonText.object (entries.map Prod.fst))
      (object (entries.map Prod.snd)) where
  line := ((IsPrintable.isLine (by decide)).append (isLine_entries h)).append
    (IsPrintable.isLine (by decide))
  starts := ⟨123, _, rfl, by decide, by decide, by decide⟩
  reads := fun rest _ => by
    have hread := readList_commaSeparated (.inr rfl) rest h
    rw [JsonText.object, List.append_assoc, List.append_assoc, List.singleton_append,
      List.singleton_append, readValue, skipBlanks_cons rfl]
    simp only [hread, Option.bind_eq_bind, Option.bind_some]
    rfl

theorem reads_array (depth : Nat) (entries : List (Text × Json))
    (h : ∀ e ∈ entries, Reads (readValue depth) e.1 e.2) :
    Reads (readValue (depth + 1)) (JsonText.array (entries.map Prod.fst))
      (array (entries.map Prod.snd)) where
  line := ((IsPrintable.isLine (by decide)).append (isLine_entries h)).append
    (IsPrintable.isLine (by decide))
  starts := ⟨91, _, rfl, by decide, by decide, by decide⟩
  reads := fun rest _ => by
    have hread := readList_commaSeparated (.inl rfl) rest h
    rw [JsonText.array, List.append_assoc, List.append_assoc, List.singleton_append,
      List.singleton_append, readValue, skipBlanks_cons rfl]
    simp only [hread, Option.bind_eq_bind, Option.bind_some]
    rfl

theorem reads_fields (depth : Nat) (f : Fields) :
    Reads (readValue (depth + 2)) (JsonText.fields f) (ofFields f) := by
  have hobject := reads_object (depth + 1) (f.toList.map fun e =>
    (JsonText.member e.1 (JsonText.value e.2), (repair e.1, ofValue e.2))) fun m hm => by
      obtain ⟨e, -, rfl⟩ := List.mem_map.mp hm
      exact reads_member e.1 (reads_value depth e.2)
  rw [List.map_map, List.map_map] at hobject
  exact hobject

end Json

end StructuredLog
