import StructuredLog.Format.JsonLine
import StructuredLog.Proofs.Format.JsonValues

/-!
# Records in JSON

A rendered record is one line of UTF-8 that a reader of JSON takes as one object: the reserved
names in their order, each with what the record holds. Only octets that belong to no character
and doubles that are no numbers come back changed.
-/

namespace StructuredLog

open Text Utf8 Json

namespace Json

def ofError (e : ErrorInfo) : Json :=
  object [(ascii "type", string (repair e.kind)), (ascii "message", string (repair e.message)),
    (ascii "frames", array (e.frames.map fun t => string (repair t)))]

/-- The members of a record's object as they come back. -/
def recordMembers (r : Record) : List (Text × Json) :=
  [(ascii "timestamp", string (JsonLine.timestamp r.time)),
   (ascii "level", string r.severity.name),
   (ascii "logger", string (repair r.logger)),
   (ascii "message", string (repair r.message)),
   (ascii "module", string (repair r.origin.module)),
   (ascii "function", string (repair r.origin.function)),
   (ascii "line", int (Int64.ofInt r.origin.line.toNat)),
   (ascii "context", ofFields r.context),
   (ascii "extra", ofFields r.extra)]
  ++ match r.error with
    | none => []
    | some e => [(ascii "error", ofError e)]

theorem reads_printable (depth : Nat) {t : Text} (h : IsPrintable t) :
    Reads (readValue (depth + 1)) (JsonText.string t) (string t) := by
  have hread := reads_string depth t
  rwa [repair_of_isEncoded h.isEncoded] at hread

structure Entry where
  name : Text
  content : Text
  value : Json

namespace Entry

def text (e : Entry) : Text := JsonText.member e.name e.content

def member (e : Entry) : Text × Json := (e.name, e.value)

theorem reads {e : Entry} {depth : Nat} (hname : IsPrintable e.name)
    (h : Reads (readValue depth) e.content e.value) :
    Reads (readMember (readValue depth)) e.text e.member := by
  have hread := reads_member e.name h
  rwa [repair_of_isEncoded hname.isEncoded] at hread

end Entry

theorem reads_entries (depth : Nat) (entries : List Entry)
    (hnames : ∀ n ∈ entries.map Entry.name, IsPrintable n)
    (h : ∀ e ∈ entries, Reads (readValue depth) e.content e.value) :
    Reads (readValue (depth + 1)) (JsonText.object (entries.map Entry.text))
      (object (entries.map Entry.member)) := by
  have hobject := reads_object depth
    (entries.map fun e => (e.text, e.member)) fun m hm => by
      obtain ⟨e, he, rfl⟩ := List.mem_map.mp hm
      exact Entry.reads (hnames e.name (List.mem_map_of_mem he)) (h e he)
  rw [List.map_map, List.map_map] at hobject
  exact hobject

theorem reads_frames (depth : Nat) (frames : List Text) :
    Reads (readValue (depth + 2)) (JsonText.array (frames.map JsonText.string))
      (array (frames.map fun t => string (repair t))) := by
  have harray := reads_array (depth + 1)
    (frames.map fun t => (JsonText.string t, string (repair t))) fun m hm => by
      obtain ⟨t, -, rfl⟩ := List.mem_map.mp hm
      exact reads_string depth t
  rw [List.map_map, List.map_map] at harray
  exact harray

theorem reads_error (depth : Nat) (e : ErrorInfo) :
    Reads (readValue (depth + 3)) (JsonText.object (JsonLine.errorMembers e)) (ofError e) := by
  refine reads_entries (depth + 2)
    [⟨ascii "type", JsonText.string e.kind, string (repair e.kind)⟩,
      ⟨ascii "message", JsonText.string e.message, string (repair e.message)⟩,
      ⟨ascii "frames", JsonText.array (e.frames.map JsonText.string),
        array (e.frames.map fun t => string (repair t))⟩] ?_ ?_
  · have hnames : ∀ n ∈ [ascii "type", ascii "message", ascii "frames"], IsPrintable n := by
      decide
    exact hnames
  · simp only [List.forall_mem_cons]
    exact ⟨reads_string _ _, reads_string _ _, reads_frames depth _, nofun⟩

end Json

/-! ## The parts of a record -/

theorem Decimal.isPrintable_padded (width n : Nat) : IsPrintable (padded width n) :=
  isPrintable_of_digits fun _ => isDigit_of_mem_padded

theorem Decimal.isPrintable_paddedInt (width : Nat) (n : Int) :
    IsPrintable (paddedInt width n) := by
  have hminus : IsPrintable [45] := by decide
  cases n with
  | ofNat n => exact isPrintable_padded width n
  | negSucc n => exact hminus.append (isPrintable_padded (width - 1) (n + 1))

theorem Calendar.isPrintable_dateText (d : Date) : IsPrintable d.text := by
  have hdash : IsPrintable [45] := by decide
  exact ((((Decimal.isPrintable_paddedInt _ _).append hdash).append
    (Decimal.isPrintable_padded _ _)).append hdash).append (Decimal.isPrintable_padded _ _)

theorem Calendar.isPrintable_timeText (n : Nat) : IsPrintable (timeText n) := by
  have hcolon : IsPrintable [58] := by decide
  exact ((((Decimal.isPrintable_padded _ _).append hcolon).append
    (Decimal.isPrintable_padded _ _)).append hcolon).append (Decimal.isPrintable_padded _ _)

theorem Severity.isPrintable_name (s : Severity) : IsPrintable s.name := by
  have hnames : ∀ n ∈ names, IsPrintable n := by decide
  rw [name]
  cases hname : names[s.rank.toNat]? with
  | none => decide
  | some n => exact hnames n (List.mem_of_getElem? hname)

namespace JsonLine

theorem isPrintable_timestamp (t : Instant) : IsPrintable (timestamp t) := by
  have hletter : IsPrintable (ascii "T") := by decide
  have hpoint : IsPrintable (ascii ".") := by decide
  have hzone : IsPrintable (ascii "Z") := by decide
  exact ((((((Calendar.isPrintable_dateText _).append hletter).append
    (Calendar.isPrintable_timeText _)).append hpoint).append
    (Decimal.isPrintable_paddedInt _ _)).append hzone)

def entries (r : Record) : List Entry :=
  [⟨ascii "timestamp", JsonText.string (timestamp r.time), .string (timestamp r.time)⟩,
   ⟨ascii "level", JsonText.string r.severity.name, .string r.severity.name⟩,
   ⟨ascii "logger", JsonText.string r.logger, .string (repair r.logger)⟩,
   ⟨ascii "message", JsonText.string r.message, .string (repair r.message)⟩,
   ⟨ascii "module", JsonText.string r.origin.module, .string (repair r.origin.module)⟩,
   ⟨ascii "function", JsonText.string r.origin.function, .string (repair r.origin.function)⟩,
   ⟨ascii "line", Decimal.ofNat r.origin.line.toNat, .int (Int64.ofInt r.origin.line.toNat)⟩,
   ⟨ascii "context", JsonText.fields r.context, ofFields r.context⟩,
   ⟨ascii "extra", JsonText.fields r.extra, ofFields r.extra⟩]
  ++ match r.error with
    | none => []
    | some e => [⟨ascii "error", JsonText.object (errorMembers e), ofError e⟩]

theorem text_entries (r : Record) : (entries r).map Entry.text = members r := by
  rw [entries, members]
  cases r.error <;> rfl

theorem member_entries (r : Record) : (entries r).map Entry.member = recordMembers r := by
  rw [entries, recordMembers]
  cases r.error <;> rfl

theorem name_entries (r : Record) : (entries r).map Entry.name =
    if r.error.isSome then Record.reservedNames else Record.reservedNames.dropLast := by
  rw [entries]
  cases r.error <;> rfl

theorem isPrintable_names {r : Record} :
    ∀ n ∈ (entries r).map Entry.name, IsPrintable n := by
  have hreserved : ∀ n ∈ Record.reservedNames, IsPrintable n := by decide
  rw [name_entries]
  split
  · exact hreserved
  · exact fun n hn => hreserved n (List.mem_of_mem_dropLast hn)

theorem reads_content (depth : Nat) (r : Record) :
    ∀ e ∈ entries r, Reads (readValue (depth + 3)) e.content e.value := by
  have hline : r.origin.line.toNat < 2 ^ 63 := Nat.lt_trans r.origin.line.toNat_lt (by decide)
  rw [entries, List.forall_mem_append]
  constructor
  · simp only [List.forall_mem_cons]
    exact ⟨reads_printable _ (isPrintable_timestamp _),
      reads_printable _ (Severity.isPrintable_name _),
      reads_string _ _, reads_string _ _, reads_string _ _, reads_string _ _,
      reads_spells _ (spells_natural hline), reads_fields (depth + 1) r.context,
      reads_fields (depth + 1) r.extra, nofun⟩
  · cases r.error with
    | none => exact nofun
    | some e =>
      rw [List.forall_mem_singleton]
      exact reads_error depth e

theorem reads_render (depth : Nat) (r : Record) :
    Reads (readValue (depth + 4)) (render r) (.object (recordMembers r)) := by
  have hobject := reads_entries _ _ isPrintable_names (reads_content depth r)
  rwa [text_entries, member_entries] at hobject

theorem four_le_length_render (r : Record) : 4 ≤ (render r).length := by
  have hlength := length_le_commaSeparated (members r) fun t ht => by
    rw [← text_entries] at ht
    obtain ⟨e, -, rfl⟩ := List.mem_map.mp ht
    exact List.cons_ne_nil _ _
  have hmembers : 4 ≤ (members r).length := by
    rw [members, List.length_append]
    exact Nat.le_trans (by decide) (Nat.le_add_right 9 _)
  rw [render, JsonText.object, List.length_append, List.length_append]
  omega

/-- Every record is rendered as one line of UTF-8 that is one JSON object. Its members are the
reserved names in their order, and all they hold comes back with its type, except that each octet
that belongs to no character becomes U+FFFD and each double that is no finite number becomes
null. -/
theorem render_reads_back (r : Record) :
    IsLine (render r) ∧ Json.read (render r) = some (.object (recordMembers r)) ∧
      (recordMembers r).map Prod.fst =
        (if r.error.isSome then Record.reservedNames else Record.reservedNames.dropLast) ∧
      ∀ t, (∀ out, Repaired t out ↔ out = repair t) ∧ (IsEncoded t → repair t = t) := by
  refine ⟨(reads_render 0 r).line, ?_, ?_, fun t => ?_⟩
  · obtain ⟨depth, hdepth⟩ := Nat.exists_eq_add_of_le' (four_le_length_render r)
    have hread := (reads_render depth r).reads [] stops_nil
    rw [List.append_nil, ← hdepth] at hread
    rw [Json.read, hread]
    rfl
  · rw [← name_entries, ← member_entries, List.map_map]
    rfl
  · exact ⟨fun _ => repaired_iff, repair_of_isEncoded⟩

def mixedRecord : Record where
  time := 0
  severity := ⟨77⟩
  logger := [115, 0xff]
  message := [10, 34]
  origin := .unknown
  context := ⟨[(ascii "count", .uint ⟨9223372036854775808, by decide⟩),
    (ascii "ratio", .double ⟨4607182418800017408⟩)]⟩
  extra := ⟨[(ascii "limit", .double ⟨9221120237041090560⟩)]⟩
  error := some ⟨ascii "Fault", [], [ascii "frame"]⟩

theorem render_reads_back_mixedRecord :
    IsLine (render mixedRecord) ∧
      Json.read (render mixedRecord) = some (.object (recordMembers mixedRecord)) ∧
      (recordMembers mixedRecord).map Prod.fst = Record.reservedNames := by
  obtain ⟨hline, hread, hnames, -⟩ := render_reads_back mixedRecord
  exact ⟨hline, hread, hnames⟩

end JsonLine

end StructuredLog
