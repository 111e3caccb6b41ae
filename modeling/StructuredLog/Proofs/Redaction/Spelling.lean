import StructuredLog.Proofs.Filters.BuiltIn
import StructuredLog.Proofs.Redaction.Coverage

/-!
# What a redaction replaces

A redaction looks at the names only: it replaces the values of those that some entry of its
blocklist is spelled in, whatever the case of the letters, and keeps everything else. So a second
redaction with the same sentinel can only cover more names, and the order of the two does not
matter. Main statement: `redact_exact`.
-/

namespace StructuredLog

open Text

namespace Redaction

def GoesBy (additional : List Text) (entry : Text) : Prop :=
  entry ∈ defaultBlocklist ∨ entry ∈ additional ∧ entry ≠ []

/-- A piece of the name is an entry of the blocklist, up to the case of its letters. -/
def Spelled (additional : List Text) (key : Text) : Prop :=
  ∃ entry front middle back, GoesBy additional entry ∧ key = front ++ middle ++ back ∧
    CaseVariant middle entry

variable {additional others : List Text} {sentinel key : Text}

theorem mem_blocklist_extended {entry : Text} :
    entry ∈ (extended additional sentinel).blocklist ↔ GoesBy additional entry := by
  simp [extended, GoesBy]

theorem isSensitive_extended_iff {sentinel : Text} :
    (extended additional sentinel).isSensitive key = true ↔ Spelled additional key := by
  simp only [isSensitive, List.any_eq_true, mem_blocklist_extended, containsFolded_iff]
  constructor
  · rintro ⟨entry, hentry, front, middle, back, h⟩
    exact ⟨entry, front, middle, back, hentry, h⟩
  · rintro ⟨entry, front, middle, back, hentry, h⟩
    exact ⟨entry, hentry, front, middle, back, h⟩

instance (additional : List Text) (key : Text) : Decidable (Spelled additional key) :=
  decidable_of_iff _ (@isSensitive_extended_iff additional key defaultSentinel)

theorem isSensitive_extended :
    (extended additional sentinel).isSensitive key = decide (Spelled additional key) := by
  rw [Bool.eq_iff_iff, isSensitive_extended_iff, decide_eq_true_iff]

theorem Spelled.mono {wider : List Text} (hwider : additional ⊆ wider)
    (h : Spelled additional key) : Spelled wider key := by
  obtain ⟨entry, front, middle, back, hentry, hkey⟩ := h
  refine ⟨entry, front, middle, back, ?_, hkey⟩
  exact hentry.imp_right fun ⟨hmem, hne⟩ => ⟨hwider hmem, hne⟩

theorem spelled_union {all : List Text}
    (hall : ∀ entry, entry ∈ all ↔ entry ∈ additional ∨ entry ∈ others) :
    Spelled all key ↔ Spelled additional key ∨ Spelled others key := by
  constructor
  · rintro ⟨entry, front, middle, back, hentry | ⟨hmem, hne⟩, hkey⟩
    · exact Or.inl ⟨entry, front, middle, back, Or.inl hentry, hkey⟩
    · rcases (hall entry).mp hmem with hmem | hmem
      · exact Or.inl ⟨entry, front, middle, back, Or.inr ⟨hmem, hne⟩, hkey⟩
      · exact Or.inr ⟨entry, front, middle, back, Or.inr ⟨hmem, hne⟩, hkey⟩
  · rintro (h | h)
    · exact h.mono fun entry hmem => (hall entry).mpr (Or.inl hmem)
    · exact h.mono fun entry hmem => (hall entry).mpr (Or.inr hmem)

theorem isSensitive_embed {r : Redaction} (h : r.isSensitive key = true) {variant : Text}
    (hvariant : CaseVariant variant key) (front back : Text) :
    r.isSensitive (front ++ variant ++ back) = true := by
  rw [isSensitive, List.any_eq_true] at h ⊢
  obtain ⟨entry, hentry, hcontains⟩ := h
  exact ⟨entry, hentry, containsFolded_embed hcontains hvariant front back⟩

theorem keys_redact (r : Redaction) (f : Fields) : (r.redact f).keys = f.keys :=
  f.keys_revalued r.cover

theorem count_eq (r : Redaction) (f : Fields) : r.count f = f.keys.countP r.isSensitive :=
  f.countErased_eq_countP r.isSensitive

theorem count_redact (r r' : Redaction) (f : Fields) : r.count (r'.redact f) = r.count f := by
  rw [count_eq, keys_redact, count_eq]

theorem redact_redact {r r' both : Redaction} (h : r.sentinel = both.sentinel)
    (h' : r'.sentinel = both.sentinel)
    (hboth : ∀ key, both.isSensitive key = true ↔
      r.isSensitive key = true ∨ r'.isSensitive key = true) (f : Fields) :
    r'.redact (r.redact f) = both.redact f := by
  have hcover : ∀ key v, r'.cover key (r.cover key v) = both.cover key v := by
    intro key v
    simp only [cover, h, h', hboth]
    by_cases hkey : r.isSensitive key = true <;> simp [hkey]
  simp only [redact, List.map_map, Function.comp_def, hcover]

end Redaction

namespace Filter

theorem pipeline_sensitive_sensitive {r r' both : Redaction}
    (h : ∀ f, r'.redact (r.redact f) = both.redact f) (record : Record) :
    pipeline [.sensitive r, .sensitive r'] record = .delivered (redactRecord both record) := by
  simp only [pipeline, apply, if_true, redactRecord, h]

end Filter

namespace Redaction

/-- A redaction keeps the names in their order and replaces by its sentinel exactly the values of
the names that an entry is spelled in, whose number it tells; a second one finds nothing to change
and tells the same number. No change of case and nothing in front or behind hides a name, and
further entries cover no fewer. Two redactions of one sentinel do in either order, on fields and as
filters, what the redaction with the entries of both does. -/
theorem redact_exact (additional : List Text) (sentinel : Text) :
    let r := extended additional sentinel
    (∀ key, r.isSensitive key = true ↔ Spelled additional key) ∧
    (∀ f, (r.redact f).keys = f.keys ∧
      (r.redact f).toList = f.toList.map (fun e =>
        (e.1, if Spelled additional e.1 then .text sentinel else e.2)) ∧
      r.count f = f.keys.countP (fun key => Spelled additional key) ∧
      r.redact (r.redact f) = r.redact f ∧ r.count (r.redact f) = r.count f) ∧
    (∀ key variant, r.isSensitive key = true → CaseVariant variant key →
      ∀ front back, r.isSensitive (front ++ variant ++ back) = true) ∧
    (∀ wider, additional ⊆ wider → ∀ key, r.isSensitive key = true →
      (extended wider sentinel).isSensitive key = true) ∧
    ∀ others all, (∀ entry, entry ∈ all ↔ entry ∈ additional ∨ entry ∈ others) →
      let other := extended others sentinel
      let both := extended all sentinel
      (∀ f, other.redact (r.redact f) = both.redact f ∧
        r.redact (other.redact f) = both.redact f) ∧
      ∀ record,
        Filter.pipeline [.sensitive r, .sensitive other] record =
          Filter.pipeline [.sensitive both] record ∧
        Filter.pipeline [.sensitive other, .sensitive r] record =
          Filter.pipeline [.sensitive both] record := by
  intro r
  refine ⟨fun key => isSensitive_extended_iff, fun f => ⟨keys_redact r f, ?_, ?_, ?_, ?_⟩,
    fun key variant hkey hvariant => isSensitive_embed hkey hvariant,
    fun wider hwider key hkey => ?_, fun others all hall => ?_⟩
  · simp only [redact, cover, r, isSensitive_extended, decide_eq_true_iff]
    rfl
  · rw [count_eq]
    exact List.countP_congr fun key _ => by rw [isSensitive_extended]
  · exact redact_redact rfl rfl (fun key => (or_self_iff).symm) f
  · exact count_redact r r f
  · exact isSensitive_extended_iff.mpr ((isSensitive_extended_iff.mp hkey).mono hwider)
  · intro other both
    have hsensitive : ∀ key, both.isSensitive key = true ↔
        r.isSensitive key = true ∨ other.isSensitive key = true := by
      intro key
      simp only [both, r, other, isSensitive_extended_iff]
      exact spelled_union hall
    have hforth : ∀ f, other.redact (r.redact f) = both.redact f :=
      redact_redact rfl rfl hsensitive
    have hback : ∀ f, r.redact (other.redact f) = both.redact f :=
      redact_redact rfl rfl fun key => (hsensitive key).trans or_comm
    exact ⟨fun f => ⟨hforth f, hback f⟩, fun record =>
      ⟨Filter.pipeline_sensitive_sensitive hforth record,
        Filter.pipeline_sensitive_sensitive hback record⟩⟩

def badgeFields : Fields :=
  ⟨[(ascii "db_PassWord2", .null), (ascii "old badge", .null), (ascii "host", .null)]⟩

theorem redact_exact_badges :
    let r := extended [[], ascii "Badge"] (ascii "-")
    let both := extended [ascii "HOST", [], ascii "Badge"] (ascii "-")
    (r.redact badgeFields).toList =
      [(ascii "db_PassWord2", .text (ascii "-")), (ascii "old badge", .text (ascii "-")),
        (ascii "host", .null)] ∧
    r.count badgeFields = 2 ∧ r.redact (r.redact badgeFields) = r.redact badgeFields ∧
    r.isSensitive (ascii "my OLD BadGe no. 1") = true ∧
    both.isSensitive (ascii "old badge") = true ∧
    (extended [ascii "HOST"] (ascii "-")).redact (r.redact badgeFields) = both.redact badgeFields ∧
    both.count badgeFields = 3 := by
  obtain ⟨-, hfields, hspelling, hwider, hunion⟩ :=
    redact_exact [[], ascii "Badge"] (ascii "-")
  refine ⟨(hfields badgeFields).2.1, by decide, (hfields badgeFields).2.2.2.1,
    hspelling (ascii "old badge") (ascii "OLD BadGe") (by decide)
      (lower_eq_lower_iff.mp (by decide)) (ascii "my ") (ascii " no. 1"),
    hwider _ (by decide) _ (by decide), ((hunion [ascii "HOST"] _ fun entry => ?_).1 badgeFields).1,
    by decide⟩
  simp only [List.mem_cons, List.not_mem_nil, or_false]
  tauto

end Redaction

end StructuredLog
