import Mathlib.Data.List.Forall2
import StructuredLog.Digest
import StructuredLog.Proofs.Registry.Cache

/-!
# What two configurations of one digest agree on

A digest is mixed from the pieces of a configuration without saying how many there are of what. Read
from the left, the pieces are still told apart: a handler's begin with the number of its kind, which
says how it goes on, and a filter's begin with a text. So where no two sequences of pieces come to
one word by chance, configurations of one digest agree, part by part, on all that was mixed in; and
the registry, which gives out a logger again if its fingerprint is the one asked for, gives out a
logger whose configuration agrees with the one asked for. Main statement: `serves_agreeing`.
-/

namespace StructuredLog

/-- The digests of the two configurations tell apart what they are mixed from: different sequences
of pieces do not come to one word, nor do different parts, those that bring a word of their own
included. -/
structure Hashing.Separates (hashing : Hashing) (a b : LoggerConfig) : Prop where
  pieces : hashing.mix (a.pieces hashing) = hashing.mix (b.pieces hashing) →
    a.pieces hashing = b.pieces hashing
  parts : ∀ p ∈ a.parts hashing, ∀ q ∈ b.parts hashing, p.word hashing = q.word hashing → p = q

instance (hashing : Hashing) (a b : LoggerConfig) : Decidable (hashing.Separates a b) :=
  decidable_of_iff (_ ∧ _)
    ⟨fun ⟨hpieces, hparts⟩ => ⟨hpieces, hparts⟩, fun h => ⟨h.pieces, h.parts⟩⟩

/-- The specs of two handlers that are not custom agree in all that a digest takes of them. -/
structure HandlerSpec.Agrees (s t : HandlerSpec) : Prop where
  kind : s.kind = t.kind
  threshold : s.threshold = t.threshold
  format : s.format = t.format
  formatter : s.formatter.map (·.identity) = t.formatter.map (·.identity)
  color : s.color = t.color
  stream : s.kind = .stream → s.target = t.target ∧ s.stream = t.stream
  file : s.kind ≠ .stream → s.path = t.path ∧ s.maxBytes = t.maxBytes ∧ s.backups = t.backups

namespace Filter

def Answers : Filter → Prop
  | custom object _ => object.fingerprint.isSome
  | _ => False

/-- The filters are one object, or of one built-in class and set up alike; or one of them at least
is a user's that does not keep the default, and they answer alike. -/
inductive Agrees : Option Filter → Option Filter → Prop
  | absent : Agrees none none
  | level (minimum : Severity) : Agrees (some (.level minimum)) (some (.level minimum))
  | sensitive (r : Redaction) : Agrees (some (.sensitive r)) (some (.sensitive r))
  | object {o o' : FilterObject} (f f' : Record → Except Raised Verdict)
      (hdefault : o.fingerprint = none) (hdefault' : o'.fingerprint = none)
      (hsame : o.identity = o'.identity) : Agrees (some (.custom o f)) (some (.custom o' f'))
  | answered {f g : Filter} (hown : f.Answers ∨ g.Answers) (hsame : f.fingerprint = g.fingerprint) :
      Agrees (some f) (some g)

end Filter

namespace LoggerConfig

@[mk_iff]
structure Agrees (a b : LoggerConfig) : Prop where
  name : a.name = b.name
  level : a.level = b.level
  handlers : List.Forall₂ HandlerSpec.Agrees a.handlers b.handlers
  filters : List.Forall₂ Filter.Agrees a.filters b.filters

def BuiltIn (c : LoggerConfig) : Prop := ∀ s ∈ c.handlers, s.kind ≠ .custom

def Proper (c : LoggerConfig) : Prop := ∀ s ∈ c.handlers, s.kind.Proper

instance (c : LoggerConfig) : Decidable c.BuiltIn :=
  inferInstanceAs (Decidable (∀ s ∈ c.handlers, s.kind ≠ .custom))

instance (c : LoggerConfig) : Decidable c.Proper :=
  inferInstanceAs (Decidable (∀ s ∈ c.handlers, s.kind.Proper))

end LoggerConfig

theorem map_eq_map_iff_forall₂ {α β γ : Type} {f : α → γ} {g : β → γ} {R : α → β → Prop} :
    ∀ {xs : List α} {ys : List β}, (∀ x ∈ xs, ∀ y ∈ ys, (f x = g y ↔ R x y)) →
      (xs.map f = ys.map g ↔ List.Forall₂ R xs ys)
  | [], [], _ => by simp
  | [], _ :: _, _ => by simp
  | _ :: _, [], _ => by simp
  | x :: xs, y :: ys, h => by
    have hhead : f x = g y ↔ R x y := h x (List.mem_cons_self ..) y (List.mem_cons_self ..)
    have htail : xs.map f = ys.map g ↔ List.Forall₂ R xs ys := map_eq_map_iff_forall₂
      fun x hx y hy => h x (List.mem_cons_of_mem _ hx) y (List.mem_cons_of_mem _ hy)
    rw [List.map_cons, List.map_cons, List.cons.injEq, List.forall₂_cons, hhead, htail]

theorem HandlerKind.code_inj {k l : HandlerKind} (hk : k.Proper) (hl : l.Proper)
    (h : k.code = l.code) : k = l := by
  cases k <;> cases l <;> grind [code, Proper]

theorem Severity.rank_inj {s t : Severity} : s.rank = t.rank ↔ s = t :=
  ⟨congrArg Severity.mk, congrArg Severity.rank⟩

theorem BuiltinFormat.code_inj {f g : BuiltinFormat} (h : f.code = g.code) : f = g := by
  cases f <;> cases g <;> simp_all [code]

theorem ColorMode.code_inj {c d : ColorMode} (h : c.code = d.code) : c = d := by
  cases c <;> cases d <;> simp_all [code]

theorem StandardTarget.code_inj {t u : StandardTarget} (h : t.code = u.code) : t = u := by
  cases t <;> cases u <;> simp_all [code]

namespace HandlerSpec

variable {hashing : Hashing} {s t : HandlerSpec}

theorem formatPieces_eq_iff : s.formatPieces = t.formatPieces ↔
    s.format = t.format ∧ s.formatter.map (·.identity) = t.formatter.map (·.identity) ∧
      s.color = t.color := by
  have hformatter : (∀ {f g : Option SharedFormatter},
      f.map (fun f => SharedObject.formatter f.identity) =
        g.map (fun f => SharedObject.formatter f.identity) ↔
      f.map (·.identity) = g.map (·.identity)) := by
    intro f g
    cases f <;> cases g <;> simp
  simp only [formatPieces, List.cons.injEq, Piece.int.injEq, Piece.address.injEq, hformatter,
    and_true]
  exact ⟨fun ⟨hformat, hsame, hcolor⟩ =>
      ⟨BuiltinFormat.code_inj hformat, hsame, ColorMode.code_inj hcolor⟩,
    fun ⟨hformat, hsame, hcolor⟩ => ⟨congrArg _ hformat, hsame, congrArg _ hcolor⟩⟩

theorem outputPieces_eq_iff (hkind : s.kind = t.kind) : s.outputPieces = t.outputPieces ↔
    (s.kind = .stream → s.target = t.target ∧ s.stream = t.stream) ∧
      (s.kind ≠ .stream → s.path = t.path ∧ s.maxBytes = t.maxBytes ∧ s.backups = t.backups) := by
  have htarget : s.target.code = t.target.code ↔ s.target = t.target :=
    ⟨StandardTarget.code_inj, fun h => congrArg _ h⟩
  have hstream : s.stream.map SharedObject.stream = t.stream.map SharedObject.stream ↔
      s.stream = t.stream := (Option.map_injective fun _ _ => SharedObject.stream.inj).eq_iff
  unfold outputPieces
  rw [← hkind]
  cases s.kind <;> simp [htarget, hstream, UInt32.toUInt64_inj]

theorem pieces_of_ne_custom (h : s.kind ≠ .custom) : s.pieces hashing =
    .int s.kind.code :: .word s.threshold.rank :: (s.formatPieces ++ s.outputPieces) := by
  unfold pieces
  split
  · contradiction
  · rfl

theorem fingerprint_of_ne_custom (h : s.kind ≠ .custom) : s.fingerprint =
    .builtin s.kind s.threshold ⟨s.format, s.formatter.map (·.identity), s.color⟩
      (if s.kind = .stream then .stream s.target s.stream
        else .file s.path s.maxBytes s.backups) := by
  unfold fingerprint
  split
  next hkind => exact absurd hkind h
  next hkind => rw [hkind, if_pos rfl]
  next hstream => rw [if_neg hstream]

theorem kind_eq_of_pieces (hs : s.kind.Proper) (ht : t.kind.Proper)
    (h : s.pieces hashing = t.pieces hashing) : s.kind = t.kind := by
  have hhead := congrArg List.head? h
  simp only [pieces, List.head?_cons, Option.some.injEq, Piece.int.injEq] at hhead
  exact HandlerKind.code_inj hs ht hhead

theorem agrees_iff_of_kind (hkind : s.kind = t.kind) : s.Agrees t ↔
    s.threshold = t.threshold ∧ s.formatPieces = t.formatPieces ∧
      s.outputPieces = t.outputPieces := by
  rw [formatPieces_eq_iff, outputPieces_eq_iff hkind]
  constructor
  · intro h
    exact ⟨h.threshold, ⟨h.format, h.formatter, h.color⟩, h.stream, h.file⟩
  · rintro ⟨hthreshold, ⟨hformat, hformatter, hcolor⟩, hstream, hfile⟩
    exact ⟨hkind, hthreshold, hformat, hformatter, hcolor, hstream, hfile⟩

theorem pieces_eq_iff_of_kind (hcustom : s.kind ≠ .custom) (hkind : s.kind = t.kind) :
    s.pieces hashing = t.pieces hashing ↔ s.Agrees t := by
  have hlength : s.formatPieces.length = t.formatPieces.length := rfl
  rw [pieces_of_ne_custom hcustom, pieces_of_ne_custom (hkind ▸ hcustom), agrees_iff_of_kind hkind]
  simp only [List.cons.injEq, List.append_eq_append_iff_of_size_eq_left hlength,
    Piece.word.injEq, hkind, Severity.rank_inj, true_and]

theorem pieces_eq_iff (hcustom : s.kind ≠ .custom) (hs : s.kind.Proper) (ht : t.kind.Proper) :
    s.pieces hashing = t.pieces hashing ↔ s.Agrees t :=
  ⟨fun h => (pieces_eq_iff_of_kind hcustom (kind_eq_of_pieces hs ht h)).mp h,
    fun h => (pieces_eq_iff_of_kind hcustom h.kind).mpr h⟩

theorem kind_eq_of_fingerprint (hcustom : s.kind ≠ .custom)
    (h : s.fingerprint = t.fingerprint) : s.kind = t.kind := by
  rw [fingerprint_of_ne_custom hcustom] at h
  by_cases ht : t.kind = .custom
  · simp [fingerprint, ht] at h
  · rw [fingerprint_of_ne_custom ht] at h
    exact (HandlerFingerprint.builtin.inj h).1

theorem fingerprint_eq_iff_of_kind (hcustom : s.kind ≠ .custom) (hkind : s.kind = t.kind) :
    s.fingerprint = t.fingerprint ↔ s.Agrees t := by
  rw [fingerprint_of_ne_custom hcustom, fingerprint_of_ne_custom (hkind ▸ hcustom),
    agrees_iff_of_kind hkind, formatPieces_eq_iff, outputPieces_eq_iff hkind, ← hkind]
  by_cases hstream : s.kind = .stream
  · simp [hstream]
  · simp [hstream]

theorem fingerprint_eq_iff (hcustom : s.kind ≠ .custom) :
    s.fingerprint = t.fingerprint ↔ s.Agrees t :=
  ⟨fun h => (fingerprint_eq_iff_of_kind hcustom (kind_eq_of_fingerprint hcustom h)).mp h,
    fun h => (fingerprint_eq_iff_of_kind hcustom h.kind).mpr h⟩

end HandlerSpec

namespace FilterFingerprint

variable {hashing : Hashing}

/-- What comes second tells the classes of filters apart, the words included that belong to a user's
filter; the sentinel comes before the blocklist, so that this may be of any length. -/
theorem part_inj {p q : FilterFingerprint} (h : p.part hashing = q.part hashing) : p = q := by
  have htexts : ∀ {ts us : List Text}, ts.map Piece.text = us.map .text → ts = us :=
    @(List.map_injective_iff.mpr fun _ _ => Piece.text.inj)
  cases p <;> cases q <;> simp only [part, reduceCtorEq, Part.mixed.injEq, Part.given.injEq,
    List.cons.injEq, Piece.text.injEq, Piece.word.injEq, Piece.address.injEq, Severity.rank_inj,
    Option.some.injEq, SharedObject.filter.injEq, and_true, false_and, and_false, true_and] at h
  case level.level => rw [h]
  case sensitive.sensitive => rw [h.1, htexts h.2]
  case object.object => rw [h.2]
  case own.own => rw [h]

theorem part_ne_mixed_nil (p : FilterFingerprint) : p.part hashing ≠ .mixed [] := by
  cases p <;> simp [part]

end FilterFingerprint

namespace Filter

variable {hashing : Hashing} {f g : Option Filter}

theorem agrees_of_fingerprint {f g : Filter} (h : f.fingerprint = g.fingerprint) :
    Agrees (some f) (some g) := by
  by_cases hown : f.Answers ∨ g.Answers
  · exact .answered hown h
  rw [not_or] at hown
  obtain ⟨hf, hg⟩ := hown
  cases f with
  | level minimum =>
    cases g <;> simp_all [fingerprint, Answers]
    exact .level _
  | sensitive r =>
    cases g with
    | level minimum => simp [fingerprint] at h
    | sensitive r' =>
      have hsame : r = r' := congrArg₂ Redaction.mk (FilterFingerprint.sensitive.inj h).2
        (FilterFingerprint.sensitive.inj h).1
      exact hsame ▸ .sensitive r
    | custom o' f' => simp_all [fingerprint, Answers]
  | custom o f =>
    cases g <;> simp_all [fingerprint, Answers]
    exact .object _ _ hf hg h

theorem agrees_iff_fingerprint : Agrees f g ↔ f.map fingerprint = g.map fingerprint := by
  constructor
  · rintro (_ | minimum | r | ⟨f, f', hdefault, hdefault', hsame⟩ | ⟨hown, hsame⟩)
    · rfl
    · rfl
    · rfl
    · simp [fingerprint, hdefault, hdefault', hsame]
    · exact congrArg some hsame
  · intro h
    cases f <;> cases g <;> simp at h
    · exact .absent
    · exact agrees_of_fingerprint h

theorem part_eq_iff :
    (f.map fun f => f.fingerprint.part hashing).getD (.mixed []) =
      (g.map fun g => g.fingerprint.part hashing).getD (.mixed []) ↔ Agrees f g := by
  rw [agrees_iff_fingerprint]
  cases f <;> cases g <;>
    simp [FilterFingerprint.part_ne_mixed_nil, (FilterFingerprint.part_ne_mixed_nil _).symm]
  exact ⟨FilterFingerprint.part_inj, congrArg _⟩

end Filter

namespace LoggerConfig

variable {hashing : Hashing} {a b : LoggerConfig}

def opensWithInt : Part → Bool
  | .mixed (.int _ :: _) => true
  | _ => false

theorem opensWithInt_handlerParts (c : LoggerConfig) :
    ∀ p ∈ c.handlerParts hashing, opensWithInt p = true := by
  simp only [handlerParts, List.forall_mem_map]
  exact fun s _ => rfl

theorem opensWithInt_filterParts (c : LoggerConfig) :
    ∀ p ∈ c.filterParts hashing, opensWithInt p = false := by
  simp only [filterParts, List.forall_mem_map]
  rintro (_ | f) _
  · rfl
  · cases hf : f.fingerprint <;> simp [hf, FilterFingerprint.part, opensWithInt]

theorem filter_parts (c : LoggerConfig) :
    (c.parts hashing).filter opensWithInt = c.handlerParts hashing := by
  rw [parts, List.filter_append, List.filter_eq_self.mpr (opensWithInt_handlerParts c),
    List.filter_eq_nil_iff.mpr fun p hp => by simp [opensWithInt_filterParts c p hp],
    List.append_nil]

theorem filter_not_parts (c : LoggerConfig) :
    (c.parts hashing).filter (!opensWithInt ·) = c.filterParts hashing := by
  rw [parts, List.filter_append,
    List.filter_eq_nil_iff.mpr fun p hp => by simp [opensWithInt_handlerParts c p hp],
    List.filter_eq_self.mpr fun p hp => by simp [opensWithInt_filterParts c p hp], List.nil_append]

theorem parts_eq_iff : a.parts hashing = b.parts hashing ↔
    a.handlerParts hashing = b.handlerParts hashing ∧
      a.filterParts hashing = b.filterParts hashing := by
  constructor
  · intro h
    constructor
    · rw [← filter_parts, h, filter_parts]
    · rw [← filter_not_parts, h, filter_not_parts]
  · rintro ⟨hhandlers, hfilters⟩
    rw [parts, hhandlers, hfilters, parts]

theorem digest_eq_iff_parts (h : hashing.Separates a b) :
    a.digest hashing = b.digest hashing ↔
      a.name = b.name ∧ a.level = b.level ∧ a.parts hashing = b.parts hashing := by
  have hpieces : a.digest hashing = b.digest hashing ↔ a.pieces hashing = b.pieces hashing :=
    ⟨h.pieces, congrArg hashing.mix⟩
  have hparts : (a.parts hashing).map (fun part : Part => Piece.word (part.word hashing)) =
      (b.parts hashing).map (fun part : Part => Piece.word (part.word hashing)) ↔
        a.parts hashing = b.parts hashing := by
    have hforall : _ ↔ List.Forall₂ (· = ·) (a.parts hashing) (b.parts hashing) :=
      map_eq_map_iff_forall₂ fun p hp q hq =>
        ⟨fun hword => h.parts p hp q hq (Piece.word.inj hword),
          congrArg fun part : Part => Piece.word (part.word hashing)⟩
    rw [hforall, List.forall₂_eq_eq_eq]
  rw [hpieces, pieces, pieces]
  simp only [List.cons.injEq, Piece.text.injEq, Piece.word.injEq, Severity.rank_inj, hparts]

theorem digest_eq_iff (h : hashing.Separates a b) (hbuiltIn : a.BuiltIn) (ha : a.Proper)
    (hb : b.Proper) : a.digest hashing = b.digest hashing ↔ a.Agrees b := by
  have hhandlers : a.handlerParts hashing = b.handlerParts hashing ↔
      List.Forall₂ HandlerSpec.Agrees a.handlers b.handlers :=
    map_eq_map_iff_forall₂ fun s hs t ht =>
      Part.mixed.injEq .. ▸ (HandlerSpec.pieces_eq_iff (hbuiltIn s hs) (ha s hs) (hb t ht))
  have hfilters : a.filterParts hashing = b.filterParts hashing ↔
      List.Forall₂ Filter.Agrees a.filters b.filters :=
    map_eq_map_iff_forall₂ fun _ _ _ _ => Filter.part_eq_iff
  rw [digest_eq_iff_parts h, parts_eq_iff, hhandlers, hfilters, agrees_iff]

theorem fingerprint_eq_iff (hbuiltIn : a.BuiltIn) : a.fingerprint = b.fingerprint ↔ a.Agrees b := by
  have hhandlers : a.handlers.map (·.fingerprint) = b.handlers.map (·.fingerprint) ↔
      List.Forall₂ HandlerSpec.Agrees a.handlers b.handlers :=
    map_eq_map_iff_forall₂ fun s hs t _ => HandlerSpec.fingerprint_eq_iff (hbuiltIn s hs)
  have hfilters : a.filters.map (·.map Filter.fingerprint) =
        b.filters.map (·.map Filter.fingerprint) ↔
      List.Forall₂ Filter.Agrees a.filters b.filters :=
    map_eq_map_iff_forall₂ fun _ _ _ _ => Filter.agrees_iff_fingerprint.symm
  rw [fingerprint, fingerprint, Fingerprint.mk.injEq, hhandlers, hfilters, agrees_iff]

end LoggerConfig

namespace Catalog

variable {c : Catalog} {name : Text} {config : LoggerConfig}

theorem Outcome.stored {o : Except Raised (Option LoggerId) × Catalog} (ho : c.Outcome name o)
    (h : c.roster.Stored) : o.2.roster.Stored := by
  cases ho with
  | found => exact h
  | @built l host _ => exact Roster.Stored.add (r := { c.roster with host := host }) h l
  | gaveUp => exact h
  | failed r host =>
    unfold afterFailedBuild afterFailure
    split <;> exact h

theorem stored_apply {e : Event} (h : c.roster.Stored) : (e.apply c).roster.Stored := by
  cases e with
  | request q => exact (q.outcome c).stored h
  | clear => exact h
  | log id call setting =>
    change ((c.roster.log id call setting).getD c.roster).Stored
    cases hlog : c.roster.log id call setting with
    | none => exact h
    | some roster => exact h.log hlog
  | surroundings host => exact h

theorem stored_after {events : List Event} (h : c.roster.Stored) :
    (c.after events).roster.Stored := by
  induction events generalizing c with
  | nil => exact h
  | cons e rest ih => exact ih (stored_apply h)

/-- What a request with a configuration gives out was there for the fingerprint that is asked for,
or was just built as asked. -/
theorem getConfigured_fingerprint (hstored : c.roster.Stored) {id : LoggerId} {c' : Catalog}
    (h : c.getConfigured name config = (.ok (some id), c')) :
    ∃ l, c'.roster.loggers[id]? = some l ∧
      { config with name := name }.fingerprint = l.config.fingerprint := by
  by_cases hholds : c.Holds name { config with name := name }.fingerprint
  · obtain ⟨held, hentry, hcurrent⟩ := hholds
    rw [getConfigured_of_current hentry hcurrent] at h
    cases h
    rw [hstored.fingerprintOf, Option.map_eq_some_iff] at hcurrent
    obtain ⟨l, hl, hfingerprint⟩ := hcurrent
    exact ⟨l, hl, hfingerprint.symm⟩
  · cases hbuild : Logger.build { config with name := name } c.registry.fallback c.roster.host with
    | mk result host =>
      cases result with
      | error r =>
        rw [getConfigured_failed hholds hbuild] at h
        cases h
      | ok l =>
        rw [getConfigured_built hholds hbuild] at h
        cases h
        refine ⟨l, List.getElem?_concat_length, ?_⟩
        rw [Logger.config_of_build hbuild]

theorem isCurrent_iff_digest (hstored : c.roster.Stored) {hashing : Hashing} {id : LoggerId}
    {l : Logger} (hl : c.roster.loggers[id]? = some l)
    (hseparates : hashing.Separates config l.config)
    (hbuiltIn : config.BuiltIn) (hconfig : config.Proper) (hproper : l.config.Proper) :
    c.isCurrent config.fingerprint (some id) = true ↔
      config.digest hashing = l.config.digest hashing := by
  rw [LoggerConfig.digest_eq_iff hseparates hbuiltIn hconfig hproper,
    ← LoggerConfig.fingerprint_eq_iff hbuiltIn]
  simp only [isCurrent, hstored.fingerprintOf, hl, Option.map_some, beq_iff_eq, Option.some.injEq]
  exact eq_comm

/-- For configurations without custom handlers, and as long as no two sequences of pieces come to
one word: one digest means the same name and level, and handlers and filters that agree pair by
pair. In every state a registry can come to, its test for a logger that it has is whether the
digests are the same; so what it gives out was built from a configuration that agrees with the one
asked for. -/
theorem serves_agreeing (hashing : Hashing) :
    (∀ a b : LoggerConfig, a.BuiltIn → a.Proper → b.Proper → hashing.Separates a b →
      (a.digest hashing = b.digest hashing ↔ a.Agrees b)) ∧
    ∀ (c₀ : Catalog) (events : List Event) (name : Text) (config : LoggerConfig),
      c₀.roster.Stored → config.BuiltIn →
      let c := c₀.after events
      let asked := { config with name := name }
      (∀ id l, c.roster.loggers[id]? = some l → config.Proper → l.config.Proper →
        hashing.Separates asked l.config →
          (c.isCurrent asked.fingerprint (some id) = true ↔
            asked.digest hashing = l.config.digest hashing)) ∧
      ∀ id c', c.getConfigured name config = (.ok (some id), c') →
        ∃ l, c'.roster.loggers[id]? = some l ∧ asked.Agrees l.config := by
  refine ⟨fun a b hbuiltIn ha hb hseparates =>
    LoggerConfig.digest_eq_iff hseparates hbuiltIn ha hb, ?_⟩
  intro c₀ events name config hempty hbuiltIn c asked
  have hstored : c.roster.Stored := stored_after hempty
  have hasked : asked.BuiltIn := hbuiltIn
  constructor
  · intro id l hl hconfig hproper hseparates
    exact isCurrent_iff_digest hstored hl hseparates hasked hconfig hproper
  · intro id c' hget
    obtain ⟨l, hl, hfingerprint⟩ := getConfigured_fingerprint hstored hget
    exact ⟨l, hl, (LoggerConfig.fingerprint_eq_iff hasked).mp hfingerprint⟩

def stir (seed v : UInt64) : UInt64 :=
  seed ^^^ (v + 0x9e3779b9 + seed.shiftLeft 6 + seed.shiftRight 2)

def stirring : Hashing where
  combine seed piece := stir seed <| match piece with
    | .int v => UInt64.ofInt v
    | .word v => v
    | .text t => t.foldl (fun seed octet => stir seed octet.toUInt64) 0
    | .address none => 0
    | .address (some (.formatter identity)) => 0x10000 + 16 * UInt64.ofNat identity
    | .address (some (.stream channel)) =>
      0x20000 + 16 * UInt64.ofNat channel.sink.length
    | .address (some (.filter identity)) => 0x30000 + 16 * UInt64.ofNat identity
  className _ := Text.ascii "N4user6FilterE"
  typeHash tag := UInt64.ofNat tag

def consoleConfig (threshold : Severity) : LoggerConfig :=
  { LoggerConfig.basic with
    name := [97]
    handlers := [.onStream threshold .console .auto .output]
    filters := [some (.level .info), some (.sensitive .standard)] }

/-- A registry that has a logger is asked for it again, and for one of another threshold. -/
theorem serves_agreeing_console :
    let had := consoleConfig .debug
    let asked := consoleConfig .warning
    let c := opened.after [.request (.configured [97] had)]
    (asked.BuiltIn ∧ asked.Proper ∧ had.Proper ∧ stirring.Separates asked had) ∧
      asked.digest stirring ≠ had.digest stirring ∧ ¬c.isCurrent asked.fingerprint (some 0) ∧
      c.getConfigured [97] had = (.ok (some 0), c) ∧
      ∃ l, c.roster.loggers[0]? = some l ∧ had.Agrees l.config := by
  intro had asked c
  obtain ⟨hdigest, hrun⟩ := serves_agreeing stirring
  have hbuiltIn : asked.BuiltIn := by decide
  have hasked : asked.Proper := by decide
  have hhad : had.Proper := by decide
  have hseparates : stirring.Separates asked had := by decide +kernel
  have hne : asked.digest stirring ≠ had.digest stirring := by
    rw [Ne, hdigest asked had hbuiltIn hasked hhad hseparates]
    rintro ⟨-, -, _ | ⟨hhandler, -⟩, -⟩
    exact absurd hhandler.threshold (by decide)
  obtain ⟨l, hl, hconfig⟩ : ∃ l, c.roster.loggers[0]? = some l ∧ l.config = had := ⟨_, rfl, rfl⟩
  refine ⟨⟨hbuiltIn, hasked, hhad, hseparates⟩, hne, ?_, rfl, ?_⟩
  · obtain ⟨htest, -⟩ := hrun opened [.request (.configured [97] had)] [97] asked rfl hbuiltIn
    exact (htest 0 l hl hasked (hconfig ▸ hhad) (hconfig ▸ hseparates)).not.mpr
      fun h => hne (hconfig ▸ h)
  · obtain ⟨-, hserved⟩ :=
      hrun opened [.request (.configured [97] had)] [97] had rfl (by decide)
    exact hserved 0 c rfl

def answeringConfig (identity : Nat) (kept : Bool) : LoggerConfig :=
  { LoggerConfig.basic with
    name := [97]
    filters := [some (.custom ⟨identity, some (.own 7), false⟩ fun record => .ok ⟨kept, record⟩)] }

/-- Filters of two objects, of which one keeps every record and the other none, answer alike, and
the logger with the one is served for the other. Also, what is served for a configuration of another
name has the name that was asked for. -/
theorem served_for_other :
    let had := answeringConfig 0 true
    let asked := answeringConfig 1 false
    let c := (opened.getConfigured [97] had).2
    (∃ o o' f f', had.filters = [some (.custom o f)] ∧ asked.filters = [some (.custom o' f')] ∧
        o.identity ≠ o'.identity) ∧
      asked.BuiltIn ∧ had.BuiltIn ∧ stirring.Separates asked had ∧
      asked.digest stirring = had.digest stirring ∧ c.getConfigured [97] asked = (.ok (some 0), c) ∧
      ∃ l, c.roster.loggers[0]? = some l ∧ l.config = had ∧ ∀ name ≠ [97],
        c.getConfigured [97] { had with name := name } = (.ok (some 0), c) ∧
          name ≠ l.config.name := by
  intro had asked c
  exact ⟨⟨_, _, _, _, rfl, rfl, by decide⟩, by decide, by decide, by decide +kernel, rfl, rfl, _,
    rfl, rfl, fun name hname => ⟨rfl, hname⟩⟩

end Catalog

end StructuredLog
