import StructuredLog.Proofs.Registry.Digests

/-!
# Members of a handler spec that building does not read

Each kind of handler is built from some members of its spec only, but more than those are mixed
into the digest: the limit and the number of backups of every file, a threshold beside a factory,
the choice of a format beside a formatter, and the standard stream beside another one. Specs that
build the same handler therefore have one digest exactly if those members agree too; where they do
not, a registry builds a second logger on the same outputs. Main statement: `served_iff_spareAlike`.
-/

namespace StructuredLog

namespace HandlerSpec

variable {s t : HandlerSpec} {hashing : Hashing}

/-- The specs are of one kind and agree in all members that building a handler of it reads. -/
structure ReadAlike (s t : HandlerSpec) : Prop where
  kind : s.kind = t.kind
  factory : s.kind = .custom → s.factory = t.factory
  threshold : s.kind ≠ .custom → s.threshold = t.threshold
  formatter : s.kind ≠ .custom → s.formatter = t.formatter
  format : s.kind ≠ .custom → s.formatter = none → s.format = t.format
  color : s.kind ≠ .custom → s.formatter = none → s.format = .console → s.color = t.color
  stream : s.kind = .stream → s.stream = t.stream
  target : s.kind = .stream → s.stream = none → s.target = t.target
  path : s.kind ≠ .custom → s.kind ≠ .stream → s.path = t.path
  maxBytes : s.kind = .sizeRotating → s.maxBytes = t.maxBytes
  backups : s.kind = .sizeRotating ∨ s.kind = .dailyRotating → s.backups = t.backups

/-- The specs, of one kind, agree in the members that are mixed into a digest although building
does not read them. -/
structure SpareAlike (s t : HandlerSpec) : Prop where
  threshold : s.kind = .custom → s.threshold = t.threshold
  format : s.kind ≠ .custom → s.formatter ≠ none → s.format = t.format
  color : s.kind ≠ .custom → s.formatter ≠ none ∨ s.format ≠ .console → s.color = t.color
  target : s.kind = .stream → s.stream ≠ none → s.target = t.target
  maxBytes : s.kind ≠ .custom → s.kind ≠ .stream → s.kind ≠ .sizeRotating →
    s.maxBytes = t.maxBytes
  backups : s.kind ≠ .custom → s.kind ≠ .stream → s.kind ≠ .sizeRotating →
    s.kind ≠ .dailyRotating → s.backups = t.backups

theorem ReadAlike.channel_eq (h : s.ReadAlike t) (hstream : s.kind = .stream) :
    s.channel = t.channel := by
  rw [channel, channel, ← h.stream hstream]
  cases hnone : s.stream with
  | some c => rfl
  | none => rw [h.target hstream hnone]

theorem ReadAlike.chosenFormatter_eq (h : s.ReadAlike t) (hcustom : s.kind ≠ .custom)
    (host : Host) :
    s.chosenFormatter host = t.chosenFormatter host := by
  rw [chosenFormatter, chosenFormatter, ← h.formatter hcustom]
  cases hformatter : s.formatter with
  | some f => rfl
  | none =>
    simp only [← h.format hcustom hformatter]
    cases hformat : s.format with
    | json => rfl
    | console =>
      -- Only a stream handler looks at the channel, and only then do the specs agree on it.
      have hterminal : s.kind = .stream → host.isTerminal s.channel = host.isTerminal t.channel :=
        fun hstream => congrArg host.isTerminal (h.channel_eq hstream)
      rw [usesColors, usesColors, ← h.color hcustom hformatter hformat, ← h.kind]
      cases s.color with
      | auto => by_cases hstream : s.kind = .stream <;> simp [hstream, hterminal]
      | _ => rfl

theorem ReadAlike.schedule_eq (h : s.ReadAlike t) : s.schedule? = t.schedule? := by
  rw [schedule?, schedule?, ← h.kind]
  cases hkind : s.kind with
  | sizeRotating => rw [h.maxBytes hkind, h.backups (.inl hkind)]
  | dailyRotating => rw [h.backups (.inr hkind)]
  | _ => rfl

theorem ReadAlike.build_eq (h : s.ReadAlike t) (fallback : Channel) (host : Host) :
    s.build fallback host = t.build fallback host := by
  rw [build, build, ← h.kind, ← h.schedule_eq]
  cases hkind : s.kind with
  | custom => rw [h.factory hkind]
  | stream =>
    have hcustom : s.kind ≠ .custom := by simp [hkind]
    rw [h.threshold hcustom, h.chosenFormatter_eq hcustom, h.channel_eq hkind]
  | _ =>
    have hcustom : s.kind ≠ .custom := by simp [hkind]
    have hstream : s.kind ≠ .stream := by simp [hkind]
    rw [h.threshold hcustom, h.chosenFormatter_eq hcustom, h.path hcustom hstream]

theorem ReadAlike.agrees_iff (h : s.ReadAlike t) (hcustom : s.kind ≠ .custom) :
    s.Agrees t ↔ s.SpareAlike t := by
  constructor
  · intro hagrees
    exact
      { threshold := fun hkind => absurd hkind hcustom
        format := fun _ _ => hagrees.format
        color := fun _ _ => hagrees.color
        target := fun hstream _ => (hagrees.stream hstream).1
        maxBytes := fun _ hstream _ => (hagrees.file hstream).2.1
        backups := fun _ hstream _ _ => (hagrees.file hstream).2.2 }
  · intro hspare
    have hformat : s.format = t.format := by
      by_cases hformatter : s.formatter = none
      · exact h.format hcustom hformatter
      · exact hspare.format hcustom hformatter
    have hcolor : s.color = t.color := by
      by_cases hbuiltin : s.formatter = none ∧ s.format = .console
      · exact h.color hcustom hbuiltin.1 hbuiltin.2
      · exact hspare.color hcustom (not_and_or.mp hbuiltin)
    have htarget : s.kind = .stream → s.target = t.target := fun hstream => by
      by_cases hnone : s.stream = none
      · exact h.target hstream hnone
      · exact hspare.target hstream hnone
    have hmaxBytes : s.kind ≠ .stream → s.maxBytes = t.maxBytes := fun hstream => by
      by_cases hsize : s.kind = .sizeRotating
      · exact h.maxBytes hsize
      · exact hspare.maxBytes hcustom hstream hsize
    have hbackups : s.kind ≠ .stream → s.backups = t.backups := fun hstream => by
      by_cases hrotating : s.kind = .sizeRotating ∨ s.kind = .dailyRotating
      · exact h.backups hrotating
      · rw [not_or] at hrotating
        exact hspare.backups hcustom hstream hrotating.1 hrotating.2
    exact
      { kind := h.kind
        threshold := h.threshold hcustom
        format := hformat
        formatter := congrArg _ (h.formatter hcustom)
        color := hcolor
        stream := fun hstream => ⟨htarget hstream, h.stream hstream⟩
        file := fun hstream => ⟨h.path hcustom hstream, hmaxBytes hstream, hbackups hstream⟩ }

theorem spareAlike_iff_of_custom (hcustom : s.kind = .custom) :
    s.SpareAlike t ↔ s.threshold = t.threshold := by
  have hstream : s.kind ≠ .stream := by simp [hcustom]
  exact ⟨fun h => h.threshold hcustom, fun h => ⟨fun _ => h, fun hne => absurd hcustom hne,
    fun hne => absurd hcustom hne, fun hkind => absurd hkind hstream,
    fun hne => absurd hcustom hne, fun hne => absurd hcustom hne⟩⟩

theorem ReadAlike.fingerprint_eq_iff (h : s.ReadAlike t) :
    s.fingerprint = t.fingerprint ↔ s.SpareAlike t := by
  by_cases hcustom : s.kind = .custom
  · have hcustom' : t.kind = .custom := h.kind ▸ hcustom
    rw [spareAlike_iff_of_custom hcustom, fingerprint, fingerprint, hcustom, hcustom',
      h.factory hcustom]
    simp
  · rw [fingerprint_eq_iff_of_kind hcustom h.kind, h.agrees_iff hcustom]

theorem ReadAlike.pieces_eq_iff (h : s.ReadAlike t) :
    s.pieces hashing = t.pieces hashing ↔ s.SpareAlike t := by
  by_cases hcustom : s.kind = .custom
  · have hcustom' : t.kind = .custom := h.kind ▸ hcustom
    rw [spareAlike_iff_of_custom hcustom, pieces, pieces, hcustom, hcustom', h.factory hcustom]
    simp [Severity.rank_inj]
  · rw [pieces_eq_iff_of_kind hcustom h.kind, h.agrees_iff hcustom]

theorem buildAll_eq {specs others : List HandlerSpec} (h : List.Forall₂ ReadAlike specs others)
    (fallback : Channel) (host : Host) :
    buildAll fallback specs host = buildAll fallback others host := by
  induction h generalizing host with
  | nil => rfl
  | cons hspec _ ih => simp only [buildAll, hspec.build_eq, ih]

end HandlerSpec

namespace LoggerConfig

variable {a b : LoggerConfig}

/-- The configurations have one level, the same filters, and handlers that agree pair by pair in
what building them reads. -/
structure ReadAlike (a b : LoggerConfig) : Prop where
  level : a.level = b.level
  handlers : List.Forall₂ HandlerSpec.ReadAlike a.handlers b.handlers
  filters : a.filters = b.filters

theorem ReadAlike.fingerprint_eq_iff (h : a.ReadAlike b) (name : Text) :
    { a with name := name }.fingerprint = { b with name := name }.fingerprint ↔
      List.Forall₂ HandlerSpec.SpareAlike a.handlers b.handlers := by
  have hmap : a.handlers.map (·.fingerprint) = b.handlers.map (·.fingerprint) ↔
      List.Forall₂ (fun s t => s.fingerprint = t.fingerprint) a.handlers b.handlers :=
    map_eq_map_iff_forall₂ fun _ _ _ _ => Iff.rfl
  have hspare : List.Forall₂ (fun s t => s.fingerprint = t.fingerprint) a.handlers b.handlers ↔
      List.Forall₂ HandlerSpec.SpareAlike a.handlers b.handlers :=
    ⟨h.handlers.mp fun _ _ hread => hread.fingerprint_eq_iff.mp,
      h.handlers.mp fun _ _ hread => hread.fingerprint_eq_iff.mpr⟩
  rw [fingerprint, fingerprint, Fingerprint.mk.injEq, h.level, h.filters, ← hspare, ← hmap]
  simp

end LoggerConfig

namespace Catalog

variable {c c' : Catalog} {name : Text} {a b : LoggerConfig} {id : LoggerId}

theorem entry_of_getConfigured (hstored : c.roster.Stored)
    (h : c.getConfigured name a = (.ok (some id), c')) : c'.entry name = some (some id) ∧
      c'.roster.fingerprintOf id = some { a with name := name }.fingerprint := by
  have houtcome := outcome_getConfigured c name a
  obtain ⟨l, hl, hfingerprint⟩ := getConfigured_fingerprint hstored h
  rw [h] at houtcome
  have hstored' : c'.roster.Stored := houtcome.stored hstored
  refine ⟨houtcome.entry_of_ok rfl, ?_⟩
  rw [hstored'.fingerprintOf, hl, Option.map_some, hfingerprint]

/-- Specs that agree in what building reads build the same handler, and are told apart by a digest
exactly if they differ in a member that is spare for their kind. A registry in any state it can come
to that was asked for a logger with one configuration gives it out for another one, that builds the
same handlers, exactly if their handlers agree in the spare members too; if not it builds those
handlers once more, for a second logger. -/
theorem served_iff_spareAlike (hashing : Hashing) :
    (∀ s t : HandlerSpec, s.ReadAlike t →
      (∀ fallback host, s.build fallback host = t.build fallback host) ∧
      (s.pieces hashing = t.pieces hashing ↔ s.SpareAlike t) ∧
      (s.fingerprint = t.fingerprint ↔ s.SpareAlike t)) ∧
    ∀ (c₀ : Catalog) (events : List Event) (name : Text) (a b : LoggerConfig) (id : LoggerId)
      (c : Catalog), c₀.roster.Stored → a.ReadAlike b →
      (c₀.after events).getConfigured name a = (.ok (some id), c) →
      (∀ fallback host, HandlerSpec.buildAll fallback a.handlers host =
        HandlerSpec.buildAll fallback b.handlers host) ∧
      (c.getConfigured name b = (.ok (some id), c) ↔
        List.Forall₂ HandlerSpec.SpareAlike a.handlers b.handlers) ∧
      (¬List.Forall₂ HandlerSpec.SpareAlike a.handlers b.handlers → ∀ l host,
        Logger.build { b with name := name } c.registry.fallback c.roster.host = (.ok l, host) →
        c.getConfigured name b = (.ok (some c.roster.loggers.length), c.adopt name l host)) := by
  refine ⟨fun s t hread => ⟨hread.build_eq, hread.pieces_eq_iff, hread.fingerprint_eq_iff⟩, ?_⟩
  intro c₀ events name a b id c hstored hread hget
  obtain ⟨hentry, hfingerprint⟩ := entry_of_getConfigured (stored_after hstored) hget
  refine ⟨HandlerSpec.buildAll_eq hread.handlers, ?_, fun hspare l host hbuild =>
    getConfigured_built ?_ hbuild⟩
  · rw [getConfigured_eq_cached_iff, hfingerprint, Option.some.injEq, and_iff_right hentry,
      hread.fingerprint_eq_iff]
  · rintro ⟨held, hheld, hcurrent⟩
    rw [hentry, Option.some.injEq, Option.some.injEq] at hheld
    rw [← hheld, hfingerprint, Option.some.injEq, hread.fingerprint_eq_iff] at hcurrent
    exact hspare hcurrent

def plainFile (limit : UInt64) : HandlerSpec :=
  { HandlerSpec.basic with kind := .file, path := Text.ascii "a.log", maxBytes := limit }

def plainConfig (limit : UInt64) : LoggerConfig :=
  { LoggerConfig.basic with handlers := [plainFile limit] }

theorem readAlike_plainFile (m n : UInt64) : (plainFile m).ReadAlike (plainFile n) := by
  constructor <;> intros <;> first | rfl | contradiction

theorem readAlike_plainConfig (m n : UInt64) : (plainConfig m).ReadAlike (plainConfig n) :=
  ⟨rfl, .cons (readAlike_plainFile m n) .nil, rfl⟩

theorem not_spareAlike_plainFile : ¬(plainFile 0).SpareAlike (plainFile 1) := fun h =>
  absurd (h.maxBytes (by decide) (by decide) (by decide)) (by decide)

theorem served_iff_spareAlike_plainFile :
    let c := (opened.getConfigured [97] (plainConfig 0)).2
    opened.getConfigured [97] (plainConfig 0) = (.ok (some 0), c) ∧
      (plainConfig 0).ReadAlike (plainConfig 1) ∧
      (plainFile 0).pieces stirring ≠ (plainFile 1).pieces stirring ∧
      c.getConfigured [97] (plainConfig 0) = (.ok (some 0), c) ∧
      c.getConfigured [97] (plainConfig 1) ≠ (.ok (some 0), c) := by
  intro c
  have hget : opened.getConfigured [97] (plainConfig 0) = (.ok (some 0), c) := rfl
  obtain ⟨hspecs, hruns⟩ := served_iff_spareAlike stirring
  obtain ⟨-, hpieces, -⟩ := hspecs _ _ (readAlike_plainFile 0 1)
  obtain ⟨-, hother, -⟩ := hruns opened [] [97] _ _ 0 c rfl (readAlike_plainConfig 0 1) hget
  obtain ⟨-, hsame, -⟩ := hruns opened [] [97] _ _ 0 c rfl (readAlike_plainConfig 0 0) hget
  refine ⟨hget, readAlike_plainConfig 0 1, hpieces.not.mpr not_spareAlike_plainFile,
    hsame.mpr (.cons ?_ .nil), hother.not.mpr ?_⟩
  · constructor <;> intros <;> rfl
  · rintro (_ | ⟨hspare, -⟩)
    exact not_spareAlike_plainFile hspare

/-- Asked for the same file with another limit, the registry opens it a second time. -/
theorem plainFile_reopened :
    (plainFile 0).ReadAlike (plainFile 1) ∧
      stirring.mix ((plainFile 0).pieces stirring) ≠ stirring.mix ((plainFile 1).pieces stirring) ∧
      let c := (opened.getConfigured [97] (plainConfig 0)).2
      (c.getConfigured [97] (plainConfig 0)).1 = .ok (some 0) ∧
        (c.getConfigured [97] (plainConfig 1)).1 = .ok (some 1) :=
  ⟨readAlike_plainFile 0 1, by decide +kernel, rfl, rfl⟩

end Catalog

end StructuredLog
