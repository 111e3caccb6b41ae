import StructuredLog.Registry

/-!
# The registry hands out the loggers it holds

Requests for loggers by name, with and without a configuration, come in any order, between clears,
log calls and whatever else happens on the host. As long as building a logger for a new name
succeeds or fails with something that describes itself, every name the registry knows has a logger
of that name, which was built from a configuration of the fingerprint that is kept with it. Main
statement: `cache_coherent`.
-/

namespace StructuredLog

theorem Logger.config_of_build {config : LoggerConfig} {fallback : Channel} {host host' : Host}
    {l : Logger} (h : Logger.build config fallback host = (.ok l, host')) : l.config = config := by
  unfold Logger.build at h
  split at h
  · cases h
  · split at h
    · cases h
    · cases h
      rfl

theorem Logger.config_log (l : Logger) (call : LogCall) (setting : CallSetting) (host : Host) :
    (l.log call setting host).1.config = l.config := by
  unfold Logger.log
  split
  · split <;> rfl
  · rfl

namespace Roster

variable {r r' : Roster}

def Stored (r : Roster) : Prop := r.fingerprints = r.loggers.map (·.config.fingerprint)

theorem Stored.fingerprintOf (h : r.Stored) (id : LoggerId) :
    r.fingerprintOf id = r.loggers[id]?.map (·.config.fingerprint) := by
  rw [Roster.fingerprintOf, h, List.getElem?_map]

theorem Stored.add (h : r.Stored) (l : Logger) : (r.add l).2.Stored := by
  change r.fingerprints ++ [l.config.fingerprint] = (r.loggers ++ [l]).map (·.config.fingerprint)
  rw [h, List.map_append]
  rfl

theorem eq_of_log {id : LoggerId} {call : LogCall} {setting : CallSetting}
    (h : r.log id call setting = some r') :
    ∃ l, r.loggers[id]? = some l ∧
      r' = { r with
        loggers := r.loggers.set id (l.log call setting r.host).1
        host := (l.log call setting r.host).2 } := by
  obtain ⟨l, hl, hr⟩ := Option.bind_eq_some_iff.mp h
  exact ⟨l, hl, (Option.some.inj hr).symm⟩

theorem configs_log {id : LoggerId} {call : LogCall} {setting : CallSetting}
    (h : r.log id call setting = some r') :
    r'.loggers.map (·.config) = r.loggers.map (·.config) := by
  obtain ⟨l, hl, rfl⟩ := eq_of_log h
  obtain ⟨hid, rfl⟩ := List.getElem?_eq_some_iff.mp hl
  rw [List.map_set, Logger.config_log, ← List.map_set, List.set_getElem_self]

theorem fingerprints_log {id : LoggerId} {call : LogCall} {setting : CallSetting}
    (h : r.log id call setting = some r') : r'.fingerprints = r.fingerprints := by
  obtain ⟨l, -, rfl⟩ := eq_of_log h
  rfl

theorem Stored.log (h : r.Stored) {id : LoggerId} {call : LogCall} {setting : CallSetting}
    (hlog : r.log id call setting = some r') : r'.Stored := by
  have hconfigs := congrArg (List.map LoggerConfig.fingerprint) (configs_log hlog)
  simp only [List.map_map] at hconfigs
  exact (fingerprints_log hlog).trans (h.trans hconfigs.symm)

end Roster

namespace Catalog

inductive Request where
  | byName (name : Text)
  | configured (name : Text) (config : LoggerConfig)
  | preset (name : Text) (environment : Environment) (logDir : Text)

namespace Request

def name : Request → Text
  | byName name => name
  | configured name _ => name
  | preset name _ _ => name

def run (c : Catalog) : Request → Except Raised (Option LoggerId) × Catalog
  | byName name => c.get name
  | configured name config => c.getConfigured name config
  | preset name environment logDir => c.getPreset name environment logDir

end Request

def onHost (c : Catalog) (host : Host) : Catalog :=
  { c with roster := { c.roster with host := host } }

inductive Event where
  | request (q : Request)
  | clear
  | log (id : LoggerId) (call : LogCall) (setting : CallSetting)
  | surroundings (host : Host)

def Event.apply (c : Catalog) : Event → Catalog
  | request q => (q.run c).2
  | clear => c.clear
  | log id call setting => { c with roster := (c.roster.log id call setting).getD c.roster }
  | surroundings host => c.onHost host

def after (c : Catalog) (events : List Event) : Catalog := events.foldl Event.apply c

def Along (P : Catalog → Event → Prop) : Catalog → List Event → Prop
  | _, [] => True
  | c, e :: rest => P c e ∧ Along P (e.apply c) rest

/-- A request for an unknown name that fails fails with something that describes itself. -/
def Described (c : Catalog) : Event → Prop
  | .request q => ∀ r, (q.run c).1 = .error r → c.entry q.name = none → r.description?.isSome
  | _ => True

def Replaces (c : Catalog) (q : Request) : Prop :=
  ∃ old, c.entry q.name = some old ∧ (q.run c).2.entry q.name ≠ some old

/-- The event does not give the name another logger in place of the one it has. -/
def KeepsLogger (name : Text) (c : Catalog) : Event → Prop
  | .request q => q.name = name → ¬c.Replaces q
  | .clear => False
  | _ => True

def Holds (c : Catalog) (name : Text) (fingerprint : Fingerprint) : Prop :=
  ∃ id, c.entry name = some (some id) ∧ c.roster.fingerprintOf id = some fingerprint

def adopt (c : Catalog) (name : Text) (l : Logger) (host : Host) : Catalog :=
  setEntry { c with roster := (Roster.add { c.roster with host := host } l).2 } name
    (some c.roster.loggers.length)

def afterFailedBuild (c : Catalog) (name : Text) (r : Raised) (host : Host) : Catalog :=
  ((c.setEntry name ((c.entry name).getD none)).onHost host).afterFailure name
    ((c.entry name).getD none) r

/-- Every name stands once, with a logger of that name whose fingerprint is kept. -/
structure Coherent (c : Catalog) : Prop where
  stored : c.roster.Stored
  nodup : (Assoc.keys c.registry.entries).Nodup
  named : ∀ {name v}, c.entry name = some v →
    ∃ id l, v = some id ∧ c.roster.loggers[id]? = some l ∧ l.name = name

variable {c c' : Catalog} {name other : Text} {config : LoggerConfig} {v : Option LoggerId}
  {id : LoggerId}

@[simp] theorem entry_setEntry_self (c : Catalog) (name : Text) (v : Option LoggerId) :
    (c.setEntry name v).entry name = some v := Assoc.get?_set_self name v _

theorem entry_setEntry_of_ne (h : other ≠ name) (c : Catalog) (v : Option LoggerId) :
    (c.setEntry name v).entry other = c.entry other := Assoc.get?_set_of_ne h v _

theorem entry_eraseEntry_of_ne (h : other ≠ name) (c : Catalog) :
    (c.eraseEntry name).entry other = c.entry other := Assoc.get?_erase_of_ne h _

theorem setEntry_of_entry (h : c.entry name = some v) : c.setEntry name v = c := by
  rw [setEntry, Assoc.set_of_get? h]

theorem eraseEntry_setEntry (h : c.entry name = none) (v : Option LoggerId) :
    (c.setEntry name v).eraseEntry name = c := by
  simp only [eraseEntry, setEntry]
  rw [Assoc.erase_set_of_get?_eq_none h]

theorem setEntry_setEntry (c : Catalog) (name : Text) (first v : Option LoggerId) :
    (c.setEntry name first).setEntry name v = c.setEntry name v := by
  simp only [setEntry]
  rw [Assoc.set_set]

theorem build_ok {l : Logger} {host : Host}
    (h : Logger.build config c.registry.fallback c.roster.host = (.ok l, host)) :
    c.build config = (.ok c.roster.loggers.length,
      { c with roster := (Roster.add { c.roster with host := host } l).2 }) := by
  simp only [build, Roster.build, h]
  rfl

theorem build_error {r : Raised} {host : Host}
    (h : Logger.build config c.registry.fallback c.roster.host = (.error r, host)) :
    c.build config = (.error r, c.onHost host) := by
  simp only [build, Roster.build, h]
  rfl

theorem isCurrent_iff {fingerprint : Fingerprint} :
    c.isCurrent fingerprint ((c.entry name).getD none) = true ↔ c.Holds name fingerprint := by
  unfold Holds
  cases h : c.entry name with
  | none => simp [isCurrent]
  | some v =>
    cases v with
    | none => simp [isCurrent]
    | some id => simp [isCurrent]

theorem getConfigured_of_current (hentry : c.entry name = some (some id))
    (hcurrent : c.roster.fingerprintOf id = some { config with name := name }.fingerprint) :
    c.getConfigured name config = (.ok (some id), c) := by
  simp only [getConfigured, hentry, Option.getD_some, setEntry_of_entry hentry]
  exact if_pos (by simpa [isCurrent] using hcurrent)

theorem getConfigured_of_not_holds (h : ¬c.Holds name { config with name := name }.fingerprint) :
    c.getConfigured name config =
      match (c.setEntry name ((c.entry name).getD none)).build { config with name := name } with
      | (.error r, c') => (.error r, c'.afterFailure name ((c.entry name).getD none) r)
      | (.ok id, c') => (.ok (some id), c'.setEntry name (some id)) := by
  simp only [getConfigured]
  exact if_neg fun hcurrent => h (isCurrent_iff.mp hcurrent)

theorem getConfigured_built (h : ¬c.Holds name { config with name := name }.fingerprint)
    {l : Logger} {host : Host}
    (hbuild : Logger.build { config with name := name } c.registry.fallback c.roster.host
      = (.ok l, host)) :
    c.getConfigured name config = (.ok (some c.roster.loggers.length), c.adopt name l host) := by
  have hb := build_ok (c := c.setEntry name ((c.entry name).getD none)) hbuild
  rw [getConfigured_of_not_holds h, hb]
  exact congrArg (Prod.mk _)
    (setEntry_setEntry { c with roster := (Roster.add { c.roster with host := host } l).2 } name
      ((c.entry name).getD none) (some c.roster.loggers.length))

theorem getConfigured_failed (h : ¬c.Holds name { config with name := name }.fingerprint)
    {r : Raised} {host : Host}
    (hbuild : Logger.build { config with name := name } c.registry.fallback c.roster.host
      = (.error r, host)) :
    c.getConfigured name config = (.error r, c.afterFailedBuild name r host) := by
  have hb := build_error (c := c.setEntry name ((c.entry name).getD none)) hbuild
  rw [getConfigured_of_not_holds h, hb]
  rfl

theorem afterFailedBuild_of_new {r : Raised} (hentry : c.entry name = none)
    (hdescribed : r.description?.isSome) (host : Host) :
    c.afterFailedBuild name r host = c.onHost host := by
  have herase : (c.setEntry name none).eraseEntry name = c := eraseEntry_setEntry hentry none
  rw [afterFailedBuild, hentry, Option.getD_none, afterFailure, if_pos (by simp [hdescribed])]
  exact congrArg (onHost · host) herase

theorem afterFailedBuild_of_logger (hentry : c.entry name = some (some id)) (r : Raised)
    (host : Host) : c.afterFailedBuild name r host = c.onHost host := by
  rw [afterFailedBuild, hentry, Option.getD_some, setEntry_of_entry hentry]
  rfl

inductive Outcome (c : Catalog) (name : Text) : Except Raised (Option LoggerId) × Catalog → Prop
  | found {v : Option LoggerId} (h : c.entry name = some v) : Outcome c name (.ok v, c)
  | built {l : Logger} (host : Host) (h : l.name = name) :
    Outcome c name (.ok (some c.roster.loggers.length), c.adopt name l host)
  | gaveUp (r : Raised) (host : Host) : Outcome c name (.error r, c.onHost host)
  | failed (r : Raised) (host : Host) :
    Outcome c name (.error r, c.afterFailedBuild name r host)

theorem name_of_preset {environment : Environment} {logDir : Text}
    (h : LoggerConfig.preset name environment logDir = .ok config) : config.name = name := by
  unfold LoggerConfig.preset at h
  split at h
  · cases h
  · cases h
    rfl

theorem outcome_get (c : Catalog) (name : Text) : Outcome c name (c.get name) := by
  unfold get
  split
  next v h => exact .found h
  next h =>
    split
    next r _ => exact .gaveUp r c.roster.host
    next settings _ =>
      split
      next r _ => exact .gaveUp r c.roster.host
      next config hconfig =>
        cases hbuild : Logger.build config c.registry.fallback c.roster.host with
        | mk result host =>
          cases result with
          | error r =>
            rw [build_error hbuild]
            exact .gaveUp r host
          | ok l =>
            rw [build_ok hbuild]
            exact .built host ((congrArg _ (Logger.config_of_build hbuild)).trans
              (name_of_preset hconfig))

theorem outcome_getConfigured (c : Catalog) (name : Text) (config : LoggerConfig) :
    Outcome c name (c.getConfigured name config) := by
  by_cases h : c.Holds name { config with name := name }.fingerprint
  · obtain ⟨id, hentry, hcurrent⟩ := h
    rw [getConfigured_of_current hentry hcurrent]
    exact .found hentry
  · cases hbuild : Logger.build { config with name := name } c.registry.fallback c.roster.host with
    | mk result host =>
      cases result with
      | error r =>
        rw [getConfigured_failed h hbuild]
        exact .failed r host
      | ok l =>
        rw [getConfigured_built h hbuild]
        exact .built host (congrArg LoggerConfig.name (Logger.config_of_build hbuild))

theorem Request.outcome (c : Catalog) (q : Request) : Outcome c q.name (q.run c) := by
  cases q with
  | byName name => exact outcome_get c name
  | configured name config => exact outcome_getConfigured c name config
  | preset name environment logDir =>
    change Outcome c name (c.getPreset name environment logDir)
    unfold getPreset
    split
    next r _ => exact .gaveUp r c.roster.host
    next config _ => exact outcome_getConfigured c name config

theorem entry_afterFailure_of_ne (h : other ≠ name) (c : Catalog) (old : Option LoggerId)
    (r : Raised) : (c.afterFailure name old r).entry other = c.entry other := by
  unfold afterFailure
  split
  · exact entry_eraseEntry_of_ne h c
  · rfl

variable {o : Except Raised (Option LoggerId) × Catalog}

theorem Outcome.entry_of_ne (ho : Outcome c name o) (h : other ≠ name) :
    o.2.entry other = c.entry other := by
  cases ho with
  | found => rfl
  | built host hname => exact entry_setEntry_of_ne h _ _
  | gaveUp => rfl
  | failed r host => exact (entry_afterFailure_of_ne h _ _ r).trans (entry_setEntry_of_ne h c _)

theorem Outcome.entry_of_ok (ho : Outcome c name o) (h : o.1 = .ok v) :
    o.2.entry name = some v := by
  cases ho with
  | found hentry => exact hentry.trans (congrArg some (Except.ok.inj h))
  | built host hname => exact (entry_setEntry_self _ _ _).trans (congrArg some (Except.ok.inj h))
  | gaveUp => nomatch h
  | failed => nomatch h

theorem entry_run_of_ne {q : Request} (h : other ≠ q.name) :
    (q.run c).2.entry other = c.entry other := (q.outcome c).entry_of_ne h

theorem entry_of_run_ok {q : Request} (h : (q.run c).1 = .ok v) :
    (q.run c).2.entry q.name = some v := (q.outcome c).entry_of_ok h

theorem Coherent.afterFailedBuild_eq (h : c.Coherent) {r : Raised}
    (hdescribed : c.entry name = none → r.description?.isSome) (host : Host) :
    c.afterFailedBuild name r host = c.onHost host := by
  cases hentry : c.entry name with
  | none => exact afterFailedBuild_of_new hentry (hdescribed hentry) host
  | some v =>
    obtain ⟨id, l, rfl, -⟩ := h.named hentry
    exact afterFailedBuild_of_logger hentry r host

theorem Coherent.onHost (h : c.Coherent) (host : Host) : (c.onHost host).Coherent :=
  ⟨h.stored, h.nodup, h.named⟩

theorem Coherent.adopt (h : c.Coherent) {l : Logger} (hname : l.name = name) (host : Host) :
    (c.adopt name l host).Coherent where
  stored := Roster.Stored.add (r := { c.roster with host := host }) h.stored l
  nodup := Assoc.nodup_keys_set h.nodup _
  named := by
    intro other v hentry
    by_cases hother : other = name
    · subst hother
      have hv : some (some c.roster.loggers.length) = some v :=
        (entry_setEntry_self _ _ _).symm.trans hentry
      refine ⟨_, l, (Option.some.inj hv).symm, ?_, hname⟩
      exact List.getElem?_concat_length
    · obtain ⟨id, k, rfl, hk, hkname⟩ :=
        h.named ((entry_setEntry_of_ne hother _ _).symm.trans hentry)
      refine ⟨id, k, rfl, ?_, hkname⟩
      have hid : id < c.roster.loggers.length := (List.getElem?_eq_some_iff.mp hk).choose
      exact (List.getElem?_append_left hid).trans hk

theorem Coherent.log (h : c.Coherent) {id : LoggerId} {call : LogCall} {setting : CallSetting}
    {roster : Roster} (hlog : c.roster.log id call setting = some roster) :
    Coherent { c with roster := roster } where
  stored := h.stored.log hlog
  nodup := h.nodup
  named := by
    intro name v hentry
    obtain ⟨id, l, rfl, hl, hname⟩ := h.named hentry
    have hconfig : (roster.loggers.map (·.config))[id]? = some l.config := by
      rw [Roster.configs_log hlog, List.getElem?_map, hl]
      rfl
    rw [List.getElem?_map, Option.map_eq_some_iff] at hconfig
    obtain ⟨k, hk, hkl⟩ := hconfig
    exact ⟨id, k, rfl, hk, (congrArg LoggerConfig.name hkl).trans hname⟩

theorem Coherent.outcome (h : c.Coherent) (ho : Outcome c name o)
    (hdescribed : ∀ r, o.1 = .error r → c.entry name = none → r.description?.isSome) :
    o.2.Coherent := by
  cases ho with
  | found => exact h
  | built host hname => exact h.adopt hname host
  | gaveUp r host => exact h.onHost host
  | failed r host =>
    rw [h.afterFailedBuild_eq (hdescribed r rfl) host]
    exact h.onHost host

theorem Coherent.apply {e : Event} (h : c.Coherent) (hdescribed : c.Described e) :
    (e.apply c).Coherent := by
  cases e with
  | request q => exact h.outcome (q.outcome c) hdescribed
  | clear => exact ⟨h.stored, List.nodup_nil, fun hentry => nomatch hentry⟩
  | log id call setting =>
    change Coherent { c with roster := (c.roster.log id call setting).getD c.roster }
    cases hlog : c.roster.log id call setting with
    | none => exact h
    | some roster => exact h.log hlog
  | surroundings host => exact h.onHost host

theorem Coherent.after {events : List Event} (h : c.Coherent)
    (hdescribed : c.Along Described events) : (c.after events).Coherent := by
  induction events generalizing c with
  | nil => exact h
  | cons e rest ih => exact ih (h.apply hdescribed.1) hdescribed.2

theorem coherent_of_empty (h : c.registry.entries = []) (hstored : c.roster.Stored) :
    c.Coherent where
  stored := hstored
  nodup := h ▸ List.nodup_nil
  named hentry := by
    rw [entry, h] at hentry
    cases hentry

/-- A logger that has a name keeps it until a clear or a request that replaces it. -/
theorem entry_apply {e : Event} (hentry : c.entry name = some v) (hkeeps : c.KeepsLogger name e) :
    (e.apply c).entry name = some v := by
  cases e with
  | request q =>
    by_cases hname : name = q.name
    · subst hname
      exact Decidable.of_not_not fun hne => hkeeps rfl ⟨v, hentry, hne⟩
    · exact (entry_run_of_ne hname).trans hentry
  | clear => exact hkeeps.elim
  | log id call setting => exact hentry
  | surroundings host => exact hentry

theorem entry_after {events : List Event} (hentry : c.entry name = some v)
    (hkeeps : c.Along (KeepsLogger name) events) : (c.after events).entry name = some v := by
  induction events generalizing c with
  | nil => exact hentry
  | cons e rest ih => exact ih (entry_apply hentry hkeeps.1) hkeeps.2

theorem getConfigured_eq_cached_iff : c.getConfigured name config = (.ok (some id), c) ↔
    c.entry name = some (some id) ∧
      c.roster.fingerprintOf id = some { config with name := name }.fingerprint := by
  constructor
  · intro hget
    by_cases h : c.Holds name { config with name := name }.fingerprint
    · obtain ⟨held, hentry, hcurrent⟩ := h
      rw [getConfigured_of_current hentry hcurrent] at hget
      cases hget
      exact ⟨hentry, hcurrent⟩
    · cases hbuild :
        Logger.build { config with name := name } c.registry.fallback c.roster.host with
      | mk result host =>
        cases result with
        | error r =>
          rw [getConfigured_failed h hbuild] at hget
          cases hget
        | ok l =>
          -- the roster has one more logger than before, so the catalog is not the same
          rw [getConfigured_built h hbuild] at hget
          have hlength := congrArg (fun o => o.2.roster.loggers.length) hget
          simp [adopt, setEntry, Roster.add] at hlength
  · rintro ⟨hentry, hcurrent⟩
    exact getConfigured_of_current hentry hcurrent

/-- In every state a registry can come to, an entry has a logger of its name, of the fingerprint
that is kept; a request with a configuration gives out the logger of its fingerprint, or else
builds one logger and puts it in place of the old one; a request by name alone gives out the
logger there is, whatever the environment says; two requests for a name get one logger unless it
was replaced or cleared; and no request touches the entry of another name. -/
theorem cache_coherent {c₀ : Catalog} (hempty : c₀.registry.entries = [])
    (hstored : c₀.roster.Stored) {events : List Event} (hdescribed : c₀.Along Described events) :
    let c := c₀.after events
    (∀ name v, c.entry name = some v → ∃ id l, v = some id ∧ c.roster.loggers[id]? = some l ∧
      l.name = name ∧ c.roster.fingerprintOf id = some l.config.fingerprint) ∧
    (∀ name config id, c.getConfigured name config = (.ok (some id), c) ↔
      c.entry name = some (some id) ∧
        c.roster.fingerprintOf id = some { config with name := name }.fingerprint) ∧
    (∀ name config, ¬c.Holds name { config with name := name }.fingerprint →
      (∀ l host, Logger.build { config with name := name } c.registry.fallback c.roster.host
          = (.ok l, host) →
        c.getConfigured name config = (.ok (some c.roster.loggers.length), c.adopt name l host)) ∧
      ∀ r host, Logger.build { config with name := name } c.registry.fallback c.roster.host
          = (.error r, host) → (c.entry name = none → r.description?.isSome) →
        c.getConfigured name config = (.error r, c.onHost host)) ∧
    (∀ name id host, c.entry name = some (some id) →
      (c.onHost host).get name = (.ok (some id), c.onHost host)) ∧
    (∀ (first second : Request) (between : List Event) v w, second.name = first.name →
      (first.run c).1 = .ok v →
      (first.run c).2.Along (KeepsLogger first.name) between →
      ¬((first.run c).2.after between).Replaces second →
      (second.run ((first.run c).2.after between)).1 = .ok w → ∃ id, v = some id ∧ w = some id) ∧
    ∀ (q : Request) other, other ≠ q.name → (q.run c).2.entry other = c.entry other := by
  intro c
  have hc : c.Coherent := (coherent_of_empty hempty hstored).after hdescribed
  refine ⟨?_, fun name config id => getConfigured_eq_cached_iff, ?_, ?_, ?_, ?_⟩
  · intro name v hentry
    obtain ⟨id, l, hv, hl, hname⟩ := hc.named hentry
    exact ⟨id, l, hv, hl, hname, by rw [hc.stored.fingerprintOf, hl]; rfl⟩
  · intro name config hmiss
    refine ⟨fun l host hbuild => getConfigured_built hmiss hbuild, fun r host hbuild hr => ?_⟩
    rw [getConfigured_failed hmiss hbuild, hc.afterFailedBuild_eq hr host]
  · intro name id host hentry
    have hentry' : (c.onHost host).entry name = some (some id) := hentry
    simp only [get, hentry']
  · intro first second between v w hname hfirst hkeeps hreplaces hsecond
    have hgiven : (first.run c).2.entry first.name = some v := entry_of_run_ok hfirst
    have hkept : ((first.run c).2.after between).entry second.name = some v :=
      hname ▸ entry_after hgiven hkeeps
    have hagain : (second.run ((first.run c).2.after between)).2.entry second.name = some v :=
      Decidable.of_not_not fun hne => hreplaces ⟨v, hkept, hne⟩
    have hw : some w = some v := (entry_of_run_ok hsecond).symm.trans hagain
    have hcoherent : (first.run c).2.Coherent := hc.outcome (first.outcome c) fun r hr _ => by
      rw [hfirst] at hr
      cases hr
    obtain ⟨id, l, hv, -⟩ := hcoherent.named hgiven
    exact ⟨id, hv, (Option.some.inj hw).trans hv⟩
  · intro q other hne
    exact entry_run_of_ne hne

def opened : Catalog := ⟨⟨[], .standardError⟩, ⟨[], [], Host.fresh ⟨0, 0, 0⟩⟩⟩

def broken : LoggerConfig := { LoggerConfig.basic with handlers := [HandlerSpec.ofFactory none] }

def changes (name : Text) : List Event :=
  [.request (.configured name broken), .request (.byName name),
    .request (.configured name LoggerConfig.basic)]

theorem described_changes : opened.Along Described (changes [97]) := by
  refine ⟨fun r hr _ => ?_, fun r hr _ => ?_, fun r hr _ => ?_, trivial⟩
  · cases hr
    decide
  · cases hr
  · cases hr

theorem cache_coherent_changes :
    let c := opened.after (changes [97])
    opened.Along Described (changes [97]) ∧ c.entry [97] = some (some 1) ∧
      c.getConfigured [97] LoggerConfig.basic = (.ok (some 1), c) ∧
      (∀ host, (c.onHost host).get [97] = (.ok (some 1), c.onHost host)) ∧
      (c.getConfigured [98] LoggerConfig.basic).2.entry [97] = c.entry [97] := by
  intro c
  have hentry : c.entry [97] = some (some 1) := rfl
  obtain ⟨-, hreuse, -, hget, -, hother⟩ :=
    @cache_coherent opened rfl rfl (changes [97]) described_changes
  exact ⟨described_changes, hentry, (hreuse [97] LoggerConfig.basic 1).mpr ⟨hentry, rfl⟩,
    fun host => hget [97] 1 host hentry,
    hother (.configured [98] LoggerConfig.basic) [97] (by decide)⟩

end Catalog

end StructuredLog
