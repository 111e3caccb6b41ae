import StructuredLog.Proofs.Registry.Cache

/-!
# What a failed build leaves behind

While a logger is built for a new name, a placeholder stands in its entry. It goes away when the
build fails, but only if what was raised describes itself: a foreign object that a factory of
handlers raises leaves the placeholder, and from then on the name is known without a logger.
Main statement: `failed_build_undone_iff`; the case that goes wrong is `placeholder_left`.
-/

namespace StructuredLog

namespace Catalog

variable {c c' : Catalog} {name other : Text} {config : LoggerConfig} {r : Raised}

/-- Whether a failed build is undone, by what the entry was before: always if there was a logger,
for a new name if the failure describes itself, and for a placeholder that an earlier failure left
if it does not. -/
def Undone (r : Raised) : Option (Option LoggerId) → Prop
  | some (some _) => True
  | none => r.description?.isSome
  | some none => r.description? = none

theorem exists_of_getConfigured_error (h : c.getConfigured name config = (.error r, c')) :
    ∃ host, c' = c.afterFailedBuild name r host := by
  by_cases hholds : c.Holds name { config with name := name }.fingerprint
  · obtain ⟨id, hentry, hcurrent⟩ := hholds
    rw [getConfigured_of_current hentry hcurrent] at h
    cases h
  · cases hbuild : Logger.build { config with name := name } c.registry.fallback c.roster.host with
    | mk result host =>
      cases result with
      | ok l =>
        rw [getConfigured_built hholds hbuild] at h
        cases h
      | error r' =>
        rw [getConfigured_failed hholds hbuild] at h
        cases h
        exact ⟨host, rfl⟩

theorem roster_afterFailedBuild (c : Catalog) (name : Text) (r : Raised) (host : Host) :
    (c.afterFailedBuild name r host).roster = { c.roster with host := host } := by
  unfold afterFailedBuild afterFailure
  split <;> rfl

theorem size_setEntry_of_new (hentry : c.entry name = none) (v : Option LoggerId) :
    (c.setEntry name v).size = c.size + 1 := by
  change (Assoc.set name v c.registry.entries).length = _
  rw [Assoc.set_of_get?_eq_none hentry, List.length_append]
  rfl

theorem size_eraseEntry_lt {v : Option LoggerId} (hentry : c.entry name = some v) :
    (c.eraseEntry name).size < c.size := Assoc.length_erase_lt hentry

theorem afterFailedBuild_of_foreign (hentry : c.entry name = none)
    (hforeign : r.description? = none) (host : Host) :
    c.afterFailedBuild name r host = (c.setEntry name none).onHost host := by
  rw [afterFailedBuild, hentry, afterFailure, hforeign]
  rfl

theorem afterFailedBuild_of_placeholder (hentry : c.entry name = some none) (r : Raised)
    (host : Host) : c.afterFailedBuild name r host =
      if r.description?.isSome then (c.onHost host).eraseEntry name else c.onHost host := by
  rw [afterFailedBuild, hentry, Option.getD_some, setEntry_of_entry hentry, afterFailure]
  simp

theorem afterFailedBuild_of_undone (h : Undone r (c.entry name)) (host : Host) :
    c.afterFailedBuild name r host = c.onHost host := by
  cases hentry : c.entry name with
  | none =>
    rw [hentry] at h
    exact afterFailedBuild_of_new hentry h host
  | some v =>
    cases v with
    | some id => exact afterFailedBuild_of_logger hentry r host
    | none =>
      rw [hentry] at h
      rw [afterFailedBuild_of_placeholder hentry, if_neg]
      exact Option.not_isSome_iff_eq_none.mpr h

theorem size_ne_of_not_undone (h : ¬Undone r (c.entry name)) (host : Host) :
    (c.afterFailedBuild name r host).size ≠ c.size := by
  cases hentry : c.entry name with
  | none =>
    rw [hentry] at h
    rw [afterFailedBuild_of_foreign hentry (Option.not_isSome_iff_eq_none.mp h)]
    have hsize := size_setEntry_of_new hentry none
    exact Nat.ne_of_gt (Nat.lt_of_lt_of_eq (Nat.lt_succ_self _) hsize.symm)
  | some v =>
    cases v with
    | some id => exact absurd (hentry ▸ trivial) h
    | none =>
      rw [hentry] at h
      rw [afterFailedBuild_of_placeholder hentry, if_pos (Option.isSome_iff_ne_none.mpr h)]
      exact Nat.ne_of_lt (size_eraseEntry_lt (c := c.onHost host) hentry)

theorem Coherent.exists_of_run_ok (h : c.Coherent) {q : Request} {v : Option LoggerId}
    (hrun : (q.run c).1 = .ok v) : ∃ id, v = some id := by
  have hafter : (q.run c).2.Coherent := h.outcome (q.outcome c) fun r hr _ => by
    rw [hrun] at hr
    cases hr
  obtain ⟨id, l, hv, -⟩ := hafter.named (entry_of_run_ok hrun)
  exact ⟨id, hv⟩

theorem Coherent.exists_of_contains (h : c.Coherent) (hname : c.contains name = true) :
    ∃ id l, c.entry name = some (some id) ∧ c.roster.loggers[id]? = some l := by
  obtain ⟨v, hentry⟩ := Option.isSome_iff_exists.mp hname
  obtain ⟨id, l, rfl, hl, -⟩ := h.named hentry
  exact ⟨id, l, hentry, hl⟩

/-- A request that fails leaves the loggers, and the entries of other names; it leaves the
registry, and already its size, exactly if the failure is undone. Else a new name is known without
a logger, and the next request by name answers that there is none. As long as the failures for
new names describe themselves, every name has a logger, and every request that succeeds gives
one out. -/
theorem failed_build_undone_iff (h : c.getConfigured name config = (.error r, c')) :
    c'.roster.loggers = c.roster.loggers ∧
    (∀ other, other ≠ name → c'.entry other = c.entry other) ∧
    (c'.registry = c.registry ↔ Undone r (c.entry name)) ∧
    (c'.size = c.size ↔ Undone r (c.entry name)) ∧
    (c.entry name = none → r.description? = none →
      c'.contains name = true ∧ c'.get name = (.ok none, c')) ∧
    (c.Coherent → Undone r (c.entry name) → ∀ later : List Event, c'.Along Described later →
      let final := c'.after later
      (∀ known, final.contains known = true → ∃ id l,
        final.entry known = some (some id) ∧ final.roster.loggers[id]? = some l) ∧
      ∀ (q : Request) v, (q.run final).1 = .ok v → ∃ id, v = some id) := by
  obtain ⟨host, rfl⟩ := exists_of_getConfigured_error h
  have hsize : (c.afterFailedBuild name r host).size = c.size ↔ Undone r (c.entry name) := by
    refine ⟨fun hsame => Classical.byContradiction fun hnot => ?_, fun hundone => ?_⟩
    · exact size_ne_of_not_undone hnot host hsame
    · rw [afterFailedBuild_of_undone hundone]
      rfl
  refine ⟨?_, fun other hother => ?_, ⟨fun hsame => ?_, fun hundone => ?_⟩, hsize, ?_, ?_⟩
  · rw [roster_afterFailedBuild]
  · exact Outcome.entry_of_ne (.failed r host) hother
  · exact hsize.mp (congrArg (fun registry => registry.entries.length) hsame)
  · rw [afterFailedBuild_of_undone hundone]
    rfl
  · intro hentry hforeign
    rw [afterFailedBuild_of_foreign hentry hforeign]
    have hleft : ((c.setEntry name none).onHost host).entry name = some none :=
      entry_setEntry_self c name none
    exact ⟨Option.isSome_iff_exists.mpr ⟨_, hleft⟩, by simp only [get, hleft]⟩
  · intro hcoherent hundone later hlater final
    have hfinal : final.Coherent := by
      refine Coherent.after ?_ hlater
      rw [afterFailedBuild_of_undone hundone]
      exact hcoherent.onHost host
    exact ⟨fun known hknown => hfinal.exists_of_contains hknown, fun q v hrun =>
      hfinal.exists_of_run_ok hrun⟩

theorem failed_build_undone_iff_broken :
    opened.getConfigured [97] broken =
        (.error (HandlerSpec.invalid "custom handler without factory"), opened) ∧
      (∀ known, (opened.after [.request (.byName [97])]).contains known = true → ∃ id l,
        (opened.after [.request (.byName [97])]).entry known = some (some id) ∧
          (opened.after [.request (.byName [97])]).roster.loggers[id]? = some l) := by
  have hfails : opened.getConfigured [97] broken =
      (.error (HandlerSpec.invalid "custom handler without factory"), opened) := rfl
  obtain ⟨-, -, -, -, -, hlater⟩ := failed_build_undone_iff hfails
  have hdescribed : opened.Along Described [.request (.byName [97])] :=
    ⟨fun r hr _ => (nomatch hr), trivial⟩
  exact ⟨hfails, (hlater (coherent_of_empty rfl rfl) rfl _ hdescribed).1⟩

def raising : LoggerConfig :=
  { LoggerConfig.basic with
    handlers := [HandlerSpec.ofFactory (some ⟨0, .error (.foreign (Text.ascii "int") [])⟩)] }

/-- A foreign object raised while a logger is built for a new name leaves the name in the registry
without a logger, and the name is then given out as if it had one. -/
theorem placeholder_left :
    ∃ c', opened.getConfigured [97] raising = (.error (.foreign (Text.ascii "int") []), c') ∧
      opened.size = 0 ∧ opened.contains [97] = false ∧ c'.size = 1 ∧ c'.contains [97] = true ∧
      c'.get [97] = (.ok none, c') :=
  ⟨opened.setEntry [97] none, rfl, rfl, rfl, rfl, rfl, rfl⟩

end Catalog

end StructuredLog
