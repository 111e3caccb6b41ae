import StructuredLog.Proofs.Delivery.Footprints

/-!
# A handler among others

What a handler writes does not depend on the handlers around it, as long as these use other sinks
and other files: over any run, with whatever fails on the way, it writes the same as alone. Main
statements: `Undisturbed.log` and `Undisturbed.other`.
-/

namespace StructuredLog

open FileSystem LogFile

namespace Streams

def SameContent (_ content content' : Text) : Prop := content = content'

theorem keptByAppend_sameContent : KeptByAppend SameContent :=
  fun _ _ _ t h => congrArg (· ++ t) h

variable {C : Channel → Prop} {s s' : Streams}

theorem keptOn_agree {channels : List Channel}
    (hsinks : ∀ d ∈ channels, ∀ c, C c → d.sink ≠ c.sink ∧
      (d.tiedTo = some c → (s'.sinkOf c.sink).refuses = false)) :
    KeptOn channels fun s => s.Agree C SameContent s' where
  write := by
    intro s h d hd t
    refine ⟨fun c hc => ?_, fun c hc => ?_, fun c hc => ?_⟩
    · obtain ⟨hsink, htied⟩ := hsinks d hd c hc
      have hne : c ≠ d := fun heq => hsink (congrArg Channel.sink heq.symm)
      have hrefuses : d.tiedTo = some c → (s.sinkOf c.sink).refuses = false :=
        fun htie => (h.refuses c hc).trans (htied htie)
      rw [isBad_write, ← h.isBad c hc]
      by_cases htie : d.tiedTo = some c <;> simp [hne, htie, hrefuses]
    · rw [refuses_write]
      exact h.refuses c hc
    · rw [sinkOf_write, if_neg fun hwritten => (hsinks d hd c hc).1 hwritten.2.2.symm]
      exact h.content c hc
  flush := by
    intro s h d hd
    refine ⟨fun c hc => ?_, fun c hc => ?_, fun c hc => ?_⟩
    · obtain ⟨hsink, htied⟩ := hsinks d hd c hc
      have hne : c ≠ d := fun heq => hsink (congrArg Channel.sink heq.symm)
      have hrefuses : d.tiedTo = some c → (s.sinkOf c.sink).refuses = false :=
        fun htie => (h.refuses c hc).trans (htied htie)
      rw [isBad_flush, ← h.isBad c hc]
      by_cases htie : d.tiedTo = some c <;> simp [hne, htie, hrefuses]
    · rw [sinkOf_flush]
      exact h.refuses c hc
    · rw [sinkOf_flush]
      exact h.content c hc
  clear := by
    intro s h d hd
    refine ⟨fun c hc => ?_, h.refuses, h.content⟩
    have hne : c ≠ d := fun heq => (hsinks d hd c hc).1 (congrArg Channel.sink heq.symm)
    rw [isBad_clear, h.isBad c hc]
    simp [hne]

theorem refuses_setRefuses (s : Streams) (sink : Text) (refuses : Bool) (name : Text) :
    ((s.setRefuses sink refuses).sinkOf name).refuses =
      if name = sink then refuses else (s.sinkOf name).refuses := by
  rw [setRefuses]
  split_ifs with heq
  · rw [heq, sinkOf_put_self]
  · rw [sinkOf_put_of_ne heq]

theorem content_setRefuses (s : Streams) (sink : Text) (refuses : Bool) (name : Text) :
    ((s.setRefuses sink refuses).sinkOf name).content = (s.sinkOf name).content := by
  rw [setRefuses]
  by_cases heq : name = sink
  · rw [heq, sinkOf_put_self]
  · rw [sinkOf_put_of_ne heq]

theorem Agree.setRefuses {R : Text → Text → Text → Prop} (h : s.Agree C R s') (sink : Text)
    (refuses : Bool) : (s.setRefuses sink refuses).Agree C R (s'.setRefuses sink refuses) where
  isBad := h.isBad
  refuses c hc := by rw [refuses_setRefuses, refuses_setRefuses, h.refuses c hc]
  content c hc := by
    rw [content_setRefuses, content_setRefuses]
    exact h.content c hc

end Streams

namespace Handler

inductive SameAt (P D : Location → Prop) (A : Nat → Prop) :
    Output → Output → FileSystem → Output → FileSystem → Prop
  | stream (c : Channel) {files files' : FileSystem} :
    SameAt P D A (.stream c) (.stream c) files (.stream c) files'
  | device (start d : Device) {files files' : FileSystem} :
    SameAt P D A (.device start) (.device d) files (.device d) files'
  | file {start log log' : LogFile} {files files' : FileSystem}
      (hwithin : UsesWithin P D start.path start.rotation)
      (hsame : SameWork P D A start.path start.rotation ⟨log, files, []⟩ ⟨log', files', []⟩) :
    SameAt P D A (.file start) (.file log) files (.file log') files'

variable {P Q D : Location → Prop} {A A' : Nat → Prop} {N : Text → Prop}
  {start h h' g : Handler} {others before after : List Handler} {host host' : Host}

theorem keptByWrites_sameAt (start : Output) : KeptByWrites (SameAt P D A start) where
  stream h := by
    cases h
    rfl
  device h := by
    cases h
    rfl
  received h := by
    cases h
    exact .device _ _
  file := by
    rintro log files output files' h
    cases h with
    | @file start _ log' _ _ hwithin hsame =>
      have hpath : log.path = log'.path := hsame.path_eq.1.trans hsame.path_eq.2.symm
      have hrotation : log.rotation = log'.rotation := hsame.rotation_eq
      obtain ⟨ρ, -, hstream, -⟩ := hsame.twin
      refine ⟨log', rfl, ?_, ?_⟩
      · rw [LogFile.description, LogFile.description, hrotation, hpath]
      · rw [LogFile.flushes, LogFile.flushes]
        change Option.Rel _ log.stream log'.stream at hstream
        generalize log.stream = stream at hstream
        generalize log'.stream = stream' at hstream
        cases hstream with
        | none => rfl
        | some hs => simp [WriteStream.failed, hs.refused_eq]
  write h clock entry := by
    cases h with
    | file hwithin hsame =>
      obtain ⟨hok, hwritten⟩ := (keptBySteps_sameWork hwithin).write hsame clock entry
      exact ⟨hok, hwritten.problems_eq, .file hwithin { hwritten with problems_eq := rfl }⟩

theorem sameWork_other {path : Text} {rotation : Rotation} {log log' : LogFile}
    {files' : FileSystem}
    (hsame : SameWork P D A path rotation ⟨log, host.files, []⟩ ⟨log', files', []⟩)
    (hQ : ∀ {loc}, Q loc → ¬P loc ∧ ¬D loc)
    (hwithin : ∀ log, g.output = .file log → UsesWithin Q D log.path log.rotation)
    (hopens : ∀ n, g.Opens n → A n) (r : Record)
    (hA : ∀ n, A' n → A n ∨ (g.handle r host).1.Opens n) :
    SameWork P D A' path rotation ⟨log, (g.handle r host).2.files, []⟩ ⟨log', files', []⟩ ∧
      ∀ log, (g.handle r host).1.output = .file log → UsesWithin Q D log.path log.rotation := by
  obtain ⟨ρ, htwin, hstream, hfree⟩ := hsame.twin
  have hcovers : Covers Q (fun n => ∀ n', ¬ρ n n') host.files := by
    refine ⟨fun {loc n} hloc hnode n' hρ => ?_, fun {n} hn n' hρ => ?_⟩
    · exact (hQ hloc).1 (htwin.within hρ hnode)
    · exact absurd (htwin.lt_length hρ).1 (Nat.not_lt.mpr hn)
  have hstanding : ∀ {loc}, D loc → host.files.node? loc = some .directory ∧ ¬Q loc :=
    fun hloc => ⟨htwin.standing hloc, fun hQloc => (hQ hQloc).2 hloc⟩
  have hfiles : g.FilesWithin Q D (fun n => ∀ n', ¬ρ n n') host.files :=
    ⟨hwithin, fun n hn => ((hfree n (hopens n hn)).symm)⟩
  obtain ⟨hconfined, hfiles'⟩ := hfiles.handle htwin.sound htwin.distinct hcovers hstanding r
  have hstays : Confined Q (fun _ => False) files' files' := .refl htwin.sound' htwin.distinct'
  refine ⟨{ hsame with twin := ⟨ρ, ?_, hstream, fun n hn => ?_⟩ }, hfiles'.usesWithin⟩
  · exact htwin.elsewhere hconfined hstays hQ fun hρ => ⟨fun hn => hn _ hρ, id⟩
  · rcases hA n hn with hn | hn
    · exact ⟨Nat.lt_of_lt_of_le (hfree n hn).1 hconfined.grows, (hfree n hn).2⟩
    · exact (hfiles'.opens n hn).symm

/-- What a handler `start` has become among others on its host, and alone on another, sees the same.
The others keep to other places and sinks, and the sinks `N` accept, to which streams of theirs are
tied. -/
structure Undisturbed (P Q D : Location → Prop) (N : Text → Prop) (start : Handler)
    (others : List Handler) (h h' : Handler) (host host' : Host) : Prop where
  alike : h.Alike (SameAt P D (fun n => ∃ g ∈ others, g.Opens n) start.output)
    (fun c => c ∈ start.channels) Streams.SameContent h' host host'
  usesWithin : ∀ log, start.output = .file log → ∀ g ∈ others, ∀ log', g.output = .file log' →
    UsesWithin Q D log'.path log'.rotation
  sinks : ∀ g ∈ others, ∀ d ∈ g.channels, ∀ c ∈ start.channels,
    d.sink ≠ c.sink ∧ (d.tiedTo = some c → N c.sink)
  accepts : ∀ name, N name → (host.streams.sinkOf name).refuses = false

theorem refuses_handle (h : Handler) (r : Record) (host : Host) (name : Text) :
    ((h.handle r host).2.streams.sinkOf name).refuses = (host.streams.sinkOf name).refuses :=
  (handle_streams (keptOn_refuses h.channels host.streams) (fun _ => rfl) r).2.2 name

namespace Undisturbed

theorem own (hu : Undisturbed P Q D N start others h h' host host') (r : Record) :
    Undisturbed P Q D N start others (h.handle r host).1 (h'.handle r host').1 (h.handle r host).2
      (h'.handle r host').2 where
  alike := hu.alike.handle (keptByWrites_sameAt _) Streams.keptByAppend_sameContent r
  usesWithin := hu.usesWithin
  sinks := hu.sinks
  accepts name hname := (refuses_handle h r host name).trans (hu.accepts name hname)

theorem keptOn (hu : Undisturbed P Q D N start others h h' host host') (hg : g ∈ others) :
    KeptOn g.channels fun s =>
      s.Agree (fun c => c ∈ start.channels) Streams.SameContent host'.streams := by
  refine Streams.keptOn_agree fun d hd c hc =>
    (hu.sinks g hg d hd c hc).imp_right fun htied htie => ?_
  exact (hu.alike.streams.refuses c hc).symm.trans (hu.accepts _ (htied htie))

theorem other (hu : Undisturbed P Q D N start (before ++ g :: after) h h' host host')
    (hQ : ∀ {loc}, Q loc → ¬P loc ∧ ¬D loc) (r : Record) :
    Undisturbed P Q D N start (before ++ (g.handle r host).1 :: after) h h' (g.handle r host).2
      host' := by
  have hg : g ∈ before ++ g :: after := List.mem_append_right _ List.mem_cons_self
  obtain ⟨hchannels, hclock, hstreams⟩ := handle_streams (hu.keptOn hg) hu.alike.streams r
  have hmem : ∀ {g'}, g' ∈ before ++ (g.handle r host).1 :: after →
      g' ∈ before ++ g :: after ∨ g' = (g.handle r host).1 := by
    intro g' hg'
    simp only [List.mem_append, List.mem_cons] at hg' ⊢
    tauto
  -- In its turn it may have opened another file.
  have hopens : ∀ n, (∃ g' ∈ before ++ (g.handle r host).1 :: after, g'.Opens n) →
      (∃ g' ∈ before ++ g :: after, g'.Opens n) ∨ (g.handle r host).1.Opens n := by
    rintro n ⟨g', hg', hn⟩
    rcases hmem hg' with hg' | rfl
    · exact .inl ⟨g', hg', hn⟩
    · exact .inr hn
  have hfiles : SameAt P D (fun n => ∃ g' ∈ before ++ (g.handle r host).1 :: after, g'.Opens n)
        start.output h.output (g.handle r host).2.files h'.output host'.files ∧
      ∀ log, start.output = .file log → ∀ log', (g.handle r host).1.output = .file log' →
        UsesWithin Q D log'.path log'.rotation := by
    have houtput := hu.alike.output
    have hwithin := hu.usesWithin
    generalize start.output = output₀ at houtput hwithin ⊢
    generalize h.output = output at houtput ⊢
    generalize h'.output = output' at houtput ⊢
    cases houtput with
    | stream c => exact ⟨.stream c, nofun⟩
    | device d₀ d => exact ⟨.device d₀ d, nofun⟩
    | file hown hsame =>
      obtain ⟨hsame', hwithin'⟩ := sameWork_other hsame hQ (hwithin _ rfl g hg)
        (fun n hn => ⟨g, hg, hn⟩) r hopens
      exact ⟨.file hown hsame', fun _ _ => hwithin'⟩
  refine ⟨{ hu.alike with
    output := hfiles.1
    streams := hstreams
    clock_eq := hclock.trans hu.alike.clock_eq }, ?_, ?_, ?_⟩
  · intro log hlog g' hg' log' hlog'
    rcases hmem hg' with hg' | rfl
    · exact hu.usesWithin log hlog g' hg' log' hlog'
    · exact hfiles.2 log hlog log' hlog'
  · intro g' hg' d hd
    rcases hmem hg' with hg' | rfl
    · exact hu.sinks g' hg' d hd
    · exact hu.sinks g hg d (hchannels ▸ hd)
  · exact fun name hname => (refuses_handle g r host name).trans (hu.accepts name hname)

theorem handleAll (hQ : ∀ {loc}, Q loc → ¬P loc ∧ ¬D loc) (r : Record) (before : List Handler)
    {turns : List Handler}
    (hu : Undisturbed P Q D N start (before ++ turns ++ after) h h' host host') :
    Undisturbed P Q D N start (before ++ (Handler.handleAll r turns host).1 ++ after) h h'
      (Handler.handleAll r turns host).2 host' := by
  induction turns generalizing before host with
  | nil => exact hu
  | cons g turns ih =>
    rw [List.append_assoc, List.cons_append] at hu
    have hnext := hu.other hQ r
    rw [List.append_cons, ← List.append_assoc] at hnext
    have hrest := ih _ hnext
    rw [List.append_assoc before, List.singleton_append] at hrest
    exact hrest

theorem log (hu : Undisturbed P Q D N start (before ++ after) h h' host host')
    (hQ : ∀ {loc}, Q loc → ¬P loc ∧ ¬D loc) (r : Record) :
    let first := Handler.handleAll r before host
    let own := h.handle r first.2
    let last := Handler.handleAll r after own.2
    Undisturbed P Q D N start (first.1 ++ last.1) own.1 (h'.handle r host').1 last.2
      (h'.handle r host').2 := by
  intro first own last
  have hfirst : Undisturbed P Q D N start (first.1 ++ after) h h' first.2 host' :=
    Undisturbed.handleAll hQ r [] hu
  have hown := hfirst.own r
  rw [← List.append_nil (first.1 ++ after)] at hown
  have hlast := Undisturbed.handleAll hQ r _ hown
  rwa [List.append_nil] at hlast

theorem ownFlush (hu : Undisturbed P Q D N start others h h' host host') :
    Undisturbed P Q D N start others h h' (h.flush host) (h'.flush host') where
  alike := hu.alike.flush (keptByWrites_sameAt _) Streams.keptByAppend_sameContent
  usesWithin := hu.usesWithin
  sinks := hu.sinks
  accepts name hname :=
    ((flush_streams (keptOn_refuses h.channels host.streams) fun _ => rfl).2.2 name).trans
      (hu.accepts name hname)

theorem otherFlush (hu : Undisturbed P Q D N start others h h' host host') (hg : g ∈ others) :
    Undisturbed P Q D N start others h h' (g.flush host) host' := by
  obtain ⟨hfiles, hclock, hstreams⟩ := flush_streams (hu.keptOn hg) hu.alike.streams
  refine ⟨{ hu.alike with
      output := ?_, streams := hstreams, clock_eq := hclock.trans hu.alike.clock_eq },
    hu.usesWithin, hu.sinks, fun name hname => ?_⟩
  · rw [hfiles]
    exact hu.alike.output
  · exact ((flush_streams (keptOn_refuses g.channels host.streams) fun _ => rfl).2.2 name).trans
      (hu.accepts name hname)

theorem flushAll {turns : List Handler} (hturns : turns ⊆ others)
    (hu : Undisturbed P Q D N start others h h' host host') :
    Undisturbed P Q D N start others h h' (turns.foldl (fun host g => g.flush host) host)
      host' := by
  induction turns generalizing host with
  | nil => exact hu
  | cons g turns ih =>
    obtain ⟨hg, hrest⟩ := List.cons_subset.mp hturns
    exact ih hrest (hu.otherFlush hg)

theorem refuse (hu : Undisturbed P Q D N start others h h' host host') {sink : Text}
    {refuses : Bool}
    (hsink : refuses = true → ¬N sink) :
    Undisturbed P Q D N start others h h'
      { host with streams := host.streams.setRefuses sink refuses }
      { host' with streams := host'.streams.setRefuses sink refuses } where
  alike := { hu.alike with streams := hu.alike.streams.setRefuses sink refuses }
  usesWithin := hu.usesWithin
  sinks := hu.sinks
  accepts name hname := by
    rw [Streams.refuses_setRefuses]
    split_ifs with heq
    · exact Bool.eq_false_iff.mpr fun hrefuses => hsink hrefuses (heq ▸ hname)
    · exact hu.accepts name hname

theorem wait (hu : Undisturbed P Q D N start others h h' host host') (n : Int) :
    Undisturbed P Q D N start others h h' { host with clock := host.clock.advance n }
      { host' with clock := host'.clock.advance n } :=
  { hu with alike := { hu.alike with clock_eq := congrArg (·.advance n) hu.alike.clock_eq } }

theorem withFiles (hu : Undisturbed P Q D N start others h h' host host')
    {files files' : FileSystem}
    (hfiles : ∀ {ρ}, Twin P D ρ host.files host'.files →
      Twin P D ρ files files' ∧ host.files.files.length ≤ files.files.length) :
    Undisturbed P Q D N start others h h' { host with files := files }
      { host' with files := files' } := by
  refine { hu with alike := { hu.alike with output := ?_ } }
  have houtput := hu.alike.output
  generalize start.output = output₀ at houtput
  generalize h.output = output at houtput
  generalize h'.output = output' at houtput
  cases houtput with
  | stream c => exact .stream c
  | device d₀ d => exact .device d₀ d
  | file hwithin hsame =>
    obtain ⟨ρ, htwin, hstream, hfree⟩ := hsame.twin
    obtain ⟨htwin', hgrows⟩ := hfiles htwin
    exact .file hwithin { hsame with twin := ⟨ρ, htwin', hstream, fun n hn =>
      ⟨Nat.lt_of_lt_of_le (hfree n hn).1 hgrows, (hfree n hn).2⟩⟩ }

end Undisturbed

end Handler

end StructuredLog
