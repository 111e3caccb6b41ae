import StructuredLog.Proofs.Delivery.Endings
import StructuredLog.Proofs.LogFiles.Locality

/-!
# What a handler leaves alone

A handler uses streams on its own channels only, and files at its own places or those that it has
open. So what is kept by every use of these channels is kept by the handler, and so is whatever
stands at other places. Main statements: `handle_streams` and `FilesWithin.handle`.
-/

namespace StructuredLog

open FileSystem LogFile

structure KeptOn (channels : List Channel) (p : Streams → Prop) : Prop where
  write : ∀ {s}, p s → ∀ c ∈ channels, ∀ t, p (s.write c t)
  flush : ∀ {s}, p s → ∀ c ∈ channels, p (s.flush c)
  clear : ∀ {s}, p s → ∀ c ∈ channels, p (s.clear c)

theorem KeptOn.mono {channels channels' : List Channel} {p : Streams → Prop}
    (hp : KeptOn channels p) (hsub : channels' ⊆ channels) : KeptOn channels' p where
  write h c hc := hp.write h c (hsub hc)
  flush h c hc := hp.flush h c (hsub hc)
  clear h c hc := hp.clear h c (hsub hc)

theorem KeptOn.writeAll {channels : List Channel} {p : Streams → Prop} (hp : KeptOn channels p)
    {host : Host} (h : p host.streams) {c : Channel} (hc : c ∈ channels) (texts : List Text) :
    p (host.writeAll c texts).streams := by
  induction texts generalizing host with
  | nil => exact h
  | cons t texts ih => exact @ih (host.write c t) (hp.write h c hc t)

theorem keptOn_refuses (channels : List Channel) (s : Streams) :
    KeptOn channels fun s' => ∀ name, (s'.sinkOf name).refuses = (s.sinkOf name).refuses where
  write h c _ t name := (Streams.refuses_write _ c t name).trans (h name)
  flush h c _ name := by
    rw [Streams.sinkOf_flush]
    exact h name
  clear h c _ := h

namespace Handler

variable {p : Streams → Prop} {h : Handler} {r : Record} {host after : Host} {entry : Text}
  {output output' : Output} {problems : List FileProblem} {response : Response}

def outputChannels : Output → List Channel
  | .stream c => [c]
  | .file _ => []
  | .device d => [d.channel]

theorem channels_eq (h : Handler) : h.channels = outputChannels h.output ++ [h.fallback] := by
  rw [channels]
  cases h.output <;> rfl

theorem outputChannels_subset (h : Handler) : outputChannels h.output ⊆ h.channels :=
  channels_eq h ▸ List.subset_append_left _ _

theorem passedOn_streams {channels : List Channel} (hp : KeptOn channels p)
    (hhost : p host.streams) {d : Device} (hd : d.channel ∈ channels) (entry : Text) :
    (passedOn d entry host).files = host.files ∧ (passedOn d entry host).clock = host.clock ∧
      p (passedOn d entry host).streams := by
  rw [passedOn]
  split_ifs
  · exact ⟨rfl, rfl, hhost⟩
  · exact ⟨rfl, rfl, hp.write hhost _ hd _⟩

theorem Took.streams (ht : Took entry host output output' after problems)
    (hp : KeptOn (outputChannels output) p) (hhost : p host.streams) :
    outputChannels output' = outputChannels output ∧ after.clock = host.clock ∧
      p after.streams := by
  cases ht with
  | stream => exact ⟨rfl, rfl, hp.write hhost _ List.mem_cons_self _⟩
  | file => exact ⟨rfl, rfl, hhost⟩
  | device => exact ⟨rfl, (passedOn_streams hp hhost List.mem_cons_self entry).2⟩

theorem Refused.streams (hr : Refused entry host output output' after problems response)
    (hp : KeptOn (outputChannels output) p) (hhost : p host.streams) :
    outputChannels output' = outputChannels output ∧ after.clock = host.clock ∧
      p after.streams := by
  cases hr with
  | stream =>
    exact ⟨rfl, rfl, hp.clear (hp.write hhost _ List.mem_cons_self _) _ List.mem_cons_self⟩
  | unopened => exact ⟨rfl, rfl, hhost⟩
  | unwritten => exact ⟨rfl, rfl, hhost⟩
  | device => exact ⟨rfl, (passedOn_streams hp hhost List.mem_cons_self entry).2⟩

theorem handle_streams (hp : KeptOn h.channels p) (hhost : p host.streams) (r : Record) :
    (h.handle r host).1.channels = h.channels ∧ (h.handle r host).2.clock = host.clock ∧
      p (h.handle r host).2.streams := by
  have hfallback := h.fallback_mem_channels
  have hown := hp.mono h.outputChannels_subset
  obtain ⟨ending, hending⟩ := h.exists_endsIn r host
  cases ending with
  | ignored =>
    obtain ⟨-, hhandle⟩ := hending
    rw [hhandle]
    exact ⟨rfl, rfl, hhost⟩
  | unrendered =>
    obtain ⟨-, x, -, hhandle⟩ := hending
    rw [hhandle]
    exact ⟨rfl, Host.clock_writeAll _ _ _, hp.writeAll hhost hfallback _⟩
  | taken =>
    obtain ⟨-, text, -, output, after, problems, htook, hhandle⟩ := hending
    obtain ⟨houtput, hclock, hafter⟩ := htook.streams hown hhost
    rw [hhandle]
    exact ⟨by rw [channels_eq, channels_eq, houtput], (Host.clock_writeAll _ _ _).trans hclock,
      hp.writeAll hafter hfallback _⟩
  | salvaged =>
    obtain ⟨-, text, -, output, after, problems, response, hrefused, hhandle⟩ := hending
    obtain ⟨houtput, hclock, hafter⟩ := hrefused.streams hown hhost
    rw [hhandle]
    exact ⟨by rw [channels_eq, channels_eq, houtput], (Host.clock_writeAll _ _ _).trans hclock,
      hp.writeAll hafter hfallback _⟩

theorem askFlush_streams (hp : KeptOn h.channels p) (hhost : p host.streams) :
    (h.askFlush host).2.files = host.files ∧ (h.askFlush host).2.clock = host.clock ∧
      p (h.askFlush host).2.streams := by
  unfold askFlush
  cases ho : h.output with
  | stream c =>
    have hc : c ∈ h.channels := by simp [channels, ho]
    have hflushed := hp.flush hhost c hc
    dsimp only
    split_ifs
    · exact ⟨rfl, rfl, hp.clear hflushed c hc⟩
    · exact ⟨rfl, rfl, hflushed⟩
  | file log => exact ⟨rfl, rfl, hhost⟩
  | device d => exact ⟨rfl, rfl, hhost⟩

theorem flush_streams (hp : KeptOn h.channels p) (hhost : p host.streams) :
    (h.flush host).files = host.files ∧ (h.flush host).clock = host.clock ∧
      p (h.flush host).streams := by
  obtain ⟨hfiles, hclock, hasked⟩ := askFlush_streams hp hhost
  rw [Handler.flush]
  generalize h.askFlush host = asked at hfiles hclock hasked
  obtain ⟨response, asked⟩ := asked
  have hreport : ∀ problem, p (h.report asked problem).streams :=
    fun problem => hp.write hasked _ h.fallback_mem_channels _
  cases response with
  | done => exact ⟨hfiles, hclock, hasked⟩
  | failed reason => exact ⟨hfiles, hclock, hreport _⟩
  | raised r => exact ⟨hfiles, hclock, hreport _⟩

def Opens (h : Handler) (n : Nat) : Prop :=
  ∃ log s, h.output = .file log ∧ log.stream = some s ∧ s.target = .file n

/-- A handler that writes no files but at the places `Q` and those that it has open, which are among
those numbered `A`. -/
structure FilesWithin (Q D : Location → Prop) (A : Nat → Prop) (h : Handler) (files : FileSystem) :
    Prop where
  usesWithin : ∀ log, h.output = .file log → UsesWithin Q D log.path log.rotation
  opens : ∀ n, h.Opens n → A n ∧ n < files.files.length

variable {Q D : Location → Prop} {A : Nat → Prop}

theorem files_conclude (h : Handler) (entry : Text) (response : Response) (host : Host) :
    (h.conclude entry response host).files = host.files := by
  cases response <;> rfl

theorem FilesWithin.deliver (hd : FilesWithin Q D A h host.files) (hs : host.files.Sound)
    (hdistinct : host.files.Distinct) (hcovers : Covers Q A host.files)
    (hstanding : ∀ {loc}, D loc → host.files.node? loc = some .directory ∧ ¬Q loc) (entry : Text) :
    Confined Q A host.files (h.deliver entry host).2.2.files ∧
      FilesWithin Q D A (h.deliver entry host).2.1 (h.deliver entry host).2.2.files := by
  obtain ⟨threshold, formatter, fallback, output⟩ := h
  cases output with
  | stream c =>
    simp only [Handler.deliver]
    split_ifs
    · exact ⟨.refl hs hdistinct, hd⟩
    · exact ⟨.refl hs hdistinct, hd⟩
  | file log =>
    have hwithin := hd.usesWithin log rfl
    have hchanges : ChangesWithin Q A log.path log.rotation host.files ⟨log, host.files, []⟩ :=
      ⟨rfl, .refl _, .refl hs hdistinct, fun s n hstream htarget =>
        hd.opens n ⟨log, s, rfl, hstream, htarget⟩⟩
    obtain ⟨-, -, hwritten⟩ := (keptBySteps_changesWithin hwithin hcovers hstanding).write
      ⟨rfl, hchanges⟩ host.clock entry
    simp only [Handler.deliver, reports_eq, Host.files_writeAll]
    refine ⟨hwritten.confined, ⟨?_, ?_⟩⟩
    · rintro log' hlog'
      cases hlog'
      rw [hwritten.path_eq]
      exact hwithin.becomes hwritten.becomes
    · rintro n ⟨log', s, hlog', hstream, htarget⟩
      cases hlog'
      exact hwritten.stream s n hstream htarget
  | device d =>
    have hdevice : ∀ received, FilesWithin Q D A
        ⟨threshold, formatter, fallback, .device { d with received := received }⟩ host.files :=
      fun received => ⟨by simp, fun n hn => by simp [Opens] at hn⟩
    simp only [Handler.deliver]
    split_ifs
    · exact ⟨.refl hs hdistinct, hdevice _⟩
    · exact ⟨.refl hs hdistinct, hdevice _⟩

/-- What a handler changes in the file system is confined to its places and the files it has open,
and remains so. -/
theorem FilesWithin.handle (hd : FilesWithin Q D A h host.files) (hs : host.files.Sound)
    (hdistinct : host.files.Distinct) (hcovers : Covers Q A host.files)
    (hstanding : ∀ {loc}, D loc → host.files.node? loc = some .directory ∧ ¬Q loc) (r : Record) :
    Confined Q A host.files (h.handle r host).2.files ∧
      FilesWithin Q D A (h.handle r host).1 (h.handle r host).2.files := by
  cases haccepts : h.accepts r.severity with
  | false =>
    rw [handle_of_not_accepts haccepts]
    exact ⟨.refl hs hdistinct, hd⟩
  | true =>
    cases hrender : h.formatter.render host.clock.offset r with
    | error x =>
      rw [handle_of_error haccepts hrender]
      exact ⟨.refl hs hdistinct, hd⟩
    | ok text =>
      rw [handle_of_ok haccepts hrender]
      dsimp only
      rw [files_conclude]
      exact hd.deliver hs hdistinct hcovers hstanding _

theorem filesWithin_anywhere {files : FileSystem}
    (hopens : ∀ n, h.Opens n → n < files.files.length) :
    h.FilesWithin (fun _ => True) (fun _ => False) (fun _ => True) files where
  usesWithin _ _ := ⟨fun _ _ => .inl trivial, fun _ _ _ => .inl trivial, fun _ _ => trivial,
    fun _ _ _ => trivial⟩
  opens n hn := ⟨trivial, hopens n hn⟩

theorem covers_anywhere (files : FileSystem) : Covers (fun _ => True) (fun _ => True) files :=
  ⟨fun _ _ => trivial, fun _ => trivial⟩

/-- A file system in order, and handlers that have files of it open. -/
structure InOrder (handlers : List Handler) (files : FileSystem) : Prop where
  sound : files.Sound
  distinct : files.Distinct
  opens : ∀ h ∈ handlers, ∀ n, h.Opens n → n < files.files.length

theorem InOrder.handle {front back : List Handler} (hk : InOrder (front ++ h :: back) host.files)
    (r : Record) :
    InOrder (front ++ (h.handle r host).1 :: back) (h.handle r host).2.files := by
  have hopens := List.forall_mem_append.mp hk.opens
  obtain ⟨hfront, hown, hback⟩ := hopens.imp_right List.forall_mem_cons.mp
  obtain ⟨hconfined, hfiles⟩ := (filesWithin_anywhere hown).handle hk.sound hk.distinct
    (covers_anywhere _) (fun hloc => hloc.elim) r
  have hstill : ∀ {g : Handler}, (∀ n, g.Opens n → n < host.files.files.length) →
      ∀ n, g.Opens n → n < (h.handle r host).2.files.files.length :=
    fun hg n hn => Nat.lt_of_lt_of_le (hg n hn) hconfined.grows
  refine ⟨hconfined.sound, hconfined.distinct, List.forall_mem_append.mpr ⟨?_, ?_⟩⟩
  · exact fun g hg => hstill (hfront g hg)
  · exact List.forall_mem_cons.mpr
      ⟨fun n hn => (hfiles.opens n hn).2, fun g hg => hstill (hback g hg)⟩

theorem InOrder.handleAll (r : Record) (front : List Handler) {turns back : List Handler}
    (hk : InOrder (front ++ turns ++ back) host.files) :
    InOrder (front ++ (handleAll r turns host).1 ++ back) (handleAll r turns host).2.files := by
  induction turns generalizing front host with
  | nil => exact hk
  | cons g turns ih =>
    rw [List.append_assoc, List.cons_append] at hk
    have hnext := hk.handle r
    rw [List.append_cons, ← List.append_assoc] at hnext
    have hrest := ih _ hnext
    rw [List.append_assoc front, List.singleton_append] at hrest
    exact hrest

/-- The entry has reached what is behind the output: the sink has it behind what it held, the file
has it at the place where the stream was, once it was ready for it, and a device was given it. -/
def Reached (entry : Text) (host after : Host) : Output → Prop
  | .stream c => (after.streams.sinkOf c.sink).content =
      (host.streams.sinkOf c.sink).content ++ entry
  | .file log => ∃ w s, Work.ready host.clock entry.length ⟨log, host.files, []⟩ = w ∧
      w.log.stream = some s ∧
      (s.target = .special .discarding ∨ ∃ n file, s.target = .file n ∧
        w.files.files[n]? = some file ∧
        after.files.files[n]? =
          some (file.put s.position entry (Instant.floorSeconds host.clock.wall)))
  | .device d => (d.onWrite d.received entry).response = .done

theorem Took.reached (ht : Took entry host h.output output' after problems) (hentry : entry ≠ [])
    (hk : InOrder [h] host.files) :
    Reached entry host (after.writeAll h.fallback (h.reportLines problems)) h.output := by
  have hopens := hk.opens h List.mem_cons_self
  generalize ho : h.output = output at ht
  cases ht with
  | @stream c hbad haccepts =>
    change ((host.streams.write c entry).sinkOf c.sink).content = _
    rw [Streams.sinkOf_write, if_pos ⟨hbad, haccepts, rfl⟩]
  | @file log w s hready hstream horder hroom =>
    refine ⟨w, s, hready, hstream, ?_⟩
    rw [Host.files_writeAll]
    cases htarget : s.target with
    | special kind =>
      rw [htarget] at hroom
      cases kind with
      | discarding => exact .inl rfl
      | refusing => exact absurd (List.eq_nil_of_length_eq_zero hroom.symm) hentry
    | file n =>
      have hchanges : ChangesWithin (fun _ => True) (fun _ => True) log.path log.rotation host.files
          ⟨log, host.files, []⟩ :=
        ⟨rfl, .refl _, .refl hk.sound hk.distinct, fun s n hs hn =>
          ⟨trivial, hopens n ⟨log, s, ho, hs, hn⟩⟩⟩
      obtain ⟨-, hready'⟩ :=
        (keptBySteps_changesWithin ((filesWithin_anywhere hopens).usesWithin log ho)
        (covers_anywhere _) fun hloc => hloc.elim).ready ⟨rfl, hchanges⟩ host.clock entry.length
      rw [hready] at hready'
      have hlt := (hready'.stream s n hstream htarget).2
      rw [htarget] at hroom
      refine .inr ⟨n, _, rfl, List.getElem?_eq_getElem hlt, ?_⟩
      rw [write_of_room hroom, getElem?_modifyFile_self (List.getElem?_eq_getElem hlt)]
  | device hdone => exact hdone

end Handler

end StructuredLog
