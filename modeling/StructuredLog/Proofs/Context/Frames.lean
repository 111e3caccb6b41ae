import Mathlib.Data.List.Nodup
import Mathlib.Data.List.TakeWhile
import StructuredLog.Context

/-!
# Frames come off as they were put on

Any number of threads enter frames and leave them by whatever tokens they like. On every stack the
tokens increase upwards, no two frames have the same one, and leaving by the token of a frame
restores the stack below that frame. Main statement: `frames_restored`. A frame that was left
already cannot be left once more to get rid of later ones, as `left_twice` shows.
-/

namespace StructuredLog

namespace ContextStore

inductive Move where
  | enter (thread : ThreadId) (fields : Fields)
  | exit (thread : ThreadId) (token : FrameToken)

namespace Move

def thread : Move → ThreadId
  | enter thread _ => thread
  | exit thread _ => thread

def isEnter : Move → Bool
  | enter _ _ => true
  | exit _ _ => false

def apply (s : ContextStore) : Move → ContextStore
  | enter thread fields => (s.enter thread fields).2
  | exit thread token => s.exit thread token

end Move

def after (s : ContextStore) (moves : List Move) : ContextStore := moves.foldl Move.apply s

def Holds (s : ContextStore) (thread : ThreadId) (token : FrameToken) : Prop :=
  ∃ f ∈ s.stack thread, f.token = token

def Along (P : ContextStore → Move → Prop) : ContextStore → List Move → Prop
  | _, [] => True
  | s, m :: rest => P s m ∧ Along P (m.apply s) rest

/-- The thread leaves only by tokens issued with or after this one, or not on its stack. -/
def LeavesFrom (thread : ThreadId) (token : FrameToken) (s : ContextStore) : Move → Prop
  | .enter _ _ => True
  | .exit t gone => t = thread → token ≤ gone ∨ ¬s.Holds thread gone

/-- The thread enters frames only on top of the one with this token. -/
def EntersAbove (thread : ThreadId) (token : FrameToken) (s : ContextStore) : Move → Prop
  | .enter t _ => t = thread → s.Holds thread token
  | .exit _ _ => True

structure Ordered (s : ContextStore) : Prop where
  issued : ∀ {thread f}, f ∈ s.stack thread → f.token < s.nextToken
  increasing : ∀ thread, (s.stack thread).Pairwise fun f g => f.token < g.token
  separate : ∀ {thread other f g}, f ∈ s.stack thread → g ∈ s.stack other → f.token = g.token →
    thread = other

variable {s : ContextStore} {thread other : ThreadId} {token : FrameToken}

theorem stack_apply_of_ne {m : Move} (h : other ≠ m.thread) :
    (m.apply s).stack other = s.stack other := by
  cases m with
  | enter thread fields => exact stack_setStack_of_ne h s _
  | exit thread token => exact stack_setStack_of_ne h s _

theorem below_sublist (token : FrameToken) (frames : List Frame) :
    (below token frames).Sublist frames := List.takeWhile_sublist _

theorem below_append_of_not_mem {front rest : List Frame} (h : ∀ f ∈ front, f.token ≠ token) :
    below token (front ++ rest) = front ++ below token rest :=
  List.takeWhile_append_of_pos fun f hf => by simpa using h f hf

theorem below_cons_self (f : Frame) (rest : List Frame) : below f.token (f :: rest) = [] := by
  simp [below]

theorem Ordered.sublist {s' : ContextStore} (h : s.Ordered) (hnext : s'.nextToken = s.nextToken)
    (hsub : ∀ thread, (s'.stack thread).Sublist (s.stack thread)) : s'.Ordered where
  issued hf := hnext ▸ h.issued ((hsub _).subset hf)
  increasing thread := (h.increasing thread).sublist (hsub thread)
  separate hf hg := h.separate ((hsub _).subset hf) ((hsub _).subset hg)

theorem Ordered.exit (h : s.Ordered) (thread : ThreadId) (token : FrameToken) :
    (s.exit thread token).Ordered := by
  refine h.sublist rfl fun other => ?_
  by_cases hother : other = thread
  · rw [hother, stack_exit]
    exact below_sublist token _
  · exact (stack_setStack_of_ne hother s _).symm ▸ List.Sublist.refl _

theorem mem_stack_enter {fields : Fields} {f : Frame}
    (hf : f ∈ (s.enter thread fields).2.stack other) :
    f ∈ s.stack other ∨ other = thread ∧ f = ⟨s.nextToken, fields⟩ := by
  by_cases hother : other = thread
  · rw [hother, stack_enter] at hf
    rcases List.mem_append.mp hf with hf | hf
    · exact .inl (hother ▸ hf)
    · exact .inr ⟨hother, List.mem_singleton.mp hf⟩
  · exact .inl (stack_setStack_of_ne hother s _ ▸ hf)

theorem Ordered.enter (h : s.Ordered) (thread : ThreadId) (fields : Fields) :
    (s.enter thread fields).2.Ordered where
  issued := by
    intro other f hf
    rcases mem_stack_enter hf with hf | ⟨-, rfl⟩
    · exact Nat.lt_succ_of_lt (h.issued hf)
    · exact Nat.lt_succ_self _
  increasing := by
    intro other
    by_cases hother : other = thread
    · rw [hother, stack_enter, List.pairwise_append]
      refine ⟨h.increasing thread, List.pairwise_singleton _ _, fun f hf g hg => ?_⟩
      rw [List.mem_singleton.mp hg]
      exact h.issued hf
    · have hsame : (s.enter thread fields).2.stack other = s.stack other :=
        stack_setStack_of_ne hother s _
      rw [hsame]
      exact h.increasing other
  separate := by
    intro first second f g hf hg htoken
    rcases mem_stack_enter hf with hold | ⟨rfl, rfl⟩
    · rcases mem_stack_enter hg with hold' | ⟨-, rfl⟩
      · exact h.separate hold hold' htoken
      · exact absurd htoken (Nat.ne_of_lt (h.issued hold))
    · rcases mem_stack_enter hg with hold | ⟨rfl, -⟩
      · exact absurd htoken.symm (Nat.ne_of_lt (h.issued hold))
      · rfl

theorem Ordered.apply (h : s.Ordered) (m : Move) : (m.apply s).Ordered := by
  cases m with
  | enter thread fields => exact h.enter thread fields
  | exit thread token => exact h.exit thread token

theorem Ordered.after (h : s.Ordered) (moves : List Move) : (s.after moves).Ordered := by
  induction moves generalizing s with
  | nil => exact h
  | cons m moves ih => exact ih (h.apply m)

theorem ordered_empty : empty.Ordered where
  issued hf := by cases hf
  increasing _ := .nil
  separate hf := by cases hf

/-- One token is issued for every frame entered, so they fit any word that can count these. -/
theorem nextToken_after (moves : List Move) (s : ContextStore) :
    (s.after moves).nextToken = s.nextToken + moves.countP Move.isEnter := by
  induction moves generalizing s with
  | nil => rfl
  | cons m moves ih =>
    have hstep : (m.apply s).nextToken = s.nextToken + if m.isEnter then 1 else 0 := by
      cases m <;> rfl
    have hafter : (s.after (m :: moves)).nextToken = ((m.apply s).after moves).nextToken := rfl
    rw [hafter, ih, hstep, List.countP_cons, Nat.add_assoc, Nat.add_comm (List.countP _ _)]

theorem stack_exit_of_not_holds (h : ¬s.Holds thread token) (other : ThreadId) :
    (s.exit thread token).stack other = s.stack other := by
  by_cases hother : other = thread
  · rw [hother, stack_exit]
    exact below_eq_self fun f hf htoken => h ⟨f, hf, htoken⟩
  · rw [exit, stack_setStack_of_ne hother]

def StandsOn (s : ContextStore) (thread : ThreadId) (base : List Frame) (f : Frame) : Prop :=
  (∃ above, s.stack thread = base ++ f :: above) ∨ s.stack thread = base

section

variable {base : List Frame} {f : Frame}

theorem StandsOn.of_sublist_above {above : List Frame} (h : s.stack thread = base ++ f :: above)
    (hbase : ∀ g ∈ base, g.token ≠ token) :
    (s.exit thread token).StandsOn thread base f := by
  rw [StandsOn, stack_exit, h, below_append_of_not_mem hbase]
  by_cases hf : f.token = token
  · right
    rw [← hf, below_cons_self, List.append_nil]
  · left
    refine ⟨below token above, ?_⟩
    rw [← List.singleton_append, below_append_of_not_mem (by simpa using hf)]
    rfl

theorem StandsOn.exit (h : s.StandsOn thread base f) (hbase : ∀ g ∈ base, g.token < f.token)
    (hleaves : f.token ≤ token ∨ ¬s.Holds thread token) :
    (s.exit thread token).StandsOn thread base f := by
  rcases hleaves with hle | hnot
  · have hne : ∀ g ∈ base, g.token ≠ token := fun g hg =>
      Nat.ne_of_lt (Nat.lt_of_lt_of_le (hbase g hg) hle)
    rcases h with ⟨above, hstack⟩ | hstack
    · exact .of_sublist_above hstack hne
    · right
      rw [stack_exit, hstack]
      exact below_eq_self hne
  · rw [StandsOn, stack_exit_of_not_holds hnot]
    exact h

theorem StandsOn.enter (h : s.StandsOn thread base f) (hbase : ∀ g ∈ base, g.token < f.token)
    (hholds : s.Holds thread f.token) (fields : Fields) :
    (s.enter thread fields).2.StandsOn thread base f := by
  rcases h with ⟨above, hstack⟩ | hstack
  · left
    refine ⟨above ++ [⟨s.nextToken, fields⟩], ?_⟩
    rw [stack_enter, hstack, List.append_assoc, List.cons_append]
  · obtain ⟨g, hg, htoken⟩ := hholds
    exact absurd htoken (Nat.ne_of_lt (hbase g (hstack ▸ hg)))

theorem StandsOn.apply (h : s.StandsOn thread base f) (hbase : ∀ g ∈ base, g.token < f.token)
    {m : Move} (hleaves : LeavesFrom thread f.token s m)
    (henters : EntersAbove thread f.token s m) :
    (m.apply s).StandsOn thread base f := by
  by_cases hthread : m.thread = thread
  · cases m with
    | enter t fields =>
      obtain rfl : t = thread := hthread
      exact h.enter hbase (henters rfl) fields
    | exit t token =>
      obtain rfl : t = thread := hthread
      exact h.exit hbase (hleaves rfl)
  · rw [StandsOn, stack_apply_of_ne (Ne.symm hthread)]
    exact h

theorem StandsOn.after (h : s.StandsOn thread base f) (hbase : ∀ g ∈ base, g.token < f.token)
    {moves : List Move} (hleaves : Along (LeavesFrom thread f.token) s moves)
    (henters : Along (EntersAbove thread f.token) s moves) :
    (s.after moves).StandsOn thread base f := by
  induction moves generalizing s with
  | nil => exact h
  | cons m moves ih => exact ih (h.apply hbase hleaves.1 henters.1) hleaves.2 henters.2

theorem StandsOn.stack_exit_eq (h : s.StandsOn thread base f)
    (hbase : ∀ g ∈ base, g.token < f.token) : (s.exit thread f.token).stack thread = base := by
  have hne : ∀ g ∈ base, g.token ≠ f.token := fun g hg => Nat.ne_of_lt (hbase g hg)
  rcases h with ⟨above, hstack⟩ | hstack
  · rw [stack_exit, hstack, below_append_of_not_mem hne, below_cons_self, List.append_nil]
  · rw [stack_exit, hstack]
    exact below_eq_self hne

end

/-- Whatever happens above a frame, leaving by its token restores what was below it. -/
theorem Ordered.stack_restored (h : s.Ordered) (fields : Fields) {later : List Move}
    (hleaves : Along (LeavesFrom thread s.nextToken) (s.enter thread fields).2 later)
    (henters : Along (EntersAbove thread s.nextToken) (s.enter thread fields).2 later) :
    (((s.enter thread fields).2.after later).exit thread s.nextToken).stack thread =
      s.stack thread := by
  have hbase : ∀ g ∈ s.stack thread, g.token < (⟨s.nextToken, fields⟩ : Frame).token :=
    fun g hg => h.issued hg
  have hentered : (s.enter thread fields).2.StandsOn thread (s.stack thread)
      ⟨s.nextToken, fields⟩ :=
    .inl ⟨[], stack_enter s thread fields⟩
  exact (hentered.after hbase hleaves henters).stack_exit_eq hbase

def exitAll (thread : ThreadId) (tokens : List FrameToken) (s : ContextStore) : ContextStore :=
  tokens.foldl (fun s token => s.exit thread token) s

theorem stack_exitAll (thread : ThreadId) (tokens : List FrameToken) (s : ContextStore) :
    (exitAll thread tokens s).stack thread =
      (s.stack thread).takeWhile fun f => decide (f.token ∉ tokens) := by
  induction tokens generalizing s with
  | nil => simpa [exitAll] using (List.takeWhile_eq_self_iff.mpr fun _ _ => rfl).symm
  | cons token tokens ih =>
    have hfirst :
        exitAll thread (token :: tokens) s = exitAll thread tokens (s.exit thread token) :=
      rfl
    rw [hfirst, ih, stack_exit, below, List.takeWhile_takeWhile]
    congr 1
    funext f
    simp only [List.mem_cons, not_or, decide_eq_true_eq, and_comm]

theorem stack_exitAll_of_ne (h : other ≠ thread) (tokens : List FrameToken) (s : ContextStore) :
    (exitAll thread tokens s).stack other = s.stack other := by
  induction tokens generalizing s with
  | nil => rfl
  | cons token tokens ih => exact (ih (s.exit thread token)).trans (stack_setStack_of_ne h s _)

theorem stack_exitAll_congr {tokens tokens' : List FrameToken}
    (h : ∀ token, token ∈ tokens ↔ token ∈ tokens') (thread other : ThreadId) (s : ContextStore) :
    (exitAll thread tokens s).stack other = (exitAll thread tokens' s).stack other := by
  by_cases hother : other = thread
  · rw [hother, stack_exitAll, stack_exitAll]
    simp only [h]
  · rw [stack_exitAll_of_ne hother, stack_exitAll_of_ne hother]

/-- In every store that threads can bring about: the tokens on a stack increase upwards, none is on
two stacks, and they are no more than the frames entered so far. A frame left by its token takes
with it what is above it and nothing else, whatever was done in between, as long as its thread put
no frame on a stack without it. Leaving by a token that is not on the stack changes nothing, no
thread changes the stack of another, and the order in which a thread leaves by several tokens does
not matter. -/
theorem frames_restored (past : List Move) :
    let s := empty.after past
    (∀ thread, (s.stack thread).Pairwise (fun f g => f.token < g.token) ∧
      ∀ f ∈ s.stack thread, f.token ≤ past.countP Move.isEnter) ∧
    (∀ thread other, thread ≠ other → ∀ f ∈ s.stack thread, ∀ g ∈ s.stack other,
      f.token ≠ g.token) ∧
    (∀ thread fields later,
      Along (LeavesFrom thread (s.enter thread fields).1) (s.enter thread fields).2 later →
      Along (EntersAbove thread (s.enter thread fields).1) (s.enter thread fields).2 later →
      let left := ((s.enter thread fields).2.after later).exit thread (s.enter thread fields).1
      left.stack thread = s.stack thread ∧ left.merged thread = s.merged thread) ∧
    (∀ thread token, ¬s.Holds thread token →
      (s.exit thread token).nextToken = s.nextToken ∧
        ∀ other, (s.exit thread token).stack other = s.stack other) ∧
    (∀ (m : Move) other, other ≠ m.thread → (m.apply s).stack other = s.stack other) ∧
    ∀ thread tokens tokens', (∀ token, token ∈ tokens ↔ token ∈ tokens') →
      ∀ other, (exitAll thread tokens s).stack other = (exitAll thread tokens' s).stack other := by
  intro s
  have hs : s.Ordered := ordered_empty.after past
  refine ⟨fun thread => ⟨hs.increasing thread, fun f hf => ?_⟩, ?_, ?_, ?_, ?_, ?_⟩
  · have hissued := hs.issued hf
    rw [nextToken_after] at hissued
    exact Nat.le_of_lt_succ (Nat.lt_of_lt_of_eq hissued (Nat.add_comm 1 _))
  · intro thread other hne f hf g hg htoken
    exact hne (hs.separate hf hg htoken)
  · intro thread fields later hleaves henters left
    have hstack := hs.stack_restored fields hleaves henters
    exact ⟨hstack, congrArg mergeFrames hstack⟩
  · intro thread token hnot
    exact ⟨rfl, stack_exit_of_not_holds hnot⟩
  · intro m other hne
    exact stack_apply_of_ne hne
  · intro thread tokens tokens' hsame other
    exact stack_exitAll_congr hsame thread other s

def twoThreads : List Move := [.enter 0 ⟨[([97], .null)]⟩, .enter 1 Fields.empty]

def crossing : List Move :=
  [.exit 1 3, .enter 0 Fields.empty, .enter 1 Fields.empty, .exit 0 2, .enter 0 Fields.empty,
    .exit 0 4]

theorem frames_restored_crossing :
    let s := empty.after twoThreads
    Along (LeavesFrom 0 3) (s.enter 0 Fields.empty).2 crossing ∧
      Along (EntersAbove 0 3) (s.enter 0 Fields.empty).2 crossing ∧
      (((s.enter 0 Fields.empty).2.after crossing).exit 0 3).stack 0 = [⟨1, ⟨[([97], .null)]⟩⟩] ∧
      (((s.enter 0 Fields.empty).2.after crossing).exit 0 3).merged 0 = ⟨[([97], .null)]⟩ := by
  intro s
  have hleaves : Along (LeavesFrom 0 3) (s.enter 0 Fields.empty).2 crossing := by
    refine ⟨fun h => absurd h (by decide), trivial, trivial, fun _ => .inr ?_, trivial,
      fun _ => .inl (by decide), trivial⟩
    rintro ⟨f, hf, htoken⟩
    revert f
    decide
  have henters : Along (EntersAbove 0 3) (s.enter 0 Fields.empty).2 crossing := by
    refine ⟨trivial, fun _ => ⟨⟨3, Fields.empty⟩, by decide, rfl⟩, fun h => absurd h (by decide),
      trivial, fun _ => ⟨⟨3, Fields.empty⟩, by decide, rfl⟩, trivial, trivial⟩
  obtain ⟨hstack, hmerged⟩ :=
    (frames_restored twoThreads).2.2.1 0 Fields.empty crossing hleaves henters
  exact ⟨hleaves, henters, hstack, hmerged⟩

/-- A thread that leaves a frame by its token, enters another one and leaves by the first token
once more keeps the second frame. -/
theorem left_twice : ¬∀ (past later : List Move) (thread : ThreadId) (fields : Fields),
    let s := empty.after past
    Along (LeavesFrom thread (s.enter thread fields).1) (s.enter thread fields).2 later →
      (((s.enter thread fields).2.after later).exit thread (s.enter thread fields).1).stack thread =
        s.stack thread := by
  intro hall
  have hleaves : Along (LeavesFrom 0 1) (empty.enter 0 Fields.empty).2
      [.exit 0 1, .enter 0 Fields.empty] := ⟨fun _ => .inl (Nat.le_refl 1), trivial, trivial⟩
  have hstack := hall [] [.exit 0 1, .enter 0 Fields.empty] 0 Fields.empty hleaves
  revert hstack
  decide

end ContextStore

end StructuredLog
