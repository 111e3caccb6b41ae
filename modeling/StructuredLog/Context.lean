import StructuredLog.Fields

/-!
Context frames. Every thread has a stack of frames; entering one yields a token, and leaving by a
token removes that frame and all above it. A token that is not on the stack of the thread that
leaves changes nothing. The context of an entry is the merge of the frames, innermost last.
-/

namespace StructuredLog

/-- Tokens count from one over all threads. -/
abbrev FrameToken := Nat

abbrev ThreadId := Nat

structure Frame where
  token : FrameToken
  fields : Fields
  deriving DecidableEq, Repr

structure ContextStore where
  /-- The stacks that are not empty, each with its outermost frame first. -/
  frames : List (ThreadId × List Frame)
  nextToken : FrameToken
  deriving DecidableEq, Repr

namespace ContextStore

def empty : ContextStore := ⟨[], 1⟩

def stack (s : ContextStore) (thread : ThreadId) : List Frame :=
  (Assoc.get? thread s.frames).getD []

def setStack (s : ContextStore) (thread : ThreadId) (frames : List Frame) : ContextStore :=
  { s with frames := Assoc.set thread frames s.frames }

def enter (s : ContextStore) (thread : ThreadId) (fields : Fields) : FrameToken × ContextStore :=
  (s.nextToken,
    { s.setStack thread (s.stack thread ++ [⟨s.nextToken, fields⟩]) with
      nextToken := s.nextToken + 1 })

/-- The frames below the one with the token; all of them if there is none. -/
def below (token : FrameToken) (frames : List Frame) : List Frame :=
  frames.takeWhile fun f => decide (f.token ≠ token)

def exit (s : ContextStore) (thread : ThreadId) (token : FrameToken) : ContextStore :=
  s.setStack thread (below token (s.stack thread))

def endThread (s : ContextStore) (thread : ThreadId) : ContextStore :=
  { s with frames := Assoc.erase thread s.frames }

def mergeFrames (frames : List Frame) : Fields :=
  frames.foldl (fun acc f => acc.merge f.fields) Fields.empty

def merged (s : ContextStore) (thread : ThreadId) : Fields := mergeFrames (s.stack thread)

def depth (s : ContextStore) (thread : ThreadId) : Nat := (s.stack thread).length

@[simp] theorem stack_setStack_self (s : ContextStore) (thread : ThreadId) (frames : List Frame) :
    (s.setStack thread frames).stack thread = frames := by
  simp [stack, setStack]

theorem stack_setStack_of_ne {thread other : ThreadId} (h : other ≠ thread) (s : ContextStore)
    (frames : List Frame) : (s.setStack thread frames).stack other = s.stack other := by
  simp [stack, setStack, Assoc.get?_set_of_ne h]

theorem stack_enter (s : ContextStore) (thread : ThreadId) (fields : Fields) :
    (s.enter thread fields).2.stack thread = s.stack thread ++ [⟨s.nextToken, fields⟩] :=
  stack_setStack_self s thread _

theorem stack_exit (s : ContextStore) (thread : ThreadId) (token : FrameToken) :
    (s.exit thread token).stack thread = below token (s.stack thread) :=
  stack_setStack_self s thread _

theorem below_eq_self {token : FrameToken} {frames : List Frame}
    (h : ∀ f ∈ frames, f.token ≠ token) : below token frames = frames := by
  induction frames with
  | nil => rfl
  | cons f rest ih =>
    have hf : f.token ≠ token := h f List.mem_cons_self
    have hrest := ih fun g hg => h g (List.mem_cons_of_mem _ hg)
    simp only [below] at hrest ⊢
    rw [List.takeWhile_cons, if_pos (by simpa using hf), hrest]

end ContextStore

def requestFields (requestId userId : Text) (extra : Fields) : Fields :=
  let fields := Fields.empty.set (Text.ascii "request_id") (.text requestId)
  let fields := if userId = [] then fields else fields.set (Text.ascii "user_id") (.text userId)
  fields.merge extra

end StructuredLog
