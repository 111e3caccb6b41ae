import StructuredLog.Streams

/-!
# What a use of a stream changes

A write or flush concerns the sink of its channel, and whether that channel and the one flushed
before it are in order. So states that agree on some channels still do after the same writes to
these, and a write to another channel with a sink of its own leaves them alone.
-/

namespace StructuredLog

namespace Streams

variable {s s' : Streams} {c d : Channel} {name t : Text}

@[simp] theorem isBad_put (s : Streams) (name : Text) (sink : Sink) (d : Channel) :
    (s.put name sink).isBad d = s.isBad d := rfl

@[simp] theorem isBad_spoil (s : Streams) (c d : Channel) :
    (s.spoil c).isBad d = (s.isBad d || decide (d = c)) := by
  unfold spoil
  split
  · rename_i hc
    by_cases hd : d = c
    · simp [hd, hc]
    · simp [hd]
  · by_cases hd : d = c <;> simp [isBad, hd]

@[simp] theorem isBad_clear (s : Streams) (c d : Channel) :
    (s.clear c).isBad d = (s.isBad d && decide (d ≠ c)) := by
  by_cases hd : d = c <;> by_cases hmem : d ∈ s.bad <;> simp [isBad, clear, hd, hmem]

theorem isBad_sync (s : Streams) (c d : Channel) :
    (s.sync c).isBad d = (s.isBad d || (decide (d = c) && (s.sinkOf c.sink).refuses)) := by
  unfold sync
  split <;> simp [*]

theorem isBad_prepare (s : Streams) (c d : Channel) :
    (s.prepare c).isBad d =
      (s.isBad d || (!s.isBad c && decide (c.tiedTo = some d) && (s.sinkOf d.sink).refuses)) := by
  unfold prepare
  cases htied : c.tiedTo with
  | none => simp
  | some tied =>
    by_cases hd : tied = d
    · subst hd
      by_cases hc : s.isBad c <;> simp [hc, isBad_sync]
    · by_cases hc : s.isBad c <;> simp [hc, isBad_sync, hd, Ne.symm hd]

theorem tiedTo_ne_self (c : Channel) : c.tiedTo ≠ some c := by
  cases c <;> simp [Channel.tiedTo]

theorem isBad_write (s : Streams) (c : Channel) (t : Text) (d : Channel) :
    (s.write c t).isBad d =
      (s.isBad d ||
        (!s.isBad c && (decide (d = c) || decide (c.tiedTo = some d)) &&
          (s.sinkOf d.sink).refuses)) := by
  unfold write
  by_cases hc : s.isBad c
  · simp [hc]
  · by_cases hd : d = c
    · subst hd
      have htied := tiedTo_ne_self d
      by_cases hr : (s.sinkOf d.sink).refuses <;> simp [hc, hr, isBad_prepare, htied]
    · by_cases hr : (s.sinkOf c.sink).refuses <;> simp [hc, hr, isBad_prepare, hd]

theorem sinkOf_write (s : Streams) (c : Channel) (t name : Text) :
    (s.write c t).sinkOf name =
      if s.isBad c = false ∧ (s.sinkOf c.sink).refuses = false ∧ name = c.sink then
        { s.sinkOf name with content := (s.sinkOf name).content ++ t }
      else s.sinkOf name := by
  unfold write
  by_cases hc : s.isBad c
  · simp [hc]
  · by_cases hr : (s.sinkOf c.sink).refuses
    · simp [hc, hr]
    · by_cases hname : name = c.sink
      · subst hname
        simp [hc, hr]
      · simp [hc, hr, hname, sinkOf_put_of_ne hname]

theorem refuses_write (s : Streams) (c : Channel) (t name : Text) :
    ((s.write c t).sinkOf name).refuses = (s.sinkOf name).refuses := by
  rw [sinkOf_write]
  split <;> rfl

theorem isBad_flush (s : Streams) (c d : Channel) :
    (s.flush c).isBad d =
      (s.isBad d || ((decide (d = c) || (!s.isBad c && decide (c.tiedTo = some d))) &&
        (s.sinkOf d.sink).refuses)) := by
  unfold flush
  rw [isBad_sync, isBad_prepare, sinkOf_prepare]
  by_cases hd : d = c
  · subst hd
    simp [tiedTo_ne_self]
  · simp [hd]

@[simp] theorem sinkOf_flush (s : Streams) (c : Channel) (name : Text) :
    (s.flush c).sinkOf name = s.sinkOf name := by
  simp [flush]

structure Takes (s : Streams) (c : Channel) : Prop where
  inOrder : s.isBad c = false
  accepts : (s.sinkOf c.sink).refuses = false
  clearWay : ∀ tied, c.tiedTo = some tied →
    s.isBad tied = true ∨ (s.sinkOf tied.sink).refuses = false

theorem Takes.isBad_write (h : s.Takes c) (t : Text) (d : Channel) :
    (s.write c t).isBad d = s.isBad d := by
  rw [Streams.isBad_write, h.inOrder]
  by_cases hd : d = c
  · subst hd
    simp [h.accepts]
  · by_cases htied : c.tiedTo = some d
    · rcases h.clearWay d htied with hbad | haccepts <;> simp [*]
    · simp [hd, htied]

theorem Takes.sinkOf_write (h : s.Takes c) (t name : Text) :
    (s.write c t).sinkOf name =
      if name = c.sink then { s.sinkOf name with content := (s.sinkOf name).content ++ t }
      else s.sinkOf name := by
  rw [Streams.sinkOf_write]
  simp [h.inOrder, h.accepts]

/-- States that are the same on some channels, but for what their sinks hold, which is related by
`R`. -/
structure Agree (C : Channel → Prop) (R : Text → Text → Text → Prop) (s s' : Streams) : Prop where
  isBad : ∀ c, C c → s.isBad c = s'.isBad c
  refuses : ∀ c, C c → (s.sinkOf c.sink).refuses = (s'.sinkOf c.sink).refuses
  content : ∀ c, C c → R c.sink (s.sinkOf c.sink).content (s'.sinkOf c.sink).content

def KeptByAppend (R : Text → Text → Text → Prop) : Prop :=
  ∀ name content content' t, R name content content' → R name (content ++ t) (content' ++ t)

section

variable {C : Channel → Prop} {R : Text → Text → Text → Prop}

theorem Agree.write (h : s.Agree C R s') (hR : KeptByAppend R) (hc : C c) (t : Text) :
    (s.write c t).Agree C R (s'.write c t) where
  isBad d hd := by
    rw [isBad_write, isBad_write, h.isBad d hd, h.isBad c hc, h.refuses d hd]
  refuses d hd := by
    rw [refuses_write, refuses_write, h.refuses d hd]
  content d hd := by
    rw [sinkOf_write, sinkOf_write, ← h.isBad c hc, ← h.refuses c hc]
    split
    · exact hR _ _ _ t (h.content d hd)
    · exact h.content d hd

theorem Agree.flush (h : s.Agree C R s') (hc : C c) : (s.flush c).Agree C R (s'.flush c) where
  isBad d hd := by
    rw [isBad_flush, isBad_flush, h.isBad d hd, h.isBad c hc, h.refuses d hd]
  refuses d hd := by
    rw [sinkOf_flush, sinkOf_flush, h.refuses d hd]
  content d hd := by
    rw [sinkOf_flush, sinkOf_flush]
    exact h.content d hd

theorem Agree.clear (h : s.Agree C R s') (c : Channel) : (s.clear c).Agree C R (s'.clear c) where
  isBad d hd := by rw [isBad_clear, isBad_clear, h.isBad d hd]
  refuses := h.refuses
  content := h.content

end

end Streams

end StructuredLog
