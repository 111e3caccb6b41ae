import Mathlib.Tactic.SplitIfs
import StructuredLog.Text.Utf8

/-!
# Sequences are encoded characters

`sequenceLength` recognises exactly the encodings of the characters beyond ASCII, so the pieces of
a text are its encoded characters and the octets that belong to none.
-/

namespace StructuredLog

theorem UInt8.forall_of_fin {p : UInt8 → Prop} (h : ∀ n : Fin 256, p (UInt8.ofNat n)) (b : UInt8) :
    p b := by
  have hb := h ⟨b.toNat, b.toNat_lt⟩
  simpa using hb

theorem UInt8.toNat_ofNat_of_lt {n : Nat} (h : n < 256) : (UInt8.ofNat n).toNat = n := by
  rw [UInt8.toNat_ofNat']
  omega

namespace Utf8

open String (utf8EncodeChar)

theorem isContinuation_iff (b : UInt8) :
    isContinuation b = true ↔ 128 ≤ b.toNat ∧ b.toNat < 192 := by
  revert b
  exact UInt8.forall_of_fin (by decide +kernel)

theorem leadShape_eq (lead : UInt8) : leadShape lead =
    if 194 ≤ lead.toNat ∧ lead.toNat ≤ 223 then some (2, 0x80, 0xbf)
    else if lead.toNat = 224 then some (3, 0xa0, 0xbf)
    else if lead.toNat = 237 then some (3, 0x80, 0x9f)
    else if 225 ≤ lead.toNat ∧ lead.toNat ≤ 239 then some (3, 0x80, 0xbf)
    else if lead.toNat = 240 then some (4, 0x90, 0xbf)
    else if lead.toNat = 244 then some (4, 0x80, 0x8f)
    else if 241 ≤ lead.toNat ∧ lead.toNat ≤ 243 then some (4, 0x80, 0xbf)
    else none := by
  revert lead
  exact UInt8.forall_of_fin (by decide +kernel)

section Encode

variable {c : Char}

theorem encode_one (h : c.val.toNat < 128) : utf8EncodeChar c = [UInt8.ofNat c.val.toNat] := by
  simp only [utf8EncodeChar]
  rw [if_pos (by omega)]

theorem encode_two (h : 128 ≤ c.val.toNat) (h' : c.val.toNat < 2048) : utf8EncodeChar c =
    [UInt8.ofNat (c.val.toNat / 64 + 192), UInt8.ofNat (c.val.toNat % 64 + 128)] := by
  have hlead : c.val.toNat / 64 % 32 = c.val.toNat / 64 := by omega
  simp only [utf8EncodeChar]
  rw [if_neg (by omega), if_pos (by omega), hlead]

theorem encode_three (h : 2048 ≤ c.val.toNat) (h' : c.val.toNat < 65536) : utf8EncodeChar c =
    [UInt8.ofNat (c.val.toNat / 4096 + 224), UInt8.ofNat (c.val.toNat / 64 % 64 + 128),
      UInt8.ofNat (c.val.toNat % 64 + 128)] := by
  have hlead : c.val.toNat / 4096 % 16 = c.val.toNat / 4096 := by omega
  simp only [utf8EncodeChar]
  rw [if_neg (by omega), if_neg (by omega), if_pos (by omega), hlead]

theorem encode_four (h : 65536 ≤ c.val.toNat) : utf8EncodeChar c =
    [UInt8.ofNat (c.val.toNat / 262144 + 240), UInt8.ofNat (c.val.toNat / 4096 % 64 + 128),
      UInt8.ofNat (c.val.toNat / 64 % 64 + 128), UInt8.ofNat (c.val.toNat % 64 + 128)] := by
  have hvalid := c.valid
  simp only [UInt32.isValidChar, Nat.isValidChar] at hvalid
  have hlead : c.val.toNat / 262144 % 8 = c.val.toNat / 262144 := by omega
  simp only [utf8EncodeChar]
  rw [if_neg (by omega), if_neg (by omega), if_neg (by omega), hlead]

end Encode

theorem le_of_mem_encode {c : Char} (h : 128 ≤ c.val.toNat) {b : UInt8}
    (hb : b ∈ utf8EncodeChar c) : 128 ≤ b.toNat := by
  have hhigh : ∀ n, 128 ≤ n → n < 256 → 128 ≤ (UInt8.ofNat n).toNat := by
    intro n hn hn'
    rwa [UInt8.toNat_ofNat_of_lt hn']
  have hvalid := c.valid
  simp only [UInt32.isValidChar, Nat.isValidChar] at hvalid
  rcases Nat.lt_or_ge c.val.toNat 2048 with hlt | hge
  · rw [encode_two h hlt] at hb
    simp only [List.mem_cons, List.not_mem_nil, or_false] at hb
    rcases hb with rfl | rfl
    all_goals exact hhigh _ (by omega) (by omega)
  rcases Nat.lt_or_ge c.val.toNat 65536 with hlt | hge'
  · rw [encode_three hge hlt] at hb
    simp only [List.mem_cons, List.not_mem_nil, or_false] at hb
    rcases hb with rfl | rfl | rfl
    all_goals exact hhigh _ (by omega) (by omega)
  · rw [encode_four hge'] at hb
    simp only [List.mem_cons, List.not_mem_nil, or_false] at hb
    rcases hb with rfl | rfl | rfl | rfl
    all_goals exact hhigh _ (by omega) (by omega)

def IsTail (b : UInt8) : Prop := 128 ≤ b.toNat ∧ b.toNat < 192

theorem sequenceLength_of_shape {x y low high : UInt8} {n : Nat} {rest : Text}
    (hshape : leadShape x = some (n, low, high)) : sequenceLength (x :: y :: rest) =
      if low.toNat ≤ y.toNat ∧ y.toNat ≤ high.toNat ∧ n - 2 ≤ rest.length ∧
        (rest.take (n - 2)).all isContinuation = true then n else 0 := by
  simp only [sequenceLength, hshape, Bool.and_eq_true, decide_eq_true_eq, UInt8.le_iff_toNat_le,
    and_assoc]

theorem sequenceLength_two {x y : UInt8} (hx : 194 ≤ x.toNat ∧ x.toNat ≤ 223) (hy : IsTail y)
    (t : Text) : sequenceLength (x :: y :: t) = 2 := by
  obtain ⟨hy, hy'⟩ := hy
  have hshape : leadShape x = some (2, 0x80, 0xbf) := by rw [leadShape_eq, if_pos hx]
  rw [sequenceLength_of_shape hshape, if_pos]
  simp
  omega

theorem sequenceLength_three {x y z : UInt8} (hx : 224 ≤ x.toNat ∧ x.toNat ≤ 239)
    (hy : IsTail y) (hlow : x.toNat = 224 → 160 ≤ y.toNat) (hhigh : x.toNat = 237 → y.toNat < 160)
    (hz : IsTail z) (t : Text) : sequenceLength (x :: y :: z :: t) = 3 := by
  obtain ⟨hy, hy'⟩ := hy
  have hshape : ∃ low high, leadShape x = some (3, low, high) ∧ low.toNat ≤ y.toNat ∧
      y.toNat ≤ high.toNat := by
    rw [leadShape_eq, if_neg (by omega)]
    split_ifs
    · exact ⟨_, _, rfl, hlow ‹_›, by simp; omega⟩
    · exact ⟨_, _, rfl, hy, by simp; omega⟩
    · exact ⟨_, _, rfl, hy, by simp; omega⟩
    all_goals omega
  obtain ⟨low, high, hshape, hbelow, habove⟩ := hshape
  rw [sequenceLength_of_shape hshape, if_pos]
  simpa [hbelow, habove, isContinuation_iff, IsTail] using hz

theorem sequenceLength_four {x y z u : UInt8} (hx : 240 ≤ x.toNat ∧ x.toNat ≤ 244)
    (hy : IsTail y) (hlow : x.toNat = 240 → 144 ≤ y.toNat) (hhigh : x.toNat = 244 → y.toNat < 144)
    (hz : IsTail z) (hu : IsTail u) (t : Text) : sequenceLength (x :: y :: z :: u :: t) = 4 := by
  obtain ⟨hy, hy'⟩ := hy
  have hshape : ∃ low high, leadShape x = some (4, low, high) ∧ low.toNat ≤ y.toNat ∧
      y.toNat ≤ high.toNat := by
    rw [leadShape_eq, if_neg (by omega), if_neg (by omega), if_neg (by omega), if_neg (by omega)]
    split_ifs
    · exact ⟨_, _, rfl, hlow ‹_›, by simp; omega⟩
    · exact ⟨_, _, rfl, hy, by simp; omega⟩
    · exact ⟨_, _, rfl, hy, by simp; omega⟩
    all_goals omega
  obtain ⟨low, high, hshape, hbelow, habove⟩ := hshape
  rw [sequenceLength_of_shape hshape, if_pos]
  simpa [hbelow, habove, isContinuation_iff, IsTail] using ⟨hz, hu⟩

theorem sequenceLength_encode {c : Char} (h : 128 ≤ c.val.toNat) (t : Text) :
    sequenceLength (utf8EncodeChar c ++ t) = (utf8EncodeChar c).length := by
  have hvalid := c.valid
  simp only [UInt32.isValidChar, Nat.isValidChar] at hvalid
  have htail : ∀ n, IsTail (UInt8.ofNat (n % 64 + 128)) := by
    intro n
    rw [IsTail, UInt8.toNat_ofNat_of_lt (by omega)]
    omega
  rcases Nat.lt_or_ge c.val.toNat 2048 with hlt | hge
  · rw [encode_two h hlt]
    refine sequenceLength_two ?_ (htail _) t
    rw [UInt8.toNat_ofNat_of_lt (by omega)]
    omega
  rcases Nat.lt_or_ge c.val.toNat 65536 with hlt | hge'
  · rw [encode_three hge hlt]
    have hx : (UInt8.ofNat (c.val.toNat / 4096 + 224)).toNat = c.val.toNat / 4096 + 224 :=
      UInt8.toNat_ofNat_of_lt (by omega)
    have hy : (UInt8.ofNat (c.val.toNat / 64 % 64 + 128)).toNat = c.val.toNat / 64 % 64 + 128 :=
      UInt8.toNat_ofNat_of_lt (by omega)
    refine sequenceLength_three ?_ (htail _) ?_ ?_ (htail _) t
    all_goals rw [hx]
    · omega
    · rw [hy]
      omega
    · rw [hy]
      omega
  · rw [encode_four hge']
    have hx : (UInt8.ofNat (c.val.toNat / 262144 + 240)).toNat = c.val.toNat / 262144 + 240 :=
      UInt8.toNat_ofNat_of_lt (by omega)
    have hy : (UInt8.ofNat (c.val.toNat / 4096 % 64 + 128)).toNat =
        c.val.toNat / 4096 % 64 + 128 := UInt8.toNat_ofNat_of_lt (by omega)
    refine sequenceLength_four ?_ (htail _) ?_ ?_ (htail _) (htail _) t
    all_goals rw [hx]
    · omega
    · rw [hy]
      omega
    · rw [hy]
      omega

theorem exists_char {v : Nat} (h : v.isValidChar) : ∃ c : Char, c.val.toNat = v :=
  ⟨Char.ofNatAux v h, rfl⟩

theorem exists_encode_two {x y : UInt8} (hx : 194 ≤ x.toNat ∧ x.toNat ≤ 223) (hy : IsTail y) :
    ∃ c : Char, 128 ≤ c.val.toNat ∧ utf8EncodeChar c = [x, y] := by
  obtain ⟨hy, hy'⟩ := hy
  obtain ⟨c, hc⟩ := exists_char (v := (x.toNat - 192) * 64 + (y.toNat - 128))
    (by simp only [Nat.isValidChar]; omega)
  refine ⟨c, by omega, ?_⟩
  have hx' : c.val.toNat / 64 + 192 = x.toNat := by omega
  have hy'' : c.val.toNat % 64 + 128 = y.toNat := by omega
  rw [encode_two (by omega) (by omega), hx', hy'', UInt8.ofNat_toNat, UInt8.ofNat_toNat]

theorem exists_encode_three {x y z : UInt8} (hx : 224 ≤ x.toNat ∧ x.toNat ≤ 239)
    (hy : IsTail y) (hlow : x.toNat = 224 → 160 ≤ y.toNat) (hhigh : x.toNat = 237 → y.toNat < 160)
    (hz : IsTail z) : ∃ c : Char, 128 ≤ c.val.toNat ∧ utf8EncodeChar c = [x, y, z] := by
  obtain ⟨hy, hy'⟩ := hy
  obtain ⟨hz, hz'⟩ := hz
  obtain ⟨c, hc⟩ := exists_char
    (v := (x.toNat - 224) * 4096 + (y.toNat - 128) * 64 + (z.toNat - 128))
    (by simp only [Nat.isValidChar]; omega)
  refine ⟨c, by omega, ?_⟩
  have hx' : c.val.toNat / 4096 + 224 = x.toNat := by omega
  have hy'' : c.val.toNat / 64 % 64 + 128 = y.toNat := by omega
  have hz'' : c.val.toNat % 64 + 128 = z.toNat := by omega
  rw [encode_three (by omega) (by omega), hx', hy'', hz'', UInt8.ofNat_toNat, UInt8.ofNat_toNat,
    UInt8.ofNat_toNat]

theorem exists_encode_four {x y z u : UInt8} (hx : 240 ≤ x.toNat ∧ x.toNat ≤ 244)
    (hy : IsTail y) (hlow : x.toNat = 240 → 144 ≤ y.toNat) (hhigh : x.toNat = 244 → y.toNat < 144)
    (hz : IsTail z) (hu : IsTail u) :
    ∃ c : Char, 128 ≤ c.val.toNat ∧ utf8EncodeChar c = [x, y, z, u] := by
  obtain ⟨hy, hy'⟩ := hy
  obtain ⟨hz, hz'⟩ := hz
  obtain ⟨hu, hu'⟩ := hu
  obtain ⟨c, hc⟩ := exists_char
    (v := (x.toNat - 240) * 262144 + (y.toNat - 128) * 4096 + (z.toNat - 128) * 64
      + (u.toNat - 128))
    (by simp only [Nat.isValidChar]; omega)
  refine ⟨c, by omega, ?_⟩
  have hx' : c.val.toNat / 262144 + 240 = x.toNat := by omega
  have hy'' : c.val.toNat / 4096 % 64 + 128 = y.toNat := by omega
  have hz'' : c.val.toNat / 64 % 64 + 128 = z.toNat := by omega
  have hu'' : c.val.toNat % 64 + 128 = u.toNat := by omega
  rw [encode_four (by omega), hx', hy'', hz'', hu'', UInt8.ofNat_toNat, UInt8.ofNat_toNat,
    UInt8.ofNat_toNat, UInt8.ofNat_toNat]

theorem leadShape_cases {x low high : UInt8} {n : Nat} (h : leadShape x = some (n, low, high)) :
    128 ≤ low.toNat ∧ high.toNat < 192 ∧
      (n = 2 ∧ 194 ≤ x.toNat ∧ x.toNat ≤ 223 ∨
        n = 3 ∧ 224 ≤ x.toNat ∧ x.toNat ≤ 239 ∧ (x.toNat = 224 → 160 ≤ low.toNat) ∧
          (x.toNat = 237 → high.toNat < 160) ∨
        n = 4 ∧ 240 ≤ x.toNat ∧ x.toNat ≤ 244 ∧ (x.toNat = 240 → 144 ≤ low.toNat) ∧
          (x.toNat = 244 → high.toNat < 144)) := by
  rw [leadShape_eq] at h
  split_ifs at h
  all_goals simp only [Option.some.injEq, Prod.mk.injEq] at h
  all_goals obtain ⟨rfl, rfl, rfl⟩ := h
  all_goals simp
  all_goals omega

theorem exists_encode_of_shape {x y low high : UInt8} {n : Nat} {rest : Text}
    (hshape : leadShape x = some (n, low, high))
    (hok : low.toNat ≤ y.toNat ∧ y.toNat ≤ high.toNat ∧ n - 2 ≤ rest.length ∧
      (rest.take (n - 2)).all isContinuation = true) :
    ∃ c : Char, 128 ≤ c.val.toNat ∧ utf8EncodeChar c = (x :: y :: rest).take n := by
  obtain ⟨hlow, hhigh, hroom, htails⟩ := hok
  obtain ⟨hlow', hhigh', hcases⟩ := leadShape_cases hshape
  have hy : IsTail y := ⟨by omega, by omega⟩
  rcases hcases with ⟨rfl, hx⟩ | ⟨rfl, hx, hx', hfirst, hlast⟩ | ⟨rfl, hx, hx', hfirst, hlast⟩
  · exact exists_encode_two hx hy
  · obtain ⟨z, t, rfl⟩ := List.exists_cons_of_length_pos hroom
    have hz : IsTail z := (isContinuation_iff z).mp (by simpa using htails)
    exact exists_encode_three ⟨hx, hx'⟩ hy (fun h => by have := hfirst h; omega)
      (fun h => by have := hlast h; omega) hz
  · obtain ⟨z, t, rfl⟩ := List.exists_cons_of_length_pos (Nat.lt_of_lt_of_le Nat.two_pos hroom)
    have hroom' : 0 < t.length := by simpa [Nat.succ_le_iff] using hroom
    obtain ⟨u, t, rfl⟩ := List.exists_cons_of_length_pos hroom'
    obtain ⟨hz, hu⟩ : isContinuation z = true ∧ isContinuation u = true := by simpa using htails
    exact exists_encode_four ⟨hx, hx'⟩ hy (fun h => by have := hfirst h; omega)
      (fun h => by have := hlast h; omega) ((isContinuation_iff z).mp hz)
      ((isContinuation_iff u).mp hu)

theorem exists_encode_of_sequence {t : Text} (h : sequenceLength t ≠ 0) :
    ∃ c : Char, 128 ≤ c.val.toNat ∧ utf8EncodeChar c = t.take (sequenceLength t) := by
  cases t with
  | nil => exact absurd rfl h
  | cons x t =>
    cases t with
    | nil => exact absurd rfl h
    | cons y rest =>
      cases hshape : leadShape x with
      | none => simp [sequenceLength, hshape] at h
      | some shape =>
        obtain ⟨n, low, high⟩ := shape
        rw [sequenceLength_of_shape hshape] at h ⊢
        by_cases hok : low.toNat ≤ y.toNat ∧ y.toNat ≤ high.toNat ∧ n - 2 ≤ rest.length ∧
            (rest.take (n - 2)).all isContinuation = true
        · rw [if_pos hok]
          exact exists_encode_of_shape hshape hok
        · rw [if_neg hok] at h
          exact absurd rfl h

end Utf8

end StructuredLog
