import ModularBootloader.Lib.ByteStore

/-!
# SUTF-8 decoding

The vendored decoder: one to six byte framings of 31-bit SUCS codepoints, with
overlong forms, out-of-range framings, the trap range and the sentinel refused.
A refusal consumes no byte and yields the invalid codepoint.
-/

namespace ModularBootloader
open ByteStore

abbrev SucsChar := UInt32

def sucsInvalidCodepoint : SucsChar := 0x7FFFFFFF
def sucsMaxCodepoint : SucsChar := 0x7FFFFFFF
def sucsTrapRangeMin : SucsChar := 0x7FFFFFF0
def sucsTrapRangeMax : SucsChar := 0x7FFFFFFE

def sucsIsValid (cp : SucsChar) : Bool :=
  if cp > sucsMaxCodepoint then false
  else if sucsTrapRangeMin ≤ cp && cp ≤ sucsTrapRangeMax then false
  else if cp = sucsInvalidCodepoint then false
  else true

abbrev Decoded := Nat × SucsChar

def refused : Decoded := (0, sucsInvalidCodepoint)

def isContinuation (u : UInt8) : Bool := u &&& 0xC0 = 0x80

def payload (u mask : UInt8) : SucsChar := (u &&& mask).toUInt32

def sutf8DecodeChar (inBuf : Bytes) (bufSize : Nat) : Decoded :=
  if bufSize = 0 then refused
  else
    let u0 := inBuf 0
    let u1 := inBuf 1
    let u2 := inBuf 2
    let u3 := inBuf 3
    let u4 := inBuf 4
    let u5 := inBuf 5
    if u0 &&& 0x80 = 0x00 then
      let cp := u0.toUInt32
      if !sucsIsValid cp then refused else (1, cp)
    else if u0 &&& 0xE0 = 0xC0 then
      if bufSize < 2 then refused
      else if !isContinuation u1 then refused
      else
        let cp := (payload u0 0x1F <<< 6) ||| payload u1 0x3F
        if cp < 0x80 then refused
        else if !sucsIsValid cp then refused else (2, cp)
    else if u0 &&& 0xF0 = 0xE0 then
      if bufSize < 3 then refused
      else if !isContinuation u1 || !isContinuation u2 then refused
      else
        let cp := (payload u0 0x0F <<< 12) ||| (payload u1 0x3F <<< 6) ||| payload u2 0x3F
        if cp < 0x800 then refused
        else if !sucsIsValid cp then refused else (3, cp)
    else if u0 &&& 0xF8 = 0xF0 then
      if bufSize < 4 then refused
      else if !isContinuation u1 || !isContinuation u2 || !isContinuation u3 then refused
      else
        let cp := (payload u0 0x07 <<< 18) ||| (payload u1 0x3F <<< 12) |||
          (payload u2 0x3F <<< 6) ||| payload u3 0x3F
        if cp < 0x10000 then refused
        else if cp > 0x0010FFFF then refused
        else if !sucsIsValid cp then refused else (4, cp)
    else if u0 &&& 0xFC = 0xF8 then
      if bufSize < 5 then refused
      else if !isContinuation u1 || !isContinuation u2 || !isContinuation u3 ||
          !isContinuation u4 then refused
      else
        let cp := (payload u0 0x03 <<< 24) ||| (payload u1 0x3F <<< 18) |||
          (payload u2 0x3F <<< 12) ||| (payload u3 0x3F <<< 6) ||| payload u4 0x3F
        if cp < 0x00110000 then refused
        else if cp > 0x03FFFFFF then refused
        else if !sucsIsValid cp then refused else (5, cp)
    else if u0 &&& 0xFE = 0xFC then
      if bufSize < 6 then refused
      else if !isContinuation u1 || !isContinuation u2 || !isContinuation u3 ||
          !isContinuation u4 || !isContinuation u5 then refused
      else
        let cp := (payload u0 0x01 <<< 30) ||| (payload u1 0x3F <<< 24) |||
          (payload u2 0x3F <<< 18) ||| (payload u3 0x3F <<< 12) |||
          (payload u4 0x3F <<< 6) ||| payload u5 0x3F
        if cp < 0x04000000 then refused
        else if !sucsIsValid cp then refused else (6, cp)
    else refused

def framing (u0 : UInt8) : Nat :=
  if u0 &&& 0x80 = 0x00 then 1
  else if u0 &&& 0xE0 = 0xC0 then 2
  else if u0 &&& 0xF0 = 0xE0 then 3
  else if u0 &&& 0xF8 = 0xF0 then 4
  else if u0 &&& 0xFC = 0xF8 then 5
  else if u0 &&& 0xFE = 0xFC then 6
  else 1

/-- The bytes a decoding step loads, in order. A framing that fits the buffer is loaded whole
before its first continuation byte is tested. -/
def sutf8DecodeLoads (inBuf : Bytes) (bufSize : Nat) : List Nat :=
  if bufSize = 0 then []
  else if bufSize < framing (inBuf 0) then [0]
  else List.range (framing (inBuf 0))

def testedEnd (inBuf : Bytes) : Nat → Nat → Nat
  | 0, j => j
  | r + 1, j => if isContinuation (inBuf j) then testedEnd inBuf r (j + 1) else j + 1

/-- One past the last byte the outcome rests on: the tests stop at the first byte that is no
continuation, whatever has been loaded behind it. -/
def tested (inBuf : Bytes) (bufSize : Nat) : Nat :=
  if bufSize < framing (inBuf 0) then 1 else testedEnd inBuf (framing (inBuf 0) - 1) 1

theorem testedEnd_le (inBuf : Bytes) (r j : Nat) : testedEnd inBuf r j ≤ j + r := by
  induction r generalizing j with
  | zero => exact Nat.le_refl j
  | succ r ih =>
    have hrest := ih (j + 1)
    rw [testedEnd]
    split <;> omega

theorem testedEnd_ge (inBuf : Bytes) (r j : Nat) : j ≤ testedEnd inBuf r j := by
  induction r generalizing j with
  | zero => exact Nat.le_refl j
  | succ r ih =>
    have hrest := ih (j + 1)
    rw [testedEnd]
    split <;> omega

theorem framing_pos (u0 : UInt8) : 1 ≤ framing u0 := by
  unfold framing
  split_ifs <;> omega

theorem tested_le (inBuf : Bytes) {bufSize : Nat} (hs : bufSize ≠ 0) :
    tested inBuf bufSize ≤ bufSize := by
  have hend := testedEnd_le inBuf (framing (inBuf 0) - 1) 1
  have hpos := framing_pos (inBuf 0)
  rw [tested]
  split <;> omega

theorem testedEnd_cases (inBuf : Bytes) (r j : Nat) :
    testedEnd inBuf r j = j + r ∨
      ∃ i < r, isContinuation (inBuf (j + i)) = false ∧ j + i < testedEnd inBuf r j := by
  induction r generalizing j with
  | zero => exact .inl rfl
  | succ r ih =>
    rw [testedEnd]
    cases hc : isContinuation (inBuf j) with
    | false => exact .inr ⟨0, Nat.succ_pos r, hc, Nat.lt_succ_self j⟩
    | true =>
      rcases ih (j + 1) with heq | ⟨i, hi, hfalse, hlt⟩
      · left
        rw [if_pos rfl, heq]
        omega
      · refine .inr ⟨i + 1, by omega, ?_, ?_⟩
        · rwa [show j + (i + 1) = j + 1 + i by omega]
        · rw [if_pos rfl]
          omega

theorem tested_pos (inBuf : Bytes) (bufSize : Nat) : 1 ≤ tested inBuf bufSize := by
  have hend := testedEnd_ge inBuf (framing (inBuf 0) - 1) 1
  rw [tested]
  split <;> omega

theorem sutf8DecodeChar_refused {inBuf : Bytes} {bufSize i : Nat} (hi : 1 ≤ i)
    (hlt : i < framing (inBuf 0))
    (h : bufSize < framing (inBuf 0) ∨ isContinuation (inBuf i) = false) :
    sutf8DecodeChar inBuf bufSize = refused := by
  unfold framing at hlt h
  unfold sutf8DecodeChar
  by_cases c1 : inBuf 0 &&& 0x80 = 0x00
  · simp only [c1, if_true] at hlt
    omega
  by_cases c2 : inBuf 0 &&& 0xE0 = 0xC0
  · simp only [c1, c2, if_true, if_false] at hlt h ⊢
    obtain rfl : i = 1 := by omega
    rcases h with h | h <;> simp [h]
  by_cases c3 : inBuf 0 &&& 0xF0 = 0xE0
  · simp only [c1, c2, c3, if_true, if_false] at hlt h ⊢
    obtain rfl | rfl : i = 1 ∨ i = 2 := by omega
    all_goals rcases h with h | h <;> simp [h]
  by_cases c4 : inBuf 0 &&& 0xF8 = 0xF0
  · simp only [c1, c2, c3, c4, if_true, if_false] at hlt h ⊢
    obtain rfl | rfl | rfl : i = 1 ∨ i = 2 ∨ i = 3 := by omega
    all_goals rcases h with h | h <;> simp [h]
  by_cases c5 : inBuf 0 &&& 0xFC = 0xF8
  · simp only [c1, c2, c3, c4, c5, if_true, if_false] at hlt h ⊢
    obtain rfl | rfl | rfl | rfl : i = 1 ∨ i = 2 ∨ i = 3 ∨ i = 4 := by omega
    all_goals rcases h with h | h <;> simp [h]
  by_cases c6 : inBuf 0 &&& 0xFE = 0xFC
  · simp only [c1, c2, c3, c4, c5, c6, if_true, if_false] at hlt h ⊢
    obtain rfl | rfl | rfl | rfl | rfl : i = 1 ∨ i = 2 ∨ i = 3 ∨ i = 4 ∨ i = 5 := by omega
    all_goals rcases h with h | h <;> simp [h]
  simp only [c1, c2, c3, c4, c5, c6, if_false] at hlt
  omega

theorem sutf8DecodeChar_framing {inBuf inBuf' : Bytes} (bufSize : Nat)
    (h : ∀ j < framing (inBuf 0), inBuf j = inBuf' j) :
    sutf8DecodeChar inBuf bufSize = sutf8DecodeChar inBuf' bufSize := by
  have h0 := h 0 (framing_pos _)
  unfold framing at h
  unfold sutf8DecodeChar
  rw [← h0]
  by_cases c1 : inBuf 0 &&& 0x80 = 0x00
  · simp only [c1, if_true]
  by_cases c2 : inBuf 0 &&& 0xE0 = 0xC0
  · simp only [c1, c2, if_true, if_false] at h ⊢
    rw [h 1 (by omega)]
  by_cases c3 : inBuf 0 &&& 0xF0 = 0xE0
  · simp only [c1, c2, c3, if_true, if_false] at h ⊢
    rw [h 1 (by omega), h 2 (by omega)]
  by_cases c4 : inBuf 0 &&& 0xF8 = 0xF0
  · simp only [c1, c2, c3, c4, if_true, if_false] at h ⊢
    rw [h 1 (by omega), h 2 (by omega), h 3 (by omega)]
  by_cases c5 : inBuf 0 &&& 0xFC = 0xF8
  · simp only [c1, c2, c3, c4, c5, if_true, if_false] at h ⊢
    rw [h 1 (by omega), h 2 (by omega), h 3 (by omega), h 4 (by omega)]
  by_cases c6 : inBuf 0 &&& 0xFE = 0xFC
  · simp only [c1, c2, c3, c4, c5, c6, if_true, if_false] at h ⊢
    rw [h 1 (by omega), h 2 (by omega), h 3 (by omega), h 4 (by omega), h 5 (by omega)]
  simp only [c1, c2, c3, c4, c5, c6, if_false]

theorem sutf8DecodeChar_congr {inBuf inBuf' : Bytes} {bufSize : Nat}
    (h : ∀ j < tested inBuf bufSize, inBuf j = inBuf' j) :
    sutf8DecodeChar inBuf bufSize = sutf8DecodeChar inBuf' bufSize := by
  have h0 : inBuf 0 = inBuf' 0 := h 0 (tested_pos _ _)
  by_cases hshort : bufSize < framing (inBuf 0)
  · by_cases hone : framing (inBuf 0) = 1
    · refine sutf8DecodeChar_framing bufSize fun j hj => ?_
      obtain rfl : j = 0 := by omega
      exact h0
    · have hpos := framing_pos (inBuf 0)
      rw [sutf8DecodeChar_refused (i := 1) le_rfl (by omega) (.inl hshort),
        sutf8DecodeChar_refused (i := 1) le_rfl (by rw [← h0]; omega) (.inl (by rwa [← h0]))]
  · have hpos := framing_pos (inBuf 0)
    rw [tested, if_neg hshort] at h
    rcases testedEnd_cases inBuf (framing (inBuf 0) - 1) 1 with heq | ⟨i, hi, hfalse, hlt⟩
    · exact sutf8DecodeChar_framing bufSize fun j hj => h j (by omega)
    · have hfalse' : isContinuation (inBuf' (1 + i)) = false := by rw [← h _ hlt, hfalse]
      rw [sutf8DecodeChar_refused (i := 1 + i) (by omega) (by omega) (.inr hfalse),
        sutf8DecodeChar_refused (i := 1 + i) (by omega) (by rw [← h0]; omega) (.inr hfalse')]

theorem sutf8DecodeChar_cases (inBuf : Bytes) (bufSize : Nat) :
    sutf8DecodeChar inBuf bufSize = refused ∨
      framing (inBuf 0) ≤ bufSize ∧ (sutf8DecodeChar inBuf bufSize).1 = framing (inBuf 0) ∧
        (2 ≤ framing (inBuf 0) → 0x7F < (sutf8DecodeChar inBuf bufSize).2) := by
  have hlow : ∀ {cp : SucsChar} {lo : UInt32}, 0x80 ≤ lo → ¬ cp < lo → 0x7F < cp := by
    intro cp lo hlo hcp
    have hle : (0x80 : UInt32) ≤ cp := UInt32.le_trans hlo (UInt32.not_lt.mp hcp)
    exact UInt32.lt_of_lt_of_le (by decide) hle
  unfold sutf8DecodeChar framing
  by_cases hsize : bufSize = 0
  · exact .inl (if_pos hsize)
  by_cases c1 : inBuf 0 &&& 0x80 = 0x00
  · simp only [hsize, c1, if_true, if_false]
    split_ifs
    · exact .inl rfl
    · exact .inr ⟨by omega, rfl, by omega⟩
  by_cases c2 : inBuf 0 &&& 0xE0 = 0xC0
  · simp only [hsize, c1, c2, if_true, if_false]
    split_ifs with hfits hcont hlo hvalid <;> try exact .inl rfl
    exact .inr ⟨by omega, rfl, fun _ => hlow (by decide) hlo⟩
  by_cases c3 : inBuf 0 &&& 0xF0 = 0xE0
  · simp only [hsize, c1, c2, c3, if_true, if_false]
    split_ifs with hfits hcont hlo hvalid <;> try exact .inl rfl
    exact .inr ⟨by omega, rfl, fun _ => hlow (by decide) hlo⟩
  by_cases c4 : inBuf 0 &&& 0xF8 = 0xF0
  · simp only [hsize, c1, c2, c3, c4, if_true, if_false]
    split_ifs with hfits hcont hlo hhi hvalid <;> try exact .inl rfl
    exact .inr ⟨by omega, rfl, fun _ => hlow (by decide) hlo⟩
  by_cases c5 : inBuf 0 &&& 0xFC = 0xF8
  · simp only [hsize, c1, c2, c3, c4, c5, if_true, if_false]
    split_ifs with hfits hcont hlo hhi hvalid <;> try exact .inl rfl
    exact .inr ⟨by omega, rfl, fun _ => hlow (by decide) hlo⟩
  by_cases c6 : inBuf 0 &&& 0xFE = 0xFC
  · simp only [hsize, c1, c2, c3, c4, c5, c6, if_true, if_false]
    split_ifs with hfits hcont hlo hvalid <;> try exact .inl rfl
    exact .inr ⟨by omega, rfl, fun _ => hlow (by decide) hlo⟩
  simp [hsize, c1, c2, c3, c4, c5, c6]

theorem sutf8DecodeChar_continuation {inBuf : Bytes} (h : isContinuation (inBuf 0) = true)
    (bufSize : Nat) : sutf8DecodeChar inBuf bufSize = refused := by
  have hlead : ∀ u : UInt8, isContinuation u = true →
      ¬ u &&& 0x80 = 0x00 ∧ ¬ u &&& 0xE0 = 0xC0 ∧ ¬ u &&& 0xF0 = 0xE0 ∧
        ¬ u &&& 0xF8 = 0xF0 ∧ ¬ u &&& 0xFC = 0xF8 ∧ ¬ u &&& 0xFE = 0xFC := by
    decide +kernel
  obtain ⟨c1, c2, c3, c4, c5, c6⟩ := hlead _ h
  simp [sutf8DecodeChar, c1, c2, c3, c4, c5, c6]

theorem sutf8DecodeChar_ascii {inBuf : Bytes} {bufSize : Nat} (hs : bufSize ≠ 0)
    (ha : inBuf 0 < 0x80) : sutf8DecodeChar inBuf bufSize = (1, (inBuf 0).toUInt32) := by
  have hbit : ∀ u : UInt8, u < 0x80 → u &&& 0x80 = 0 ∧ sucsIsValid u.toUInt32 = true := by
    decide +kernel
  obtain ⟨hlead, hvalid⟩ := hbit _ ha
  simp [sutf8DecodeChar, hs, hlead, hvalid]

end ModularBootloader
