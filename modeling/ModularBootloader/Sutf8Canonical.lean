import ModularBootloader.OwfsNames
import ModularBootloader.Lib.PrefixCode

/-!
# SUTF-8 as a prefix code

The vendored decoder accepts nothing but what the encoder writes, so no text has
two spellings. The name loop then has a meaning on every byte string: its bytes
are cut in one way into codepoints and stray bytes, and each piece is shown.
-/

namespace ModularBootloader
open ByteStore

theorem continuation_framed {u : UInt8} (h : isContinuation u = true) :
    (0x80 ||| payload u 0x3F).toUInt8 = u ∧ (payload u 0x3F).toNat < 64 := by
  have hall : ∀ n : Fin 256, isContinuation (UInt8.ofNat n) = true →
      (0x80 ||| payload (UInt8.ofNat n) 0x3F).toUInt8 = UInt8.ofNat n ∧
        (payload (UInt8.ofNat n) 0x3F).toNat < 64 := by
    decide +kernel
  have hone := hall ⟨u.toNat, u.toNat_lt⟩
  rw [UInt8.ofNat_toNat] at hone
  exact hone h

def LeadFramed (mark mask low : UInt8) (size : Nat) : Prop :=
  ∀ u : UInt8, u &&& mask = mark →
    (mark.toUInt32 ||| payload u low).toUInt8 = u ∧ (payload u low).toNat < size

theorem leadFramed_of_bytes {mark mask low : UInt8} {size : Nat}
    (h : ∀ n : Fin 256, UInt8.ofNat n &&& mask = mark →
      (mark.toUInt32 ||| payload (UInt8.ofNat n) low).toUInt8 = UInt8.ofNat n ∧
        (payload (UInt8.ofNat n) low).toNat < size) : LeadFramed mark mask low size := by
  intro u hu
  have hone := h ⟨u.toNat, u.toNat_lt⟩
  rw [UInt8.ofNat_toNat] at hone
  exact hone hu

theorem lead_two_framed : LeadFramed 0xC0 0xE0 0x1F 32 := leadFramed_of_bytes (by decide +kernel)
theorem lead_three_framed : LeadFramed 0xE0 0xF0 0x0F 16 := leadFramed_of_bytes (by decide +kernel)
theorem lead_four_framed : LeadFramed 0xF0 0xF8 0x07 8 := leadFramed_of_bytes (by decide +kernel)
theorem lead_five_framed : LeadFramed 0xF8 0xFC 0x03 4 := leadFramed_of_bytes (by decide +kernel)
theorem lead_six_framed : LeadFramed 0xFC 0xFE 0x01 2 := leadFramed_of_bytes (by decide +kernel)

theorem shift_toNat {x s : UInt32} {n : Nat} (hx : x.toNat < 2 ^ n) (hs : s.toNat + n ≤ 32)
    (hshift : s.toNat < 32) : (x <<< s).toNat = x.toNat * 2 ^ s.toNat := by
  have hplaced : x.toNat * 2 ^ s.toNat < 2 ^ 32 := by
    calc x.toNat * 2 ^ s.toNat < 2 ^ n * 2 ^ s.toNat :=
          Nat.mul_lt_mul_of_pos_right hx (by positivity)
      _ = 2 ^ (s.toNat + n) := by rw [← Nat.pow_add, Nat.add_comm]
      _ ≤ 2 ^ 32 := Nat.pow_le_pow_right (by decide) hs
  rw [UInt32.toNat_shiftLeft, Nat.mod_eq_of_lt hshift, Nat.shiftLeft_eq, Nat.mod_eq_of_lt hplaced]

theorem or_shift_toNat {a x s : UInt32} {v : Nat} (ha : a.toNat = v * 2 ^ (s.toNat + 6))
    (hx : x.toNat < 64) (hs : s.toNat + 6 < 32) :
    (a ||| x <<< s).toNat = (v * 64 + x.toNat) * 2 ^ s.toNat := by
  have hpow : 2 ^ (s.toNat + 6) = 64 * 2 ^ s.toNat := by rw [Nat.pow_add, Nat.mul_comm]
  have hplaced : x.toNat * 2 ^ s.toNat < 2 ^ (s.toNat + 6) := by
    rw [hpow]
    exact Nat.mul_lt_mul_of_pos_right hx (by positivity)
  have hshift := shift_toNat (x := x) (s := s) (n := 6) hx (by omega) (by omega)
  rw [or_toNat (k := s.toNat + 6) ⟨v, by rw [ha, Nat.mul_comm]⟩ (by omega), ha, hshift, hpow]
  ring

theorem or_last_toNat {a x : UInt32} {v : Nat} (ha : a.toNat = v * 64) (hx : x.toNat < 64) :
    (a ||| x).toNat = v * 64 + x.toNat := by
  rw [or_toNat (k := 6) ⟨v, by omega⟩ hx, ha]

theorem framed_tail {cp s : UInt32} {u : UInt8} (hu : isContinuation u = true)
    (hs : s.toNat < 32) (hcp : cp.toNat / 2 ^ s.toNat % 64 = (payload u 0x3F).toNat) :
    framed 0x80 0x3F s cp = u := by
  have hdigit := digit_toNat cp s 0x3F (n := 6) rfl hs
  have hsame : (cp >>> s) &&& 0x3F = payload u 0x3F := by
    rw [← UInt32.toNat_inj]
    exact hdigit.trans hcp
  rw [framed, hsame]
  exact (continuation_framed hu).1

theorem framed_lead {mark mask low : UInt8} {cp s m : UInt32} {n : Nat} {u : UInt8}
    (hlead : LeadFramed mark mask low (2 ^ n)) (hu : u &&& mask = mark) (hm : m.toNat = 2 ^ n - 1)
    (hs : s.toNat < 32) (hcp : cp.toNat / 2 ^ s.toNat = (payload u low).toNat) :
    framed mark.toUInt32 m s cp = u := by
  obtain ⟨hback, hsmall⟩ := hlead u hu
  have hdigit := digit_toNat cp s m hm hs
  have hsame : (cp >>> s) &&& m = payload u low := by
    rw [← UInt32.toNat_inj, hdigit, hcp, Nat.mod_eq_of_lt hsmall]
  rw [framed, hsame]
  exact hback

section Accepted
variable {u0 u1 u2 u3 u4 u5 : UInt8}

theorem accepted_two (h0 : u0 &&& 0xE0 = 0xC0)
    (h1 : isContinuation u1 = true) :
    let cp := payload u0 0x1F <<< 6 ||| payload u1 0x3F
    cp.toNat < 0x800 ∧ framed 0xC0 0x1F 6 cp = u0 ∧ framed 0x80 0x3F 0 cp = u1 := by
  intro cp
  have hlead : (payload u0 0x1F).toNat < 32 := (lead_two_framed u0 h0).2
  have hx1 := (continuation_framed h1).2
  have hv0 := shift_toNat (x := payload u0 0x1F) (s := 6) (n := 5) hlead (by decide) (by decide)
  have hcp : cp.toNat = _ := or_last_toNat hv0 hx1
  refine ⟨by omega, framed_lead lead_two_framed h0 (n := 5) rfl (by decide) ?_,
    framed_tail h1 (by decide) ?_⟩
  · change cp.toNat / 64 = _
    omega
  · change cp.toNat / 1 % 64 = _
    omega

theorem accepted_three (h0 : u0 &&& 0xF0 = 0xE0)
    (h1 : isContinuation u1 = true) (h2 : isContinuation u2 = true) :
    let cp := payload u0 0x0F <<< 12 ||| payload u1 0x3F <<< 6 ||| payload u2 0x3F
    cp.toNat < 0x10000 ∧ framed 0xE0 0x0F 12 cp = u0 ∧ framed 0x80 0x3F 6 cp = u1 ∧
      framed 0x80 0x3F 0 cp = u2 := by
  intro cp
  have hlead : (payload u0 0x0F).toNat < 16 := (lead_three_framed u0 h0).2
  have hx1 := (continuation_framed h1).2
  have hx2 := (continuation_framed h2).2
  have hv0 := shift_toNat (x := payload u0 0x0F) (s := 12) (n := 4) hlead (by decide) (by decide)
  have hv1 := or_shift_toNat (s := 6) hv0 hx1 (by decide)
  have hcp : cp.toNat = _ := or_last_toNat hv1 hx2
  refine ⟨by omega, framed_lead lead_three_framed h0 (n := 4) rfl (by decide) ?_,
    framed_tail h1 (by decide) ?_, framed_tail h2 (by decide) ?_⟩
  · change cp.toNat / 4096 = _
    omega
  · change cp.toNat / 64 % 64 = _
    omega
  · change cp.toNat / 1 % 64 = _
    omega

theorem accepted_four (h0 : u0 &&& 0xF8 = 0xF0)
    (h1 : isContinuation u1 = true) (h2 : isContinuation u2 = true)
    (h3 : isContinuation u3 = true) :
    let cp := payload u0 0x07 <<< 18 ||| payload u1 0x3F <<< 12 ||| payload u2 0x3F <<< 6 |||
      payload u3 0x3F
    cp.toNat < 0x200000 ∧ framed 0xF0 0x07 18 cp = u0 ∧ framed 0x80 0x3F 12 cp = u1 ∧
      framed 0x80 0x3F 6 cp = u2 ∧ framed 0x80 0x3F 0 cp = u3 := by
  intro cp
  have hlead : (payload u0 0x07).toNat < 8 := (lead_four_framed u0 h0).2
  have hx1 := (continuation_framed h1).2
  have hx2 := (continuation_framed h2).2
  have hx3 := (continuation_framed h3).2
  have hv0 := shift_toNat (x := payload u0 0x07) (s := 18) (n := 3) hlead (by decide) (by decide)
  have hv1 := or_shift_toNat (s := 12) hv0 hx1 (by decide)
  have hv2 := or_shift_toNat (s := 6) hv1 hx2 (by decide)
  have hcp : cp.toNat = _ := or_last_toNat hv2 hx3
  refine ⟨by omega, framed_lead lead_four_framed h0 (n := 3) rfl (by decide) ?_,
    framed_tail h1 (by decide) ?_, framed_tail h2 (by decide) ?_, framed_tail h3 (by decide) ?_⟩
  · change cp.toNat / 262144 = _
    omega
  · change cp.toNat / 4096 % 64 = _
    omega
  · change cp.toNat / 64 % 64 = _
    omega
  · change cp.toNat / 1 % 64 = _
    omega

theorem accepted_five (h0 : u0 &&& 0xFC = 0xF8)
    (h1 : isContinuation u1 = true) (h2 : isContinuation u2 = true)
    (h3 : isContinuation u3 = true) (h4 : isContinuation u4 = true) :
    let cp := payload u0 0x03 <<< 24 ||| payload u1 0x3F <<< 18 ||| payload u2 0x3F <<< 12 |||
      payload u3 0x3F <<< 6 ||| payload u4 0x3F
    cp.toNat < 0x4000000 ∧ framed 0xF8 0x03 24 cp = u0 ∧ framed 0x80 0x3F 18 cp = u1 ∧
      framed 0x80 0x3F 12 cp = u2 ∧ framed 0x80 0x3F 6 cp = u3 ∧ framed 0x80 0x3F 0 cp = u4 := by
  intro cp
  have hlead : (payload u0 0x03).toNat < 4 := (lead_five_framed u0 h0).2
  have hx1 := (continuation_framed h1).2
  have hx2 := (continuation_framed h2).2
  have hx3 := (continuation_framed h3).2
  have hx4 := (continuation_framed h4).2
  have hv0 := shift_toNat (x := payload u0 0x03) (s := 24) (n := 2) hlead (by decide) (by decide)
  have hv1 := or_shift_toNat (s := 18) hv0 hx1 (by decide)
  have hv2 := or_shift_toNat (s := 12) hv1 hx2 (by decide)
  have hv3 := or_shift_toNat (s := 6) hv2 hx3 (by decide)
  have hcp : cp.toNat = _ := or_last_toNat hv3 hx4
  refine ⟨by omega, framed_lead lead_five_framed h0 (n := 2) rfl (by decide) ?_,
    framed_tail h1 (by decide) ?_, framed_tail h2 (by decide) ?_, framed_tail h3 (by decide) ?_,
    framed_tail h4 (by decide) ?_⟩
  · change cp.toNat / 16777216 = _
    omega
  · change cp.toNat / 262144 % 64 = _
    omega
  · change cp.toNat / 4096 % 64 = _
    omega
  · change cp.toNat / 64 % 64 = _
    omega
  · change cp.toNat / 1 % 64 = _
    omega

theorem accepted_six (h0 : u0 &&& 0xFE = 0xFC)
    (h1 : isContinuation u1 = true) (h2 : isContinuation u2 = true)
    (h3 : isContinuation u3 = true) (h4 : isContinuation u4 = true)
    (h5 : isContinuation u5 = true) :
    let cp := payload u0 0x01 <<< 30 ||| payload u1 0x3F <<< 24 ||| payload u2 0x3F <<< 18 |||
      payload u3 0x3F <<< 12 ||| payload u4 0x3F <<< 6 ||| payload u5 0x3F
    cp.toNat < 0x80000000 ∧ framed 0xFC 0x01 30 cp = u0 ∧ framed 0x80 0x3F 24 cp = u1 ∧
      framed 0x80 0x3F 18 cp = u2 ∧ framed 0x80 0x3F 12 cp = u3 ∧ framed 0x80 0x3F 6 cp = u4 ∧
      framed 0x80 0x3F 0 cp = u5 := by
  intro cp
  have hlead : (payload u0 0x01).toNat < 2 := (lead_six_framed u0 h0).2
  have hx1 := (continuation_framed h1).2
  have hx2 := (continuation_framed h2).2
  have hx3 := (continuation_framed h3).2
  have hx4 := (continuation_framed h4).2
  have hx5 := (continuation_framed h5).2
  have hv0 := shift_toNat (x := payload u0 0x01) (s := 30) (n := 1) hlead (by decide) (by decide)
  have hv1 := or_shift_toNat (s := 24) hv0 hx1 (by decide)
  have hv2 := or_shift_toNat (s := 18) hv1 hx2 (by decide)
  have hv3 := or_shift_toNat (s := 12) hv2 hx3 (by decide)
  have hv4 := or_shift_toNat (s := 6) hv3 hx4 (by decide)
  have hcp : cp.toNat = _ := or_last_toNat hv4 hx5
  refine ⟨by omega, framed_lead lead_six_framed h0 (n := 1) rfl (by decide) ?_,
    framed_tail h1 (by decide) ?_, framed_tail h2 (by decide) ?_, framed_tail h3 (by decide) ?_,
    framed_tail h4 (by decide) ?_, framed_tail h5 (by decide) ?_⟩
  · change cp.toNat / 1073741824 = _
    omega
  · change cp.toNat / 16777216 % 64 = _
    omega
  · change cp.toNat / 262144 % 64 = _
    omega
  · change cp.toNat / 4096 % 64 = _
    omega
  · change cp.toNat / 64 % 64 = _
    omega
  · change cp.toNat / 1 % 64 = _
    omega

end Accepted

section Decoder
variable {inBuf : Bytes} {bufSize : Nat} {cp : SucsChar}

theorem sutf8Encode_one {u : UInt8} (hvalid : sucsIsValid u.toUInt32 = true)
    (hu : u &&& 0x80 = 0x00) : sutf8Encode u.toUInt32 = [u] := by
  have hall : ∀ n : Fin 256, UInt8.ofNat n &&& 0x80 = 0x00 →
      (UInt8.ofNat n).toUInt32 ≤ 0x7F ∧
        ((UInt8.ofNat n).toUInt32 &&& 0x7F).toUInt8 = UInt8.ofNat n := by
    decide +kernel
  have hone := hall ⟨u.toNat, u.toNat_lt⟩
  rw [UInt8.ofNat_toNat] at hone
  obtain ⟨hle, hback⟩ := hone hu
  simp [sutf8Encode, sutf8EncodeChar, hvalid, hle, hback]

theorem sutf8Encode_two (hvalid : sucsIsValid cp = true) (hlo : 0x80 ≤ cp.toNat)
    (hhi : cp.toNat < 0x800) :
    sutf8Encode cp = [framed 0xC0 0x1F 6 cp, framed 0x80 0x3F 0 cp] := by
  simp only [sutf8Encode, sutf8EncodeChar, hvalid, UInt32.le_iff_toNat_le, UInt32.reduceToNat,
    Bool.not_true, Bool.false_eq_true, if_false]
  rw [if_neg (by omega), if_pos (by omega)]
  rfl

theorem sutf8Encode_three (hvalid : sucsIsValid cp = true) (hlo : 0x800 ≤ cp.toNat)
    (hhi : cp.toNat < 0x10000) :
    sutf8Encode cp = [framed 0xE0 0x0F 12 cp, framed 0x80 0x3F 6 cp, framed 0x80 0x3F 0 cp] := by
  simp only [sutf8Encode, sutf8EncodeChar, hvalid, UInt32.le_iff_toNat_le, UInt32.reduceToNat,
    Bool.not_true, Bool.false_eq_true, if_false]
  rw [if_neg (by omega), if_neg (by omega), if_pos (by omega)]
  rfl

theorem sutf8Encode_four (hvalid : sucsIsValid cp = true) (hlo : 0x10000 ≤ cp.toNat)
    (hhi : cp.toNat < 0x110000) :
    sutf8Encode cp = [framed 0xF0 0x07 18 cp, framed 0x80 0x3F 12 cp, framed 0x80 0x3F 6 cp,
      framed 0x80 0x3F 0 cp] := by
  simp only [sutf8Encode, sutf8EncodeChar, hvalid, UInt32.le_iff_toNat_le, UInt32.reduceToNat,
    Bool.not_true, Bool.false_eq_true, if_false]
  rw [if_neg (by omega), if_neg (by omega), if_neg (by omega), if_pos (by omega)]
  rfl

theorem sutf8Encode_five (hvalid : sucsIsValid cp = true) (hlo : 0x110000 ≤ cp.toNat)
    (hhi : cp.toNat < 0x4000000) :
    sutf8Encode cp = [framed 0xF8 0x03 24 cp, framed 0x80 0x3F 18 cp, framed 0x80 0x3F 12 cp,
      framed 0x80 0x3F 6 cp, framed 0x80 0x3F 0 cp] := by
  simp only [sutf8Encode, sutf8EncodeChar, hvalid, UInt32.le_iff_toNat_le, UInt32.reduceToNat,
    Bool.not_true, Bool.false_eq_true, if_false]
  rw [if_neg (by omega), if_neg (by omega), if_neg (by omega), if_neg (by omega),
    if_pos (by omega)]
  rfl

theorem sutf8Encode_six (hvalid : sucsIsValid cp = true) (hlo : 0x4000000 ≤ cp.toNat)
    (hhi : cp.toNat < 0x80000000) :
    sutf8Encode cp = [framed 0xFC 0x01 30 cp, framed 0x80 0x3F 24 cp, framed 0x80 0x3F 18 cp,
      framed 0x80 0x3F 12 cp, framed 0x80 0x3F 6 cp, framed 0x80 0x3F 0 cp] := by
  simp only [sutf8Encode, sutf8EncodeChar, hvalid, UInt32.le_iff_toNat_le, UInt32.reduceToNat,
    Bool.not_true, Bool.false_eq_true, if_false]
  rw [if_neg (by omega), if_neg (by omega), if_neg (by omega), if_neg (by omega),
    if_neg (by omega), if_pos (by omega)]
  rfl

/-- The bytes at the front are the code of a valid codepoint, all of it in the buffer. -/
structure Canonical (inBuf : Bytes) (bufSize : Nat) (d : Decoded) : Prop where
  valid : sucsIsValid d.2 = true
  consumed : d.1 = (sutf8Encode d.2).length
  inside : d.1 ≤ bufSize
  spells : Spells inBuf (sutf8Encode d.2)

theorem not_lt_toNat {a : UInt32} (h : ¬ cp < a) : a.toNat ≤ cp.toNat :=
  UInt32.le_iff_toNat_le.mp (UInt32.not_lt.mp h)

theorem spells_nil (inBuf : Bytes) : Spells inBuf [] := by
  intro i b hb
  cases hb

theorem spells_cons {b : UInt8} {text : List UInt8} (hb : inBuf 0 = b)
    (htext : Spells (window inBuf 1) text) : Spells inBuf (b :: text) := by
  intro i c hc
  cases i with
  | zero =>
    obtain rfl := Option.some.inj hc
    exact hb
  | succ i =>
    rw [Nat.add_comm]
    exact htext i c hc

theorem canonical_of_encode {text : List UInt8} (hvalid : ¬ (!sucsIsValid cp) = true)
    (henc : sutf8Encode cp = text) (hfits : ¬ bufSize < text.length) (hspells : Spells inBuf text) :
    Canonical inBuf bufSize (text.length, cp) where
  valid := by simpa using hvalid
  consumed := by rw [henc]
  inside := Nat.not_lt.mp hfits
  spells := by
    rw [henc]
    exact hspells

section Framings
variable (hsize : ¬ bufSize = 0) (haccepts : (sutf8DecodeChar inBuf bufSize).1 ≠ 0)
include hsize haccepts

theorem sound_one (c1 : inBuf 0 &&& 0x80 = 0x00) :
    Canonical inBuf bufSize (sutf8DecodeChar inBuf bufSize) := by
  unfold sutf8DecodeChar at haccepts ⊢
  simp only [hsize, c1, if_true, if_false] at haccepts ⊢
  split_ifs at haccepts ⊢ with hvalid
  · exact absurd rfl haccepts
  · have henc := sutf8Encode_one (by simpa using hvalid) c1
    have hshort : ¬ bufSize < [inBuf 0].length := by
      rw [List.length_singleton]
      omega
    exact canonical_of_encode hvalid henc hshort (spells_cons rfl (spells_nil _))

theorem sound_two (c1 : ¬ inBuf 0 &&& 0x80 = 0x00) (c2 : inBuf 0 &&& 0xE0 = 0xC0) :
    Canonical inBuf bufSize (sutf8DecodeChar inBuf bufSize) := by
  unfold sutf8DecodeChar at haccepts ⊢
  simp only [hsize, c1, c2, if_true, if_false] at haccepts ⊢
  split_ifs at haccepts ⊢ with hfits hcont hlo hvalid
  · exact absurd rfl haccepts
  · exact absurd rfl haccepts
  · exact absurd rfl haccepts
  · exact absurd rfl haccepts
  · have h1 : isContinuation (inBuf 1) = true := by simpa using hcont
    obtain ⟨hmax, hu0, hu1⟩ := accepted_two c2 h1
    have henc := sutf8Encode_two (by simpa using hvalid) (not_lt_toNat hlo) hmax
    exact canonical_of_encode hvalid henc hfits
      (spells_cons hu0.symm (spells_cons hu1.symm (spells_nil _)))

theorem sound_three (c1 : ¬ inBuf 0 &&& 0x80 = 0x00) (c2 : ¬ inBuf 0 &&& 0xE0 = 0xC0)
    (c3 : inBuf 0 &&& 0xF0 = 0xE0) :
    Canonical inBuf bufSize (sutf8DecodeChar inBuf bufSize) := by
  unfold sutf8DecodeChar at haccepts ⊢
  simp only [hsize, c1, c2, c3, if_true, if_false] at haccepts ⊢
  split_ifs at haccepts ⊢ with hfits hcont hlo hvalid
  · exact absurd rfl haccepts
  · exact absurd rfl haccepts
  · exact absurd rfl haccepts
  · exact absurd rfl haccepts
  · simp only [Bool.or_eq_true, Bool.not_eq_true', not_or, Bool.not_eq_false] at hcont
    obtain ⟨h1, h2⟩ := hcont
    obtain ⟨hmax, hu0, hu1, hu2⟩ := accepted_three c3 h1 h2
    have henc := sutf8Encode_three (by simpa using hvalid) (not_lt_toNat hlo) hmax
    exact canonical_of_encode hvalid henc hfits
      (spells_cons hu0.symm (spells_cons hu1.symm (spells_cons hu2.symm (spells_nil _))))

theorem sound_four (c1 : ¬ inBuf 0 &&& 0x80 = 0x00) (c2 : ¬ inBuf 0 &&& 0xE0 = 0xC0)
    (c3 : ¬ inBuf 0 &&& 0xF0 = 0xE0) (c4 : inBuf 0 &&& 0xF8 = 0xF0) :
    Canonical inBuf bufSize (sutf8DecodeChar inBuf bufSize) := by
  unfold sutf8DecodeChar at haccepts ⊢
  simp only [hsize, c1, c2, c3, c4, if_true, if_false] at haccepts ⊢
  split_ifs at haccepts ⊢ with hfits hcont hlo hhi hvalid
  · exact absurd rfl haccepts
  · exact absurd rfl haccepts
  · exact absurd rfl haccepts
  · exact absurd rfl haccepts
  · exact absurd rfl haccepts
  · simp only [Bool.or_eq_true, Bool.not_eq_true', not_or, Bool.not_eq_false] at hcont
    obtain ⟨⟨h1, h2⟩, h3⟩ := hcont
    obtain ⟨hmax, hu0, hu1, hu2, hu3⟩ := accepted_four c4 h1 h2 h3
    have hbelow := Nat.lt_succ_of_le (UInt32.le_iff_toNat_le.mp (UInt32.not_lt.mp hhi))
    have henc := sutf8Encode_four (by simpa using hvalid) (not_lt_toNat hlo) hbelow
    exact canonical_of_encode hvalid henc hfits
      (spells_cons hu0.symm (spells_cons hu1.symm (spells_cons hu2.symm
        (spells_cons hu3.symm (spells_nil _)))))

theorem sound_five (c1 : ¬ inBuf 0 &&& 0x80 = 0x00) (c2 : ¬ inBuf 0 &&& 0xE0 = 0xC0)
    (c3 : ¬ inBuf 0 &&& 0xF0 = 0xE0) (c4 : ¬ inBuf 0 &&& 0xF8 = 0xF0)
    (c5 : inBuf 0 &&& 0xFC = 0xF8) :
    Canonical inBuf bufSize (sutf8DecodeChar inBuf bufSize) := by
  unfold sutf8DecodeChar at haccepts ⊢
  simp only [hsize, c1, c2, c3, c4, c5, if_true, if_false] at haccepts ⊢
  split_ifs at haccepts ⊢ with hfits hcont hlo hhi hvalid
  · exact absurd rfl haccepts
  · exact absurd rfl haccepts
  · exact absurd rfl haccepts
  · exact absurd rfl haccepts
  · exact absurd rfl haccepts
  · simp only [Bool.or_eq_true, Bool.not_eq_true', not_or, Bool.not_eq_false] at hcont
    obtain ⟨⟨⟨h1, h2⟩, h3⟩, h4⟩ := hcont
    obtain ⟨hmax, hu0, hu1, hu2, hu3, hu4⟩ := accepted_five c5 h1 h2 h3 h4
    have hbelow := Nat.lt_succ_of_le (UInt32.le_iff_toNat_le.mp (UInt32.not_lt.mp hhi))
    have henc := sutf8Encode_five (by simpa using hvalid) (not_lt_toNat hlo) hbelow
    exact canonical_of_encode hvalid henc hfits
      (spells_cons hu0.symm (spells_cons hu1.symm (spells_cons hu2.symm
        (spells_cons hu3.symm (spells_cons hu4.symm (spells_nil _))))))

theorem sound_six (c1 : ¬ inBuf 0 &&& 0x80 = 0x00) (c2 : ¬ inBuf 0 &&& 0xE0 = 0xC0)
    (c3 : ¬ inBuf 0 &&& 0xF0 = 0xE0) (c4 : ¬ inBuf 0 &&& 0xF8 = 0xF0)
    (c5 : ¬ inBuf 0 &&& 0xFC = 0xF8) (c6 : inBuf 0 &&& 0xFE = 0xFC) :
    Canonical inBuf bufSize (sutf8DecodeChar inBuf bufSize) := by
  unfold sutf8DecodeChar at haccepts ⊢
  simp only [hsize, c1, c2, c3, c4, c5, c6, if_true, if_false] at haccepts ⊢
  split_ifs at haccepts ⊢ with hfits hcont hlo hvalid
  · exact absurd rfl haccepts
  · exact absurd rfl haccepts
  · exact absurd rfl haccepts
  · exact absurd rfl haccepts
  · simp only [Bool.or_eq_true, Bool.not_eq_true', not_or, Bool.not_eq_false] at hcont
    obtain ⟨⟨⟨⟨h1, h2⟩, h3⟩, h4⟩, h5⟩ := hcont
    obtain ⟨hmax, hu0, hu1, hu2, hu3, hu4, hu5⟩ := accepted_six c6 h1 h2 h3 h4 h5
    have henc := sutf8Encode_six (by simpa using hvalid) (not_lt_toNat hlo) hmax
    exact canonical_of_encode hvalid henc hfits
      (spells_cons hu0.symm (spells_cons hu1.symm (spells_cons hu2.symm
        (spells_cons hu3.symm (spells_cons hu4.symm (spells_cons hu5.symm
          (spells_nil _)))))))

end Framings

theorem sutf8DecodeChar_sound (inBuf : Bytes) (bufSize : Nat)
    (haccepts : (sutf8DecodeChar inBuf bufSize).1 ≠ 0) :
    Canonical inBuf bufSize (sutf8DecodeChar inBuf bufSize) := by
  by_cases hsize : bufSize = 0
  · simp [sutf8DecodeChar, hsize, refused] at haccepts
  by_cases c1 : inBuf 0 &&& 0x80 = 0x00
  · exact sound_one hsize haccepts c1
  by_cases c2 : inBuf 0 &&& 0xE0 = 0xC0
  · exact sound_two hsize haccepts c1 c2
  by_cases c3 : inBuf 0 &&& 0xF0 = 0xE0
  · exact sound_three hsize haccepts c1 c2 c3
  by_cases c4 : inBuf 0 &&& 0xF8 = 0xF0
  · exact sound_four hsize haccepts c1 c2 c3 c4
  by_cases c5 : inBuf 0 &&& 0xFC = 0xF8
  · exact sound_five hsize haccepts c1 c2 c3 c4 c5
  by_cases c6 : inBuf 0 &&& 0xFE = 0xFC
  · exact sound_six hsize haccepts c1 c2 c3 c4 c5 c6
  simp [sutf8DecodeChar, hsize, c1, c2, c3, c4, c5, c6, refused] at haccepts

theorem sutf8DecodeChar_iff (inBuf : Bytes) (bufSize : Nat) (d : Decoded) :
    sutf8DecodeChar inBuf bufSize = d ∧ d.1 ≠ 0 ↔ Canonical inBuf bufSize d := by
  constructor
  · rintro ⟨rfl, haccepts⟩
    exact sutf8DecodeChar_sound inBuf bufSize haccepts
  · intro h
    have hpos := sutf8Encode_pos h.valid
    have hdecode := sutf8DecodeChar_encode h.valid h.spells (h.consumed ▸ h.inside)
    rw [← h.consumed] at hdecode hpos
    exact ⟨hdecode, Nat.ne_of_gt hpos⟩

end Decoder

def bytesFrom (m : Bytes) (n : Nat) : List UInt8 := (List.range n).map m

def sutf8Next (text : List UInt8) : Option (SucsChar × List UInt8) :=
  let d := sutf8DecodeChar (fun i => text.getD i 0) text.length
  if d.1 = 0 then none else some (d.2, text.drop d.1)

def shownPiece : SucsChar ⊕ UInt8 → UInt8 := Sum.elim shownAs fun _ => 0x3F

abbrev SutfCut : List UInt8 → List (SucsChar ⊕ UInt8) → Prop :=
  PrefixCode.Cut (sucsIsValid · = true) sutf8Encode

def namePieces (name : Bytes) (len : Nat) : List (SucsChar ⊕ UInt8) :=
  PrefixCode.cut sutf8Next len (bytesFrom name len)

section Texts
variable {m name : Bytes} {n len i room : Nat} {code text : List UInt8}

theorem bytesFrom_getElem? (m : Bytes) (n i : Nat) :
    (bytesFrom m n)[i]? = if i < n then some (m i) else none := by
  rw [bytesFrom, List.getElem?_map]
  split
  next hi => rw [List.getElem?_range hi, Option.map_some]
  next hi => rw [List.getElem?_eq_none (by rw [List.length_range]; omega), Option.map_none]

theorem bytesFrom_getD (text : List UInt8) :
    bytesFrom (fun i => text.getD i 0) text.length = text := by
  apply List.ext_getElem?
  intro i
  rw [bytesFrom_getElem?]
  split
  next hi => rw [List.getD_eq_getElem _ _ hi, List.getElem?_eq_getElem hi]
  next hi => rw [List.getElem?_eq_none (by omega)]

theorem bytesFrom_drop (m : Bytes) (n k : Nat) :
    (bytesFrom m n).drop k = bytesFrom (window m k) (n - k) := by
  apply List.ext_getElem?
  intro i
  rw [List.getElem?_drop, bytesFrom_getElem?, bytesFrom_getElem?, window_apply]
  split_ifs <;> first | rfl | omega

theorem spells_prefix_iff : code <+: bytesFrom m n ↔ Spells m code ∧ code.length ≤ n := by
  have hlength : (bytesFrom m n).length = n := by rw [bytesFrom, List.length_map, List.length_range]
  constructor
  · intro hfront
    refine ⟨?_, hlength ▸ hfront.length_le⟩
    intro i b hb
    have hi := (List.getElem?_eq_some_iff.mp hb).1
    have hsame := List.prefix_iff_getElem?.mp hfront i hi
    rw [bytesFrom_getElem?, if_pos (lt_of_lt_of_le hi (hlength ▸ hfront.length_le))] at hsame
    rw [List.getElem?_eq_getElem hi] at hb
    exact Option.some.inj (hsame.trans hb)
  · rintro ⟨hspells, hle⟩
    rw [List.prefix_iff_getElem?]
    intro i hi
    rw [bytesFrom_getElem?, if_pos (by omega), hspells i _ (List.getElem?_eq_getElem hi)]

theorem canonical_prefix_iff (m : Bytes) (n : Nat) (cp : SucsChar) :
    Canonical m n ((sutf8Encode cp).length, cp) ↔
      sucsIsValid cp = true ∧ sutf8Encode cp <+: bytesFrom m n := by
  rw [spells_prefix_iff]
  constructor
  · intro h
    exact ⟨h.valid, h.spells, h.inside⟩
  · rintro ⟨hvalid, hspells, hle⟩
    exact ⟨hvalid, rfl, hle, hspells⟩

theorem sutf8_exact : PrefixCode.Exact (sucsIsValid · = true) sutf8Encode sutf8Next where
  nonempty := by
    intro cp hvalid hempty
    have hpos := sutf8Encode_pos hvalid
    rw [hempty] at hpos
    exact Nat.lt_irrefl 0 hpos
  next_iff := by
    intro text cp rest
    have hiff := sutf8DecodeChar_iff (fun i => text.getD i 0) text.length
    have hfront := canonical_prefix_iff (fun i => text.getD i 0) text.length cp
    rw [bytesFrom_getD] at hfront
    constructor
    · intro hnext
      simp only [sutf8Next] at hnext
      split_ifs at hnext with hzero
      have hcanon := (hiff _).mp ⟨rfl, hzero⟩
      obtain ⟨rfl, rfl⟩ := Prod.mk.inj (Option.some.inj hnext)
      have hcode := hcanon.consumed
      rw [show (sutf8DecodeChar (fun i => text.getD i 0) text.length) = (_, _) from
        Prod.ext hcode rfl] at hcanon
      obtain ⟨hvalid, hstart⟩ := hfront.mp hcanon
      refine ⟨hvalid, ?_⟩
      rw [hcode]
      exact (List.prefix_iff_eq_append.mp hstart).symm
    · rintro ⟨hvalid, rfl⟩
      obtain ⟨hdecode, hne⟩ := (hiff _).mpr (hfront.mpr ⟨hvalid, List.prefix_append _ _⟩)
      simp only [sutf8Next, hdecode]
      rw [if_neg hne, List.drop_left]

/-- The decoder accepts what the encoder writes and nothing else, and a text of valid
codepoints is encoded in one way only. -/
theorem sutf8_canonical :
    (∀ inBuf bufSize d,
      sutf8DecodeChar inBuf bufSize = d ∧ d.1 ≠ 0 ↔ Canonical inBuf bufSize d) ∧
    ∀ cps cps' : List SucsChar, (∀ cp ∈ cps, sucsIsValid cp = true) →
      (∀ cp ∈ cps', sucsIsValid cp = true) → encodeAll cps = encodeAll cps' → cps = cps' := by
  constructor
  · exact sutf8DecodeChar_iff
  · intro cps cps' hvalid hvalid' heq
    exact sutf8_exact.flatMap_inj hvalid hvalid' heq

theorem sutf8DecodeChar_stray (hstray : ∀ cp, sucsIsValid cp = true →
    ¬ sutf8Encode cp <+: bytesFrom m n) : (sutf8DecodeChar m n).1 = 0 := by
  by_contra haccepts
  have hcanon := sutf8DecodeChar_sound m n haccepts
  have hfront := spells_prefix_iff.mpr ⟨hcanon.spells, hcanon.consumed ▸ hcanon.inside⟩
  exact hstray _ hcanon.valid hfront

theorem bytesFrom_pos {b : UInt8} {rest : List UInt8} (h : b :: rest = bytesFrom m n) :
    0 < n ∧ rest = bytesFrom (window m 1) (n - 1) := by
  have hlength := congrArg List.length h
  rw [bytesFrom, List.length_map, List.length_range, List.length_cons] at hlength
  refine ⟨by omega, ?_⟩
  rw [← bytesFrom_drop, ← h, List.drop_one, List.tail_cons]

theorem nameLoop_cut {pieces : List (SucsChar ⊕ UInt8)} (hcut : SutfCut text pieces)
    (htext : text = bytesFrom (window name i) (len - i)) (room : Nat) :
    nameLoop name len room i = (pieces.take room).map shownPiece := by
  induction hcut generalizing i room with
  | nil =>
    have hlength := congrArg List.length htext
    rw [bytesFrom, List.length_map, List.length_range, List.length_nil] at hlength
    cases room with
    | zero => rfl
    | succ room => simp [nameLoop, show ¬ i < len by omega]
  | @symbol cp rest pieces hcp hrest ih =>
    cases room with
    | zero => rfl
    | succ room =>
      have hpos := sutf8Encode_pos hcp
      have hfront : sutf8Encode cp <+: bytesFrom (window name i) (len - i) :=
        htext ▸ List.prefix_append _ rest
      obtain ⟨hspells, hfits⟩ := spells_prefix_iff.mp hfront
      have hdecode := sutf8DecodeChar_encode hcp hspells hfits
      have hbehind := congrArg (List.drop (sutf8Encode cp).length) htext
      rw [List.drop_left, bytesFrom_drop, window_window, Nat.sub_sub] at hbehind
      rw [nameLoop, if_pos (by omega), hdecode]
      dsimp only
      rw [if_neg (by omega), ih hbehind room, List.take_succ_cons, List.map_cons]
      rfl
  | @stray b rest pieces hb hrest ih =>
    cases room with
    | zero => rfl
    | succ room =>
      have hstray : (sutf8DecodeChar (window name i) (len - i)).1 = 0 :=
        sutf8DecodeChar_stray fun cp hcp => htext ▸ hb cp hcp
      obtain ⟨hpos, hbehind⟩ := bytesFrom_pos htext
      rw [window_window, Nat.sub_sub] at hbehind
      rw [nameLoop, if_pos (by omega)]
      dsimp only
      rw [if_pos hstray, ih hbehind room, List.take_succ_cons, List.map_cons]
      rfl

/-- Every name is cut in one way into codepoints and stray bytes, and shown piece by piece. -/
theorem owfsNameToAscii_cut (name : Bytes) (len : UInt8) :
    (∀ pieces, SutfCut (bytesFrom name len.toNat) pieces ↔ pieces = namePieces name len.toNat) ∧
      owfsNameToAscii name len = ((namePieces name len.toNat).take 127).map shownPiece := by
  have hlength : (bytesFrom name len.toNat).length = len.toNat := by
    rw [bytesFrom, List.length_map, List.length_range]
  have hcut : SutfCut _ (namePieces name len.toNat) := sutf8_exact.cut_cut hlength.le
  constructor
  · intro pieces
    constructor
    · intro hpieces
      exact sutf8_exact.cut_det hpieces hcut
    · rintro rfl
      exact hcut
  · have hstart : bytesFrom name len.toNat = bytesFrom (window name 0) (len.toNat - 0) := by
      rw [← bytesFrom_drop, List.drop_zero]
    exact nameLoop_cut hcut hstart 127

end Texts

end ModularBootloader
