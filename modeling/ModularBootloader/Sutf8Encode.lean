import ModularBootloader.Sutf8

/-!
# SUTF-8 encoding

The vendored encoder, and that the decoder gives back what it encoded, whatever
follows in the buffer.
-/

namespace ModularBootloader
open ByteStore

def framed (mark mask s : UInt32) (cp : SucsChar) : UInt8 :=
  (mark ||| ((cp >>> s) &&& mask)).toUInt8

/-- The bytes stored into a buffer of `bufSize`, none where the encoder returns zero. -/
def sutf8EncodeChar (cp : SucsChar) (bufSize : Nat) : List UInt8 :=
  if !sucsIsValid cp then []
  else if cp ≤ 0x7F then
    if bufSize < 1 then [] else [(cp &&& 0x7F).toUInt8]
  else if cp ≤ 0x7FF then
    if bufSize < 2 then [] else [framed 0xC0 0x1F 6 cp, framed 0x80 0x3F 0 cp]
  else if cp ≤ 0xFFFF then
    if bufSize < 3 then []
    else [framed 0xE0 0x0F 12 cp, framed 0x80 0x3F 6 cp, framed 0x80 0x3F 0 cp]
  else if cp ≤ 0x0010FFFF then
    if bufSize < 4 then []
    else [framed 0xF0 0x07 18 cp, framed 0x80 0x3F 12 cp, framed 0x80 0x3F 6 cp,
      framed 0x80 0x3F 0 cp]
  else if cp ≤ 0x03FFFFFF then
    if bufSize < 5 then []
    else [framed 0xF8 0x03 24 cp, framed 0x80 0x3F 18 cp, framed 0x80 0x3F 12 cp,
      framed 0x80 0x3F 6 cp, framed 0x80 0x3F 0 cp]
  else if cp ≤ 0x7FFFFFFF then
    if bufSize < 6 then []
    else [framed 0xFC 0x01 30 cp, framed 0x80 0x3F 24 cp, framed 0x80 0x3F 18 cp,
      framed 0x80 0x3F 12 cp, framed 0x80 0x3F 6 cp, framed 0x80 0x3F 0 cp]
  else []

def sutf8Encode (cp : SucsChar) : List UInt8 := sutf8EncodeChar cp 6

theorem tail_byte {x : UInt32} (hx : x.toNat < 64) :
    isContinuation (0x80 ||| x).toUInt8 = true ∧ payload (0x80 ||| x).toUInt8 0x3F = x := by
  have hall : ∀ n : Fin 64, isContinuation (0x80 ||| UInt32.ofNat n).toUInt8 = true ∧
      payload (0x80 ||| UInt32.ofNat n).toUInt8 0x3F = UInt32.ofNat n := by decide
  have hone := hall ⟨x.toNat, hx⟩
  rwa [UInt32.ofNat_toNat] at hone

theorem lead_two {x : UInt32} (hx : x.toNat < 32) :
    let u := (0xC0 ||| x).toUInt8
    ¬ u &&& 0x80 = 0x00 ∧ u &&& 0xE0 = 0xC0 ∧ payload u 0x1F = x := by
  have hall : ∀ n : Fin 32, let u := (0xC0 ||| UInt32.ofNat n).toUInt8
      ¬ u &&& 0x80 = 0x00 ∧ u &&& 0xE0 = 0xC0 ∧ payload u 0x1F = UInt32.ofNat n := by decide
  have hone := hall ⟨x.toNat, hx⟩
  rwa [UInt32.ofNat_toNat] at hone

theorem lead_three {x : UInt32} (hx : x.toNat < 16) :
    let u := (0xE0 ||| x).toUInt8
    ¬ u &&& 0x80 = 0x00 ∧ ¬ u &&& 0xE0 = 0xC0 ∧ u &&& 0xF0 = 0xE0 ∧ payload u 0x0F = x := by
  have hall : ∀ n : Fin 16, let u := (0xE0 ||| UInt32.ofNat n).toUInt8
      ¬ u &&& 0x80 = 0x00 ∧ ¬ u &&& 0xE0 = 0xC0 ∧ u &&& 0xF0 = 0xE0 ∧
        payload u 0x0F = UInt32.ofNat n := by decide
  have hone := hall ⟨x.toNat, hx⟩
  rwa [UInt32.ofNat_toNat] at hone

theorem lead_four {x : UInt32} (hx : x.toNat < 8) :
    let u := (0xF0 ||| x).toUInt8
    ¬ u &&& 0x80 = 0x00 ∧ ¬ u &&& 0xE0 = 0xC0 ∧ ¬ u &&& 0xF0 = 0xE0 ∧ u &&& 0xF8 = 0xF0 ∧
      payload u 0x07 = x := by
  have hall : ∀ n : Fin 8, let u := (0xF0 ||| UInt32.ofNat n).toUInt8
      ¬ u &&& 0x80 = 0x00 ∧ ¬ u &&& 0xE0 = 0xC0 ∧ ¬ u &&& 0xF0 = 0xE0 ∧ u &&& 0xF8 = 0xF0 ∧
        payload u 0x07 = UInt32.ofNat n := by decide
  have hone := hall ⟨x.toNat, hx⟩
  rwa [UInt32.ofNat_toNat] at hone

theorem lead_five {x : UInt32} (hx : x.toNat < 4) :
    let u := (0xF8 ||| x).toUInt8
    ¬ u &&& 0x80 = 0x00 ∧ ¬ u &&& 0xE0 = 0xC0 ∧ ¬ u &&& 0xF0 = 0xE0 ∧ ¬ u &&& 0xF8 = 0xF0 ∧
      u &&& 0xFC = 0xF8 ∧ payload u 0x03 = x := by
  have hall : ∀ n : Fin 4, let u := (0xF8 ||| UInt32.ofNat n).toUInt8
      ¬ u &&& 0x80 = 0x00 ∧ ¬ u &&& 0xE0 = 0xC0 ∧ ¬ u &&& 0xF0 = 0xE0 ∧ ¬ u &&& 0xF8 = 0xF0 ∧
        u &&& 0xFC = 0xF8 ∧ payload u 0x03 = UInt32.ofNat n := by decide
  have hone := hall ⟨x.toNat, hx⟩
  rwa [UInt32.ofNat_toNat] at hone

theorem lead_six {x : UInt32} (hx : x.toNat < 2) :
    let u := (0xFC ||| x).toUInt8
    ¬ u &&& 0x80 = 0x00 ∧ ¬ u &&& 0xE0 = 0xC0 ∧ ¬ u &&& 0xF0 = 0xE0 ∧ ¬ u &&& 0xF8 = 0xF0 ∧
      ¬ u &&& 0xFC = 0xF8 ∧ u &&& 0xFE = 0xFC ∧ payload u 0x01 = x := by
  have hall : ∀ n : Fin 2, let u := (0xFC ||| UInt32.ofNat n).toUInt8
      ¬ u &&& 0x80 = 0x00 ∧ ¬ u &&& 0xE0 = 0xC0 ∧ ¬ u &&& 0xF0 = 0xE0 ∧ ¬ u &&& 0xF8 = 0xF0 ∧
        ¬ u &&& 0xFC = 0xF8 ∧ u &&& 0xFE = 0xFC ∧ payload u 0x01 = UInt32.ofNat n := by decide
  have hone := hall ⟨x.toNat, hx⟩
  rwa [UInt32.ofNat_toNat] at hone

theorem digit_toNat (cp s m : UInt32) {n : Nat} (hm : m.toNat = 2 ^ n - 1) (hs : s.toNat < 32) :
    ((cp >>> s) &&& m).toNat = cp.toNat / 2 ^ s.toNat % 2 ^ n := by
  rw [UInt32.toNat_and, hm, Nat.and_two_pow_sub_one_eq_mod, UInt32.toNat_shiftRight,
    Nat.mod_eq_of_lt hs, Nat.shiftRight_eq_div_pow]

theorem digit_lt (cp s m : UInt32) {n : Nat} (hm : m.toNat = 2 ^ n - 1) (hs : s.toNat < 32) :
    ((cp >>> s) &&& m).toNat < 2 ^ n := by
  rw [digit_toNat cp s m hm hs]
  exact Nat.mod_lt _ (by positivity)

def above (cp s : UInt32) : UInt32 := (cp >>> s) <<< s

theorem above_toNat (cp s : UInt32) (hs : s.toNat < 32) :
    (above cp s).toNat = 2 ^ s.toNat * (cp.toNat / 2 ^ s.toNat) := by
  have hle : 2 ^ s.toNat * (cp.toNat / 2 ^ s.toNat) ≤ cp.toNat := Nat.mul_div_le _ _
  have hlt := cp.toNat_lt
  rw [above, UInt32.toNat_shiftLeft, UInt32.toNat_shiftRight, Nat.mod_eq_of_lt hs,
    Nat.shiftRight_eq_div_pow, Nat.shiftLeft_eq, Nat.mul_comm, Nat.mod_eq_of_lt (by omega)]

theorem above_lead {cp s m : UInt32} {n : Nat} (hm : m.toNat = 2 ^ n - 1) (hs : s.toNat < 32)
    (hcp : cp.toNat < 2 ^ s.toNat * 2 ^ n) : ((cp >>> s) &&& m) <<< s = above cp s := by
  have hdigit := digit_toNat cp s m hm hs
  rw [Nat.mod_eq_of_lt (Nat.div_lt_of_lt_mul hcp)] at hdigit
  have hall : (cp >>> s) &&& m = cp >>> s := by
    rw [← UInt32.toNat_inj, hdigit, UInt32.toNat_shiftRight, Nat.mod_eq_of_lt hs,
      Nat.shiftRight_eq_div_pow]
  rw [above, hall]

theorem or_toNat {a b : UInt32} {k : Nat} (ha : 2 ^ k ∣ a.toNat) (hb : b.toNat < 2 ^ k) :
    (a ||| b).toNat = a.toNat + b.toNat := by
  obtain ⟨c, hc⟩ := ha
  rw [UInt32.toNat_or, hc, Nat.mul_comm, ← Nat.shiftLeft_eq, Nat.shiftLeft_add_eq_or_of_lt hb]

theorem above_next {cp s t : UInt32} (ht : t.toNat = s.toNat + 6) (hs : s.toNat + 6 < 32) :
    above cp t ||| ((cp >>> s) &&& 0x3F) <<< s = above cp s := by
  have hdigit := digit_toNat cp s 0x3F (n := 6) rfl (by omega)
  have hlt : cp.toNat / 2 ^ s.toNat % 2 ^ 6 < 2 ^ 6 := Nat.mod_lt _ (by decide)
  have hpow : 2 ^ t.toNat = 2 ^ s.toNat * 2 ^ 6 := by rw [ht, Nat.pow_add]
  have hbound : 2 ^ s.toNat * (cp.toNat / 2 ^ s.toNat % 2 ^ 6) < 2 ^ t.toNat := by
    rw [hpow]
    exact Nat.mul_lt_mul_of_pos_left hlt (by positivity)
  have hwide : 2 ^ t.toNat < 2 ^ 32 := Nat.pow_lt_pow_right (by decide) (by omega)
  have hplaced : (((cp >>> s) &&& 0x3F) <<< s).toNat =
      2 ^ s.toNat * (cp.toNat / 2 ^ s.toNat % 2 ^ 6) := by
    rw [UInt32.toNat_shiftLeft, Nat.mod_eq_of_lt (show s.toNat < 32 by omega), Nat.shiftLeft_eq,
      Nat.mul_comm, hdigit, Nat.mod_eq_of_lt (by omega)]
  have hhigh := above_toNat cp t (by omega)
  rw [← UInt32.toNat_inj, or_toNat (k := t.toNat) ⟨_, hhigh⟩ (by omega), hhigh,
    above_toNat cp s (by omega), hplaced, hpow, Nat.mul_assoc, ← Nat.mul_add,
    ← Nat.div_div_eq_div_mul, Nat.div_add_mod]

theorem above_last (cp : UInt32) : above cp 6 ||| ((cp >>> 0) &&& 0x3F) = cp := by
  have hdigit := digit_toNat cp 0 0x3F (n := 6) rfl (by decide)
  have hhigh := above_toNat cp 6 (by decide)
  simp only [UInt32.reduceToNat] at hdigit hhigh
  rw [← UInt32.toNat_inj, or_toNat (k := 6) ⟨_, hhigh⟩ (by omega), hhigh, hdigit]
  omega

section Decode
variable {cp : SucsChar} {inBuf : Bytes} {bufSize : Nat}

theorem sutf8DecodeChar_two (hvalid : sucsIsValid cp = true) (hlo : 0x80 ≤ cp.toNat)
    (hhi : cp.toNat < 0x800) (hsize : 2 ≤ bufSize)
    (h0 : inBuf 0 = framed 0xC0 0x1F 6 cp)
    (h1 : inBuf 1 = framed 0x80 0x3F 0 cp) :
    sutf8DecodeChar inBuf bufSize = (2, cp) := by
  obtain ⟨hl1, hl2, hp0⟩ := lead_two (x := (cp >>> 6) &&& 0x1F)
    (digit_lt cp 6 0x1F (n := 5) rfl (by decide))
  obtain ⟨hc1, hp1⟩ := tail_byte (digit_lt cp 0 0x3F (n := 6) rfl (by decide))
  have hsum : ((cp >>> 6) &&& 0x1F) <<< 6 |||
      ((cp >>> 0) &&& 0x3F) = cp := by
    rw [above_lead (n := 5) rfl (by decide) (by simpa using by omega), above_last]
  have hcp : ¬ cp < 0x80 := by
    rw [UInt32.lt_iff_toNat_lt]
    exact not_lt.mpr hlo
  have hs : bufSize ≠ 0 := by omega
  have hfits : ¬ bufSize < 2 := by omega
  simp only [sutf8DecodeChar, h0, h1, framed, hl1, hl2,
    hp0, hp1, hc1, hsum, hcp, hs, hfits,
    hvalid, if_true, if_false, Bool.not_true, Bool.false_eq_true]

theorem sutf8DecodeChar_three (hvalid : sucsIsValid cp = true) (hlo : 0x800 ≤ cp.toNat)
    (hhi : cp.toNat < 0x10000) (hsize : 3 ≤ bufSize)
    (h0 : inBuf 0 = framed 0xE0 0x0F 12 cp)
    (h1 : inBuf 1 = framed 0x80 0x3F 6 cp) (h2 : inBuf 2 = framed 0x80 0x3F 0 cp) :
    sutf8DecodeChar inBuf bufSize = (3, cp) := by
  obtain ⟨hl1, hl2, hl3, hp0⟩ := lead_three (x := (cp >>> 12) &&& 0x0F)
    (digit_lt cp 12 0x0F (n := 4) rfl (by decide))
  obtain ⟨hc1, hp1⟩ := tail_byte (digit_lt cp 6 0x3F (n := 6) rfl (by decide))
  obtain ⟨hc2, hp2⟩ := tail_byte (digit_lt cp 0 0x3F (n := 6) rfl (by decide))
  have hsum : ((cp >>> 12) &&& 0x0F) <<< 12 |||
      ((cp >>> 6) &&& 0x3F) <<< 6 |||
      ((cp >>> 0) &&& 0x3F) = cp := by
    rw [above_lead (n := 4) rfl (by decide) (by simpa using by omega),
      above_next rfl (by decide), above_last]
  have hcp : ¬ cp < 0x800 := by
    rw [UInt32.lt_iff_toNat_lt]
    exact not_lt.mpr hlo
  have hs : bufSize ≠ 0 := by omega
  have hfits : ¬ bufSize < 3 := by omega
  simp only [sutf8DecodeChar, h0, h1, h2, framed, hl1, hl2, hl3,
    hp0, hp1, hp2, hc1, hc2, hsum, hcp, hs, hfits,
    hvalid, if_true, if_false, Bool.not_true, Bool.false_eq_true, Bool.or_self]

theorem sutf8DecodeChar_four (hvalid : sucsIsValid cp = true) (hlo : 0x10000 ≤ cp.toNat)
    (hhi : cp.toNat < 0x110000) (hsize : 4 ≤ bufSize)
    (h0 : inBuf 0 = framed 0xF0 0x07 18 cp)
    (h1 : inBuf 1 = framed 0x80 0x3F 12 cp) (h2 : inBuf 2 = framed 0x80 0x3F 6 cp)
    (h3 : inBuf 3 = framed 0x80 0x3F 0 cp) :
    sutf8DecodeChar inBuf bufSize = (4, cp) := by
  obtain ⟨hl1, hl2, hl3, hl4, hp0⟩ := lead_four (x := (cp >>> 18) &&& 0x07)
    (digit_lt cp 18 0x07 (n := 3) rfl (by decide))
  obtain ⟨hc1, hp1⟩ := tail_byte (digit_lt cp 12 0x3F (n := 6) rfl (by decide))
  obtain ⟨hc2, hp2⟩ := tail_byte (digit_lt cp 6 0x3F (n := 6) rfl (by decide))
  obtain ⟨hc3, hp3⟩ := tail_byte (digit_lt cp 0 0x3F (n := 6) rfl (by decide))
  have hsum : ((cp >>> 18) &&& 0x07) <<< 18 |||
      ((cp >>> 12) &&& 0x3F) <<< 12 |||
      ((cp >>> 6) &&& 0x3F) <<< 6 |||
      ((cp >>> 0) &&& 0x3F) = cp := by
    rw [above_lead (n := 3) rfl (by decide) (by simpa using by omega),
      above_next rfl (by decide), above_next rfl (by decide), above_last]
  have hcp : ¬ cp < 0x10000 := by
    rw [UInt32.lt_iff_toNat_lt]
    exact not_lt.mpr hlo
  have hmax : ¬ cp > 0x0010FFFF := by
    rw [gt_iff_lt, UInt32.lt_iff_toNat_lt]
    exact not_lt.mpr (Nat.le_of_lt_succ hhi)
  have hs : bufSize ≠ 0 := by omega
  have hfits : ¬ bufSize < 4 := by omega
  simp only [sutf8DecodeChar, h0, h1, h2, h3, framed, hl1, hl2, hl3, hl4,
    hp0, hp1, hp2, hp3, hc1, hc2, hc3, hsum, hcp, hmax, hs, hfits,
    hvalid, if_true, if_false, Bool.not_true, Bool.false_eq_true, Bool.or_self]

theorem sutf8DecodeChar_five (hvalid : sucsIsValid cp = true) (hlo : 0x110000 ≤ cp.toNat)
    (hhi : cp.toNat < 0x4000000) (hsize : 5 ≤ bufSize)
    (h0 : inBuf 0 = framed 0xF8 0x03 24 cp)
    (h1 : inBuf 1 = framed 0x80 0x3F 18 cp) (h2 : inBuf 2 = framed 0x80 0x3F 12 cp)
    (h3 : inBuf 3 = framed 0x80 0x3F 6 cp) (h4 : inBuf 4 = framed 0x80 0x3F 0 cp) :
    sutf8DecodeChar inBuf bufSize = (5, cp) := by
  obtain ⟨hl1, hl2, hl3, hl4, hl5, hp0⟩ := lead_five (x := (cp >>> 24) &&& 0x03)
    (digit_lt cp 24 0x03 (n := 2) rfl (by decide))
  obtain ⟨hc1, hp1⟩ := tail_byte (digit_lt cp 18 0x3F (n := 6) rfl (by decide))
  obtain ⟨hc2, hp2⟩ := tail_byte (digit_lt cp 12 0x3F (n := 6) rfl (by decide))
  obtain ⟨hc3, hp3⟩ := tail_byte (digit_lt cp 6 0x3F (n := 6) rfl (by decide))
  obtain ⟨hc4, hp4⟩ := tail_byte (digit_lt cp 0 0x3F (n := 6) rfl (by decide))
  have hsum : ((cp >>> 24) &&& 0x03) <<< 24 |||
      ((cp >>> 18) &&& 0x3F) <<< 18 |||
      ((cp >>> 12) &&& 0x3F) <<< 12 |||
      ((cp >>> 6) &&& 0x3F) <<< 6 |||
      ((cp >>> 0) &&& 0x3F) = cp := by
    rw [above_lead (n := 2) rfl (by decide) (by simpa using by omega),
      above_next rfl (by decide), above_next rfl (by decide), above_next rfl (by decide),
      above_last]
  have hcp : ¬ cp < 0x00110000 := by
    rw [UInt32.lt_iff_toNat_lt]
    exact not_lt.mpr hlo
  have hmax : ¬ cp > 0x03FFFFFF := by
    rw [gt_iff_lt, UInt32.lt_iff_toNat_lt]
    exact not_lt.mpr (Nat.le_of_lt_succ hhi)
  have hs : bufSize ≠ 0 := by omega
  have hfits : ¬ bufSize < 5 := by omega
  simp only [sutf8DecodeChar, h0, h1, h2, h3, h4, framed, hl1, hl2, hl3, hl4, hl5,
    hp0, hp1, hp2, hp3, hp4, hc1, hc2, hc3, hc4, hsum, hcp, hmax, hs, hfits,
    hvalid, if_true, if_false, Bool.not_true, Bool.false_eq_true, Bool.or_self]

theorem sutf8DecodeChar_six (hvalid : sucsIsValid cp = true) (hlo : 0x4000000 ≤ cp.toNat)
    (hhi : cp.toNat < 0x80000000) (hsize : 6 ≤ bufSize)
    (h0 : inBuf 0 = framed 0xFC 0x01 30 cp)
    (h1 : inBuf 1 = framed 0x80 0x3F 24 cp) (h2 : inBuf 2 = framed 0x80 0x3F 18 cp)
    (h3 : inBuf 3 = framed 0x80 0x3F 12 cp) (h4 : inBuf 4 = framed 0x80 0x3F 6 cp)
    (h5 : inBuf 5 = framed 0x80 0x3F 0 cp) :
    sutf8DecodeChar inBuf bufSize = (6, cp) := by
  obtain ⟨hl1, hl2, hl3, hl4, hl5, hl6, hp0⟩ := lead_six (x := (cp >>> 30) &&& 0x01)
    (digit_lt cp 30 0x01 (n := 1) rfl (by decide))
  obtain ⟨hc1, hp1⟩ := tail_byte (digit_lt cp 24 0x3F (n := 6) rfl (by decide))
  obtain ⟨hc2, hp2⟩ := tail_byte (digit_lt cp 18 0x3F (n := 6) rfl (by decide))
  obtain ⟨hc3, hp3⟩ := tail_byte (digit_lt cp 12 0x3F (n := 6) rfl (by decide))
  obtain ⟨hc4, hp4⟩ := tail_byte (digit_lt cp 6 0x3F (n := 6) rfl (by decide))
  obtain ⟨hc5, hp5⟩ := tail_byte (digit_lt cp 0 0x3F (n := 6) rfl (by decide))
  have hsum : ((cp >>> 30) &&& 0x01) <<< 30 |||
      ((cp >>> 24) &&& 0x3F) <<< 24 |||
      ((cp >>> 18) &&& 0x3F) <<< 18 |||
      ((cp >>> 12) &&& 0x3F) <<< 12 |||
      ((cp >>> 6) &&& 0x3F) <<< 6 |||
      ((cp >>> 0) &&& 0x3F) = cp := by
    rw [above_lead (n := 1) rfl (by decide) (by simpa using by omega),
      above_next rfl (by decide), above_next rfl (by decide), above_next rfl (by decide),
      above_next rfl (by decide), above_last]
  have hcp : ¬ cp < 0x04000000 := by
    rw [UInt32.lt_iff_toNat_lt]
    exact not_lt.mpr hlo
  have hs : bufSize ≠ 0 := by omega
  have hfits : ¬ bufSize < 6 := by omega
  simp only [sutf8DecodeChar, h0, h1, h2, h3, h4, h5, framed, hl1, hl2, hl3, hl4, hl5, hl6,
    hp0, hp1, hp2, hp3, hp4, hp5, hc1, hc2, hc3, hc4, hc5, hsum, hcp, hs, hfits,
    hvalid, if_true, if_false, Bool.not_true, Bool.false_eq_true, Bool.or_self]

def Spells (inBuf : Bytes) (text : List UInt8) : Prop := ∀ i b, text[i]? = some b → inBuf i = b

theorem sucsIsValid_le (hvalid : sucsIsValid cp = true) : cp ≤ 0x7FFFFFFF := by
  by_contra hlt
  rw [UInt32.not_le] at hlt
  simp [sucsIsValid, sucsMaxCodepoint, hlt] at hvalid

theorem sutf8Encode_pos (hvalid : sucsIsValid cp = true) : 0 < (sutf8Encode cp).length := by
  have hmax := sucsIsValid_le hvalid
  simp only [sutf8Encode, sutf8EncodeChar, hvalid, hmax]
  split_ifs <;> simp_all

theorem ascii_byte (h : cp ≤ 0x7F) :
    (cp &&& 0x7F).toUInt8 < 0x80 ∧ (cp &&& 0x7F).toUInt8.toUInt32 = cp := by
  have hall : ∀ n : Fin 128, (UInt32.ofNat n &&& 0x7F).toUInt8 < 0x80 ∧
      (UInt32.ofNat n &&& 0x7F).toUInt8.toUInt32 = UInt32.ofNat n := by decide +kernel
  rw [UInt32.le_iff_toNat_le] at h
  have hone := hall ⟨cp.toNat, Nat.lt_succ_of_le h⟩
  rwa [UInt32.ofNat_toNat] at hone

theorem sutf8DecodeChar_encode (hvalid : sucsIsValid cp = true)
    (hin : Spells inBuf (sutf8Encode cp)) (hsize : (sutf8Encode cp).length ≤ bufSize) :
    sutf8DecodeChar inBuf bufSize = ((sutf8Encode cp).length, cp) := by
  have hmax := sucsIsValid_le hvalid
  by_cases h1 : cp ≤ 0x7F
  · have henc : sutf8Encode cp = [(cp &&& 0x7F).toUInt8] := by
      simp [sutf8Encode, sutf8EncodeChar, hvalid, h1]
    rw [henc] at hin hsize ⊢
    obtain ⟨hlt, hback⟩ := ascii_byte h1
    rw [sutf8DecodeChar_ascii (Nat.ne_of_gt hsize) (by rw [hin 0 _ rfl]; exact hlt), hin 0 _ rfl,
      hback]
    rfl
  by_cases h2 : cp ≤ 0x7FF
  · have henc : sutf8Encode cp = [framed 0xC0 0x1F 6 cp, framed 0x80 0x3F 0 cp] := by
      simp [sutf8Encode, sutf8EncodeChar, hvalid, h1, h2]
    rw [henc] at hin hsize ⊢
    apply sutf8DecodeChar_two hvalid _ _ hsize (hin 0 _ rfl) (hin 1 _ rfl)
    · rw [UInt32.not_le, UInt32.lt_iff_toNat_lt] at h1
      exact h1
    · rw [UInt32.le_iff_toNat_le] at h2
      exact Nat.lt_succ_of_le h2
  by_cases h3 : cp ≤ 0xFFFF
  · have henc : sutf8Encode cp =
        [framed 0xE0 0x0F 12 cp, framed 0x80 0x3F 6 cp, framed 0x80 0x3F 0 cp] := by
      simp [sutf8Encode, sutf8EncodeChar, hvalid, h1, h2, h3]
    rw [henc] at hin hsize ⊢
    apply sutf8DecodeChar_three hvalid _ _ hsize (hin 0 _ rfl) (hin 1 _ rfl)
      (hin 2 _ rfl)
    · rw [UInt32.not_le, UInt32.lt_iff_toNat_lt] at h2
      exact h2
    · rw [UInt32.le_iff_toNat_le] at h3
      exact Nat.lt_succ_of_le h3
  by_cases h4 : cp ≤ 0x0010FFFF
  · have henc : sutf8Encode cp = [framed 0xF0 0x07 18 cp, framed 0x80 0x3F 12 cp,
        framed 0x80 0x3F 6 cp, framed 0x80 0x3F 0 cp] := by
      simp [sutf8Encode, sutf8EncodeChar, hvalid, h1, h2, h3, h4]
    rw [henc] at hin hsize ⊢
    apply sutf8DecodeChar_four hvalid _ _ hsize (hin 0 _ rfl) (hin 1 _ rfl)
      (hin 2 _ rfl) (hin 3 _ rfl)
    · rw [UInt32.not_le, UInt32.lt_iff_toNat_lt] at h3
      exact h3
    · rw [UInt32.le_iff_toNat_le] at h4
      exact Nat.lt_succ_of_le h4
  by_cases h5 : cp ≤ 0x03FFFFFF
  · have henc : sutf8Encode cp = [framed 0xF8 0x03 24 cp, framed 0x80 0x3F 18 cp,
        framed 0x80 0x3F 12 cp, framed 0x80 0x3F 6 cp, framed 0x80 0x3F 0 cp] := by
      simp [sutf8Encode, sutf8EncodeChar, hvalid, h1, h2, h3, h4, h5]
    rw [henc] at hin hsize ⊢
    apply sutf8DecodeChar_five hvalid _ _ hsize (hin 0 _ rfl) (hin 1 _ rfl)
      (hin 2 _ rfl) (hin 3 _ rfl) (hin 4 _ rfl)
    · rw [UInt32.not_le, UInt32.lt_iff_toNat_lt] at h4
      exact h4
    · rw [UInt32.le_iff_toNat_le] at h5
      exact Nat.lt_succ_of_le h5
  have henc : sutf8Encode cp = [framed 0xFC 0x01 30 cp, framed 0x80 0x3F 24 cp,
      framed 0x80 0x3F 18 cp, framed 0x80 0x3F 12 cp, framed 0x80 0x3F 6 cp,
      framed 0x80 0x3F 0 cp] := by
    simp [sutf8Encode, sutf8EncodeChar, hvalid, h1, h2, h3, h4, h5, hmax]
  rw [henc] at hin hsize ⊢
  apply sutf8DecodeChar_six hvalid _ _ hsize (hin 0 _ rfl) (hin 1 _ rfl)
    (hin 2 _ rfl) (hin 3 _ rfl) (hin 4 _ rfl) (hin 5 _ rfl)
  · rw [UInt32.not_le, UInt32.lt_iff_toNat_lt] at h5
    exact h5
  · rw [UInt32.le_iff_toNat_le] at hmax
    exact Nat.lt_succ_of_le hmax

end Decode

end ModularBootloader
