import Mathlib

/-!
# A shift register over exclusive or

The reflected 32-bit register of a cyclic redundancy check, for any feedback word
with its top bit set. A shift is linear and loses nothing, so two inputs that
differ within four consecutive bytes leave the register different.
-/

namespace ShiftRegister

def shift (poly c : UInt32) : UInt32 := if c &&& 1 ≠ 0 then (c >>> 1) ^^^ poly else c >>> 1

def absorb (poly c b : UInt32) : UInt32 := (shift poly)^[8] (c ^^^ b)

def register (poly init : UInt32) (d : Nat → UInt32) : Nat → UInt32
  | 0 => init
  | n + 1 => absorb poly (register poly init d n) (d n)

variable {poly : UInt32}

theorem low_bit (c : UInt32) : c &&& 1 ≠ 0 ↔ c.toNat % 2 = 1 := by
  have hlow : (c &&& 1).toNat = c.toNat % 2 := by
    rw [UInt32.toNat_and]
    exact Nat.and_one_is_mod _
  have hzero : c &&& 1 = 0 ↔ (c &&& 1).toNat = 0 := by
    rw [← UInt32.toNat_inj]
    rfl
  rw [ne_eq, hzero]
  omega

theorem half_toNat (c : UInt32) : (c >>> 1).toNat = c.toNat / 2 := by
  rw [UInt32.toNat_shiftRight, Nat.shiftRight_eq_div_pow]
  rfl

theorem low_bit_xor (a b : UInt32) :
    (a ^^^ b) &&& 1 ≠ 0 ↔ ¬ (a &&& 1 ≠ 0 ↔ b &&& 1 ≠ 0) := by
  rw [low_bit, low_bit, low_bit, UInt32.toNat_xor, Nat.xor_mod_two_eq]
  omega

theorem shift_xor (a b : UInt32) : shift poly (a ^^^ b) = shift poly a ^^^ shift poly b := by
  have hbits := low_bit_xor a b
  simp only [shift, UInt32.shiftRight_xor]
  by_cases ha : a &&& 1 ≠ 0 <;> by_cases hb : b &&& 1 ≠ 0
  · rw [if_neg (by tauto), if_pos ha, if_pos hb]
    rw [UInt32.xor_comm (b >>> 1) poly, UInt32.xor_assoc, ← UInt32.xor_assoc poly poly,
      UInt32.xor_self, UInt32.zero_xor]
  · rw [if_pos (by tauto), if_pos ha, if_neg hb, UInt32.xor_assoc, UInt32.xor_comm _ poly,
      ← UInt32.xor_assoc]
  · rw [if_pos (by tauto), if_neg ha, if_pos hb, UInt32.xor_assoc]
  · rw [if_neg (by tauto), if_neg ha, if_neg hb]

theorem iterate_shift_xor (n : Nat) (a b : UInt32) :
    (shift poly)^[n] (a ^^^ b) = (shift poly)^[n] a ^^^ (shift poly)^[n] b := by
  induction n generalizing a b with
  | zero => rfl
  | succ n ih => rw [Function.iterate_succ_apply, shift_xor, ih]; rfl

theorem shift_double (hpoly : 2 ^ 31 ≤ poly.toNat) {c : UInt32}
    (h : (shift poly c).toNat < 2 ^ 31) : c.toNat = 2 * (shift poly c).toNat := by
  have hhalf := half_toNat c
  have hlt := c.toNat_lt
  by_cases hodd : c &&& 1 ≠ 0
  · have htop : 2 ^ 31 ≤ (shift poly c).toNat := by
      rw [shift, if_pos hodd, UInt32.toNat_xor, hhalf]
      have hbit : (c.toNat / 2 ^^^ poly.toNat).testBit 31 = true := by
        rw [Nat.testBit_xor, Nat.testBit_lt_two_pow (show c.toNat / 2 < 2 ^ 31 by omega),
          Nat.testBit_eq_decide_div_mod_eq]
        have hpl := poly.toNat_lt
        have hdiv : poly.toNat / 2147483648 = 1 := by omega
        simp [hdiv]
      exact Nat.ge_two_pow_of_testBit hbit
    omega
  · have heven : ¬ c.toNat % 2 = 1 := mt (low_bit c).mpr hodd
    rw [shift, if_neg hodd, hhalf]
    omega

theorem iterate_shift_small (hpoly : 2 ^ 31 ≤ poly.toNat) {k : Nat} (hk : k ≤ 32) {c : UInt32}
    (h : ((shift poly)^[k] c).toNat < 2 ^ (32 - k)) :
    c.toNat = 2 ^ k * ((shift poly)^[k] c).toNat := by
  induction k generalizing c with
  | zero => rw [Nat.pow_zero, Nat.one_mul]; rfl
  | succ k ih =>
    rw [Function.iterate_succ_apply] at h ⊢
    have hpow : 2 ^ (32 - k) = 2 * 2 ^ (32 - (k + 1)) := by
      rw [← Nat.pow_succ']
      congr 1
      omega
    have hnext := ih (by omega) (c := shift poly c) (by omega)
    have hbelow : (shift poly c).toNat < 2 ^ 31 := by
      calc (shift poly c).toNat = 2 ^ k * ((shift poly)^[k] (shift poly c)).toNat := hnext
        _ < 2 ^ k * 2 ^ (32 - (k + 1)) := Nat.mul_lt_mul_of_pos_left h (by positivity)
        _ = 2 ^ 31 := by
          rw [← Nat.pow_add]
          congr 1
          omega
    rw [shift_double hpoly hbelow]
    rw [hnext, Nat.pow_succ]
    ring

theorem iterate_shift_zero (n : Nat) : (shift poly)^[n] 0 = 0 := by
  induction n with
  | zero => rfl
  | succ n ih => exact ih

theorem register_xor (poly init : UInt32) (d e : Nat → UInt32) (n : Nat) :
    register poly init d n ^^^ register poly init e n =
      register poly 0 (fun i => d i ^^^ e i) n := by
  induction n with
  | zero => exact UInt32.xor_self
  | succ n ih =>
    rw [register, register, register, ← ih, absorb, absorb, absorb, ← iterate_shift_xor]
    congr 1
    rw [UInt32.xor_assoc, UInt32.xor_assoc]
    congr 1
    rw [← UInt32.xor_assoc, ← UInt32.xor_assoc, UInt32.xor_comm (d n)]

section Differences
variable {d : Nat → UInt32} {p k m n : Nat}

theorem register_zero (h : ∀ i < p, d i = 0) : register poly 0 d p = 0 := by
  induction p with
  | zero => rfl
  | succ p ih =>
    rw [register, ih fun i hi => h i (by omega), h p (Nat.lt_succ_self p), absorb, UInt32.xor_zero]
    exact iterate_shift_zero 8

theorem register_window (hpoly : 2 ^ 31 ≤ poly.toNat) (hbytes : ∀ i, (d i).toNat < 2 ^ 8)
    (hbefore : ∀ i < p, d i = 0) (hn : n ≤ 4)
    (h : (register poly 0 d (p + n)).toNat < 2 ^ (8 * (4 - n))) :
    register poly 0 d (p + n) = 0 ∧ ∀ i < n, d (p + i) = 0 := by
  induction n with
  | zero =>
    refine ⟨register_zero hbefore, ?_⟩
    intro i hi
    omega
  | succ n ih =>
    have hstep : register poly 0 d (p + (n + 1)) =
        (shift poly)^[8] (register poly 0 d (p + n) ^^^ d (p + n)) := rfl
    generalize hv : register poly 0 d (p + (n + 1)) = v at h hstep ⊢
    have hwide : 2 ^ (8 * (4 - (n + 1))) ≤ 2 ^ 24 :=
      Nat.pow_le_pow_right (by decide) (by omega)
    have hback := iterate_shift_small (k := 8) hpoly (by decide)
      (c := register poly 0 d (p + n) ^^^ d (p + n)) (by
        rw [← hstep]
        exact h.trans_le hwide)
    rw [← hstep] at hback
    have hpow : 2 ^ 8 * 2 ^ (8 * (4 - (n + 1))) = 2 ^ (8 * (4 - n)) := by
      rw [← Nat.pow_add]
      congr 1
      omega
    have hxor : (register poly 0 d (p + n) ^^^ d (p + n)).toNat < 2 ^ (8 * (4 - n)) := by
      rw [hback, ← hpow]
      exact Nat.mul_lt_mul_of_pos_left h (by decide)
    have hbyte : (d (p + n)).toNat < 2 ^ (8 * (4 - n)) :=
      (hbytes _).trans_le (Nat.pow_le_pow_right (by decide) (by omega))
    have hprev : (register poly 0 d (p + n)).toNat < 2 ^ (8 * (4 - n)) := by
      have hcancel : register poly 0 d (p + n) =
          (register poly 0 d (p + n) ^^^ d (p + n)) ^^^ d (p + n) := by
        rw [UInt32.xor_assoc, UInt32.xor_self, UInt32.xor_zero]
      rw [hcancel, UInt32.toNat_xor]
      exact Nat.xor_lt_two_pow hxor hbyte
    obtain ⟨hzero, hall⟩ := ih (by omega) hprev
    have hlast := hbytes (p + n)
    rw [hzero, UInt32.zero_xor] at hback
    have hvzero : v.toNat = 0 := by omega
    have hdzero : (d (p + n)).toNat = 0 := by omega
    refine ⟨UInt32.toNat_inj.mp hvzero, ?_⟩
    intro i hi
    by_cases hlt : i < n
    · exact hall i hlt
    · obtain rfl : i = n := by omega
      exact UInt32.toNat_inj.mp hdzero

theorem register_tail (hpoly : 2 ^ 31 ≤ poly.toNat) (hkm : k ≤ m)
    (hafter : ∀ i, k ≤ i → i < m → d i = 0) (h : register poly 0 d m = 0) :
    register poly 0 d k = 0 := by
  induction m, hkm using Nat.le_induction with
  | base => exact h
  | succ m hkm ih =>
    apply ih (fun i hi hlt => hafter i hi (by omega))
    rw [register, hafter m hkm (Nat.lt_succ_self m), absorb, UInt32.xor_zero] at h
    have hback := iterate_shift_small (k := 8) hpoly (by decide)
      (c := register poly 0 d m) (by
        rw [h]
        decide)
    rw [h] at hback
    exact UInt32.toNat_inj.mp hback

/-- Differences within four consecutive bytes are told. -/
theorem register_burst (hpoly : 2 ^ 31 ≤ poly.toNat) (hbytes : ∀ i, (d i).toNat < 2 ^ 8)
    (hn : n ≤ 4) (hfits : p + n ≤ m) (hbefore : ∀ i < p, d i = 0)
    (hafter : ∀ i, p + n ≤ i → i < m → d i = 0) (h : register poly 0 d m = 0) :
    ∀ i < m, d i = 0 := by
  have hend := register_tail hpoly hfits hafter h
  have hwindow := register_window hpoly hbytes hbefore hn (by
    rw [hend]
    exact Nat.two_pow_pos _)
  intro i hi
  by_cases hlo : i < p
  · exact hbefore i hlo
  by_cases hhi : p + n ≤ i
  · exact hafter i hhi hi
  · obtain ⟨j, rfl⟩ : ∃ j, i = p + j := ⟨i - p, by omega⟩
    exact hwindow.2 j (by omega)

end Differences

theorem register_congr {init : UInt32} {d e : Nat → UInt32} {n : Nat} (h : ∀ i < n, d i = e i) :
    register poly init d n = register poly init e n := by
  induction n with
  | zero => rfl
  | succ n ih =>
    rw [register, register, ih fun i hi => h i (by omega), h n (Nat.lt_succ_self n)]

theorem register_agree (hpoly : 2 ^ 31 ≤ poly.toNat) {init : UInt32} {d e : Nat → UInt8}
    {p w n : Nat} (hw : w ≤ 4) (hrest : ∀ i < n, i < p ∨ p + w ≤ i → d i = e i)
    (h : register poly init (fun i => (d i).toUInt32) n =
      register poly init (fun i => (e i).toUInt32) n) : ∀ i < n, d i = e i := by
  intro i hi
  by_cases hp : n ≤ p
  · exact hrest i hi (by omega)
  have hdiff := register_xor poly init (fun i => (d i).toUInt32) (fun i => (e i).toUInt32) n
  rw [h, UInt32.xor_self] at hdiff
  have hxor : ∀ a b : UInt8, a.toUInt32 ^^^ b.toUInt32 = 0 ↔ a = b := by
    intro a b
    rw [UInt32.xor_eq_zero_iff, UInt8.toUInt32_inj]
  -- The window may reach past the end of the input.
  have hall := register_burst (d := fun i => (d i).toUInt32 ^^^ (e i).toUInt32) (p := p)
    (n := min w (n - p)) (m := n) hpoly (fun i => ?_) (by omega) (by omega) (fun i hi => ?_)
    (fun i hlo hhi => ?_) hdiff.symm
  · exact (hxor _ _).mp (hall i hi)
  · rw [← UInt8.toUInt32_xor, UInt8.toNat_toUInt32]
    exact UInt8.toNat_lt _
  · exact (hxor _ _).mpr (hrest i (by omega) (.inl hi))
  · exact (hxor _ _).mpr (hrest i hhi (by omega))

end ShiftRegister
