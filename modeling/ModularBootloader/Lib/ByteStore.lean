import Mathlib

/-!
# Byte stores

A store is a total map from addresses to bytes. A transfer replaces one
interval and leaves every other address alone; a window is the same store read
from a base address. Little-endian words are loads of two or four adjacent
bytes, and the bytes of a natural number are what such a load reads back.
-/

namespace ByteStore

abbrev Bytes := Nat → UInt8

def window (m : Bytes) (base : Nat) : Bytes := fun i => m (base + i)

def blit (m : Bytes) (dst n : Nat) (src : Bytes) : Bytes :=
  fun a => if dst ≤ a ∧ a < dst + n then src (a - dst) else m a

@[simp] theorem window_apply (m : Bytes) (base i : Nat) : window m base i = m (base + i) := rfl

theorem window_window (m : Bytes) (a b : Nat) : window (window m a) b = window m (a + b) := by
  funext i
  simp only [window_apply, Nat.add_assoc]

theorem blit_inside {m src : Bytes} {dst n a : Nat} (hl : dst ≤ a) (hu : a < dst + n) :
    blit m dst n src a = src (a - dst) := if_pos ⟨hl, hu⟩

theorem blit_outside {m src : Bytes} {dst n a : Nat} (h : a < dst ∨ dst + n ≤ a) :
    blit m dst n src a = m a := if_neg (by omega)

theorem blit_at {m src : Bytes} {dst n i : Nat} (h : i < n) :
    blit m dst n src (dst + i) = src i := by
  rw [blit_inside (by omega) (by omega), Nat.add_sub_cancel_left]

theorem blit_blit (m src src' : Bytes) (dst n : Nat) :
    blit (blit m dst n src) dst n src' = blit m dst n src' := by
  funext a
  unfold blit
  split <;> rfl

/-- Byte-by-byte copy in ascending order, source and destination in one store. -/
def copyUp (m : Bytes) (d s : Nat) : Nat → Bytes
  | 0 => m
  | n + 1 => copyUp (Function.update m d (m s)) (d + 1) (s + 1) n

theorem copyUp_outside {m : Bytes} {d s n a : Nat} (h : a < d ∨ d + n ≤ a) :
    copyUp m d s n a = m a := by
  induction n generalizing m d s with
  | zero => rfl
  | succ n ih =>
    rw [copyUp, ih (by omega), Function.update_of_ne (by omega)]

theorem copyUp_disjoint {m : Bytes} {d s n i : Nat} (hd : d + n ≤ s ∨ s + n ≤ d)
    (hi : i < n) : copyUp m d s n (d + i) = m (s + i) := by
  induction n generalizing m d s i with
  | zero => omega
  | succ n ih =>
    rw [copyUp]
    cases i with
    | zero => rw [copyUp_outside (by omega), Nat.add_zero, Function.update_self, Nat.add_zero]
    | succ i =>
      have hstep := ih (m := Function.update m d (m s)) (d := d + 1) (s := s + 1) (i := i)
        (by omega) (by omega)
      rw [show d + (i + 1) = d + 1 + i by omega, hstep, Function.update_of_ne (by omega)]
      congr 1
      omega

def load16 (m : Bytes) (off : Nat) : UInt16 :=
  (m off).toUInt16 ||| ((m (off + 1)).toUInt16 <<< 8)

def load32 (m : Bytes) (off : Nat) : UInt32 :=
  (m off).toUInt32 ||| ((m (off + 1)).toUInt32 <<< 8) |||
    ((m (off + 2)).toUInt32 <<< 16) ||| ((m (off + 3)).toUInt32 <<< 24)

theorem load32_window (m : Bytes) (base off : Nat) :
    load32 (window m base) off = load32 m (base + off) := by
  simp only [load32, window_apply, Nat.add_assoc]

theorem load32_congr {m m' : Bytes} {off off' : Nat}
    (h : ∀ k < 4, m (off + k) = m' (off' + k)) : load32 m off = load32 m' off' := by
  have h0 := h 0 (by omega)
  simp only [Nat.add_zero] at h0
  simp only [load32, h0, h 1 (by omega), h 2 (by omega), h 3 (by omega)]

theorem load16_congr {m m' : Bytes} {off off' : Nat}
    (h : ∀ k < 2, m (off + k) = m' (off' + k)) : load16 m off = load16 m' off' := by
  have h0 := h 0 (by omega)
  simp only [Nat.add_zero] at h0
  simp only [load16, h0, h 1 (by omega)]

theorem or_shifted {a b k : Nat} (ha : a < 2 ^ k) : a ||| b <<< k = a + 2 ^ k * b := by
  rw [Nat.or_comm, ← Nat.shiftLeft_add_eq_or_of_lt ha, Nat.shiftLeft_eq, Nat.mul_comm, Nat.add_comm]

theorem load16_toNat (m : Bytes) (off : Nat) :
    (load16 m off).toNat = (m off).toNat + 256 * (m (off + 1)).toNat := by
  have h0 := (m off).toNat_lt
  have h1 := (m (off + 1)).toNat_lt
  simp only [load16, UInt16.toNat_or, UInt16.toNat_shiftLeft, UInt8.toNat_toUInt16,
    UInt16.reduceToNat, Nat.reduceMod]
  rw [Nat.mod_eq_of_lt (by simp only [Nat.shiftLeft_eq]; omega), or_shifted h0]
  omega

theorem load32_toNat (m : Bytes) (off : Nat) :
    (load32 m off).toNat = (m off).toNat + 256 * (m (off + 1)).toNat +
      65536 * (m (off + 2)).toNat + 16777216 * (m (off + 3)).toNat := by
  have h0 := (m off).toNat_lt
  have h1 := (m (off + 1)).toNat_lt
  have h2 := (m (off + 2)).toNat_lt
  have h3 := (m (off + 3)).toNat_lt
  have hfit : ∀ x k : Nat, x < 2 ^ 8 → k ≤ 24 → x <<< k % 2 ^ 32 = x <<< k := by
    intro x k hx hk
    refine Nat.mod_eq_of_lt ?_
    calc x <<< k = x * 2 ^ k := Nat.shiftLeft_eq x k
      _ < 2 ^ 8 * 2 ^ k := Nat.mul_lt_mul_of_pos_right hx (by positivity)
      _ ≤ 2 ^ 8 * 2 ^ 24 := Nat.mul_le_mul_left _ (Nat.pow_le_pow_right (by omega) hk)
  simp only [load32, UInt32.toNat_or, UInt32.toNat_shiftLeft, UInt8.toNat_toUInt32,
    UInt32.reduceToNat, Nat.reduceMod]
  rw [hfit _ 8 h1 (by omega), hfit _ 16 h2 (by omega), hfit _ 24 h3 (by omega), or_shifted h0,
    or_shifted (k := 16) (by omega), or_shifted (k := 24) (by omega)]
  omega

theorem load32_inj {m m' : Bytes} {off : Nat} (h : load32 m off = load32 m' off) :
    ∀ k < 4, m (off + k) = m' (off + k) := by
  have hnat := congrArg UInt32.toNat h
  rw [load32_toNat, load32_toNat] at hnat
  have h0 := (m off).toNat_lt
  have h1 := (m (off + 1)).toNat_lt
  have h2 := (m (off + 2)).toNat_lt
  have h3 := (m (off + 3)).toNat_lt
  have h0' := (m' off).toNat_lt
  have h1' := (m' (off + 1)).toNat_lt
  have h2' := (m' (off + 2)).toNat_lt
  have h3' := (m' (off + 3)).toNat_lt
  intro k hk
  obtain rfl | rfl | rfl | rfl : k = 0 ∨ k = 1 ∨ k = 2 ∨ k = 3 := by omega
  all_goals
    rw [← UInt8.toNat_inj]
    try rw [Nat.add_zero]
    omega

theorem load16_of_load32 (m : Bytes) (off : Nat) :
    (load16 m off).toNat = (load32 m off).toNat % 2 ^ 16 := by
  have h0 := (m off).toNat_lt
  have h1 := (m (off + 1)).toNat_lt
  rw [load16_toNat, load32_toNat]
  omega

def byteOf (v k : Nat) : UInt8 := UInt8.ofNat (v / 256 ^ k)

theorem load16_bytes {m : Bytes} {off v : Nat} (h : ∀ k < 2, m (off + k) = byteOf v k) :
    (load16 m off).toNat = v % 2 ^ 16 := by
  have h0 := h 0 (by omega)
  have h1 := h 1 (by omega)
  rw [load16_toNat, h1]
  rw [Nat.add_zero] at h0
  rw [h0]
  simp only [byteOf, UInt8.toNat_ofNat']
  omega

theorem load32_bytes {m : Bytes} {off v : Nat} (h : ∀ k < 4, m (off + k) = byteOf v k) :
    (load32 m off).toNat = v % 2 ^ 32 := by
  have h0 := h 0 (by omega)
  have h1 := h 1 (by omega)
  have h2 := h 2 (by omega)
  have h3 := h 3 (by omega)
  rw [load32_toNat, h1, h2, h3]
  rw [Nat.add_zero] at h0
  rw [h0]
  simp only [byteOf, UInt8.toNat_ofNat']
  omega

def load64 (m : Bytes) (off : Nat) : Nat :=
  (load32 m off).toNat + 2 ^ 32 * (load32 m (off + 4)).toNat

theorem load64_congr {m m' : Bytes} {off off' : Nat}
    (h : ∀ k < 8, m (off + k) = m' (off' + k)) : load64 m off = load64 m' off' := by
  have hlow : load32 m off = load32 m' off' := load32_congr fun k hk => h k (by omega)
  have hhigh : load32 m (off + 4) = load32 m' (off' + 4) := by
    apply load32_congr
    intro k hk
    rw [Nat.add_assoc, Nat.add_assoc]
    exact h (4 + k) (by omega)
  rw [load64, load64, hlow, hhigh]

theorem load64_bytes {m : Bytes} {off v : Nat} (h : ∀ k < 8, m (off + k) = byteOf v k) :
    load64 m off = v % 2 ^ 64 := by
  have hlow : (load32 m off).toNat = v % 2 ^ 32 := load32_bytes fun k hk => h k (by omega)
  have hhigh : (load32 m (off + 4)).toNat = v / 2 ^ 32 % 2 ^ 32 := by
    apply load32_bytes
    intro k hk
    have hpow : 256 ^ (4 + k) = 2 ^ 32 * 256 ^ k := Nat.pow_add 256 4 k
    rw [Nat.add_assoc, h (4 + k) (by omega), byteOf, byteOf, hpow, ← Nat.div_div_eq_div_mul]
  rw [load64, hlow, hhigh]
  omega

def store32 (m : Bytes) (off : Nat) (v : UInt32) : Bytes := blit m off 4 (byteOf v.toNat)

theorem load32_store32 (m : Bytes) (off : Nat) (v : UInt32) : load32 (store32 m off v) off = v := by
  have hbytes : ∀ k < 4, store32 m off v (off + k) = byteOf v.toNat k := fun k hk => blit_at hk
  rw [← UInt32.toNat_inj, load32_bytes hbytes]
  exact Nat.mod_eq_of_lt v.toNat_lt

theorem store32_outside {m : Bytes} {off a : Nat} {v : UInt32} (h : a < off ∨ off + 4 ≤ a) :
    store32 m off v a = m a := blit_outside h

theorem load32_store32_other {m : Bytes} {off off' : Nat} {v : UInt32}
    (h : off' + 4 ≤ off ∨ off + 4 ≤ off') : load32 (store32 m off v) off' = load32 m off' :=
  load32_congr fun _ _ => store32_outside (by omega)

def words (fields : List (Nat × UInt32)) : Bytes :=
  fields.foldr (fun f m => store32 m f.1 f.2) fun _ => 0

end ByteStore
