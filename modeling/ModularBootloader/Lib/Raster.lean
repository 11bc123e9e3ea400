import Mathlib

/-!
# Rasters in a linear store

Pixel `(x, y)` of a raster takes `depth` bytes from `y * pitch + x * depth` on.
When a scan line has room for its pixels no two of them share a byte. A scan
visits a rectangle row by row; what it leaves at a pixel follows from what one
visit leaves there.
-/

namespace Raster
universe u v
variable {σ : Type u} {γ : Type v}

def offset (pitch depth x y : Nat) : Nat := y * pitch + x * depth

variable {pitch depth w h x y x' y' n : Nat}

theorem offset_end_le (hrow : w * depth ≤ pitch) (hx : x < w) (hy : y < h) :
    offset pitch depth x y + depth ≤ pitch * h := by
  have hline : (x + 1) * depth ≤ w * depth := Nat.mul_le_mul_right depth hx
  have hlines : (y + 1) * pitch ≤ h * pitch := Nat.mul_le_mul_right pitch hy
  rw [Nat.add_mul, Nat.one_mul] at hline hlines
  rw [offset, Nat.mul_comm pitch h]
  omega

theorem offset_above (hrow : w * depth ≤ pitch) (hx : x < w) (hy : y < y') :
    offset pitch depth x y + depth ≤ offset pitch depth x' y' := by
  have hend := offset_end_le hrow hx hy
  rw [Nat.mul_comm] at hend
  exact hend.trans (Nat.le_add_right _ _)

theorem offset_left (hx : x < x') : offset pitch depth x y + depth ≤ offset pitch depth x' y := by
  have hline : (x + 1) * depth ≤ x' * depth := Nat.mul_le_mul_right depth hx
  rw [Nat.add_mul, Nat.one_mul] at hline
  unfold offset
  omega

theorem offset_disjoint (hrow : w * depth ≤ pitch) (hx : x < w) (hx' : x' < w)
    (hne : ¬ (x' = x ∧ y' = y)) :
    offset pitch depth x y + depth ≤ offset pitch depth x' y' ∨
      offset pitch depth x' y' + depth ≤ offset pitch depth x y := by
  rcases Nat.lt_trichotomy y y' with hy | rfl | hy
  · exact .inl (offset_above hrow hx hy)
  · rcases Nat.lt_trichotomy x x' with hlt | rfl | hlt
    · exact .inl (offset_left hlt)
    · exact absurd ⟨rfl, rfl⟩ hne
    · exact .inr (offset_left hlt)
  · exact .inr (offset_above hrow hx' hy)

/-- `for (i = 0; i < n; i++)` around a body without an exit. -/
def ascend (body : Nat → σ → σ) : Nat → σ → σ
  | 0, s => s
  | n + 1, s => body n (ascend body n s)

def scan (body : Nat → Nat → σ → σ) (w h : Nat) : σ → σ :=
  ascend (fun y => ascend (fun x => body x y) w) h

theorem ascend_invariant {body : Nat → σ → σ} {I : Nat → σ → Prop} {s : σ} (hstart : I 0 s)
    (hbody : ∀ i t, i < n → I i t → I (i + 1) (body i t)) : I n (ascend body n s) := by
  induction n with
  | zero => exact hstart
  | succ n ih =>
    apply hbody n _ (Nat.lt_succ_self n)
    exact ih fun i t hi => hbody i t (Nat.lt_succ_of_lt hi)

theorem scan_keeps {body : Nat → Nat → σ → σ} {I : σ → Prop} {s : σ} (hs : I s)
    (hbody : ∀ x y t, x < w → y < h → I t → I (body x y t)) : I (scan body w h s) := by
  apply ascend_invariant (I := fun _ => I) hs
  intro y t hy ht
  apply ascend_invariant (I := fun _ => I) ht
  intro x u hx hu
  exact hbody x y u hx hy hu

theorem scan_look {body : Nat → Nat → σ → σ} {look : σ → Nat → Nat → γ} {colour : Nat → Nat → γ}
    {Visible : Nat → Nat → Prop} {left top : Nat}
    (hbody : ∀ x y t, x < w → y < h → ∀ X Y, Visible X Y →
      look (body x y t) X Y = if X = left + x ∧ Y = top + y then colour x y else look t X Y)
    (s : σ) {X Y : Nat} (hvisible : Visible X Y) :
    look (scan body w h s) X Y =
      if (left ≤ X ∧ X < left + w) ∧ top ≤ Y ∧ Y < top + h then colour (X - left) (Y - top)
      else look s X Y := by
  -- One line sets its first `k` pixels, and `j` lines set the first `j` rows.
  have hline : ∀ y t, y < h → look (ascend (fun x => body x y) w t) X Y =
      if (left ≤ X ∧ X < left + w) ∧ Y = top + y then colour (X - left) y else look t X Y := by
    intro y t hy
    apply ascend_invariant (I := fun k u => look u X Y =
      if (left ≤ X ∧ X < left + k) ∧ Y = top + y then colour (X - left) y else look t X Y)
    · rw [if_neg (by omega)]
    · intro x u hx hu
      rw [hbody x y u hx hy X Y hvisible, hu]
      by_cases hat : X = left + x ∧ Y = top + y
      · rw [if_pos hat, if_pos (by omega), hat.1, Nat.add_sub_cancel_left]
      · rw [if_neg hat]
        congr 1
        apply propext
        omega
  apply ascend_invariant (I := fun j u => look u X Y =
    if (left ≤ X ∧ X < left + w) ∧ top ≤ Y ∧ Y < top + j then colour (X - left) (Y - top)
    else look s X Y)
  · rw [if_neg (by omega)]
  · intro y u hy hu
    rw [hline y u hy, hu]
    by_cases hat : (left ≤ X ∧ X < left + w) ∧ Y = top + y
    · rw [if_pos hat, if_pos (by omega), hat.2, Nat.add_sub_cancel_left]
    · rw [if_neg hat]
      congr 1
      apply propext
      omega

end Raster
