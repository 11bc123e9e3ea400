import ModularBootloader.Lib.SliceAssign

/-!
# Numbered blocks kept in a growable image

A block store gives every block number its content; a write replaces an
interval of one block. An image holds a store from some offset on, with blank
room behind the last block. Assigning a slice of the image is a write to the
store, even if the value is too short for its slice, as long as only blank
blocks follow: what moves up is blank, and the room shrinks.
-/

namespace BlockStore
open SliceAssign
universe u
variable {α : Type u}

abbrev Blocks (α : Type u) := Nat → Nat → α

def putAt (D : Blocks α) (b off n : Nat) (src : Nat → α) : Blocks α :=
  fun b' i => if b' = b ∧ off ≤ i ∧ i < off + n then src (i - off) else D b' i

section Put
variable {D : Blocks α} {b b' off n i : Nat} {src : Nat → α}

theorem putAt_inside (hi : i < n) : putAt D b off n src b (off + i) = src i := by
  rw [putAt, if_pos (by omega), Nat.add_sub_cancel_left]

theorem putAt_first (hn : 0 < n) : putAt D b off n src b off = src 0 := by
  rw [putAt, if_pos (by omega), Nat.sub_self]

theorem putAt_whole (hi : i < n) : putAt D b 0 n src b i = src i := by
  rw [putAt, if_pos (by omega), Nat.sub_zero]

theorem putAt_outside (h : b' ≠ b ∨ i < off ∨ off + n ≤ i) :
    putAt D b off n src b' i = D b' i := if_neg (by omega)

theorem putAt_congr {src' : Nat → α} (h : ∀ j < n, src j = src' j) :
    putAt D b off n src = putAt D b off n src' := by
  funext b' i
  by_cases hin : b' = b ∧ off ≤ i ∧ i < off + n
  · rw [putAt, putAt, if_pos hin, if_pos hin, h _ (by omega)]
  · rw [putAt, putAt, if_neg hin, if_neg hin]

theorem putAt_block (h : b' ≠ b) : putAt D b off n src b' = D b' := by
  funext i
  exact putAt_outside (.inl h)

end Put

/-- The image holds blocks `0` to `total - 1` from `start` on, and `room` blank
positions behind them. -/
structure Holds (size start total room : Nat) (blank : α) (image : List α) (D : Blocks α) :
    Prop where
  length : start + size * total + room ≤ image.length
  block : ∀ b < total, ∀ i < size, image.getD (start + size * b + i) blank = D b i
  behind : ∀ a, start + size * total ≤ a → a < start + size * total + room →
    image.getD a blank = blank

section Images
variable {size start total room off b : Nat} {blank : α} {image v : List α} {D : Blocks α}

theorem block_end_le (size : Nat) (hb : b < total) : size * b + size ≤ size * total := by
  rw [← Nat.mul_succ]
  exact Nat.mul_le_mul_left size hb

theorem block_apart (size : Nat) {b' : Nat} (hne : b' ≠ b) :
    size * b' + size ≤ size * b ∨ size * b + size ≤ size * b' := by
  rcases Nat.lt_or_gt_of_ne hne with hlt | hgt
  · exact .inl (block_end_le size hlt)
  · exact .inr (block_end_le size hgt)

theorem Holds.put (h : Holds size start total room blank image D) (hb : b < total)
    (hoff : off + v.length ≤ size) :
    Holds size start total room blank
      (sliceAssign image (start + size * b + off) (start + size * b + off + v.length) v)
      (putAt D b off v.length fun i => v.getD i blank) := by
  have hlength := h.length
  have hend := block_end_le size hb
  have hfits : start + size * b + off + v.length ≤ image.length := by omega
  have hassigned := sliceAssign_length (v := v)
    (Nat.le_add_right (start + size * b + off) v.length) hfits
  have houtside : ∀ a, a < start + size * b + off ∨ start + size * b + off + v.length ≤ a →
      (sliceAssign image (start + size * b + off) (start + size * b + off + v.length) v).getD a
        blank = image.getD a blank := by
    intro a ha
    rw [List.getD_eq_getElem?_getD, List.getD_eq_getElem?_getD, sliceAssign_outside rfl hfits ha]
  refine ⟨by omega, ?_, ?_⟩
  · intro b' hb' i hi
    by_cases hin : b' = b ∧ off ≤ i ∧ i < off + v.length
    · obtain ⟨rfl, hlo, hhi⟩ := hin
      obtain ⟨j, rfl⟩ : ∃ j, i = off + j := ⟨i - off, by omega⟩
      rw [putAt_inside (by omega), ← Nat.add_assoc]
      exact sliceAssign_getD_inside (by omega) (by omega)
    · rw [putAt_outside (by omega), ← h.block b' hb' i hi]
      apply houtside
      by_cases hsame : b' = b
      · subst hsame
        omega
      · have hapart := block_apart size hsame
        omega
  · intro a hlo hhi
    rw [houtside a (by omega), h.behind a hlo hhi]

theorem Holds.put_short (h : Holds size start total room blank image D) (hb : b < total)
    (hv : v.length ≤ size) (hroom : size ≤ v.length + room)
    (hblank : ∀ b', b < b' → b' < total → ∀ i < size, D b' i = blank) :
    Holds size start total (v.length + room - size) blank
      (sliceAssign image (start + size * b) (start + size * b + size) v)
      (putAt D b 0 size fun i => v.getD i blank) := by
  have hlength := h.length
  have hend := block_end_le size hb
  have hassigned := sliceAssign_length (v := v) (Nat.le_add_right (start + size * b) size)
    (show start + size * b + size ≤ image.length by omega)
  -- Everything from the end of the block to the end of the room is blank.
  have hrest : ∀ c, start + size * b + size + c < start + size * total + room →
      image.getD (start + size * b + size + c) blank = blank := by
    intro c hc
    by_cases hin : start + size * b + size + c < start + size * total
    · have hsize : 0 < size := by
        by_contra hzero
        have hnone : size = 0 := by omega
        subst hnone
        omega
      have hsplit := Nat.div_add_mod c size
      have hmod := Nat.mod_lt c hsize
      generalize c / size = q at hsplit
      generalize c % size = r at hsplit hmod
      have hpos : size * (b + 1 + q) = size * b + size + size * q := by
        rw [Nat.mul_add, Nat.mul_add, Nat.mul_one]
      have hlt : b + 1 + q < total := by
        by_contra hge
        have hbound := Nat.mul_le_mul_left size (not_lt.mp hge)
        omega
      have hblock := h.block (b + 1 + q) hlt r hmod
      rw [hblank _ (by omega) hlt _ hmod] at hblock
      rw [← hblock]
      congr 1
      omega
    · exact h.behind _ (by omega) hc
  have hmoved : ∀ c, start + size * b + size + c < start + size * total + room →
      (sliceAssign image (start + size * b) (start + size * b + size) v).getD
        (start + size * b + v.length + c) blank = blank := by
    intro c hc
    rw [sliceAssign_getD_after (by omega) (by omega), hrest c hc]
  refine ⟨by omega, ?_, ?_⟩
  · intro b' hb' i hi
    have hend' := block_end_le size hb'
    by_cases hsame : b' = b
    · subst hsame
      rw [putAt_whole hi]
      by_cases hin : i < v.length
      · exact sliceAssign_getD_inside (by omega) hin
      · obtain ⟨c, rfl⟩ : ∃ c, i = v.length + c := ⟨i - v.length, by omega⟩
        rw [← Nat.add_assoc, hmoved c (by omega), List.getD_eq_default _ _ (by omega)]
    · rw [putAt_outside (.inl hsame)]
      rcases block_apart size hsame with hbefore | hafter
      · rw [← h.block b' hb' i hi]
        exact sliceAssign_getD_before (by omega) (by omega)
      · obtain ⟨c, hc⟩ : ∃ c, start + size * b' + i = start + size * b + v.length + c :=
          ⟨start + size * b' + i - (start + size * b + v.length), by omega⟩
        have hlater : b < b' := by
          by_contra hle
          have hbound := block_end_le size (show b' < b by omega)
          omega
        rw [hc, hmoved c (by omega), hblank b' hlater hb' i hi]
  · intro a hlo hhi
    obtain ⟨c, rfl⟩ : ∃ c, a = start + size * b + v.length + c :=
      ⟨a - (start + size * b + v.length), by omega⟩
    exact hmoved c (by omega)

end Images

end BlockStore
