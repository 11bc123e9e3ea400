import Mathlib

/-!
# Slice assignment

Replacing the slice `[lo, hi)` of a growable sequence. Unless the new value is
as long as the slice, everything behind it moves. A position is read with a
default for the positions past the end.
-/

namespace SliceAssign
universe u
variable {α : Type u}

/-- `l[lo:hi] = v` -/
def sliceAssign (l : List α) (lo hi : Nat) (v : List α) : List α :=
  l.take lo ++ v ++ l.drop (max lo hi)

section Rules
variable {l v : List α} {lo hi a : Nat} {d : α}

theorem sliceAssign_length (hlo : lo ≤ hi) (hhi : hi ≤ l.length) :
    (sliceAssign l lo hi v).length + (hi - lo) = l.length + v.length := by
  simp only [sliceAssign, List.length_append, List.length_take, List.length_drop]
  omega

theorem sliceAssign_length_le (hlo : lo ≤ l.length) (hv : hi = lo + v.length) :
    (sliceAssign l lo hi v).length = max l.length hi := by
  simp only [sliceAssign, List.length_append, List.length_take, List.length_drop]
  omega

theorem sliceAssign_prefix (ha : a < lo) (hin : a < l.length) :
    (sliceAssign l lo hi v)[a]? = l[a]? := by
  have htake : a < (l.take lo).length := by
    rw [List.length_take]
    omega
  rw [sliceAssign, List.append_assoc, List.getElem?_append_left htake, List.getElem?_take_of_lt ha]

theorem sliceAssign_length_ge (hn : a ≤ lo) (hin : a ≤ l.length) :
    a ≤ (sliceAssign l lo hi v).length := by
  simp only [sliceAssign, List.length_append, List.length_take, List.length_drop]
  omega

theorem sliceAssign_before (ha : a < lo) (hlo : lo ≤ l.length) :
    (sliceAssign l lo hi v)[a]? = l[a]? :=
  sliceAssign_prefix ha (Nat.lt_of_lt_of_le ha hlo)

theorem sliceAssign_inside (hlo : lo ≤ l.length) (ha : a < v.length) :
    (sliceAssign l lo hi v)[lo + a]? = v[a]? := by
  have htake : (l.take lo).length = lo := List.length_take_of_le hlo
  rw [sliceAssign, List.append_assoc, List.getElem?_append_right (by omega), htake,
    Nat.add_sub_cancel_left, List.getElem?_append_left ha]

theorem sliceAssign_after (hlo : lo ≤ hi) (hhi : lo ≤ l.length) :
    (sliceAssign l lo hi v)[lo + v.length + a]? = l[hi + a]? := by
  have htake : (l.take lo).length = lo := List.length_take_of_le hhi
  have hpast : lo + v.length + a - lo - v.length = a := by omega
  rw [sliceAssign, List.append_assoc, List.getElem?_append_right (by omega), htake,
    List.getElem?_append_right (by omega), hpast, Nat.max_eq_right hlo, List.getElem?_drop]

theorem sliceAssign_outside (hlo : lo + v.length = hi) (hhi : hi ≤ l.length)
    (ha : a < lo ∨ hi ≤ a) : (sliceAssign l lo hi v)[a]? = l[a]? := by
  rcases ha with ha | ha
  · exact sliceAssign_before ha (by omega)
  · obtain ⟨c, rfl⟩ : ∃ c, a = hi + c := ⟨a - hi, by omega⟩
    have hmoved := sliceAssign_after (v := v) (a := c) (show lo ≤ hi by omega)
      (show lo ≤ l.length by omega)
    rwa [hlo] at hmoved

theorem sliceAssign_adjacent {mid : Nat} {w : List α} (hmid : lo + v.length = mid)
    (hhi : mid ≤ hi) (hlo : lo ≤ l.length) :
    sliceAssign (sliceAssign l lo mid v) mid hi w = sliceAssign l lo hi (v ++ w) := by
  have hfirst : (l.take lo ++ v).length = mid := by
    rw [List.length_append, List.length_take_of_le hlo, hmid]
  have hbehind : (l.take lo ++ v ++ l.drop (max lo mid)).drop (max mid hi) =
      l.drop (max lo hi) := by
    rw [List.drop_append, List.drop_eq_nil_of_le (by omega), List.nil_append, List.drop_drop]
    congr 1
    omega
  have htake : (l.take lo ++ v ++ l.drop (max lo mid)).take mid = l.take lo ++ v :=
    List.take_left' hfirst
  rw [sliceAssign, sliceAssign, hbehind, htake, sliceAssign]
  simp only [List.append_assoc]

theorem sliceAssign_getD_before (ha : a < lo) (hlo : lo ≤ l.length) :
    (sliceAssign l lo hi v).getD a d = l.getD a d := by
  rw [List.getD_eq_getElem?_getD, List.getD_eq_getElem?_getD, sliceAssign_before ha hlo]

theorem sliceAssign_getD_inside (hlo : lo ≤ l.length) (ha : a < v.length) :
    (sliceAssign l lo hi v).getD (lo + a) d = v.getD a d := by
  rw [List.getD_eq_getElem?_getD, List.getD_eq_getElem?_getD, sliceAssign_inside hlo ha]

theorem sliceAssign_getD_after (hlo : lo ≤ hi) (hhi : lo ≤ l.length) :
    (sliceAssign l lo hi v).getD (lo + v.length + a) d = l.getD (hi + a) d := by
  rw [List.getD_eq_getElem?_getD, List.getD_eq_getElem?_getD, sliceAssign_after hlo hhi]

variable {i : Nat} {x : α}

theorem sliceAssign_one_length (hi : i < l.length) :
    (sliceAssign l i (i + 1) [x]).length = l.length := by
  have hsame := sliceAssign_length (v := [x]) (Nat.le_add_right i 1) hi
  rw [List.length_singleton] at hsame
  omega

theorem sliceAssign_one_self (hi : i < l.length) : (sliceAssign l i (i + 1) [x]).getD i d = x :=
  sliceAssign_getD_inside (a := 0) (by omega) Nat.one_pos

theorem sliceAssign_one_other (hi : i < l.length) (ha : a ≠ i) :
    (sliceAssign l i (i + 1) [x]).getD a d = l.getD a d := by
  have hout : a < i ∨ i + 1 ≤ a := by omega
  have hsame := sliceAssign_outside (v := [x]) (List.length_singleton ▸ rfl) hi hout
  rw [List.getD_eq_getElem?_getD, List.getD_eq_getElem?_getD, hsame]

end Rules

end SliceAssign
