import ModularBootloader.Lib.SliceAssign

/-!
# Sequences of slice assignments

A buffer of fixed length is filled by assignments to slices that are as long as
their values and lie inside it. What the whole sequence leaves at a position is
the value of the last assignment that covered it, or what was there before.
-/

namespace SliceWrites
open SliceAssign
universe u
variable {α : Type u}

structure Write (α : Type u) where
  off : Nat
  value : List α

namespace Write

def stop (w : Write α) : Nat := w.off + w.value.length

def apply (l : List α) (w : Write α) : List α := sliceAssign l w.off w.stop w.value

def at? (w : Write α) (a : Nat) : Option α := if w.off ≤ a then w.value[a - w.off]? else none

end Write

def applyAll (l : List α) (ws : List (Write α)) : List α := ws.foldl Write.apply l

def written : List (Write α) → Nat → Option α
  | [], _ => none
  | w :: ws, a => (written ws a).or (w.at? a)

variable {l : List α} {w : Write α} {ws : List (Write α)} {a i : Nat} {d : α}

theorem Write.apply_length (h : w.stop ≤ l.length) : (w.apply l).length = l.length := by
  have hlength := sliceAssign_length (v := w.value) (Nat.le_add_right w.off w.value.length) h
  change (sliceAssign l w.off (w.off + w.value.length) w.value).length = l.length
  omega

theorem Write.at?_outside (h : a < w.off ∨ w.stop ≤ a) : w.at? a = none := by
  unfold Write.at?
  split_ifs with hlo
  · apply List.getElem?_eq_none
    unfold Write.stop at h
    omega
  · rfl

theorem Write.at?_inside (h : i < w.value.length) : w.at? (w.off + i) = some w.value[i] := by
  rw [Write.at?, if_pos (Nat.le_add_right _ _), Nat.add_sub_cancel_left, List.getElem?_eq_getElem h]

theorem Write.apply_getD (h : w.stop ≤ l.length) :
    (w.apply l).getD a d = (w.at? a).getD (l.getD a d) := by
  have hoff : w.off ≤ l.length := Nat.le_trans (Nat.le_add_right _ _) h
  by_cases hin : w.off ≤ a ∧ a < w.stop
  · obtain ⟨i, rfl⟩ := Nat.exists_eq_add_of_le hin.1
    have hi : i < w.value.length := Nat.lt_of_add_lt_add_left hin.2
    rw [at?_inside hi, Option.getD_some, apply, sliceAssign_getD_inside hoff hi,
      List.getD_eq_getElem?_getD, List.getElem?_eq_getElem hi, Option.getD_some]
  · have hout : a < w.off ∨ w.stop ≤ a := by omega
    have hsame : (w.apply l)[a]? = l[a]? := sliceAssign_outside rfl h hout
    rw [at?_outside hout, Option.getD_none, List.getD_eq_getElem?_getD, hsame,
      ← List.getD_eq_getElem?_getD]

theorem Write.apply_append {off : Nat} {v v' : List α} (h : off ≤ l.length) :
    (Write.mk (off + v.length) v').apply ((Write.mk off v).apply l) =
      (Write.mk off (v ++ v')).apply l := by
  have hstop : off + (v ++ v').length = off + v.length + v'.length := by
    rw [List.length_append, Nat.add_assoc]
  unfold Write.apply Write.stop
  rw [hstop]
  exact sliceAssign_adjacent rfl (Nat.le_add_right _ _) h

theorem applyAll_cons : applyAll l (w :: ws) = applyAll (w.apply l) ws := rfl

theorem applyAll_append (l : List α) (ws ws' : List (Write α)) :
    applyAll l (ws ++ ws') = applyAll (applyAll l ws) ws' := List.foldl_append

theorem applyAll_length (h : ∀ w ∈ ws, w.stop ≤ l.length) : (applyAll l ws).length = l.length := by
  induction ws generalizing l with
  | nil => rfl
  | cons w ws ih =>
    have hfirst := Write.apply_length (h w List.mem_cons_self)
    rw [applyAll_cons, ih, hfirst]
    intro w' hw'
    rw [hfirst]
    exact h w' (List.mem_cons_of_mem w hw')

/-- The last assignment that covers a position decides what is there. -/
theorem applyAll_getD (h : ∀ w ∈ ws, w.stop ≤ l.length) :
    (applyAll l ws).getD a d = (written ws a).getD (l.getD a d) := by
  induction ws generalizing l with
  | nil => rfl
  | cons w ws ih =>
    have hfits := h w List.mem_cons_self
    rw [applyAll_cons, ih, Write.apply_getD hfits, written]
    · cases written ws a <;> rfl
    · intro w' hw'
      rw [Write.apply_length hfits]
      exact h w' (List.mem_cons_of_mem w hw')

theorem written_none (h : ∀ w ∈ ws, a < w.off ∨ w.stop ≤ a) : written ws a = none := by
  induction ws with
  | nil => rfl
  | cons w ws ih =>
    rw [written, ih fun w' hw' => h w' (List.mem_cons_of_mem w hw'),
      Write.at?_outside (h w List.mem_cons_self)]
    rfl

theorem written_append (ws ws' : List (Write α)) (a : Nat) :
    written (ws ++ ws') a = (written ws' a).or (written ws a) := by
  induction ws with
  | nil => simp [written]
  | cons w ws ih => rw [List.cons_append, written, ih, written, Option.or_assoc]

theorem applyAll_outside (hfits : ∀ w ∈ ws, w.stop ≤ l.length)
    (h : ∀ w ∈ ws, a < w.off ∨ w.stop ≤ a) : (applyAll l ws)[a]? = l[a]? := by
  induction ws generalizing l with
  | nil => rfl
  | cons w ws ih =>
    have hfirst := hfits w List.mem_cons_self
    have hsame : (w.apply l)[a]? = l[a]? :=
      sliceAssign_outside rfl hfirst (h w List.mem_cons_self)
    rw [applyAll_cons, ih, hsame]
    · intro w' hw'
      rw [Write.apply_length hfirst]
      exact hfits w' (List.mem_cons_of_mem w hw')
    · intro w' hw'
      exact h w' (List.mem_cons_of_mem w hw')

def Apart (w w' : Write α) : Prop := w.stop ≤ w'.off ∨ w'.stop ≤ w.off

theorem written_of_apart (h : ws.Pairwise Apart) (hw : w ∈ ws) (hi : i < w.value.length) :
    written ws (w.off + i) = some w.value[i] := by
  induction ws with
  | nil => cases hw
  | cons w' ws ih =>
    obtain ⟨hfirst, hrest⟩ := List.pairwise_cons.mp h
    rw [written]
    rcases List.mem_cons.mp hw with rfl | hmem
    · rw [written_none, Option.none_or, Write.at?_inside hi]
      intro w' hw'
      have hapart := hfirst w' hw'
      unfold Apart Write.stop at hapart
      unfold Write.stop
      omega
    · rw [ih hrest hmem]
      rfl

theorem applyAll_region (h : ws.Pairwise Apart) (hfits : ∀ w ∈ ws, w.stop ≤ l.length) (hw : w ∈ ws)
    (hi : i < w.value.length) : (applyAll l ws).getD (w.off + i) d = w.value.getD i d := by
  rw [applyAll_getD hfits, written_of_apart h hw hi, Option.getD_some, List.getD_eq_getElem?_getD,
    List.getElem?_eq_getElem hi, Option.getD_some]

section Statements
variable {σ ε : Type*} {exec : List α → σ → Except ε (List α)} {write : σ → Write α} {ss : List σ}

theorem foldlM_fits (hstop : ∀ s ∈ ss, (write s).stop ≤ l.length)
    (hexec : ∀ s ∈ ss, ∀ l', l'.length = l.length → exec l' s = .ok ((write s).apply l')) :
    ss.foldlM exec l = .ok (applyAll l (ss.map write)) := by
  induction ss generalizing l with
  | nil => rfl
  | cons s rest ih =>
    have hfirst := Write.apply_length (hstop s List.mem_cons_self)
    rw [List.foldlM_cons, hexec s List.mem_cons_self l rfl]
    change rest.foldlM exec ((write s).apply l) = _
    rw [ih]
    · rfl
    · intro s' hs'
      rw [hfirst]
      exact hstop s' (List.mem_cons_of_mem s hs')
    · intro s' hs' l' hl'
      exact hexec s' (List.mem_cons_of_mem s hs') l' (hl'.trans hfirst)

end Statements

end SliceWrites
