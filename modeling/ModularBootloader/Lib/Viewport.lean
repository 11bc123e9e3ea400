import Mathlib

/-!
# A selection in a scrolled list

A list of `count` lines is seen through a window of `height`. Moves change the
selection, by turns round the list or by pages that stop at its ends; the window
then follows, and follows no further than it has to.
-/

namespace Viewport

structure View where
  sel : Int
  top : Int
  deriving DecidableEq, Repr

inductive Move
  /-- Round the list. -/
  | turn (lines : Int)
  /-- Up to an end of the list. -/
  | page (lines : Int)
  | first
  | last
  deriving DecidableEq, Repr

def Move.target (count : Int) : Move → Int → Int
  | .turn lines, sel => (sel + lines) % count
  | .page lines, sel => max 0 (min (count - 1) (sel + lines))
  | .first, _ => 0
  | .last, _ => count - 1

def reveal (height sel top : Int) : Int := max (sel - (height - 1)) (min sel top)

def View.move (height count : Int) (v : View) (m : Move) : View where
  sel := m.target count v.sel
  top := reveal height (m.target count v.sel) v.top

def View.run (height count : Int) (v : View) (moves : List Move) : View :=
  moves.foldl (View.move height count) v

section Moves
variable {height count sel top t : Int} {v : View}

theorem target_nonneg (hcount : 0 < count) (m : Move) (sel : Int) : 0 ≤ m.target count sel := by
  cases m with
  | turn lines => exact Int.emod_nonneg _ (ne_of_gt hcount)
  | page lines => exact le_max_left _ _
  | first => exact le_refl 0
  | last =>
    simp only [Move.target]
    omega

theorem target_lt (hcount : 0 < count) (m : Move) (sel : Int) : m.target count sel < count := by
  cases m with
  | turn lines => exact Int.emod_lt_of_pos _ hcount
  | page lines =>
    simp only [Move.target]
    omega
  | first => exact hcount
  | last =>
    simp only [Move.target]
    omega

/-- No other window that shows the line is as near to the one before. -/
theorem reveal_nearest (hshown : t ≤ sel) (hbelow : sel < t + height) :
    t = reveal height sel top ∨ |reveal height sel top - top| < |t - top| := by
  by_cases hsame : t = reveal height sel top
  · exact .inl hsame
  · refine .inr ?_
    have hold := abs_cases (reveal height sel top - top)
    have hnew := abs_cases (t - top)
    rw [reveal] at hsame hold ⊢
    omega

theorem run_turns (hsel : 0 ≤ v.sel) (hlt : v.sel < count) (turns : List Int) :
    (v.run height count (turns.map .turn)).sel = (v.sel + turns.sum) % count := by
  induction turns generalizing v with
  | nil => simp [View.run, Int.emod_eq_of_lt hsel hlt]
  | cons lines turns ih =>
    have hcount : 0 < count := lt_of_le_of_lt hsel hlt
    have hrest := ih (v := v.move height count (.turn lines))
      (target_nonneg hcount (.turn lines) v.sel) (target_lt hcount (.turn lines) v.sel)
    rw [List.map_cons, List.sum_cons, ← Int.add_assoc]
    refine hrest.trans ?_
    exact Int.emod_add_emod _ _ _

end Moves

end Viewport
