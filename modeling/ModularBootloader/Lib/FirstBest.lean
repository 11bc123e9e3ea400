import Mathlib

/-!
# The first best of a table

A scan from left to right that keeps the index of the largest weight so far and
gives way only to a larger one. Entries without a weight are passed over. The
scan starts from index and weight zero.
-/

namespace FirstBest

def visit (w : Nat → Option Nat) (best : Nat × Nat) (i : Nat) : Nat × Nat :=
  match w i with
  | none => best
  | some v => if best.2 < v then (i, v) else best

def scan (w : Nat → Option Nat) (n : Nat) : Nat × Nat := (List.range n).foldl (visit w) (0, 0)

structure Leads (w : Nat → Option Nat) (n : Nat) (best : Nat × Nat) : Prop where
  upper : ∀ i < n, ∀ v, w i = some v → v ≤ best.2
  origin : best = (0, 0) ∨
    (0 < best.2 ∧ best.1 < n ∧ w best.1 = some best.2 ∧
      ∀ i < best.1, ∀ v, w i = some v → v < best.2)

variable {w : Nat → Option Nat} {n m v : Nat} {best : Nat × Nat}

theorem Leads.keep (h : Leads w n best) (hnew : ∀ v, w n = some v → v ≤ best.2) :
    Leads w (n + 1) best := by
  constructor
  · intro i hi u hu
    rcases Nat.lt_succ_iff_lt_or_eq.mp hi with hlt | rfl
    · exact h.upper i hlt u hu
    · exact hnew u hu
  · rcases h.origin with hzero | ⟨hpos, hlt, hrest⟩
    · exact .inl hzero
    · exact .inr ⟨hpos, Nat.lt_succ_of_lt hlt, hrest⟩

theorem Leads.replace (h : Leads w n best) (hw : w n = some v) (hbeats : best.2 < v) :
    Leads w (n + 1) (n, v) := by
  have hbefore : ∀ i < n, ∀ u, w i = some u → u < v := by
    intro i hi u hu
    exact (h.upper i hi u hu).trans_lt hbeats
  refine ⟨?_, .inr ⟨Nat.zero_lt_of_lt hbeats, Nat.lt_succ_self n, hw, hbefore⟩⟩
  intro i hi u hu
  rcases Nat.lt_succ_iff_lt_or_eq.mp hi with hlt | rfl
  · exact (hbefore i hlt u hu).le
  · rw [hw] at hu
    exact (Option.some.inj hu).ge

theorem Leads.visit (h : Leads w n best) : Leads w (n + 1) (visit w best n) := by
  unfold FirstBest.visit
  cases hw : w n with
  | none =>
    apply h.keep
    intro v hv
    rw [hw] at hv
    cases hv
  | some u =>
    dsimp only
    split_ifs with hbeats
    · exact h.replace hw hbeats
    · apply h.keep
      intro v hv
      rw [hw] at hv
      obtain rfl := Option.some.inj hv
      exact Nat.le_of_not_lt hbeats

theorem scan_leads (w : Nat → Option Nat) (n : Nat) : Leads w n (scan w n) := by
  induction n with
  | zero => exact ⟨fun i hi => absurd hi (Nat.not_lt_zero i), .inl rfl⟩
  | succ n ih =>
    rw [scan, List.range_succ, List.foldl_append]
    exact ih.visit

theorem scan_eq_zero (h : ∀ i < n, w i = none) : scan w n = (0, 0) := by
  rcases (scan_leads w n).origin with hzero | ⟨-, hlt, hw, -⟩
  · exact hzero
  · rw [h _ hlt] at hw
    cases hw

/-- An entry is chosen exactly if it is the first of the largest; without a
positive weight the choice is the index zero. -/
theorem scan_eq_iff (hm : m < n) (hw : w m = some v) :
    (scan w n).1 = m ↔ (∀ i < n, ∀ u, w i = some u → u ≤ v) ∧
      (∀ i < m, ∀ u, w i = some u → u < v) ∧ (0 < v ∨ m = 0) := by
  obtain ⟨hupper, horigin⟩ := scan_leads w n
  generalize scan w n = best at hupper horigin ⊢
  obtain ⟨index, weight⟩ := best
  constructor
  · rintro rfl
    rcases horigin with hzero | ⟨hpos, -, hbest, hfirst⟩
    · obtain ⟨rfl, rfl⟩ := Prod.mk.inj hzero
      refine ⟨?_, fun i hi => absurd hi (Nat.not_lt_zero i), .inr rfl⟩
      intro i hi u hu
      exact (hupper i hi u hu).trans (Nat.zero_le v)
    · rw [hw] at hbest
      obtain rfl := Option.some.inj hbest
      exact ⟨hupper, hfirst, .inl hpos⟩
  · rintro ⟨hlargest, hfirst, hpos⟩
    have hbound := hupper m hm v hw
    rcases horigin with hzero | ⟨-, hlt, hbest, hbefore⟩
    · obtain ⟨rfl, rfl⟩ := Prod.mk.inj hzero
      exact (hpos.resolve_left (Nat.not_lt.mpr hbound)).symm
    · rcases Nat.lt_trichotomy index m with hless | heq | hmore
      · exact absurd hbound (Nat.not_le.mpr (hfirst index hless weight hbest))
      · exact heq
      · exact absurd (hlargest index hlt weight hbest) (Nat.not_le.mpr (hbefore m hmore v hw))

end FirstBest
