import Mathlib

/-!
# Bounded loops with early exits

A counted loop makes at most a given number of rounds. A round either leaves
the enclosing function with a result or hands the next round a state; a loop
whose rounds all continue ends through `finish`. The rules reduce a property of
a whole run to one round: what an exit was preceded by, what every continuing
round preserves, and how two runs in lockstep stay related.
-/

namespace BoundedLoop
universe u v w x
variable {σ : Type u} {ρ : Type v} {σ' : Type w} {ρ' : Type x}

def run (step : σ → ρ ⊕ σ) (finish : σ → ρ) : Nat → σ → ρ
  | 0, s => finish s
  | n + 1, s =>
    match step s with
    | .inl r => r
    | .inr t => run step finish n t

/-- `k` continuing rounds lead from the first state to the second. -/
inductive Reaches (step : σ → ρ ⊕ σ) (s : σ) : Nat → σ → Prop
  | start : Reaches step s 0 s
  | next {k : Nat} {t u : σ} : Reaches step s k t → step t = .inr u → Reaches step s (k + 1) u

variable {step : σ → ρ ⊕ σ} {finish : σ → ρ} {s t u : σ} {k n : Nat} {r : ρ}

theorem run_exit (h : step s = .inl r) : run step finish (n + 1) s = r := by
  simp only [run, h]

theorem run_next (h : step s = .inr t) : run step finish (n + 1) s = run step finish n t := by
  simp only [run, h]

theorem Reaches.head (h : step s = .inr t) (ht : Reaches step t k u) :
    Reaches step s (k + 1) u := by
  induction ht with
  | start => exact .next .start h
  | next _ hstep ih => exact .next ih hstep

theorem Reaches.run_eq (h : Reaches step s k t) :
    run step finish (k + n) s = run step finish n t := by
  induction h generalizing n with
  | start => rw [Nat.zero_add]
  | next _ hstep ih =>
    rw [show ∀ j, j + 1 + n = j + (n + 1) by intro j; omega, ih, run_next hstep]

theorem Reaches.run_finish (h : Reaches step s k t) : run step finish k s = finish t :=
  h.run_eq (n := 0)

theorem Reaches.run_exit (finish : σ → ρ) (h : Reaches step s k t) (hk : k < n)
    (hexit : step t = .inl r) :
    run step finish n s = r := by
  obtain ⟨d, rfl⟩ : ∃ d, n = k + (d + 1) := ⟨n - k - 1, by omega⟩
  rw [h.run_eq, BoundedLoop.run_exit hexit]

theorem run_cases (step : σ → ρ ⊕ σ) (finish : σ → ρ) (n : Nat) (s : σ) :
    (∃ k t, k < n ∧ Reaches step s k t ∧ step t = .inl (run step finish n s)) ∨
    ∃ t, Reaches step s n t ∧ run step finish n s = finish t := by
  induction n generalizing s with
  | zero => exact .inr ⟨s, .start, rfl⟩
  | succ n ih =>
    cases h : step s with
    | inl r => exact .inl ⟨0, s, Nat.succ_pos n, .start, by rw [BoundedLoop.run_exit h, h]⟩
    | inr t =>
      rw [run_next h]
      rcases ih t with ⟨k, u, hk, hr, hexit⟩ | ⟨u, hr, hfin⟩
      · exact .inl ⟨k + 1, u, Nat.succ_lt_succ hk, hr.head h, hexit⟩
      · exact .inr ⟨u, hr.head h, hfin⟩

theorem Reaches.invariant {I : Nat → σ → Prop} (h : Reaches step s k t) (h0 : I 0 s)
    (hs : ∀ j a b, j < k → I j a → step a = .inr b → I (j + 1) b) : I k t := by
  induction h with
  | start => exact h0
  | next _ hstep ih =>
    exact hs _ _ _ (Nat.lt_succ_self _) (ih fun j a b hj => hs j a b (by omega)) hstep

theorem Reaches.det {t' : σ} (h : Reaches step s k t) (h' : Reaches step s k t') : t = t' := by
  induction h generalizing t' with
  | start => cases h'; rfl
  | next _ hstep ih =>
    cases h' with
    | next hprev hstep' =>
      rw [ih hprev] at hstep
      exact Sum.inr.inj (hstep.symm.trans hstep')

theorem Reaches.earlier {j : Nat} (h : Reaches step s k t) (hj : j < k) :
    ∃ a b, Reaches step s j a ∧ step a = .inr b := by
  induction h with
  | start => omega
  | @next k' t' u' hprev hstep ih =>
    by_cases hlast : j = k'
    · subst hlast
      exact ⟨t', u', hprev, hstep⟩
    · exact ih (by omega)

theorem Reaches.upTo {j : Nat} (h : Reaches step s k t) (hj : j ≤ k) :
    ∃ a, Reaches step s j a := by
  rcases Nat.lt_or_eq_of_le hj with hlt | rfl
  · obtain ⟨a, -, ha, -⟩ := h.earlier hlt
    exact ⟨a, ha⟩
  · exact ⟨t, h⟩

theorem reaches_of_progress {I : Nat → σ → Prop} (h0 : I 0 s)
    (hs : ∀ j a, j < k → I j a → ∃ b, step a = .inr b ∧ I (j + 1) b) :
    ∃ t, Reaches step s k t ∧ I k t := by
  induction k with
  | zero => exact ⟨s, .start, h0⟩
  | succ k ih =>
    obtain ⟨t, hr, hi⟩ := ih fun j a hj => hs j a (by omega)
    obtain ⟨u, hstep, hu⟩ := hs k t (Nat.lt_succ_self k) hi
    exact ⟨u, .next hr hstep, hu⟩

/-- Without a bound on its rounds, the loop leaves with `r`. -/
def Returns (step : σ → ρ ⊕ σ) (s : σ) (r : ρ) : Prop :=
  ∃ k t, Reaches step s k t ∧ step t = .inl r

theorem reaches_of_not_returns (h : ∀ r, ¬ Returns step s r) (k : Nat) :
    ∃ t, Reaches step s k t := by
  induction k with
  | zero => exact ⟨s, .start⟩
  | succ k ih =>
    obtain ⟨t, ht⟩ := ih
    cases hstep : step t with
    | inl r => exact absurd ⟨k, t, ht, hstep⟩ (h r)
    | inr u => exact ⟨u, .next ht hstep⟩

theorem Reaches.tail (h : step s = .inr t) (hu : Reaches step s (k + 1) u) :
    Reaches step t k u := by
  induction k generalizing u with
  | zero =>
    cases hu with
    | next hprev hstep =>
      cases hprev
      rw [h] at hstep
      obtain rfl := Sum.inr.inj hstep
      exact .start
  | succ k ih =>
    cases hu with
    | next hprev hstep => exact .next (ih hprev) hstep

theorem returns_exit {r' : ρ} (h : step s = .inl r) : Returns step s r' ↔ r' = r := by
  constructor
  · rintro ⟨k, u, hu, hexit⟩
    cases k with
    | zero =>
      cases hu
      exact Sum.inl.inj (hexit.symm.trans h)
    | succ k =>
      obtain ⟨a, b, ha, hb⟩ := hu.earlier (Nat.succ_pos k)
      cases ha
      rw [h] at hb
      cases hb
  · rintro rfl
    exact ⟨0, s, .start, h⟩

theorem returns_next (h : step s = .inr t) : Returns step s r ↔ Returns step t r := by
  constructor
  · rintro ⟨k, u, hu, hexit⟩
    cases k with
    | zero =>
      cases hu
      rw [h] at hexit
      cases hexit
    | succ k => exact ⟨k, u, hu.tail h, hexit⟩
  · rintro ⟨k, u, hu, hexit⟩
    exact ⟨k + 1, u, hu.head h, hexit⟩

theorem Reaches.returns_iff (h : Reaches step s k t) : Returns step s r ↔ Returns step t r := by
  induction h with
  | start => exact Iff.rfl
  | next _ hstep ih => exact ih.trans (returns_next hstep)

theorem invariant_returns {I : σ → Prop} {Q : ρ → Prop} (h0 : I s)
    (hstep : ∀ a b, I a → step a = .inr b → I b) (hexit : ∀ a r, I a → step a = .inl r → Q r) :
    (∀ k t, Reaches step s k t → I t) ∧ ∀ r, Returns step s r → Q r := by
  have hreach : ∀ k t, Reaches step s k t → I t := by
    intro k t ht
    exact ht.invariant (I := fun _ => I) h0 fun _ a b _ => hstep a b
  refine ⟨hreach, ?_⟩
  rintro r ⟨k, t, ht, hr⟩
  exact hexit t r (hreach k t ht) hr

theorem not_returns {I : σ → Prop} (h0 : I s) (hstep : ∀ a, I a → ∃ b, step a = .inr b ∧ I b) :
    ¬ Returns step s r := by
  refine (invariant_returns (I := I) (Q := fun _ => False) h0 ?_ ?_).2 r
  · intro a b ha hb
    obtain ⟨b', hb', hkept⟩ := hstep a ha
    rw [hb] at hb'
    obtain rfl := Sum.inr.inj hb'
    exact hkept
  · intro a r ha hr
    obtain ⟨b, hb, -⟩ := hstep a ha
    rw [hr] at hb
    cases hb

theorem run_invariant {I : σ → Prop} {Q : ρ → Prop} (h0 : I s)
    (hstep : ∀ a b, I a → step a = .inr b → I b) (hexit : ∀ a r, I a → step a = .inl r → Q r)
    (hfin : ∀ a, I a → Q (finish a)) : Q (run step finish n s) := by
  induction n generalizing s with
  | zero => exact hfin s h0
  | succ n ih =>
    cases h : step s with
    | inl r =>
      rw [BoundedLoop.run_exit h]
      exact hexit s r h0 h
    | inr t =>
      rw [run_next h]
      exact ih (hstep s t h0 h)

/-- Where every round puts what it adds in front of a log, the log of a run is what the rounds it
reached have added. -/
theorem run_log {τ : Type w} (log : σ → List τ) (final : ρ → List τ) {added : σ → List τ}
    (hnext : ∀ k a b, k < n → Reaches step s k a → step a = .inr b → log b = added a ++ log a)
    (hexit : ∀ k a r, k < n → Reaches step s k a → step a = .inl r → final r = added a ++ log a)
    (hfin : ∀ a, final (finish a) = log a) :
    ∃ all, final (run step finish n s) = all ++ log s ∧
      ∀ x, x ∈ all ↔ ∃ k a, k < n ∧ Reaches step s k a ∧ x ∈ added a := by
  induction n generalizing s with
  | zero => exact ⟨[], hfin s, by simp⟩
  | succ n ih =>
    cases h : step s with
    | inl r =>
      refine ⟨added s, ?_, ?_⟩
      · rw [BoundedLoop.run_exit h]
        exact hexit 0 s r (Nat.succ_pos n) .start h
      · intro x
        constructor
        · intro hx
          exact ⟨0, s, Nat.succ_pos n, .start, hx⟩
        · rintro ⟨k, a, -, ha, hx⟩
          cases k with
          | zero =>
            cases ha
            exact hx
          | succ k =>
            obtain ⟨b, c, hb, hc⟩ := ha.earlier (Nat.succ_pos k)
            cases hb
            rw [h] at hc
            cases hc
    | inr t =>
      obtain ⟨all, hall, hmem⟩ := ih (s := t)
        (fun k a b hk ha => hnext (k + 1) a b (by omega) (ha.head h))
        (fun k a r hk ha => hexit (k + 1) a r (by omega) (ha.head h))
      refine ⟨all ++ added s, ?_, ?_⟩
      · rw [run_next h, hall, hnext 0 s t (Nat.succ_pos n) .start h, List.append_assoc]
      · intro x
        rw [List.mem_append, hmem]
        constructor
        · rintro (⟨k, a, hk, ha, hx⟩ | hx)
          · exact ⟨k + 1, a, by omega, ha.head h, hx⟩
          · exact ⟨0, s, Nat.succ_pos n, .start, hx⟩
        · rintro ⟨k, a, hk, ha, hx⟩
          cases k with
          | zero =>
            cases ha
            exact .inr hx
          | succ k => exact .inl ⟨k, a, by omega, ha.tail h, hx⟩

/-- Two loops in lockstep: related states stay related and exit together. -/
theorem run_related {step' : σ' → ρ' ⊕ σ'} {finish' : σ' → ρ'} {R : Nat → σ → σ' → Prop}
    {Q : ρ → ρ' → Prop} (n : Nat)
    (hstep : ∀ k a b, k < n → R k a b → Sum.LiftRel Q (R (k + 1)) (step a) (step' b))
    (hfin : ∀ a b, R n a b → Q (finish a) (finish' b)) {a : σ} {b : σ'} (h : R 0 a b) :
    Q (run step finish n a) (run step' finish' n b) := by
  suffices hgen : ∀ m k a b, k + m = n → R k a b →
      Q (run step finish m a) (run step' finish' m b) from hgen n 0 a b (by omega) h
  intro m
  induction m with
  | zero =>
    intro k a b hk hr
    obtain rfl : k = n := by omega
    exact hfin a b hr
  | succ m ih =>
    intro k a b hk hr
    have hround := hstep k a b (by omega) hr
    simp only [run]
    generalize step a = x at hround
    generalize step' b = y at hround
    cases hround with
    | inl hq => exact hq
    | inr hrel => exact ih (k + 1) _ _ (by omega) hrel

section Embedded
variable {step' : σ' → ρ' ⊕ σ'} {f : σ' → σ} {a b : σ'}

theorem Reaches.embedded (hstep : ∀ a b, step' a = .inr b → step (f a) = .inr (f b))
    (h : Reaches step' a k b) : Reaches step (f a) k (f b) := by
  induction h with
  | start => exact .start
  | next _ hnext ih => exact .next ih (hstep _ _ hnext)

theorem Returns.of_embedded (hstep : ∀ a b, step' a = .inr b → step (f a) = .inr (f b))
    (h : Returns step (f a) r) : ∃ r', Returns step' a r' := by
  obtain ⟨k, u, hu, hexit⟩ := h
  induction k generalizing a with
  | zero =>
    cases hround : step' a with
    | inl r' => exact ⟨r', 0, a, .start, hround⟩
    | inr b =>
      cases hu
      rw [hstep a b hround] at hexit
      cases hexit
  | succ k ih =>
    cases hround : step' a with
    | inl r' => exact ⟨r', 0, a, .start, hround⟩
    | inr b =>
      obtain ⟨r', hr'⟩ := ih (hu.tail (hstep a b hround))
      exact ⟨r', (returns_next hround).mpr hr'⟩

end Embedded

end BoundedLoop
