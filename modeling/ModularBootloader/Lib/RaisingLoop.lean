import Mathlib

/-!
# Loops that return early or raise

A search runs its body over a list until one round produces a value; any round
may raise. A counted pass threads a state through its rounds. The rules reduce
both to single rounds. A search on a state is one whose rounds change it only
when they produce their value. A computation that may raise is specified by the exact
condition under which it returns, and by what it then returns.
-/

namespace RaisingLoop
universe u v w
variable {ε : Type u} {ι : Type v} {α : Type w} {σ : Type w}

def firstSome (f : ι → Except ε (Option α)) : List ι → Except ε (Option α)
  | [] => .ok none
  | i :: rest =>
    match f i with
    | .error e => .error e
    | .ok (some a) => .ok (some a)
    | .ok none => firstSome f rest

section Search
variable {f : ι → Except ε (Option α)} {i : ι} {is js : List ι} {a : α}

theorem firstSome_skip (js : List ι) (h : ∀ i ∈ is, f i = .ok none) :
    firstSome f (is ++ js) = firstSome f js := by
  induction is with
  | nil => rfl
  | cons i is ih =>
    rw [List.cons_append, firstSome, h i List.mem_cons_self]
    exact ih fun j hj => h j (List.mem_cons_of_mem i hj)

theorem firstSome_none (h : ∀ i ∈ is, f i = .ok none) : firstSome f is = .ok none := by
  have hskip := firstSome_skip [] h
  rwa [List.append_nil] at hskip

theorem firstSome_found (h : f i = .ok (some a)) : firstSome f (i :: is) = .ok (some a) := by
  rw [firstSome, h]

theorem firstSome_head (js : List ι) (h : f i ≠ .ok none) : firstSome f (i :: js) = f i := by
  rw [firstSome]
  cases hi : f i with
  | error e => rfl
  | ok r =>
    cases r with
    | none => exact absurd hi h
    | some b => rfl

theorem firstSome_sound (h : firstSome f is = .ok (some a)) : ∃ i ∈ is, f i = .ok (some a) := by
  induction is with
  | nil => cases h
  | cons i is ih =>
    rw [firstSome] at h
    cases hi : f i with
    | error e =>
      rw [hi] at h
      cases h
    | ok r =>
      rw [hi] at h
      cases r with
      | none =>
        obtain ⟨j, hj, hfound⟩ := ih h
        exact ⟨j, List.mem_cons_of_mem i hj, hfound⟩
      | some b =>
        cases h
        exact ⟨i, List.mem_cons_self, hi⟩

end Search

theorem firstSome_range {f : Nat → Except ε (Option α)} {n k : Nat} (hk : k < n)
    (hbefore : ∀ i < k, f i = .ok none) :
    firstSome f (List.range n) = firstSome f (k :: (List.range' (k + 1) (n - (k + 1)))) := by
  have hsplit : List.range n = List.range k ++ k :: List.range' (k + 1) (n - (k + 1)) := by
    rw [List.range_eq_range', List.range_eq_range',
      show n = k + (n - k) by omega, ← List.range'_append_1, Nat.zero_add,
      show n - k = (n - (k + 1)) + 1 by omega, List.range'_succ]
    congr 3
    omega
  rw [hsplit, firstSome_skip]
  intro i hi
  exact hbefore i (List.mem_range.mp hi)

/-- Rounds that may change the state, and leave what they changed when they raise. -/
def firstSomeOn (f : ι → σ → Except ε (Option α) × σ) :
    List ι → σ → Except ε (Option α) × σ
  | [], s => (.ok none, s)
  | i :: rest, s =>
    match f i s with
    | (.error e, t) => (.error e, t)
    | (.ok (some a), t) => (.ok (some a), t)
    | (.ok none, t) => firstSomeOn f rest t

def settle (s : σ) : Except ε (Option (α × σ)) → Except ε (Option α) × σ
  | .error e => (.error e, s)
  | .ok none => (.ok none, s)
  | .ok (some (a, t)) => (.ok (some a), t)

theorem firstSomeOn_settle {f : ι → σ → Except ε (Option α) × σ}
    {g : σ → ι → Except ε (Option (α × σ))} (h : ∀ i s, f i s = settle s (g s i)) (is : List ι)
    (s : σ) : firstSomeOn f is s = settle s (firstSome (g s) is) := by
  induction is with
  | nil => rfl
  | cons i rest ih =>
    rw [firstSomeOn, firstSome, h]
    cases hi : g s i with
    | error e => rfl
    | ok found =>
      cases found with
      | none => exact ih
      | some r => rfl

def pass (f : Nat → σ → Except ε σ) : Nat → σ → Except ε σ
  | 0, s => .ok s
  | n + 1, s => (pass f n s).bind (f n)

section Pass
variable {f : Nat → σ → Except ε σ} {I : Nat → σ → Prop} {n : Nat} {s t : σ}

theorem pass_sound (h0 : I 0 s)
    (hstep : ∀ i < n, ∀ a b, pass f i s = .ok a → I i a → f i a = .ok b → I (i + 1) b)
    (h : pass f n s = .ok t) : I n t := by
  induction n generalizing t with
  | zero =>
    cases h
    exact h0
  | succ n ih =>
    rw [pass] at h
    cases hn : pass f n s with
    | error e =>
      rw [hn] at h
      cases h
    | ok a =>
      rw [hn] at h
      exact hstep n (Nat.lt_succ_self n) a t hn
        (ih (fun i hi => hstep i (Nat.lt_succ_of_lt hi)) hn) h

end Pass

structure ReturnsIff (c : Prop) (x : Except ε α) (P : α → Prop) : Prop where
  returns : c → ∃ a, x = .ok a
  sound : ∀ a, x = .ok a → c ∧ P a

section Conditions
variable {α β σ : Type w} {c c' d : Prop} {x : Except ε α} {P Q : α → Prop} {R : β → Prop}

theorem ReturnsIff.ok {a : α} (h : P a) : ReturnsIff True (.ok a : Except ε α) P := by
  refine ⟨fun _ => ⟨a, rfl⟩, ?_⟩
  intro b hb
  obtain rfl := Except.ok.inj hb
  exact ⟨trivial, h⟩

theorem ReturnsIff.found (h : ReturnsIff c x P) (hc : c) : ∃ a, x = .ok a ∧ P a := by
  obtain ⟨a, ha⟩ := h.returns hc
  exact ⟨a, ha, (h.sound a ha).2⟩

theorem ReturnsIff.conseq (h : ReturnsIff c x P) (hc : c ↔ c') (hP : ∀ a, c → P a → Q a) :
    ReturnsIff c' x Q := by
  refine ⟨fun h' => h.returns (hc.mpr h'), ?_⟩
  intro a ha
  obtain ⟨hholds, hpost⟩ := h.sound a ha
  exact ⟨hc.mp hholds, hP a hholds hpost⟩

theorem ReturnsIff.bind {f : α → Except ε β} (h : ReturnsIff c x P)
    (hf : ∀ a, c → P a → ReturnsIff d (f a) R) : ReturnsIff (c ∧ d) (x >>= f) R := by
  constructor
  · rintro ⟨hc, hd⟩
    obtain ⟨a, ha, hpost⟩ := h.found hc
    obtain ⟨b, hb⟩ := (hf a hc hpost).returns hd
    refine ⟨b, ?_⟩
    rw [ha]
    exact hb
  · intro b hb
    cases ha : x with
    | error e =>
      rw [ha] at hb
      cases hb
    | ok a =>
      rw [ha] at hb
      obtain ⟨hc, hpost⟩ := h.sound a ha
      obtain ⟨hd, hb'⟩ := (hf a hc hpost).sound b hb
      exact ⟨⟨hc, hd⟩, hb'⟩

theorem ReturnsIff.after {f : α → Except ε β} {a : α} (hx : x = .ok a)
    (hf : ReturnsIff d (f a) R) : ReturnsIff d (x >>= f) R := by
  rw [hx]
  exact hf

theorem ReturnsIff.pass {f : Nat → σ → Except ε σ} {I : Nat → σ → Prop} {c : Nat → Prop}
    {n : Nat} {s : σ} (h0 : I 0 s)
    (hstep : ∀ i < n, ∀ a, I i a → ReturnsIff (c i) (f i a) (I (i + 1))) :
    ReturnsIff (∀ i < n, c i) (RaisingLoop.pass f n s) (I n) := by
  induction n with
  | zero => exact (ReturnsIff.ok h0).conseq (by simp) fun _ _ h => h
  | succ n ih =>
    have hall := (ih fun i hi => hstep i (Nat.lt_succ_of_lt hi)).bind
      fun a _ ha => hstep n (Nat.lt_succ_self n) a ha
    refine hall.conseq ?_ fun _ _ h => h
    constructor
    · rintro ⟨hbefore, hlast⟩ i hi
      rcases Nat.lt_or_eq_of_le (Nat.lt_succ_iff.mp hi) with hlt | rfl
      · exact hbefore i hlt
      · exact hlast
    · intro h
      exact ⟨fun i hi => h i (Nat.lt_succ_of_lt hi), h n (Nat.lt_succ_self n)⟩

end Conditions

end RaisingLoop
