import ModularBootloader.Lib.RaisingLoop

/-!
# Recording the calls of a computation

A computation that may raise, together with the calls it has made up to its
end or to where it raised. Forgetting the record gives the computation back;
what is kept along the record is proved call by call.
-/

namespace CallLog
universe u
variable {κ ε α β : Type u}

structure Recorded (κ ε α : Type u) where
  calls : List κ
  result : Except ε α

namespace Recorded

def silent (x : Except ε α) : Recorded κ ε α := ⟨[], x⟩

def bind (x : Recorded κ ε α) (f : α → Recorded κ ε β) : Recorded κ ε β :=
  match x.result with
  | .ok a => ⟨x.calls ++ (f a).calls, (f a).result⟩
  | .error e => ⟨x.calls, .error e⟩

instance : Monad (Recorded κ ε) where
  pure a := silent (.ok a)
  bind := bind

theorem result_silent (x : Except ε α) : (silent x : Recorded κ ε α).result = x := rfl

def call (c : κ) (x : Except ε α) : Recorded κ ε α := ⟨[c], x⟩

def pass {σ : Type u} (f : Nat → σ → Recorded κ ε σ) : Nat → σ → Recorded κ ε σ
  | 0, s => pure s
  | n + 1, s => pass f n s >>= f n

theorem result_bind {x : Recorded κ ε α} {f : α → Recorded κ ε β} {y : Except ε α}
    {g : α → Except ε β} (hx : x.result = y) (hf : ∀ a, (f a).result = g a) :
    (x >>= f).result = y >>= g := by
  subst hx
  show (bind x f).result = _
  rw [bind]
  cases x.result with
  | error e => rfl
  | ok a => exact hf a

theorem result_pass {σ : Type u} {f : Nat → σ → Recorded κ ε σ} {g : Nat → σ → Except ε σ}
    (hf : ∀ n s, (f n s).result = g n s) (n : Nat) (s : σ) :
    (pass f n s).result = RaisingLoop.pass g n s := by
  induction n with
  | zero => rfl
  | succ n ih => exact result_bind ih (hf n)

end Recorded

/-- After a record with `pre`, the computation leaves one that is good, whether
or not it raises, and satisfies `post` if it returns. -/
def Keeps (good pre : List κ → Prop) (x : Recorded κ ε α) (post : α → List κ → Prop) : Prop :=
  ∀ l, pre l → good (l ++ x.calls) ∧ ∀ a, x.result = .ok a → post a (l ++ x.calls)

section Rules
variable {good pre : List κ → Prop} {x : Recorded κ ε α} {M post : α → List κ → Prop}

theorem Keeps.silent {y : Except ε α} (hgood : ∀ l, pre l → good l)
    (hpost : ∀ l a, pre l → y = .ok a → post a l) : Keeps good pre (.silent y) post := by
  intro l hl
  have hsame : l ++ (Recorded.silent y : Recorded κ ε α).calls = l := List.append_nil l
  rw [hsame]
  exact ⟨hgood l hl, fun a ha => hpost l a hl ha⟩

theorem Keeps.bind {f : α → Recorded κ ε β} {post : β → List κ → Prop}
    (hx : Keeps good pre x M) (hf : ∀ a, x.result = .ok a → Keeps good (M a) (f a) post) :
    Keeps good pre (x >>= f) post := by
  intro l hl
  obtain ⟨hgood, hmid⟩ := hx l hl
  cases hres : x.result with
  | error e =>
    have hall : x >>= f = ⟨x.calls, .error e⟩ := by
      show Recorded.bind x f = _
      rw [Recorded.bind, hres]
    rw [hall]
    exact ⟨hgood, fun b hb => nomatch hb⟩
  | ok a =>
    have hall : x >>= f = ⟨x.calls ++ (f a).calls, (f a).result⟩ := by
      show Recorded.bind x f = _
      rw [Recorded.bind, hres]
    rw [hall]
    dsimp only
    rw [← List.append_assoc]
    exact hf a hres _ (hmid a hres)

theorem Keeps.conseq {pre' : List κ → Prop} (h : Keeps good pre x M)
    (hpre : ∀ l, pre' l → pre l) (hpost : ∀ a l, M a l → post a l) : Keeps good pre' x post := by
  intro l hl
  obtain ⟨hgood, hmid⟩ := h l (hpre l hl)
  exact ⟨hgood, fun a ha => hpost a _ (hmid a ha)⟩

theorem Keeps.start (h : Keeps good pre x M) (hpre : pre []) : good x.calls := (h [] hpre).1

theorem Keeps.frame {F : Prop} (h : F → Keeps good pre x M) :
    Keeps good (fun l => pre l ∧ F) x fun a l => M a l ∧ F := by
  rintro l ⟨hl, hF⟩
  obtain ⟨hgood, hM⟩ := h hF l hl
  exact ⟨hgood, fun a ha => ⟨hM a ha, hF⟩⟩

theorem Keeps.pass {σ : Type u} {f : Nat → σ → Recorded κ ε σ} {I : Nat → σ → List κ → Prop}
    {s : σ} (n : Nat) (hgood : ∀ l, I 0 s l → good l)
    (hstep : ∀ i < n, ∀ a, Keeps good (I i a) (f i a) (I (i + 1))) :
    Keeps good (I 0 s) (Recorded.pass f n s) (I n) := by
  induction n with
  | zero =>
    intro l hl
    have hsame : l ++ (Recorded.pass f 0 s).calls = l := List.append_nil l
    rw [hsame]
    refine ⟨hgood l hl, ?_⟩
    intro a ha
    obtain rfl := Except.ok.inj ha
    exact hl
  | succ n ih =>
    exact (ih fun i hi => hstep i (Nat.lt_succ_of_lt hi)).bind
      fun a _ => hstep n (Nat.lt_succ_self n) a

end Rules

end CallLog
