import Mathlib

/-!
# Overlays

A picture is drawn by calls. A call either wipes the whole picture or gives a
value to the cells it covers; each point lies in one cell and shows a tint of
its value. What a sequence of calls leaves in a cell is the value of the last
call since the last wipe that covered it. A drawing routine whose single calls
act this way refines that picture over every sequence.
-/

namespace Overlay
universe u v w x y z
variable {κ : Type u} {ι : Type v} {γ : Type w} {σ : Type x} {π : Type y} {τ : Type z}

/-- `covers k i` is what call `k` puts in cell `i`, if it covers it. -/
def lastCover (wipes : κ → Bool) (covers : κ → ι → Option γ) (calls : List κ) (i : ι) : Option γ :=
  (calls.reverse.takeWhile fun k => !wipes k).findSome? fun k => covers k i

variable {wipes : κ → Bool} {covers : κ → ι → Option γ} {calls : List κ} {k : κ} {i : ι}

theorem lastCover_wipe (h : wipes k = true) : lastCover wipes covers (calls ++ [k]) i = none := by
  simp [lastCover, h]

theorem lastCover_draw (h : wipes k = false) :
    lastCover wipes covers (calls ++ [k]) i =
      (covers k i).or (lastCover wipes covers calls i) := by
  cases hk : covers k i <;> simp [lastCover, h, hk]

theorem lastCover_first (h : wipes k = true) :
    lastCover wipes covers (k :: calls) i = lastCover wipes covers calls i := by
  induction calls using List.reverseRecOn with
  | nil => simp [lastCover, h]
  | append_singleton calls c ih =>
    rw [← List.cons_append]
    cases hc : wipes c with
    | true => rw [lastCover_wipe hc, lastCover_wipe hc]
    | false => rw [lastCover_draw hc, lastCover_draw hc, ih]

theorem lastCover_append {later : List κ} (h : ∀ k ∈ later, wipes k = false) :
    lastCover wipes covers (calls ++ later) i =
      (lastCover wipes covers later i).or (lastCover wipes covers calls i) := by
  induction later using List.reverseRecOn with
  | nil => simp [lastCover]
  | append_singleton later c ih =>
    have hc : wipes c = false := h c (by simp)
    have hlater := ih fun k hk => h k (List.mem_append_left [c] hk)
    rw [← List.append_assoc, lastCover_draw hc, lastCover_draw hc, hlater, Option.or_assoc]

theorem lastCover_rounds {ε : Type*} {draw : ε → List κ} {rounds : List ε}
    (h : ∀ e ∈ rounds, ∀ k ∈ draw e, wipes k = false) :
    lastCover wipes covers (rounds.reverse.flatMap draw) i =
      rounds.findSome? fun e => lastCover wipes covers (draw e) i := by
  induction rounds with
  | nil => rfl
  | cons e rounds ih =>
    have hrest := ih fun e' he' => h e' (List.mem_cons_of_mem e he')
    rw [List.reverse_cons, List.flatMap_append, List.flatMap_singleton,
      lastCover_append (h e List.mem_cons_self), hrest, List.findSome?_cons]
    cases lastCover wipes covers (draw e) i <;> rfl

def run (step : κ → σ → σ) (calls : List κ) (s : σ) : σ := calls.foldl (fun t k => step k t) s

theorem run_snoc (step : κ → σ → σ) (calls : List κ) (k : κ) (s : σ) :
    run step (calls ++ [k]) s = step k (run step calls s) := by
  simp [run]

theorem run_keeps {step : κ → σ → σ} {I : σ → Prop} {s : σ} (hs : I s)
    (hstep : ∀ k t, I t → I (step k t)) : I (run step calls s) := by
  induction calls using List.reverseRecOn with
  | nil => exact hs
  | append_singleton calls k ih =>
    rw [run_snoc]
    exact hstep k _ ih

def picture (wipes : κ → Bool) (covers : κ → ι → Option γ) (cell : π → ι) (tint : γ → π → τ)
    (blank : τ) (calls : List κ) (p : π) : τ :=
  match lastCover wipes covers calls (cell p) with
  | some v => tint v p
  | none => blank

variable {cell : π → ι} {tint : γ → π → τ} {blank : τ} {step : κ → σ → σ}

theorem picture_map (encode : τ → σ) (calls : List κ) (p : π) :
    picture wipes covers cell (fun v p => encode (tint v p)) (encode blank) calls p =
      encode (picture wipes covers cell tint blank calls p) := by
  unfold picture
  cases lastCover wipes covers calls (cell p) <;> rfl

/-- The refinement rule: the invariant is kept, a wipe shows the blank, and any
other call retints the points of the cells it covers. -/
theorem run_shows (look : σ → π → τ) (I : σ → Prop) (Visible : π → Prop)
    (hkeep : ∀ k t, I t → I (step k t))
    (hwipe : ∀ k t, wipes k = true → I t → ∀ p, Visible p → look (step k t) p = blank)
    (hdraw : ∀ k t, wipes k = false → I t → ∀ p, Visible p →
      look (step k t) p = match covers k (cell p) with
        | some v => tint v p
        | none => look t p)
    {first : κ} (hfirst : wipes first = true) {s : σ} (hs : I s) {p : π} (hp : Visible p) :
    look (run step (first :: calls) s) p =
      picture wipes covers cell tint blank (first :: calls) p := by
  induction calls using List.reverseRecOn with
  | nil =>
    have hnone : lastCover wipes covers [first] (cell p) = none := by simp [lastCover, hfirst]
    rw [picture, hnone]
    exact hwipe first s hfirst hs p hp
  | append_singleton calls k ih =>
    have hI : I (run step (first :: calls) s) := run_keeps hs hkeep
    rw [← List.cons_append, run_snoc, picture]
    cases hk : wipes k with
    | true =>
      rw [lastCover_wipe hk]
      exact hwipe k _ hk hI p hp
    | false =>
      rw [lastCover_draw hk, hdraw k _ hk hI p hp]
      cases covers k (cell p) with
      | some v => rfl
      | none =>
        rw [Option.none_or]
        exact ih

end Overlay
