import Mathlib

/-!
# Prefix codes

A decoder that takes one symbol off the front of a text is exact for an encoder
when it takes a symbol if and only if the text starts with the symbol's code.
Then no code is the start of another, texts of symbols decode in one way, and
every text whatever is cut in one way into symbols and stray letters.
-/

namespace PrefixCode
universe u v
variable {α : Type u} {β : Type v}

structure Exact (Valid : α → Prop) (encode : α → List β)
    (next : List β → Option (α × List β)) : Prop where
  nonempty : ∀ a, Valid a → encode a ≠ []
  next_iff : ∀ text a rest, next text = some (a, rest) ↔ Valid a ∧ text = encode a ++ rest

/-- A text cut into symbols and letters at which no symbol starts. -/
inductive Cut (Valid : α → Prop) (encode : α → List β) : List β → List (α ⊕ β) → Prop
  | nil : Cut Valid encode [] []
  | symbol {a : α} {rest : List β} {pieces : List (α ⊕ β)} (ha : Valid a)
      (hrest : Cut Valid encode rest pieces) :
      Cut Valid encode (encode a ++ rest) (.inl a :: pieces)
  | stray {b : β} {rest : List β} {pieces : List (α ⊕ β)}
      (hb : ∀ a, Valid a → ¬ encode a <+: b :: rest) (hrest : Cut Valid encode rest pieces) :
      Cut Valid encode (b :: rest) (.inr b :: pieces)

def cut (next : List β → Option (α × List β)) : Nat → List β → List (α ⊕ β)
  | 0, _ => []
  | _ + 1, [] => []
  | fuel + 1, b :: rest =>
    match next (b :: rest) with
    | some (a, behind) => .inl a :: cut next fuel behind
    | none => .inr b :: cut next fuel rest

theorem Cut.symbols {Valid : α → Prop} {encode : α → List β} {symbols : List α}
    (hvalid : ∀ a ∈ symbols, Valid a) :
    Cut Valid encode (symbols.flatMap encode) (symbols.map .inl) := by
  induction symbols with
  | nil => exact .nil
  | cons a symbols ih =>
    apply Cut.symbol (hvalid a List.mem_cons_self)
    exact ih fun b hb => hvalid b (List.mem_cons_of_mem a hb)

namespace Exact

variable {Valid : α → Prop} {encode : α → List β} {next : List β → Option (α × List β)}
variable {a a' : α} {rest rest' text : List β} {pieces pieces' : List (α ⊕ β)}

theorem next_encode (h : Exact Valid encode next) (ha : Valid a) (rest : List β) :
    next (encode a ++ rest) = some (a, rest) :=
  (h.next_iff _ _ _).mpr ⟨ha, rfl⟩

theorem split (h : Exact Valid encode next) (ha : Valid a) (ha' : Valid a')
    (heq : encode a ++ rest = encode a' ++ rest') : a = a' ∧ rest = rest' := by
  have hnext := h.next_encode ha rest
  rw [heq, h.next_encode ha' rest'] at hnext
  have hpair := Option.some.inj hnext
  exact ⟨(congrArg Prod.fst hpair).symm, (congrArg Prod.snd hpair).symm⟩

theorem next_none (h : Exact Valid encode next) :
    next text = none ↔ ∀ a, Valid a → ¬ encode a <+: text := by
  constructor
  · rintro hnone a ha ⟨rest, rfl⟩
    rw [h.next_encode ha] at hnone
    cases hnone
  · intro hnot
    cases hnext : next text with
    | none => rfl
    | some p =>
      obtain ⟨ha, htext⟩ := (h.next_iff text p.1 p.2).mp hnext
      exact absurd ⟨p.2, htext.symm⟩ (hnot p.1 ha)

theorem cut_det (h : Exact Valid encode next) (hcut : Cut Valid encode text pieces)
    (hcut' : Cut Valid encode text pieces') : pieces = pieces' := by
  induction hcut generalizing pieces' with
  | nil =>
    generalize hempty : ([] : List β) = text at hcut'
    cases hcut' with
    | nil => rfl
    | symbol ha hrest =>
      exact absurd (List.append_eq_nil_iff.mp hempty.symm).1 (h.nonempty _ ha)
    | stray hb hrest => cases hempty
  | @symbol a rest pieces ha hrest ih =>
    generalize htext : encode a ++ rest = text at hcut'
    cases hcut' with
    | nil => exact absurd (List.append_eq_nil_iff.mp htext).1 (h.nonempty a ha)
    | symbol ha' hrest' =>
      obtain ⟨rfl, rfl⟩ := h.split ha ha' htext
      rw [ih hrest']
    | stray hb hrest' => exact absurd ⟨rest, htext⟩ (hb a ha)
  | @stray b rest pieces hb hrest ih =>
    generalize htext : b :: rest = text at hcut'
    cases hcut' with
    | nil => cases htext
    | symbol ha' hrest' => exact absurd ⟨_, htext.symm⟩ (hb _ ha')
    | stray hb' hrest' =>
      obtain ⟨rfl, rfl⟩ := List.cons.inj htext
      rw [ih hrest']

theorem cut_cut (h : Exact Valid encode next) {fuel : Nat} (hfuel : text.length ≤ fuel) :
    Cut Valid encode text (cut next fuel text) := by
  induction fuel generalizing text with
  | zero =>
    obtain rfl := List.length_eq_zero_iff.mp (Nat.le_zero.mp hfuel)
    exact .nil
  | succ fuel ih =>
    cases text with
    | nil => exact .nil
    | cons b rest =>
      rw [List.length_cons] at hfuel
      rw [cut]
      cases hnext : next (b :: rest) with
      | none => exact .stray (h.next_none.mp hnext) (ih (by omega))
      | some p =>
        obtain ⟨ha, htext⟩ := (h.next_iff _ p.1 p.2).mp hnext
        have hpos := List.length_pos_iff.mpr (h.nonempty p.1 ha)
        have hlength := congrArg List.length htext
        rw [List.length_cons, List.length_append] at hlength
        rw [htext]
        exact .symbol ha (ih (by omega))

theorem flatMap_inj (h : Exact Valid encode next) {symbols symbols' : List α}
    (hvalid : ∀ a ∈ symbols, Valid a) (hvalid' : ∀ a ∈ symbols', Valid a)
    (heq : symbols.flatMap encode = symbols'.flatMap encode) : symbols = symbols' := by
  have hcut : Cut Valid encode (symbols.flatMap encode) (symbols.map .inl) := .symbols hvalid
  rw [heq] at hcut
  exact List.map_injective_iff.mpr Sum.inl_injective (h.cut_det hcut (.symbols hvalid'))

end Exact

end PrefixCode
