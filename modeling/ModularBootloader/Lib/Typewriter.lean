import Mathlib

/-!
# A typewriter on a sheet of fixed size

Keys strike a letter at the carriage and move it one column on, at the end of a
line to the next one; on the last line the carriage returns without feeding.
-/

namespace Typewriter
universe u
variable {β : Type u}

structure Place where
  row : Nat
  col : Nat
  deriving DecidableEq, Repr

inductive Key (β : Type u)
  | strike (b : β)
  | feed

structure Place.Inside (rows cols : Nat) (p : Place) : Prop where
  row : p.row < rows
  col : p.col < cols

def Place.feed (rows : Nat) (p : Place) : Place := ⟨min (rows - 1) (p.row + 1), 0⟩

def Place.next (rows cols : Nat) (p : Place) : Place :=
  if p.col + 1 < cols then ⟨p.row, p.col + 1⟩ else p.feed rows

def travel (rows cols : Nat) : List (Key β) → Place → Place
  | [], p => p
  | .strike _ :: keys, p => travel rows cols keys (p.next rows cols)
  | .feed :: keys, p => travel rows cols keys (p.feed rows)

def strikes (rows cols : Nat) : List (Key β) → Place → List (Place × β)
  | [], _ => []
  | .strike b :: keys, p => (p, b) :: strikes rows cols keys (p.next rows cols)
  | .feed :: keys, p => strikes rows cols keys (p.feed rows)

section Sheet
variable {rows cols : Nat} {p : Place}

theorem Place.Inside.feed (h : p.Inside rows cols) : (p.feed rows).Inside rows cols := by
  obtain ⟨hrow, hcol⟩ := h
  constructor <;> simp only [Place.feed] <;> omega

theorem Place.Inside.next (h : p.Inside rows cols) : (p.next rows cols).Inside rows cols := by
  rw [Place.next]
  split_ifs with hline
  · exact ⟨h.row, hline⟩
  · exact h.feed

theorem Place.Inside.travel (h : p.Inside rows cols) (keys : List (Key β)) :
    (travel rows cols keys p).Inside rows cols := by
  induction keys generalizing p with
  | nil => exact h
  | cons key keys ih =>
    cases key with
    | strike b => exact ih h.next
    | feed => exact ih h.feed

theorem travel_append (keys keys' : List (Key β)) (p : Place) :
    travel rows cols (keys ++ keys') p = travel rows cols keys' (travel rows cols keys p) := by
  induction keys generalizing p with
  | nil => rfl
  | cons key keys ih =>
    cases key with
    | strike b => exact ih _
    | feed => exact ih _

theorem strikes_append (keys keys' : List (Key β)) (p : Place) :
    strikes rows cols (keys ++ keys') p =
      strikes rows cols keys p ++ strikes rows cols keys' (travel rows cols keys p) := by
  induction keys generalizing p with
  | nil => rfl
  | cons key keys ih =>
    cases key with
    | strike b => exact congrArg _ (ih _)
    | feed => exact ih _

end Sheet

end Typewriter
