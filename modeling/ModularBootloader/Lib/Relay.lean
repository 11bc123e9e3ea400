import Mathlib

/-!
# A value handed over in three steps

A value is asked for, handed over, and put in force later; only the last value
asked for before a hand-over counts. `changes` counts the times another value
was put in force.
-/

namespace Relay
universe u
variable {α : Type u}

structure State (α : Type u) where
  asked : α
  handed : α
  inForce : α
  changes : Nat

inductive Op (α : Type u)
  | ask (a : α)
  | hand
  | apply

def start (a : α) : State α := ⟨a, a, a, 0⟩

variable [DecidableEq α]

def step (r : State α) : Op α → State α
  | .ask a => { r with asked := a }
  | .hand => { r with handed := r.asked }
  | .apply =>
    { r with
      inForce := r.handed
      changes := if r.handed = r.inForce then r.changes else r.changes + 1 }

def run (ops : List (Op α)) (r : State α) : State α := ops.foldl step r

end Relay
