import Mathlib

/-!
# Rings that keep the end of a log

A ring of `cap` slots is written at its head, which then moves on; a count
saturates at the capacity. What is written may depend on what the slot held.
Read backwards from the head, the ring shows the newest entries of the log of
everything written, as many as it has slots.
-/

namespace RingLog
universe u v
variable {α : Type u} {β : Type v} {cap : Nat} [NeZero cap]

structure Ring (α : Type u) (cap : Nat) where
  slots : Fin cap → α
  head : Fin cap
  count : Nat

namespace Ring

def push (write : α → α) (r : Ring α cap) : Ring α cap where
  slots := Function.update r.slots r.head (write (r.slots r.head))
  head := r.head + 1
  count := if r.count < cap then r.count + 1 else r.count

def back (r : Ring α cap) (k : Nat) : Fin cap := r.head - 1 - Fin.ofNat cap k

variable {r : Ring α cap} {write : α → α}

theorem push_back_zero : (r.push write).back 0 = r.head := by
  have hzero : Fin.ofNat cap 0 = 0 := rfl
  rw [back, hzero, sub_zero]
  exact add_sub_cancel_right r.head 1

theorem push_back_succ (k : Nat) : (r.push write).back (k + 1) = r.back k := by
  have hsucc : Fin.ofNat cap (k + 1) = Fin.ofNat cap k + 1 := by
    ext
    simp [Fin.val_add]
  have hhead : (r.push write).head = r.head + 1 := rfl
  rw [back, back, hhead, hsucc]
  abel

theorem back_ne_head {k : Nat} (hk : k + 1 < cap) : r.back k ≠ r.head := by
  intro h
  have hsucc : Fin.ofNat cap (k + 1) = 0 := by
    have hmoved : r.head - 1 - Fin.ofNat cap k = r.head := h
    have hsum : Fin.ofNat cap (k + 1) = 1 + Fin.ofNat cap k := by
      ext
      simp [Fin.val_add, Nat.add_comm]
    rw [hsum]
    rwa [sub_sub, sub_eq_self] at hmoved
  have hval := congrArg Fin.val hsucc
  rw [Fin.val_ofNat, Nat.mod_eq_of_lt hk, Fin.val_zero] at hval
  omega

end Ring

/-- The ring shows the log, newest entry first, through `rel`. -/
structure Shows (rel : β → α → Prop) (log : List β) (r : Ring α cap) : Prop where
  count : r.count = min log.length cap
  entry : ∀ k b, k < cap → log[k]? = some b → rel b (r.slots (r.back k))

variable {rel : β → α → Prop} {log : List β} {r : Ring α cap} {write : α → α} {b : β}

theorem shows_nil (h : r.count = 0) : Shows rel [] r where
  count := by simp [h]
  entry := by
    intro k b _ hb
    cases hb

theorem Shows.push (h : Shows rel log r) (hwrite : rel b (write (r.slots r.head))) :
    Shows rel (b :: log) (r.push write) where
  count := by
    have hcount := h.count
    rw [List.length_cons]
    change (if r.count < cap then r.count + 1 else r.count) = _
    split <;> omega
  entry := by
    intro k c hk hc
    have hslots : (r.push write).slots =
        Function.update r.slots r.head (write (r.slots r.head)) := rfl
    cases k with
    | zero =>
      rw [List.getElem?_cons_zero] at hc
      obtain rfl := Option.some.inj hc
      rw [Ring.push_back_zero, hslots, Function.update_self]
      exact hwrite
    | succ k =>
      rw [List.getElem?_cons_succ] at hc
      rw [Ring.push_back_succ, hslots, Function.update_of_ne (Ring.back_ne_head hk)]
      exact h.entry k c (Nat.lt_of_succ_lt hk) hc

theorem Shows.pushAll {write : β → α → α} (hwrite : ∀ b a, rel b (write b a)) (entries : List β)
    (h : Shows rel log r) :
    Shows rel (entries.reverse ++ log) (entries.foldl (fun s b => s.push (write b)) r) := by
  induction entries generalizing log r with
  | nil => exact h
  | cons b rest ih =>
    rw [List.reverse_cons, List.append_assoc]
    exact ih (h.push (hwrite b _))

end RingLog
