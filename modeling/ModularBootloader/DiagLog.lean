import ModularBootloader.Bancode
import ModularBootloader.Lib.RingLog

/-!
# What the diagnostic recorder keeps

The recorder is meant as a bounded log: the last eight codes raised, newest
first, each with its trap codepoint and slot and marked as fired. The ring, its
head and its count keep that log after any number of raises. The mark is the
one field `mbl_diag_raise` does not store to.
-/

namespace ModularBootloader
open RingLog

/-- The record `mbl.h` documents for a raised code. -/
def documentedRecord (code : Bancode) : MblDiag where
  fired := true
  slot := if Bancode.toTrap code = Bancode.invalidCodepoint then 15
    else Bancode.toTrap code - 0x7FFFFFF0
  trapCp := Bancode.toTrap code
  code := code

namespace DiagRing

def ofCodes (codes : List Bancode) : DiagRing :=
  codes.foldl (fun g code => mblDiagRaise code g) initial

def readBack (g : DiagRing) (k : Nat) : MblDiag := g.ring (prev^[k] (prev g.head))

/-- The recorder as the bounded log of `codes`, each kept as `record` has it. -/
structure KeepsLog (record : Bancode → MblDiag) (codes : List Bancode) (g : DiagRing) : Prop where
  count : mblDiagCount g = min codes.length 8
  last : codes ≠ [] → mblDiagLast g = some (g.readBack 0)
  records : ∀ k < min codes.length 8,
    (codes.reverse[k]?).map record = some (g.readBack k)

instance : NeZero mblDiagMax := ⟨by decide⟩

def toRing (g : DiagRing) : Ring MblDiag mblDiagMax := ⟨g.ring, g.head, g.count⟩

theorem next_eq (i : Fin mblDiagMax) : next i = i + 1 := rfl

theorem prev_eq (i : Fin mblDiagMax) : prev i = i - 1 := by
  rw [eq_sub_iff_add_eq, ← next_eq]
  have hi := i.isLt
  ext
  simp only [prev, next, mblDiagMax] at *
  omega

theorem toRing_raise (code : Bancode) (g : DiagRing) :
    (mblDiagRaise code g).toRing = g.toRing.push fun old => record old code := rfl

theorem toRing_ofCodes (codes : List Bancode) (g : DiagRing) :
    (codes.foldl (fun g code => mblDiagRaise code g) g).toRing =
      codes.foldl (fun r code => r.push fun old => record old code) g.toRing := by
  induction codes generalizing g with
  | nil => rfl
  | cons code rest ih =>
    rw [List.foldl_cons, List.foldl_cons, ih, toRing_raise]

theorem readBack_eq (g : DiagRing) (k : Nat) : g.readBack k = g.toRing.slots (g.toRing.back k) := by
  have hback : ∀ n (i : Fin mblDiagMax), prev^[n] i = i - Fin.ofNat mblDiagMax n := by
    intro n
    induction n with
    | zero =>
      intro i
      exact (sub_zero i).symm
    | succ n ih =>
      intro i
      have hsucc : Fin.ofNat mblDiagMax (n + 1) = 1 + Fin.ofNat mblDiagMax n := by
        ext
        simp [Fin.val_add, Nat.add_comm]
      rw [Function.iterate_succ_apply, ih, prev_eq, hsucc, sub_sub]
  rw [readBack, hback, prev_eq]
  rfl

theorem record_eq {old : MblDiag} (h : old.fired = false) (code : Bancode) :
    record old code = { documentedRecord code with fired := false } := by
  unfold record documentedRecord
  rw [h]
  by_cases htrap : Bancode.toTrap code = Bancode.invalidCodepoint
  · simp [htrap, Bancode.trapSlotCount]
  · simp [htrap, Bancode.kernelTrapMin]

theorem record_fields (old : MblDiag) (code : Bancode) :
    { record old code with fired := true } = documentedRecord code := by
  have hrecord : record { old with fired := false } code =
      { documentedRecord code with fired := false } := record_eq rfl code
  have hmarked := congrArg (fun d : MblDiag => { d with fired := true }) hrecord
  exact hmarked

theorem ofCodes_fired (codes : List Bancode) (i : Fin mblDiagMax) :
    ((ofCodes codes).ring i).fired = false := by
  induction codes using List.reverseRecOn generalizing i with
  | nil => rfl
  | append_singleton codes code ih =>
    rw [ofCodes, List.foldl_append, List.foldl_cons, List.foldl_nil]
    change (Function.update (ofCodes codes).ring _ _ i).fired = false
    rw [Function.update_apply]
    split
    · exact ih _
    · exact ih i

theorem ofCodes_keepsLog (codes : List Bancode) :
    KeepsLog (fun code => { documentedRecord code with fired := false }) codes (ofCodes codes) := by
  have hempty : Shows (fun code d => { d with fired := true } = documentedRecord code) []
      initial.toRing := shows_nil rfl
  have hshows := hempty.pushAll (fun code old => record_fields old code) codes
  rw [List.append_nil, ← toRing_ofCodes] at hshows
  have hcount := hshows.count
  rw [List.length_reverse] at hcount
  refine ⟨?_, ?_, ?_⟩
  · change ((ofCodes codes).count : Int) = _
    rw [show (ofCodes codes).count = min codes.length 8 from hcount]
  · intro hne
    have hpos : (ofCodes codes).count ≠ 0 := by
      have hlength := List.length_pos_of_ne_nil hne
      have heq : (ofCodes codes).count = min codes.length 8 := hcount
      omega
    exact if_neg hpos
  · intro k hk
    have hlt : k < codes.reverse.length := by
      rw [List.length_reverse]
      omega
    have hentry := hshows.entry k _ (show k < 8 by omega) (List.getElem?_eq_getElem hlt)
    have hread : { (ofCodes codes).readBack k with fired := true } =
        documentedRecord codes.reverse[k] := by
      rw [readBack_eq]
      exact hentry
    have hfired : ((ofCodes codes).readBack k).fired = false := ofCodes_fired codes _
    rw [List.getElem?_eq_getElem hlt, Option.map_some, ← hread, ← hfired]

/-- The recorder keeps the log in all that is documented but the mark, which no
record has. -/
theorem ofCodes_unmarked {codes : List Bancode} (h : codes ≠ []) :
    KeepsLog (fun code => { documentedRecord code with fired := false }) codes (ofCodes codes) ∧
      ¬ KeepsLog documentedRecord codes (ofCodes codes) := by
  refine ⟨ofCodes_keepsLog codes, ?_⟩
  intro hlog
  have hlength := List.length_pos_of_ne_nil h
  have hnewest := hlog.records 0 (by omega)
  cases hcode : codes.reverse[0]? with
  | none =>
    rw [hcode] at hnewest
    cases hnewest
  | some code =>
    rw [hcode] at hnewest
    have hmark := congrArg MblDiag.fired (Option.some.inj hnewest)
    have hfired : ((ofCodes codes).readBack 0).fired = false := ofCodes_fired codes _
    rw [hfired] at hmark
    cases hmark

theorem ioError_unmarked :
    KeepsLog (fun code => { documentedRecord code with fired := false }) [mblBanIoError]
        (ofCodes [mblBanIoError]) ∧
      ¬ KeepsLog documentedRecord [mblBanIoError] (ofCodes [mblBanIoError]) :=
  ofCodes_unmarked (List.cons_ne_nil _ _)

theorem ioError_notFired :
    ¬ KeepsLog documentedRecord [mblBanIoError] (ofCodes [mblBanIoError]) := by
  intro h
  exact absurd (h.records 0 (by decide)) (by decide)

end DiagRing

end ModularBootloader
