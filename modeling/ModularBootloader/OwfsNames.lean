import ModularBootloader.OwfsListing
import ModularBootloader.Sutf8Encode

/-!
# Entry names

What `owfs_name_to_ascii` makes of a name of well-formed sequences, and how far
past the name field it reads.
-/

namespace ModularBootloader
open ByteStore

def encodeAll (cps : List SucsChar) : List UInt8 := cps.flatMap sutf8Encode

def shownAs (cp : SucsChar) : UInt8 := if cp ≤ 0x7F then cp.toUInt8 else 0x3F

theorem Spells.left {inBuf : Bytes} {a b : List UInt8} (h : Spells inBuf (a ++ b)) :
    Spells inBuf a := by
  intro i c hc
  apply h i c
  rw [List.getElem?_append_left]
  · exact hc
  · exact (List.getElem?_eq_some_iff.mp hc).1

theorem Spells.right {inBuf : Bytes} {a b : List UInt8} (h : Spells inBuf (a ++ b)) :
    Spells (window inBuf a.length) b := by
  intro i c hc
  apply h (a.length + i) c
  rw [List.getElem?_append_right (Nat.le_add_right _ _), Nat.add_sub_cancel_left]
  exact hc

def seqStart (name : Bytes) (len : Nat) : Nat → Nat
  | 0 => 0
  | k + 1 =>
    let i := seqStart name len k
    let d := sutf8DecodeChar (window name i) (len - i)
    i + if d.1 = 0 then 1 else d.1

def nameLoads (name : Bytes) (len : Nat) : Nat → Nat → List Nat
  | 0, _ => []
  | room + 1, i =>
    if i < len then
      let d := sutf8DecodeChar (window name i) (len - i)
      (sutf8DecodeLoads (window name i) (len - i)).map (i + ·) ++
        nameLoads name len room (i + if d.1 = 0 then 1 else d.1)
    else []

/-- Where the loads of the sequence at `i` end: behind its framing where the length leaves
room for it, behind its lead byte otherwise. -/
def seqLoaded (name : Bytes) (len i : Nat) : Nat :=
  if len - i < framing (name i) then i + 1 else i + framing (name i)

/-- Bytes behind the first `n` can complete the sequence at `i` that these leave unfinished. -/
def LeftOpen (name : Bytes) (len n i : Nat) : Prop :=
  ∃ name' : Bytes, (∀ j < n, name' j = name j) ∧
    n < i + (sutf8DecodeChar (window name' i) (len - i)).1

def shownAt (name : Bytes) (len i : Nat) : UInt8 :=
  let d := sutf8DecodeChar (window name i) (len - i)
  if d.1 = 0 then 0x3F else if d.2 ≤ 0x7F then d.2.toUInt8 else 0x3F

section Loads
variable {name : Bytes} {len n : Nat}

theorem seqStart_mono (name : Bytes) (len : Nat) : Monotone (seqStart name len) := by
  apply monotone_nat_of_le_succ
  intro k
  rw [seqStart]
  exact Nat.le_add_right _ _

theorem decodeLoads_within (name : Bytes) (n : Nat) {i : Nat} (hi : i < len) :
    (∀ a ∈ (sutf8DecodeLoads (window name i) (len - i)).map (i + ·), a < n) ↔
      seqLoaded name len i ≤ n := by
  have hpos := framing_pos (name i)
  have hsize : len - i ≠ 0 := by omega
  rw [sutf8DecodeLoads, if_neg hsize, seqLoaded]
  by_cases hshort : len - i < framing (name i)
  · have hloads : (if len - i < framing (window name i 0) then [0]
        else List.range (framing (window name i 0))) = [0] := if_pos hshort
    rw [hloads, if_pos hshort]
    simp only [List.map_cons, List.map_nil, List.mem_singleton, forall_eq]
    exact Nat.lt_iff_add_one_le
  · have hloads : (if len - i < framing (window name i 0) then [0]
        else List.range (framing (window name i 0))) = List.range (framing (name i)) :=
      if_neg hshort
    rw [hloads, if_neg hshort]
    simp only [List.mem_map, List.mem_range]
    constructor
    · intro h
      have hlast := h (i + (framing (name i) - 1)) ⟨_, by omega, rfl⟩
      omega
    · rintro h a ⟨j, hj, rfl⟩
      omega

theorem nameLoads_within (name : Bytes) (len n room k : Nat) :
    (∀ a ∈ nameLoads name len room (seqStart name len k), a < n) ↔
      ∀ j < room, seqStart name len (k + j) < len →
        seqLoaded name len (seqStart name len (k + j)) ≤ n := by
  induction room generalizing k with
  | zero => simp [nameLoads]
  | succ room ih =>
    rw [nameLoads]
    by_cases hin : seqStart name len k < len
    · have hnext := ih (k + 1)
      have hfirst := decodeLoads_within name n hin
      rw [if_pos hin]
      dsimp only
      simp only [List.mem_append, or_imp, forall_and]
      rw [hfirst]
      constructor
      · rintro ⟨hhere, hrest⟩ j hj hlt
        cases j with
        | zero => exact hhere
        | succ j =>
          have hshift : k + (j + 1) = k + 1 + j := by omega
          rw [hshift] at hlt ⊢
          exact hnext.mp hrest j (by omega) hlt
      · intro hall
        refine ⟨hall 0 (by omega) hin, hnext.mpr ?_⟩
        intro j hj hlt
        have hshift : k + 1 + j = k + (j + 1) := by omega
        rw [hshift] at hlt ⊢
        exact hall (j + 1) (by omega) hlt
    · rw [if_neg hin]
      constructor
      · intro _ j _ hlt
        have hmono := seqStart_mono name len (Nat.le_add_right k j)
        omega
      · intro _ a ha
        exact absurd ha List.not_mem_nil

end Loads

section Text
variable {name name' : Bytes} {len n : Nat}

theorem nameLoop_getElem? (name : Bytes) (len room k j : Nat) :
    (nameLoop name len room (seqStart name len k))[j]? =
      if j < room ∧ seqStart name len (k + j) < len then
        some (shownAt name len (seqStart name len (k + j))) else none := by
  induction room generalizing k j with
  | zero => simp [nameLoop]
  | succ room ih =>
    by_cases hin : seqStart name len k < len
    · have hcons : nameLoop name len (room + 1) (seqStart name len k) =
          shownAt name len (seqStart name len k) ::
            nameLoop name len room (seqStart name len (k + 1)) := by
        simp only [nameLoop, if_pos hin, shownAt, seqStart]
        split_ifs <;> rfl
      rw [hcons]
      cases j with
      | zero => simp [hin]
      | succ j => simp [ih, show k + (j + 1) = k + 1 + j by omega]
    · have hmono := seqStart_mono name len (Nat.le_add_right k j)
      have hout : ¬ (j < room + 1 ∧ seqStart name len (k + j) < len) := by omega
      rw [nameLoop, if_neg hin, if_neg hout, List.getElem?_nil]

theorem decode_of_inside (hsame : ∀ j < n, name' j = name j) {i : Nat}
    (hi : i + framing (name i) ≤ n) :
    sutf8DecodeChar (window name' i) (len - i) = sutf8DecodeChar (window name i) (len - i) := by
  symm
  apply sutf8DecodeChar_framing
  intro j hj
  have hbound : j < framing (name i) := hj
  exact (hsame (i + j) (by omega)).symm

theorem decode_of_closed (hsame : ∀ j < n, name' j = name j) {i : Nat} (hi : i < n)
    (hclosed : ¬ LeftOpen name len n i) :
    sutf8DecodeChar (window name' i) (len - i) = sutf8DecodeChar (window name i) (len - i) := by
  by_cases hinside : i + framing (name i) ≤ n
  · exact decode_of_inside hsame hinside
  · -- every completion is refused, this one and the one on disk
    have hrefused : ∀ m : Bytes, (∀ j < n, m j = name j) →
        sutf8DecodeChar (window m i) (len - i) = refused := by
      intro m hm
      rcases sutf8DecodeChar_cases (window m i) (len - i) with h | ⟨_, hused, _⟩
      · exact h
      · rw [window_apply, Nat.add_zero, hm i hi] at hused
        exact absurd ⟨m, hm, by omega⟩ hclosed
    rw [hrefused name' hsame, hrefused name fun _ _ => rfl]

theorem seqStart_of_closed (hsame : ∀ j < n, name' j = name j) {k : Nat}
    (hclosed : ∀ j < k, seqStart name len j < len →
      seqStart name len j < n ∧ ¬ LeftOpen name len n (seqStart name len j)) :
    seqStart name' len k = seqStart name len k := by
  induction k with
  | zero => rfl
  | succ k ih =>
    have hstart := ih fun j hj => hclosed j (by omega)
    rw [seqStart, seqStart, hstart]
    by_cases hin : seqStart name len k < len
    · obtain ⟨hlt, hopen⟩ := hclosed k (Nat.lt_succ_self k) hin
      rw [decode_of_closed hsame hlt hopen]
    · have hsize : len - seqStart name len k = 0 := by omega
      simp [sutf8DecodeChar, hsize]

theorem closed_of_loaded {i : Nat} (h : seqLoaded name len i ≤ n) :
    i < n ∧ ¬ LeftOpen name len n i := by
  have hpos := framing_pos (name i)
  have hi : i < n := by
    rw [seqLoaded] at h
    split_ifs at h <;> omega
  refine ⟨hi, ?_⟩
  rintro ⟨name', hsame, hpast⟩
  rcases sutf8DecodeChar_cases (window name' i) (len - i) with hnone | ⟨hfits, hused, _⟩
  · simp only [hnone, refused] at hpast
    omega
  · rw [window_apply, Nat.add_zero, hsame i hi] at hfits hused
    rw [seqLoaded, if_neg (by omega)] at h
    omega

theorem shownAt_of_long {i : Nat} (hlong : 2 ≤ framing (name i)) : shownAt name len i = 0x3F := by
  rcases sutf8DecodeChar_cases (window name i) (len - i) with h | ⟨_, _, hhigh⟩
  · simp [shownAt, h, refused]
  · have hcp := UInt32.not_le.mpr (hhigh hlong)
    simp [shownAt, hcp]

theorem shownAt_same (hsame : ∀ j < n, name' j = name j) {i : Nat} (hi : i < n) :
    shownAt name' len i = shownAt name len i := by
  by_cases hinside : i + framing (name i) ≤ n
  · simp only [shownAt, decode_of_inside hsame hinside]
  · have hlong : 2 ≤ framing (name i) := by omega
    rw [shownAt_of_long hlong, shownAt_of_long (by rwa [hsame i hi])]

theorem shownAt_ascii {i : Nat} (hi : i < len) (ha : name i < 0x80) :
    shownAt name len i = name i := by
  have hdecode : sutf8DecodeChar (window name i) (len - i) = (1, (name i).toUInt32) :=
    sutf8DecodeChar_ascii (by omega) ha
  have hall : ∀ u : UInt8, u < 0x80 → u.toUInt32 ≤ 0x7F ∧ u.toUInt32.toUInt8 = u := by
    decide +kernel
  obtain ⟨hlow, hback⟩ := hall _ ha
  simp [shownAt, hdecode, hlow, hback]

theorem shownAt_continuation {i : Nat} (hc : isContinuation (name i) = true) :
    shownAt name len i = 0x3F := by
  have hdecode : sutf8DecodeChar (window name i) (len - i) = refused :=
    sutf8DecodeChar_continuation hc _
  simp [shownAt, hdecode, refused]

def filled (name : Bytes) (n : Nat) (b : UInt8) : Bytes := fun j => if j < n then name j else b

theorem filled_below (name : Bytes) (n : Nat) (b : UInt8) : ∀ j < n, filled name n b j = name j :=
  fun _ hj => if_pos hj

theorem filled_above {j : Nat} (name : Bytes) (b : UInt8) (hj : n ≤ j) :
    filled name n b j = b :=
  if_neg (by omega)

/-- In one completion the next sequence starts behind the field, in another at the second byte
of the unfinished one: the two texts part there. -/
theorem texts_part {i k room : Nat} (hk : k + 1 < room) (hi : i = seqStart name len k)
    (hlt : i < n) (hopen : LeftOpen name len n i)
    (hclosed : ∀ j < k, seqStart name len j < len →
      seqStart name len j < n ∧ ¬ LeftOpen name len n (seqStart name len j)) :
    ∃ x y : Bytes, (∀ j < n, x j = name j) ∧ (∀ j < n, y j = name j) ∧
      nameLoop x len room 0 ≠ nameLoop y len room 0 := by
  obtain ⟨name', hagree, hpast⟩ := hopen
  obtain h | ⟨hfits, hused, _⟩ := sutf8DecodeChar_cases (window name' i) (len - i)
  · rw [h] at hpast
    exact absurd hpast (by simp only [refused]; omega)
  rw [hused] at hpast
  rw [window_apply, Nat.add_zero] at hfits hused hpast
  have htail : ∀ j, 1 ≤ j → j < framing (name' i) → isContinuation (name' (i + j)) = true := by
    intro j hj hjlt
    by_contra hfalse
    have hrefused : sutf8DecodeChar (window name' i) (len - i) = refused :=
      sutf8DecodeChar_refused hj hjlt (.inr (by simpa using hfalse))
    rw [hrefused] at hused
    exact absurd hused (by simp only [refused]; omega)
  have hx : ∀ j < n, filled name' (i + framing (name' i)) 0x62 j = name j := by
    intro j hj
    rw [filled_below _ _ _ j (by omega), hagree j hj]
  have hy : ∀ j < n, filled name n 0x61 j = name j := filled_below name n 0x61
  refine ⟨_, _, hx, hy, ?_⟩
  intro heq
  -- the accepted completion goes on behind its last byte
  have hstart : seqStart (filled name' (i + framing (name' i)) 0x62) len k = i :=
    (seqStart_of_closed hx hclosed).trans hi.symm
  have hdecode : sutf8DecodeChar (window (filled name' (i + framing (name' i)) 0x62) i) (len - i) =
      sutf8DecodeChar (window name' i) (len - i) := by
    symm
    apply sutf8DecodeChar_framing
    intro j hj
    have hbound : j < framing (name' i) := hj
    exact (filled_below _ _ _ (i + j) (by omega)).symm
  have hnext : seqStart (filled name' (i + framing (name' i)) 0x62) len (k + 1) =
      i + framing (name' i) := by
    rw [seqStart, hstart, hdecode, hused, if_neg (by omega)]
  -- the refused one at the byte behind its lead
  have hstart' : seqStart (filled name n 0x61) len k = i :=
    (seqStart_of_closed hy hclosed).trans hi.symm
  have hlead : filled name n 0x61 i = name' i := by rw [hy i hlt, hagree i hlt]
  have hdecode' : sutf8DecodeChar (window (filled name n 0x61) i) (len - i) = refused := by
    apply sutf8DecodeChar_refused (i := n - i) (by omega)
    · rw [window_apply, Nat.add_zero, hlead]
      omega
    · right
      rw [window_apply, filled_above name 0x61 (by omega)]
      decide
  have hnext' : seqStart (filled name n 0x61) len (k + 1) = i + 1 := by
    rw [seqStart, hstart', hdecode']
    rfl
  have hsecond : shownAt (filled name n 0x61) len (i + 1) ≠ 0x62 := by
    by_cases hend : i + 1 < n
    · have hc := htail 1 le_rfl (by omega)
      rw [hagree _ hend, ← hy _ hend] at hc
      rw [shownAt_continuation hc]
      decide
    · have hbyte : filled name n 0x61 (i + 1) = 0x61 := filled_above name 0x61 (by omega)
      rw [shownAt_ascii (by omega) (by rw [hbyte]; decide), hbyte]
      decide
  have hx' := nameLoop_getElem? (filled name' (i + framing (name' i)) 0x62) len room 0 (k + 1)
  have hy' := nameLoop_getElem? (filled name n 0x61) len room 0 (k + 1)
  rw [Nat.zero_add, hnext] at hx'
  rw [Nat.zero_add, hnext', if_pos ⟨hk, by omega⟩] at hy'
  rw [seqStart] at hx' hy'
  rw [heq, hy'] at hx'
  split_ifs at hx' with hin
  have hbyte := filled_above (n := i + framing (name' i)) name' 0x62 le_rfl
  rw [shownAt_ascii hin.2 (by rw [hbyte]; decide), hbyte] at hx'
  exact hsecond (Option.some.inj hx')

theorem nameLoop_closed_iff (name : Bytes) (len n room : Nat) :
    (∀ name' : Bytes, (∀ j < n, name' j = name j) →
        nameLoop name' len room 0 = nameLoop name len room 0) ↔
      ∀ k < room, seqStart name len k < len → seqStart name len k < n ∧
        (k + 1 < room → ¬ LeftOpen name len n (seqStart name len k)) := by
  constructor
  · intro hall k
    induction k using Nat.strong_induction_on with
    | _ k ih =>
      intro hk hin
      have hclosed : ∀ j < k, seqStart name len j < len →
          seqStart name len j < n ∧ ¬ LeftOpen name len n (seqStart name len j) := by
        intro j hj hlt
        obtain ⟨hfield, hopen⟩ := ih j hj (by omega) hlt
        exact ⟨hfield, hopen (by omega)⟩
      have hfield : seqStart name len k < n := by
        by_contra hpast
        have hshown : ∀ b : UInt8, b < 0x80 → (nameLoop name len room 0)[k]? = some b := by
          intro b hb
          have hfill := filled_below name n b
          have hbyte := filled_above name b (not_lt.mp hpast)
          have hchar := nameLoop_getElem? (filled name n b) len room 0 k
          rw [Nat.zero_add, seqStart_of_closed hfill hclosed, if_pos ⟨hk, hin⟩,
            shownAt_ascii hin (by rwa [hbyte]), hbyte] at hchar
          rw [← hall _ hfill]
          exact hchar
        have hclash := (hshown 0x61 (by decide)).symm.trans (hshown 0x62 (by decide))
        exact absurd hclash (by decide)
      refine ⟨hfield, ?_⟩
      intro hroom hopen
      obtain ⟨x, y, hx, hy, hne⟩ := texts_part hroom rfl hfield hopen hclosed
      exact hne ((hall x hx).trans (hall y hy).symm)
  · intro h name' hsame
    apply List.ext_getElem?
    intro k
    have hchar := nameLoop_getElem? name len room 0 k
    have hchar' := nameLoop_getElem? name' len room 0 k
    rw [Nat.zero_add] at hchar hchar'
    by_cases hk : k < room
    · have hstart : seqStart name' len k = seqStart name len k := by
        apply seqStart_of_closed hsame
        intro j hj hlt
        obtain ⟨hfield, hopen⟩ := h j (by omega) hlt
        exact ⟨hfield, hopen (by omega)⟩
      rw [hstart] at hchar'
      by_cases hin : seqStart name len k < len
      · rw [if_pos ⟨hk, hin⟩] at hchar hchar'
        rw [shownAt_same hsame (h k hk hin).1] at hchar'
        exact hchar'.trans hchar.symm
      · rw [if_neg fun hboth => hin hboth.2] at hchar hchar'
        exact hchar'.trans hchar.symm
    · rw [if_neg fun hboth => hk hboth.1] at hchar hchar'
      exact hchar'.trans hchar.symm

end Text

/-- No byte at or past the end of the name field is loaded, and the text is that of every entry
with the same length and name bytes. -/
structure NameFieldOnly (ce : Bytes) : Prop where
  reads : ∀ a ∈ nameLoads (CatalogEntry.name ce) (CatalogEntry.nameLength ce).toNat 127 0, a < 128
  same : ∀ ce', CatalogEntry.nameLength ce' = CatalogEntry.nameLength ce →
    (∀ j < 128, CatalogEntry.name ce' j = CatalogEntry.name ce j) →
    (listEntry ce').name = (listEntry ce).name

theorem sameText_iff (ce : Bytes) :
    (∀ ce', CatalogEntry.nameLength ce' = CatalogEntry.nameLength ce →
        (∀ j < 128, CatalogEntry.name ce' j = CatalogEntry.name ce j) →
        (listEntry ce').name = (listEntry ce).name) ↔
      ∀ name' : Bytes, (∀ j < 128, name' j = CatalogEntry.name ce j) →
        nameLoop name' (CatalogEntry.nameLength ce).toNat 127 0 =
          nameLoop (CatalogEntry.name ce) (CatalogEntry.nameLength ce).toNat 127 0 := by
  constructor
  · intro h name' hsame
    have hentry := h (fun a => if a < 6 then ce a else name' (a - 6)) rfl
    have hname : CatalogEntry.name (fun a => if a < 6 then ce a else name' (a - 6)) = name' := by
      funext j
      simp [CatalogEntry.name]
    rw [hname] at hentry
    have htext := hentry hsame
    simp only [listEntry, owfsNameToAscii] at htext
    rw [hname] at htext
    exact htext
  · intro h ce' hlength hsame
    simp only [listEntry, owfsNameToAscii, hlength]
    exact h _ hsame

/-- Exactly when the loads stay in the name field, and exactly when the text does not depend on
what follows it: the last of the 127 places may be filled by an unfinished sequence. -/
theorem nameFieldOnly_iff (ce : Bytes) :
    (NameFieldOnly ce ↔ ∀ k < 127,
      seqStart (CatalogEntry.name ce) (CatalogEntry.nameLength ce).toNat k <
        (CatalogEntry.nameLength ce).toNat →
      seqLoaded (CatalogEntry.name ce) (CatalogEntry.nameLength ce).toNat
        (seqStart (CatalogEntry.name ce) (CatalogEntry.nameLength ce).toNat k) ≤ 128) ∧
    ((∀ ce', CatalogEntry.nameLength ce' = CatalogEntry.nameLength ce →
        (∀ j < 128, CatalogEntry.name ce' j = CatalogEntry.name ce j) →
        (listEntry ce').name = (listEntry ce).name) ↔
      ∀ k < 127, seqStart (CatalogEntry.name ce) (CatalogEntry.nameLength ce).toNat k <
          (CatalogEntry.nameLength ce).toNat →
        seqStart (CatalogEntry.name ce) (CatalogEntry.nameLength ce).toNat k < 128 ∧
        (k < 126 → ¬ LeftOpen (CatalogEntry.name ce) (CatalogEntry.nameLength ce).toNat 128
          (seqStart (CatalogEntry.name ce) (CatalogEntry.nameLength ce).toNat k))) := by
  have hloads :=
    nameLoads_within (CatalogEntry.name ce) (CatalogEntry.nameLength ce).toNat 128 127 0
  have htext := (sameText_iff ce).trans (nameLoop_closed_iff _ _ 128 127)
  simp only [seqStart, Nat.zero_add] at hloads
  constructor
  · constructor
    · intro h
      exact hloads.mp h.reads
    · intro h
      refine ⟨hloads.mpr h, htext.mpr ?_⟩
      intro k hk hin
      obtain ⟨hfield, hclosed⟩ := closed_of_loaded (h k hk hin)
      exact ⟨hfield, fun _ => hclosed⟩
  · rw [htext]
    simp only [← Nat.lt_sub_iff_add_lt, Nat.reduceSub]

def overlongEntry (tail : UInt8) : Bytes := fun a =>
  if a = 5 then 130 else if 134 ≤ a then tail else if a % 2 = 0 then 0xC3 else 0xA9

theorem overlongEntry_readsOn :
    CatalogEntry.nameLength (overlongEntry 0x61) = CatalogEntry.nameLength (overlongEntry 0x62) ∧
    (∀ j < 128, CatalogEntry.name (overlongEntry 0x61) j =
      CatalogEntry.name (overlongEntry 0x62) j) ∧
    (listEntry (overlongEntry 0x61)).name ≠ (listEntry (overlongEntry 0x62)).name := by
  refine ⟨rfl, ?_, by decide +kernel⟩
  intro j hj
  have hbefore : ¬ 134 ≤ 6 + j := by omega
  simp only [CatalogEntry.name, window_apply, overlongEntry, hbefore, if_false]

end ModularBootloader
