import ModularBootloader.MkfsStore

/-!
# The blocks of a file

What a file takes from the data region: its blocks in order, with the block of
the indirect words between the tenth and the eleventh. What was allocated
before keeps its content.
-/

namespace ModularBootloader.Mkfs.Volume
open ByteStore SliceAssign RaisingLoop BlockStore

/-- The first `k` data blocks are in use; the others are blank. -/
structure Fresh (vol : Volume) (D : Store) (k : Nat) : Prop where
  total : 275 ≤ vol.totalBlocks
  left : k ≤ vol.dataBlocks
  bits : BitmapFilled vol D k
  blank : ∀ b, vol.dataRegionStart + k ≤ b → b < vol.totalBlocks → ∀ i < 4096, D b i = 0

def Kept (vol : Volume) (k : Nat) (D D' : Store) : Prop :=
  ∀ b, vol.inodeTableStart ≤ b → b < vol.dataRegionStart + k → D' b = D b

section Frames
variable {vol : Volume} {D D' D'' : Store} {k k' b off n room : Nat} {src : Nat → UInt8}
variable {s : VolumeState}

theorem rootBlocks_written (s : VolumeState) (image : Bytearray) (freeBlocks : Int) :
    ({ s with image := image, freeBlocks := freeBlocks } : VolumeState).rootBlocks =
      s.rootBlocks := rfl

theorem Kept.refl (vol : Volume) (k : Nat) (D : Store) : Kept vol k D D := fun _ _ _ => rfl

theorem Kept.trans (h : Kept vol k D D') (h' : Kept vol k' D' D'') (hk : k ≤ k') :
    Kept vol k D D'' := by
  intro b hlo hhi
  rw [h' b hlo (by omega), h b hlo hhi]

theorem kept_put (hb : vol.dataRegionStart + k ≤ b) : Kept vol k D (putAt D b off n src) := by
  intro b' _ hhi
  exact putAt_block (by omega)

theorem kept_marked (hk : k' < 32768 * vol.bitmapBlocks) : Kept vol k D (marked D k') := by
  have hbitmap : bitmapStartBlock = 17 := rfl
  have htable := vol.inodeTableStart_eq
  intro b hlo _
  exact putAt_block (by omega)

theorem Fresh.put (h : Fresh vol D k) (hlo : b < 17 ∨ vol.inodeTableStart ≤ b)
    (hhi : b < vol.dataRegionStart + k) : Fresh vol (putAt D b off n src) k := by
  have htable := vol.inodeTableStart_eq
  have hbitmap : bitmapStartBlock = 17 := rfl
  refine ⟨h.total, h.left, ?_, ?_⟩
  · intro j hj
    rw [putAt_block (by omega)]
    exact h.bits j hj
  · intro b' hb' htotal i hi
    rw [putAt_block (by omega)]
    exact h.blank b' hb' htotal i hi

theorem Fresh.marked (h : Fresh vol D k) (hk : k < vol.dataBlocks) :
    Fresh vol (marked D k) (k + 1) := by
  obtain ⟨hdata, -, hcover⟩ := vol.geometry h.total
  have hbitmap : bitmapStartBlock = 17 := rfl
  have hstart := vol.dataRegionStart_eq
  refine ⟨h.total, hk, bitmapFilled_marked h.bits, ?_⟩
  intro b hb htotal i hi
  rw [Volume.marked, putAt_block (by omega)]
  exact h.blank b (by omega) htotal i hi

structure Allocated (vol : Volume) (room k : Nat) (D : Store) (s : VolumeState)
    (r : Nat × VolumeState) : Prop where
  block : r.1 = vol.dataRegionStart + k
  roots : r.2.rootBlocks = s.rootBlocks
  image : Images vol room r.2.image (marked D k)
  fresh : Fresh vol (marked D k) (k + 1)
  kept : ∀ k', Kept vol k' D (marked D k)

theorem Fresh.allocBlock (h : Fresh vol D k) (himage : Images vol room s.image D) :
    ReturnsIff (k < vol.dataBlocks) (vol.allocBlock s) (Allocated vol room k D s) := by
  obtain ⟨-, -, hcover⟩ := vol.geometry h.total
  rw [allocBlock_eq (himage.bitsAt h.bits h.total) h.total h.left]
  by_cases hk : k < vol.dataBlocks
  · rw [if_pos hk]
    refine (ReturnsIff.ok ?_).conseq (iff_of_true trivial hk) fun _ _ hpost => hpost
    exact ⟨rfl, rootBlocks_written s _ _, himage.marked h.total (by omega), h.marked hk,
      fun _ => kept_marked (by omega)⟩
  · rw [if_neg hk]
    constructor
    · intro hlt
      exact absurd hlt hk
    · intro r hr
      cases hr

end Frames

def takenBlocks (i : Nat) : Nat := if 10 < i then i + 1 else i

/-- Where data block `i` of a file lies behind the first one. -/
def nthBlock (i : Nat) : Nat := if i < 10 then i else i + 1

theorem takenBlocks_succ (i : Nat) : takenBlocks (i + 1) = nthBlock i + 1 := by
  rw [takenBlocks, nthBlock]
  split_ifs <;> omega

theorem nthBlock_lt {i n : Nat} (hi : i < n) : nthBlock i < takenBlocks n := by
  rw [takenBlocks, nthBlock]
  split_ifs <;> omega

theorem nthBlock_ne_ten (i : Nat) : nthBlock i ≠ 10 := by
  rw [nthBlock]
  split_ifs <;> omega

def directOf (vol : Volume) (start n : Nat) : List Nat :=
  (List.range n).map fun i => vol.dataRegionStart + (start + nthBlock i)

def indirectOf (vol : Volume) (start n : Nat) : Nat :=
  if 10 < n then vol.dataRegionStart + (start + 10) else 0

theorem takenBlocks_of_ne {i : Nat} (h : i ≠ 10) : takenBlocks i = nthBlock i := by
  rw [takenBlocks, nthBlock]
  split_ifs <;> omega

theorem indirectOf_succ (vol : Volume) (start : Nat) {i : Nat} (h : i ≠ 10) :
    vol.indirectOf start i = vol.indirectOf start (i + 1) := by
  exact if_congr (by omega) rfl rfl

def DataAt (vol : Volume) (D : Store) (start : Nat) (data : Bytearray) (n : Nat) : Prop :=
  ∀ i < n, ∀ o < 4096, D (vol.dataRegionStart + (start + nthBlock i)) o =
    bytesOf data (4096 * i + o)

structure BlocksAdded (vol : Volume) (room k : Nat) (D : Store) (data : Bytearray)
    (s : VolumeState) (i : Nat) (st : AddState) : Prop where
  roots : st.state.rootBlocks = s.rootBlocks
  direct : st.direct = vol.directOf k i
  indirect : st.indirect = vol.indirectOf k i
  store : ∃ D', Images vol (room - (4096 * i - data.length)) st.state.image D' ∧
    Fresh vol D' (k + takenBlocks i) ∧ Kept vol k D D' ∧ DataAt vol D' k data i

section Loop
variable {vol : Volume} {D : Store} {room k i : Nat} {data : Bytearray} {s : VolumeState}

theorem blocksAdded_start (data : Bytearray) (himage : Images vol room s.image D)
    (hfresh : Fresh vol D k) :
    BlocksAdded vol room k D data s 0 ⟨s, [], 0⟩ := by
  refine ⟨rfl, rfl, rfl, D, ?_, hfresh, Kept.refl vol k D, ?_⟩
  · rw [Nat.mul_zero, Nat.zero_sub, Nat.sub_zero]
    exact himage
  · intro i hi
    exact absurd hi (Nat.not_lt_zero i)

theorem bytesOf_chunk {o : Nat} (ho : o < 4096) :
    bytesOf (chunk data i) o = bytesOf data (4096 * i + o) := by
  have hmul : i * block = 4096 * i := Nat.mul_comm i block
  rw [bytesOf, bytesOf, chunk, hmul, block_eq, List.getD_eq_getElem?_getD,
    List.getElem?_take_of_lt ho, List.getElem?_drop, List.getD_eq_getElem?_getD]

theorem indirectFor_returnsIff {st : AddState}
    (himage : Images vol room st.state.image D) (hfresh : Fresh vol D (k + takenBlocks i))
    (hindirect : st.indirect = vol.indirectOf k i) :
    ReturnsIff (i = 10 → k + 10 < vol.dataBlocks) (vol.indirectFor i st) fun r =>
      r.1 = vol.indirectOf k (i + 1) ∧ r.2.rootBlocks = st.state.rootBlocks ∧
        ∃ D', Images vol room r.2.image D' ∧ Fresh vol D' (k + nthBlock i) ∧
          Kept vol (k + takenBlocks i) D D' := by
  have hstart := vol.dataRegionStart_eq
  rw [indirectFor, hindirect]
  by_cases hten : i = 10
  · subst hten
    have halloc := hfresh.allocBlock himage
    have hneeded : 10 ≥ 10 ∧ vol.indirectOf k 10 = 0 := ⟨Nat.le_refl 10, rfl⟩
    rw [if_pos hneeded]
    refine halloc.conseq ?_ ?_
    · simp [takenBlocks]
    · intro r _ hr
      exact ⟨hr.block, hr.roots, _, hr.image, hr.fresh, hr.kept _⟩
  · have hskip : ¬ (i ≥ 10 ∧ vol.indirectOf k i = 0) := by
      rintro ⟨hge, hzero⟩
      rw [indirectOf, if_pos (show 10 < i by omega)] at hzero
      omega
    rw [if_neg hskip]
    have hsame : vol.indirectOf k i = vol.indirectOf k (i + 1) ∧
        takenBlocks i = nthBlock i := ⟨indirectOf_succ vol k hten, takenBlocks_of_ne hten⟩
    refine (ReturnsIff.ok ?_).conseq ?_ fun _ _ h => h
    · rw [← hsame.2]
      exact ⟨hsame.1, rfl, D, himage, hfresh, Kept.refl vol _ D⟩
    · exact ⟨fun _ h => absurd h hten, fun _ => trivial⟩

theorem addBlock_returnsIff {st : AddState} (hroom : padOf data ≤ room)
    (hi : 4096 * i < data.length) (h : BlocksAdded vol room k D data s i st) :
    ReturnsIff (k + takenBlocks (i + 1) ≤ vol.dataBlocks) (vol.addBlock data i st)
      (BlocksAdded vol room k D data s (i + 1)) := by
  obtain ⟨hroots, hdirect, hindirect, D₀, himage₀, hfresh₀, hkept₀, hdata₀⟩ := h
  rw [show 4096 * i - data.length = 0 by omega, Nat.sub_zero] at himage₀
  have hpad : padOf data = 4096 * blocksOf data - data.length := rfl
  have hblocks := blocksOf_eq data
  have hfirst := indirectFor_returnsIff (k := k) himage₀ hfresh₀ hindirect
  have hround : ReturnsIff ((i = 10 → k + 10 < vol.dataBlocks) ∧ k + nthBlock i < vol.dataBlocks)
      (vol.addBlock data i st) (BlocksAdded vol room k D data s (i + 1)) := by
    refine hfirst.bind ?_
    rintro ⟨indirect, t⟩ _ ⟨hnext, hroots₁, D₁, himage₁, hfresh₁, hkept₁⟩
    refine ((hfresh₁.allocBlock himage₁).bind (d := True) ?_).conseq (and_iff_left trivial)
      fun _ _ h => h
    rintro ⟨b, u⟩ hk ⟨hb, hroots₂, himage₂, hfresh₂, hkept₂⟩
    dsimp only at hb hroots₂ himage₂ hnext hroots₁
    subst hb
    obtain ⟨hdata, -, -⟩ := vol.geometry hfresh₂.total
    have hlength := chunk_length data i
    have hstart := vol.dataRegionStart_eq
    have htable := vol.inodeTableStart_eq
    have hwrite := himage₂.put_short (b := vol.dataRegionStart + (k + nthBlock i))
      (v := chunk data i) (by omega) (by omega) (by omega) (by
        intro b hlo hhi
        exact hfresh₂.blank b (by omega) hhi)
    have hroom' : (chunk data i).length + room - 4096 =
        room - (4096 * (i + 1) - data.length) := by omega
    rw [hroom'] at hwrite
    have hbefore : takenBlocks i ≤ nthBlock i := by
      rw [takenBlocks, nthBlock]
      split_ifs <;> omega
    have hkept : Kept vol (k + takenBlocks i) D₁ (putAt (marked D₁ (k + nthBlock i))
        (vol.dataRegionStart + (k + nthBlock i)) 0 4096 (bytesOf (chunk data i))) :=
      (hkept₂ _).trans (kept_put (by omega)) (Nat.le_refl _)
    refine ReturnsIff.ok ⟨hroots₂.trans (hroots₁.trans hroots), ?_, hnext,
      putAt (marked D₁ (k + nthBlock i)) (vol.dataRegionStart + (k + nthBlock i)) 0 4096
        (bytesOf (chunk data i)), ?_, ?_, ?_, ?_⟩
    · rw [hdirect, directOf, directOf, List.range_succ, List.map_append]
      rfl
    · dsimp only
      rw [blockOff_eq, block_eq]
      exact hwrite
    · rw [takenBlocks_succ]
      exact hfresh₂.put (.inr (by omega)) (by omega)
    · exact hkept₀.trans (hkept₁.trans hkept (Nat.le_refl _)) (by omega)
    · intro j hj o ho
      by_cases hlast : j = i
      · subst hlast
        exact (putAt_whole ho).trans (bytesOf_chunk ho)
      · have hin := nthBlock_lt (show j < i by omega)
        rw [← hdata₀ j (by omega) o ho, ← hkept₁ _ (by omega) (by omega)]
        exact congrFun (hkept _ (by omega) (by omega)) o
  refine hround.conseq ?_ fun _ _ h => h
  rw [takenBlocks_succ, nthBlock]
  constructor
  · rintro ⟨_, h⟩
    omega
  · intro h
    refine ⟨fun hten => ?_, by omega⟩
    subst hten
    rw [if_neg (by omega)] at h
    omega

end Loop

structure FileBlocks (vol : Volume) (D : Store) (start : Nat) (data : Bytearray) : Prop where
  capacity : blocksOf data ≤ 1034
  bytes : DataAt vol D start data (blocksOf data)
  words : ∀ i, 10 ≤ i → i < blocksOf data →
    (load32 (D (vol.dataRegionStart + (start + 10))) (4 * (i - 10))).toNat =
      (vol.dataRegionStart + (start + nthBlock i)) % 2 ^ 32

theorem FileBlocks.congr {vol : Volume} {D D' : Store} {start : Nat} {data : Bytearray}
    (h : FileBlocks vol D start data)
    (hsame : ∀ r < takenBlocks (blocksOf data),
      D' (vol.dataRegionStart + (start + r)) = D (vol.dataRegionStart + (start + r))) :
    FileBlocks vol D' start data := by
  refine ⟨h.capacity, ?_, ?_⟩
  · intro i hi o ho
    rw [hsame _ (nthBlock_lt hi)]
    exact h.bytes i hi o ho
  · intro i hlo hhi
    have hten : 10 < takenBlocks (blocksOf data) := by
      rw [takenBlocks]
      split_ifs <;> omega
    rw [hsame 10 hten]
    exact h.words i hlo hhi

section Indirect
variable {vol : Volume} {D : Store} {room k : Nat} {data : Bytearray} {s : VolumeState}

theorem directOf_length (vol : Volume) (start n : Nat) : (vol.directOf start n).length = n := by
  rw [directOf, List.length_map, List.length_range]

theorem directOf_getElem {start n i : Nat} (hi : i < (vol.directOf start n).length) :
    (vol.directOf start n)[i] = vol.dataRegionStart + (start + nthBlock i) := by
  simp [directOf]

theorem putEach_returnsIff {buf : Bytearray} {vs : List Nat} :
    ReturnsIff (4 * vs.length ≤ buf.length) (putEach buf 0 vs) (EachPut buf 0 vs) := by
  constructor
  · intro h
    exact putEach_total (by omega)
  · intro buf' h
    have hput := putEach_ok h
    refine ⟨?_, hput⟩
    rcases hput.fits with rfl | hfits
    · exact Nat.zero_le _
    · omega

theorem writeIndirect_returnsIff {st : AddState}
    (h : BlocksAdded vol room k D data s (blocksOf data) st) :
    ReturnsIff (blocksOf data ≤ 1034) (vol.writeIndirect st) fun r =>
      r.1 = (vol.directOf k (blocksOf data)).take 10 ∧ r.2.rootBlocks = s.rootBlocks ∧
        ∃ D', Images vol (room - padOf data) r.2.image D' ∧
          Fresh vol D' (k + takenBlocks (blocksOf data)) ∧ Kept vol k D D' ∧
          FileBlocks vol D' k data := by
  obtain ⟨hroots, hdirect, hindirect, D', himage, hfresh, hkept, hdata⟩ := h
  have hstart := vol.dataRegionStart_eq
  have htable := vol.inodeTableStart_eq
  obtain ⟨hregion, -, -⟩ := vol.geometry hfresh.total
  have hleft := hfresh.left
  have hlength := directOf_length vol k (blocksOf data)
  rw [writeIndirect, hindirect, hdirect]
  by_cases hlong : 10 < blocksOf data
  · have htaken : takenBlocks (blocksOf data) = blocksOf data + 1 := if_pos hlong
    have hused : vol.indirectOf k (blocksOf data) = vol.dataRegionStart + (k + 10) := if_pos hlong
    have hbuf : (List.replicate block (0 : UInt8)).length = 4096 := List.length_replicate
    have hdrop : ((vol.directOf k (blocksOf data)).drop 10).length = blocksOf data - 10 := by
      rw [List.length_drop, hlength]
    rw [if_pos (by omega), hused]
    refine (putEach_returnsIff.bind (d := True) ?_).conseq ?_ fun _ _ h => h
    · intro ibuf _ hput
      have hibuf : ibuf.length = 4096 := hput.length.trans hbuf
      have hwrite := write_image (i := 0) (v := ibuf) himage
        (show vol.dataRegionStart + (k + 10) < vol.totalBlocks by omega) (by omega)
      rw [hibuf] at hwrite
      refine ReturnsIff.ok ⟨rfl, hroots,
        putAt D' (vol.dataRegionStart + (k + 10)) 0 4096 (bytesOf ibuf), hwrite, ?_, ?_, ?_⟩
      · exact hfresh.put (.inr (by omega)) (by omega)
      · exact hkept.trans (kept_put (by omega)) (Nat.le_refl _)
      · refine ⟨by omega, ?_, ?_⟩
        · intro i hi o ho
          have hne := nthBlock_ne_ten i
          rw [putAt_block (by omega)]
          exact hdata i hi o ho
        · intro i hlo hhi
          have hword := hput.word (i - 10) (by omega)
          rw [List.getElem_drop, directOf_getElem, Nat.zero_add,
            show 10 + (i - 10) = i by omega] at hword
          rw [← hword]
          refine congrArg UInt32.toNat (load32_congr ?_)
          intro j hj
          exact putAt_whole (by omega)
    · rw [hdrop, hbuf]
      constructor
      · rintro ⟨h, _⟩
        omega
      · intro h
        exact ⟨by omega, trivial⟩
  · have hnone : vol.indirectOf k (blocksOf data) = 0 := if_neg hlong
    have hshort : (vol.directOf k (blocksOf data)).take 10 = vol.directOf k (blocksOf data) :=
      List.take_of_length_le (by omega)
    rw [hnone, if_neg (fun h => h rfl)]
    refine (ReturnsIff.ok ?_).conseq (by simp; omega) fun _ _ h => h
    refine ⟨hshort.symm, hroots, D', himage, hfresh, hkept, by omega, hdata, ?_⟩
    intro i hlo hhi
    omega

end Indirect

end ModularBootloader.Mkfs.Volume
