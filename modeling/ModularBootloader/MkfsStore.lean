import ModularBootloader.MkfsFrame
import ModularBootloader.Lib.BlockStore

/-!
# The volume as a store of blocks

The image refines a block store, so that a slice assignment is a write to one
block. On the store the allocator is a counter: with the first `k` bits of the
bitmap set it hands out data block `k`, and the blocks from there on are zero.
-/

namespace ModularBootloader.Mkfs.Volume
open ByteStore SliceAssign RaisingLoop BlockStore

abbrev Store := Blocks UInt8

abbrev Images (vol : Volume) (room : Nat) (image : Bytearray) (D : Store) : Prop :=
  Holds 4096 vol.blockStart vol.totalBlocks room 0 image D

section Image
variable {vol : Volume} {room b i : Nat} {image v : Bytearray} {D : Store}

theorem getByte_image (h : Images vol room image D) (hb : b < vol.totalBlocks) (hi : i < 4096) :
    getByte image (vol.blockOff b + i) = .ok (D b i) := by
  have hlength := h.length
  have hend := block_end_le 4096 hb
  have hbyte := h.block b hb i hi
  have hlt : vol.blockStart + 4096 * b + i < image.length := by omega
  rw [List.getD_eq_getElem?_getD, List.getElem?_eq_getElem hlt, Option.getD_some] at hbyte
  rw [getByte, blockOff_eq, List.getElem?_eq_getElem hlt]
  exact congrArg Except.ok hbyte

theorem write_image (h : Images vol room image D) (hb : b < vol.totalBlocks)
    (hoff : i + v.length ≤ 4096) :
    Images vol room
      (sliceAssign image (vol.blockOff b + i) (vol.blockOff b + i + v.length) v)
      (putAt D b i v.length (bytesOf v)) := by
  rw [blockOff_eq]
  exact Holds.put h hb hoff

end Image

def filled (k j : Nat) : UInt8 := UInt8.ofNat (2 ^ min 8 (k - 8 * j) - 1)

def BitmapFilled (vol : Volume) (D : Store) (k : Nat) : Prop :=
  ∀ j < 4096 * vol.bitmapBlocks, D (bitmapStartBlock + j / 4096) (j % 4096) = filled k j

def marked (D : Store) (k : Nat) : Store :=
  putAt D (bitmapStartBlock + k / 32768) (k / 8 % 4096) 1 fun _ => filled (k + 1) (k / 8)

theorem freeBit_low (r : Fin 8) : freeBit (UInt8.ofNat (2 ^ r.val - 1)) = some r.val ∧
    (UInt8.ofNat (2 ^ r.val - 1)).toNat ||| (1 <<< r.val) = 2 ^ (r.val + 1) - 1 ∧
    UInt8.ofNat (2 ^ r.val - 1) ≠ 0xFF := by
  revert r
  decide

theorem filled_full {k j : Nat} (h : 8 * j + 8 ≤ k) : filled k j = 0xFF := by
  rw [filled, Nat.min_eq_left (by omega)]
  rfl

theorem filled_low {k j : Nat} (h : k < 8 * j + 8) :
    filled k j = UInt8.ofNat (2 ^ (k - 8 * j) - 1) := by
  rw [filled, Nat.min_eq_right (by omega)]

theorem bitmapFilled_marked {vol : Volume} {D : Store} {k : Nat} (h : BitmapFilled vol D k) :
    BitmapFilled vol (marked D k) (k + 1) := by
  intro j hj
  by_cases hsame : j = k / 8
  · subst hsame
    have hblock : k / 8 / 4096 = k / 32768 := Nat.div_div_eq_div_mul k 8 4096
    rw [marked, hblock, putAt_first Nat.one_pos]
  · have hmove : filled (k + 1) j = filled k j := by
      rw [filled, filled]
      congr 3
      omega
    rw [marked, putAt_outside (by omega), h j hj, hmove]

/-- The first `k` bits of the bitmap in the image are set, and no others. -/
structure BitsAt (vol : Volume) (image : Bytearray) (k : Nat) : Prop where
  length : vol.blockOff vol.inodeTableStart ≤ image.length
  bits : ∀ j < 4096 * vol.bitmapBlocks,
    image.getD (vol.blockOff bitmapStartBlock + j) 0 = filled k j

def markedImage (vol : Volume) (image : Bytearray) (k : Nat) : Bytearray :=
  sliceAssign image (vol.blockOff bitmapStartBlock + k / 8)
    (vol.blockOff bitmapStartBlock + k / 8 + 1) [filled (k + 1) (k / 8)]

def markedState (vol : Volume) (s : VolumeState) (k : Nat) : VolumeState :=
  { s with image := markedImage vol s.image k, freeBlocks := s.freeBlocks - 1 }

section Alloc
variable {vol : Volume} {room k : Nat} {image : Bytearray} {D : Store} {s s' : VolumeState}

theorem bitmap_end (vol : Volume) : vol.blockOff vol.inodeTableStart =
    vol.blockOff bitmapStartBlock + 4096 * vol.bitmapBlocks := by
  have hbitmap : bitmapStartBlock = 17 := rfl
  rw [blockOff_eq, blockOff_eq, inodeTableStart_eq]
  omega

theorem bitmap_byte (vol : Volume) (b i : Nat) : vol.blockOff (bitmapStartBlock + b) + i =
    vol.blockOff bitmapStartBlock + (4096 * b + i) := by
  rw [blockOff_eq, blockOff_eq]
  omega

theorem BitsAt.getByte (h : BitsAt vol image k) {j : Nat} (hj : j < 4096 * vol.bitmapBlocks) :
    getByte image (vol.blockOff bitmapStartBlock + j) = .ok (filled k j) := by
  have hlength := h.length
  have hend := bitmap_end vol
  have hlt : vol.blockOff bitmapStartBlock + j < image.length := by omega
  have hbit := h.bits j hj
  rw [List.getD_eq_getElem?_getD, List.getElem?_eq_getElem hlt, Option.getD_some] at hbit
  rw [Mkfs.getByte, List.getElem?_eq_getElem hlt]
  exact congrArg Except.ok hbit

theorem BitsAt.marked (h : BitsAt vol image k) (hk : k < 32768 * vol.bitmapBlocks) :
    BitsAt vol (markedImage vol image k) (k + 1) := by
  have hlength := h.length
  have hend := bitmap_end vol
  have hin : vol.blockOff bitmapStartBlock + k / 8 < image.length := by omega
  constructor
  · rw [markedImage, sliceAssign_one_length hin]
    exact hlength
  · intro j hj
    rw [markedImage]
    by_cases hbyte : j = k / 8
    · subst hbyte
      exact sliceAssign_one_self hin
    · have hmove : filled (k + 1) j = filled k j := by
        rw [filled, filled]
        congr 3
        omega
      rw [sliceAssign_one_other hin (by omega), h.bits j hj, hmove]

theorem BitsAt.slice {lo hi : Nat} {v : Bytearray} (h : BitsAt vol image k)
    (hlo : vol.blockOff vol.inodeTableStart ≤ lo) : BitsAt vol (sliceAssign image lo hi v) k := by
  have hlength := h.length
  have hend := bitmap_end vol
  refine ⟨sliceAssign_length_ge hlo hlength, ?_⟩
  intro j hj
  rw [List.getD_eq_getElem?_getD, sliceAssign_prefix (by omega) (by omega),
    ← List.getD_eq_getElem?_getD]
  exact h.bits j hj

theorem allocBit_full (h : BitsAt vol s.image k) {b i : Nat} (hb : b < vol.bitmapBlocks)
    (hi : i < 4096) (hfull : 8 * (4096 * b + i) + 8 ≤ k) : vol.allocBit s b i = .ok none := by
  have hbyte := h.getByte (show 4096 * b + i < 4096 * vol.bitmapBlocks by omega)
  rw [← bitmap_byte, filled_full hfull] at hbyte
  refine bind_ok.mpr ⟨_, hbyte, ?_⟩
  rw [if_pos rfl]

theorem allocBit_next (h : BitsAt vol s.image k) {b i : Nat} (hb : b < vol.bitmapBlocks)
    (hi : i < 4096) (hbyte : 4096 * b + i = k / 8) :
    vol.allocBit s b i = if k < vol.dataBlocks then
      .ok (some (vol.dataRegionStart + k, markedState vol s k))
      else .error (.runtimeError "OWFS volume is full") := by
  have hlength := h.length
  have hend := bitmap_end vol
  have hj : 4096 * b + i < 4096 * vol.bitmapBlocks := by omega
  have hread := h.getByte hj
  rw [hbyte, filled_low (show k < 8 * (k / 8) + 8 by omega)] at hread
  obtain ⟨hfree, hset, hopen⟩ := freeBit_low ⟨k - 8 * (k / 8), by omega⟩
  have hrel : (b * block + i) * 8 + (k - 8 * (k / 8)) = k := by
    rw [block_eq]
    omega
  have hmark : UInt8.ofNat (2 ^ (k - 8 * (k / 8) + 1) - 1) = filled (k + 1) (k / 8) := by
    rw [filled, Nat.min_eq_right (by omega)]
    congr 3
    omega
  have hval : 2 ^ (k - 8 * (k / 8) + 1) - 1 ≤ 255 := by
    have hpow : 2 ^ (k - 8 * (k / 8) + 1) ≤ 2 ^ 8 := Nat.pow_le_pow_right (by omega) (by omega)
    omega
  have hput : setByte s.image (vol.blockOff bitmapStartBlock + k / 8)
      (2 ^ (k - 8 * (k / 8) + 1) - 1) = .ok (markedState vol s k).image := by
    rw [setByte, if_neg (by omega), if_pos (by omega), hmark]
    rfl
  rw [allocBit, bitmap_byte, hbyte, hread]
  show (if _ then _ else _) = _
  rw [if_neg hopen, hfree]
  dsimp only
  rw [hset, hput, hrel]
  split_ifs with hge hlt hlt
  · omega
  · rfl
  · rfl
  · omega

theorem allocSearch_eq (h : BitsAt vol s.image k) (hk : k < 32768 * vol.bitmapBlocks) :
    firstSome (fun b => firstSome (vol.allocBit s b) (List.range block))
      (List.range vol.bitmapBlocks) = if k < vol.dataBlocks then
        .ok (some (vol.dataRegionStart + k, markedState vol s k))
        else .error (.runtimeError "OWFS volume is full") := by
  have hbit := allocBit_next (b := k / 32768) (i := k / 8 % 4096) h (by omega) (by omega) (by omega)
  have hstops : vol.allocBit s (k / 32768) (k / 8 % 4096) ≠ .ok none := by
    rw [hbit]
    split_ifs <;> intro hnone <;> cases hnone
  have hrow : firstSome (vol.allocBit s (k / 32768)) (List.range block) =
      vol.allocBit s (k / 32768) (k / 8 % 4096) := by
    rw [firstSome_range (k := k / 8 % 4096) (by rw [block_eq]; omega)]
    · exact firstSome_head _ hstops
    · intro i hi
      exact allocBit_full h (by omega) (by omega) (by omega)
  rw [firstSome_range (k := k / 32768) (by omega), firstSome_head _ (by rw [hrow]; exact hstops),
    hrow, hbit]
  intro b hb
  apply firstSome_none
  intro i hi
  rw [List.mem_range, block_eq] at hi
  exact allocBit_full h (by omega) hi (by omega)

theorem allocBlock_eq (h : BitsAt vol s.image k) (htotal : 275 ≤ vol.totalBlocks)
    (hk : k ≤ vol.dataBlocks) :
    vol.allocBlock s = if k < vol.dataBlocks then
      .ok (vol.dataRegionStart + k, markedState vol s k)
      else .error (.runtimeError "OWFS volume is full") := by
  obtain ⟨-, -, hcover⟩ := vol.geometry htotal
  rw [allocBlock]
  by_cases hbits : k < 32768 * vol.bitmapBlocks
  · rw [allocSearch_eq h hbits]
    split_ifs
    · rfl
    · rfl
  · -- Every bit is set: there are as many bits as data blocks.
    have hnone : firstSome (fun b => firstSome (vol.allocBit s b) (List.range block))
        (List.range vol.bitmapBlocks) = .ok none := by
      apply firstSome_none
      intro b hb
      apply firstSome_none
      intro i hi
      rw [List.mem_range] at hb hi
      rw [block_eq] at hi
      exact allocBit_full h hb hi (by omega)
    rw [hnone, if_neg (by omega)]
    rfl

theorem Images.bitsAt (h : Images vol room image D) (hbits : BitmapFilled vol D k)
    (htotal : 275 ≤ vol.totalBlocks) : BitsAt vol image k := by
  obtain ⟨hdata, hpos, -⟩ := vol.geometry htotal
  have hstart := vol.dataRegionStart_eq
  have htable := vol.inodeTableStart_eq
  have hbitmap : bitmapStartBlock = 17 := rfl
  have hlength := h.length
  constructor
  · rw [blockOff_eq]
    omega
  · intro j hj
    have hbyte := h.block (bitmapStartBlock + j / 4096) (by omega) (j % 4096)
      (Nat.mod_lt j (by omega))
    have haddr : vol.blockStart + 4096 * bitmapStartBlock + j =
        vol.blockStart + 4096 * (bitmapStartBlock + j / 4096) + j % 4096 := by
      omega
    rw [blockOff_eq, haddr, hbyte, hbits j hj]

theorem Images.marked (h : Images vol room image D) (htotal : 275 ≤ vol.totalBlocks)
    (hk : k < 32768 * vol.bitmapBlocks) :
    Images vol room (markedImage vol image k) (marked D k) := by
  obtain ⟨hdata, hpos, -⟩ := vol.geometry htotal
  have hstart := vol.dataRegionStart_eq
  have hbitmap : bitmapStartBlock = 17 := rfl
  have hwrite := write_image (v := [filled (k + 1) (k / 8)]) (b := bitmapStartBlock + k / 32768)
    (i := k / 8 % 4096) h (by omega) (by rw [List.length_singleton]; omega)
  rw [bitmap_byte, show 4096 * (k / 32768) + k / 8 % 4096 = k / 8 by omega] at hwrite
  have hsame : putAt D (bitmapStartBlock + k / 32768) (k / 8 % 4096) 1
      (bytesOf [filled (k + 1) (k / 8)]) = Volume.marked D k := by
    apply putAt_congr
    intro j hj
    obtain rfl : j = 0 := by omega
    rfl
  rw [← hsame]
  exact hwrite

end Alloc

end ModularBootloader.Mkfs.Volume
