import ModularBootloader.OwfsRounds

/-!
# Media without refusals and sealed structures

A device that answers every transfer from its content, the volume it holds from
the OWFS partition on, and packed structures whose checksum field carries the
checksum the driver recomputes.
-/

namespace ModularBootloader
open ByteStore

def diskOf (content : Bytes) : BlockIo := ⟨512, content, fun _ _ => false⟩

def volumeBase : Nat := 131200 * 512

theorem diskOf_reads (content : Bytes) (nth : Nat) (block : UInt32) :
    readFails (some (diskOf content)) nth block = false := by
  simp [readFails, BlockIo.readBlocks, diskOf]

theorem diskOf_block {content : Bytes} {block : UInt32}
    (h : owfsPartitionLba.toNat + 8 * block.toNat < 2 ^ 32) :
    diskBlock (some (diskOf content)) block =
      window content (volumeBase + 4096 * block.toNat) := by
  have hlba := blockLba_toNat h
  have hbase : (blockLba block).toNat * 512 = volumeBase + 4096 * block.toNat := by
    rw [hlba, volumeBase, owfsPartitionLba_toNat]
    omega
  have hsector : (512 : UInt32).toNat = 512 := rfl
  simp only [diskBlock, diskOf, hsector, hbase]

def volumeDisk (blocks : Nat → Bytes) : BlockIo :=
  diskOf fun a => blocks ((a - volumeBase) / 4096) ((a - volumeBase) % 4096)

theorem volumeDisk_block {blocks : Nat → Bytes} {block : UInt32} {i : Nat}
    (h : owfsPartitionLba.toNat + 8 * block.toNat < 2 ^ 32) (hi : i < 4096) :
    diskBlock (some (volumeDisk blocks)) block i = blocks block.toNat i := by
  have hpos : volumeBase + 4096 * block.toNat + i - volumeBase = 4096 * block.toNat + i := by
    omega
  rw [volumeDisk, diskOf_block h, window_apply, hpos, Nat.mul_add_div (by omega),
    Nat.mul_add_mod, Nat.div_eq_of_lt hi, Nat.mod_eq_of_lt hi, Nat.add_zero]

def sealStruct (m : Bytes) (size ckOff : UInt32) : Bytes :=
  store32 m ckOff.toNat (crc32cStruct m size ckOff)

theorem sealStruct_checked (m : Bytes) (size : UInt32) {ckOff : UInt32}
    (h : ckOff.toNat + 4 < 2 ^ 32) :
    crc32cStruct (sealStruct m size ckOff) size ckOff =
      load32 (sealStruct m size ckOff) ckOff.toNat := by
  have hfield : (ckOff + 4).toNat = ckOff.toNat + 4 := by
    simp only [UInt32.toNat_add, UInt32.reduceToNat]
    omega
  rw [sealStruct, load32_store32]
  refine crc32cStruct_congr _ _ fun i _ hi => ?_
  rw [hfield] at hi
  exact store32_outside (by omega)

theorem sealStruct_field {m : Bytes} {size ckOff : UInt32} {off : Nat}
    (h : off + 4 ≤ ckOff.toNat ∨ ckOff.toNat + 4 ≤ off) :
    load32 (sealStruct m size ckOff) off = load32 m off := load32_store32_other h

theorem SuperblockAccepted.congr {sb sb' : Bytes} (h : SuperblockAccepted sb)
    (heq : ∀ i < 4096, sb' i = sb i) : SuperblockAccepted sb' := by
  have h32 : ∀ off, off + 4 ≤ 4096 → load32 sb' off = load32 sb off := fun off hoff =>
    load32_congr fun k hk => heq _ (by omega)
  have h16 : ∀ off, off + 2 ≤ 4096 → load16 sb' off = load16 sb off := fun off hoff =>
    load16_congr fun k hk => heq _ (by omega)
  have hcrc : crc32cStruct sb' owfsBlockSize owfsSuperblockCk =
      crc32cStruct sb owfsBlockSize owfsSuperblockCk :=
    crc32cStruct_congr _ _ fun i hi _ => heq i hi
  refine ⟨(h32 _ (by omega)).trans h.magic, (h32 _ (by omega)).trans h.blockSize,
    hcrc.trans (h.checked.trans (h32 _ (by omega)).symm), ?_, ?_⟩
  · rw [Superblock.versionMajor, h16 _ (by omega)]
    exact h.version
  · rw [Superblock.securityFlags, h32 _ (by omega)]
    exact h.clear

section ProbedVolume
variable {blocks : Nat → Bytes} {drive : UInt8} {s : Machine}

theorem probed_volume {i : Nat} (hi : i < 4096) :
    (probed (some (volumeDisk blocks)) drive s).gSb i = blocks 16 i := by
  rw [probed, fetched_sb_gSb, blit_inside (by omega) (by omega), Nat.sub_zero,
    volumeDisk_block (by decide) hi]
  rfl

theorem probed_volume_field (blocks : Nat → Bytes) (drive : UInt8) (s : Machine) {off : Nat}
    (hoff : off + 4 ≤ 4096) :
    load32 (probed (some (volumeDisk blocks)) drive s).gSb off = load32 (blocks 16) off :=
  load32_congr fun k hk => probed_volume (by omega)

theorem owfsProbe_volume (drive : UInt8) (s : Machine) (h : SuperblockAccepted (blocks 16)) :
    owfsProbe (some (volumeDisk blocks)) drive s = (mblComVolumeProbeOk,
      owfsWarnVolumeCondition (probed (some (volumeDisk blocks)) drive s)) :=
  owfsProbe_accepts _ _ (diskOf_reads _ _ _) (h.congr fun _ hi => probed_volume hi)

end ProbedVolume

def plainSuperblock (totalBlocks totalInodes tableStart tableBlocks dataStart : UInt32) : Bytes :=
  sealStruct (words [(0x000, owfsMagic), (0x004, 0x00020001), (0x008, owfsBlockSize),
    (0x00C, totalBlocks), (0x014, totalInodes), (0x024, tableStart), (0x028, tableBlocks),
    (0x02C, dataStart)]) owfsBlockSize owfsSuperblockCk

section PlainSuperblock
variable (totalBlocks totalInodes tableStart tableBlocks dataStart : UInt32)

theorem plainSuperblock_accepted : SuperblockAccepted
    (plainSuperblock totalBlocks totalInodes tableStart tableBlocks dataStart) := by
  refine ⟨?_, ?_, sealStruct_checked _ _ (by decide), ?_, ?_⟩
  · rw [Superblock.magic, plainSuperblock, sealStruct_field (by decide)]
    exact load32_store32 _ _ _
  · rw [Superblock.blockSize, plainSuperblock, sealStruct_field (by decide)]
    simp [words, load32_store32, load32_store32_other]
  · have hword : load32 (plainSuperblock totalBlocks totalInodes tableStart tableBlocks dataStart)
        0x004 = 0x00020001 := by
      rw [plainSuperblock, sealStruct_field (by decide)]
      simp [words, load32_store32, load32_store32_other]
    have hlow := load16_of_load32 (plainSuperblock totalBlocks totalInodes tableStart tableBlocks
      dataStart) 0x004
    rw [hword] at hlow
    exact UInt16.le_iff_toNat_le.mpr (le_of_eq hlow)
  · rw [Superblock.securityFlags, plainSuperblock, sealStruct_field (by decide)]
    simp [words, load32_store32_other]
    decide

@[simp] theorem plainSuperblock_totalInodes : Superblock.totalInodes
    (plainSuperblock totalBlocks totalInodes tableStart tableBlocks dataStart) = totalInodes := by
  rw [Superblock.totalInodes, plainSuperblock, sealStruct_field (by decide)]
  simp [words, load32_store32, load32_store32_other]

@[simp] theorem plainSuperblock_inodeTableStart : Superblock.inodeTableStart
    (plainSuperblock totalBlocks totalInodes tableStart tableBlocks dataStart) = tableStart := by
  rw [Superblock.inodeTableStart, plainSuperblock, sealStruct_field (by decide)]
  simp [words, load32_store32, load32_store32_other]

end PlainSuperblock

/-- Inode 1 of a volume without any other inode, from its fields; the blocks
behind the first of the table are filled with ones. -/
def oneFileBlocks (fields : List (Nat × UInt32)) : Nat → Bytes :=
  Function.update (Function.update (fun _ _ => 1) 18
    (blit (fun _ => 0) 256 256 (sealStruct (words fields) owfsInodeSize owfsStructCk)))
    16 (plainSuperblock 275 16 18 256 274)

def oneFileVolume (fields : List (Nat × UInt32)) : BlockIo := volumeDisk (oneFileBlocks fields)

def oneFileProbed (fields : List (Nat × UInt32)) (ram : Bytes) : Machine :=
  owfsWarnVolumeCondition (probed (some (oneFileVolume fields)) 0 (.boot ram))

section OneFile
variable (fields : List (Nat × UInt32)) (ram : Bytes)

theorem oneFileBlocks_superblock :
    oneFileBlocks fields 16 = plainSuperblock 275 16 18 256 274 := Function.update_self ..

theorem oneFileVolume_probe : owfsProbe (some (oneFileVolume fields)) 0 (.boot ram) =
    (mblComVolumeProbeOk, oneFileProbed fields ram) := by
  have hsb : SuperblockAccepted (oneFileBlocks fields 16) := by
    rw [oneFileBlocks_superblock]
    exact plainSuperblock_accepted ..
  exact owfsProbe_volume _ _ hsb

theorem oneFileProbed_field {off : Nat} (hoff : off + 4 ≤ 4096) :
    load32 (oneFileProbed fields ram).gSb off =
      load32 (plainSuperblock 275 16 18 256 274) off := by
  rw [oneFileProbed, owfsWarnVolumeCondition_gSb, oneFileVolume, probed_volume_field _ _ _ hoff,
    oneFileBlocks_superblock]

theorem oneFileProbed_inodeBlock : inodeBlock (oneFileProbed fields ram).gSb 1 = 18 := by
  have hstart : Superblock.inodeTableStart (oneFileProbed fields ram).gSb = 18 :=
    (oneFileProbed_field fields ram (by omega)).trans (plainSuperblock_inodeTableStart ..)
  rw [inodeBlock, hstart]
  decide

theorem oneFileProbed_inode {i : Nat} (hi : i < 256) :
    onDiskInode (some (oneFileVolume fields)) (oneFileProbed fields ram).gSb 1 i =
      sealStruct (words fields) owfsInodeSize owfsStructCk i := by
  have hslot : ((1 &&& 0x0F : UInt32) * owfsInodeSize).toNat = 256 := by decide
  have hblock : oneFileBlocks fields 18 = blit (fun _ => 0) 256 256
      (sealStruct (words fields) owfsInodeSize owfsStructCk) := by
    rw [oneFileBlocks, Function.update_of_ne (by decide), Function.update_self]
  rw [onDiskInode, oneFileProbed_inodeBlock, inodeSlot, if_pos (by simpa using hi), hslot,
    oneFileVolume, volumeDisk_block (by decide) (by omega)]
  show oneFileBlocks fields 18 (256 + i) = _
  rw [hblock, blit_at hi]

theorem oneFileProbed_inodeField {off : Nat} (hoff : off + 4 ≤ 0xFC) :
    load32 (onDiskInode (some (oneFileVolume fields)) (oneFileProbed fields ram).gSb 1) off =
      load32 (words fields) off := by
  have hsealed : load32 (onDiskInode (some (oneFileVolume fields))
      (oneFileProbed fields ram).gSb 1) off =
      load32 (sealStruct (words fields) owfsInodeSize owfsStructCk) off :=
    load32_congr fun k hk => oneFileProbed_inode fields ram (by omega)
  rw [hsealed, sealStruct_field (.inl hoff)]

theorem oneFileProbed_entryType :
    Inode.entryType (onDiskInode (some (oneFileVolume fields)) (oneFileProbed fields ram).gSb 1) =
      words fields 4 := by
  rw [Inode.entryType, oneFileProbed_inode fields ram (by omega), sealStruct,
    store32_outside (.inl (by decide))]

theorem oneFileProbed_accepted (h : words fields 4 ≠ 0) :
    InodeAccepted (some (oneFileVolume fields)) 1 (oneFileProbed fields ram) := by
  have hinodes : Superblock.totalInodes (oneFileProbed fields ram).gSb = 16 :=
    (oneFileProbed_field fields ram (by omega)).trans (plainSuperblock_totalInodes ..)
  have hseal := sealStruct_checked (words fields) owfsInodeSize
    (show owfsStructCk.toNat + 4 < 2 ^ 32 by decide)
  refine ⟨?_, diskOf_reads _ _ _, ?_, ?_⟩
  · rw [hinodes]
    decide
  · rwa [oneFileProbed_entryType]
  · have hcrc := crc32cStruct_congr owfsInodeSize owfsStructCk
      fun i hi _ => oneFileProbed_inode fields ram (i := i) hi
    rw [hcrc, hseal, Inode.checksum]
    have hck : owfsStructCk.toNat = 0xFC := rfl
    exact (load32_congr fun k hk => oneFileProbed_inode fields ram (by omega)).symm

end OneFile

def fileFields (size blocks : UInt32) : List (Nat × UInt32) :=
  [(0x04, 1), (0x0A, size), (0x0E, blocks), (0x1E, 274), (0x22, 274)]

section FileFields
variable (size blocks : UInt32) (ram : Bytes)

theorem fileFields_size : Inode.sizeBytes (onDiskInode (some (oneFileVolume
    (fileFields size blocks))) (oneFileProbed (fileFields size blocks) ram).gSb 1) = size := by
  rw [Inode.sizeBytes, oneFileProbed_inodeField _ _ (by omega)]
  simp [fileFields, words, load32_store32, load32_store32_other]

theorem fileFields_count : Inode.blockCount (onDiskInode (some (oneFileVolume
    (fileFields size blocks))) (oneFileProbed (fileFields size blocks) ram).gSb 1) = blocks := by
  rw [Inode.blockCount, oneFileProbed_inodeField _ _ (by omega)]
  simp [fileFields, words, load32_store32, load32_store32_other]

theorem fileFields_type : words (fileFields size blocks) 4 = 1 := by
  have hbyte : words (fileFields size blocks) (4 + 0) = byteOf (1 : UInt32).toNat 0 := by
    rw [fileFields, words, List.foldr_cons, store32, blit_at (by omega)]
  exact hbyte.trans (by decide)

end FileFields

end ModularBootloader
