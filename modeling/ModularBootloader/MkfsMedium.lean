import ModularBootloader.MkfsFormat
import ModularBootloader.OwfsMounted

/-!
# A formatted volume under the driver

What the driver reads on a medium that carries a formatted volume in its OWFS
partition: the superblock, the inodes with their maps, and the catalog.
-/

namespace ModularBootloader.Mkfs.Volume
open ByteStore BlockStore

/-- The medium shows the store, with a superblock, from the OWFS partition on;
sector numbers of 32 bits reach its first `k` data blocks. -/
structure OnMedium (vol : Volume) (content : Bytes) (D : Store) (k : Nat) : Prop where
  total : 275 ≤ vol.totalBlocks
  left : k ≤ vol.dataBlocks
  addr : 131200 + 8 * (vol.dataRegionStart + k) < 2 ^ 32
  block : ∀ b < vol.totalBlocks, ∀ i < 4096, volumeBlock content b i = D b i
  super : SuperblockAt vol D

theorem onMedium_of_images {vol : Volume} {room k : Nat} {image : Bytearray} {D : Store}
    (himage : Images vol room image D) (hbase : vol.blockStart = volumeBase)
    (htotal : 275 ≤ vol.totalBlocks) (hleft : k ≤ vol.dataBlocks)
    (haddr : 131200 + 8 * (vol.dataRegionStart + k) < 2 ^ 32)
    (hsuper : SuperblockAt vol D) : OnMedium vol (bytesOf image) D k := by
  refine ⟨htotal, hleft, haddr, ?_, hsuper⟩
  intro b hb i hi
  rw [volumeBlock, window_apply, ← hbase]
  exact himage.block b hb i hi

section Medium
variable {vol : Volume} {content : Bytes} {D : Store} {k b num : Nat} {f : InodeFields}
variable {s : Machine}

theorem OnMedium.diskBlock (h : OnMedium vol content D k) (hb : b < vol.dataRegionStart + k)
    {i : Nat} (hi : i < 4096) :
    ModularBootloader.diskBlock (some (diskOf content)) (UInt32.ofNat b) i = D b i := by
  have haddr := h.addr
  have hleft := h.left
  obtain ⟨hregion, -, -⟩ := vol.geometry h.total
  have hnat : (UInt32.ofNat b).toNat = b := by
    rw [UInt32.toNat_ofNat']
    omega
  rw [diskOf_block (by rw [hnat, owfsPartitionLba_toNat]; omega), hnat]
  exact h.block b (by omega) i hi

theorem OnMedium.superblock (h : OnMedium vol content D k) :
    ∃ sb, SuperblockImage vol sb ∧ ∀ i < 4096, volumeBlock content 16 i = bytesOf sb i := by
  obtain ⟨sb, hsb, hsame⟩ := h.super
  have htotal := h.total
  refine ⟨sb, hsb, ?_⟩
  intro i hi
  rw [h.block 16 (by omega) i hi]
  exact hsame i hi

theorem OnMedium.accepted (h : OnMedium vol content D k) :
    SuperblockAccepted (volumeBlock content 16) := by
  obtain ⟨sb, hsb, hsame⟩ := h.superblock
  exact hsb.accepted.congr hsame

theorem OnMedium.inodeTableStart (h : OnMedium vol content D k) :
    Superblock.inodeTableStart (volumeBlock content 16) = UInt32.ofNat vol.inodeTableStart := by
  obtain ⟨sb, hsb, hsame⟩ := h.superblock
  have hfield : Superblock.inodeTableStart (volumeBlock content 16) =
      Superblock.inodeTableStart (bytesOf sb) := load32_congr fun k hk => hsame _ (by omega)
  rw [hfield, ← UInt32.toNat_inj, hsb.inodeTableStart, UInt32.toNat_ofNat']

theorem OnMedium.totalInodes (h : OnMedium vol content D k) :
    Superblock.totalInodes (volumeBlock content 16) = 0x1000 := by
  obtain ⟨sb, hsb, hsame⟩ := h.superblock
  rw [← hsb.totalInodes]
  exact load32_congr fun k hk => hsame _ (by omega)

theorem OnMedium.slotByte (h : OnMedium vol content D k) (hnum : num < 4096) {i : Nat}
    (hi : i < 256) :
    tableSlot content vol.inodeTableStart num i =
      D (vol.inodeTableStart + num / 16) (256 * (num % 16) + i) := by
  rw [← h.block _ (inodeTable_inside h.total hnum).2 _ (by omega), tableSlot,
    volumeBlock, window_apply, window_apply, Nat.add_assoc]

theorem OnMedium.inodeAddr (h : OnMedium vol content D k) (hnum : num < 4096) :
    131200 + 8 * ((UInt32.ofNat vol.inodeTableStart).toNat + (UInt32.ofNat num).toNat / 16) <
        2 ^ 32 ∧
      (UInt32.ofNat vol.inodeTableStart).toNat = vol.inodeTableStart ∧
      (UInt32.ofNat num).toNat = num := by
  have haddr := h.addr
  have hbefore := (inodeTable_inside h.total hnum).1
  simp only [UInt32.toNat_ofNat']
  omega

theorem OnMedium.inodeByte (h : OnMedium vol content D k) (hm : Mounted content s)
    (hnum : num < 4096) {i : Nat} (hi : i < 256) :
    onDiskInode (some (diskOf content)) s.gSb (UInt32.ofNat num) i =
      D (vol.inodeTableStart + num / 16) (256 * (num % 16) + i) := by
  obtain ⟨haddr, hstart, hnat⟩ := h.inodeAddr hnum
  rw [hm.onDiskInode_eq h.inodeTableStart haddr hi, hstart, hnat, h.slotByte hnum hi]

structure Decoded (f : InodeFields) (ino : Bytes) : Prop where
  type : Inode.entryType ino = UInt8.ofNat f.entryType
  size : (Inode.sizeBytes ino).toNat = f.sizeBytes % 2 ^ 32
  count : (Inode.blockCount ino).toNat = f.blockCount % 2 ^ 32
  direct : ∀ k (hk : k < f.directBlocks.length), k < 10 →
    (load32 ino (0x1E + 4 * k)).toNat = f.directBlocks[k] % 2 ^ 32
  indirect : (Inode.indirectBlock ino).toNat = f.indirectBlock % 2 ^ 32

theorem InodeImage.decoded {bytes : Bytearray} {ino : Bytes} (h : InodeImage f bytes)
    (hsame : ∀ i < 256, ino i = bytesOf bytes i) : Decoded f ino := by
  have hword : ∀ off, off + 4 ≤ 256 → load32 ino off = load32 (bytesOf bytes) off := by
    intro off hoff
    exact load32_congr fun k hk => hsame _ (by omega)
  refine ⟨(hsame 4 (by omega)).trans h.type, ?_, ?_, ?_, ?_⟩
  · rw [Inode.sizeBytes, hword _ (by omega), h.size]
  · rw [Inode.blockCount, hword _ (by omega), h.count]
  · intro k hk hten
    rw [hword _ (by omega), h.direct k hk hten]
  · rw [Inode.indirectBlock, hword _ (by omega), h.indirect]

theorem OnMedium.inode (h : OnMedium vol content D k) (hm : Mounted content s) (hnum : num < 4096)
    (hino : InodeAt vol D num f) (htype : UInt8.ofNat f.entryType ≠ 0) :
    InodeAccepted (some (diskOf content)) (UInt32.ofNat num) s ∧
      Decoded f (onDiskInode (some (diskOf content)) s.gSb (UInt32.ofNat num)) := by
  obtain ⟨ino, himage, hslot⟩ := hino
  obtain ⟨haddr, hstart, hnat⟩ := h.inodeAddr hnum
  have hbytes : ∀ i < 256, tableSlot content
      (UInt32.ofNat vol.inodeTableStart).toNat (UInt32.ofNat num).toNat i = bytesOf ino i := by
    intro i hi
    rw [hstart, hnat, h.slotByte hnum hi, hslot i hi]
  refine ⟨?_, himage.decoded fun i hi => (h.inodeByte hm hnum hi).trans (hslot i hi)⟩
  apply hm.inodeAccepted h.inodeTableStart haddr
  · rw [h.totalInodes, UInt32.lt_iff_toNat_lt, hnat]
    exact hnum
  · rwa [hbytes 4 (by omega), himage.type]
  · have hcrc := crc32cStruct_congr owfsInodeSize owfsStructCk fun i hi _ => hbytes i hi
    rw [hcrc, himage.isSealed]
    exact (load32_congr fun k hk => hbytes _ (by omega)).symm

section Load
variable {start : Nat} {roots : List Nat} {name data : Bytearray} {ino : Bytes}

theorem OnMedium.fileMap (h : OnMedium vol content D k)
    (hfile : FileAt vol D k roots num start name data)
    (hino : Decoded (fileFields num name data ((vol.directOf start (blocksOf data)).take 10)
      (vol.indirectOf start (blocksOf data))) ino) {i : Nat} (hi : i < blocksOf data) :
    ModularBootloader.mapBlock (some (diskOf content)) ino i =
      UInt32.ofNat (vol.dataRegionStart + (start + nthBlock i)) := by
  have hcap := hfile.blocks.capacity
  have hmap : mapCapacity = 1034 := rfl
  rw [← UInt32.toNat_inj, UInt32.toNat_ofNat', ModularBootloader.mapBlock]
  by_cases hten : i < 10
  · have hlen : i < ((vol.directOf start (blocksOf data)).take 10).length := by
      rw [List.length_take, directOf_length]
      omega
    have hword := hino.direct i hlen hten
    rw [mapEntry_direct hten, Option.getD_some, hword]
    dsimp only [fileFields]
    rw [List.getElem_take, directOf_getElem]
  · have hlong : 10 < blocksOf data := by omega
    have hindirect : Inode.indirectBlock ino =
        UInt32.ofNat (vol.dataRegionStart + (start + 10)) := by
      rw [← UInt32.toNat_inj, hino.indirect, UInt32.toNat_ofNat']
      dsimp only [fileFields]
      rw [indirectOf, if_pos hlong]
    have hwithin := hfile.within
    have htaken : takenBlocks (blocksOf data) = blocksOf data + 1 := if_pos hlong
    obtain ⟨hregion, -, -⟩ := vol.geometry h.total
    rw [mapEntry_indirect (by omega) (by omega), Option.getD_some, hindirect,
      ← hfile.blocks.words i (by omega) hi]
    refine congrArg UInt32.toNat (load32_congr ?_)
    intro j hj
    exact h.diskBlock (by omega) (by omega)

theorem OnMedium.loads (h : OnMedium vol content D k) (hm : Mounted content s)
    (hfile : FileAt vol D k roots num start name data) (hnum : num < 4096)
    (hmin : 16 ≤ data.length) (sizeOut : UInt32) :
    (owfsLoadFile (some (diskOf content)) (UInt32.ofNat num) mblKernelAddr sizeOut s).code =
        mblComKernelLoadOk ∧
      (owfsLoadFile (some (diskOf content)) (UInt32.ofNat num) mblKernelAddr sizeOut s).size.toNat =
        data.length ∧
      ∀ j < data.length,
        (owfsLoadFile (some (diskOf content)) (UInt32.ofNat num) mblKernelAddr sizeOut
          s).machine.ram (mblKernelAddr.toNat + j) = data.getD j 0 := by
  have haddr := h.addr
  have hcap := hfile.blocks.capacity
  have hwithin := hfile.within
  have hblocks := blocksOf_eq data
  have hmap : mapCapacity = 1034 := rfl
  have hstart := vol.dataRegionStart_eq
  obtain ⟨hregion, -, -⟩ := vol.geometry h.total
  have hused : UInt8.ofNat entryFile ≠ 0 := by decide
  obtain ⟨hacc, hino⟩ := h.inode hm hnum hfile.inode hused
  have htype := hino.type
  have hsize := hino.size
  have hcount := hino.count
  dsimp only [fileFields] at htype hsize hcount
  rw [Nat.mod_eq_of_lt (by omega)] at hsize hcount
  have hentry := fun i hi => h.fileMap hfile hino (i := i) hi
  have hload : LoadAccepted (some (diskOf content)) (UInt32.ofNat num) s := by
    refine ⟨hacc, ?_, by omega, by omega⟩
    rw [htype]
    decide
  have hmapped : Mapped (some (diskOf content))
      (onDiskInode (some (diskOf content)) s.gSb (UInt32.ofNat num)) (blocksOf data) := by
    refine ⟨by omega, ?_, ?_⟩
    · intro i hi hzero
      have hin := nthBlock_lt hi
      rw [hentry i hi, ← UInt32.toNat_inj, UInt32.toNat_ofNat', UInt32.toNat_zero] at hzero
      omega
    · intro hlong hzero
      have htaken : takenBlocks (blocksOf data) = blocksOf data + 1 := if_pos hlong
      have hindirect := hino.indirect
      dsimp only [fileFields] at hindirect
      rw [hzero, UInt32.toNat_zero, indirectOf, if_pos hlong] at hindirect
      omega
  obtain ⟨hcode, hsizeOut, hbytes⟩ := owfsLoadFile_mapped sizeOut hload hsize hcount
    (by omega) hmapped
  refine ⟨hcode, hsizeOut, ?_⟩
  intro j hj
  have hin := nthBlock_lt (show j / 4096 < blocksOf data by omega)
  rw [hbytes j hj, hentry (j / 4096) (by omega), h.diskBlock (by omega) (by omega),
    hfile.blocks.bytes (j / 4096) (by omega) (j % 4096) (by omega), Nat.div_add_mod]
  rfl

end Load

end Medium

end ModularBootloader.Mkfs.Volume
