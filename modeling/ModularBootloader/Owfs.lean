import ModularBootloader.Disk
import ModularBootloader.Lib.BoundedLoop

/-!
# The read-only OWFS driver

`owfs.c` as state passing: probe, inode fetch, block map, root catalog listing
and file streaming. A negative return code is an `Except.error`; the listing
returns the entries it stored, from index zero up.
-/

namespace ModularBootloader
open ByteStore

def owfsWarnVolumeCondition (s : Machine) : Machine :=
  let flags := Superblock.stateFlags s.gSb
  let s := if flags &&& owfsStateDirty ≠ 0 then s.raise mblWarnVolumeDirty else s
  let s := if flags &&& owfsStateLocked ≠ 0 then s.raise mblWarnVolumeLocked else s
  let s := if flags &&& owfsStateError ≠ 0 then s.raise mblWarnStateError else s
  if Superblock.versionMajor s.gSb = owfsVersionMajor ∧
      Superblock.versionMinor s.gSb ≠ owfsVersionMinor then s.raise mblWarnVersionMismatch else s

def fault (code : Bancode) (s : Machine) : Bancode × Machine := (code, s.raise code)

def checkSuperblock (s : Machine) : Bancode × Machine :=
  if Superblock.magic s.gSb = usfsMagic then fault mblSoftIsUsfs s
  else if Superblock.magic s.gSb ≠ owfsMagic then fault mblSoftNoVolume s
  else if Superblock.blockSize s.gSb ≠ owfsBlockSize then fault mblBanSbMagic s
  else if crc32cStruct s.gSb owfsBlockSize owfsSuperblockCk ≠ Superblock.checksum s.gSb then
    fault mblBanSbChecksum s
  else if Superblock.versionMajor s.gSb > owfsVersionMajor then
    (mblSoftNoVolume, s.raise mblWarnVersionMismatch)
  else if Superblock.securityFlags s.gSb &&& owfsSecEncrypted ≠ 0 then
    fault mblSoftEncryptedVolume s
  else (mblComVolumeProbeOk, owfsWarnVolumeCondition s)

def owfsProbe (io : Option BlockIo) (drive : UInt8) (s : Machine) : Bancode × Machine :=
  let r := diskReadBlock io owfsSuperblockBlock .sb { s with gDrive := drive }
  if r.1 ≠ 0 then fault mblBanIoError r.2 else checkSuperblock r.2

def inodeBlock (sb : Bytes) (num : UInt32) : UInt32 := Superblock.inodeTableStart sb + (num >>> 4)

-- The local copy is a packed structure of its own: no byte past its size.
def inodeSlot (block : Bytes) (num : UInt32) : Bytes := fun i =>
  if i < owfsInodeSize.toNat then block (((num &&& 0x0F) * owfsInodeSize).toNat + i) else 0

def owfsReadInode (io : Option BlockIo) (num : UInt32) (s : Machine) : Except Int Bytes × Machine :=
  if num ≥ Superblock.totalInodes s.gSb then (.error (-1), s)
  else
    let r := diskReadBlock io (inodeBlock s.gSb num) .blockBuf s
    let s := r.2
    if r.1 ≠ 0 then (.error (-2), s.raise mblBanIoError)
    else
      let ino := inodeSlot s.gBlockBuf num
      if Inode.entryType ino = 0 then (.error (-3), s)
      else if crc32cStruct ino owfsInodeSize owfsStructCk ≠ Inode.checksum ino then
        (.error (-4), s.raise mblBanInodeChecksum)
      else (.ok ino, s)

def indirectWordAddr (idx : UInt32) : UInt32 := mblFsBuf + (idx - owfsDirectBlocks) * 4

def owfsBlockmapGet (io : Option BlockIo) (inode : Bytes) (idx : UInt32) (s : Machine) :
    Except Int UInt32 × Machine :=
  if idx ≥ Inode.blockCount inode then (.error (-1), s.raise mblSoftBadBlockMap)
  else if idx < owfsDirectBlocks then
    if Inode.directBlock inode idx = 0 then (.error (-1), s.raise mblSoftBadBlockMap)
    else (.ok (Inode.directBlock inode idx), s)
  else if Inode.indirectBlock inode = 0 then (.error (-1), s.raise mblSoftBadBlockMap)
  else
    let r := diskReadBlock io (Inode.indirectBlock inode) (.linear mblFsBuf) s
    let s := r.2
    if r.1 ≠ 0 then (.error (-2), s.raise mblBanIoError)
    else
      let outBlock := read32 (window s.ram (indirectWordAddr idx).toNat)
      if outBlock = 0 then (.error (-1), s.raise mblSoftBadBlockMap)
      else (.ok outBlock, s)

def stagedEntry (ram : Bytes) (e : Nat) : Bytes :=
  window ram (mblFsBuf.toNat + e * owfsCatalogEntrySize)

def listable (ce : Bytes) : Bool :=
  CatalogEntry.entryType ce ≠ 0 && CatalogEntry.entryType ce &&& owfsEntryDeleted = 0

def listEntry (ce : Bytes) : MblEntry where
  inode := CatalogEntry.inodeNumber ce
  type := CatalogEntry.entryType ce
  name := owfsNameToAscii (CatalogEntry.name ce) (CatalogEntry.nameLength ce)
  size := 0
  name_fits := owfsNameToAscii_length _ _

structure Scan where
  full : Bool
  entries : List MblEntry
  machine : Machine

/-- One catalog block, slot by slot; `full` records the early `return count`. -/
def scanSlots (max : Int) : List Nat → List MblEntry → Machine → Scan
  | [], es, s => ⟨false, es, s⟩
  | e :: rest, es, s =>
    let ce := stagedEntry s.ram e
    if listable ce then
      if crc32cStruct ce owfsInodeSize owfsStructCk ≠ CatalogEntry.checksum ce then
        scanSlots max rest es (s.raise mblBanCatalogChecksum)
      else if (es.length : Int) ≥ max then ⟨true, es, s⟩
      else scanSlots max rest (es ++ [listEntry ce]) s
    else scanSlots max rest es s

structure Listing where
  result : Int
  entries : List MblEntry
  machine : Machine

structure EnumState where
  idx : UInt32
  entries : List MblEntry
  machine : Machine

def enumerateStep (io : Option BlockIo) (root : Bytes) (max : Int) (st : EnumState) :
    Listing ⊕ EnumState :=
  match owfsBlockmapGet io root st.idx st.machine with
  | (.error _, s) => .inl ⟨-3, st.entries, s⟩
  | (.ok bnum, s) =>
    let r := diskReadBlock io bnum (.linear mblFsBuf) s
    if r.1 ≠ 0 then .inl ⟨-4, st.entries, r.2.raise mblBanIoError⟩
    else
      let scan := scanSlots max (List.range owfsEntriesPerBlock) st.entries r.2
      if scan.full then .inl ⟨scan.entries.length, scan.entries, scan.machine⟩
      else .inr ⟨st.idx + 1, scan.entries, scan.machine⟩

def enumerateFinish (st : EnumState) : Listing :=
  ⟨st.entries.length, st.entries,
    if (st.entries.length : Int) > 0 then st.machine.raise mblComCatalogEnumOk else st.machine⟩

def owfsEnumerate (io : Option BlockIo) (max : Int) (s : Machine) : Listing :=
  match owfsReadInode io owfsRootInode s with
  | (.error _, s) => ⟨-1, [], s⟩
  | (.ok root, s) =>
    if Inode.entryType root &&& owfsEntryCatalog = 0 then ⟨-2, [], s.raise mblBanInodeChecksum⟩
    else BoundedLoop.run (enumerateStep io root max) enumerateFinish
      (Inode.blockCount root).toNat ⟨0, [], s⟩

/-- Bytes the copy of block `idx` takes: a whole block, or the rest of the file
in the last one, by the wrapping subtraction of the source. -/
def copyLength (ino : Bytes) (idx : UInt32) : UInt32 :=
  if idx + 1 = Inode.blockCount ino then
    let rem := Inode.sizeBytes ino - idx * owfsBlockSize
    if rem < owfsBlockSize then rem else owfsBlockSize
  else owfsBlockSize

structure Loaded where
  code : Bancode
  size : UInt32
  machine : Machine

structure LoadState where
  idx : UInt32
  dst : UInt32
  machine : Machine

def loadStep (io : Option BlockIo) (ino : Bytes) (sizeOut : UInt32) (st : LoadState) :
    Loaded ⊕ LoadState :=
  match owfsBlockmapGet io ino st.idx st.machine with
  | (.error _, s) => .inl ⟨s.propagate, sizeOut, s⟩
  | (.ok bnum, s) =>
    let r := diskReadBlock io bnum (.linear mblFsBuf) s
    if r.1 ≠ 0 then .inl ⟨mblBanIoError, sizeOut, r.2.raise mblBanIoError⟩
    else
      let n := copyLength ino st.idx
      .inr ⟨st.idx + 1, st.dst + n, r.2.copyBytes st.dst.toNat mblFsBuf.toNat n⟩

def loadFinish (ino : Bytes) (st : LoadState) : Loaded :=
  ⟨mblComKernelLoadOk, Inode.sizeBytes ino, st.machine.raise mblComKernelLoadOk⟩

/-- `sizeOut` is the content of `*size_out` before the call. -/
def owfsLoadFile (io : Option BlockIo) (inodeNum dest sizeOut : UInt32) (s : Machine) : Loaded :=
  match owfsReadInode io inodeNum s with
  | (.error _, s) => ⟨s.propagate, sizeOut, s⟩
  | (.ok ino, s) =>
    if Inode.entryType ino &&& owfsEntryFile = 0 then
      ⟨mblSoftNotAFile, sizeOut, s.raise mblSoftNotAFile⟩
    else if Inode.sizeBytes ino < 16 then
      ⟨mblSoftKernelTooSmall, sizeOut, s.raise mblSoftKernelTooSmall⟩
    else if Inode.sizeBytes ino > mblKernelMax then
      ⟨mblSoftKernelTooLarge, sizeOut, s.raise mblSoftKernelTooLarge⟩
    else BoundedLoop.run (loadStep io ino sizeOut) (loadFinish ino)
      (Inode.blockCount ino).toNat ⟨0, dest, s⟩

end ModularBootloader
