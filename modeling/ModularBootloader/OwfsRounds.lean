import ModularBootloader.Owfs

/-!
# What one driver call does

Each helper of the driver in terms of the medium: the inode a number selects,
the word a map index resolves to, and the fetch of one mapped block. A fetch
either fails, raising the code it returns, or continues with a state that is
given outright. Everything proved later about the two block loops rests on the
round lemmas at the end.
-/

namespace ModularBootloader
open ByteStore

def staging : Nat := mblFsBuf.toNat

@[simp] theorem mblFsBuf_toNat : mblFsBuf.toNat = 0x30000 := rfl
@[simp] theorem mblKernelAddr_toNat : mblKernelAddr.toNat = 0x200000 := rfl
@[simp] theorem owfsBlockSize_toNat : owfsBlockSize.toNat = 4096 := rfl
@[simp] theorem owfsInodeSize_toNat : owfsInodeSize.toNat = 256 := rfl
@[simp] theorem owfsDirectBlocks_toNat : owfsDirectBlocks.toNat = 10 := rfl

def fetched (io : Option BlockIo) (block : UInt32) (target : Target) (s : Machine) : Machine :=
  (s.request block target).deliver target 4096 (diskBlock io block)

section Frames
variable (io : Option BlockIo) (block : UInt32) (s : Machine)

@[simp] theorem fetched_requests (t : Target) :
    (fetched io block t s).requests = ⟨block, t⟩ :: s.requests := by simp [fetched]
@[simp] theorem fetched_raises (t : Target) : (fetched io block t s).raises = s.raises := by
  simp [fetched]
@[simp] theorem fetched_diag (t : Target) : (fetched io block t s).diag = s.diag := by
  simp [fetched]
@[simp] theorem fetched_buf_gSb : (fetched io block .blockBuf s).gSb = s.gSb := rfl
@[simp] theorem fetched_buf_ram : (fetched io block .blockBuf s).ram = s.ram := rfl
@[simp] theorem fetched_buf_stores : (fetched io block .blockBuf s).stores = s.stores := rfl
@[simp] theorem fetched_linear_gSb (a : UInt32) :
    (fetched io block (.linear a) s).gSb = s.gSb := rfl
@[simp] theorem fetched_linear_ram (a : UInt32) :
    (fetched io block (.linear a) s).ram = blit s.ram a.toNat 4096 (diskBlock io block) := rfl
@[simp] theorem fetched_linear_stores (a : UInt32) :
    (fetched io block (.linear a) s).stores = (a.toNat, 4096) :: s.stores := rfl
@[simp] theorem fetched_sb_gSb :
    (fetched io block .sb s).gSb = blit s.gSb 0 4096 (diskBlock io block) := rfl
@[simp] theorem fetched_sb_ram : (fetched io block .sb s).ram = s.ram := rfl

end Frames

theorem diskReadBlock_fails {io : Option BlockIo} {block : UInt32} {target : Target} {s : Machine}
    (h : readFails io s.requests.length block = true) :
    diskReadBlock io block target s = (-1, s.request block target) := by
  rw [diskReadBlock_eq, if_pos h]

theorem diskReadBlock_reads {io : Option BlockIo} {block : UInt32} {target : Target} {s : Machine}
    (h : readFails io s.requests.length block = false) :
    diskReadBlock io block target s = (0, fetched io block target s) := by
  rw [diskReadBlock_eq, h]
  rfl

def probed (io : Option BlockIo) (drive : UInt8) (s : Machine) : Machine :=
  fetched io owfsSuperblockBlock .sb { s with gDrive := drive }

theorem owfsProbe_fails {io : Option BlockIo} {drive : UInt8} {s : Machine}
    (h : readFails io s.requests.length owfsSuperblockBlock = true) :
    owfsProbe io drive s = fault mblBanIoError
      (({ s with gDrive := drive } : Machine).request owfsSuperblockBlock .sb) := by
  rw [owfsProbe, diskReadBlock_fails (s := { s with gDrive := drive }) h]
  simp

theorem owfsProbe_reads {io : Option BlockIo} {drive : UInt8} {s : Machine}
    (h : readFails io s.requests.length owfsSuperblockBlock = false) :
    owfsProbe io drive s = checkSuperblock (probed io drive s) := by
  rw [owfsProbe, diskReadBlock_reads (s := { s with gDrive := drive }) h]
  simp [probed]

structure SuperblockAccepted (sb : Bytes) : Prop where
  magic : Superblock.magic sb = owfsMagic
  blockSize : Superblock.blockSize sb = owfsBlockSize
  checked : crc32cStruct sb owfsBlockSize owfsSuperblockCk = Superblock.checksum sb
  version : Superblock.versionMajor sb ≤ owfsVersionMajor
  clear : Superblock.securityFlags sb &&& owfsSecEncrypted = 0

theorem checkSuperblock_accepts {s : Machine} (h : SuperblockAccepted s.gSb) :
    checkSuperblock s = (mblComVolumeProbeOk, owfsWarnVolumeCondition s) := by
  have husfs : owfsMagic ≠ usfsMagic := by decide
  simp [checkSuperblock, husfs, h.magic, h.blockSize, h.checked, UInt16.not_lt.mpr h.version,
    h.clear]

section WarnVolumeCondition
variable (s : Machine)

@[simp] theorem owfsWarnVolumeCondition_gSb : (owfsWarnVolumeCondition s).gSb = s.gSb := by
  unfold owfsWarnVolumeCondition
  simp only [apply_ite Machine.gSb, Machine.raise_gSb, ite_self]

@[simp] theorem owfsWarnVolumeCondition_ram : (owfsWarnVolumeCondition s).ram = s.ram := by
  unfold owfsWarnVolumeCondition
  simp only [apply_ite Machine.ram, Machine.raise_ram, ite_self]

@[simp] theorem owfsWarnVolumeCondition_requests :
    (owfsWarnVolumeCondition s).requests = s.requests := by
  unfold owfsWarnVolumeCondition
  simp only [apply_ite Machine.requests, Machine.raise_requests, ite_self]

@[simp] theorem owfsWarnVolumeCondition_stores :
    (owfsWarnVolumeCondition s).stores = s.stores := by
  unfold owfsWarnVolumeCondition
  simp only [apply_ite Machine.stores, Machine.raise_stores, ite_self]

end WarnVolumeCondition

theorem owfsProbe_accepts (io : Option BlockIo) (drive : UInt8) {s : Machine}
    (hread : readFails io s.requests.length owfsSuperblockBlock = false)
    (h : SuperblockAccepted (probed io drive s).gSb) :
    owfsProbe io drive s =
      (mblComVolumeProbeOk, owfsWarnVolumeCondition (probed io drive s)) := by
  rw [owfsProbe_reads hread, checkSuperblock_accepts h]

def onDiskInode (io : Option BlockIo) (sb : Bytes) (num : UInt32) : Bytes :=
  inodeSlot (diskBlock io (inodeBlock sb num)) num

theorem slot_offset (num : UInt32) : ((num &&& 0x0F) * owfsInodeSize).toNat + 256 ≤ 4096 := by
  have hlow : (num &&& 0x0F).toNat ≤ 15 := by
    rw [UInt32.toNat_and]
    exact Nat.and_le_right
  rw [UInt32.toNat_mul, owfsInodeSize_toNat]
  omega

theorem inodeSlot_blit (m d : Bytes) (num : UInt32) :
    inodeSlot (blit m 0 4096 d) num = inodeSlot d num := by
  have hoff := slot_offset num
  funext i
  unfold inodeSlot
  split
  · next hi =>
    rw [owfsInodeSize_toNat] at hi
    rw [blit_inside (by omega) (by omega), Nat.sub_zero]
  · rfl

theorem owfsReadInode_eq (io : Option BlockIo) (num : UInt32) (s : Machine) :
    owfsReadInode io num s =
      let block := inodeBlock s.gSb num
      let ino := onDiskInode io s.gSb num
      if num ≥ Superblock.totalInodes s.gSb then (.error (-1), s)
      else if readFails io s.requests.length block then
        (.error (-2), (s.request block .blockBuf).raise mblBanIoError)
      else if Inode.entryType ino = 0 then (.error (-3), fetched io block .blockBuf s)
      else if crc32cStruct ino owfsInodeSize owfsStructCk ≠ Inode.checksum ino then
        (.error (-4), (fetched io block .blockBuf s).raise mblBanInodeChecksum)
      else (.ok ino, fetched io block .blockBuf s) := by
  unfold owfsReadInode
  by_cases hnum : num ≥ Superblock.totalInodes s.gSb
  · simp only [hnum, if_true]
  · cases hread : readFails io s.requests.length (inodeBlock s.gSb num) with
    | true => simp [hnum, hread, diskReadBlock_fails hread]
    | false =>
      have hslot : inodeSlot (fetched io (inodeBlock s.gSb num) .blockBuf s).gBlockBuf num =
          onDiskInode io s.gSb num := inodeSlot_blit _ _ _
      simp [hnum, hread, diskReadBlock_reads hread, hslot]

structure InodeAccepted (io : Option BlockIo) (num : UInt32) (s : Machine) : Prop where
  inTable : num < Superblock.totalInodes s.gSb
  read : readFails io s.requests.length (inodeBlock s.gSb num) = false
  used : Inode.entryType (onDiskInode io s.gSb num) ≠ 0
  checked : crc32cStruct (onDiskInode io s.gSb num) owfsInodeSize owfsStructCk =
    Inode.checksum (onDiskInode io s.gSb num)

theorem owfsReadInode_accepted {io : Option BlockIo} {num : UInt32} {s : Machine}
    (h : InodeAccepted io num s) :
    owfsReadInode io num s =
      (.ok (onDiskInode io s.gSb num), fetched io (inodeBlock s.gSb num) .blockBuf s) := by
  rw [owfsReadInode_eq]
  simp [UInt32.not_le.mpr h.inTable, h.read, h.used, h.checked]

theorem owfsReadInode_ok {io : Option BlockIo} {num : UInt32} {s s' : Machine} {ino : Bytes}
    (h : owfsReadInode io num s = (.ok ino, s')) :
    InodeAccepted io num s ∧ ino = onDiskInode io s.gSb num ∧
      s' = fetched io (inodeBlock s.gSb num) .blockBuf s := by
  rw [owfsReadInode_eq] at h
  dsimp only at h
  split at h
  · cases h
  · next hnum =>
    split at h
    · cases h
    · next hread =>
      split at h
      · cases h
      · next hused =>
        split at h
        · cases h
        · next hck =>
          cases h
          exact ⟨⟨UInt32.not_le.mp hnum, by simpa using hread, hused, not_not.mp hck⟩, rfl, rfl⟩

def staged (io : Option BlockIo) (ram : Bytes) (block : UInt32) : Bytes :=
  blit ram staging 4096 (diskBlock io block)

/-- The block number a map index resolves to, zero for a hole. -/
def mapWord (io : Option BlockIo) (ram ino : Bytes) (idx : UInt32) : UInt32 :=
  if idx < owfsDirectBlocks then Inode.directBlock ino idx
  else read32 (window (staged io ram (Inode.indirectBlock ino)) (indirectWordAddr idx).toNat)

def lookedUp (io : Option BlockIo) (ino : Bytes) (idx : UInt32) (s : Machine) : Machine :=
  if idx < owfsDirectBlocks then s
  else fetched io (Inode.indirectBlock ino) (.linear mblFsBuf) s

def LookupFails (io : Option BlockIo) (nth : Nat) (ram ino : Bytes) (idx : UInt32) : Prop :=
  (¬ idx < owfsDirectBlocks ∧ (Inode.indirectBlock ino = 0 ∨
    readFails io nth (Inode.indirectBlock ino) = true)) ∨ mapWord io ram ino idx = 0

def IsMapFault (code : Bancode) : Prop := code = mblSoftBadBlockMap ∨ code = mblBanIoError

theorem IsMapFault.not_success {code : Bancode} (h : IsMapFault code) :
    mblCodeIsSuccess code = false := by
  rcases h with rfl | rfl <;> decide

theorem owfsBlockmapGet_ok {io : Option BlockIo} {ino : Bytes} {idx : UInt32} {s : Machine}
    (hidx : idx < Inode.blockCount ino)
    (h : ¬ LookupFails io s.requests.length s.ram ino idx) :
    owfsBlockmapGet io ino idx s = (.ok (mapWord io s.ram ino idx), lookedUp io ino idx s) := by
  rw [LookupFails, not_or, not_and, not_or] at h
  obtain ⟨hind, hword⟩ := h
  unfold owfsBlockmapGet
  rw [if_neg (UInt32.not_le.mpr hidx)]
  by_cases hd : idx < owfsDirectBlocks
  · rw [mapWord, if_pos hd] at hword ⊢
    rw [if_pos hd, if_neg hword, lookedUp, if_pos hd]
  · obtain ⟨hnz, hread⟩ := hind hd
    rw [mapWord, if_neg hd] at hword ⊢
    rw [if_neg hd, if_neg hnz, diskReadBlock_reads (by simpa using hread), lookedUp, if_neg hd]
    exact if_neg hword

def LookupStopped (io : Option BlockIo) (ino : Bytes) (idx : UInt32) (s t : Machine) : Prop :=
  t = s ∨ (¬ idx < owfsDirectBlocks ∧ Inode.indirectBlock ino ≠ 0 ∧
    (t = s.request (Inode.indirectBlock ino) (.linear mblFsBuf) ∨ t = lookedUp io ino idx s))

theorem owfsBlockmapGet_fails {io : Option BlockIo} {ino : Bytes} {idx : UInt32} {s : Machine}
    (h : LookupFails io s.requests.length s.ram ino idx) :
    ∃ e t code, owfsBlockmapGet io ino idx s = (.error e, t.raise code) ∧ IsMapFault code ∧
      LookupStopped io ino idx s t := by
  unfold owfsBlockmapGet
  by_cases hidx : idx ≥ Inode.blockCount ino
  · exact ⟨-1, s, _, by rw [if_pos hidx], .inl rfl, .inl rfl⟩
  rw [if_neg hidx]
  by_cases hd : idx < owfsDirectBlocks
  · have hzero : Inode.directBlock ino idx = 0 := by
      rcases h with ⟨hnd, _⟩ | hw
      · exact absurd hd hnd
      · rwa [mapWord, if_pos hd] at hw
    exact ⟨-1, s, _, by rw [if_pos hd, if_pos hzero], .inl rfl, .inl rfl⟩
  rw [if_neg hd]
  by_cases hnz : Inode.indirectBlock ino = 0
  · exact ⟨-1, s, _, by rw [if_pos hnz], .inl rfl, .inl rfl⟩
  rw [if_neg hnz]
  cases hread : readFails io s.requests.length (Inode.indirectBlock ino) with
  | true =>
    exact ⟨-2, _, _, by rw [diskReadBlock_fails hread]; rfl, .inr rfl,
      .inr ⟨hd, hnz, .inl rfl⟩⟩
  | false =>
    have hword : mapWord io s.ram ino idx = 0 := by
      rcases h with ⟨_, hz | hr⟩ | hw
      · exact absurd hz hnz
      · rw [hread] at hr
        cases hr
      · exact hw
    refine ⟨-1, lookedUp io ino idx s, mblSoftBadBlockMap, ?_, .inl rfl,
      .inr ⟨hd, hnz, .inr rfl⟩⟩
    rw [mapWord, if_neg hd] at hword
    rw [diskReadBlock_reads hread, lookedUp, if_neg hd]
    exact if_pos hword

def lookupTransfers (idx : UInt32) : Nat := if idx < owfsDirectBlocks then 0 else 1

/-- The fetch of map index `idx` fails, `nth` transfers having been issued. -/
def FetchFails (io : Option BlockIo) (nth : Nat) (ram ino : Bytes) (idx : UInt32) : Prop :=
  LookupFails io nth ram ino idx ∨
    readFails io (nth + lookupTransfers idx) (mapWord io ram ino idx) = true

def fetchedAt (io : Option BlockIo) (ino : Bytes) (idx : UInt32) (s : Machine) : Machine :=
  fetched io (mapWord io s.ram ino idx) (.linear mblFsBuf) (lookedUp io ino idx s)

section LookedUp
variable (io : Option BlockIo) (ino : Bytes) (idx : UInt32) (s : Machine)

theorem lookedUp_requests_length :
    (lookedUp io ino idx s).requests.length = s.requests.length + lookupTransfers idx := by
  unfold lookedUp lookupTransfers
  split <;> simp

@[simp] theorem lookedUp_gSb : (lookedUp io ino idx s).gSb = s.gSb := by
  unfold lookedUp
  split <;> rfl

@[simp] theorem lookedUp_diag : (lookedUp io ino idx s).diag = s.diag := by
  unfold lookedUp
  split <;> simp

@[simp] theorem lookedUp_raises : (lookedUp io ino idx s).raises = s.raises := by
  unfold lookedUp
  split <;> simp

@[simp] theorem fetchedAt_gSb : (fetchedAt io ino idx s).gSb = s.gSb := by simp [fetchedAt]

@[simp] theorem fetchedAt_diag : (fetchedAt io ino idx s).diag = s.diag := by simp [fetchedAt]

@[simp] theorem fetchedAt_raises : (fetchedAt io ino idx s).raises = s.raises := by
  simp [fetchedAt]

theorem fetchedAt_ram :
    (fetchedAt io ino idx s).ram = staged io s.ram (mapWord io s.ram ino idx) := by
  rw [fetchedAt, fetched_linear_ram, lookedUp, staged]
  split
  · rfl
  · rw [fetched_linear_ram, blit_blit]
    rfl

end LookedUp

def loadNext (io : Option BlockIo) (ino : Bytes) (st : LoadState) : LoadState :=
  ⟨st.idx + 1, st.dst + copyLength ino st.idx,
    (fetchedAt io ino st.idx st.machine).copyBytes st.dst.toNat mblFsBuf.toNat
      (copyLength ino st.idx)⟩

theorem loadStep_next (io : Option BlockIo) {ino : Bytes} (sizeOut : UInt32) {st : LoadState}
    (hidx : st.idx < Inode.blockCount ino)
    (h : ¬ FetchFails io st.machine.requests.length st.machine.ram ino st.idx) :
    loadStep io ino sizeOut st = .inr (loadNext io ino st) := by
  rw [FetchFails, not_or] at h
  have hread := h.2
  rw [← lookedUp_requests_length io ino] at hread
  rw [loadStep, owfsBlockmapGet_ok hidx h.1]
  simp only [diskReadBlock_reads (by simpa using hread)]
  rfl

def StoppedAt (io : Option BlockIo) (ino : Bytes) (idx : UInt32) (s t : Machine) : Prop :=
  (LookupFails io s.requests.length s.ram ino idx ∧ LookupStopped io ino idx s t) ∨
    (¬ LookupFails io s.requests.length s.ram ino idx ∧
      t = (lookedUp io ino idx s).request (mapWord io s.ram ino idx) (.linear mblFsBuf))

theorem StoppedAt.raises {io : Option BlockIo} {ino : Bytes} {idx : UInt32} {s t : Machine}
    (h : StoppedAt io ino idx s t) : t.raises = s.raises := by
  rcases h with ⟨-, rfl | ⟨-, -, rfl | rfl⟩⟩ | ⟨-, rfl⟩
  · rfl
  · rfl
  · exact lookedUp_raises io ino idx s
  · exact lookedUp_raises io ino idx s

theorem loadStep_fails {io : Option BlockIo} {ino : Bytes} (sizeOut : UInt32) {st : LoadState}
    (hidx : st.idx < Inode.blockCount ino)
    (h : FetchFails io st.machine.requests.length st.machine.ram ino st.idx) :
    ∃ t code, loadStep io ino sizeOut st = .inl ⟨code, sizeOut, t.raise code⟩ ∧
      IsMapFault code ∧ StoppedAt io ino st.idx st.machine t := by
  by_cases hl : LookupFails io st.machine.requests.length st.machine.ram ino st.idx
  · obtain ⟨e, t, code, heq, hcode, ht⟩ := owfsBlockmapGet_fails hl
    refine ⟨t, code, ?_, hcode, .inl ⟨hl, ht⟩⟩
    rw [loadStep, heq]
    simp
  · have hread := h.resolve_left hl
    rw [← lookedUp_requests_length io ino] at hread
    refine ⟨_, mblBanIoError, ?_, .inr rfl, .inr ⟨hl, rfl⟩⟩
    rw [loadStep, owfsBlockmapGet_ok hidx hl]
    simp [diskReadBlock_fails hread]

end ModularBootloader
