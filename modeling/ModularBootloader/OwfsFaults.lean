import ModularBootloader.OwfsCopy

/-!
# Returned codes and raised diagnostics

A driver call that gives up should return the diagnostic it raised last. The
code does so except on two kinds of input: a superblock of a later major
version, which is refused under a different code than the one raised, and an
inode number that is out of range or names a free slot, for which nothing is
raised and the ring is read back as the earlier calls left it.
-/

namespace ModularBootloader
open ByteStore

def ReportsFault (before after : Machine) (code : Bancode) : Prop :=
  (∃ mid, after.raises = code :: (mid ++ before.raises)) ∧
    (DiagRing.mblDiagLast after.diag).map MblDiag.code = some code ∧
    mblCodeIsSuccess code = false

theorem mblDiagLast_machine_raise (code : Bancode) (s : Machine) :
    (DiagRing.mblDiagLast (s.raise code).diag).map MblDiag.code = some code := by
  simp [Machine.raise, DiagRing.mblDiagLast_raise]

theorem reportsFault_raise {before t : Machine} {code : Bancode}
    (ht : t.raises = before.raises) (hc : mblCodeIsSuccess code = false) :
    ReportsFault before (t.raise code) code :=
  ⟨⟨[], by simp [ht]⟩, mblDiagLast_machine_raise code t, hc⟩

theorem not_reportsFault_of_silent {before after : Machine} {code : Bancode}
    (h : after.raises = before.raises) : ¬ ReportsFault before after code := by
  rintro ⟨⟨mid, hmid⟩, -, -⟩
  rw [h] at hmid
  have hlen := congrArg List.length hmid
  simp only [List.length_cons, List.length_append] at hlen
  omega

structure FutureVersion (sb : Bytes) : Prop where
  magic : Superblock.magic sb = owfsMagic
  blockSize : Superblock.blockSize sb = owfsBlockSize
  checked : crc32cStruct sb owfsBlockSize owfsSuperblockCk = Superblock.checksum sb
  newer : owfsVersionMajor < Superblock.versionMajor sb

theorem checkSuperblock_reports (s : Machine) :
    ((checkSuperblock s).1 ≠ mblComVolumeProbeOk →
      ReportsFault s (checkSuperblock s).2 (checkSuperblock s).1) ↔ ¬ FutureVersion s.gSb := by
  by_cases hf : FutureVersion s.gSb
  · have husfs : owfsMagic ≠ usfsMagic := by decide
    have heq : checkSuperblock s = (mblSoftNoVolume, s.raise mblWarnVersionMismatch) := by
      simp [checkSuperblock, husfs, hf.magic, hf.blockSize, hf.checked, hf.newer]
    rw [heq]
    refine iff_of_false (fun h => ?_) (not_not.mpr hf)
    obtain ⟨⟨mid, hmid⟩, -, -⟩ := h (show mblSoftNoVolume ≠ mblComVolumeProbeOk by decide)
    have hhead := (List.cons.inj hmid).1
    exact absurd hhead (show mblWarnVersionMismatch ≠ mblSoftNoVolume by decide)
  · refine iff_of_true (fun hne => ?_) hf
    have hfault : ∀ code, mblCodeIsSuccess code = false →
        ReportsFault s (fault code s).2 (fault code s).1 :=
      fun code hc => reportsFault_raise rfl hc
    unfold checkSuperblock at hne ⊢
    split_ifs at hne ⊢ with h1 h2 h3 h4 h5 h6
    · exact hfault _ (by decide)
    · exact hfault _ (by decide)
    · exact hfault _ (by decide)
    · exact hfault _ (by decide)
    · exact absurd ⟨not_not.mp h2, not_not.mp h3, not_not.mp h4, h5⟩ hf
    · exact hfault _ (by decide)
    · exact absurd rfl hne

def probedSb (io : Option BlockIo) (s : Machine) : Bytes :=
  blit s.gSb 0 4096 (diskBlock io owfsSuperblockBlock)

def ProbeReports (io : Option BlockIo) (drive : UInt8) (s : Machine) : Prop :=
  (owfsProbe io drive s).1 ≠ mblComVolumeProbeOk →
    ReportsFault s (owfsProbe io drive s).2 (owfsProbe io drive s).1

def RefusedAsFuture (io : Option BlockIo) (s : Machine) : Prop :=
  readFails io s.requests.length owfsSuperblockBlock = false ∧ FutureVersion (probedSb io s)

theorem owfsProbe_reports (io : Option BlockIo) (drive : UInt8) (s : Machine) :
    ProbeReports io drive s ↔ ¬ RefusedAsFuture io s := by
  unfold ProbeReports RefusedAsFuture
  cases hread : readFails io s.requests.length owfsSuperblockBlock with
  | true =>
    rw [owfsProbe_fails hread]
    exact iff_of_true (fun _ => reportsFault_raise rfl (by decide)) (by simp)
  | false =>
    rw [owfsProbe_reads hread]
    have hraises : (probed io drive s).raises = s.raises := by simp [probed]
    have hsb : (probed io drive s).gSb = probedSb io s := rfl
    have hchecks := checkSuperblock_reports (probed io drive s)
    simp only [ReportsFault, hraises, hsb] at hchecks
    simpa [ReportsFault] using hchecks

/-- The call reads its inode, accepts it and makes every round of its copy loop. -/
def CopyLoopEnds (io : Option BlockIo) (num dest sizeOut : UInt32) (s : Machine) : Prop :=
  ∃ ino t st, owfsReadInode io num s = (.ok ino, t) ∧
    Inode.entryType ino &&& owfsEntryFile ≠ 0 ∧ 16 ≤ Inode.sizeBytes ino ∧
    Inode.sizeBytes ino ≤ mblKernelMax ∧
    BoundedLoop.Reaches (loadStep io ino sizeOut) ⟨0, dest, t⟩ (Inode.blockCount ino).toNat st

/-- The inode fetch gives up without raising: the number is out of range, or its
slot was read and is free. -/
def SilentInode (io : Option BlockIo) (num : UInt32) (s : Machine) : Prop :=
  Superblock.totalInodes s.gSb ≤ num ∨
    readFails io s.requests.length (inodeBlock s.gSb num) = false ∧
      Inode.entryType (onDiskInode io s.gSb num) = 0

def LoadReports (io : Option BlockIo) (num dest sizeOut : UInt32) (s : Machine) : Prop :=
  ¬ CopyLoopEnds io num dest sizeOut s →
    ReportsFault s (owfsLoadFile io num dest sizeOut s).machine
      (owfsLoadFile io num dest sizeOut s).code

theorem loadLoop_reports {io : Option BlockIo} {ino : Bytes} (sizeOut dest : UInt32)
    {t : Machine}
    (hend : ∀ st, ¬ BoundedLoop.Reaches (loadStep io ino sizeOut) ⟨0, dest, t⟩
      (Inode.blockCount ino).toNat st) :
    let r := BoundedLoop.run (loadStep io ino sizeOut) (loadFinish ino)
      (Inode.blockCount ino).toNat ⟨0, dest, t⟩
    ReportsFault t r.machine r.code := by
  intro r
  rcases copyRun_cases io ino sizeOut dest t with
    ⟨k, st, u, code, hk, hr, -, heq, hcode, hu⟩ | ⟨st, hr, -⟩
  · have hraises : u.raises = t.raises := hu.raises.trans (copyRounds hr hk.le).raises
    have hrun : r = ⟨code, sizeOut, u.raise code⟩ := heq
    rw [hrun]
    exact reportsFault_raise hraises hcode.not_success
  · exact absurd hr (hend st)

theorem not_copyLoopEnds_of_error {io : Option BlockIo} {num dest sizeOut : UInt32} {s t : Machine}
    {e : Int} (h : owfsReadInode io num s = (.error e, t)) :
    ¬ CopyLoopEnds io num dest sizeOut s := by
  rintro ⟨ino, u, st, hok, -⟩
  rw [h] at hok
  cases hok

theorem silentInode_read {io : Option BlockIo} {num : UInt32} {s : Machine}
    (h : SilentInode io num s) :
    ∃ e t, owfsReadInode io num s = (.error e, t) ∧ t.raises = s.raises ∧ t.diag = s.diag := by
  rw [owfsReadInode_eq]
  by_cases hnum : num ≥ Superblock.totalInodes s.gSb
  · exact ⟨-1, s, by simp [hnum], rfl, rfl⟩
  · obtain ⟨hread, hfree⟩ := h.resolve_left hnum
    exact ⟨-3, fetched io (inodeBlock s.gSb num) .blockBuf s, by simp [hnum, hread, hfree],
      by simp, by simp⟩

theorem owfsReadInode_fails {io : Option BlockIo} {num : UInt32} {s t : Machine} {e : Int}
    (hs : ¬ SilentInode io num s) (h : owfsReadInode io num s = (.error e, t)) :
    ∃ (u : Machine) (code : Bancode),
      t = u.raise code ∧ u.raises = s.raises ∧ mblCodeIsSuccess code = false := by
  rw [SilentInode, not_or, not_and] at hs
  obtain ⟨hnum, hused⟩ := hs
  rw [owfsReadInode_eq] at h
  dsimp only at h
  rw [if_neg hnum] at h
  split_ifs at h with hread hfree hck
  · cases h
    exact ⟨_, mblBanIoError, rfl, rfl, by decide⟩
  · exact absurd hfree (hused (by simpa using hread))
  · cases h
    exact ⟨_, mblBanInodeChecksum, rfl, by simp, by decide⟩
  · cases h

theorem owfsLoadFile_reports (io : Option BlockIo) (num dest sizeOut : UInt32) (s : Machine) :
    LoadReports io num dest sizeOut s ↔ ¬ SilentInode io num s := by
  by_cases hs : SilentInode io num s
  · obtain ⟨e, t, hread, hraises, -⟩ := silentInode_read hs
    refine iff_of_false (fun h => ?_) (not_not.mpr hs)
    have hrep := h (not_copyLoopEnds_of_error hread)
    rw [owfsLoadFile, hread] at hrep
    exact not_reportsFault_of_silent hraises hrep
  refine iff_of_true (fun hend => ?_) hs
  rw [owfsLoadFile]
  rcases hread : owfsReadInode io num s with ⟨e | ino, t⟩
  · obtain ⟨u, code, rfl, hraises, hcode⟩ := owfsReadInode_fails hs hread
    simpa using reportsFault_raise hraises hcode
  · obtain ⟨-, -, ht⟩ := owfsReadInode_ok hread
    have hraises : t.raises = s.raises := by rw [ht]; simp
    dsimp only
    split_ifs with hfile hsmall hlarge
    · exact reportsFault_raise hraises (by decide)
    · exact reportsFault_raise hraises (by decide)
    · exact reportsFault_raise hraises (by decide)
    · have hloop := loadLoop_reports sizeOut dest fun st hst =>
        hend ⟨ino, t, st, hread, hfile, UInt32.not_lt.mp hsmall, UInt32.not_lt.mp hlarge, hst⟩
      simpa only [ReportsFault, hraises] using hloop

/-- The two entry points report what they raised, apart from the two kinds of
input above. -/
theorem owfsDriver_reports (io : Option BlockIo) (drive : UInt8) (num dest sizeOut : UInt32)
    (s : Machine) :
    (ProbeReports io drive s ↔ ¬ RefusedAsFuture io s) ∧
      (LoadReports io num dest sizeOut s ↔ ¬ SilentInode io num s) :=
  ⟨owfsProbe_reports io drive s, owfsLoadFile_reports io num dest sizeOut s⟩

def emptyBlocks : Nat → Bytes :=
  Function.update (fun _ _ => 0) 16 (plainSuperblock 275 16 18 256 274)

def emptyVolume : BlockIo := volumeDisk emptyBlocks

def afterEarlierLoad : Machine :=
  (owfsProbe (some emptyVolume) 0 (.boot fun _ => 0)).2.raise mblComKernelLoadOk

theorem staleLoad_reported :
    (owfsProbe (some emptyVolume) 0 (.boot fun _ => 0)).1 = mblComVolumeProbeOk ∧
      (owfsLoadFile (some emptyVolume) 16 mblKernelAddr 0 afterEarlierLoad).code =
        mblComKernelLoadOk ∧
      ¬ LoadReports (some emptyVolume) 16 mblKernelAddr 0 afterEarlierLoad := by
  have hblock : emptyBlocks 16 = plainSuperblock 275 16 18 256 274 := Function.update_self ..
  have hprobe := owfsProbe_volume 0 (.boot fun _ => 0)
    (hblock ▸ plainSuperblock_accepted _ _ _ _ _)
  have hinodes : Superblock.totalInodes afterEarlierLoad.gSb = 16 := by
    have hfield := probed_volume_field emptyBlocks 0 (.boot fun _ => 0)
      (show 0x014 + 4 ≤ 4096 by omega)
    rw [afterEarlierLoad, emptyVolume, hprobe, Machine.raise_gSb, owfsWarnVolumeCondition_gSb]
    rw [hblock] at hfield
    exact hfield.trans (plainSuperblock_totalInodes 275 16 18 256 274)
  have hsilent : SilentInode (some emptyVolume) 16 afterEarlierLoad := by
    rw [SilentInode, hinodes]
    exact .inl (UInt32.le_refl 16)
  refine ⟨by rw [emptyVolume, hprobe], ?_, ?_⟩
  · obtain ⟨e, t, hread, -, hdiag⟩ := silentInode_read hsilent
    rw [owfsLoadFile, hread]
    simp [Machine.propagate, hdiag, afterEarlierLoad, Machine.raise, DiagRing.mblDiagLast_raise]
  · rw [owfsLoadFile_reports]
    exact not_not.mpr hsilent

end ModularBootloader
