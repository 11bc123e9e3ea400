import ModularBootloader.OwfsCopy

/-!
# Where a load writes and what it leaves there

The copy loop runs over `block_count` while the file length is `size_bytes`.
The loads that stay inside the file, and those that fill it, are characterised
by how the two fields relate.
-/

namespace ModularBootloader
open ByteStore

@[simp] theorem mblKernelMax_toNat : mblKernelMax.toNat = 0x1000000 := rfl

structure LoadAccepted (io : Option BlockIo) (num : UInt32) (s : Machine) : Prop where
  inode : InodeAccepted io num s
  file : Inode.entryType (onDiskInode io s.gSb num) &&& owfsEntryFile ≠ 0
  min : 16 ≤ (Inode.sizeBytes (onDiskInode io s.gSb num)).toNat
  max : (Inode.sizeBytes (onDiskInode io s.gSb num)).toNat ≤ 0x1000000

def afterInode (io : Option BlockIo) (num : UInt32) (s : Machine) : Machine :=
  fetched io (inodeBlock s.gSb num) .blockBuf s

section Entry
variable {io : Option BlockIo} {num dest sizeOut : UInt32} {s : Machine}

theorem owfsLoadFile_accepted (h : LoadAccepted io num s) :
    owfsLoadFile io num dest sizeOut s =
      BoundedLoop.run (loadStep io (onDiskInode io s.gSb num) sizeOut)
        (loadFinish (onDiskInode io s.gSb num))
        (Inode.blockCount (onDiskInode io s.gSb num)).toNat ⟨0, dest, afterInode io num s⟩ := by
  have hmin : ¬ Inode.sizeBytes (onDiskInode io s.gSb num) < 16 := by
    rw [UInt32.lt_iff_toNat_lt, not_lt]
    exact h.min
  have hmax : ¬ Inode.sizeBytes (onDiskInode io s.gSb num) > mblKernelMax := by
    rw [gt_iff_lt, UInt32.lt_iff_toNat_lt, not_lt]
    exact h.max
  rw [owfsLoadFile, owfsReadInode_accepted h.inode]
  dsimp only
  rw [if_neg h.file, if_neg hmin, if_neg hmax, afterInode]

theorem owfsLoadFile_rejected (h : ¬ LoadAccepted io num s) :
    Stored s (owfsLoadFile io num dest sizeOut s).machine [] ∧
      (InodeAccepted io num s →
        (owfsLoadFile io num dest sizeOut s).code ≠ mblComKernelLoadOk) := by
  rw [owfsLoadFile]
  rcases hread : owfsReadInode io num s with ⟨e | ino, t⟩
  · refine ⟨?_, ?_⟩
    · rw [owfsReadInode_eq] at hread
      dsimp only at hread
      split_ifs at hread with h1 h2 h3 h4
      · cases hread
        exact Stored.refl s
      · cases hread
        exact ((Stored.refl s).request _ _).raise _
      · cases hread
        exact stored_fetched_buf io _ s
      · cases hread
        exact (stored_fetched_buf io _ s).raise _
      · cases hread
    · intro hino
      rw [owfsReadInode_accepted hino] at hread
      cases hread
  · obtain ⟨hino, rfl, rfl⟩ := owfsReadInode_ok hread
    have hstored := stored_fetched_buf io (inodeBlock s.gSb num) s
    dsimp only
    split_ifs with hfile hmin hmax
    · exact ⟨hstored.raise _, fun _ => show mblSoftNotAFile ≠ mblComKernelLoadOk by decide⟩
    · exact ⟨hstored.raise _, fun _ => show mblSoftKernelTooSmall ≠ mblComKernelLoadOk by decide⟩
    · exact ⟨hstored.raise _, fun _ => show mblSoftKernelTooLarge ≠ mblComKernelLoadOk by decide⟩
    · rw [UInt32.lt_iff_toNat_lt, not_lt] at hmin
      rw [gt_iff_lt, UInt32.lt_iff_toNat_lt, not_lt] at hmax
      exact absurd ⟨hino, hfile, hmin, hmax⟩ h

end Entry

theorem fileFields_accepted (size blocks : UInt32) (ram : Bytes) (hmin : 16 ≤ size.toNat)
    (hmax : size.toNat ≤ 0x1000000) :
    LoadAccepted (some (oneFileVolume (fileFields size blocks))) 1
      (oneFileProbed (fileFields size blocks) ram) := by
  have htype := fileFields_type size blocks
  refine ⟨oneFileProbed_accepted _ _ (by rw [htype]; decide), ?_, ?_, ?_⟩
  · rw [oneFileProbed_entryType, htype]
    decide
  · rwa [fileFields_size]
  · rwa [fileFields_size]

section Cover
variable {ino : Bytes} {dest : UInt32} {k : Nat}

def copyRange (ino : Bytes) (dest : UInt32) (j : Nat) : Nat × Nat :=
  (dstAt dest j, (copyLength ino (UInt32.ofNat j)).toNat)

theorem copyStores_covers (a : Nat) :
    (∃ w ∈ copyStores ino dest k, Covers w a) ↔
      (0 < k ∧ InStaging a) ∨ ∃ j < k, Covers (copyRange ino dest j) a := by
  induction k with
  | zero => simp [copyStores]
  | succ k ih =>
    have hlook : (∃ w ∈ lookupStores (UInt32.ofNat k), Covers w a) → InStaging a := by
      unfold lookupStores
      split
      · simp
      · rintro ⟨w, hw, hcov⟩
        rwa [List.mem_singleton.mp hw] at hcov
    constructor
    · rintro ⟨w, hw, hcov⟩
      rw [copyStores, List.mem_cons, List.mem_cons, List.mem_append] at hw
      rcases hw with rfl | rfl | hw | hw
      · exact .inr ⟨k, Nat.lt_succ_self k, hcov⟩
      · exact .inl ⟨Nat.succ_pos k, hcov⟩
      · exact .inl ⟨Nat.succ_pos k, hlook ⟨w, hw, hcov⟩⟩
      · rcases ih.mp ⟨w, hw, hcov⟩ with ⟨-, hst⟩ | ⟨j, hj, hcov⟩
        · exact .inl ⟨Nat.succ_pos k, hst⟩
        · exact .inr ⟨j, Nat.lt_succ_of_lt hj, hcov⟩
    · rintro (⟨-, hst⟩ | ⟨j, hj, hcov⟩)
      · exact ⟨(staging, 4096), List.mem_cons_of_mem _ List.mem_cons_self, hst⟩
      · rcases Nat.lt_succ_iff_lt_or_eq.mp hj with hj | rfl
        · obtain ⟨w, hw, hcov⟩ := ih.mpr (.inr ⟨j, hj, hcov⟩)
          exact ⟨w, List.mem_cons_of_mem _ (List.mem_cons_of_mem _
            (List.mem_append_right _ hw)), hcov⟩
        · exact ⟨_, List.mem_cons_self, hcov⟩

theorem dstAt_kernel (hk : k < 2 ^ 20 - 512) : dstAt mblKernelAddr k = 0x200000 + 4096 * k := by
  rw [dstAt, mblKernelAddr_toNat]
  omega

theorem copyLength_last (hB : (Inode.blockCount ino).toNat = k + 1)
    (hk : 4096 * k ≤ (Inode.sizeBytes ino).toNat) :
    (copyLength ino (UInt32.ofNat k)).toNat =
      min ((Inode.sizeBytes ino).toNat - 4096 * k) 4096 := by
  have hS := (Inode.sizeBytes ino).toNat_lt
  have hmax := (Inode.blockCount ino).toNat_lt
  have hone : (1 : UInt32).toNat = 1 := rfl
  have hidx : UInt32.ofNat k + 1 = Inode.blockCount ino := by
    rw [← UInt32.toNat_inj, UInt32.toNat_add, UInt32.toNat_ofNat', hone, hB]
    omega
  have hrem : (Inode.sizeBytes ino - UInt32.ofNat k * owfsBlockSize).toNat =
      (Inode.sizeBytes ino).toNat - 4096 * k := by
    rw [UInt32.toNat_sub, UInt32.toNat_mul, UInt32.toNat_ofNat', owfsBlockSize_toNat]
    omega
  rw [copyLength, if_pos hidx]
  dsimp only
  split_ifs with hlt
  · rw [UInt32.lt_iff_toNat_lt, hrem, owfsBlockSize_toNat] at hlt
    rw [hrem, Nat.min_eq_left hlt.le]
  · rw [UInt32.lt_iff_toNat_lt, hrem, owfsBlockSize_toNat, not_lt] at hlt
    rw [owfsBlockSize_toNat, Nat.min_eq_right hlt]

theorem copyLength_inside (hk : k < (Inode.blockCount ino).toNat)
    (hfull : k + 1 < (Inode.blockCount ino).toNat → 4096 * (k + 1) ≤ (Inode.sizeBytes ino).toNat)
    (hlast : 4096 * k ≤ (Inode.sizeBytes ino).toNat) :
    4096 * k + (copyLength ino (UInt32.ofNat k)).toNat ≤ (Inode.sizeBytes ino).toNat := by
  by_cases hnext : k + 1 < (Inode.blockCount ino).toNat
  · rw [copyLength_full hnext, owfsBlockSize_toNat]
    have hend := hfull hnext
    omega
  · rw [copyLength_last (by omega) hlast]
    omega

end Cover

/-- The call changed RAM only where it stored, and stored only to the staging
block and to the file's part of the load window. -/
structure StaysInFile (before after : Machine) (size : Nat) : Prop where
  frame : ∀ a, ¬ Wrote before after a → after.ram a = before.ram a
  gSb : after.gSb = before.gSb
  gDrive : after.gDrive = before.gDrive
  inside : ∀ a, Wrote before after a → InStaging a ∨
    (mblKernelAddr.toNat ≤ a ∧ a < mblKernelAddr.toNat + size ∧
      a < mblKernelAddr.toNat + mblKernelMax.toNat)

/-- The map has more blocks than the file needs, and every block the file needs,
with the one its end falls in, can be fetched. -/
structure OverrunsFile (io : Option BlockIo) (num : UInt32) (s : Machine) : Prop where
  accepted : LoadAccepted io num s
  longer : (Inode.sizeBytes (onDiskInode io s.gSb num)).toNat / 4096 + 1 <
    (Inode.blockCount (onDiskInode io s.gSb num)).toNat
  fetched : ∀ f ≤ (Inode.sizeBytes (onDiskInode io s.gSb num)).toNat / 4096,
    ¬ FetchFails io (s.requests.length + 1 + transfersOf f) s.ram (onDiskInode io s.gSb num)
      (UInt32.ofNat f)

section Frame
variable {io : Option BlockIo} {ino : Bytes} {num sizeOut : UInt32} {s t : Machine}
variable {k : Nat} {st : LoadState}

theorem copyProgress_behind (h : CopyProgress ino mblKernelAddr t k st) (hk : k ≤ 2 ^ 20 - 512)
    {a : Nat} (hlo : staging + 4096 ≤ a) (hhi : a < 0x200000) :
    st.machine.ram a = t.ram a := by
  refine h.stored.frame a fun w hw hcov => ?_
  rcases (copyStores_covers a).mp ⟨w, hw, hcov⟩ with ⟨-, hst⟩ | ⟨j, hj, hcov⟩
  · obtain ⟨-, hupper⟩ := hst
    omega
  · obtain ⟨hlower, -⟩ := hcov
    rw [copyRange, dstAt_kernel (by omega)] at hlower
    omega

theorem copyProgress_fetchFails (h : CopyProgress ino mblKernelAddr t k st) (hk : k ≤ 4096) :
    FetchFails io st.machine.requests.length st.machine.ram ino st.idx ↔
      FetchFails io (t.requests.length + transfersOf k) t.ram ino (UInt32.ofNat k) := by
  rw [h.idx, h.requests]
  refine fetchFails_congr io ino _ (mapWord_congr io ino hk ?_)
  intro a hlo hhi
  have hstaging : staging = 0x30000 := rfl
  exact copyProgress_behind h (by omega) hlo (by omega)

theorem copyRounds_reach (io : Option BlockIo) (sizeOut : UInt32)
    (hk : k ≤ (Inode.blockCount ino).toNat) (hk' : k ≤ 4097)
    (hfetch : ∀ f < k, ¬ FetchFails io (t.requests.length + transfersOf f) t.ram ino
      (UInt32.ofNat f)) :
    ∃ st, BoundedLoop.Reaches (loadStep io ino sizeOut) ⟨0, mblKernelAddr, t⟩ k st ∧
      CopyProgress ino mblKernelAddr t k st := by
  refine BoundedLoop.reaches_of_progress (copyProgress_start ino mblKernelAddr t) ?_
  intro j a hj ha
  have hnot := hfetch j hj
  rw [← copyProgress_fetchFails ha (by omega)] at hnot
  exact ⟨loadNext io ino a, loadStep_next io sizeOut (ha.idx_lt (by omega)) hnot,
    copyProgress_next ha (by omega)⟩

theorem wrote_of_stored {before after : Machine} {new : List (Nat × Nat)}
    (h : Stored before after new) {size : Nat}
    (hin : ∀ a, (∃ w ∈ new, Covers w a) → InStaging a ∨
      (mblKernelAddr.toNat ≤ a ∧ a < mblKernelAddr.toNat + size ∧
        a < mblKernelAddr.toNat + mblKernelMax.toNat)) :
    StaysInFile before after size := by
  refine ⟨?_, h.gSb, h.gDrive, ?_⟩
  · intro a ha
    refine h.frame a fun w hw hcov => ha ?_
    exact (h.wrote_iff a).mpr ⟨w, hw, hcov⟩
  · intro a ha
    exact hin a ((h.wrote_iff a).mp ha)

theorem copyStores_inside {a : Nat} (hS : (Inode.sizeBytes ino).toNat ≤ 0x1000000)
    (hround : ∀ j < k, 4096 * j + (copyLength ino (UInt32.ofNat j)).toNat ≤
      (Inode.sizeBytes ino).toNat)
    (hk : k ≤ 2 ^ 20 - 512) (ha : ∃ w ∈ copyStores ino mblKernelAddr k, Covers w a) :
    InStaging a ∨ (mblKernelAddr.toNat ≤ a ∧
      a < mblKernelAddr.toNat + (Inode.sizeBytes ino).toNat ∧
      a < mblKernelAddr.toNat + mblKernelMax.toNat) := by
  rcases (copyStores_covers a).mp ha with ⟨-, hst⟩ | ⟨j, hj, hlower, hupper⟩
  · exact .inl hst
  · right
    have hend := hround j hj
    simp only [copyRange, dstAt_kernel (show j < 2 ^ 20 - 512 by omega)] at hlower hupper
    rw [mblKernelAddr_toNat, mblKernelMax_toNat]
    omega

theorem copyRun_stored (io : Option BlockIo) (ino : Bytes) (sizeOut dest : UInt32) (t : Machine) :
    ∃ k st extra, k ≤ (Inode.blockCount ino).toNat ∧
      BoundedLoop.Reaches (loadStep io ino sizeOut) ⟨0, dest, t⟩ k st ∧
      Stored t (BoundedLoop.run (loadStep io ino sizeOut) (loadFinish ino)
        (Inode.blockCount ino).toNat ⟨0, dest, t⟩).machine (extra ++ copyStores ino dest k) ∧
      (∀ w ∈ extra, w = (staging, 4096)) ∧
      (k < (Inode.blockCount ino).toNat →
        FetchFails io st.machine.requests.length st.machine.ram ino st.idx) := by
  rcases copyRun_cases io ino sizeOut dest t with
    ⟨k, st, u, code, hk, hr, hf, heq, -, hu⟩ | ⟨st, hr, heq⟩
  · obtain ⟨extra, hextra, hst⟩ := hu.stored
    have hloop := (copyRounds hr hk.le).stored
    refine ⟨k, st, extra, hk.le, hr, ?_, hst, fun _ => hf⟩
    rw [heq]
    exact (hloop.trans hextra).raise code
  · refine ⟨_, st, [], le_rfl, hr, ?_, by simp, fun h => absurd h (lt_irrefl _)⟩
    rw [heq]
    exact (copyRounds hr le_rfl).stored.raise _

theorem copyRounds_fetched {f : Nat} (hr : BoundedLoop.Reaches (loadStep io ino sizeOut)
      ⟨0, mblKernelAddr, t⟩ k st) (hk : k ≤ (Inode.blockCount ino).toNat) (hf : f < k)
    (hf' : f ≤ 4096) :
    ¬ FetchFails io (t.requests.length + transfersOf f) t.ram ino (UInt32.ofNat f) := by
  obtain ⟨a, b, hra, hstep⟩ := hr.earlier hf
  have hprog := copyRounds hra (by omega)
  rw [← copyProgress_fetchFails hprog hf']
  exact (copyProgress_step hprog (by omega) hstep).1

theorem overrunsFile_leaves (sizeOut : UInt32) (h : OverrunsFile io num s) :
    ¬ StaysInFile s (owfsLoadFile io num mblKernelAddr sizeOut s).machine
        (Inode.sizeBytes (onDiskInode io s.gSb num)).toNat := by
  intro hstays
  have hlonger := h.longer
  have hS := h.accepted.max
  have hinode := stored_fetched_buf io (inodeBlock s.gSb num) s
  obtain ⟨k, st, extra, hkB, hr, hstored, -, hstop⟩ := copyRun_stored io
    (onDiskInode io s.gSb num) sizeOut mblKernelAddr (afterInode io num s)
  have hall := hinode.trans hstored
  rw [← owfsLoadFile_accepted h.accepted, List.append_nil] at hall
  have hpast : (Inode.sizeBytes (onDiskInode io s.gSb num)).toNat / 4096 < k := by
    by_contra hle
    have hf := hstop (by omega)
    rw [copyProgress_fetchFails (copyRounds hr hkB) (by omega)] at hf
    exact h.fetched k (by omega) hf
  have hround : Covers (copyRange (onDiskInode io s.gSb num) mblKernelAddr
      ((Inode.sizeBytes (onDiskInode io s.gSb num)).toNat / 4096))
      (0x200000 + 4096 * ((Inode.sizeBytes (onDiskInode io s.gSb num)).toNat / 4096) + 4095) := by
    simp only [Covers, copyRange, dstAt_kernel
      (show (Inode.sizeBytes (onDiskInode io s.gSb num)).toNat / 4096 < 2 ^ 20 - 512 by omega),
      copyLength_full hlonger, owfsBlockSize_toNat]
    omega
  obtain ⟨w, hw, hcov⟩ := (copyStores_covers _).mpr (.inr ⟨_, hpast, hround⟩)
  have hwrote := (hall.wrote_iff _).mpr ⟨w, List.mem_append_right _ hw, hcov⟩
  rcases hstays.inside _ hwrote with ⟨-, hupper⟩ | ⟨-, hend, -⟩
  · have hstaging : staging = 0x30000 := rfl
    omega
  · rw [mblKernelAddr_toNat] at hend
    omega

/-- The load stays inside its file unless the inode maps more blocks than the
file has and the run gets to them. -/
theorem owfsLoadFile_staysInFile (io : Option BlockIo) (num sizeOut : UInt32) (s : Machine) :
    StaysInFile s (owfsLoadFile io num mblKernelAddr sizeOut s).machine
        (Inode.sizeBytes (onDiskInode io s.gSb num)).toNat ↔ ¬ OverrunsFile io num s := by
  refine ⟨fun hstays hover => overrunsFile_leaves sizeOut hover hstays, fun hover => ?_⟩
  by_cases hacc : LoadAccepted io num s
  swap
  · exact wrote_of_stored (owfsLoadFile_rejected hacc).1 (by simp)
  have hS := hacc.max
  have hinode := stored_fetched_buf io (inodeBlock s.gSb num) s
  obtain ⟨k, st, extra, hkB, hr, hstored, hextra, -⟩ := copyRun_stored io
    (onDiskInode io s.gSb num) sizeOut mblKernelAddr (afterInode io num s)
  have hall := hinode.trans hstored
  rw [← owfsLoadFile_accepted hacc, List.append_nil] at hall
  -- Every completed round lies below the end of the file.
  have hrounds : ∀ j < k, j + 1 ≤ (Inode.sizeBytes (onDiskInode io s.gSb num)).toNat / 4096 ∨
      j + 1 = (Inode.blockCount (onDiskInode io s.gSb num)).toNat ∧
        j ≤ (Inode.sizeBytes (onDiskInode io s.gSb num)).toNat / 4096 := by
    intro j hj
    by_cases hlonger : (Inode.sizeBytes (onDiskInode io s.gSb num)).toNat / 4096 + 1 <
        (Inode.blockCount (onDiskInode io s.gSb num)).toNat
    · left
      by_contra hfar
      refine hover ⟨hacc, hlonger, fun f hf => ?_⟩
      exact copyRounds_fetched hr hkB (show f < k by omega) (by omega)
    · omega
  refine wrote_of_stored hall fun a ha => ?_
  obtain ⟨w, hw, hcov⟩ := ha
  rcases List.mem_append.mp hw with hw | hw
  · rw [hextra w hw] at hcov
    exact .inl hcov
  · have hk : k ≤ 2 ^ 20 - 512 := by
      by_contra hbig
      rcases hrounds (k - 1) (by omega) with h | ⟨-, h⟩ <;> omega
    refine copyStores_inside hS (fun j hj => ?_) hk ⟨w, hw, hcov⟩
    refine copyLength_inside (by omega) (fun hnext => ?_) ?_
    · rcases hrounds j hj with h | ⟨h, -⟩ <;> omega
    · rcases hrounds j hj with h | ⟨-, h⟩ <;> omega

theorem twoBlockFile_overruns :
    owfsProbe (some (oneFileVolume (fileFields 16 2))) 0 (.boot fun _ => 0) =
      (mblComVolumeProbeOk, oneFileProbed (fileFields 16 2) fun _ => 0) ∧
    ¬ StaysInFile (oneFileProbed (fileFields 16 2) fun _ => 0)
      (owfsLoadFile (some (oneFileVolume (fileFields 16 2))) 1 mblKernelAddr 0
        (oneFileProbed (fileFields 16 2) fun _ => 0)).machine 16 := by
  have hover : OverrunsFile (some (oneFileVolume (fileFields 16 2))) 1
      (oneFileProbed (fileFields 16 2) fun _ => 0) := by
    refine ⟨fileFields_accepted 16 2 _ (by decide) (by decide), ?_, ?_⟩
    · rw [fileFields_size, fileFields_count]
      decide
    · intro f hf
      rw [fileFields_size] at hf
      obtain rfl : f = 0 := Nat.le_zero.mp hf
      exact fileFields_fetched 16 2 _ (by omega) _
  have hleaves := overrunsFile_leaves 0 hover
  rw [fileFields_size] at hleaves
  exact ⟨oneFileVolume_probe _ _, hleaves⟩

end Frame

section Content
variable {io : Option BlockIo} {ino : Bytes} {num sizeOut : UInt32} {s t : Machine}
variable {k : Nat} {st : LoadState}

theorem loadNext_ram (h : CopyProgress ino mblKernelAddr t k st)
    (hk : k < (Inode.blockCount ino).toNat) :
    (loadNext io ino st).machine.ram =
      copyUp (staged io st.machine.ram (mapWord io st.machine.ram ino (UInt32.ofNat k)))
        (dstAt mblKernelAddr k) staging (copyLength ino (UInt32.ofNat k)).toNat := by
  have hram := fetchedAt_ram io ino st.idx st.machine
  rw [h.idx] at hram
  rw [← h.dst hk, ← hram, ← h.idx]
  rfl

def BytePlaced (io : Option BlockIo) (ino : Bytes) (ram : Bytes) (j : Nat) : Prop :=
  ∃ b, mapEntry io ino (j / 4096) = some b ∧
    ram (mblKernelAddr.toNat + j) = diskBlock io b (j % 4096)

def CopiedBytes (io : Option BlockIo) (ino : Bytes) (k : Nat) (st : LoadState) : Prop :=
  ∀ j < (Inode.sizeBytes ino).toNat, j / 4096 < k → j / 4096 < mapCapacity →
    BytePlaced io ino st.machine.ram j

theorem copyLength_reaches (ino : Bytes) {j : Nat} (hk : j / 4096 < (Inode.blockCount ino).toNat)
    (hj : j < (Inode.sizeBytes ino).toNat) :
    j % 4096 < (copyLength ino (UInt32.ofNat (j / 4096))).toNat := by
  by_cases hnext : j / 4096 + 1 < (Inode.blockCount ino).toNat
  · rw [copyLength_full hnext, owfsBlockSize_toNat]
    omega
  · rw [copyLength_last (by omega) (by omega)]
    omega

theorem copiedBytes_next (hS : (Inode.sizeBytes ino).toNat ≤ 0x1000000)
    (h : CopyProgress ino mblKernelAddr t k st) (hk : k < (Inode.blockCount ino).toNat)
    (hk' : k < 2 ^ 20) (hcopied : CopiedBytes io ino k st) :
    CopiedBytes io ino (k + 1) (loadNext io ino st) := by
  intro j hj hround hmap
  have hn := copyLength_le ino (UInt32.ofNat k)
  have hstaging : staging = 0x30000 := rfl
  have hkernel : mblKernelAddr.toNat = 0x200000 := rfl
  have hdst : dstAt mblKernelAddr k = (0x200000 + 4096 * k) % 2 ^ 32 := rfl
  rw [BytePlaced, loadNext_ram h hk]
  by_cases hold : j / 4096 < k
  · obtain ⟨b, hentry, hbyte⟩ := hcopied j hj hold hmap
    refine ⟨b, hentry, ?_⟩
    rw [copyUp_outside (by omega), staged, blit_outside (by omega), hbyte]
  · obtain rfl : j / 4096 = k := by omega
    refine ⟨_, mapWord_entry io ino hmap st.machine.ram, ?_⟩
    have hpos : mblKernelAddr.toNat + j = dstAt mblKernelAddr (j / 4096) + j % 4096 := by omega
    rw [hpos, copyUp_disjoint (by omega) (copyLength_reaches ino hk hj), staged,
      blit_inside (by omega) (by omega), Nat.add_sub_cancel_left]

theorem copiedBytes_run (hS : (Inode.sizeBytes ino).toNat ≤ 0x1000000)
    (hr : BoundedLoop.Reaches (loadStep io ino sizeOut) ⟨0, mblKernelAddr, t⟩ k st)
    (hk : k ≤ (Inode.blockCount ino).toNat) (hk' : k ≤ 2 ^ 20) : CopiedBytes io ino k st := by
  have hboth := hr.invariant
    (I := fun k st => CopyProgress ino mblKernelAddr t k st ∧ CopiedBytes io ino k st)
    ⟨copyProgress_start ino mblKernelAddr t, by intro j _ hj; omega⟩ ?_
  · exact hboth.2
  · rintro j a b hj ⟨hprog, hcopied⟩ hstep
    have hnext := (copyProgress_step hprog (by omega) hstep).2
    rw [hnext]
    exact ⟨copyProgress_next hprog (by omega),
      copiedBytes_next hS hprog (by omega) (by omega) hcopied⟩

/-- The reported size is the inode's, and every byte of the file was stored by
the call and is the one the inode's map gives for it. -/
structure LoadsCompletely (io : Option BlockIo) (num : UInt32) (s : Machine) (r : Loaded) :
    Prop where
  size : r.size = Inode.sizeBytes (onDiskInode io s.gSb num)
  bytes : ∀ j < (Inode.sizeBytes (onDiskInode io s.gSb num)).toNat,
    Wrote s r.machine (mblKernelAddr.toNat + j) ∧
      BytePlaced io (onDiskInode io s.gSb num) r.machine.ram j

theorem owfsLoadFile_ok (hino : InodeAccepted io num s)
    (hok : (owfsLoadFile io num mblKernelAddr sizeOut s).code = mblComKernelLoadOk) :
    LoadAccepted io num s ∧ ∃ st,
      BoundedLoop.Reaches (loadStep io (onDiskInode io s.gSb num) sizeOut)
        ⟨0, mblKernelAddr, afterInode io num s⟩
        (Inode.blockCount (onDiskInode io s.gSb num)).toNat st ∧
      owfsLoadFile io num mblKernelAddr sizeOut s =
        loadFinish (onDiskInode io s.gSb num) st := by
  by_cases hacc : LoadAccepted io num s
  · refine ⟨hacc, ?_⟩
    rw [owfsLoadFile_accepted hacc] at hok ⊢
    rcases copyRun_cases io (onDiskInode io s.gSb num) sizeOut mblKernelAddr
      (afterInode io num s) with ⟨k, st, u, code, -, -, -, heq, hcode, -⟩ | hend
    · rw [heq] at hok
      have hfail := hcode.not_success
      rw [show code = mblComKernelLoadOk from hok] at hfail
      exact absurd hfail (by decide)
    · exact hend
  · exact absurd hok ((owfsLoadFile_rejected hacc).2 hino)

theorem stored_of_loop (hr : BoundedLoop.Reaches
      (loadStep io (onDiskInode io s.gSb num) sizeOut) ⟨0, mblKernelAddr, afterInode io num s⟩ k st)
    (hk : k ≤ (Inode.blockCount (onDiskInode io s.gSb num)).toNat) :
    Stored s (loadFinish (onDiskInode io s.gSb num) st).machine
      (copyStores (onDiskInode io s.gSb num) mblKernelAddr k) := by
  have hinode := stored_fetched_buf io (inodeBlock s.gSb num) s
  have hloop := (hinode.trans (copyRounds hr hk).stored).raise mblComKernelLoadOk
  rwa [List.append_nil] at hloop

theorem loadsCompletely_fits (hino : InodeAccepted io num s)
    (hok : (owfsLoadFile io num mblKernelAddr sizeOut s).code = mblComKernelLoadOk)
    (hcomplete : LoadsCompletely io num s (owfsLoadFile io num mblKernelAddr sizeOut s)) :
    (Inode.sizeBytes (onDiskInode io s.gSb num)).toNat ≤
      4096 * min (Inode.blockCount (onDiskInode io s.gSb num)).toNat mapCapacity := by
  obtain ⟨hacc, st, hr, heq⟩ := owfsLoadFile_ok hino hok
  have hstored := stored_of_loop hr le_rfl
  have hcap : mapCapacity = 1034 := rfl
  rw [heq] at hcomplete
  by_contra hlong
  by_cases hmap : (Inode.blockCount (onDiskInode io s.gSb num)).toNat ≤ mapCapacity
  · -- The byte behind the last counted block was never stored.
    rw [Nat.min_eq_left hmap, not_le] at hlong
    obtain ⟨hwrote, -⟩ := hcomplete.bytes _ hlong
    rcases (copyStores_covers _).mp ((hstored.wrote_iff _).mp hwrote) with
      ⟨-, -, hupper⟩ | ⟨j, hj, -, hupper⟩
    · have hstaging : staging = 0x30000 := rfl
      rw [mblKernelAddr_toNat] at hupper
      omega
    · have hn := copyLength_le (onDiskInode io s.gSb num) (UInt32.ofNat j)
      simp only [copyRange, dstAt_kernel (show j < 2 ^ 20 - 512 by omega),
        mblKernelAddr_toNat] at hupper
      omega
  · -- The map gives no block for the byte behind its last entry.
    rw [Nat.min_eq_right (by omega), not_le] at hlong
    obtain ⟨-, b, hentry, -⟩ := hcomplete.bytes _ hlong
    rw [mapEntry, if_neg (by omega), if_neg (by omega)] at hentry
    cases hentry

theorem loadsCompletely_of_fits (hino : InodeAccepted io num s)
    (hok : (owfsLoadFile io num mblKernelAddr sizeOut s).code = mblComKernelLoadOk)
    (hB : (Inode.blockCount (onDiskInode io s.gSb num)).toNat ≤ 2 ^ 20)
    (hfits : (Inode.sizeBytes (onDiskInode io s.gSb num)).toNat ≤
      4096 * min (Inode.blockCount (onDiskInode io s.gSb num)).toNat mapCapacity) :
    LoadsCompletely io num s (owfsLoadFile io num mblKernelAddr sizeOut s) := by
  obtain ⟨hacc, st, hr, heq⟩ := owfsLoadFile_ok hino hok
  have hS := hacc.max
  have hstored := stored_of_loop hr le_rfl
  have hcopied := copiedBytes_run hS hr le_rfl hB
  rw [heq]
  refine ⟨rfl, fun j hj => ⟨?_, hcopied j hj (by omega) (by omega)⟩⟩
  refine (hstored.wrote_iff _).mpr ((copyStores_covers _).mpr (.inr ⟨j / 4096, by omega, ?_⟩))
  have hreach := copyLength_reaches (onDiskInode io s.gSb num) (j := j) (by omega) hj
  simp only [Covers, copyRange, dstAt_kernel (show j / 4096 < 2 ^ 20 - 512 by omega),
    mblKernelAddr_toNat]
  omega

theorem owfsLoadFile_succeeds (hacc : LoadAccepted io num s)
    (hB : (Inode.blockCount (onDiskInode io s.gSb num)).toNat ≤ 4097)
    (hfetch : ∀ k < (Inode.blockCount (onDiskInode io s.gSb num)).toNat,
      ¬ FetchFails io (s.requests.length + 1 + transfersOf k) s.ram (onDiskInode io s.gSb num)
        (UInt32.ofNat k)) :
    (owfsLoadFile io num mblKernelAddr sizeOut s).code = mblComKernelLoadOk := by
  rw [owfsLoadFile_accepted hacc]
  rcases copyRun_cases io (onDiskInode io s.gSb num) sizeOut mblKernelAddr
    (afterInode io num s) with ⟨k, st, u, code, hk, hr, hf, -⟩ | ⟨st, -, heq⟩
  · rw [copyProgress_fetchFails (copyRounds hr hk.le) (by omega)] at hf
    exact absurd hf (hfetch k hk)
  · rw [heq]
    rfl

theorem fileFields_loads (size : UInt32) (ram : Bytes) (hmin : 16 ≤ size.toNat)
    (hmax : size.toNat ≤ 0x1000000) :
    (owfsLoadFile (some (oneFileVolume (fileFields size 1))) 1 mblKernelAddr 0
      (oneFileProbed (fileFields size 1) ram)).code = mblComKernelLoadOk := by
  refine owfsLoadFile_succeeds (fileFields_accepted size 1 ram hmin hmax) ?_ ?_
  · rw [fileFields_count]
    decide
  · intro k hk
    rw [fileFields_count] at hk
    have hone : (1 : UInt32).toNat = 1 := rfl
    exact fileFields_fetched size 1 ram (by omega) _

/-- Among the loads reported as successful, the complete ones are those whose
file fits the blocks the inode counts and the map can describe, as long as the
destination pointer does not come round to the file again. -/
theorem owfsLoadFile_complete (hino : InodeAccepted io num s)
    (hok : (owfsLoadFile io num mblKernelAddr sizeOut s).code = mblComKernelLoadOk) :
    let size := (Inode.sizeBytes (onDiskInode io s.gSb num)).toNat
    let blocks := (Inode.blockCount (onDiskInode io s.gSb num)).toNat
    (LoadsCompletely io num s (owfsLoadFile io num mblKernelAddr sizeOut s) →
      size ≤ 4096 * min blocks mapCapacity) ∧
    (blocks ≤ 2 ^ 20 → (LoadsCompletely io num s (owfsLoadFile io num mblKernelAddr sizeOut s) ↔
      size ≤ 4096 * min blocks mapCapacity)) := by
  have hnecessary := loadsCompletely_fits hino hok
  refine ⟨hnecessary, fun hB => ⟨hnecessary, ?_⟩⟩
  exact loadsCompletely_of_fits hino hok hB

theorem halfFile_reported :
    owfsProbe (some (oneFileVolume (fileFields 8192 1))) 0 (.boot fun _ => 0) =
      (mblComVolumeProbeOk, oneFileProbed (fileFields 8192 1) fun _ => 0) ∧
    (owfsLoadFile (some (oneFileVolume (fileFields 8192 1))) 1 mblKernelAddr 0
      (oneFileProbed (fileFields 8192 1) fun _ => 0)).code = mblComKernelLoadOk ∧
    ¬ LoadsCompletely (some (oneFileVolume (fileFields 8192 1))) 1
      (oneFileProbed (fileFields 8192 1) fun _ => 0)
      (owfsLoadFile (some (oneFileVolume (fileFields 8192 1))) 1 mblKernelAddr 0
        (oneFileProbed (fileFields 8192 1) fun _ => 0)) := by
  have hacc := fileFields_accepted 8192 1 (fun _ => 0) (by decide) (by decide)
  have hok := fileFields_loads 8192 (fun _ => 0) (by decide) (by decide)
  refine ⟨oneFileVolume_probe _ _, hok, fun hcomplete => ?_⟩
  have hfits := loadsCompletely_fits hacc.inode hok hcomplete
  rw [fileFields_size, fileFields_count] at hfits
  exact absurd hfits (by decide)

theorem oneBlockFile_complete :
    LoadsCompletely (some (oneFileVolume (fileFields 4096 1))) 1
      (oneFileProbed (fileFields 4096 1) fun _ => 0)
      (owfsLoadFile (some (oneFileVolume (fileFields 4096 1))) 1 mblKernelAddr 0
        (oneFileProbed (fileFields 4096 1) fun _ => 0)) := by
  have hacc := fileFields_accepted 4096 1 (fun _ => 0) (by decide) (by decide)
  have hok := fileFields_loads 4096 (fun _ => 0) (by decide) (by decide)
  refine ((owfsLoadFile_complete hacc.inode hok).2 ?_).mpr ?_
  · rw [fileFields_count]
    decide
  · rw [fileFields_size, fileFields_count]
    decide

end Content

end ModularBootloader
