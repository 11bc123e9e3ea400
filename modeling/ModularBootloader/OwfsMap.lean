import ModularBootloader.Volume

/-!
# The block map of an inode

The ten direct slots and the 1024 words of the indirect block are the map an
inode has on disk. The lookup agrees with it for the indices it covers; past
them the word comes from RAM behind the staging block.
-/

namespace ModularBootloader
open ByteStore

def mapCapacity : Nat := 1034

def mapEntry (io : Option BlockIo) (ino : Bytes) (k : Nat) : Option UInt32 :=
  if k < 10 then some (load32 ino (0x1E + 4 * k))
  else if k < mapCapacity then
    some (load32 (diskBlock io (Inode.indirectBlock ino)) (4 * (k - 10)))
  else none

/-- The block the inode's map gives for index `k`, zero past its capacity. -/
def mapBlock (io : Option BlockIo) (ino : Bytes) (k : Nat) : UInt32 :=
  (mapEntry io ino k).getD 0

theorem direct_ofNat {k : Nat} (hk : k < 2 ^ 32) :
    UInt32.ofNat k < owfsDirectBlocks ↔ k < 10 := by
  rw [UInt32.lt_iff_toNat_lt, UInt32.toNat_ofNat', owfsDirectBlocks_toNat, Nat.mod_eq_of_lt hk]

theorem indirectWordAddr_ofNat {k : Nat} (hlo : 10 ≤ k) (hhi : k < 2 ^ 20) :
    (indirectWordAddr (UInt32.ofNat k)).toNat = staging + 4 * (k - 10) := by
  have hfour : (4 : UInt32).toNat = 4 := rfl
  rw [indirectWordAddr, UInt32.toNat_add, UInt32.toNat_mul, UInt32.toNat_sub, hfour,
    UInt32.toNat_ofNat', owfsDirectBlocks_toNat, mblFsBuf_toNat, staging, mblFsBuf_toNat]
  omega

section Map
variable (io : Option BlockIo) (ino : Bytes)

theorem mapWord_entry {k : Nat} (hk : k < mapCapacity) (ram : Bytes) :
    mapEntry io ino k = some (mapWord io ram ino (UInt32.ofNat k)) := by
  rw [mapCapacity] at hk
  by_cases hd : k < 10
  · rw [mapEntry, if_pos hd, mapWord, if_pos ((direct_ofNat (by omega)).mpr hd), Inode.directBlock,
      UInt32.toNat_ofNat', Nat.mod_eq_of_lt (by omega)]
  · rw [mapEntry, if_neg hd, if_pos (by rw [mapCapacity]; omega), mapWord,
      if_neg (mt (direct_ofNat (by omega)).mp hd), read32, load32_window,
      indirectWordAddr_ofNat (by omega) (by omega)]
    refine congrArg some (load32_congr ?_)
    intro i hi
    have hoff : staging + 4 * (k - 10) + 0 + i - staging = 4 * (k - 10) + i := by omega
    rw [staged, blit_inside (by omega) (by omega), hoff]

theorem mapWord_mapBlock (ram : Bytes) {k : Nat} (hk : k < mapCapacity) :
    mapWord io ram ino (UInt32.ofNat k) = mapBlock io ino k := by
  rw [mapBlock, mapWord_entry io ino hk ram, Option.getD_some]

theorem mapWord_congr {ram ram' : Bytes} {k : Nat} (hk : k ≤ 4096)
    (h : ∀ a, staging + 4096 ≤ a → a < staging + 0x4000 → ram a = ram' a) :
    mapWord io ram ino (UInt32.ofNat k) = mapWord io ram' ino (UInt32.ofNat k) := by
  by_cases hd : k < 10
  · have hdirect := (direct_ofNat (k := k) (by omega)).mpr hd
    rw [mapWord, mapWord, if_pos hdirect, if_pos hdirect]
  · have hindirect := mt (direct_ofNat (k := k) (by omega)).mp hd
    rw [mapWord, mapWord, if_neg hindirect, if_neg hindirect, read32, read32, load32_window,
      load32_window, indirectWordAddr_ofNat (by omega) (by omega)]
    refine load32_congr ?_
    intro i hi
    by_cases hin : staging + 4 * (k - 10) + 0 + i < staging + 4096
    · rw [staged, staged, blit_inside (by omega) (by omega), blit_inside (by omega) (by omega)]
    · rw [staged, staged, blit_outside (by omega), blit_outside (by omega)]
      exact h _ (by omega) (by omega)

theorem fetchFails_congr {ram ram' : Bytes} {idx : UInt32} (nth : Nat)
    (h : mapWord io ram ino idx = mapWord io ram' ino idx) :
    FetchFails io nth ram ino idx ↔ FetchFails io nth ram' ino idx := by
  rw [FetchFails, FetchFails, LookupFails, LookupFails, h]

end Map

theorem diskOf_fetches {content : Bytes} {ino : Bytes} {k : Nat} {b : UInt32}
    (hentry : mapEntry (some (diskOf content)) ino k = some b) (hb : b ≠ 0)
    (hindirect : 10 ≤ k → Inode.indirectBlock ino ≠ 0) (nth : Nat) (ram : Bytes) :
    ¬ FetchFails (some (diskOf content)) nth ram ino (UInt32.ofNat k) := by
  have hcap : mapCapacity = 1034 := rfl
  have hk : k < mapCapacity := by
    by_contra hfar
    rw [mapEntry, if_neg (by omega), if_neg hfar] at hentry
    cases hentry
  rw [mapWord_entry _ _ hk ram, Option.some.injEq] at hentry
  rintro ((⟨hd, hzero | hread⟩ | hzero) | hread)
  · have hten := mt (direct_ofNat (k := k) (by omega)).mpr hd
    exact hindirect (by omega) hzero
  · rw [diskOf_reads] at hread
    cases hread
  · exact hb (hentry.symm.trans hzero)
  · rw [diskOf_reads] at hread
    cases hread

theorem mapEntry_direct {io : Option BlockIo} {ino : Bytes} {k : Nat} (hk : k < 10) :
    mapEntry io ino k = some (load32 ino (0x1E + 4 * k)) := if_pos hk

theorem mapEntry_indirect {io : Option BlockIo} {ino : Bytes} {k : Nat} (hlo : 10 ≤ k)
    (hhi : k < mapCapacity) : mapEntry io ino k =
      some (load32 (diskBlock io (Inode.indirectBlock ino)) (4 * (k - 10))) := by
  rw [mapEntry, if_neg (by omega), if_pos hhi]

theorem fileFields_fetched (size blocks : UInt32) (ram : Bytes) {nth k : Nat} (hk : k < 2)
    (ram' : Bytes) :
    ¬ FetchFails (some (oneFileVolume (fileFields size blocks))) nth ram'
      (onDiskInode (some (oneFileVolume (fileFields size blocks)))
        (oneFileProbed (fileFields size blocks) ram).gSb 1) (UInt32.ofNat k) := by
  refine diskOf_fetches (mapEntry_direct (by omega)) ?_ (by omega) nth ram'
  rw [oneFileProbed_inodeField _ _ (by omega)]
  obtain rfl | rfl : k = 0 ∨ k = 1 := by omega
  · simp [fileFields, words, load32_store32, load32_store32_other]
  · simp [fileFields, words, load32_store32, load32_store32_other]

end ModularBootloader
