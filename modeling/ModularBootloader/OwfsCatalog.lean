import ModularBootloader.OwfsListing
import ModularBootloader.OwfsLoad

/-!
# What a listing finds

The entries of the catalog blocks in map order and, in each block, in slot
order. The listing returns as many of the first of them as the caller's array
takes, on any device that answers the transfers it makes.
-/

namespace ModularBootloader
open ByteStore

def blockEntries (io : Option BlockIo) (ram : Bytes) (block : UInt32) : List MblEntry :=
  entriesIn (staged io ram block) (List.range owfsEntriesPerBlock)

def foundEntries (io : Option BlockIo) (ram root : Bytes) (k : Nat) : List MblEntry :=
  (List.range k).flatMap fun j => blockEntries io ram (mapBlock io root j)

structure Fetchable (io : Option BlockIo) (root : Bytes) (n : Nat) : Prop where
  within : n ≤ mapCapacity
  fetches : ∀ k < n, ∀ nth ram, ¬ FetchFails io nth ram root (UInt32.ofNat k)

theorem foundEntries_succ (io : Option BlockIo) (ram root : Bytes) (k : Nat) :
    foundEntries io ram root (k + 1) =
      foundEntries io ram root k ++ blockEntries io ram (mapBlock io root k) := by
  rw [foundEntries, List.range_succ, List.flatMap_append]
  simp [foundEntries]

theorem foundEntries_prefix (io : Option BlockIo) (ram root : Bytes) {j k : Nat} (h : j ≤ k) :
    foundEntries io ram root j <+: foundEntries io ram root k := by
  induction k, h using Nat.le_induction with
  | base => exact List.prefix_refl _
  | succ k _ ih =>
    rw [foundEntries_succ]
    exact ih.trans (List.prefix_append _ _)

section Rounds
variable {io : Option BlockIo} {root : Bytes} {m k n : Nat} {s t : Machine} {st : EnumState}

theorem Fetchable.mono (h : Fetchable io root n) (hk : k ≤ n) : Fetchable io root k :=
  ⟨hk.trans h.within, fun j hj => h.fetches j (hj.trans_le hk)⟩

theorem EnumProgress.staged_eq (h : EnumProgress m t k st) (io : Option BlockIo) (b : UInt32) :
    staged io st.machine.ram b = staged io t.ram b := by
  funext a
  unfold staged blit
  split
  · rfl
  · next hout => exact h.frame a hout

theorem scanAt_found (io : Option BlockIo) (root : Bytes) (h : EnumProgress m t k st)
    (hk : k < mapCapacity) :
    (scanAt io root m st).full = decide (m < (st.entries ++
        blockEntries io t.ram (mapBlock io root k)).length) ∧
      (scanAt io root m st).entries = (st.entries ++
        blockEntries io t.ram (mapBlock io root k)).take m := by
  obtain ⟨hfull, hentries, -⟩ := scanSlots_spec m (List.range owfsEntriesPerBlock) st.entries
    (fetchedAt io root st.idx st.machine) h.room
  rw [fetchedAt_ram, h.idx, mapWord_mapBlock _ _ _ hk, h.staged_eq] at hfull hentries
  rw [← h.idx] at hfull hentries
  exact ⟨hfull, hentries⟩

theorem enumRounds_found (hf : Fetchable io root k) (hcount : k ≤ (Inode.blockCount root).toNat)
    (hroom : (foundEntries io t.ram root k).length ≤ m) :
    ∃ st, BoundedLoop.Reaches (enumerateStep io root m) ⟨0, [], t⟩ k st ∧
      EnumProgress m t k st ∧ st.entries = foundEntries io t.ram root k := by
  induction k with
  | zero => exact ⟨⟨0, [], t⟩, .start, enumProgress_start m t, rfl⟩
  | succ k ih =>
    have hwithin := hf.within
    have hboth : (foundEntries io t.ram root (k + 1)).length ≤ m := hroom
    rw [foundEntries_succ, List.length_append] at hroom
    obtain ⟨st, hr, hprog, hentries⟩ := ih (hf.mono (Nat.le_succ k)) (by omega) (by omega)
    have hfetch := hf.fetches k (Nat.lt_succ_self k) st.machine.requests.length st.machine.ram
    rw [← hprog.idx] at hfetch
    obtain ⟨hfull, hnext⟩ := scanAt_found io root hprog (by omega)
    rw [hentries, ← foundEntries_succ] at hfull hnext
    rw [decide_eq_false (by omega)] at hfull
    rw [List.take_of_length_le hboth] at hnext
    have hstep := enumerateStep_next m (hprog.idx_lt (by omega)) hfetch
    rw [hfull] at hstep
    exact ⟨_, .next hr hstep, enumProgress_next hprog (by omega), hnext⟩

theorem owfsEnumerate_accepted (hroot : InodeAccepted io owfsRootInode s)
    (hcat : Inode.entryType (onDiskInode io s.gSb owfsRootInode) &&& owfsEntryCatalog ≠ 0) :
    owfsEnumerate io m s = BoundedLoop.run
      (enumerateStep io (onDiskInode io s.gSb owfsRootInode) m) enumerateFinish
      (Inode.blockCount (onDiskInode io s.gSb owfsRootInode)).toNat
      ⟨0, [], afterInode io owfsRootInode s⟩ := by
  rw [owfsEnumerate, owfsReadInode_accepted hroot]
  dsimp only
  rw [if_neg hcat]
  rfl

theorem owfsEnumerate_found (hroot : InodeAccepted io owfsRootInode s)
    (hcat : Inode.entryType (onDiskInode io s.gSb owfsRootInode) &&& owfsEntryCatalog ≠ 0)
    (hf : Fetchable io (onDiskInode io s.gSb owfsRootInode) n)
    (hn : n ≤ (Inode.blockCount (onDiskInode io s.gSb owfsRootInode)).toNat)
    (hend : n = (Inode.blockCount (onDiskInode io s.gSb owfsRootInode)).toNat ∨
      m < (foundEntries io s.ram (onDiskInode io s.gSb owfsRootInode) n).length) :
    (owfsEnumerate io m s).entries =
        (foundEntries io s.ram (onDiskInode io s.gSb owfsRootInode) n).take m ∧
      (owfsEnumerate io m s).result = (owfsEnumerate io m s).entries.length := by
  generalize hino : onDiskInode io s.gSb owfsRootInode = root at hcat hf hn hend ⊢
  have hram : (afterInode io owfsRootInode s).ram = s.ram := rfl
  have hrun := owfsEnumerate_accepted (m := m) hroot (by rw [hino]; exact hcat)
  rw [hino] at hrun
  rw [hrun]
  by_cases hroom : (foundEntries io s.ram root n).length ≤ m
  · have hlast : n = (Inode.blockCount root).toNat := hend.resolve_right (by omega)
    obtain ⟨st, hr, -, hentries⟩ :=
      enumRounds_found (t := afterInode io owfsRootInode s) hf hn hroom
    rw [← hlast, hr.run_finish, List.take_of_length_le hroom]
    exact ⟨hentries, rfl⟩
  · -- The first block that overfills the array ends the listing.
    have hsome : ∃ j, m < (foundEntries io s.ram root j).length := ⟨n, by omega⟩
    classical
    have hover := Nat.find_spec hsome
    have hmin := fun j hj => Nat.find_min (m := j) hsome hj
    have hle : Nat.find hsome ≤ n := Nat.find_min' hsome (by omega)
    generalize Nat.find hsome = j at hover hmin hle
    cases j with
    | zero => exact absurd hover (Nat.not_lt_zero m)
    | succ j =>
      have hfits := hmin j (Nat.lt_succ_self j)
      have hwithin := hf.within
      obtain ⟨st, hr, hprog, hentries⟩ := enumRounds_found
        (t := afterInode io owfsRootInode s) (m := m) (hf.mono (by omega)) (by omega)
        (show (foundEntries io s.ram root j).length ≤ m by omega)
      have hfetch := hf.fetches j (by omega) st.machine.requests.length st.machine.ram
      rw [← hprog.idx] at hfetch
      obtain ⟨hfull, hnext⟩ := scanAt_found io root hprog (by omega)
      rw [hentries, ← foundEntries_succ, hram] at hfull hnext
      rw [decide_eq_true hover] at hfull
      have hstep := enumerateStep_next m (hprog.idx_lt (by omega)) hfetch
      rw [hfull] at hstep
      rw [hr.run_exit enumerateFinish (by omega) hstep]
      refine ⟨?_, rfl⟩
      dsimp only
      obtain ⟨rest, hrest⟩ := foundEntries_prefix io s.ram root hle
      rw [hnext, ← hrest, List.take_append_of_le_length hover.le]

end Rounds

end ModularBootloader
