import ModularBootloader.OwfsCatalog

/-!
# Reading a volume

The driver over a medium that refuses nothing: what the probe, a listing and a
load return is read off the blocks of the volume.
-/

namespace ModularBootloader
open ByteStore

def volumeBlock (content : Bytes) (b : Nat) : Bytes := window content (volumeBase + 4096 * b)

def Mounted (content : Bytes) (s : Machine) : Prop :=
  ∀ i < 4096, s.gSb i = volumeBlock content 16 i

def tableSlot (content : Bytes) (start num : Nat) : Bytes :=
  window content (volumeBase + 4096 * (start + num / 16) + 256 * (num % 16))

section Mount
variable {content : Bytes} {s : Machine}

theorem owfsProbe_mounts (drive : UInt8) (s : Machine)
    (h : SuperblockAccepted (volumeBlock content 16)) :
    (owfsProbe (some (diskOf content)) drive s).1 = mblComVolumeProbeOk ∧
      Mounted content (owfsProbe (some (diskOf content)) drive s).2 := by
  have hsb : ∀ i < 4096, (probed (some (diskOf content)) drive s).gSb i =
      volumeBlock content 16 i := by
    intro i hi
    rw [probed, fetched_sb_gSb, blit_inside (by omega) (by omega), Nat.sub_zero,
      diskOf_block (by decide)]
    rfl
  have hprobe := owfsProbe_accepts (some (diskOf content)) drive (s := s)
    (diskOf_reads _ _ _) (h.congr hsb)
  rw [hprobe]
  refine ⟨rfl, ?_⟩
  intro i hi
  rw [owfsWarnVolumeCondition_gSb, hsb i hi]

theorem Mounted.field (h : Mounted content s) {off : Nat} (hoff : off + 4 ≤ 4096) :
    load32 s.gSb off = load32 (volumeBlock content 16) off :=
  load32_congr fun k hk => h (off + k) (by omega)

variable {num start : UInt32}

theorem Mounted.inodeBlock_toNat (h : Mounted content s)
    (hstart : Superblock.inodeTableStart (volumeBlock content 16) = start)
    (haddr : 131200 + 8 * (start.toNat + num.toNat / 16) < 2 ^ 32) :
    (inodeBlock s.gSb num).toNat = start.toNat + num.toNat / 16 := by
  have hshift : (num >>> 4).toNat = num.toNat / 16 := by
    rw [UInt32.toNat_shiftRight]
    exact Nat.shiftRight_eq_div_pow _ _
  have hfield : Superblock.inodeTableStart s.gSb = start := (h.field (by omega)).trans hstart
  rw [inodeBlock, hfield, UInt32.toNat_add, hshift]
  omega

theorem Mounted.onDiskInode_eq (h : Mounted content s)
    (hstart : Superblock.inodeTableStart (volumeBlock content 16) = start)
    (haddr : 131200 + 8 * (start.toNat + num.toNat / 16) < 2 ^ 32) {i : Nat} (hi : i < 256) :
    onDiskInode (some (diskOf content)) s.gSb num i =
      tableSlot content start.toNat num.toNat i := by
  have hblock := h.inodeBlock_toNat hstart haddr
  have hlow : (num &&& 0x0F).toNat = num.toNat % 16 := by
    rw [UInt32.toNat_and]
    exact Nat.and_two_pow_sub_one_eq_mod _ 4
  have hoff : ((num &&& 0x0F) * owfsInodeSize).toNat = 256 * (num.toNat % 16) := by
    rw [UInt32.toNat_mul, hlow, owfsInodeSize_toNat]
    omega
  have hdisk : diskBlock (some (diskOf content)) (inodeBlock s.gSb num) =
      volumeBlock content (start.toNat + num.toNat / 16) := by
    rw [diskOf_block (by rw [hblock]; exact haddr), hblock, volumeBlock]
  rw [onDiskInode, inodeSlot, if_pos (by simpa using hi), hoff, hdisk, tableSlot, volumeBlock,
    window_apply, window_apply, Nat.add_assoc, Nat.add_assoc, Nat.add_assoc]

theorem Mounted.inodeAccepted (h : Mounted content s)
    (hstart : Superblock.inodeTableStart (volumeBlock content 16) = start)
    (haddr : 131200 + 8 * (start.toNat + num.toNat / 16) < 2 ^ 32)
    (hnum : num < Superblock.totalInodes (volumeBlock content 16))
    (hused : tableSlot content start.toNat num.toNat 4 ≠ 0)
    (hsealed : crc32cStruct (tableSlot content start.toNat num.toNat) owfsInodeSize owfsStructCk =
      load32 (tableSlot content start.toNat num.toNat) 0xFC) :
    InodeAccepted (some (diskOf content)) num s := by
  have hslot := fun i hi => h.onDiskInode_eq hstart haddr (i := i) hi
  have hinodes : Superblock.totalInodes s.gSb = Superblock.totalInodes (volumeBlock content 16) :=
    h.field (by omega)
  refine ⟨?_, diskOf_reads _ _ _, ?_, ?_⟩
  · rwa [hinodes]
  · rwa [Inode.entryType, hslot _ (by omega)]
  · have hcrc := crc32cStruct_congr owfsInodeSize owfsStructCk
      fun i hi _ => hslot i hi
    rw [hcrc, hsealed, Inode.checksum]
    exact (load32_congr fun k hk => hslot _ (by omega)).symm

end Mount

section Kept
variable {io : Option BlockIo} {s : Machine}

theorem diskReadBlock_gSb (io : Option BlockIo) (block : UInt32) (s : Machine) {target : Target}
    (h : target ≠ .sb) :
    (diskReadBlock io block target s).2.gSb = s.gSb := by
  rw [diskReadBlock_eq]
  split
  · rfl
  · cases target with
    | sb => exact absurd rfl h
    | blockBuf => rfl
    | linear addr => rfl

theorem owfsReadInode_gSb (io : Option BlockIo) (s : Machine) (num : UInt32) :
    (owfsReadInode io num s).2.gSb = s.gSb := by
  have hread := diskReadBlock_gSb io (inodeBlock s.gSb num) s
    (show Target.blockBuf ≠ .sb by simp)
  unfold owfsReadInode
  dsimp only
  split_ifs
  · rfl
  · exact hread
  · exact hread
  · exact hread
  · exact hread

theorem owfsBlockmapGet_gSb (io : Option BlockIo) (s : Machine) (ino : Bytes) (idx : UInt32) :
    (owfsBlockmapGet io ino idx s).2.gSb = s.gSb := by
  have hread := diskReadBlock_gSb io (Inode.indirectBlock ino) s
    (show Target.linear mblFsBuf ≠ .sb by simp)
  unfold owfsBlockmapGet
  dsimp only
  split_ifs
  · rfl
  · rfl
  · rfl
  · rfl
  · exact hread
  · exact hread
  · exact hread

theorem scanSlots_gSb (max : Int) (slots : List Nat) (es : List MblEntry) (s : Machine) :
    (scanSlots max slots es s).machine.gSb = s.gSb := by
  induction slots generalizing es s with
  | nil => rfl
  | cons e rest ih =>
    rw [scanSlots]
    split_ifs
    · exact ih es _
    · rfl
    · exact ih _ s
    · exact ih es s

theorem owfsEnumerate_gSb (max : Int) : (owfsEnumerate io max s).machine.gSb = s.gSb := by
  have hinode := owfsReadInode_gSb io s owfsRootInode
  unfold owfsEnumerate
  generalize owfsReadInode io owfsRootInode s = r at hinode
  obtain ⟨res, t⟩ := r
  dsimp only at hinode
  cases res with
  | error e => exact hinode
  | ok root =>
    dsimp only
    split_ifs
    · exact hinode
    have hround : ∀ st : EnumState, st.machine.gSb = s.gSb →
        (∀ r, enumerateStep io root max st = .inl r → r.machine.gSb = s.gSb) ∧
        ∀ b, enumerateStep io root max st = .inr b → b.machine.gSb = s.gSb := by
      intro st hst
      have hmap := (owfsBlockmapGet_gSb io st.machine root st.idx).trans hst
      unfold enumerateStep
      generalize owfsBlockmapGet io root st.idx st.machine = r at hmap
      obtain ⟨res, t⟩ := r
      dsimp only at hmap
      cases res with
      | error e =>
        constructor
        · intro r hr
          rw [← Sum.inl.inj hr]
          exact hmap
        · intro b hb
          cases hb
      | ok bnum =>
        have hread := (diskReadBlock_gSb io bnum t
          (show Target.linear mblFsBuf ≠ .sb by simp)).trans hmap
        have hscan := (scanSlots_gSb max (List.range owfsEntriesPerBlock) st.entries
          (diskReadBlock io bnum (.linear mblFsBuf) t).2).trans hread
        dsimp only
        constructor
        · intro r hr
          split_ifs at hr
          · rw [← Sum.inl.inj hr]
            exact hread
          · rw [← Sum.inl.inj hr]
            exact hscan
        · intro b hb
          split_ifs at hb
          rw [← Sum.inr.inj hb]
          exact hscan
    apply BoundedLoop.run_invariant (I := fun st : EnumState => st.machine.gSb = s.gSb)
      (Q := fun r : Listing => r.machine.gSb = s.gSb)
    · exact hinode
    · exact fun a b ha hb => (hround a ha).2 b hb
    · exact fun a r ha hr => (hround a ha).1 r hr
    · intro a ha
      rw [enumerateFinish]
      dsimp only
      split_ifs
      · exact ha
      · exact ha

theorem owfsLoadFile_gSb (num dest sizeOut : UInt32) :
    (owfsLoadFile io num dest sizeOut s).machine.gSb = s.gSb := by
  have hinode := owfsReadInode_gSb io s num
  unfold owfsLoadFile
  generalize owfsReadInode io num s = r at hinode
  obtain ⟨res, t⟩ := r
  dsimp only at hinode
  cases res with
  | error e => exact hinode
  | ok ino =>
    dsimp only
    split_ifs
    · exact hinode
    · exact hinode
    · exact hinode
    have hround : ∀ st : LoadState, st.machine.gSb = s.gSb →
        (∀ r, loadStep io ino sizeOut st = .inl r → r.machine.gSb = s.gSb) ∧
        ∀ b, loadStep io ino sizeOut st = .inr b → b.machine.gSb = s.gSb := by
      intro st hst
      have hmap := (owfsBlockmapGet_gSb io st.machine ino st.idx).trans hst
      unfold loadStep
      generalize owfsBlockmapGet io ino st.idx st.machine = r at hmap
      obtain ⟨res, t⟩ := r
      dsimp only at hmap
      cases res with
      | error e =>
        constructor
        · intro r hr
          rw [← Sum.inl.inj hr]
          exact hmap
        · intro b hb
          cases hb
      | ok bnum =>
        have hread := (diskReadBlock_gSb io bnum t
          (show Target.linear mblFsBuf ≠ .sb by simp)).trans hmap
        dsimp only
        constructor
        · intro r hr
          split_ifs at hr
          rw [← Sum.inl.inj hr]
          exact hread
        · intro b hb
          split_ifs at hb
          rw [← Sum.inr.inj hb]
          exact hread
    apply BoundedLoop.run_invariant (I := fun st : LoadState => st.machine.gSb = s.gSb)
      (Q := fun r : Loaded => r.machine.gSb = s.gSb)
    · exact hinode
    · exact fun a b ha hb => (hround a ha).2 b hb
    · exact fun a r ha hr => (hround a ha).1 r hr
    · exact fun a ha => ha

/-- Listings and loads, in any order and number. -/
inductive AfterCalls (io : Option BlockIo) (s : Machine) : Machine → Prop
  | start : AfterCalls io s s
  | listed {t : Machine} (max : Int) :
    AfterCalls io s t → AfterCalls io s (owfsEnumerate io max t).machine
  | loaded {t : Machine} (num dest sizeOut : UInt32) :
    AfterCalls io s t → AfterCalls io s (owfsLoadFile io num dest sizeOut t).machine

theorem AfterCalls.gSb {t : Machine} (h : AfterCalls io s t) : t.gSb = s.gSb := by
  induction h with
  | start => rfl
  | listed max _ ih => rw [owfsEnumerate_gSb, ih]
  | loaded num dest sizeOut _ ih => rw [owfsLoadFile_gSb, ih]

theorem Mounted.of_gSb {content : Bytes} {t : Machine} (h : Mounted content s)
    (hsame : t.gSb = s.gSb) : Mounted content t := by
  intro i hi
  rw [hsame]
  exact h i hi

end Kept

structure Mapped (io : Option BlockIo) (ino : Bytes) (n : Nat) : Prop where
  within : n ≤ mapCapacity
  block : ∀ k < n, mapBlock io ino k ≠ 0
  indirect : 10 < n → Inode.indirectBlock ino ≠ 0

theorem Mapped.fetches {content ino : Bytes} {n k : Nat}
    (h : Mapped (some (diskOf content)) ino n) (hk : k < n) (nth : Nat) (ram : Bytes) :
    ¬ FetchFails (some (diskOf content)) nth ram ino (UInt32.ofNat k) := by
  have hcap : k < mapCapacity := Nat.lt_of_lt_of_le hk h.within
  have hentry : mapEntry (some (diskOf content)) ino k =
      some (mapBlock (some (diskOf content)) ino k) := by
    rw [mapWord_entry _ _ hcap ram, mapWord_mapBlock _ _ ram hcap]
  exact diskOf_fetches hentry (h.block k hk) (fun hfar => h.indirect (by omega)) nth ram

theorem owfsLoadFile_mapped {content : Bytes} {num : UInt32} (sizeOut : UInt32) {s : Machine}
    {size blocks : Nat}
    (hacc : LoadAccepted (some (diskOf content)) num s)
    (hsize : (Inode.sizeBytes (onDiskInode (some (diskOf content)) s.gSb num)).toNat = size)
    (hblocks : (Inode.blockCount (onDiskInode (some (diskOf content)) s.gSb num)).toNat = blocks)
    (hfits : size ≤ 4096 * blocks)
    (hmap : Mapped (some (diskOf content)) (onDiskInode (some (diskOf content)) s.gSb num)
      blocks) :
    (owfsLoadFile (some (diskOf content)) num mblKernelAddr sizeOut s).code =
        mblComKernelLoadOk ∧
      (owfsLoadFile (some (diskOf content)) num mblKernelAddr sizeOut s).size.toNat = size ∧
      ∀ j < size,
        (owfsLoadFile (some (diskOf content)) num mblKernelAddr sizeOut s).machine.ram
            (mblKernelAddr.toNat + j) =
          diskBlock (some (diskOf content)) (mapBlock (some (diskOf content))
            (onDiskInode (some (diskOf content)) s.gSb num) (j / 4096)) (j % 4096) := by
  have hwithin := hmap.within
  have hcap : mapCapacity = 1034 := rfl
  have hino : InodeAccepted (some (diskOf content)) num s := hacc.inode
  have hok : (owfsLoadFile (some (diskOf content)) num mblKernelAddr sizeOut s).code =
      mblComKernelLoadOk := by
    apply owfsLoadFile_succeeds hacc
    · omega
    · intro k hk
      rw [hblocks] at hk
      exact hmap.fetches hk _ _
  have hcomplete := loadsCompletely_of_fits hino hok (by omega) (by
    rw [hsize, hblocks, Nat.min_eq_left hwithin]
    exact hfits)
  refine ⟨hok, ?_, ?_⟩
  · rw [hcomplete.size, hsize]
  · intro j hj
    obtain ⟨-, b, hentry, hbyte⟩ := hcomplete.bytes j (by omega)
    rw [hbyte, mapBlock, hentry, Option.getD_some]

def catalogEntries (io : Option BlockIo) (block : UInt32) : List MblEntry :=
  ((List.range 16).filter fun e => validEntry (diskEntry io block e)).map fun e =>
    listEntry (diskEntry io block e)

def listedEntries (io : Option BlockIo) (root : Bytes) (k : Nat) : List MblEntry :=
  (List.range k).flatMap fun j => catalogEntries io (mapBlock io root j)

def NamesInside (io : Option BlockIo) (root : Bytes) (k : Nat) : Prop :=
  ∀ j < k, validEntry (diskEntry io (mapBlock io root j) 15) = true →
    entrySpan (diskEntry io (mapBlock io root j) 15) 15 ≤ 4096

theorem Mapped.fetchable {content ino : Bytes} {n : Nat}
    (h : Mapped (some (diskOf content)) ino n) : Fetchable (some (diskOf content)) ino n :=
  ⟨h.within, fun _ hk nth ram => h.fetches hk nth ram⟩

theorem blockEntries_inside {io : Option BlockIo} {block : UInt32} (ram : Bytes)
    (h : validEntry (diskEntry io block 15) = true → entrySpan (diskEntry io block 15) 15 ≤ 4096) :
    blockEntries io ram block = catalogEntries io block := by
  have hslots : ∀ e ∈ List.range 16, e < 16 ∧
      (validEntry (diskEntry io block e) = true → entrySpan (diskEntry io block e) e ≤ 4096) := by
    intro e he
    have hlt : e < 16 := List.mem_range.mp he
    refine ⟨hlt, ?_⟩
    intro hvalid
    by_cases hfirst : e < 15
    · exact entrySpan_le hfirst
    · obtain rfl : e = 15 := by omega
      exact h hvalid
  rw [blockEntries, owfsEntriesPerBlock, entriesIn_staged hslots, catalogEntries]

theorem foundEntries_listed {io : Option BlockIo} {root : Bytes} {k : Nat} (ram : Bytes)
    (h : NamesInside io root k) : foundEntries io ram root k = listedEntries io root k := by
  rw [foundEntries, listedEntries]
  apply List.flatMap_congr
  intro j hj
  exact blockEntries_inside ram (h j (List.mem_range.mp hj))

section Enumerate
variable {content : Bytes} {m k : Nat} {s : Machine}

theorem owfsEnumerate_mapped
    (hroot : InodeAccepted (some (diskOf content)) owfsRootInode s)
    (hcat : Inode.entryType (onDiskInode (some (diskOf content)) s.gSb owfsRootInode) &&&
      owfsEntryCatalog ≠ 0)
    (hk : (Inode.blockCount (onDiskInode (some (diskOf content)) s.gSb owfsRootInode)).toNat = k)
    (hmap : Mapped (some (diskOf content))
      (onDiskInode (some (diskOf content)) s.gSb owfsRootInode) k)
    (hinside : NamesInside (some (diskOf content))
      (onDiskInode (some (diskOf content)) s.gSb owfsRootInode) k)
    (hroom : (listedEntries (some (diskOf content))
      (onDiskInode (some (diskOf content)) s.gSb owfsRootInode) k).length ≤ m) :
    (owfsEnumerate (some (diskOf content)) m s).entries = listedEntries (some (diskOf content))
        (onDiskInode (some (diskOf content)) s.gSb owfsRootInode) k ∧
      (owfsEnumerate (some (diskOf content)) m s).result =
        (owfsEnumerate (some (diskOf content)) m s).entries.length := by
  obtain ⟨hentries, hresult⟩ :=
    owfsEnumerate_found (m := m) hroot hcat hmap.fetchable hk.ge (.inl hk.symm)
  rw [foundEntries_listed _ hinside, List.take_of_length_le hroom] at hentries
  exact ⟨hentries, hresult⟩

theorem owfsEnumerate_full
    (hroot : InodeAccepted (some (diskOf content)) owfsRootInode s)
    (hcat : Inode.entryType (onDiskInode (some (diskOf content)) s.gSb owfsRootInode) &&&
      owfsEntryCatalog ≠ 0)
    (hk : k < (Inode.blockCount (onDiskInode (some (diskOf content)) s.gSb owfsRootInode)).toNat)
    (hmap : Mapped (some (diskOf content))
      (onDiskInode (some (diskOf content)) s.gSb owfsRootInode) (k + 1))
    (hinside : NamesInside (some (diskOf content))
      (onDiskInode (some (diskOf content)) s.gSb owfsRootInode) (k + 1))
    (hover : m < (listedEntries (some (diskOf content))
      (onDiskInode (some (diskOf content)) s.gSb owfsRootInode) (k + 1)).length) :
    (owfsEnumerate (some (diskOf content)) m s).entries = (listedEntries (some (diskOf content))
        (onDiskInode (some (diskOf content)) s.gSb owfsRootInode) (k + 1)).take m ∧
      (owfsEnumerate (some (diskOf content)) m s).result = m := by
  have hfound := foundEntries_listed s.ram hinside
  obtain ⟨hentries, hresult⟩ := owfsEnumerate_found (m := m) hroot hcat hmap.fetchable hk
    (.inr (by rw [hfound]; exact hover))
  rw [hfound] at hentries
  refine ⟨hentries, ?_⟩
  rw [hresult, hentries, List.length_take, Nat.min_eq_left hover.le]

theorem owfsEnumerate_unmapped
    (hroot : InodeAccepted (some (diskOf content)) owfsRootInode s)
    (hcat : Inode.entryType (onDiskInode (some (diskOf content)) s.gSb owfsRootInode) &&&
      owfsEntryCatalog ≠ 0)
    (hk : 10 < (Inode.blockCount (onDiskInode (some (diskOf content)) s.gSb owfsRootInode)).toNat)
    (hzero : Inode.indirectBlock (onDiskInode (some (diskOf content)) s.gSb owfsRootInode) = 0)
    (hmap : Mapped (some (diskOf content))
      (onDiskInode (some (diskOf content)) s.gSb owfsRootInode) 10)
    (hinside : NamesInside (some (diskOf content))
      (onDiskInode (some (diskOf content)) s.gSb owfsRootInode) 10)
    (hroom : (listedEntries (some (diskOf content))
      (onDiskInode (some (diskOf content)) s.gSb owfsRootInode) 10).length ≤ m) :
    (owfsEnumerate (some (diskOf content)) m s).result = -3 := by
  have hfits : (foundEntries (some (diskOf content)) s.ram
      (onDiskInode (some (diskOf content)) s.gSb owfsRootInode) 10).length ≤ m := by
    rw [foundEntries_listed _ hinside]
    exact hroom
  obtain ⟨st, hr, hprog, -⟩ := enumRounds_found (t := afterInode (some (diskOf content))
    owfsRootInode s) hmap.fetchable hk.le hfits
  have hfar : ¬ st.idx < owfsDirectBlocks := by
    rw [hprog.idx]
    exact mt (direct_ofNat (k := 10) (by omega)).mp (by omega)
  have hlookup : LookupFails (some (diskOf content)) st.machine.requests.length st.machine.ram
      (onDiskInode (some (diskOf content)) s.gSb owfsRootInode) st.idx :=
    .inl ⟨hfar, .inl hzero⟩
  obtain ⟨u, code, res, hstep, hres, -⟩ :=
    enumerateStep_fails m (hprog.idx_lt hk) (.inl hlookup)
  rw [owfsEnumerate_accepted hroot hcat, hr.run_exit enumerateFinish hk hstep]
  rcases hres with ⟨-, rfl⟩ | ⟨hnot, -⟩
  · rfl
  · exact absurd hlookup hnot

end Enumerate

end ModularBootloader
