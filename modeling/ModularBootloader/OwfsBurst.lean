import ModularBootloader.Lib.ShiftRegister
import ModularBootloader.RoundTrip

/-!
# Damaged structures

A superblock, an inode or a catalog entry that passes its checks passes them no
more once bytes within four consecutive ones are changed, in its checksum field
or outside of it.
-/

namespace ModularBootloader
open ByteStore ShiftRegister

theorem crcPoly_top : 2 ^ 31 ≤ crcPoly.toNat := by decide

theorem foldl_register (init : UInt32) (m : Nat → UInt8) (n : Nat) :
    (List.range n).foldl (fun crc i => crc32cByte crc (m i)) init =
      register crcPoly init (fun i => (m i).toUInt32) n := by
  induction n with
  | zero => rfl
  | succ n ih =>
    rw [List.range_succ, List.foldl_append, ih]
    rfl

theorem crc32cStruct_register (data : Bytes) (size ckOff : UInt32) :
    crc32cStruct data size ckOff = ~~~ register crcPoly 0xFFFFFFFF
      (fun i => (maskedByte data ckOff i).toUInt32) size.toNat := by
  rw [crc32cStruct, foldl_register]

theorem crc32cStruct_burst {data data' : Bytes} {size ckOff : UInt32} {p w : Nat} (hw : w ≤ 4)
    (hfits : p + w ≤ size.toNat)
    (hrest : ∀ i < size.toNat, i < p ∨ p + w ≤ i →
      maskedByte data' ckOff i = maskedByte data ckOff i)
    (h : crc32cStruct data' size ckOff = crc32cStruct data size ckOff) :
    ∀ i < size.toNat, maskedByte data' ckOff i = maskedByte data ckOff i := by
  rw [crc32cStruct_register, crc32cStruct_register, UInt32.not_inj] at h
  have hdiff := register_xor crcPoly 0xFFFFFFFF
    (fun i => (maskedByte data' ckOff i).toUInt32) (fun i => (maskedByte data ckOff i).toUInt32)
    size.toNat
  rw [h, UInt32.xor_self] at hdiff
  have hxor : ∀ a b : UInt8, a.toUInt32 ^^^ b.toUInt32 = 0 ↔ a = b := by
    intro a b
    rw [UInt32.xor_eq_zero_iff, UInt8.toUInt32_inj]
  have hall := register_burst (d := fun i => (maskedByte data' ckOff i).toUInt32 ^^^
      (maskedByte data ckOff i).toUInt32) crcPoly_top (fun i => ?_) hw hfits (fun i hi => ?_)
      (fun i hlo hhi => ?_) hdiff.symm
  · intro i hi
    exact (hxor _ _).mp (hall i hi)
  · rw [← UInt8.toUInt32_xor, UInt8.toNat_toUInt32]
    exact UInt8.toNat_lt _
  · exact (hxor _ _).mpr (hrest i (by omega) (.inl hi))
  · exact (hxor _ _).mpr (hrest i hhi (.inr hlo))

/-- `data'` is `data` with something changed within four consecutive bytes of the
structure, none of them or all of them in the checksum field. -/
structure Burst (size ckOff : UInt32) (data data' : Bytes) : Prop where
  differs : ∃ i < size.toNat, data' i ≠ data i
  within : ∃ p w, w ≤ 4 ∧ p + w ≤ size.toNat ∧
    (p + w ≤ ckOff.toNat ∨ ckOff.toNat + 4 ≤ p ∨
      (ckOff.toNat ≤ p ∧ p + w ≤ ckOff.toNat + 4)) ∧
    ∀ i < size.toNat, i < p ∨ p + w ≤ i → data' i = data i

def Checked (size ckOff : UInt32) (data : Bytes) : Prop :=
  crc32cStruct data size ckOff = load32 data ckOff.toNat

section Burst
variable {data data' : Bytes} {size ckOff : UInt32}

theorem maskedByte_outside {i : Nat} (hck : ckOff.toNat + 4 < 2 ^ 32)
    (h : i < ckOff.toNat ∨ ckOff.toNat + 4 ≤ i) : maskedByte data ckOff i = data i := by
  have hfield : (ckOff + 4).toNat = ckOff.toNat + 4 := by
    simp only [UInt32.toNat_add, UInt32.reduceToNat]
    omega
  rw [maskedByte, hfield, if_neg (by omega)]

theorem Burst.unchecked (h : Burst size ckOff data data') (hin : ckOff.toNat + 4 ≤ size.toNat)
    (hck : ckOff.toNat + 4 < 2 ^ 32) (hdata : Checked size ckOff data) :
    ¬ Checked size ckOff data' := by
  intro hdata'
  rw [Checked] at hdata hdata'
  obtain ⟨⟨i, hi, hne⟩, p, w, hw, hfits, hwhere, hrest⟩ := h
  have hfield : (ckOff + 4).toNat = ckOff.toNat + 4 := by
    simp only [UInt32.toNat_add, UInt32.reduceToNat]
    omega
  have hspot : p ≤ i ∧ i < p + w := by
    by_contra hout
    exact hne (hrest i hi (by omega))
  by_cases hinside : ckOff.toNat ≤ p ∧ p + w ≤ ckOff.toNat + 4
  · have hcrc : crc32cStruct data' size ckOff = crc32cStruct data size ckOff := by
      apply crc32cStruct_congr
      intro j hj hout
      rw [hfield] at hout
      exact hrest j hj (by omega)
    have hsame : load32 data' ckOff.toNat = load32 data ckOff.toNat := by
      rw [← hdata', hcrc, hdata]
    obtain ⟨k, rfl⟩ : ∃ k, i = ckOff.toNat + k := ⟨i - ckOff.toNat, by omega⟩
    exact hne (load32_inj hsame k (by omega))
  · have hsame : load32 data' ckOff.toNat = load32 data ckOff.toNat := by
      apply load32_congr
      intro k hk
      exact hrest _ (by omega) (by omega)
    have hmasked : ∀ j < size.toNat, j < p ∨ p + w ≤ j →
        maskedByte data' ckOff j = maskedByte data ckOff j := by
      intro j hj hout
      rw [maskedByte, maskedByte, hrest j hj hout]
    have hall := crc32cStruct_burst hw hfits hmasked (by rw [hdata', hdata, hsame]) i hi
    rw [maskedByte_outside hck (by omega), maskedByte_outside hck (by omega)] at hall
    exact hne hall

theorem Checked.congr (h : Checked size ckOff data) (hin : ckOff.toNat + 4 ≤ size.toNat)
    (hsame : ∀ i < size.toNat, data' i = data i) : Checked size ckOff data' := by
  have hcrc := crc32cStruct_congr size ckOff fun i hi _ => hsame i hi
  have hfield : load32 data' ckOff.toNat = load32 data ckOff.toNat := by
    apply load32_congr
    intro k hk
    exact hsame _ (by omega)
  rw [Checked, hcrc, hfield]
  exact h

end Burst

section Readers
variable {io : Option BlockIo} {s : Machine}

theorem owfsProbe_checked {drive : UInt8} (h : mblCodeIsSuccess (owfsProbe io drive s).1 = true) :
    Checked owfsBlockSize owfsSuperblockCk (diskBlock io owfsSuperblockBlock) := by
  cases hread : readFails io s.requests.length owfsSuperblockBlock with
  | true =>
    rw [owfsProbe_fails hread] at h
    exact absurd h (show mblCodeIsSuccess mblBanIoError ≠ true by decide)
  | false =>
    rw [owfsProbe_reads hread] at h
    unfold checkSuperblock at h
    split_ifs at h with husfs hmagic hsize hck
    · exact absurd h (show mblCodeIsSuccess mblSoftIsUsfs ≠ true by decide)
    · exact absurd h (show mblCodeIsSuccess mblSoftNoVolume ≠ true by decide)
    · exact absurd h (show mblCodeIsSuccess mblBanSbMagic ≠ true by decide)
    · exact absurd h (show mblCodeIsSuccess mblBanSbChecksum ≠ true by decide)
    all_goals
      have hsum : Checked owfsBlockSize owfsSuperblockCk (probed io drive s).gSb := not_not.mp hck
      apply hsum.congr (by decide)
      intro i hi
      rw [probed, fetched_sb_gSb, blit_inside (by omega) hi, Nat.sub_zero]

theorem owfsReadInode_checked {num : UInt32} {ino : Bytes} {s' : Machine}
    (h : owfsReadInode io num s = (.ok ino, s')) :
    Checked owfsInodeSize owfsStructCk (onDiskInode io s.gSb num) :=
  (owfsReadInode_ok h).1.checked

theorem owfsReadInode_error {num : UInt32} {e : Int} {s' : Machine}
    (h : owfsReadInode io num s = (.error e, s')) : e < 0 := by
  rw [owfsReadInode_eq] at h
  dsimp only at h
  split_ifs at h
  all_goals
    obtain ⟨herr, -⟩ := Prod.mk.inj h
    cases herr
  all_goals decide

end Readers

def scanTaken (max : Int) : List Nat → List MblEntry → Machine → List Bytes
  | [], _, _ => []
  | e :: rest, es, s =>
    let ce := stagedEntry s.ram e
    if listable ce then
      if crc32cStruct ce owfsInodeSize owfsStructCk ≠ CatalogEntry.checksum ce then
        scanTaken max rest es (s.raise mblBanCatalogChecksum)
      else if (es.length : Int) ≥ max then []
      else ce :: scanTaken max rest (es ++ [listEntry ce]) s
    else scanTaken max rest es s

/-- `owfs_enumerate` lists the catalog entry `ce` in one of its rounds. -/
inductive Lists (io : Option BlockIo) (max : Int) (s : Machine) (ce : Bytes) : Prop
  | intro (root bnum) (t u : Machine) (k : Nat) (st : EnumState) :
    owfsReadInode io owfsRootInode s = (.ok root, t) →
    Inode.entryType root &&& owfsEntryCatalog ≠ 0 →
    BoundedLoop.Reaches (enumerateStep io root max) ⟨0, [], t⟩ k st →
    k < (Inode.blockCount root).toNat →
    owfsBlockmapGet io root st.idx st.machine = (.ok bnum, u) →
    (diskReadBlock io bnum (.linear mblFsBuf) u).1 = 0 →
    ce ∈ scanTaken max (List.range owfsEntriesPerBlock) st.entries
      (diskReadBlock io bnum (.linear mblFsBuf) u).2 →
    Lists io max s ce

section Taken
variable {io : Option BlockIo} {max : Int} {s : Machine} {ce : Bytes}

theorem scanSlots_entries (max : Int) (slots : List Nat) (es : List MblEntry) (s : Machine) :
    (scanSlots max slots es s).entries = es ++ (scanTaken max slots es s).map listEntry := by
  induction slots generalizing es s with
  | nil => simp [scanSlots, scanTaken]
  | cons e rest ih =>
    simp only [scanSlots, scanTaken]
    split_ifs
    · exact ih es _
    · simp
    · rw [ih]
      simp
    · exact ih es s

theorem scanTaken_checked {slots : List Nat} {es : List MblEntry} {s : Machine}
    (h : ce ∈ scanTaken max slots es s) : Checked owfsInodeSize owfsStructCk ce := by
  induction slots generalizing es s with
  | nil => cases h
  | cons e rest ih =>
    simp only [scanTaken] at h
    split_ifs at h with hlist hck hfull
    · exact ih h
    · cases h
    · rcases List.mem_cons.mp h with rfl | h
      · exact not_not.mp hck
      · exact ih h
    · exact ih h

def roundTaken (io : Option BlockIo) (root : Bytes) (max : Int) (st : EnumState) : List Bytes :=
  match owfsBlockmapGet io root st.idx st.machine with
  | (.error _, _) => []
  | (.ok bnum, u) =>
    if (diskReadBlock io bnum (.linear mblFsBuf) u).1 ≠ 0 then []
    else scanTaken max (List.range owfsEntriesPerBlock) st.entries
      (diskReadBlock io bnum (.linear mblFsBuf) u).2

theorem mem_roundTaken {root : Bytes} {st : EnumState} : ce ∈ roundTaken io root max st ↔
    ∃ bnum u, owfsBlockmapGet io root st.idx st.machine = (.ok bnum, u) ∧
      (diskReadBlock io bnum (.linear mblFsBuf) u).1 = 0 ∧
      ce ∈ scanTaken max (List.range owfsEntriesPerBlock) st.entries
        (diskReadBlock io bnum (.linear mblFsBuf) u).2 := by
  unfold roundTaken
  generalize owfsBlockmapGet io root st.idx st.machine = r
  obtain ⟨res, u⟩ := r
  cases res with
  | error e => simp
  | ok bnum => by_cases hread : (diskReadBlock io bnum (.linear mblFsBuf) u).1 = 0 <;> simp [hread]

theorem enumerateStep_entries (io : Option BlockIo) (root : Bytes) (max : Int) (st : EnumState) :
    Sum.elim Listing.entries EnumState.entries (enumerateStep io root max st) =
      st.entries ++ (roundTaken io root max st).map listEntry := by
  unfold enumerateStep roundTaken
  generalize owfsBlockmapGet io root st.idx st.machine = r
  obtain ⟨res, u⟩ := r
  cases res with
  | error e => exact (List.append_nil _).symm
  | ok bnum =>
    have hscan := scanSlots_entries max (List.range owfsEntriesPerBlock) st.entries
      (diskReadBlock io bnum (.linear mblFsBuf) u).2
    dsimp only
    split_ifs with hread hfull
    · exact (List.append_nil _).symm
    · exact hscan
    · exact hscan

/-- The array grows at its end, so it is the log of the rounds read backwards. -/
theorem enumLoop_entries (io : Option BlockIo) (root : Bytes) (max : Int) (t : Machine) :
    ∃ all, (BoundedLoop.run (enumerateStep io root max) enumerateFinish
        (Inode.blockCount root).toNat ⟨0, [], t⟩).entries.reverse = all ++ [] ∧
      ∀ x, x ∈ all ↔ ∃ k st, k < (Inode.blockCount root).toNat ∧
        BoundedLoop.Reaches (enumerateStep io root max) ⟨0, [], t⟩ k st ∧
        x ∈ ((roundTaken io root max st).map listEntry).reverse := by
  have hround : ∀ st, (Sum.elim Listing.entries EnumState.entries
      (enumerateStep io root max st)).reverse =
      ((roundTaken io root max st).map listEntry).reverse ++ st.entries.reverse := by
    intro st
    rw [enumerateStep_entries, List.reverse_append]
  refine BoundedLoop.run_log (fun st : EnumState => st.entries.reverse)
    (fun l : Listing => l.entries.reverse) ?_ ?_ fun _ => rfl
  · intro k st st' _ _ hstep
    have hgrown := hround st
    rwa [hstep] at hgrown
  · intro k st r _ _ hstep
    have hgrown := hround st
    rwa [hstep] at hgrown

theorem owfsEnumerate_stores (max : Int) (x : MblEntry) :
    x ∈ (owfsEnumerate io max s).entries ↔ ∃ ce, Lists io max s ce ∧ x = listEntry ce := by
  unfold owfsEnumerate
  generalize hroot : owfsReadInode io owfsRootInode s = r
  obtain ⟨res, t⟩ := r
  cases res with
  | error e =>
    refine iff_of_false List.not_mem_nil ?_
    rintro ⟨ce, ⟨root, _, _, _, _, _, hok, _⟩, -⟩
    rw [hroot] at hok
    cases hok
  | ok root =>
    dsimp only
    by_cases hcat : Inode.entryType root &&& owfsEntryCatalog = 0
    · rw [if_pos hcat]
      refine iff_of_false List.not_mem_nil ?_
      rintro ⟨ce, ⟨root', _, _, _, _, _, hok, hcat', _⟩, -⟩
      rw [hroot] at hok
      cases hok
      exact hcat' hcat
    rw [if_neg hcat]
    obtain ⟨all, hall, hmem⟩ := enumLoop_entries io root max t
    rw [← List.mem_reverse, hall, List.append_nil, hmem]
    constructor
    · rintro ⟨k, st, hk, hr, hx⟩
      obtain ⟨ce, hce, rfl⟩ := List.mem_map.mp (List.mem_reverse.mp hx)
      obtain ⟨bnum, u, hmap, hread, htaken⟩ := mem_roundTaken.mp hce
      exact ⟨ce, .intro root bnum t u k st hroot hcat hr hk hmap hread htaken, rfl⟩
    · rintro ⟨ce, ⟨root', bnum, t', u, k, st, hok, _, hr, hk, hmap, hread, htaken⟩, rfl⟩
      rw [hroot] at hok
      cases hok
      have hce := mem_roundTaken.mpr ⟨bnum, u, hmap, hread, htaken⟩
      exact ⟨k, st, hk, hr, List.mem_reverse.mpr (List.mem_map.mpr ⟨ce, hce, rfl⟩)⟩

end Taken

/-- A structure that a reader accepted is refused by it after a burst. The entries a listing stores
are those of the structures it lists. -/
theorem damaged_refused {io io' : Option BlockIo} {s s' : Machine} :
    (∀ drive drive', mblCodeIsSuccess (owfsProbe io drive s).1 = true →
      Burst owfsBlockSize owfsSuperblockCk (diskBlock io owfsSuperblockBlock)
        (diskBlock io' owfsSuperblockBlock) →
      mblCodeIsSuccess (owfsProbe io' drive' s').1 = false) ∧
    (∀ num num' ino t, owfsReadInode io num s = (.ok ino, t) →
      Burst owfsInodeSize owfsStructCk ino (onDiskInode io' s'.gSb num') →
      ∃ e t', owfsReadInode io' num' s' = (.error e, t') ∧ e < 0) ∧
    (∀ max max' ce ce', Lists io max s ce → Burst owfsInodeSize owfsStructCk ce ce' →
      ¬ Lists io' max' s' ce') ∧
    ∀ max x, x ∈ (owfsEnumerate io' max s').entries ↔
      ∃ ce, Lists io' max s' ce ∧ x = listEntry ce := by
  refine ⟨?_, ?_, ?_, owfsEnumerate_stores⟩
  · intro drive drive' hok hburst
    by_contra hsuccess
    rw [Bool.not_eq_false] at hsuccess
    exact hburst.unchecked (by decide) (by decide) (owfsProbe_checked hok)
      (owfsProbe_checked hsuccess)
  · intro num num' ino t hok hburst
    have hino := (owfsReadInode_ok hok).2.1
    rw [hino] at hburst
    generalize hread : owfsReadInode io' num' s' = r
    obtain ⟨res, t'⟩ := r
    cases res with
    | error e => exact ⟨e, t', rfl, owfsReadInode_error hread⟩
    | ok ino' =>
      exact absurd (owfsReadInode_checked hread)
        (hburst.unchecked (by decide) (by decide) (owfsReadInode_checked hok))
  · intro max max' ce ce' hlists hburst hlists'
    obtain ⟨_, _, _, _, _, _, _, _, _, _, _, _, htaken⟩ := hlists
    obtain ⟨_, _, _, _, _, _, _, _, _, _, _, _, htaken'⟩ := hlists'
    exact hburst.unchecked (by decide) (by decide) (scanTaken_checked htaken)
      (scanTaken_checked htaken')

def spoiled (content : Bytes) (a : Nat) : Bytes := Function.update content a (content a + 1)

theorem window_spoiled (content : Bytes) (start off : Nat) :
    window (spoiled content (start + off)) start = spoiled (window content start) off := by
  funext i
  rw [window_apply, spoiled, spoiled, Function.update_apply, Function.update_apply, window_apply,
    window_apply]
  simp only [Nat.add_left_cancel_iff]

theorem diskBlock_spoiled (content : Bytes) {block : UInt32}
    (h : owfsPartitionLba.toNat + 8 * block.toNat < 2 ^ 32) (off : Nat) :
    diskBlock (some (diskOf (spoiled content (volumeBase + 4096 * block.toNat + off)))) block =
      spoiled (diskBlock (some (diskOf content)) block) off := by
  rw [diskOf_block h, diskOf_block h, window_spoiled]

theorem inodeSlot_spoiled (block : Bytes) (num : UInt32) {off : Nat} (hoff : off < 256) :
    inodeSlot (spoiled block (((num &&& 0x0F) * owfsInodeSize).toNat + off)) num =
      spoiled (inodeSlot block num) off := by
  have hsize : off < owfsInodeSize.toNat := hoff
  funext i
  by_cases hi : i < owfsInodeSize.toNat
  · simp only [inodeSlot, spoiled, Function.update_apply, hi, hsize, if_true,
      Nat.add_left_cancel_iff]
  · have hne : i ≠ off := by omega
    simp only [inodeSlot, spoiled, Function.update_apply, hi, hne, if_false]

theorem burst_spoiled {size ckOff : UInt32} (data : Bytes) {off : Nat} (hoff : off < ckOff.toNat)
    (hck : ckOff.toNat ≤ size.toNat) : Burst size ckOff data (spoiled data off) := by
  have hchanged : ∀ x : UInt8, x + 1 ≠ x := by decide +kernel
  constructor
  · refine ⟨off, by omega, ?_⟩
    rw [spoiled, Function.update_self]
    exact hchanged _
  · refine ⟨off, 1, by omega, by omega, .inl (by omega), ?_⟩
    intro i _ hout
    exact Function.update_of_ne (by omega) _ _

theorem twentyFiles_damaged : ∃ d,
    Mkfs.formatOwfs Mkfs.twentyDisk 21000 "MBL" Mkfs.twentyFiles true volumeBase = .ok d ∧
    mblCodeIsSuccess (owfsProbe (some (diskOf (spoiled (Mkfs.bytesOf d.image)
      (volumeBase + 4096 * 16 + 0x44)))) 0 (.boot fun _ => 0)).1 = false ∧
    (∃ e t, owfsReadInode (some (diskOf (spoiled (Mkfs.bytesOf d.image)
      (volumeBase + 4096 * 18 + (256 * 12 + 0x0A))))) 12
      (owfsProbe (Mkfs.diskWith d.image) 0 (.boot fun _ => 0)).2 = (.error e, t) ∧ e < 0) ∧
    ∃ ce, Lists (Mkfs.diskWith d.image) 32
      (owfsProbe (Mkfs.diskWith d.image) 0 (.boot fun _ => 0)).2 ce ∧
      ∀ io' max' s', ¬ Lists io' max' s' (spoiled ce 6) := by
  obtain ⟨d, hd⟩ := Mkfs.twentyDisk_formats
  have hshort : ∀ f ∈ Mkfs.twentyFiles, f.1.length ≤ 178 :=
    fun f hf => (Mkfs.twentyFiles_plain f hf).short.trans (by omega)
  obtain ⟨D, hmedium, hvol⟩ := Mkfs.formatOwfs_onMedium Mkfs.twentyDisk_blank (by decide) hshort hd
  obtain ⟨hprobe, hmounted⟩ := owfsProbe_mounts 0 (.boot fun _ => 0) hmedium.accepted
  obtain ⟨start, hfile⟩ := hvol.stored.file 11 _ rfl
  obtain ⟨hacc, -⟩ := hmedium.inode hmounted (show 12 < 4096 by omega) hfile.inode
    (show UInt8.ofNat Mkfs.entryFile ≠ 0 by decide)
  have hblock : (inodeBlock (owfsProbe (Mkfs.diskWith d.image) 0 (.boot fun _ => 0)).2.gSb
      12).toNat = 18 := hmounted.inodeBlock_toNat hmedium.inodeTableStart (by decide)
  refine ⟨d, hd, ?_, ?_, ?_⟩
  · apply (@damaged_refused (Mkfs.diskWith d.image) _ (.boot fun _ => 0) _).1 0 0
    · rw [Mkfs.diskWith, hprobe]
      decide
    · have hblock := diskBlock_spoiled (Mkfs.bytesOf d.image)
        (show owfsPartitionLba.toNat + 8 * owfsSuperblockBlock.toNat < 2 ^ 32 by decide) 0x44
      exact hblock ▸ burst_spoiled _ (by decide) (by decide)
  · apply (@damaged_refused (Mkfs.diskWith d.image) _ _ _).2.1 12 12 _ _
      (owfsReadInode_accepted hacc)
    have haddr : owfsPartitionLba.toNat + 8 * (inodeBlock
        (owfsProbe (Mkfs.diskWith d.image) 0 (.boot fun _ => 0)).2.gSb 12).toNat < 2 ^ 32 := by
      rw [hblock]
      decide
    have hspoiled := diskBlock_spoiled (Mkfs.bytesOf d.image) haddr (256 * 12 + 0x0A)
    rw [hblock] at hspoiled
    rw [onDiskInode, onDiskInode, hspoiled]
    exact inodeSlot_spoiled _ 12 (show 0x0A < 256 by omega) ▸
      burst_spoiled _ (by decide) (by decide)
  · obtain ⟨hentries, -⟩ := hmedium.enumerates_all hmounted hvol hshort (by decide)
      (show Mkfs.twentyFiles.length ≤ 32 by decide)
    have hsome : 0 < (Mkfs.Volume.entriesOf Mkfs.twentyFiles).length := by
      rw [Mkfs.Volume.entriesOf_length]
      decide
    obtain ⟨x, hx⟩ := List.exists_mem_of_length_pos hsome
    rw [← hentries] at hx
    obtain ⟨ce, hlists, -⟩ := (owfsEnumerate_stores 32 x).mp hx
    refine ⟨ce, hlists, ?_⟩
    intro io' max' s'
    exact (@damaged_refused _ io' _ s').2.2.1 32 max' ce _ hlists
      (burst_spoiled ce (by decide) (by decide))

end ModularBootloader
