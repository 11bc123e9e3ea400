import ModularBootloader.OwfsBounds

/-!
# Where the driver reads on a formatted volume

The driver compares no block number with the geometry it probed. On a volume
the formatting tool has written it need not: the maps of all inodes lead into
the data region, and no call follows one past its end.
-/

namespace ModularBootloader
open ByteStore

section Medium
variable {vol : Mkfs.Volume} {content : Bytes} {D : Mkfs.Volume.Store} {roots : List Nat}
variable {files : Mkfs.FileList} {s : Machine} {k : Nat} (h : vol.OnMedium content D k)
variable (hm : Mounted content s) (hwidth : vol.totalBlocks < 2 ^ 32)
include h hm hwidth

theorem onMedium_geometry :
    (Superblock.inodeTableStart s.gSb).toNat = vol.inodeTableStart ∧
      (Superblock.inodeTableBlocks s.gSb).toNat = 256 ∧
      (Superblock.dataRegionStart s.gSb).toNat = vol.dataRegionStart ∧
      (Superblock.totalBlocks s.gSb).toNat = vol.totalBlocks := by
  obtain ⟨sb, hsb, hsame⟩ := h.superblock
  obtain ⟨hregion, -, -⟩ := vol.geometry h.total
  have hstart := vol.dataRegionStart_eq
  have htable := vol.inodeTableStart_eq
  have hfield : ∀ off, off + 4 ≤ 4096 → load32 s.gSb off = load32 (Mkfs.bytesOf sb) off := by
    intro off hoff
    exact (hm.field hoff).trans (load32_congr fun i hi => hsame _ (by omega))
  refine ⟨?_, ?_, ?_, ?_⟩
  · rw [Superblock.inodeTableStart, hfield _ (by omega)]
    exact hsb.inodeTableStart.trans (Nat.mod_eq_of_lt (by omega))
  · rw [Superblock.inodeTableBlocks, hfield _ (by omega)]
    exact hsb.inodeTableBlocks
  · rw [Superblock.dataRegionStart, hfield _ (by omega)]
    exact hsb.dataRegionStart.trans (Nat.mod_eq_of_lt (by omega))
  · rw [Superblock.totalBlocks, hfield _ (by omega)]
    exact hsb.totalBlocks.trans (Nat.mod_eq_of_lt hwidth)

theorem onMedium_dataBlock {r : Nat} (hr : r < k) :
    InVolume s.gSb ⟨UInt32.ofNat (vol.dataRegionStart + r), .linear mblFsBuf⟩ := by
  obtain ⟨-, -, hdata, htotal⟩ := onMedium_geometry h hm hwidth
  obtain ⟨hregion, -, -⟩ := vol.geometry h.total
  have haddr := h.addr
  have hleft := h.left
  have hnat : (UInt32.ofNat (vol.dataRegionStart + r)).toNat = vol.dataRegionStart + r :=
    Nat.mod_eq_of_lt (by omega)
  constructor
  · rw [hnat, owfsPartitionLba_toNat]
    omega
  · show _ ∧ _
    rw [hnat, hdata, htotal]
    omega

theorem onMedium_inodeBlock {num : UInt32} (hnum : num < Superblock.totalInodes s.gSb) :
    InVolume s.gSb ⟨inodeBlock s.gSb num, .blockBuf⟩ := by
  obtain ⟨htable, hblocks, -, -⟩ := onMedium_geometry h hm hwidth
  have hinodes : Superblock.totalInodes s.gSb =
      Superblock.totalInodes (volumeBlock content 16) := hm.field (by omega)
  have hlow : num.toNat < 4096 := by
    rw [hinodes, h.totalInodes] at hnum
    exact UInt32.lt_iff_toNat_lt.mp hnum
  obtain ⟨haddr, hstart, -⟩ := h.inodeAddr hlow
  rw [UInt32.ofNat_toNat] at haddr
  have hblock := hm.inodeBlock_toNat h.inodeTableStart haddr
  constructor
  · rw [hblock, owfsPartitionLba_toNat]
    exact haddr
  · show _ ∧ _
    rw [hblock, hstart, htable, hblocks]
    omega

variable (hvol : vol.VolumeAt D k roots files)
include hvol

theorem onMedium_loadStays (num : UInt32) : LoadStays (some (diskOf content)) num s := by
  refine ⟨onMedium_inodeBlock h hm hwidth, ?_⟩
  intro hacc j hcap hj _
  obtain ⟨i, f, start, -, hfile, hino⟩ := h.accepted_file hm hvol hacc
  have hlimit := hfile.blocks.capacity
  have hwithin := hfile.within
  have hmap : mapCapacity = 1034 := rfl
  have hcount := hino.count
  dsimp only [Mkfs.Volume.fileFields] at hcount
  constructor
  · intro hten _
    have hlong : 10 < Mkfs.Volume.blocksOf f.2 := by omega
    have hindirect : Inode.indirectBlock (onDiskInode (some (diskOf content)) s.gSb num) =
        UInt32.ofNat (vol.dataRegionStart + (start + 10)) := by
      rw [← UInt32.toNat_inj, hino.indirect, UInt32.toNat_ofNat']
      dsimp only [Mkfs.Volume.fileFields]
      rw [Mkfs.Volume.indirectOf, if_pos hlong]
    have htaken : Mkfs.Volume.takenBlocks (Mkfs.Volume.blocksOf f.2) =
        Mkfs.Volume.blocksOf f.2 + 1 := if_pos hlong
    rw [hindirect]
    exact onMedium_dataBlock h hm hwidth (by omega)
  · intro _ _
    have hblock : j < Mkfs.Volume.blocksOf f.2 := by omega
    have hnth := Mkfs.Volume.nthBlock_lt hblock
    rw [h.fileMap hfile hino hblock]
    exact onMedium_dataBlock h hm hwidth (by omega)
  · intro hlast
    omega

theorem onMedium_listingStays (m : Nat) : ListingStays (some (diskOf content)) m s := by
  obtain ⟨-, hroot⟩ := h.root hm hvol
  have hcount := Mkfs.Volume.rootCount hroot hvol.catalog.few
  have hzero : Inode.indirectBlock
      (onDiskInode (some (diskOf content)) s.gSb owfsRootInode) = 0 := by
    rw [← UInt32.toNat_inj, hroot.indirect]
    rfl
  refine ⟨onMedium_inodeBlock h hm hwidth, ?_⟩
  intro _ j hcap hj _ _
  constructor
  · intro _ hindirect
    exact absurd hzero hindirect
  · intro hindirect _
    have hten : j < 10 := by
      by_contra hfar
      exact (hindirect (not_lt.mp hfar)).1 hzero
    rw [Mkfs.Volume.rootMap_direct hroot (by omega) hten]
    obtain ⟨hlo, hhi⟩ := hvol.catalog.inside roots[j] (List.getElem_mem _)
    have hrest : roots[j] = vol.dataRegionStart + (roots[j] - vol.dataRegionStart) := by omega
    rw [hrest]
    exact onMedium_dataBlock h hm hwidth (by omega)
  · intro _
    exact .inl hzero

end Medium

section Format
variable {image : Mkfs.Bytearray} {totalBlocks : Nat} {label : String} {files : Mkfs.FileList}
variable {d : Mkfs.VolumeState}

/-- Whatever is called on a formatted volume reads inside it, and what it returns is decided by
the disk. -/
theorem formatOwfs_staysInside
    (hblank : Mkfs.BlankFrom image volumeBase (4096 * totalBlocks + 4096 * files.length))
    (hwidth : totalBlocks < 2 ^ 32) (hnames : ∀ f ∈ files, f.1.length ≤ 178)
    (hformat : Mkfs.formatOwfs image totalBlocks label files true volumeBase = .ok d)
    (drive : UInt8) (s : Machine) {t : Machine}
    (hcalls : AfterCalls (Mkfs.diskWith d.image) (owfsProbe (Mkfs.diskWith d.image) drive s).2 t)
    (num : UInt32) (max : Int) :
    LoadInside (Mkfs.diskWith d.image) num t ∧ ListingInside (Mkfs.diskWith d.image) max t ∧
      (∀ sizeOut, LoadDecided (Mkfs.diskWith d.image) num sizeOut t) ∧
      ListingDecided (Mkfs.diskWith d.image) max.toNat t := by
  obtain ⟨D, hmedium, hvol⟩ := Mkfs.formatOwfs_onMedium hblank hwidth hnames hformat
  obtain ⟨-, hmounted⟩ := owfsProbe_mounts drive s hmedium.accepted
  have hlater := hmounted.of_gSb hcalls.gSb
  refine ⟨loadInside_iff.mpr (onMedium_loadStays hmedium hlater hwidth hvol num), ?_, ?_, ?_⟩
  · rw [listingInside_toNat]
    exact listingInside_iff.mpr (onMedium_listingStays hmedium hlater hwidth hvol _)
  · intro sizeOut
    exact loadDecided_iff.mpr (onMedium_loadsWithin hmedium hlater hvol num)
  · exact listingDecided_of_within (onMedium_listsWithin hmedium hlater hvol hnames _)

theorem twentyFiles_staysInside : ∃ d t,
    Mkfs.formatOwfs Mkfs.twentyDisk 21000 "MBL" Mkfs.twentyFiles true volumeBase = .ok d ∧
    t = (owfsLoadFile (Mkfs.diskWith d.image) 20 mblKernelAddr 0
      (owfsEnumerate (Mkfs.diskWith d.image) mblMenuMax
        (owfsProbe (Mkfs.diskWith d.image) 0 (.boot fun _ => 0)).2).machine).machine ∧
    LoadInside (Mkfs.diskWith d.image) 12 t ∧ ListingInside (Mkfs.diskWith d.image) 18 t ∧
    (∀ sizeOut, LoadDecided (Mkfs.diskWith d.image) 12 sizeOut t) ∧
    ListingDecided (Mkfs.diskWith d.image) 18 t := by
  obtain ⟨d, hd⟩ := Mkfs.twentyDisk_formats
  refine ⟨d, _, hd, rfl, ?_⟩
  exact formatOwfs_staysInside Mkfs.twentyDisk_blank (by decide)
    (fun f hf => (Mkfs.twentyFiles_plain f hf).short.trans (by omega)) hd 0 (.boot fun _ => 0)
    (.loaded _ _ _ (.listed _ .start)) 12 18

end Format

end ModularBootloader
