import ModularBootloader.MkfsListing

/-!
# What was formatted is read back

`format_owfs` against the driver, on images that are blank over the volume and
over a block for each file behind it.
-/

namespace ModularBootloader.Mkfs
open ByteStore

def BlankFrom (image : Bytearray) (start size : Nat) : Prop :=
  start + size ≤ image.length ∧ ∀ a, start ≤ a → a < start + size → image.getD a 0 = 0

def diskWith (image : Bytearray) : Option BlockIo := some (diskOf (bytesOf image))

section Blank
variable {image : Bytearray} {totalBlocks blockStart room : Nat}

theorem images_of_blank (label : String)
    (h : BlankFrom image blockStart (4096 * totalBlocks + room)) :
    Volume.Images ⟨totalBlocks, blockStart, label⟩ room image fun _ _ => 0 := by
  obtain ⟨hlength, hzero⟩ := h
  refine ⟨by dsimp only; omega, ?_, ?_⟩
  · intro b hb i hi
    have hend := BlockStore.block_end_le 4096 hb
    dsimp only at hend ⊢
    exact hzero _ (by omega) (by omega)
  · intro a hlo hhi
    dsimp only at hlo hhi
    exact hzero a (by omega) (by omega)

theorem blankFrom_replicate {start size n : Nat} (h : start + size ≤ n) :
    BlankFrom (List.replicate n 0) start size := by
  refine ⟨by rw [List.length_replicate]; exact h, ?_⟩
  intro a _ ha
  rw [List.getD_eq_getElem?_getD, List.getElem?_replicate]
  split_ifs
  · rfl
  · rfl

theorem padSum_le (files : FileList) : Volume.padSum files ≤ 4096 * files.length := by
  induction files with
  | nil => exact Nat.le_refl 0
  | cons f rest ih =>
    have hsum : Volume.padSum (f :: rest) = Volume.padOf f.2 + Volume.padSum rest := List.sum_cons
    have hpad : Volume.padOf f.2 = 4096 * Volume.blocksOf f.2 - f.2.length := rfl
    have hblocks := Volume.blocksOf_eq f.2
    rw [List.length_cons]
    omega

end Blank

theorem nameLoop_ascii {name : Bytearray} (hascii : ∀ c ∈ name, c < 0x80) (room i : Nat) :
    nameLoop (bytesOf name) name.length room i = (name.drop i).take room := by
  induction room generalizing i with
  | zero => rfl
  | succ room ih =>
    rw [nameLoop]
    by_cases hi : i < name.length
    · have hbyte : window (bytesOf name) i 0 = name[i] := by
        rw [window_apply, Nat.add_zero, bytesOf, List.getD_eq_getElem?_getD,
          List.getElem?_eq_getElem hi, Option.getD_some]
      have hlow := hascii _ (List.getElem_mem hi)
      rw [← hbyte] at hlow
      have hdecode := sutf8DecodeChar_ascii (show name.length - i ≠ 0 by omega) hlow
      have hchar : ∀ c : UInt8, c < 0x80 → c.toUInt32 ≤ 0x7F ∧ c.toUInt32.toUInt8 = c := by
        decide +kernel
      rw [hbyte] at hdecode hlow
      obtain ⟨hle, hback⟩ := hchar _ hlow
      rw [if_pos hi, hdecode]
      dsimp only
      rw [if_neg (by decide), if_pos hle, hback, ih, List.drop_eq_getElem_cons hi,
        List.take_succ_cons]
    · rw [if_neg hi, List.drop_eq_nil_of_le (by omega), List.take_nil]

theorem owfsNameToAscii_ascii {name : Bytearray} (hascii : ∀ c ∈ name, c < 0x80)
    (hlen : name.length ≤ 255) :
    owfsNameToAscii (bytesOf name) (UInt8.ofNat name.length) = name.take 127 := by
  have hnat : (UInt8.ofNat name.length).toNat = name.length := by
    rw [UInt8.toNat_ofNat']
    omega
  rw [owfsNameToAscii, hnat, nameLoop_ascii hascii, List.drop_zero, mblNameMax]

structure Loads (io : Option BlockIo) (num sizeOut : UInt32) (s : Machine) (data : Bytearray) :
    Prop where
  code : (owfsLoadFile io num mblKernelAddr sizeOut s).code = mblComKernelLoadOk
  size : (owfsLoadFile io num mblKernelAddr sizeOut s).size.toNat = data.length
  bytes : ∀ j < data.length,
    (owfsLoadFile io num mblKernelAddr sizeOut s).machine.ram (mblKernelAddr.toNat + j) =
      data.getD j 0

/-- From the probed state on, after any calls, a listing into 32 entries shows
the files in order, and each entry it shows loads its file. -/
structure ReadBack (io : Option BlockIo) (s : Machine) (files : FileList) : Prop where
  count : ∀ t, AfterCalls io s t →
    (owfsEnumerate io 32 t).result = (min files.length 32 : Nat) ∧
      (owfsEnumerate io 32 t).entries.length = min files.length 32
  entry : ∀ t, AfterCalls io s t → ∀ i f, i < 32 → files[i]? = some f →
    ∃ e, (owfsEnumerate io 32 t).entries[i]? = some e ∧ e.type = owfsEntryFile ∧
      e.name = f.1.take 127 ∧
      ∀ u, AfterCalls io s u → ∀ sizeOut, Loads io e.inode sizeOut u f.2

/-- A file whose name the driver shows as it is, and of a size it loads. -/
structure Plain (f : Bytearray × Bytearray) : Prop where
  named : 1 ≤ f.1.length
  short : f.1.length ≤ 128
  ascii : ∀ c ∈ f.1, c ≠ 0 ∧ c < 0x80
  size : 16 ≤ f.2.length

section Trip
variable {image : Bytearray} {totalBlocks : Nat} {label : String} {files : FileList}
variable {s : VolumeState}

theorem costFrom_le (count : Nat) (hcaps : ∀ f ∈ files, Volume.blocksOf f.2 ≤ 1034) :
    Volume.costFrom count files ≤ 1036 * files.length := by
  induction files generalizing count with
  | nil => exact Nat.le_refl 0
  | cons f rest ih =>
    have hrest := ih (count + 1) fun g hg => hcaps g (List.mem_cons_of_mem f hg)
    have hcap := hcaps f List.mem_cons_self
    have hgrows : Volume.grows count ≤ 1 := by
      rw [Volume.grows]
      split_ifs <;> omega
    have htaken : Volume.takenBlocks (Volume.blocksOf f.2) ≤ 1035 := by
      rw [Volume.takenBlocks]
      split_ifs <;> omega
    rw [Volume.costFrom, Volume.fileCost, List.length_cons]
    omega

/-- A formatted image is a medium of the driver. -/
theorem formatOwfs_onMedium
    (hblank : BlankFrom image volumeBase (4096 * totalBlocks + 4096 * files.length))
    (hwidth : totalBlocks < 2 ^ 32) (hnames : ∀ f ∈ files, f.1.length ≤ 178)
    (hformat : formatOwfs image totalBlocks label files true volumeBase = .ok s) :
    ∃ D, Volume.OnMedium ⟨totalBlocks, volumeBase, label⟩ (bytesOf s.image) D
        (1 + Volume.costFrom 0 files) ∧
      Volume.VolumeAt ⟨totalBlocks, volumeBase, label⟩ D (1 + Volume.costFrom 0 files)
        s.rootBlocks files := by
  have himage := images_of_blank label hblank
  obtain ⟨⟨htotal, hleft, hcaps, hfew⟩, D, himage, hvol, hsuper⟩ :=
    (formatOwfs_returnsIff true himage (padSum_le files) hnames).sound s hformat
  have hcost := costFrom_le 0 hcaps
  have hstart := Volume.dataRegionStart_eq ⟨totalBlocks, volumeBase, label⟩
  have hbitmap : (Volume.mk totalBlocks volumeBase label).bitmapBlocks =
      (totalBlocks - 273 + 32768) / 32769 := rfl
  exact ⟨D, Volume.onMedium_of_images himage rfl htotal hleft (by omega) (hsuper rfl), hvol⟩

theorem formatOwfs_fits (label : String)
    (hblank : BlankFrom image volumeBase (4096 * totalBlocks + 4096 * files.length))
    (hnames : ∀ f ∈ files, f.1.length ≤ 178) (htotal : 275 ≤ totalBlocks)
    (hleft : 1 + Volume.costFrom 0 files ≤ (Volume.mk totalBlocks volumeBase label).dataBlocks)
    (hcaps : ∀ f ∈ files, Volume.blocksOf f.2 ≤ 1034) (hfew : files.length ≤ 896) :
    ∃ s, formatOwfs image totalBlocks label files true volumeBase = .ok s :=
  (formatOwfs_returnsIff true (images_of_blank label hblank) (padSum_le files) hnames).returns
    ⟨htotal, hleft, hcaps, hfew⟩

theorem formatOwfs_readBack
    (hblank : BlankFrom image volumeBase (4096 * totalBlocks + 4096 * files.length))
    (haddr : 131200 + 8 * totalBlocks < 2 ^ 32) (hfiles : ∀ f ∈ files, Plain f)
    (hformat : formatOwfs image totalBlocks label files true volumeBase = .ok s)
    (drive : UInt8) (t : Machine) :
    (owfsProbe (diskWith s.image) drive t).1 = mblComVolumeProbeOk ∧
      ReadBack (diskWith s.image) (owfsProbe (diskWith s.image) drive t).2 files := by
  have hnames : ∀ f ∈ files, f.1.length ≤ 178 := fun f hf => (hfiles f hf).short.trans (by omega)
  obtain ⟨D, hmedium, hvol⟩ := formatOwfs_onMedium hblank (by omega) hnames hformat
  obtain ⟨hprobe, hmounted⟩ := owfsProbe_mounts drive t hmedium.accepted
  refine ⟨hprobe, ?_⟩
  have hlisting : ∀ u, AfterCalls (diskWith s.image) (owfsProbe (diskWith s.image) drive t).2 u →
      (owfsEnumerate (diskWith s.image) 32 u).entries = (Volume.entriesOf files).take 32 ∧
        (owfsEnumerate (diskWith s.image) 32 u).result = (min files.length 32 : Nat) := by
    intro u hu
    have hm := hmounted.of_gSb hu.gSb
    rcases Nat.lt_or_ge 32 files.length with hmany | hfew
    · obtain ⟨hentries, hresult⟩ := hmedium.enumerates_first hm hvol hnames hmany (by omega)
      refine ⟨hentries, ?_⟩
      rw [Nat.min_eq_right hmany.le]
      exact hresult
    · obtain ⟨hentries, hresult⟩ := hmedium.enumerates_all hm hvol hnames (by omega) hfew
      rw [Nat.min_eq_left hfew,
        List.take_of_length_le (by rw [Volume.entriesOf_length]; exact hfew)]
      exact ⟨hentries, hresult⟩
  constructor
  · intro u hu
    obtain ⟨hentries, hresult⟩ := hlisting u hu
    refine ⟨hresult, ?_⟩
    rw [hentries, List.length_take, Volume.entriesOf_length, Nat.min_comm]
  · intro u hu i f hi hf
    obtain ⟨hentries, -⟩ := hlisting u hu
    have hplain := hfiles f (List.mem_of_getElem? hf)
    have hlt := hvol.stored.index_lt hf
    have hcount := hvol.catalog.count_lt
    obtain ⟨start, hfile⟩ := hvol.stored.file i f hf
    refine ⟨Volume.entryOf i f, ?_, rfl, ?_, ?_⟩
    · rw [hentries, List.getElem?_take_of_lt hi, Volume.entriesOf, List.getElem?_mapIdx, hf]
      rfl
    · exact owfsNameToAscii_ascii (fun c hc => (hplain.ascii c hc).2)
        (hplain.short.trans (by omega))
    · intro v hv sizeOut
      obtain ⟨hcode, hsize, hbytes⟩ := hmedium.loads (hmounted.of_gSb hv.gSb) hfile
        (show i + 1 < 4096 by omega) hplain.size sizeOut
      exact ⟨hcode, hsize, hbytes⟩

def smallKernel : FileList := [([0x6B], List.replicate 16 0x41)]

def smallDisk : Bytearray := List.replicate (volumeBase + (4096 * 276 + 4096 * 1)) 0

theorem smallDisk_blank :
    BlankFrom smallDisk volumeBase (4096 * 276 + 4096 * smallKernel.length) :=
  blankFrom_replicate (Nat.le_refl _)

theorem smallKernel_plain : ∀ f ∈ smallKernel, Plain f := by
  intro f hf
  obtain rfl := List.mem_singleton.mp hf
  refine ⟨by decide, by decide, ?_, by decide⟩
  intro c hc
  obtain rfl := List.mem_singleton.mp hc
  decide

theorem smallDisk_formats :
    ∃ s, formatOwfs smallDisk 276 "MBL" smallKernel true volumeBase = .ok s :=
  formatOwfs_fits "MBL" smallDisk_blank
    (fun f hf => (smallKernel_plain f hf).short.trans (by omega)) (by decide) (by decide)
    (by decide) (by decide)

/-- Two catalog blocks; the files from the ninth on have blocks behind their direct slots. -/
def twentyFiles : FileList := (List.range 20).map fun i =>
  ([UInt8.ofNat (0x61 + i)], List.replicate (5000 * (i + 1)) (UInt8.ofNat i))

def twentyDisk : Bytearray := List.replicate (volumeBase + (4096 * 21000 + 4096 * 20)) 0

theorem twentyDisk_blank :
    BlankFrom twentyDisk volumeBase (4096 * 21000 + 4096 * twentyFiles.length) :=
  blankFrom_replicate (Nat.le_refl _)

theorem twentyFiles_file {f : Bytearray × Bytearray} (hf : f ∈ twentyFiles) :
    ∃ i < 20, f = ([UInt8.ofNat (0x61 + i)], List.replicate (5000 * (i + 1)) (UInt8.ofNat i)) := by
  obtain ⟨i, hi, rfl⟩ := List.mem_map.mp hf
  exact ⟨i, List.mem_range.mp hi, rfl⟩

theorem twentyFiles_plain : ∀ f ∈ twentyFiles, Plain f := by
  intro f hf
  obtain ⟨i, hi, rfl⟩ := twentyFiles_file hf
  have hletter : ∀ i < 20, UInt8.ofNat (0x61 + i) ≠ 0 ∧ UInt8.ofNat (0x61 + i) < 0x80 := by decide
  refine ⟨Nat.le_refl 1, show 1 ≤ 128 by omega, ?_, ?_⟩
  · intro c hc
    obtain rfl := List.mem_singleton.mp hc
    exact hletter i hi
  · rw [List.length_replicate]
    omega

theorem twentyDisk_formats :
    ∃ s, formatOwfs twentyDisk 21000 "MBL" twentyFiles true volumeBase = .ok s := by
  have hlength : twentyFiles.length = 20 := rfl
  have hcaps : ∀ f ∈ twentyFiles, Volume.blocksOf f.2 ≤ 1034 := by
    intro f hf
    obtain ⟨i, hi, rfl⟩ := twentyFiles_file hf
    rw [Volume.blocksOf_eq, List.length_replicate]
    omega
  have hcost := costFrom_le 0 hcaps
  have hroom : 1 + 1036 * 20 ≤ (Volume.mk 21000 volumeBase "MBL").dataBlocks := by decide
  exact formatOwfs_fits "MBL" twentyDisk_blank
    (fun f hf => (twentyFiles_plain f hf).short.trans (by omega)) (by decide) (by omega) hcaps
    (by omega)

theorem twentyFiles_readBack : ∃ s,
    formatOwfs twentyDisk 21000 "MBL" twentyFiles true volumeBase = .ok s ∧
    (owfsProbe (diskWith s.image) 0 (.boot fun _ => 0)).1 = mblComVolumeProbeOk ∧
    ReadBack (diskWith s.image) (owfsProbe (diskWith s.image) 0 (.boot fun _ => 0)).2
      twentyFiles := by
  obtain ⟨s, hs⟩ := twentyDisk_formats
  exact ⟨s, hs, formatOwfs_readBack twentyDisk_blank (by decide) twentyFiles_plain hs 0
    (.boot fun _ => 0)⟩

end Trip

structure CatalogWhole (io : Option BlockIo) (s : Machine) (roots : List Nat) (files : FileList) :
    Prop where
  read : (owfsReadInode io owfsRootInode s).1 = .ok (onDiskInode io s.gSb owfsRootInode)
  count : (Inode.blockCount (onDiskInode io s.gSb owfsRootInode)).toNat = roots.length
  resolves : ∀ t, AfterCalls io s t → ∀ k b, roots[k]? = some b →
    (owfsBlockmapGet io (onDiskInode io s.gSb owfsRootInode) (UInt32.ofNat k) t).1 =
      .ok (UInt32.ofNat b)
  listed : ∀ t, AfterCalls io s t → ∀ max : Int, files.length ≤ max →
    (owfsEnumerate io max t).result = files.length ∧
      (owfsEnumerate io max t).entries = Volume.entriesOf files

section Catalog
variable {vol : Volume} {content : Bytes} {D : Volume.Store} {roots : List Nat} {files : FileList}
variable {k : Nat} {s : Machine} (h : vol.OnMedium content D k) (hm : Mounted content s)
variable (hvol : vol.VolumeAt D k roots files) (hnames : ∀ f ∈ files, f.1.length ≤ 178)
include h hm hvol hnames

theorem catalogWhole_of_few (hcount : files.length ≤ 160) :
    CatalogWhole (some (diskOf content)) s roots files := by
  obtain ⟨hacc, hroot⟩ := h.root hm hvol
  have hlength := hvol.catalog.length
  rw [Volume.rootBlocksFor] at hlength
  have hblocks := Volume.rootCount hroot hvol.catalog.few
  have hmapped := h.rootMapped hroot hvol (Nat.le_refl roots.length) (by omega)
  have hcap : mapCapacity = 1034 := rfl
  refine ⟨by rw [owfsReadInode_accepted hacc], hblocks, ?_, ?_⟩
  · intro t ht j b hb
    obtain ⟨hj, rfl⟩ := List.getElem?_eq_some_iff.mp hb
    have hfetch := hmapped.fetches hj t.requests.length t.ram
    rw [FetchFails, not_or] at hfetch
    have hidx : UInt32.ofNat j <
        Inode.blockCount (onDiskInode (some (diskOf content)) s.gSb owfsRootInode) := by
      rw [UInt32.lt_iff_toNat_lt, hblocks, UInt32.toNat_ofNat', Nat.mod_eq_of_lt (by omega)]
      exact hj
    rw [owfsBlockmapGet_ok hidx hfetch.1, mapWord_mapBlock _ _ _ (by omega),
      Volume.rootMap_direct hroot hj (by omega)]
  · intro t ht max hmax
    obtain ⟨m, rfl⟩ := Int.eq_ofNat_of_zero_le (show 0 ≤ max by omega)
    obtain ⟨hentries, hresult⟩ := h.enumerates_all (hm.of_gSb ht.gSb) hvol hnames hcount
      (show files.length ≤ m by omega)
    exact ⟨hresult, hentries⟩

theorem not_catalogWhole_of_many (hcount : 160 < files.length) :
    ¬ CatalogWhole (some (diskOf content)) s roots files := by
  intro hwhole
  have hlost := h.enumerates_lost hm hvol hnames hcount (show 160 ≤ files.length by omega)
  rw [(hwhole.listed s .start files.length (Int.le_refl _)).1] at hlost
  omega

end Catalog

section Format
variable {image : Bytearray} {totalBlocks : Nat} {label : String} {files : FileList}
variable {s : VolumeState}

theorem formatOwfs_catalogWhole
    (hblank : BlankFrom image volumeBase (4096 * totalBlocks + 4096 * files.length))
    (hwidth : totalBlocks < 2 ^ 32) (hnames : ∀ f ∈ files, f.1.length ≤ 128)
    (hformat : formatOwfs image totalBlocks label files true volumeBase = .ok s)
    (drive : UInt8) (t : Machine) :
    CatalogWhole (diskWith s.image) (owfsProbe (diskWith s.image) drive t).2 s.rootBlocks files ↔
      files.length ≤ 160 := by
  have hshort : ∀ f ∈ files, f.1.length ≤ 178 := fun f hf => (hnames f hf).trans (by omega)
  obtain ⟨D, hmedium, hvol⟩ := formatOwfs_onMedium hblank hwidth hshort hformat
  obtain ⟨-, hmounted⟩ := owfsProbe_mounts drive t hmedium.accepted
  constructor
  · intro hwhole
    by_contra hmany
    exact not_catalogWhole_of_many hmedium hmounted hvol hshort (by omega) hwhole
  · exact catalogWhole_of_few hmedium hmounted hvol hshort

theorem twentyFiles_catalogWhole : ∃ s,
    formatOwfs twentyDisk 21000 "MBL" twentyFiles true volumeBase = .ok s ∧
    (CatalogWhole (diskWith s.image) (owfsProbe (diskWith s.image) 0 (.boot fun _ => 0)).2
      s.rootBlocks twentyFiles ↔ twentyFiles.length ≤ 160) := by
  obtain ⟨s, hs⟩ := twentyDisk_formats
  exact ⟨s, hs, formatOwfs_catalogWhole twentyDisk_blank (by decide)
    (fun f hf => (twentyFiles_plain f hf).short) hs 0 (.boot fun _ => 0)⟩

def manyFiles : FileList := List.replicate 161 ([0x61], [])

def manyDisk : Bytearray := List.replicate (volumeBase + (4096 * 300 + 4096 * 161)) 0

theorem manyFiles_catalogLost : ∃ s,
    formatOwfs manyDisk 300 "MBL" manyFiles true volumeBase = .ok s ∧
    ¬ CatalogWhole (diskWith s.image) (owfsProbe (diskWith s.image) 0 (.boot fun _ => 0)).2
      s.rootBlocks manyFiles := by
  have hlength : manyFiles.length = 161 := List.length_replicate
  have hblank : BlankFrom manyDisk volumeBase (4096 * 300 + 4096 * manyFiles.length) :=
    blankFrom_replicate (by rw [hlength])
  have hfile : ∀ f ∈ manyFiles, f = ([0x61], []) := fun f hf => List.eq_of_mem_replicate hf
  have hnames : ∀ f ∈ manyFiles, f.1.length ≤ 178 := by
    intro f hf
    rw [hfile f hf]
    decide
  obtain ⟨s, hs⟩ := formatOwfs_fits "MBL" hblank hnames (by decide) (by decide +kernel) (by
    intro f hf
    rw [hfile f hf]
    decide) (by omega)
  obtain ⟨D, hmedium, hvol⟩ := formatOwfs_onMedium hblank (by decide) hnames hs
  obtain ⟨-, hmounted⟩ := owfsProbe_mounts 0 (.boot fun _ => 0) hmedium.accepted
  exact ⟨s, hs, not_catalogWhole_of_many hmedium hmounted hvol hnames (by omega)⟩

end Format

end ModularBootloader.Mkfs
