import ModularBootloader.GptRoundTrip
import ModularBootloader.EspRoundTrip
import ModularBootloader.RoundTrip
import ModularBootloader.MkfsBounds

/-!
# The disk image

`main` of `build_image.py` from the blank image on: the protective record, the
partition table, the system partition with the loader, and the volume with the
kernel. Each step leaves what the steps before it wrote, but for the slice
assignment that shortens the image by what the last block of the kernel lacks.
-/

namespace ModularBootloader.DiskImage
open ByteStore Mkfs SliceWrites Esp GptWriter

def kernelFile (kernel : Bytearray) : FileList := [(ascii "kernel.bin", kernel)]

def buildImage (diskGuid : Uuid) (efiData kernel : Bytearray) : Except PyError Bytearray := do
  let image := zeros diskBytes
  let image ← writeProtectiveMbr image
  let image ← writeGpt diskGuid image
  let image ← writeFat32Esp image efiData
  let s ← formatOwfs image owfsTotalBlocks "MBL" (kernelFile kernel) true (owfsLba * sector)
  .ok s.image

structure MbrWritten (image image' : Bytearray) : Prop where
  run : writeProtectiveMbr image = .ok image'
  length : image'.length = image.length
  outside : ∀ a, 512 ≤ a → image'[a]? = image[a]?

theorem bytesOf_congr {l l' : Bytearray} {a a' : Nat} (h : l[a]? = l'[a']?) :
    bytesOf l a = bytesOf l' a' := by
  rw [bytesOf, bytesOf, List.getD_eq_getElem?_getD, List.getD_eq_getElem?_getD, h]

theorem bytesOf_zeros (n a : Nat) : bytesOf (zeros n) a = 0 := by
  rw [bytesOf, zeros, List.getD_eq_getElem?_getD, List.getElem?_replicate]
  split_ifs <;> rfl

theorem mbr_protective : Gpt.Protective (fields mbrStores) diskSectors := by decide

theorem writeProtectiveMbr_written {n : Nat} (hn : 512 ≤ n) :
    ∃ image', MbrWritten (zeros n) image' ∧ Gpt.Protective (bytesOf image') diskSectors := by
  have hsmall : ∀ s ∈ mbrStores, s.Fits 512 := by decide
  have hlength : (zeros n).length = n := List.length_replicate
  have hfit : ∀ s ∈ mbrStores, s.Fits n := by
    intro s hs
    have h := hsmall s hs
    cases s with
    | slice lo hi value => exact ⟨h.1, h.2.trans hn⟩
    | byte i val => exact ⟨h.1, h.2.trans hn⟩
    | half off val => exact ⟨h.1, h.2.trans hn⟩
    | word off val => exact ⟨h.1, h.2.trans hn⟩
  obtain ⟨image', hrun, hlength', hbytes⟩ := execAll_zeros hfit
  have hstop : ∀ w ∈ mbrStores.map Store.write, w.stop ≤ 512 := by
    intro w hw
    obtain ⟨s, hs, rfl⟩ := List.mem_map.mp hw
    exact Store.stop_le (hsmall s hs)
  have happly : image' = applyAll (zeros n) (mbrStores.map Store.write) := by
    have hall := execAll_fits (show ∀ s ∈ mbrStores, s.Fits (zeros n).length by rwa [hlength])
    exact Except.ok.inj (hrun.symm.trans hall)
  refine ⟨image', ⟨hrun, hlength'.trans hlength.symm, ?_⟩, ?_⟩
  · intro a ha
    rw [happly]
    apply applyAll_outside
    · intro w hw
      rw [hlength]
      exact (hstop w hw).trans hn
    · intro w hw
      exact .inr ((hstop w hw).trans ha)
  · rw [hbytes]
    exact mbr_protective

theorem volumeBase_lba : owfsLba * sector = volumeBase ∧ base + espSectors * sector = volumeBase ∧
    base = 65536 ∧ sector = 512 ∧ volumeBase = 67174400 ∧ diskBytes = 101711872 ∧
    backupEntriesLba * sector = 101694976 := by decide

structure Stages (diskGuid : Uuid) (efiData kernel : Bytearray)
    (mbr gpt entries pri bak esp fat : Bytearray) (s : VolumeState) : Prop where
  record : MbrWritten (zeros diskBytes) mbr
  protective : Gpt.Protective (bytesOf mbr) diskSectors
  table : GptWritten diskGuid mbr gpt entries pri bak
  system : Written gpt efiData esp fat
  volume : formatOwfs esp owfsTotalBlocks "MBL" (kernelFile kernel) true volumeBase = .ok s

section Stages
variable {diskGuid : Uuid} {efiData kernel : Bytearray}
variable {mbr gpt entries pri bak esp fat : Bytearray} {s : VolumeState}

theorem EspHolds.congr {vol vol' : Bytes} (h : EspHolds efiData fat vol)
    (hmax : efiData.length ≤ maxEfiData) (hfat : fat.length = 524288)
    (hsame : ∀ a < espSectors * sector, vol' a = vol a) : EspHolds efiData fat vol' := by
  have hsize : espSectors * sector = 67108864 := by decide
  have hmaxValue : maxEfiData = 66042368 := by decide
  obtain ⟨hboot, hfat1, hfat2, hroot, hefi, hdir, hfile⟩ := h
  refine ⟨?_, ?_, ?_, ?_, ?_, ?_, ?_⟩
  · intro i hi
    rw [hsame _ (by omega), hboot i hi]
  · intro i hi
    rw [hsame _ (by omega), hfat1 i hi]
  · intro i hi
    rw [hsame _ (by omega), hfat2 i hi]
  · intro i hi
    rw [hsame _ (by omega), hroot i hi]
  · intro i hi
    rw [hsame _ (by omega), hefi i hi]
  · intro i hi
    rw [hsame _ (by omega), hdir i hi]
  · intro i hi
    rw [hsame _ (by omega), hfile i hi]

theorem Stages.length (h : Stages diskGuid efiData kernel mbr gpt entries pri bak esp fat s) :
    esp.length = diskBytes :=
  h.system.length.trans (h.table.length.trans (h.record.length.trans List.length_replicate))

theorem blank_behind_system (kernel : Bytearray) (hmbr : MbrWritten (zeros diskBytes) mbr)
    (hgpt : GptWritten diskGuid mbr gpt entries pri bak) (hesp : Written gpt efiData esp fat) :
    BlankFrom esp volumeBase (4096 * owfsTotalBlocks + 4096 * (kernelFile kernel).length) := by
  obtain ⟨-, hend, -, hsector, hbase, hbytes, hbackup⟩ := volumeBase_lba
  have hlength : esp.length = diskBytes :=
    hesp.length.trans (hgpt.length.trans (hmbr.length.trans List.length_replicate))
  have hblocks : owfsTotalBlocks = 2048 := rfl
  have hfiles : (kernelFile kernel).length = 1 := rfl
  refine ⟨by omega, ?_⟩
  intro a hlo hhi
  have hesp : esp[a]? = gpt[a]? := hesp.outside a (.inr (by omega))
  have hgpt : gpt[a]? = mbr[a]? := hgpt.outside a (.inr (by omega)) (.inl (by omega))
  have hmbr : mbr[a]? = (zeros diskBytes)[a]? := hmbr.outside a (by omega)
  have hbyte : bytesOf esp a = bytesOf (zeros diskBytes) a :=
    bytesOf_congr (hesp.trans (hgpt.trans hmbr))
  exact hbyte.trans (bytesOf_zeros _ _)

theorem kernelFile_names (kernel : Bytearray) : ∀ f ∈ kernelFile kernel, f.1.length ≤ 178 := by
  intro f hf
  obtain rfl := List.mem_singleton.mp hf
  exact (show (ascii "kernel.bin").length ≤ 178 by decide)

theorem kernelFile_cost (hcap : Volume.blocksOf kernel ≤ 1034) :
    1 + Volume.costFrom 0 (kernelFile kernel) ≤
      (Volume.mk owfsTotalBlocks volumeBase "MBL").dataBlocks := by
  have hcaps : ∀ f ∈ kernelFile kernel, Volume.blocksOf f.2 ≤ 1034 := by
    intro f hf
    obtain rfl := List.mem_singleton.mp hf
    exact hcap
  have hcost := costFrom_le 0 hcaps
  have hfiles : (kernelFile kernel).length = 1 := rfl
  have hdata : (Volume.mk owfsTotalBlocks volumeBase "MBL").dataBlocks = 1774 := by decide
  omega

theorem stages (diskGuid : Uuid) (hne : efiData ≠ []) (hmax : efiData.length ≤ maxEfiData)
    (hcap : Volume.blocksOf kernel ≤ 1034) :
    ∃ mbr gpt entries pri bak esp fat s,
      Stages diskGuid efiData kernel mbr gpt entries pri bak esp fat s := by
  obtain ⟨hlba, hend, -, -, hbase, hbytes, -⟩ := volumeBase_lba
  obtain ⟨mbr, hmbr, hprotective⟩ := writeProtectiveMbr_written (show 512 ≤ diskBytes by decide)
  have hmbrLength : mbr.length = diskBytes := hmbr.length.trans List.length_replicate
  obtain ⟨gpt, entries, pri, bak, hgpt⟩ := writeGpt_written diskGuid hmbrLength.ge
  have hgptLength : gpt.length = diskBytes := hgpt.length.trans hmbrLength
  obtain ⟨esp, fat, hesp⟩ := writeFat32Esp_written hne hmax
    (show base + espSectors * sector ≤ gpt.length by omega)
  have hblank := blank_behind_system kernel hmbr hgpt hesp
  obtain ⟨s, hs⟩ := formatOwfs_fits "MBL" hblank (kernelFile_names kernel) (by decide)
    (kernelFile_cost hcap) (by
      intro f hf
      obtain rfl := List.mem_singleton.mp hf
      exact hcap) (show 1 ≤ 896 by decide)
  exact ⟨mbr, gpt, entries, pri, bak, esp, fat, s, hmbr, hprotective, hgpt, hesp, hs⟩

theorem Stages.run (h : Stages diskGuid efiData kernel mbr gpt entries pri bak esp fat s) :
    buildImage diskGuid efiData kernel = .ok s.image := by
  rw [buildImage, volumeBase_lba.1, h.record.run, ok_bind, h.table.run, ok_bind, h.system.run,
    ok_bind, h.volume, ok_bind]

theorem Stages.contained
    (h : Stages diskGuid efiData kernel mbr gpt entries pri bak esp fat s) :
    Volume.Contained ⟨owfsTotalBlocks, volumeBase, "MBL"⟩ (Volume.padOf kernel) 0 esp s.image := by
  have hlength := h.length
  obtain ⟨-, -, -, -, hbase, hbytes, -⟩ := volumeBase_lba
  have hblocks : owfsTotalBlocks = 2048 := rfl
  have hpad : Volume.padSum (kernelFile kernel) = Volume.padOf kernel := List.sum_singleton
  have hgrow : Volume.growSum (kernelFile kernel) = 0 :=
    List.sum_singleton.trans (show Volume.growOf (ascii "kernel.bin") = 0 by decide)
  have hle := padSum_le (kernelFile kernel)
  have hfiles : (kernelFile kernel).length = 1 := rfl
  have hcontained := formatOwfs_contained (by omega) h.volume
  rwa [hpad, hgrow] at hcontained

theorem Stages.before (h : Stages diskGuid efiData kernel mbr gpt entries pri bak esp fat s)
    {a : Nat} (ha : a < volumeBase) : bytesOf s.image a = bytesOf esp a := by
  apply bytesOf_congr
  apply h.contained.before
  rw [Volume.blockOff_eq]
  exact Nat.lt_of_lt_of_le ha (Nat.le_add_right _ _)

theorem Stages.protected (h : Stages diskGuid efiData kernel mbr gpt entries pri bak esp fat s) :
    Gpt.Protective (bytesOf s.image) diskSectors := by
  obtain ⟨-, -, hbase, hsector, hvolume, -⟩ := volumeBase_lba
  refine (Gpt.protective_congr ?_).mp h.protective
  intro a ha
  rw [h.before (by omega)]
  have hesp : esp[a]? = gpt[a]? := h.system.outside a (.inl (by omega))
  have hgpt : gpt[a]? = mbr[a]? := h.table.outside a (.inl (by omega)) (.inl (by
    have hbackup := volumeBase_lba.2.2.2.2.2.2
    omega))
  exact (bytesOf_congr (hesp.trans hgpt)).symm

theorem Stages.primary (h : Stages diskGuid efiData kernel mbr gpt entries pri bak esp fat s) :
    CopyAt diskGuid 1 (diskSectors - 1) 2 entries pri (bytesOf s.image) := by
  obtain ⟨-, -, hbase, hsector, hvolume, -⟩ := volumeBase_lba
  have hsame : ∀ a < base, bytesOf s.image a = bytesOf gpt a := by
    intro a ha
    rw [h.before (by omega)]
    exact bytesOf_congr (h.system.outside a (.inl ha))
  apply h.table.primary.of_same
  · intro a _ ha
    exact hsame a (by omega)
  · intro a _ ha
    rw [hsector] at ha
    exact hsame a (by omega)

theorem Stages.sectors (h : Stages diskGuid efiData kernel mbr gpt entries pri bak esp fat s) :
    198600 < s.image.length / sector ∧
      (diskSectors - 1 < s.image.length / sector ↔ 4096 ∣ kernel.length) := by
  have hlength := h.contained.length
  have hesp := h.length
  have hpad : Volume.padOf kernel = 4096 * Volume.blocksOf kernel - kernel.length := rfl
  have hblocks := Volume.blocksOf_eq kernel
  obtain ⟨-, -, -, hsector, -, hbytes, -⟩ := volumeBase_lba
  have hdisk := diskSectors_eq
  rw [hsector, hdisk]
  omega

theorem Stages.backup (h : Stages diskGuid efiData kernel mbr gpt entries pri bak esp fat s)
    (hkernel : 4096 ∣ kernel.length) :
    CopyAt diskGuid (diskSectors - 1) 1 backupEntriesLba entries bak (bytesOf s.image) := by
  have hpad : Volume.padOf kernel = 0 :=
    (Volume.padOf_eq_zero kernel).mpr (Nat.mod_eq_zero_of_dvd hkernel)
  obtain ⟨-, hend, hbase, hsector, hvolume, hbytes, hbackup⟩ := volumeBase_lba
  have hdisk := diskSectors_eq
  have hoff := Volume.blockOff_eq ⟨owfsTotalBlocks, volumeBase, "MBL"⟩ owfsTotalBlocks
  have hblocks : owfsTotalBlocks = 2048 := rfl
  dsimp only at hoff
  have hsame : ∀ a, backupEntriesLba * sector ≤ a → bytesOf s.image a = bytesOf gpt a := by
    intro a ha
    have hvol : s.image[a]? = esp[a]? := h.contained.after hpad rfl a (by dsimp only; omega)
    have hesp : esp[a]? = gpt[a]? := h.system.outside a (.inr (by omega))
    exact bytesOf_congr (hvol.trans hesp)
  apply h.table.backup.of_same
  · intro a ha _
    exact hsame a (by rw [hdisk, hsector] at ha; omega)
  · intro a ha _
    exact hsame a ha

theorem Stages.loader (h : Stages diskGuid efiData kernel mbr gpt entries pri bak esp fat s)
    (hne : efiData ≠ []) (hmax : efiData.length ≤ maxEfiData) :
    Fat32.readFile (window (bytesOf s.image) base) efiPath =
      some ⟨List.range' 5 (clustersOf efiData.length), efiData⟩ := by
  obtain ⟨start, hstart, hchain⟩ := h.system.chain
  have hfat := h.system.fatLength
  obtain ⟨-, hend, -⟩ := volumeBase_lba
  have hholds : EspHolds efiData fat (window (bytesOf s.image) base) := by
    apply EspHolds.congr h.system.holds hmax hfat
    intro a ha
    exact h.before (by omega)
  exact hholds.readFile hstart hchain hfat hne hmax

theorem Stages.medium (h : Stages diskGuid efiData kernel mbr gpt entries pri bak esp fat s) :
    ∃ D k, Volume.OnMedium ⟨owfsTotalBlocks, volumeBase, "MBL"⟩ (bytesOf s.image) D k ∧
      Volume.VolumeAt ⟨owfsTotalBlocks, volumeBase, "MBL"⟩ D k s.rootBlocks
        (kernelFile kernel) := by
  obtain ⟨D, hmedium⟩ := formatOwfs_onMedium (blank_behind_system kernel h.record h.table h.system)
    (by decide) (kernelFile_names kernel) h.volume
  exact ⟨D, _, hmedium⟩

end Stages

def kernelEntry : MblEntry where
  inode := 1
  type := owfsEntryFile
  name := ascii "kernel.bin"
  size := 0
  name_fits := by decide

/-- Once the volume is probed, a listing shows the kernel and nothing else, and
its inode loads it, whatever was called in between. -/
structure KernelServed (io : Option BlockIo) (s : Machine) (kernel : Bytearray) : Prop where
  listed : ∀ t, AfterCalls io s t → ∀ max : Nat, 1 ≤ max →
    (owfsEnumerate io max t).entries = [kernelEntry] ∧ (owfsEnumerate io max t).result = 1
  loads : ∀ t, AfterCalls io s t → ∀ sizeOut, Loads io kernelEntry.inode sizeOut t kernel

theorem kernelEntry_of (kernel : Bytearray) :
    Volume.entriesOf (kernelFile kernel) = [kernelEntry] := by
  have hname : owfsNameToAscii (bytesOf (ascii "kernel.bin"))
      (UInt8.ofNat (ascii "kernel.bin").length) = ascii "kernel.bin" :=
    owfsNameToAscii_ascii (by decide +kernel) (by decide)
  have hentry : Volume.entryOf 0 (ascii "kernel.bin", kernel) = kernelEntry := by
    simp only [Volume.entryOf, kernelEntry, hname]
    rfl
  rw [← hentry]
  rfl

theorem Stages.served {diskGuid : Uuid} {efiData kernel : Bytearray}
    {mbr gpt entries pri bak esp fat : Bytearray} {s : VolumeState}
    (h : Stages diskGuid efiData kernel mbr gpt entries pri bak esp fat s)
    (hmin : 16 ≤ kernel.length) (drive : UInt8) (t : Machine) :
    (owfsProbe (diskWith s.image) drive t).1 = mblComVolumeProbeOk ∧
      KernelServed (diskWith s.image) (owfsProbe (diskWith s.image) drive t).2 kernel := by
  obtain ⟨D, k, hmedium, hvol⟩ := h.medium
  obtain ⟨hprobe, hmounted⟩ := owfsProbe_mounts drive t hmedium.accepted
  refine ⟨hprobe, ?_, ?_⟩
  · intro u hu m hm
    obtain ⟨hentries, hresult⟩ := hmedium.enumerates_all (hmounted.of_gSb hu.gSb) hvol
      (kernelFile_names kernel) (m := m) (show 1 ≤ 160 by decide) hm
    exact ⟨hentries.trans (kernelEntry_of kernel), hresult⟩
  · intro u hu sizeOut
    obtain ⟨start, hfile⟩ := hvol.stored.file 0 _ rfl
    obtain ⟨hcode, hsize, hbytes⟩ := hmedium.loads (hmounted.of_gSb hu.gSb) hfile (by decide)
      hmin sizeOut
    exact ⟨hcode, hsize, hbytes⟩

/-- Everything each reader finds in the image: the firmware that looks for the
system partition, and the loader that looks for its volume. -/
structure DiskHolds (efiData kernel image : Bytearray) : Prop where
  protective : Gpt.Protective (bytesOf image) diskSectors
  partitions : Gpt.partitions (bytesOf image) (image.length / sector) =
    some [espPartition, owfsPartition]
  loader : ∃ file, Fat32.readFile (window (bytesOf image) (espPartition.first * sector)) efiPath =
    some file ∧ file.contents = efiData
  first : owfsPartition.first = owfsPartitionLba.toNat
  volume : ∀ drive t, (owfsProbe (diskWith image) drive t).1 = mblComVolumeProbeOk ∧
    KernelServed (diskWith image) (owfsProbe (diskWith image) drive t).2 kernel
  backup : Gpt.partitionsAt (bytesOf image) (image.length / sector)
      (Gpt.headerAt (bytesOf image) 1).alternateLba = some [espPartition, owfsPartition] ↔
    4096 ∣ kernel.length

theorem buildImage_holds (diskGuid : Uuid) {efiData kernel : Bytearray} (hne : efiData ≠ [])
    (hmax : efiData.length ≤ maxEfiData) (hmin : 16 ≤ kernel.length)
    (hcap : kernel.length ≤ 1034 * 4096) :
    ∃ image, buildImage diskGuid efiData kernel = .ok image ∧ DiskHolds efiData kernel image := by
  have hblocks := Volume.blocksOf_eq kernel
  obtain ⟨mbr, gpt, entries, pri, bak, esp, fat, s, h⟩ :=
    stages diskGuid hne hmax (show Volume.blocksOf kernel ≤ 1034 by omega)
  obtain ⟨hsectors, hlast⟩ := h.sectors
  obtain ⟨crc, hheader, -⟩ := h.primary.headerAt
  have hsector : sector = 512 := rfl
  have hprimary : Gpt.partitionsAt (bytesOf s.image) (s.image.length / sector) 1 =
      some [espPartition, owfsPartition] := by
    apply h.primary.partitionsAt
    · omega
    · rw [hsector] at hsectors ⊢
      omega
  refine ⟨s.image, h.run, h.protected, ?_, ⟨_, h.loader hne hmax, rfl⟩, by decide,
    h.served hmin, ?_⟩
  · rw [Gpt.partitions, hprimary, Option.some_or]
  · rw [hheader]
    change Gpt.partitionsAt _ _ (diskSectors - 1) = _ ↔ _
    constructor
    · intro hread
      rw [← hlast]
      by_contra hshort
      rw [Gpt.partitionsAt, if_neg (fun hacc => hshort hacc.1)] at hread
      cases hread
    · intro hkernel
      have hlba := hlast.mpr hkernel
      apply (h.backup hkernel).partitionsAt hlba
      obtain ⟨-, -, -, -, -, -, hbackup⟩ := volumeBase_lba
      have hdisk := diskSectors_eq
      rw [hbackup, hsector]
      rw [hsector, hdisk] at hlba
      omega

theorem smallImage_holds : ∃ image,
    buildImage owfsPartGuid [0x4D, 0x5A] (List.replicate 16 0x90) = .ok image ∧
      DiskHolds [0x4D, 0x5A] (List.replicate 16 0x90) image :=
  buildImage_holds owfsPartGuid (by decide) (by decide) (by decide) (by decide)

end ModularBootloader.DiskImage
