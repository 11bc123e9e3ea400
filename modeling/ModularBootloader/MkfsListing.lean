import ModularBootloader.MkfsMedium

/-!
# The catalog of a formatted volume under the driver

A listing shows the files of the volume in their order, as far as the direct
slots of the root inode lead to their catalog blocks.
-/

namespace ModularBootloader.Mkfs.Volume
open ByteStore BlockStore

theorem filterMap_range_getElem? {α : Type} (l : List α) (n : Nat) :
    (List.range n).filterMap (fun i => l[i]?) = l.take n := by
  induction n with
  | zero => rfl
  | succ n ih =>
    rw [List.range_succ, List.filterMap_append, ih, List.take_add_one]
    cases h : l[n]? <;> simp [h]

theorem flatMap_range_sixteen {α : Type} (l : List α) (k : Nat) :
    (List.range k).flatMap (fun r => (List.range 16).filterMap fun e => l[16 * r + e]?) =
      l.take (16 * k) := by
  induction k with
  | zero => rfl
  | succ k ih =>
    have hrow :
        (List.range 16).filterMap (fun e => l[16 * k + e]?) = (l.drop (16 * k)).take 16 := by
      rw [← filterMap_range_getElem?]
      simp only [List.getElem?_drop]
    rw [List.range_succ (n := k), List.flatMap_append, ih, Nat.mul_succ, List.take_add, ← hrow]
    simp

def entryOf (j : Nat) (f : Bytearray × Bytearray) : MblEntry where
  inode := UInt32.ofNat (j + 1)
  type := owfsEntryFile
  name := owfsNameToAscii (bytesOf f.1) (UInt8.ofNat f.1.length)
  size := 0
  name_fits := owfsNameToAscii_length _ _

def entriesOf (files : FileList) : List MblEntry := files.mapIdx entryOf

theorem catalogEntries_eq (io : Option BlockIo) (block : UInt32) :
    catalogEntries io block = (List.range 16).filterMap fun e =>
      if validEntry (diskEntry io block e) then some (listEntry (diskEntry io block e))
      else none := by
  rw [catalogEntries, ← List.filterMap_eq_map', List.filterMap_filter]

section Entries
variable {vol : Volume} {content : Bytes} {D : Store} {roots : List Nat} {files : FileList}
variable {s : Machine} {k : Nat}

theorem OnMedium.entry (h : OnMedium vol content D k) {b e : Nat} (hb : b < vol.dataRegionStart + k)
    (he : e < 16) {ent : Bytearray} (hslot : SlotAt D b e ent) {i : Nat} (hi : i < 256) :
    diskEntry (some (diskOf content)) (UInt32.ofNat b) e i = bytesOf ent i := by
  have hoff : e * owfsCatalogEntrySize + i = 256 * e + i := by
    rw [owfsCatalogEntrySize, Nat.mul_comm]
  rw [diskEntry, window_apply, hoff, h.diskBlock hb (by omega)]
  exact hslot i hi

structure ShowsFile (ce : Bytes) (j : Nat) (f : Bytearray × Bytearray) : Prop where
  valid : validEntry ce = true
  nameLength : (CatalogEntry.nameLength ce).toNat = f.1.length
  entry : listEntry ce = entryOf j f

theorem EntryImage.shows {j : Nat} {f : Bytearray × Bytearray} {ent : Bytearray} {ce : Bytes}
    (hent : EntryImage (j + 1) entryFile f.1 ent) (hname : f.1.length ≤ 178)
    (hread : ∀ i < 256, ce i = bytesOf ent i) : ShowsFile ce j f := by
  have hword : ∀ off, off + 4 ≤ 256 → load32 ce off = load32 (bytesOf ent) off := by
    intro off hoff
    exact load32_congr fun k hk => hread _ (by omega)
  have htype : CatalogEntry.entryType ce = owfsEntryFile :=
    (hread 4 (by omega)).trans hent.type
  have hlen : CatalogEntry.nameLength ce = UInt8.ofNat f.1.length :=
    (hread 5 (by omega)).trans hent.nameLength
  have hnat : (UInt8.ofNat f.1.length).toNat = f.1.length := by
    rw [UInt8.toNat_ofNat']
    omega
  have hinode : CatalogEntry.inodeNumber ce = UInt32.ofNat (j + 1) := by
    rw [CatalogEntry.inodeNumber, hword _ (by omega), ← UInt32.toNat_inj, hent.inode,
      UInt32.toNat_ofNat']
  have htext : owfsNameToAscii (CatalogEntry.name ce) (CatalogEntry.nameLength ce) =
      owfsNameToAscii (bytesOf f.1) (UInt8.ofNat f.1.length) := by
    rw [hlen]
    apply nameLoop_congr
    intro i hi
    have hspan := nameSpan_le (CatalogEntry.name ce) (UInt8.ofNat f.1.length).toNat
      (mblNameMax - 1) 0
    rw [CatalogEntry.name, window_apply, hread _ (by omega)]
    exact hent.name i (by omega)
  refine ⟨?_, by rw [hlen, hnat], ?_⟩
  · have hcrc := crc32cStruct_congr owfsInodeSize owfsStructCk fun i hi _ => hread i hi
    have hchecksum : ModularBootloader.crc32cStruct ce owfsInodeSize owfsStructCk =
        CatalogEntry.checksum ce := by
      rw [hcrc, hent.isSealed, CatalogEntry.checksum, hword _ (by omega)]
    rw [validEntry, listable, htype, decide_eq_true hchecksum]
    decide
  · simp only [listEntry, entryOf, hinode, htype, htext]

theorem OnMedium.slot (h : OnMedium vol content D k) (hlisted : Listed D roots files)
    (hnames : ∀ f ∈ files, f.1.length ≤ 178) {r b e : Nat} (hr : roots[r]? = some b)
    (hb : b < vol.dataRegionStart + k) (he : e < 16) :
    (∃ f, files[16 * r + e]? = some f ∧
        ShowsFile (diskEntry (some (diskOf content)) (UInt32.ofNat b) e) (16 * r + e) f) ∨
      (files[16 * r + e]? = none ∧
        validEntry (diskEntry (some (diskOf content)) (UInt32.ofNat b) e) = false) := by
  rcases Nat.lt_or_ge (16 * r + e) files.length with hused | hfree
  · have hf := List.getElem?_eq_getElem hused
    have hname := hnames _ (List.getElem_mem hused)
    obtain ⟨c, ent, hc, hent, hslot⟩ := hlisted.entry _ _ hf
    rw [show (16 * r + e) / 16 = r by omega, hr, Option.some.injEq] at hc
    subst hc
    rw [show (16 * r + e) % 16 = e by omega] at hslot
    exact .inl ⟨_, hf, hent.shows hname fun i hi => h.entry hb he hslot hi⟩
  · have hoff : e * owfsCatalogEntrySize + 4 = 256 * e + 4 := by
      rw [owfsCatalogEntrySize, Nat.mul_comm]
    have htype : CatalogEntry.entryType
        (diskEntry (some (diskOf content)) (UInt32.ofNat b) e) = 0 := by
      rw [CatalogEntry.entryType, diskEntry, window_apply, hoff, h.diskBlock hb (by omega)]
      exact hlisted.spare r b e hr he hfree
    refine .inr ⟨List.getElem?_eq_none hfree, ?_⟩
    rw [validEntry, listable, htype]
    rfl

end Entries

section Root
variable {vol : Volume} {content : Bytes} {D : Store} {roots : List Nat} {files : FileList}
variable {s : Machine} {k n : Nat}

theorem OnMedium.root (h : OnMedium vol content D k) (hm : Mounted content s)
    (hvol : VolumeAt vol D k roots files) :
    InodeAccepted (some (diskOf content)) owfsRootInode s ∧
      Decoded (rootFields roots) (onDiskInode (some (diskOf content)) s.gSb owfsRootInode) :=
  h.inode hm (show 0 < 4096 by omega) hvol.root (show UInt8.ofNat entryCatalog ≠ 0 by decide)

theorem OnMedium.accepted_file (h : OnMedium vol content D k) (hm : Mounted content s)
    (hvol : VolumeAt vol D k roots files) {num : UInt32}
    (hacc : LoadAccepted (some (diskOf content)) num s) :
    ∃ i f start, files[i]? = some f ∧ FileAt vol D k roots (i + 1) start f.1 f.2 ∧
      Decoded (fileFields (i + 1) f.1 f.2 ((vol.directOf start (blocksOf f.2)).take 10)
        (vol.indirectOf start (blocksOf f.2))) (onDiskInode (some (diskOf content)) s.gSb num) := by
  have hinodes : (Superblock.totalInodes s.gSb).toNat = 4096 := by
    have hfield : Superblock.totalInodes s.gSb =
        Superblock.totalInodes (volumeBlock content 16) := hm.field (by omega)
    rw [hfield, h.totalInodes]
    rfl
  have hnum := UInt32.lt_iff_toNat_lt.mp hacc.inode.inTable
  rw [hinodes] at hnum
  have hslot : num = UInt32.ofNat num.toNat := UInt32.ofNat_toNat.symm
  rcases Nat.eq_zero_or_pos num.toNat with hzero | hpos
  · have hfile := hacc.file
    have hroot : num = owfsRootInode := UInt32.toNat_inj.mp hzero
    rw [hroot, (h.root hm hvol).2.type] at hfile
    exact absurd (show UInt8.ofNat entryCatalog &&& owfsEntryFile = 0 by decide) hfile
  rcases Nat.lt_or_ge files.length num.toNat with hspare | hstored
  · have hused := hacc.inode.used
    rw [hslot, Inode.entryType, h.inodeByte hm hnum (by omega),
      hvol.stored.spare _ hspare hnum] at hused
    exact absurd rfl hused
  · have hf := List.getElem?_eq_getElem (show num.toNat - 1 < files.length by omega)
    obtain ⟨start, hfile⟩ := hvol.stored.file _ _ hf
    have hback : num.toNat - 1 + 1 = num.toNat := by omega
    have hino := (h.inode hm (by omega) hfile.inode (show UInt8.ofNat entryFile ≠ 0 by decide)).2
    rw [hback, ← hslot] at hino
    rw [hback] at hfile
    exact ⟨_, _, start, hf, hback.symm ▸ hfile, hback.symm ▸ hino⟩

variable {root : Bytes} (hroot : Decoded (rootFields roots) root)
include hroot

theorem rootMap_direct {j : Nat} (hj : j < roots.length) (hten : j < 10) :
    mapBlock (some (diskOf content)) root j = UInt32.ofNat roots[j] := by
  rw [mapBlock, mapEntry_direct hten, Option.getD_some, ← UInt32.toNat_inj,
    hroot.direct j hj hten, UInt32.toNat_ofNat']
  rfl

theorem OnMedium.rootMapped (h : OnMedium vol content D k) (hvol : VolumeAt vol D k roots files)
    (hn : n ≤ roots.length) (hten : n ≤ 10) : Mapped (some (diskOf content)) root n := by
  have hcap : mapCapacity = 1034 := rfl
  have haddr := h.addr
  have hstart := vol.dataRegionStart_eq
  have hleft := hvol.fresh.left
  obtain ⟨hregion, -, -⟩ := vol.geometry h.total
  refine ⟨by omega, ?_, by omega⟩
  intro j hj hzero
  have hin := hvol.catalog.inside roots[j] (List.getElem_mem _)
  rw [rootMap_direct hroot (by omega) (by omega), ← UInt32.toNat_inj, UInt32.toNat_ofNat',
    UInt32.toNat_zero] at hzero
  omega

theorem OnMedium.rootSlot (h : OnMedium vol content D k) (hvol : VolumeAt vol D k roots files)
    (hnames : ∀ f ∈ files, f.1.length ≤ 178) {j e : Nat} (hj : j < roots.length) (hten : j < 10)
    (he : e < 16) :
    (∃ f, files[16 * j + e]? = some f ∧ ShowsFile (diskEntry (some (diskOf content))
        (mapBlock (some (diskOf content)) root j) e) (16 * j + e) f) ∨
      (files[16 * j + e]? = none ∧ validEntry (diskEntry (some (diskOf content))
        (mapBlock (some (diskOf content)) root j) e) = false) := by
  have hin := hvol.catalog.inside roots[j] (List.getElem_mem _)
  have hleft := hvol.fresh.left
  obtain ⟨hregion, -, -⟩ := vol.geometry h.total
  rw [rootMap_direct hroot hj hten]
  exact h.slot hvol.listed hnames (List.getElem?_eq_getElem hj) (by omega) he

theorem OnMedium.rootListed (h : OnMedium vol content D k) (hvol : VolumeAt vol D k roots files)
    (hnames : ∀ f ∈ files, f.1.length ≤ 178) (hn : n ≤ roots.length) (hten : n ≤ 10) :
    listedEntries (some (diskOf content)) root n = (entriesOf files).take (16 * n) := by
  have hblock : ∀ j ∈ List.range n, catalogEntries (some (diskOf content))
      (mapBlock (some (diskOf content)) root j) =
      (List.range 16).filterMap fun e => (entriesOf files)[16 * j + e]? := by
    intro j hj
    rw [List.mem_range] at hj
    rw [catalogEntries_eq]
    apply List.filterMap_congr
    intro e he
    rw [entriesOf, List.getElem?_mapIdx]
    rcases h.rootSlot hroot hvol hnames (show j < roots.length by omega) (by omega)
      (List.mem_range.mp he) with ⟨f, hf, hshows⟩ | ⟨hnone, hfree⟩
    · rw [hf, if_pos hshows.valid, hshows.entry, Option.map_some]
    · rw [hnone, hfree, Option.map_none]
      rfl
  have hrows := flatMap_range_sixteen (entriesOf files) n
  generalize List.range 16 = slots at hblock hrows
  rw [listedEntries, ← hrows]
  exact List.flatMap_congr hblock

theorem OnMedium.rootNames (h : OnMedium vol content D k) (hvol : VolumeAt vol D k roots files)
    (hnames : ∀ f ∈ files, f.1.length ≤ 178) (hn : n ≤ roots.length) (hten : n ≤ 10) :
    NamesInside (some (diskOf content)) root n := by
  intro j hj hvalid
  rcases h.rootSlot hroot hvol hnames (show j < roots.length by omega) (by omega)
    (show 15 < 16 by omega) with ⟨f, hf, hshows⟩ | ⟨-, hfree⟩
  · have hname := hnames f (List.mem_of_getElem? hf)
    have hlen := hshows.nameLength
    rw [entrySpan]
    generalize diskEntry (some (diskOf content)) (mapBlock (some (diskOf content)) root j) 15 = ce
      at hlen
    have hspan := nameSpan_le (CatalogEntry.name ce) (CatalogEntry.nameLength ce).toNat
      (mblNameMax - 1) 0
    rw [owfsCatalogEntrySize]
    omega
  · rw [hfree] at hvalid
    cases hvalid

end Root

section Enumerates
variable {vol : Volume} {content : Bytes} {D : Store} {roots : List Nat} {files : FileList}
variable {s : Machine} {k m : Nat}

theorem entriesOf_length (files : FileList) : (entriesOf files).length = files.length :=
  List.length_mapIdx

theorem rootCount {root : Bytes} (hroot : Decoded (rootFields roots) root)
    (hfew : roots.length ≤ 56) : (Inode.blockCount root).toNat = roots.length := by
  rw [hroot.count]
  exact Nat.mod_eq_of_lt (show roots.length < 2 ^ 32 by omega)

theorem rootCatalog {root : Bytes} (hroot : Decoded (rootFields roots) root) :
    Inode.entryType root &&& owfsEntryCatalog ≠ 0 := by
  rw [hroot.type]
  show UInt8.ofNat entryCatalog &&& owfsEntryCatalog ≠ 0
  decide

variable (h : OnMedium vol content D k) (hm : Mounted content s)
variable (hvol : VolumeAt vol D k roots files) (hnames : ∀ f ∈ files, f.1.length ≤ 178)
include h hm hvol hnames

theorem OnMedium.enumerates_all (hcount : files.length ≤ 160) (hroom : files.length ≤ m) :
    (owfsEnumerate (some (diskOf content)) m s).entries = entriesOf files ∧
      (owfsEnumerate (some (diskOf content)) m s).result = files.length := by
  obtain ⟨hacc, hroot⟩ := h.root hm hvol
  have hlength := hvol.catalog.length
  rw [rootBlocksFor] at hlength
  have hlisted := h.rootListed hroot hvol hnames (Nat.le_refl roots.length) (by omega)
  rw [List.take_of_length_le (by rw [entriesOf_length]; omega)] at hlisted
  obtain ⟨hentries, hresult⟩ := owfsEnumerate_mapped (m := m) hacc (rootCatalog hroot)
    (rootCount hroot hvol.catalog.few)
    (h.rootMapped hroot hvol (Nat.le_refl _) (by omega))
    (h.rootNames hroot hvol hnames (Nat.le_refl _) (by omega))
    (by rw [hlisted, entriesOf_length]; exact hroom)
  rw [hlisted] at hentries
  refine ⟨hentries, ?_⟩
  rw [hresult, hentries, entriesOf_length]

theorem OnMedium.enumerates_first (hfull : m < files.length) (hm' : m < 160) :
    (owfsEnumerate (some (diskOf content)) m s).entries = (entriesOf files).take m ∧
      (owfsEnumerate (some (diskOf content)) m s).result = m := by
  obtain ⟨hacc, hroot⟩ := h.root hm hvol
  have hlength := hvol.catalog.length
  rw [rootBlocksFor] at hlength
  have hcount := rootCount hroot hvol.catalog.few
  have hafter := h.rootListed hroot hvol hnames (n := m / 16 + 1) (by omega) (by omega)
  obtain ⟨hentries, hresult⟩ := owfsEnumerate_full (m := m) (k := m / 16) hacc
    (rootCatalog hroot) (by omega)
    (h.rootMapped hroot hvol (by omega) (by omega))
    (h.rootNames hroot hvol hnames (by omega) (by omega))
    (by rw [hafter, List.length_take, entriesOf_length]; omega)
  rw [hafter, List.take_take, Nat.min_eq_left (by omega)] at hentries
  exact ⟨hentries, hresult⟩

/-- Past the direct slots of the root nothing is listed. -/
theorem OnMedium.enumerates_lost (hcount : 160 < files.length) (hroom : 160 ≤ m) :
    (owfsEnumerate (some (diskOf content)) m s).result = -3 := by
  obtain ⟨hacc, hroot⟩ := h.root hm hvol
  have hlength := hvol.catalog.length
  rw [rootBlocksFor] at hlength
  have hblocks := rootCount hroot hvol.catalog.few
  have hzero : Inode.indirectBlock
      (onDiskInode (some (diskOf content)) s.gSb owfsRootInode) = 0 := by
    rw [← UInt32.toNat_inj, hroot.indirect]
    rfl
  have hlisted := h.rootListed hroot hvol hnames (n := 10) (by omega) (by omega)
  apply owfsEnumerate_unmapped hacc (rootCatalog hroot) (by omega) hzero
    (h.rootMapped hroot hvol (by omega) (by omega))
    (h.rootNames hroot hvol hnames (by omega) (by omega))
  rw [hlisted, List.length_take]
  omega

end Enumerates

end ModularBootloader.Mkfs.Volume
