import ModularBootloader.RoundTrip

/-!
# A listing is exact

On a volume whose root catalog can be read, the listing returns the slots in use
in block and slot order, each once, up to the caller's capacity.
-/

namespace ModularBootloader
open ByteStore

def catalogSlots (io : Option BlockIo) (root : Bytes) (n : Nat) : List (Nat × Nat) :=
  (List.range n).flatMap fun k =>
    ((List.range owfsEntriesPerBlock).filter fun e =>
      validEntry (diskEntry io (mapBlock io root k) e)).map fun e => (k, e)

def slotEntry (io : Option BlockIo) (root : Bytes) (p : Nat × Nat) : Bytes :=
  diskEntry io (mapBlock io root p.1) p.2

structure CatalogReads (io : Option BlockIo) (root : Bytes) (n : Nat) : Prop where
  block : ∀ nth, ∀ k < n, readFails io nth (mapBlock io root k) = false
  indirect : 10 < n → ∀ nth, readFails io nth (Inode.indirectBlock root) = false

/-- An entry holds what its slot holds. The name is read where the block is staged;
one that ends in its block is the name on disk. -/
structure ListedAs (io : Option BlockIo) (ram root : Bytes) (p : Nat × Nat) (x : MblEntry) :
    Prop where
  inode : x.inode = CatalogEntry.inodeNumber (slotEntry io root p)
  type : x.type = CatalogEntry.entryType (slotEntry io root p)
  size : x.size = 0
  name : x.name = owfsNameToAscii
    (CatalogEntry.name (stagedEntry (staged io ram (mapBlock io root p.1)) p.2))
    (CatalogEntry.nameLength (slotEntry io root p))
  name_onDisk : entrySpan (slotEntry io root p) p.2 ≤ 4096 →
    x.name = owfsNameToAscii (CatalogEntry.name (slotEntry io root p))
      (CatalogEntry.nameLength (slotEntry io root p))

/-- The listing stores the first `max` slots in use, one entry each, and counts them. -/
structure ExactListing (io : Option BlockIo) (ram root : Bytes) (n : Nat) (max : Int)
    (r : Listing) : Prop where
  result : r.result = min max ((catalogSlots io root n).length : Int)
  stored : (r.entries.length : Int) = r.result
  entries : ∀ (i : Nat) (x : MblEntry), r.entries[i]? = some x →
    ∃ p, (catalogSlots io root n)[i]? = some p ∧ ListedAs io ram root p x

section Exact
variable {io : Option BlockIo} {ram root : Bytes} {n : Nat} {s : Machine}

theorem CatalogReads.fetchable (h : CatalogReads io root n) (hmap : Mapped io root n) :
    Fetchable io root n := by
  refine ⟨hmap.within, ?_⟩
  intro k hk nth ram hfails
  have hcap : k < mapCapacity := hk.trans_le hmap.within
  have hwide : mapCapacity = 1034 := rfl
  have hword := mapWord_mapBlock io root ram hcap
  rcases hfails with (⟨hfar, hind⟩ | hzero) | hread
  · have hten : 10 ≤ k := not_lt.mp (mt (direct_ofNat (by omega)).mpr hfar)
    rcases hind with hhole | hfailed
    · exact hmap.indirect (by omega) hhole
    · rw [h.indirect (by omega)] at hfailed
      cases hfailed
  · rw [hword] at hzero
    exact hmap.block k hk hzero
  · rw [hword, h.block _ k hk] at hread
    cases hread

theorem foundEntries_slots (io : Option BlockIo) (ram root : Bytes) (n : Nat) :
    foundEntries io ram root n = (catalogSlots io root n).map fun p =>
      listEntry (stagedEntry (staged io ram (mapBlock io root p.1)) p.2) := by
  rw [foundEntries, catalogSlots, List.map_flatMap]
  apply List.flatMap_congr
  intro k _
  have hfilter : (List.range owfsEntriesPerBlock).filter
        (fun e => validEntry (stagedEntry (staged io ram (mapBlock io root k)) e)) =
      (List.range owfsEntriesPerBlock).filter
        fun e => validEntry (diskEntry io (mapBlock io root k) e) := by
    apply List.filter_congr
    intro e he
    exact validEntry_staged (List.mem_range.mp he)
  rw [blockEntries, entriesIn, hfilter, List.map_map]
  rfl

theorem catalogSlots_lt {p : Nat × Nat} (h : p ∈ catalogSlots io root n) : p.2 < 16 := by
  simp only [catalogSlots, List.mem_flatMap, List.mem_map, List.mem_filter, List.mem_range] at h
  obtain ⟨k, -, e, ⟨he, -⟩, rfl⟩ := h
  exact he

theorem listedAs_staged {p : Nat × Nat} (hp : p.2 < 16) : ListedAs io ram root p
    (listEntry (stagedEntry (staged io ram (mapBlock io root p.1)) p.2)) := by
  have hsame : ∀ i < 256, stagedEntry (staged io ram (mapBlock io root p.1)) p.2 i =
      slotEntry io root p i := by
    intro i hi
    apply stagedEntry_staged
    rw [owfsCatalogEntrySize]
    omega
  have hlength : CatalogEntry.nameLength
      (stagedEntry (staged io ram (mapBlock io root p.1)) p.2) =
      CatalogEntry.nameLength (slotEntry io root p) := hsame 5 (by omega)
  constructor
  · exact load32_congr fun k hk => hsame _ (by omega)
  · exact hsame 4 (by omega)
  · rfl
  · rw [← hlength]
    rfl
  · intro hspan
    rw [listEntry_staged hp hspan]
    rfl

theorem owfsEnumerate_exact (hroot : InodeAccepted io owfsRootInode s)
    (hcat : Inode.entryType (onDiskInode io s.gSb owfsRootInode) &&& owfsEntryCatalog ≠ 0)
    (hcount : (Inode.blockCount (onDiskInode io s.gSb owfsRootInode)).toNat = n)
    (hmap : Mapped io (onDiskInode io s.gSb owfsRootInode) n)
    (hreads : CatalogReads io (onDiskInode io s.gSb owfsRootInode) n) {max : Int}
    (hmax : 0 ≤ max) :
    ExactListing io s.ram (onDiskInode io s.gSb owfsRootInode) n max (owfsEnumerate io max s) := by
  obtain ⟨m, rfl⟩ := Int.eq_ofNat_of_zero_le hmax
  obtain ⟨hentries, hresult⟩ := owfsEnumerate_found (m := m) hroot hcat (hreads.fetchable hmap)
    hcount.ge (.inl hcount.symm)
  rw [foundEntries_slots, ← List.map_take] at hentries
  constructor
  · rw [hresult, hentries, List.length_map, List.length_take]
    exact Nat.cast_min _ _
  · exact hresult.symm
  · intro i x hx
    rw [hentries, List.getElem?_map, Option.map_eq_some_iff] at hx
    obtain ⟨p, hp, rfl⟩ := hx
    have hslot := hp
    rw [List.getElem?_take] at hslot
    split at hslot
    · exact ⟨p, hslot, listedAs_staged (catalogSlots_lt (List.mem_of_getElem? hslot))⟩
    · cases hslot

theorem twentyFiles_exact : ∃ s,
    Mkfs.formatOwfs Mkfs.twentyDisk 21000 "MBL" Mkfs.twentyFiles true volumeBase = .ok s ∧
    ExactListing (Mkfs.diskWith s.image)
      (owfsProbe (Mkfs.diskWith s.image) 0 (.boot fun _ => 0)).2.ram
      (onDiskInode (Mkfs.diskWith s.image)
        (owfsProbe (Mkfs.diskWith s.image) 0 (.boot fun _ => 0)).2.gSb owfsRootInode)
      s.rootBlocks.length 32
      (owfsEnumerate (Mkfs.diskWith s.image) 32
        (owfsProbe (Mkfs.diskWith s.image) 0 (.boot fun _ => 0)).2) := by
  obtain ⟨s, hs⟩ := Mkfs.twentyDisk_formats
  have hshort : ∀ f ∈ Mkfs.twentyFiles, f.1.length ≤ 178 :=
    fun f hf => (Mkfs.twentyFiles_plain f hf).short.trans (by omega)
  obtain ⟨D, hmedium, hvol⟩ := Mkfs.formatOwfs_onMedium Mkfs.twentyDisk_blank (by decide) hshort hs
  obtain ⟨-, hmounted⟩ := owfsProbe_mounts 0 (.boot fun _ => 0) hmedium.accepted
  obtain ⟨hacc, hroot⟩ := hmedium.root hmounted hvol
  have hlength : s.rootBlocks.length = 2 := hvol.catalog.length
  have hmapped := hmedium.rootMapped hroot hvol (Nat.le_refl s.rootBlocks.length) (by omega)
  exact ⟨s, hs, owfsEnumerate_exact hacc (Mkfs.Volume.rootCatalog hroot)
    (Mkfs.Volume.rootCount hroot hvol.catalog.few) hmapped
    ⟨fun nth k _ => diskOf_reads _ nth _, fun _ nth => diskOf_reads _ nth _⟩ (by decide)⟩

end Exact

end ModularBootloader
