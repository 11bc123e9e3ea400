import ModularBootloader.EspImage
import ModularBootloader.Lib.Fat32

/-!
# Reading the system partition back

A FAT32 reader that knows nothing of the function that wrote the partition finds
the loader under its path and reads it back.
-/

namespace ModularBootloader.Esp
open ByteStore Mkfs Fat32 SliceWrites

def efiPath : List (List UInt8) := [ascii "EFI        ", ascii "BOOT       ", ascii "BOOTX64 EFI"]

def geometry : Geometry := ⟨512, 1, 32, 2, 0, 131072, 1024, 2⟩

theorem mount_fields : mount (fields bpbStores) = some geometry := by decide

theorem lookup_root : lookup (fields rootStores) (ascii "EFI        ") 16 0 =
    some ⟨0x10, 3, 0⟩ := by decide

theorem lookup_efiDir : lookup (fields efiDirStores) (ascii "BOOT       ") 16 0 =
    some ⟨0x10, 4, 0⟩ := by decide

theorem bootDir_below (len : Nat) {a : Nat} (ha : a < 92) :
    fields (bootDirStores len) a = fields (bootDirStores 0) a := by
  have hword : ∀ v, (Store.word 92 v).write.at? a = none := fun _ => Write.at?_outside (.inl ha)
  have hlast : ∀ v, written ((bootDirStores v).map Store.write) a =
      written ((bootDirStores 0).dropLast.map Store.write) a := by
    intro v
    have hsplit : (bootDirStores v).map Store.write =
        (bootDirStores 0).dropLast.map Store.write ++ [(Store.word 92 v).write] := rfl
    rw [hsplit, written_append, written, written, hword]
    rfl
  rw [fields, fields, hlast len, hlast 0]

theorem bootDir_size {len : Nat} (hlen : len < 2 ^ 32) :
    (load32 (fields (bootDirStores len)) 92).toNat = len := by
  have hbytes : ∀ k < 4, fields (bootDirStores len) (92 + k) = byteOf len k := by
    intro k hk
    interval_cases k <;> rfl
  rw [load32_bytes hbytes, Nat.mod_eq_of_lt hlen]

theorem fileEntry_flags (c len : Nat) : (DirEntry.mk 0x20 c len).isLabel = false ∧
    (DirEntry.mk 0x20 c len).isDirectory = false := by
  have hlabel : decide ((0x20 : UInt8) &&& 0x08 ≠ 0) = false := by decide
  have hdirectory : decide ((0x20 : UInt8) &&& 0x10 ≠ 0) = false := by decide
  exact ⟨hlabel, hdirectory⟩

theorem lookup_bootDir {len : Nat} (hlen : len < 2 ^ 32) :
    lookup (fields (bootDirStores len)) (ascii "BOOTX64 EFI") 16 0 = some ⟨0x20, 5, len⟩ := by
  have hname : ∀ i ≤ 2, entryName (fields (bootDirStores len)) i =
      entryName (fields (bootDirStores 0)) i := by
    intro i hi
    apply List.map_congr_left
    intro k hk
    rw [List.mem_range] at hk
    exact bootDir_below len (by omega)
  have hfirst : ∀ i ≤ 2, fields (bootDirStores len) (32 * i) = fields (bootDirStores 0) (32 * i) :=
    fun i hi => bootDir_below len (by omega)
  have hhalf : ∀ off, off + 2 ≤ 92 →
      load16 (fields (bootDirStores len)) off = load16 (fields (bootDirStores 0)) off := by
    intro off hoff
    apply load16_congr
    intro k hk
    exact bootDir_below len (by omega)
  have hentry : entryAt (fields (bootDirStores len)) 2 = ⟨0x20, 5, len⟩ := by
    have hattr := bootDir_below len (show 75 < 92 by decide)
    have hconcrete : (fields (bootDirStores 0) 75, (load16 (fields (bootDirStores 0)) 84).toNat,
        (load16 (fields (bootDirStores 0)) 90).toNat) = (0x20, 0, 5) := by decide
    obtain ⟨hattr', hhigh, hlow⟩ : _ ∧ _ ∧ _ := by simpa only [Prod.mk.injEq] using hconcrete
    simp only [entryAt, Nat.reduceMul, Nat.reduceAdd, hattr, hhalf 84 (by decide),
      hhalf 90 (by decide), hattr', hhigh, hlow, bootDir_size hlen]
    rfl
  have hskip : lookup (fields (bootDirStores len)) (ascii "BOOTX64 EFI") (2 + 14) 0 =
      lookup (fields (bootDirStores len)) (ascii "BOOTX64 EFI") 14 (0 + 2) := by
    apply lookup_skip
    intro k hk
    rw [Nat.zero_add, hfirst k (by omega), hname k (by omega)]
    interval_cases k <;> decide
  rw [show (16 : Nat) = 2 + 14 by rfl, hskip, lookup_found, hentry]
  · rw [hfirst 2 (by decide)]
    decide
  · rw [hname 2 (by decide)]
    decide
  · rw [hentry]
    exact (fileEntry_flags 5 len).1

section Reader
variable {efiData fat : Bytearray} {vol : Bytes} {c n : Nat}

theorem EspHolds.mount (h : EspHolds efiData fat vol) : mount vol = some geometry :=
  (mount_congr h.boot).trans mount_fields

theorem geometry_clusters : geometry.clusterCount = 128992 ∧ geometry.clusterSize = 512 ∧
    geometry.clusterOffset 2 = 2080 * 512 ∧ geometry.fatOffset 0 = 32 * 512 := by decide

theorem EspHolds.fatEntry (h : EspHolds efiData fat vol) (hc : 4 * c + 4 ≤ fat.length) :
    fatEntry vol geometry c = (load32 (bytesOf fat) (4 * c)).toNat % 2 ^ 28 := by
  have hload : load32 vol (32 * 512 + 4 * c) = load32 (bytesOf fat) (4 * c) := by
    apply load32_congr
    intro k hk
    rw [Nat.add_assoc]
    exact h.fat1 _ (by omega)
  rw [Fat32.fatEntry, geometry_clusters.2.2.2, hload]

theorem fatStores_end {c : Nat} (hlo : 2 ≤ c) (hhi : c < 5) :
    (load32 (fields fatStores) (4 * c)).toNat = 0x0FFFFFFF := by
  interval_cases c <;> decide

theorem EspHolds.directory (h : EspHolds efiData fat vol) {start : Bytearray}
    (hstart : bytesOf start = fields fatStores) (hchain : ChainWritten 5 n start fat)
    (hfat : fat.length = 524288) (hlo : 2 ≤ c) (hhi : c < 5) : chain vol geometry c = some [c] := by
  have hload : load32 (bytesOf fat) (4 * c) = load32 (fields fatStores) (4 * c) := by
    apply load32_congr
    intro k hk
    rw [hchain.outside _ (by omega), hstart]
  have hlinked : Linked vol geometry c 1 := by
    refine ⟨?_, ?_, ?_, by omega⟩
    · intro i hi
      rw [Geometry.InData, geometry_clusters.1]
      omega
    · intro i hi
      omega
    · rw [Nat.add_sub_cancel, h.fatEntry (by omega), hload, fatStores_end hlo hhi]
      decide
  exact hlinked.chain hlo

theorem EspHolds.file_linked (h : EspHolds efiData fat vol) {start : Bytearray}
    (hchain : ChainWritten 5 n start fat) (hfat : fat.length = 524288) (hpos : 0 < n)
    (hn : n ≤ 128989) : Linked vol geometry 5 n := by
  refine ⟨?_, ?_, ?_, by omega⟩
  · intro i hi
    rw [Geometry.InData, geometry_clusters.1]
    omega
  · intro i hi
    rw [h.fatEntry (by omega), hchain.link i hi]
    exact Nat.mod_eq_of_lt (by omega)
  · rw [h.fatEntry (by omega), hchain.last hpos]
    decide

theorem openEntry_fields {stores : List Store} {name : List UInt8}
    (hchain : chain vol geometry c = some [c]) (hc : 2 ≤ c)
    (hdir : ∀ i < 512, vol ((2078 + c) * 512 + i) = fields stores i) :
    openEntry vol geometry c name = lookup (fields stores) name 16 0 := by
  have hoffset : geometry.clusterOffset c = (2078 + c) * 512 := by
    obtain ⟨k, rfl⟩ := Nat.exists_eq_add_of_le hc
    rw [clusterOffset_add (Nat.le_refl 2), geometry_clusters.2.2.1, geometry_clusters.2.1]
    omega
  have hsize := geometry_clusters.2.1
  have hopen : Fat32.openEntry vol geometry c name =
      lookup (fields stores) name ([c].length * geometry.clusterSize / 32) 0 := by
    apply openEntry_of_chain hchain
    intro a ha
    rw [List.length_singleton, hsize] at ha
    rw [← hdir a (by omega), ← hoffset]
    change chainBytes vol geometry (List.range' c 1) a = _
    apply chainBytes_range _ hc
    · rw [hsize]
      omega
    · rw [hsize]
      decide
  rw [hopen, hsize, List.length_singleton]

theorem walk_file {g : Geometry} {name : List UInt8} {e : DirEntry}
    (hopen : Fat32.openEntry vol g c name = some e) (he : e.isDirectory = false) :
    walk vol g c [name] = some e := by
  rw [walk, hopen]
  simp [he]

theorem walk_directory {g : Geometry} {name next : List UInt8} {rest : List (List UInt8)}
    {e : DirEntry} (hopen : Fat32.openEntry vol g c name = some e) (he : e.isDirectory = true) :
    walk vol g c (name :: next :: rest) = walk vol g e.cluster (next :: rest) := by
  rw [walk, hopen]
  · simp [he]
  · simp

theorem EspHolds.walk (h : EspHolds efiData fat vol) (hlen : efiData.length < 2 ^ 32)
    (hdir : ∀ c, 2 ≤ c → c < 5 → chain vol geometry c = some [c]) :
    walk vol geometry geometry.rootCluster efiPath = some ⟨0x20, 5, efiData.length⟩ := by
  have hroot : Fat32.openEntry vol geometry 2 (ascii "EFI        ") = some ⟨0x10, 3, 0⟩ :=
    (openEntry_fields (hdir 2 (by decide) (by decide)) (by decide) h.root).trans lookup_root
  have hefi : Fat32.openEntry vol geometry 3 (ascii "BOOT       ") = some ⟨0x10, 4, 0⟩ :=
    (openEntry_fields (hdir 3 (by decide) (by decide)) (by decide) h.efiDir).trans lookup_efiDir
  have hboot : Fat32.openEntry vol geometry 4 (ascii "BOOTX64 EFI") =
      some ⟨0x20, 5, efiData.length⟩ :=
    (openEntry_fields (hdir 4 (by decide) (by decide)) (by decide) h.bootDir).trans
      (lookup_bootDir hlen)
  have hfirst : Fat32.walk vol geometry 2 efiPath =
      Fat32.walk vol geometry 3 [ascii "BOOT       ", ascii "BOOTX64 EFI"] :=
    walk_directory hroot rfl
  have hsecond : Fat32.walk vol geometry 3 [ascii "BOOT       ", ascii "BOOTX64 EFI"] =
      Fat32.walk vol geometry 4 [ascii "BOOTX64 EFI"] :=
    walk_directory hefi rfl
  exact (hfirst.trans hsecond).trans (walk_file hboot (fileEntry_flags 5 efiData.length).2)

theorem EspHolds.readFile (h : EspHolds efiData fat vol) {start : Bytearray}
    (hstart : bytesOf start = fields fatStores)
    (hchain : ChainWritten 5 (clustersOf efiData.length) start fat) (hfat : fat.length = 524288)
    (hne : efiData ≠ []) (hmax : efiData.length ≤ maxEfiData) :
    readFile vol efiPath = some ⟨List.range' 5 (clustersOf efiData.length), efiData⟩ := by
  have hpos := List.length_pos_of_ne_nil hne
  have hmaxValue : maxEfiData = 66042368 := by decide
  obtain ⟨n, hn⟩ : ∃ n, clustersOf efiData.length = n + 1 :=
    ⟨(efiData.length - 1) / 512, by unfold clustersOf; omega⟩
  have hcover : efiData.length ≤ clustersOf efiData.length * 512 := by
    unfold clustersOf
    omega
  have hsize := geometry_clusters.2.1
  have hwalk := h.walk (by omega) fun c hlo hhi => h.directory hstart hchain hfat hlo hhi
  have hlinked := h.file_linked hchain hfat (by omega) (by unfold clustersOf; omega)
  have hfile : chain vol geometry 5 = some (List.range' 5 (clustersOf efiData.length)) := by
    rw [hn] at hlinked ⊢
    exact hlinked.chain (by decide)
  have hcontents : (List.range efiData.length).map
      (chainBytes vol geometry (List.range' 5 (clustersOf efiData.length))) = efiData := by
    apply List.ext_getElem
    · rw [List.length_map, List.length_range]
    · intro i hi hi'
      have hbyte : vol (geometry.clusterOffset 5 + i) = bytesOf efiData i := h.file i hi'
      rw [List.getElem_map, List.getElem_range, chainBytes_range (by rw [hsize]; decide) (by decide)
        (by rw [hsize]; omega), hbyte, bytesOf, List.getD_eq_getElem?_getD,
        List.getElem?_eq_getElem hi', Option.getD_some]
  have hfits : efiData.length ≤ (List.range' 5 (clustersOf efiData.length)).length *
      geometry.clusterSize := by
    rw [List.length_range', hsize]
    exact hcover
  rw [Fat32.readFile, h.mount]
  change (Fat32.walk vol geometry geometry.rootCluster efiPath).bind _ = _
  rw [hwalk]
  change (chain vol geometry 5).bind _ = _
  rw [hfile]
  change (if efiData.length ≤ _ then _ else none) = _
  rw [if_pos hfits, hcontents]

end Reader

/-- What a reader finds in the image the function returns, and what the function
leaves alone. -/
structure RoundTrip (image efiData image' : Bytearray) (g : Geometry) (file : File) : Prop where
  run : writeFat32Esp image efiData = .ok image'
  mounted : mount (volume image') = some g
  found : readFile (volume image') efiPath = some file
  contents : file.contents = efiData
  count : file.clusters.length = (efiData.length + 511) / 512
  distinct : file.clusters.Nodup
  inData : ∀ c ∈ file.clusters, g.InData c
  ends : ∃ c, file.clusters.getLast? = some c ∧ EndMark (fatEntry (volume image') g c)
  copies : g.numFats = 2 ∧ ∀ i < g.fatSize * g.bytesPerSector,
    volume image' (g.fatOffset 0 + i) = volume image' (g.fatOffset 1 + i)
  length : image'.length = image.length
  outside : ∀ a, a < base ∨ base + espSectors * sector ≤ a → image'[a]? = image[a]?

/-- The loader written to the partition is read back from it. -/
theorem writeFat32Esp_roundTrip {image efiData : Bytearray} (hne : efiData ≠ [])
    (hmax : efiData.length ≤ (128994 - 5) * 512)
    (himage : base + espSectors * sector ≤ image.length) :
    ∃ image' g file, RoundTrip image efiData image' g file := by
  obtain ⟨image', fat, hrun, hlength, houtside, hfat, ⟨start, hstart, hchain⟩, hholds⟩ :=
    writeFat32Esp_written hne hmax himage
  have hpos := List.length_pos_of_ne_nil hne
  have hclusters : clustersOf efiData.length = (efiData.length + 511) / 512 := rfl
  have hlinked := hholds.file_linked hchain hfat (by omega) (by omega)
  refine ⟨image', geometry, ⟨List.range' 5 (clustersOf efiData.length), efiData⟩, hrun,
    hholds.mount, hholds.readFile hstart hchain hfat hne hmax, rfl, ?_, ?_, ?_, ?_, ?_, hlength,
    houtside⟩
  · rw [List.length_range', hclusters]
  · exact List.nodup_range'
  · intro c hc
    obtain ⟨i, hi, rfl⟩ := List.mem_range'.mp hc
    rw [Nat.one_mul]
    exact hlinked.inData i hi
  · refine ⟨5 + clustersOf efiData.length - 1, ?_, hlinked.last⟩
    rw [List.getLast?_range', if_neg (by omega)]
  · refine ⟨rfl, ?_⟩
    intro i hi
    have hbytes : i < fat.length := by
      rw [hfat]
      exact hi
    exact (hholds.fat1 i hbytes).trans (hholds.fat2 i hbytes).symm

theorem manyClusters_roundTrip : ∃ image' g file,
    RoundTrip (List.replicate 67174400 0xE5) ([0x4D, 0x5A] ++ List.replicate 100000 0x90) image' g
      file := by
  have hlength : ([0x4D, 0x5A] ++ List.replicate 100000 0x90 : Bytearray).length = 100002 := by
    rw [List.length_append, List.length_replicate]
    rfl
  apply writeFat32Esp_roundTrip
  · exact List.cons_ne_nil _ _
  · rw [hlength]
    decide
  · rw [List.length_replicate]
    decide

end ModularBootloader.Esp
