import ModularBootloader.Esp

/-!
# What the system partition holds

The stores to a sector as assignments to slices of it, the clusters of the file
as one stretch of the image, and the regions the finished image consists of.
-/

namespace ModularBootloader.Esp
open ByteStore Mkfs SliceAssign SliceWrites

def Store.write : Store → Write UInt8
  | .slice lo _ value => ⟨lo, value⟩
  | .byte i val => ⟨i, [UInt8.ofNat val]⟩
  | .half off val => ⟨off, leBytes 2 val⟩
  | .word off val => ⟨off, leBytes 4 val⟩

def Store.Fits (n : Nat) : Store → Prop
  | .slice lo hi value => hi = lo + value.length ∧ hi ≤ n
  | .byte i val => val ≤ 255 ∧ i + 1 ≤ n
  | .half off val => val < 2 ^ 16 ∧ off + 2 ≤ n
  | .word off val => val < 2 ^ 32 ∧ off + 4 ≤ n

instance (n : Nat) (s : Store) : Decidable (s.Fits n) := by
  cases s <;> unfold Store.Fits <;> infer_instance

def fields (stores : List Store) : Bytes := fun a => (written (stores.map Store.write) a).getD 0

section Fields
variable {buf : Bytearray} {s : Store} {stores : List Store} {n : Nat}

theorem Store.stop_le (h : s.Fits n) : s.write.stop ≤ n := by
  cases s with
  | slice lo hi value => exact h.1 ▸ h.2
  | byte i val => exact h.2
  | half off val => exact h.2
  | word off val => exact h.2

theorem Store.exec_fits (h : s.Fits buf.length) : s.exec buf = .ok (s.write.apply buf) := by
  cases s with
  | slice lo hi value =>
    obtain ⟨rfl, -⟩ := h
    rfl
  | byte i val =>
    obtain ⟨hval, hi⟩ := h
    rw [exec, setByte, if_neg (by omega), if_pos (by omega)]
    rfl
  | half off val =>
    obtain ⟨hval, hoff⟩ := h
    rw [exec, packHalf, if_pos hval, packInto, if_pos (by rwa [leBytes_length])]
    rfl
  | word off val =>
    obtain ⟨hval, hoff⟩ := h
    rw [exec, packWord, if_pos hval, packInto, if_pos (by rwa [leBytes_length])]
    rfl

theorem execAll_fits (h : ∀ s ∈ stores, s.Fits buf.length) :
    execAll stores buf = .ok (applyAll buf (stores.map Store.write)) := by
  induction stores generalizing buf with
  | nil => rfl
  | cons s rest ih =>
    have hfirst := h s List.mem_cons_self
    rw [execAll, Store.exec_fits hfirst]
    apply ih
    rw [Write.apply_length (Store.stop_le hfirst)]
    intro s' hs'
    exact h s' (List.mem_cons_of_mem s hs')

structure Filled (stores : List Store) (n : Nat) (buf : Bytearray) : Prop where
  run : execAll stores (zeros n) = .ok buf
  length : buf.length = n
  bytes : bytesOf buf = fields stores

theorem execAll_zeros (h : ∀ s ∈ stores, s.Fits n) : ∃ buf, Filled stores n buf := by
  have hzeros : (zeros n).length = n := List.length_replicate
  have hfits : ∀ w ∈ stores.map Store.write, w.stop ≤ (zeros n).length := by
    rw [hzeros]
    intro w hw
    obtain ⟨s, hs, rfl⟩ := List.mem_map.mp hw
    exact Store.stop_le (h s hs)
  refine ⟨_, execAll_fits (by rwa [hzeros]), (applyAll_length hfits).trans hzeros, ?_⟩
  funext a
  rw [bytesOf, applyAll_getD hfits, fields]
  congr 1
  rw [zeros, List.getD_eq_getElem?_getD, List.getElem?_replicate]
  split_ifs <;> rfl

end Fields

theorem clusterSize_eq : clusterSize = 512 := rfl

def clustersOf (len : Nat) : Nat := (len + 511) / 512

/-- The table links the `n` clusters from `cluster` on and is otherwise as before. -/
structure ChainWritten (cluster n : Nat) (fat fat' : Bytearray) : Prop where
  length : fat'.length = fat.length
  link : ∀ i, i + 1 < n → (load32 (bytesOf fat') (4 * (cluster + i))).toNat = cluster + i + 1
  last : 0 < n → (load32 (bytesOf fat') (4 * (cluster + n - 1))).toNat = 0x0FFFFFFF
  outside : ∀ a, a < 4 * cluster ∨ 4 * (cluster + n) ≤ a → bytesOf fat' a = bytesOf fat a

section Clusters
variable {cluster n val : Nat} {data rest : Bytearray} {m : Medium} {fat fat' fat'' : Bytearray}

theorem packWord_patched (hval : val < 2 ^ 32) (hfits : cluster * 4 + 4 ≤ fat.length) :
    ∃ fat', packWord fat (cluster * 4) val = .ok fat' ∧
      Patched fat (4 * cluster) (leBytes 4 val) fat' := by
  rw [packWord, if_pos hval, Nat.mul_comm]
  have hroom : 4 * cluster + (leBytes 4 val).length ≤ fat.length := by
    rw [leBytes_length]
    omega
  obtain ⟨fat', hfat'⟩ := packInto_total hroom
  exact ⟨fat', hfat', packInto_ok hfat'⟩

theorem ChainWritten.one (h : Patched fat (4 * cluster) (leBytes 4 0x0FFFFFFF) fat') :
    ChainWritten cluster 1 fat fat' := by
  refine ⟨h.length, ?_, ?_, ?_⟩
  · intro i hi
    omega
  · intro _
    exact h.word_self
  · intro a ha
    apply h.outside
    rw [leBytes_length]
    omega

theorem ChainWritten.cons (h : Patched fat (4 * cluster) (leBytes 4 (cluster + 1)) fat')
    (hsmall : cluster + 1 < 2 ^ 32) (hn : 0 < n) (hrest : ChainWritten (cluster + 1) n fat' fat'') :
    ChainWritten cluster (n + 1) fat fat'' := by
  refine ⟨hrest.length.trans h.length, ?_, ?_, ?_⟩
  · intro i hi
    cases i with
    | zero =>
      have hkept : load32 (bytesOf fat'') (4 * (cluster + 0)) =
          load32 (bytesOf fat') (4 * cluster) := by
        apply load32_congr
        intro k hk
        exact hrest.outside _ (by omega)
      rw [hkept, h.word_self, Nat.mod_eq_of_lt hsmall, Nat.add_zero]
    | succ i =>
      have hlink := hrest.link i (by omega)
      rw [show cluster + (i + 1) = cluster + 1 + i by omega]
      exact hlink
  · intro _
    have hlast := hrest.last hn
    rwa [show cluster + 1 + n - 1 = cluster + (n + 1) - 1 by omega] at hlast
  · intro a ha
    rw [hrest.outside a (by omega), h.outside a (by rw [leBytes_length]; omega)]

theorem getClusterOffset_succ (hc : 2 ≤ cluster) :
    getClusterOffset (cluster + 1) = getClusterOffset cluster + 512 := by
  rw [getClusterOffset, getClusterOffset, clusterSize_eq]
  omega

theorem writeClusters_cons {chunk : Bytearray} (hchunk : (chunk ++ rest).take clusterSize = chunk)
    (hne : chunk ≠ []) (hrest : (chunk ++ rest).drop clusterSize = rest)
    (hpack : packWord m.fat (cluster * 4) (nextLink cluster rest) = .ok fat) :
    writeClusters cluster (chunk ++ rest) m = writeClusters (cluster + 1) rest
      ⟨(Write.mk (getClusterOffset cluster) chunk).apply m.image, fat⟩ := by
  rw [writeClusters, if_neg (by simp [hne])]
  simp only [hchunk, hrest, hpack]
  rfl

theorem writeClusters_ok (hne : data ≠ []) (hc : 2 ≤ cluster)
    (hfat : 4 * (cluster + clustersOf data.length) ≤ m.fat.length)
    (hsmall : cluster + clustersOf data.length < 2 ^ 32)
    (himage : getClusterOffset cluster + data.length ≤ m.image.length) :
    ∃ fat, writeClusters cluster data m =
        .ok ⟨(Write.mk (getClusterOffset cluster) data).apply m.image, fat⟩ ∧
      ChainWritten cluster (clustersOf data.length) m.fat fat := by
  induction hlen : data.length using Nat.strongRecOn generalizing cluster data m with
  | ind len ih =>
    subst hlen
    have hpos := List.length_pos_of_ne_nil hne
    have hclusters : clustersOf data.length = (data.length + 511) / 512 := rfl
    by_cases hlast : data.length ≤ 512
    · have htake : data.take clusterSize = data := List.take_of_length_le hlast
      have hdrop : data.drop clusterSize = [] := List.drop_of_length_le hlast
      have hone : clustersOf data.length = 1 := by omega
      obtain ⟨fat, hpack, hpatched⟩ := packWord_patched
        (show 0x0FFFFFFF < 2 ^ 32 by decide) (show cluster * 4 + 4 ≤ m.fat.length by omega)
      have hturn : writeClusters cluster (data ++ []) m = writeClusters (cluster + 1) []
          ⟨(Write.mk (getClusterOffset cluster) data).apply m.image, fat⟩ :=
        writeClusters_cons (by rwa [List.append_nil]) hne (by rwa [List.append_nil]) hpack
      rw [List.append_nil] at hturn
      refine ⟨fat, ?_, ?_⟩
      · rw [hturn, writeClusters, if_pos rfl]
      · rw [hone]
        exact ChainWritten.one hpatched
    · obtain ⟨chunk, rest, rfl, hchunk⟩ : ∃ chunk rest, data = chunk ++ rest ∧ chunk.length = 512 :=
        ⟨data.take 512, data.drop 512, (List.take_append_drop 512 data).symm, by
          rw [List.length_take]
          omega⟩
      have hlength : (chunk ++ rest).length = 512 + rest.length := by
        rw [List.length_append, hchunk]
      have hmore : 0 < rest.length := by omega
      have hrestne : rest ≠ [] := List.ne_nil_of_length_pos hmore
      have hrestClusters : clustersOf rest.length = (rest.length + 511) / 512 := rfl
      have hrest : clustersOf (chunk ++ rest).length = clustersOf rest.length + 1 := by omega
      have hnext : nextLink cluster rest = cluster + 1 := if_pos hrestne
      have hoff := getClusterOffset_succ hc
      obtain ⟨fat, hpack, hpatched⟩ := packWord_patched
        (show cluster + 1 < 2 ^ 32 by omega) (show cluster * 4 + 4 ≤ m.fat.length by omega)
      have hturn := writeClusters_cons (List.take_left' hchunk)
        (List.ne_nil_of_length_pos (by omega)) (List.drop_left' hchunk) (hnext ▸ hpack)
      have hwritten := Write.apply_length (l := m.image) (w := ⟨getClusterOffset cluster, chunk⟩)
        (show getClusterOffset cluster + chunk.length ≤ m.image.length by omega)
      have hfatLength := hpatched.length
      let next : Medium := ⟨(Write.mk (getClusterOffset cluster) chunk).apply m.image, fat⟩
      have hnextFat : 4 * (cluster + 1 + clustersOf rest.length) ≤ next.fat.length := by
        change _ ≤ fat.length
        omega
      have hnextImage : getClusterOffset (cluster + 1) + rest.length ≤ next.image.length := by
        change _ ≤ ((Write.mk (getClusterOffset cluster) chunk).apply m.image).length
        omega
      obtain ⟨fat', hrun, hchain⟩ := ih rest.length (by omega) hrestne (by omega) hnextFat
        (by omega) hnextImage rfl
      refine ⟨fat', ?_, ?_⟩
      · rw [hturn, hrun, hoff, ← hchunk, Write.apply_append (by omega)]
      · rw [hrest]
        exact ChainWritten.cons hpatched (by omega) (by omega) hchain

end Clusters

def sectors (bpb fsinfo root efiDir bootDir : Bytearray) : List (Write UInt8) := [
  ⟨base, bpb⟩,
  ⟨base + 6 * sector, bpb⟩,
  ⟨base + 1 * sector, fsinfo⟩,
  ⟨base + 7 * sector, fsinfo⟩,
  ⟨getClusterOffset 2, root⟩,
  ⟨getClusterOffset 3, efiDir⟩,
  ⟨getClusterOffset 4, bootDir⟩]

def tables (fat : Bytearray) : List (Write UInt8) := [
  ⟨base + reservedSectors * sector, fat⟩,
  ⟨base + reservedSectors * sector + fatSize * sector, fat⟩]

def regions (bpb fsinfo root efiDir bootDir efiData fat : Bytearray) : List (Write UInt8) :=
  sectors bpb fsinfo root efiDir bootDir ++ ⟨getClusterOffset 5, efiData⟩ :: tables fat

def volume (image : Bytearray) : Bytes := window (bytesOf image) base

def maxEfiData : Nat := (128994 - 5) * 512

section Finished
variable {bpb fsinfo root efiDir bootDir efiData fat image : Bytearray}

theorem offsets : base = 65536 ∧ sector = 512 ∧ reservedSectors = 32 ∧ fatSize = 1024 ∧
    clusterSize = 512 ∧ getClusterOffset 2 = 1130496 ∧ getClusterOffset 3 = 1131008 ∧
    getClusterOffset 4 = 1131520 ∧ getClusterOffset 5 = 1132032 := by decide

structure Lengths (bpb fsinfo root efiDir bootDir efiData fat : Bytearray) : Prop where
  bpb : bpb.length = 512
  fsinfo : fsinfo.length = 512
  root : root.length = 512
  efiDir : efiDir.length = 512
  bootDir : bootDir.length = 512
  efiData : efiData.length ≤ maxEfiData
  fat : fat.length = 524288

theorem regions_apart (h : Lengths bpb fsinfo root efiDir bootDir efiData fat) :
    (regions bpb fsinfo root efiDir bootDir efiData fat).Pairwise Apart := by
  obtain ⟨hbpb, hfsinfo, hroot, hefi, hboot, -, hfat⟩ := h
  obtain ⟨hbase, hsector, hreserved, hsize, -, h2, h3, h4, h5⟩ := offsets
  simp [regions, sectors, tables, Apart, Write.stop, hbpb, hfsinfo, hroot, hefi, hboot, hfat,
    hbase, hsector, hreserved, hsize, h2, h3, h4, h5]

theorem regions_inside (h : Lengths bpb fsinfo root efiDir bootDir efiData fat) :
    ∀ w ∈ regions bpb fsinfo root efiDir bootDir efiData fat,
      base ≤ w.off ∧ w.stop ≤ base + espSectors * sector := by
  obtain ⟨hbpb, hfsinfo, hroot, hefi, hboot, hdata, hfat⟩ := h
  obtain ⟨hbase, hsector, hreserved, hsize, -, h2, h3, h4, h5⟩ := offsets
  have hsectors : espSectors = 131072 := by decide
  have hmax : maxEfiData = 66042368 := by decide
  simp [regions, sectors, tables, Write.stop, hbpb, hfsinfo, hroot, hefi, hboot, hfat, hbase,
    hsector, hreserved, hsize, h2, h3, h4, h5, hsectors]
  omega

/-- What the partition holds when the function returns. -/
structure EspHolds (efiData fat : Bytearray) (vol : Bytes) : Prop where
  boot : ∀ i < 512, vol i = fields bpbStores i
  fat1 : ∀ i < fat.length, vol (32 * 512 + i) = bytesOf fat i
  fat2 : ∀ i < fat.length, vol ((32 + 1024) * 512 + i) = bytesOf fat i
  root : ∀ i < 512, vol (2080 * 512 + i) = fields rootStores i
  efiDir : ∀ i < 512, vol (2081 * 512 + i) = fields efiDirStores i
  bootDir : ∀ i < 512, vol (2082 * 512 + i) = fields (bootDirStores efiData.length) i
  file : ∀ i < efiData.length, vol (2083 * 512 + i) = bytesOf efiData i

theorem regions_volume (h : Lengths bpb fsinfo root efiDir bootDir efiData fat)
    (himage : base + espSectors * sector ≤ image.length) {w : Write UInt8}
    (hw : w ∈ regions bpb fsinfo root efiDir bootDir efiData fat) {k : Nat}
    (hoff : w.off = base + k) :
    ∀ i < w.value.length,
      volume (applyAll image (regions bpb fsinfo root efiDir bootDir efiData fat)) (k + i) =
        bytesOf w.value i := by
  intro i hi
  have hfits : ∀ w ∈ regions bpb fsinfo root efiDir bootDir efiData fat,
      w.stop ≤ image.length := fun w hw => (regions_inside h w hw).2.trans himage
  have hregion := applyAll_region (d := 0) (regions_apart h) hfits hw hi
  rw [hoff, Nat.add_assoc] at hregion
  exact hregion

end Finished

structure Buffers (len : Nat) (bpb fsinfo fat root efiDir bootDir : Bytearray) : Prop where
  bpb : Filled bpbStores 512 bpb
  fsinfo : Filled fsinfoStores 512 fsinfo
  fat : Filled fatStores (fatSize * sector) fat
  root : Filled rootStores clusterSize root
  efiDir : Filled efiDirStores clusterSize efiDir
  bootDir : Filled (bootDirStores len) clusterSize bootDir

section Run
variable {bpb fsinfo fat root efiDir bootDir efiData table image : Bytearray}

theorem buffers_filled {len : Nat} (hlen : len < 2 ^ 32) :
    ∃ bpb fsinfo fat root efiDir bootDir, Buffers len bpb fsinfo fat root efiDir bootDir := by
  obtain ⟨bpb, hbpb⟩ := execAll_zeros (show ∀ s ∈ bpbStores, s.Fits 512 by decide)
  obtain ⟨fsinfo, hfsinfo⟩ := execAll_zeros (show ∀ s ∈ fsinfoStores, s.Fits 512 by decide)
  obtain ⟨fat, hfat⟩ := execAll_zeros (show ∀ s ∈ fatStores, s.Fits (fatSize * sector) by decide)
  obtain ⟨root, hroot⟩ := execAll_zeros (show ∀ s ∈ rootStores, s.Fits clusterSize by decide)
  obtain ⟨efiDir, hefi⟩ := execAll_zeros (show ∀ s ∈ efiDirStores, s.Fits clusterSize by decide)
  obtain ⟨bootDir, hboot⟩ := execAll_zeros
    (show ∀ s ∈ bootDirStores len, s.Fits clusterSize by
      simp [bootDirStores, Store.Fits, clusterSize_eq, ascii]
      omega)
  exact ⟨bpb, fsinfo, fat, root, efiDir, bootDir, hbpb, hfsinfo, hfat, hroot, hefi, hboot⟩

theorem Buffers.lengths (h : Buffers efiData.length bpb fsinfo fat root efiDir bootDir)
    (hmax : efiData.length ≤ maxEfiData) (htable : table.length = fat.length) :
    Lengths bpb fsinfo root efiDir bootDir efiData table :=
  ⟨h.bpb.length, h.fsinfo.length, h.root.length, h.efiDir.length, h.bootDir.length, hmax,
    htable.trans h.fat.length⟩

theorem Buffers.holds (h : Buffers efiData.length bpb fsinfo fat root efiDir bootDir)
    (hmax : efiData.length ≤ maxEfiData) (htable : table.length = fat.length)
    (himage : base + espSectors * sector ≤ image.length) :
    EspHolds efiData table
      (volume (applyAll image (regions bpb fsinfo root efiDir bootDir efiData table))) := by
  have hregion : ∀ w ∈ regions bpb fsinfo root efiDir bootDir efiData table, ∀ k, w.off = base + k →
      ∀ i < w.value.length,
        volume (applyAll image (regions bpb fsinfo root efiDir bootDir efiData table)) (k + i) =
          bytesOf w.value i :=
    fun w hw k hoff => regions_volume (h.lengths hmax htable) himage hw hoff
  generalize volume (applyAll image (regions bpb fsinfo root efiDir bootDir efiData table)) = vol
    at hregion
  have hcluster : ∀ {c k : Nat} {stores : List Store} {buf : Bytearray},
      Filled stores clusterSize buf →
      Write.mk (getClusterOffset c) buf ∈ regions bpb fsinfo root efiDir bootDir efiData table →
      getClusterOffset c = base + k → ∀ i < 512, vol (k + i) = fields stores i := by
    intro c k stores buf hfilled hw hoff i hi
    rw [← hfilled.bytes]
    exact hregion _ hw k hoff i (by rwa [hfilled.length])
  refine ⟨?_, ?_, ?_, ?_, ?_, ?_, ?_⟩
  · intro i hi
    have hbyte := hregion ⟨base, bpb⟩ (by simp [regions, sectors]) 0 rfl i
      (by rwa [h.bpb.length])
    rwa [Nat.zero_add, h.bpb.bytes] at hbyte
  · exact hregion ⟨base + reservedSectors * sector, table⟩ (by simp [regions, tables])
      (32 * 512) rfl
  · exact hregion ⟨base + reservedSectors * sector + fatSize * sector, table⟩
      (by simp [regions, tables]) ((32 + 1024) * 512) rfl
  · exact hcluster (c := 2) h.root (by simp [regions, sectors]) rfl
  · exact hcluster (c := 3) h.efiDir (by simp [regions, sectors]) rfl
  · exact hcluster (c := 4) h.bootDir (by simp [regions, sectors]) rfl
  · exact hregion ⟨getClusterOffset 5, efiData⟩ (by simp [regions]) (2083 * 512) rfl

theorem sliceAssign_write {l v : Bytearray} {lo hi : Nat} (h : lo + v.length = hi) :
    sliceAssign l lo hi v = (Write.mk lo v).apply l := by
  subst h
  rfl

theorem ok_bind {α β : Type} (a : α) (f : α → Except PyError β) :
    (Except.ok a >>= f) = f a := rfl

theorem Buffers.writeFat32Esp (h : Buffers efiData.length bpb fsinfo fat root efiDir bootDir) :
    writeFat32Esp image efiData =
      (writeClusters 5 efiData ⟨applyAll image (sectors bpb fsinfo root efiDir bootDir), fat⟩).bind
        fun m => .ok (applyAll m.image (tables m.fat)) := by
  obtain ⟨hbpb, hfsinfo, hfat, hroot, hefi, hboot⟩ := h
  have hsector : ∀ l v : Bytearray, v.length = sector → ∀ k : Nat,
      sliceAssign l (base + k * sector) (base + (k + 1) * sector) v =
        (Write.mk (base + k * sector) v).apply l := by
    intro l v hv k
    apply sliceAssign_write
    rw [hv, Nat.succ_mul, Nat.add_assoc]
  have hcluster : ∀ l v : Bytearray, v.length = clusterSize → ∀ c,
      sliceAssign l (getClusterOffset c) (getClusterOffset c + clusterSize) v =
        (Write.mk (getClusterOffset c) v).apply l := by
    intro l v hv c
    apply sliceAssign_write
    rw [hv]
  have hfirst : ∀ l : Bytearray,
      sliceAssign l base (base + 512) bpb = (Write.mk base bpb).apply l := by
    intro l
    apply sliceAssign_write
    rw [hbpb.length]
  have htable : ∀ (l v : Bytearray) (off : Nat),
      sliceAssign l off (off + v.length) v = (Write.mk off v).apply l :=
    fun _ _ _ => sliceAssign_write rfl
  rw [Esp.writeFat32Esp, hbpb.run, hfsinfo.run, hfat.run, hroot.run, hefi.run, hboot.run]
  simp only [ok_bind, hfirst, hsector _ bpb hbpb.length 6, hsector _ fsinfo hfsinfo.length 1,
    hsector _ fsinfo hfsinfo.length 7, hcluster _ root hroot.length,
    hcluster _ efiDir hefi.length, hcluster _ bootDir hboot.length, htable]
  simp only [applyAll, sectors, tables, List.foldl_cons, List.foldl_nil]
  rfl

structure Written (image efiData image' fat : Bytearray) : Prop where
  run : writeFat32Esp image efiData = .ok image'
  length : image'.length = image.length
  outside : ∀ a, a < base ∨ base + espSectors * sector ≤ a → image'[a]? = image[a]?
  fatLength : fat.length = 524288
  chain : ∃ start, bytesOf start = fields fatStores ∧
    ChainWritten 5 (clustersOf efiData.length) start fat
  holds : EspHolds efiData fat (volume image')

theorem writeFat32Esp_written (hne : efiData ≠ []) (hmax : efiData.length ≤ maxEfiData)
    (himage : base + espSectors * sector ≤ image.length) :
    ∃ image' fat, Written image efiData image' fat := by
  have hmaxValue : maxEfiData = 66042368 := by decide
  obtain ⟨bpb, fsinfo, fat, root, efiDir, bootDir, hbuffers⟩ :=
    buffers_filled (show efiData.length < 2 ^ 32 by omega)
  obtain ⟨hbase, hsector, hreserved, hsize, hcluster, h2, h3, h4, h5⟩ := offsets
  have hsectors : espSectors = 131072 := by decide
  have hroom : 67174400 ≤ image.length := by
    rw [hbase, hsectors, hsector] at himage
    exact himage
  have hfatLength : fat.length = 524288 := hbuffers.fat.length
  have hclusters : clustersOf efiData.length ≤ 128989 := by
    unfold clustersOf
    omega
  have hfilled : (applyAll image (sectors bpb fsinfo root efiDir bootDir)).length =
      image.length := by
    apply applyAll_length
    intro w hw
    have hinside := regions_inside (hbuffers.lengths hmax rfl) w (List.mem_append_left _ hw)
    exact hinside.2.trans himage
  let m : Medium := ⟨applyAll image (sectors bpb fsinfo root efiDir bootDir), fat⟩
  have hroomFat : 4 * (5 + clustersOf efiData.length) ≤ m.fat.length := by
    change _ ≤ fat.length
    omega
  have hroomImage : getClusterOffset 5 + efiData.length ≤ m.image.length := by
    change _ ≤ (applyAll image (sectors bpb fsinfo root efiDir bootDir)).length
    omega
  obtain ⟨table, hloop, hchain⟩ := writeClusters_ok hne (show 2 ≤ 5 by decide) hroomFat
    (by omega) hroomImage
  have htable : table.length = fat.length := hchain.length
  have hrun : writeFat32Esp image efiData =
      .ok (applyAll image (regions bpb fsinfo root efiDir bootDir efiData table)) := by
    rw [hbuffers.writeFat32Esp, hloop, regions, applyAll_append, applyAll_cons]
    rfl
  have hinside := regions_inside (hbuffers.lengths hmax htable)
  have hfits : ∀ w ∈ regions bpb fsinfo root efiDir bootDir efiData table,
      w.stop ≤ image.length := fun w hw => (hinside w hw).2.trans himage
  refine ⟨_, table, hrun, applyAll_length hfits, ?_, htable.trans hfatLength,
    ⟨fat, hbuffers.fat.bytes, hchain⟩, hbuffers.holds hmax htable himage⟩
  intro a ha
  apply applyAll_outside hfits
  intro w hw
  have hw := hinside w hw
  omega

end Run

end ModularBootloader.Esp
