import ModularBootloader.Lib.ByteStore

/-!
# Reading a FAT32 volume

A reader that knows a volume only by its bytes. The boot sector gives the
geometry, directories are scanned for 11-byte names, and the clusters of a file
or a directory are found by following the first allocation table from its start
cluster to an end mark.
-/

namespace Fat32
open ByteStore

structure Geometry where
  bytesPerSector : Nat
  sectorsPerCluster : Nat
  reservedSectors : Nat
  numFats : Nat
  rootEntries : Nat
  totalSectors : Nat
  fatSize : Nat
  rootCluster : Nat
  deriving DecidableEq, Repr

namespace Geometry

def rootDirSectors (g : Geometry) : Nat :=
  (g.rootEntries * 32 + (g.bytesPerSector - 1)) / g.bytesPerSector

def firstDataSector (g : Geometry) : Nat :=
  g.reservedSectors + g.numFats * g.fatSize + g.rootDirSectors

def clusterCount (g : Geometry) : Nat :=
  (g.totalSectors - g.firstDataSector) / g.sectorsPerCluster

def clusterSize (g : Geometry) : Nat := g.sectorsPerCluster * g.bytesPerSector

def clusterOffset (g : Geometry) (c : Nat) : Nat :=
  (g.firstDataSector + (c - 2) * g.sectorsPerCluster) * g.bytesPerSector

def InData (g : Geometry) (c : Nat) : Prop := 2 ≤ c ∧ c < g.clusterCount + 2

instance (g : Geometry) (c : Nat) : Decidable (g.InData c) :=
  inferInstanceAs (Decidable (2 ≤ c ∧ c < g.clusterCount + 2))

def fatOffset (g : Geometry) (k : Nat) : Nat :=
  (g.reservedSectors + k * g.fatSize) * g.bytesPerSector

end Geometry

def bootSector (vol : Bytes) : Geometry where
  bytesPerSector := (load16 vol 11).toNat
  sectorsPerCluster := (vol 13).toNat
  reservedSectors := (load16 vol 14).toNat
  numFats := (vol 16).toNat
  rootEntries := (load16 vol 17).toNat
  totalSectors :=
    if load16 vol 19 ≠ 0 then (load16 vol 19).toNat else (load32 vol 32).toNat
  fatSize := if load16 vol 22 ≠ 0 then (load16 vol 22).toNat else (load32 vol 36).toNat
  rootCluster := (load32 vol 44).toNat

def mount (vol : Bytes) : Option Geometry :=
  let g := bootSector vol
  if load16 vol 510 = 0xAA55 ∧ 65525 ≤ g.clusterCount then some g else none

def fatEntry (vol : Bytes) (g : Geometry) (c : Nat) : Nat :=
  (load32 vol (g.fatOffset 0 + 4 * c)).toNat % 2 ^ 28

def EndMark (entry : Nat) : Prop := 0x0FFFFFF8 ≤ entry

instance (entry : Nat) : Decidable (EndMark entry) :=
  inferInstanceAs (Decidable (0x0FFFFFF8 ≤ entry))

def follow (vol : Bytes) (g : Geometry) : Nat → Nat → Option (List Nat)
  | 0, _ => none
  | fuel + 1, c =>
    if g.InData c then
      if EndMark (fatEntry vol g c) then some [c]
      else (follow vol g fuel (fatEntry vol g c)).map (c :: ·)
    else none

/-- A chain longer than the data area runs in a circle. -/
def chain (vol : Bytes) (g : Geometry) (c : Nat) : Option (List Nat) :=
  follow vol g g.clusterCount c

def chainBytes (vol : Bytes) (g : Geometry) (clusters : List Nat) : Bytes := fun i =>
  vol (g.clusterOffset (clusters.getD (i / g.clusterSize) 0) + i % g.clusterSize)

structure DirEntry where
  attr : UInt8
  cluster : Nat
  size : Nat
  deriving DecidableEq, Repr

def DirEntry.isDirectory (e : DirEntry) : Bool := e.attr &&& 0x10 ≠ 0

def DirEntry.isLabel (e : DirEntry) : Bool := e.attr &&& 0x08 ≠ 0

def entryName (dir : Bytes) (i : Nat) : List UInt8 :=
  (List.range 11).map fun k => dir (32 * i + k)

def entryAt (dir : Bytes) (i : Nat) : DirEntry where
  attr := dir (32 * i + 11)
  cluster := (load16 dir (32 * i + 20)).toNat * 2 ^ 16 + (load16 dir (32 * i + 26)).toNat
  size := (load32 dir (32 * i + 28)).toNat

/-- The entries from `i` on, `n` of them at most; a zero byte ends the directory. -/
def lookup (dir : Bytes) (name : List UInt8) : Nat → Nat → Option DirEntry
  | 0, _ => none
  | n + 1, i =>
    if dir (32 * i) = 0 then none
    else if entryName dir i = name ∧ !(entryAt dir i).isLabel then some (entryAt dir i)
    else lookup dir name n (i + 1)

def openEntry (vol : Bytes) (g : Geometry) (cluster : Nat) (name : List UInt8) :
    Option DirEntry := do
  let clusters ← chain vol g cluster
  lookup (chainBytes vol g clusters) name (clusters.length * g.clusterSize / 32) 0

def walk (vol : Bytes) (g : Geometry) : Nat → List (List UInt8) → Option DirEntry
  | _, [] => none
  | cluster, [name] => do
    let e ← openEntry vol g cluster name
    if e.isDirectory then none else some e
  | cluster, name :: rest => do
    let e ← openEntry vol g cluster name
    if e.isDirectory then walk vol g e.cluster rest else none

structure File where
  clusters : List Nat
  contents : List UInt8

def readFile (vol : Bytes) (path : List (List UInt8)) : Option File := do
  let g ← mount vol
  let e ← walk vol g g.rootCluster path
  let clusters ← chain vol g e.cluster
  if e.size ≤ clusters.length * g.clusterSize then
    some ⟨clusters, (List.range e.size).map (chainBytes vol g clusters)⟩
  else none

section Rules
variable {vol dir : Bytes} {g : Geometry} {c n fuel i j : Nat} {name : List UInt8}

theorem mount_congr {vol' : Bytes} (h : ∀ a < 512, vol a = vol' a) : mount vol = mount vol' := by
  have hhalf : ∀ off, off + 2 ≤ 512 → load16 vol off = load16 vol' off := by
    intro off hoff
    apply load16_congr
    intro k hk
    exact h _ (by omega)
  have hword : ∀ off, off + 4 ≤ 512 → load32 vol off = load32 vol' off := by
    intro off hoff
    apply load32_congr
    intro k hk
    exact h _ (by omega)
  have hgeometry : bootSector vol = bootSector vol' := by
    simp only [bootSector, h 13 (by decide), h 16 (by decide), hhalf 11 (by decide),
      hhalf 14 (by decide), hhalf 17 (by decide), hhalf 19 (by decide), hhalf 22 (by decide),
      hword 32 (by decide), hword 36 (by decide), hword 44 (by decide)]
  simp only [mount, hgeometry, hhalf 510 (by decide)]

/-- Clusters that are linked one to the next, the last one with an end mark. -/
structure Linked (vol : Bytes) (g : Geometry) (c n : Nat) : Prop where
  inData : ∀ i < n, g.InData (c + i)
  link : ∀ i, i + 1 < n → fatEntry vol g (c + i) = c + i + 1
  last : EndMark (fatEntry vol g (c + n - 1))
  small : c + n ≤ 0x0FFFFFF8

theorem Linked.tail (h : Linked vol g c (n + 2)) : Linked vol g (c + 1) (n + 1) := by
  have hshift : ∀ i, c + 1 + i = c + (i + 1) := by
    intro i
    omega
  refine ⟨?_, ?_, ?_, ?_⟩
  · intro i hi
    rw [hshift]
    exact h.inData (i + 1) (by omega)
  · intro i hi
    rw [hshift, h.link (i + 1) (by omega)]
  · have hlast := h.last
    rwa [show c + 1 + (n + 1) - 1 = c + (n + 2) - 1 by omega]
  · have hsmall := h.small
    omega

theorem Linked.follow (h : Linked vol g c (n + 1)) (hfuel : n < fuel) :
    follow vol g fuel c = some (List.range' c (n + 1)) := by
  induction n generalizing c fuel with
  | zero =>
    obtain ⟨fuel, rfl⟩ : ∃ f, fuel = f + 1 := ⟨fuel - 1, by omega⟩
    have hdata : g.InData c := h.inData 0 Nat.one_pos
    have hlast : EndMark (fatEntry vol g c) := h.last
    rw [Fat32.follow, if_pos hdata, if_pos hlast]
    rfl
  | succ n ih =>
    obtain ⟨fuel, rfl⟩ : ∃ f, fuel = f + 1 := ⟨fuel - 1, by omega⟩
    have hdata : g.InData c := h.inData 0 (by omega)
    have hlink : fatEntry vol g c = c + 1 := h.link 0 (by omega)
    have hmore : ¬ EndMark (c + 1) := by
      have hsmall := h.small
      unfold EndMark
      omega
    rw [Fat32.follow, if_pos hdata, hlink, if_neg hmore, ih h.tail (by omega)]
    rfl

theorem Linked.chain (h : Linked vol g c (n + 1)) (hc : 2 ≤ c) :
    chain vol g c = some (List.range' c (n + 1)) := by
  have hdata := h.inData n (Nat.lt_succ_self n)
  apply h.follow
  unfold Geometry.InData at hdata
  omega

theorem clusterOffset_add (hc : 2 ≤ c) (k : Nat) :
    g.clusterOffset (c + k) = g.clusterOffset c + k * g.clusterSize := by
  unfold Geometry.clusterOffset Geometry.clusterSize
  rw [show c + k - 2 = c - 2 + k by omega]
  ring

theorem chainBytes_range (hsize : 0 < g.clusterSize) (hc : 2 ≤ c)
    (hi : i < n * g.clusterSize) :
    chainBytes vol g (List.range' c n) i = vol (g.clusterOffset c + i) := by
  have hindex : i / g.clusterSize < n := (Nat.div_lt_iff_lt_mul hsize).mpr hi
  have hcluster : (List.range' c n).getD (i / g.clusterSize) 0 = c + i / g.clusterSize := by
    rw [List.getD_eq_getElem?_getD, List.getElem?_range' hindex, Option.getD_some, Nat.one_mul]
  rw [chainBytes, hcluster, clusterOffset_add hc, Nat.add_assoc, Nat.div_add_mod']

theorem lookup_congr {dir' : Bytes} (h : ∀ a < 32 * (i + n), dir a = dir' a) :
    lookup dir name n i = lookup dir' name n i := by
  induction n generalizing i with
  | zero => rfl
  | succ n ih =>
    have hbyte : ∀ a, 32 * i ≤ a → a < 32 * i + 32 → dir a = dir' a := by
      intro a _ ha
      exact h a (by omega)
    have hfirst : dir (32 * i) = dir' (32 * i) := hbyte _ (by omega) (by omega)
    have hname : entryName dir i = entryName dir' i := by
      apply List.map_congr_left
      intro k hk
      rw [List.mem_range] at hk
      exact hbyte _ (by omega) (by omega)
    have hentry : entryAt dir i = entryAt dir' i := by
      have hattr : dir (32 * i + 11) = dir' (32 * i + 11) := hbyte _ (by omega) (by omega)
      have hhalf : ∀ off, off + 2 ≤ 32 →
          load16 dir (32 * i + off) = load16 dir' (32 * i + off) := by
        intro off hoff
        apply load16_congr
        intro k hk
        exact hbyte _ (by omega) (by omega)
      have hword : load32 dir (32 * i + 28) = load32 dir' (32 * i + 28) := by
        apply load32_congr
        intro k hk
        exact hbyte _ (by omega) (by omega)
      simp only [entryAt, hattr, hhalf 20 (by decide), hhalf 26 (by decide), hword]
    rw [lookup, lookup, hfirst, hname, hentry, ih fun a ha => h a (by omega)]

theorem lookup_skip (hbefore : ∀ k < j, dir (32 * (i + k)) ≠ 0 ∧ entryName dir (i + k) ≠ name) :
    lookup dir name (j + n) i = lookup dir name n (i + j) := by
  induction j generalizing i with
  | zero =>
    rw [Nat.zero_add, Nat.add_zero]
  | succ j ih =>
    obtain ⟨hused, hother⟩ := hbefore 0 (Nat.succ_pos j)
    rw [Nat.add_zero] at hused hother
    rw [Nat.succ_add, lookup, if_neg hused, if_neg (fun h => hother h.1), ih]
    · congr 1
      omega
    · intro k hk
      rw [show i + 1 + k = i + (k + 1) by omega]
      exact hbefore (k + 1) (by omega)

theorem lookup_found (hused : dir (32 * i) ≠ 0) (hname : entryName dir i = name)
    (hlabel : (entryAt dir i).isLabel = false) :
    lookup dir name (n + 1) i = some (entryAt dir i) := by
  rw [lookup, if_neg hused, if_pos ⟨hname, by rw [hlabel]; rfl⟩]

theorem openEntry_of_chain {dir : Bytes} {clusters : List Nat}
    (hchain : chain vol g c = some clusters)
    (hdir : ∀ a < clusters.length * g.clusterSize, chainBytes vol g clusters a = dir a) :
    openEntry vol g c name = lookup dir name (clusters.length * g.clusterSize / 32) 0 := by
  rw [openEntry, hchain]
  apply lookup_congr
  intro a ha
  exact hdir a (by omega)

end Rules

end Fat32
