import ModularBootloader.MkfsStructs
import ModularBootloader.Lib.SliceWrites

/-!
# The system partition

`write_fat32_esp` of `build_image.py` fills a few sectors field by field, copies
them into the image, and then writes the loader cluster by cluster while it links
the clusters in the allocation table.
-/

namespace ModularBootloader.Esp
open Mkfs SliceAssign

def sector : Nat := 512
def espLba : Nat := 128
def espSizeMb : Nat := 64
def espSectors : Nat := (espSizeMb * 1024 * 1024) / sector

def base : Nat := espLba * sector
def sectorsPerCluster : Nat := 1
def reservedSectors : Nat := 32
def numFats : Nat := 2
def rootCluster : Nat := 2
def fatSize : Nat := 1024
def clusterSize : Nat := sectorsPerCluster * sector
def dataStart : Nat := base + (reservedSectors + numFats * fatSize) * sector

def getClusterOffset (c : Nat) : Nat := dataStart + (c - 2) * clusterSize

/-- A statement that stores to a `bytearray`. -/
inductive Store
  /-- `buf[lo:hi] = value` -/
  | slice (lo hi : Nat) (value : Bytearray)
  /-- `buf[i] = val` -/
  | byte (i val : Nat)
  /-- `struct.pack_into("<H", buf, off, val)` -/
  | half (off val : Nat)
  /-- `struct.pack_into("<I", buf, off, val)` -/
  | word (off val : Nat)

def packHalf (buf : Bytearray) (off val : Nat) : Except PyError Bytearray :=
  if val < 2 ^ 16 then packInto buf off (leBytes 2 val) else .error .structError

def packWord (buf : Bytearray) (off val : Nat) : Except PyError Bytearray :=
  if val < 2 ^ 32 then packInto buf off (leBytes 4 val) else .error .structError

def Store.exec (buf : Bytearray) : Store → Except PyError Bytearray
  | .slice lo hi value => .ok (sliceAssign buf lo hi value)
  | .byte i val => setByte buf i val
  | .half off val => packHalf buf off val
  | .word off val => packWord buf off val

def execAll : List Store → Bytearray → Except PyError Bytearray
  | [], buf => .ok buf
  | s :: rest, buf => do
    let buf ← s.exec buf
    execAll rest buf

def zeros (n : Nat) : Bytearray := List.replicate n 0

def ascii (s : String) : Bytearray := s.toList.map fun c => UInt8.ofNat c.toNat

def bpbStores : List Store := [
  .slice 0 3 [0xEB, 0x58, 0x90],
  .slice 3 11 (ascii "MSWIN4.1"),
  .half 11 sector,
  .byte 13 sectorsPerCluster,
  .half 14 reservedSectors,
  .byte 16 numFats,
  .half 17 0,
  .half 19 0,
  .byte 21 0xF8,
  .half 22 0,
  .half 24 63,
  .half 26 255,
  .word 28 espLba,
  .word 32 espSectors,
  .word 36 fatSize,
  .half 40 0,
  .half 42 0,
  .word 44 rootCluster,
  .half 48 1,
  .half 50 6,
  .byte 64 0x80,
  .byte 65 0,
  .byte 66 0x29,
  .word 67 0x12345678,
  .slice 71 82 (ascii "MBL BOOT   "),
  .slice 82 90 (ascii "FAT32   "),
  .half 510 0xAA55]

def fsinfoStores : List Store := [
  .word 0 0x41615252,
  .word 484 0x61417272,
  .word 488 0xFFFFFFFF,
  .word 492 0xFFFFFFFF,
  .word 508 0xAA550000]

def fatStores : List Store := [
  .word 0 0x0FFFFFF8,
  .word 4 0x0FFFFFFF,
  .word 8 0x0FFFFFFF,
  .word 12 0x0FFFFFFF,
  .word 16 0x0FFFFFFF]

def rootStores : List Store := [
  .slice 0 11 (ascii "EFI        "),
  .byte 11 0x10,
  .half 20 0,
  .half 26 3,
  .word 28 0]

def efiDirStores : List Store := [
  .slice 0 11 (ascii ".          "),
  .byte 11 0x10,
  .half 20 0,
  .half 26 3,
  .slice 32 43 (ascii "..         "),
  .byte 43 0x10,
  .half 52 0,
  .half 58 0,
  .slice 64 75 (ascii "BOOT       "),
  .byte 75 0x10,
  .half 84 0,
  .half 90 4]

def bootDirStores (len : Nat) : List Store := [
  .slice 0 11 (ascii ".          "),
  .byte 11 0x10,
  .half 20 0,
  .half 26 4,
  .slice 32 43 (ascii "..         "),
  .byte 43 0x10,
  .half 52 0,
  .half 58 3,
  .slice 64 75 (ascii "BOOTX64 EFI"),
  .byte 75 0x20,
  .half 84 0,
  .half 90 5,
  .word 92 len]

structure Medium where
  image : Bytearray
  fat : Bytearray

def nextLink (cluster : Nat) (rest : Bytearray) : Nat :=
  if rest ≠ [] then cluster + 1 else 0x0FFFFFFF

/-- `while remaining:` -/
def writeClusters (cluster : Nat) (remaining : Bytearray) (m : Medium) : Except PyError Medium :=
  if remaining = [] then .ok m
  else
    let chunk := remaining.take clusterSize
    let rest := remaining.drop clusterSize
    let off := getClusterOffset cluster
    let image := sliceAssign m.image off (off + chunk.length) chunk
    match packWord m.fat (cluster * 4) (nextLink cluster rest) with
    | .error e => .error e
    | .ok fat => writeClusters (cluster + 1) rest ⟨image, fat⟩
termination_by remaining.length
decreasing_by
  rename_i hne
  have hpos := List.length_pos_of_ne_nil hne
  rw [List.length_drop]
  exact Nat.sub_lt hpos (by decide)

def writeFat32Esp (image efiData : Bytearray) : Except PyError Bytearray := do
  let bpb ← execAll bpbStores (zeros 512)
  let image := sliceAssign image base (base + 512) bpb
  let image := sliceAssign image (base + 6 * sector) (base + 7 * sector) bpb
  let fsinfo ← execAll fsinfoStores (zeros 512)
  let image := sliceAssign image (base + 1 * sector) (base + 2 * sector) fsinfo
  let image := sliceAssign image (base + 7 * sector) (base + 8 * sector) fsinfo
  let fat ← execAll fatStores (zeros (fatSize * sector))
  let root ← execAll rootStores (zeros clusterSize)
  let image := sliceAssign image (getClusterOffset 2) (getClusterOffset 2 + clusterSize) root
  let efiDir ← execAll efiDirStores (zeros clusterSize)
  let image := sliceAssign image (getClusterOffset 3) (getClusterOffset 3 + clusterSize) efiDir
  let bootDir ← execAll (bootDirStores efiData.length) (zeros clusterSize)
  let image := sliceAssign image (getClusterOffset 4) (getClusterOffset 4 + clusterSize) bootDir
  let m ← writeClusters 5 efiData ⟨image, fat⟩
  let fat1Off := base + reservedSectors * sector
  let fat2Off := fat1Off + fatSize * sector
  let image := sliceAssign m.image fat1Off (fat1Off + m.fat.length) m.fat
  .ok (sliceAssign image fat2Off (fat2Off + m.fat.length) m.fat)

end ModularBootloader.Esp
