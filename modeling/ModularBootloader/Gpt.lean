import ModularBootloader.Esp

/-!
# The partition table

`write_protective_mbr` and `write_gpt` of `build_image.py`: a table of 128 entries
with a checksum, written behind the primary header in sector 1 and before the
backup header in the last sector.
-/

namespace ModularBootloader.GptWriter
open Mkfs SliceAssign Esp

def owfsLba : Nat := espLba + espSectors
def owfsSizeMb : Nat := 32
def owfsSectors : Nat := (owfsSizeMb * 1024 * 1024) / sector
def owfsTotalBlocks : Nat := 2048

def diskSizeMb : Nat := ((owfsLba + owfsSectors) * sector + 0xFFFFF) / 0x100000
def diskSectors : Nat := diskSizeMb * 1024 * 1024 / sector
def diskBytes : Nat := diskSectors * sector

/-- `uuid.UUID`, by the fields its text form shows. -/
structure Uuid where
  timeLow : UInt32
  timeMid : UInt16
  timeHi : UInt16
  tail : Bytearray
  tail_length : tail.length = 8

def Uuid.bytesLe (u : Uuid) : Bytearray :=
  leBytes 4 u.timeLow.toNat ++ leBytes 2 u.timeMid.toNat ++ leBytes 2 u.timeHi.toNat ++ u.tail

def espTypeGuid : Uuid :=
  ⟨0xC12A7328, 0xF81F, 0x11D2, [0xBA, 0x4B, 0x00, 0xA0, 0xC9, 0x3E, 0xC9, 0x3B], rfl⟩
def owfsTypeGuid : Uuid :=
  ⟨0xE6D6D379, 0xF507, 0x44C2, [0xA2, 0x3C, 0x23, 0x8F, 0x2A, 0x3D, 0xF9, 0x28], rfl⟩
def espPartGuid : Uuid :=
  ⟨0x12345678, 0x1234, 0x1234, [0x12, 0x34, 0x12, 0x34, 0x56, 0x78, 0x9A, 0xBC], rfl⟩
def owfsPartGuid : Uuid :=
  ⟨0xABCDEF01, 0x2345, 0x6789, [0xAB, 0xCD, 0xEF, 0x01, 0x23, 0x45, 0x67, 0x89], rfl⟩

def utf16Units (c : Char) : List Nat :=
  if c.toNat < 0x10000 then [c.toNat]
  else [0xD800 + (c.toNat - 0x10000) / 0x400, 0xDC00 + (c.toNat - 0x10000) % 0x400]

def utf16Le (name : String) : Bytearray := (name.toList.flatMap utf16Units).flatMap (leBytes 2)

def crc32Step (crc : UInt32) : UInt32 :=
  if crc &&& 1 ≠ 0 then (crc >>> 1) ^^^ 0xEDB88320 else crc >>> 1

def crc32 (data : Bytearray) : UInt32 :=
  data.foldl (fun crc b => crc32Step^[8] (crc ^^^ b.toUInt32)) 0xFFFFFFFF ^^^ 0xFFFFFFFF

example : crc32 (ascii "123456789") = 0xCBF43926 := by decide +kernel

/-- A statement that fills a `bytearray` of its own. -/
inductive Statement
  /-- `buf[lo:hi] = value` -/
  | slice (lo hi : Nat) (value : Bytearray)
  /-- `struct.pack_into("<8s", buf, off, value)`, with the length of the value -/
  | text (off : Nat) (value : Bytearray)
  /-- `struct.pack_into("<I", buf, off, val)` -/
  | word (off val : Nat)
  /-- `struct.pack_into("<Q", buf, off, val)` -/
  | quad (off val : Nat)

def packQuad (buf : Bytearray) (off val : Nat) : Except PyError Bytearray :=
  if val < 2 ^ 64 then packInto buf off (leBytes 8 val) else .error .structError

def Statement.exec (buf : Bytearray) : Statement → Except PyError Bytearray
  | .slice lo hi value => .ok (sliceAssign buf lo hi value)
  | .text off value => packInto buf off value
  | .word off val => packWord buf off val
  | .quad off val => packQuad buf off val

def runAll (statements : List Statement) (buf : Bytearray) : Except PyError Bytearray :=
  statements.foldlM Statement.exec buf

def mbrStores : List Store := [
  .byte (446 + 0) 0x00,
  .byte (446 + 1) 0x00,
  .byte (446 + 2) 0x01,
  .byte (446 + 3) 0x00,
  .byte (446 + 4) 0xEE,
  .byte (446 + 5) 0xFF,
  .byte (446 + 6) 0xFF,
  .byte (446 + 7) 0xFF,
  .word (446 + 8) 1,
  .word (446 + 12) (if diskSectors ≤ 0xFFFFFFFF then diskSectors - 1 else 0xFFFFFFFF),
  .half 510 0xAA55]

def writeProtectiveMbr (image : Bytearray) : Except PyError Bytearray := execAll mbrStores image

def packEntry (idx : Nat) (typeGuid partGuid : Uuid) (firstLba lastLba : Nat) (name : String) :
    List Statement :=
  let eoff := idx * 128
  let nameUtf16 := (utf16Le name).take 72
  [.slice eoff (eoff + 16) typeGuid.bytesLe,
    .slice (eoff + 16) (eoff + 32) partGuid.bytesLe,
    .quad (eoff + 32) firstLba,
    .quad (eoff + 40) lastLba,
    .quad (eoff + 48) 0,
    .slice (eoff + 56) (eoff + 56 + nameUtf16.length) nameUtf16]

def entryStatements : List Statement :=
  packEntry 0 espTypeGuid espPartGuid espLba (espLba + espSectors - 1) "EFI System Partition" ++
    packEntry 1 owfsTypeGuid owfsPartGuid owfsLba (owfsLba + owfsSectors - 1) "MBL OWFS Data"

def backupEntriesLba : Nat := diskSectors - 33

def headerStatements (diskGuid : Uuid) (entriesCrc : UInt32) (myLba alternateLba entriesLba : Nat) :
    List Statement := [
  .text 0 (ascii "EFI PART"),
  .word 8 0x00010000,
  .word 12 92,
  .word 16 0,
  .word 20 0,
  .quad 24 myLba,
  .quad 32 alternateLba,
  .quad 40 espLba,
  .quad 48 (diskSectors - 34),
  .text 56 diskGuid.bytesLe,
  .quad 72 entriesLba,
  .word 80 128,
  .word 84 128,
  .word 88 entriesCrc.toNat]

def packHeader (diskGuid : Uuid) (entriesCrc : UInt32) (myLba alternateLba entriesLba : Nat) :
    Except PyError Bytearray := do
  let hdr ← runAll (headerStatements diskGuid entriesCrc myLba alternateLba entriesLba)
    (zeros sector)
  packWord hdr 16 (crc32 (hdr.take 92)).toNat

def priHdr (diskGuid : Uuid) (entriesCrc : UInt32) : Except PyError Bytearray :=
  packHeader diskGuid entriesCrc 1 (diskSectors - 1) 2

def bakHdr (diskGuid : Uuid) (entriesCrc : UInt32) : Except PyError Bytearray :=
  packHeader diskGuid entriesCrc (diskSectors - 1) 1 backupEntriesLba

def writeGpt (diskGuid : Uuid) (image : Bytearray) : Except PyError Bytearray := do
  let entries ← runAll entryStatements (zeros (128 * 128))
  let entriesCrc := crc32 entries
  let image := sliceAssign image (2 * sector) (2 * sector + entries.length) entries
  let image := sliceAssign image (backupEntriesLba * sector)
    (backupEntriesLba * sector + entries.length) entries
  let pri ← priHdr diskGuid entriesCrc
  let image := sliceAssign image (1 * sector) (2 * sector) pri
  let bak ← bakHdr diskGuid entriesCrc
  .ok (sliceAssign image ((diskSectors - 1) * sector) (diskSectors * sector) bak)

end ModularBootloader.GptWriter
