import ModularBootloader.Crc32c
import ModularBootloader.Sutf8
import ModularBootloader.Bancode

/-!
# Memory map and OWFS on-disk layout

The fixed addresses of `mbl.h` and the packed superblock, inode and catalog
entry. A packed structure is its raw bytes; each field is the little-endian
load at the field's offset.
-/

namespace ModularBootloader
open ByteStore

def mblFsBuf : UInt32 := 0x00030000
def mblKernelAddr : UInt32 := 0x00200000
def mblKernelMax : UInt32 := 0x01000000
def mblBootconfig : UInt32 := 0x00000510
def mblMagicBootcfg : UInt32 := 0x324C424D

def owfsBlockSize : UInt32 := 0x1000
def owfsPartitionLba : UInt32 := 131200
def owfsSuperblockBlock : UInt32 := 16
def owfsInodeSize : UInt32 := 0x100
def owfsEntriesPerBlock : Nat := 16
def owfsCatalogEntrySize : Nat := 0x100
def owfsSuperblockCk : UInt32 := 0x84
def owfsStructCk : UInt32 := 0xFC
def owfsMagic : UInt32 := 0x4F574653
def usfsMagic : UInt32 := 0x55534653
def owfsVersionMajor : UInt16 := 1
def owfsVersionMinor : UInt16 := 2
def owfsRootInode : UInt32 := 0
def owfsEntryFile : UInt8 := 0x01
def owfsEntryCatalog : UInt8 := 0x02
def owfsEntryDeleted : UInt8 := 0x80
def owfsDirectBlocks : UInt32 := 10
def owfsSecEncrypted : UInt32 := 1
def owfsStateDirty : UInt32 := 0x0001
def owfsStateError : UInt32 := 0x0002
def owfsStateLocked : UInt32 := 0x0004

def mblMenuMax : Nat := 32
def mblNameMax : Nat := 128

def read32 (p : Bytes) : UInt32 := load32 p 0

namespace Superblock

def magic (sb : Bytes) : UInt32 := load32 sb 0x000
def versionMajor (sb : Bytes) : UInt16 := load16 sb 0x004
def versionMinor (sb : Bytes) : UInt16 := load16 sb 0x006
def blockSize (sb : Bytes) : UInt32 := load32 sb 0x008
def totalBlocks (sb : Bytes) : UInt32 := load32 sb 0x00C
def totalInodes (sb : Bytes) : UInt32 := load32 sb 0x014
def inodeTableStart (sb : Bytes) : UInt32 := load32 sb 0x024
def inodeTableBlocks (sb : Bytes) : UInt32 := load32 sb 0x028
def dataRegionStart (sb : Bytes) : UInt32 := load32 sb 0x02C
def stateFlags (sb : Bytes) : UInt32 := load32 sb 0x038
def checksum (sb : Bytes) : UInt32 := load32 sb 0x084
def securityFlags (sb : Bytes) : UInt32 := load32 sb 0x088

end Superblock

namespace Inode

def entryType (ino : Bytes) : UInt8 := ino 0x04
def sizeBytes (ino : Bytes) : UInt32 := load32 ino 0x0A
def blockCount (ino : Bytes) : UInt32 := load32 ino 0x0E
def directBlock (ino : Bytes) (idx : UInt32) : UInt32 := load32 ino (0x1E + 4 * idx.toNat)
def indirectBlock (ino : Bytes) : UInt32 := load32 ino 0x46
def checksum (ino : Bytes) : UInt32 := load32 ino 0xFC

end Inode

namespace CatalogEntry

def inodeNumber (ce : Bytes) : UInt32 := load32 ce 0x00
def entryType (ce : Bytes) : UInt8 := ce 0x04
def nameLength (ce : Bytes) : UInt8 := ce 0x05
def name (ce : Bytes) : Bytes := window ce 0x06
def checksum (ce : Bytes) : UInt32 := load32 ce 0xFC

end CatalogEntry

/-- Each round of the loop spends one place of `room`, the places of `out` left
before the terminator. -/
def nameLoop (name : Bytes) (len : Nat) : Nat → Nat → List UInt8
  | 0, _ => []
  | room + 1, i =>
    if i < len then
      let d := sutf8DecodeChar (window name i) (len - i)
      if d.1 = 0 then 0x3F :: nameLoop name len room (i + 1)
      else (if d.2 ≤ 0x7F then d.2.toUInt8 else 0x3F) :: nameLoop name len room (i + d.1)
    else []

theorem nameLoop_length (name : Bytes) (len room i : Nat) :
    (nameLoop name len room i).length ≤ room := by
  induction room generalizing i with
  | zero => exact Nat.le_refl 0
  | succ room ih =>
    rw [nameLoop]
    split
    · dsimp only
      split
      · exact Nat.succ_le_succ (ih _)
      · exact Nat.succ_le_succ (ih _)
    · exact Nat.zero_le _

/-- One past the last name byte the text rests on. -/
def nameSpan (name : Bytes) (len : Nat) : Nat → Nat → Nat
  | 0, _ => 0
  | room + 1, i =>
    if i < len then
      let d := sutf8DecodeChar (window name i) (len - i)
      Nat.max (i + tested (window name i) (len - i))
        (nameSpan name len room (i + if d.1 = 0 then 1 else d.1))
    else 0

theorem nameSpan_le (name : Bytes) (len room i : Nat) : nameSpan name len room i ≤ len := by
  induction room generalizing i with
  | zero => exact Nat.zero_le len
  | succ room ih =>
    rw [nameSpan]
    split
    · next hi =>
      have hlen := tested_le (window name i) (show len - i ≠ 0 by omega)
      exact Nat.max_le.mpr ⟨by omega, ih _⟩
    · exact Nat.zero_le len

theorem nameLoop_congr {name name' : Bytes} {len room i : Nat}
    (h : ∀ j < nameSpan name len room i, name j = name' j) :
    nameLoop name len room i = nameLoop name' len room i := by
  induction room generalizing i with
  | zero => rfl
  | succ room ih =>
    rw [nameLoop, nameLoop]
    by_cases hi : i < len
    · rw [nameSpan, if_pos hi] at h
      dsimp only at h
      have hdecode : sutf8DecodeChar (window name i) (len - i) =
          sutf8DecodeChar (window name' i) (len - i) := by
        refine sutf8DecodeChar_congr fun j hj => h (i + j) ?_
        exact Nat.lt_of_lt_of_le (Nat.add_lt_add_left hj i) (Nat.le_max_left _ _)
      have hrest := ih (i := i + if (sutf8DecodeChar (window name i) (len - i)).1 = 0 then 1
        else (sutf8DecodeChar (window name i) (len - i)).1) fun j hj =>
          h j (Nat.lt_of_lt_of_le hj (Nat.le_max_right _ _))
      rw [if_pos hi, if_pos hi, ← hdecode]
      dsimp only
      split_ifs at hrest ⊢
      · rw [hrest]
      · rw [hrest]
      · rw [hrest]
    · rw [if_neg hi, if_neg hi]

def owfsNameToAscii (name : Bytes) (len : UInt8) : List UInt8 :=
  nameLoop name len.toNat (mblNameMax - 1) 0

theorem owfsNameToAscii_length (name : Bytes) (len : UInt8) :
    (owfsNameToAscii name len).length < mblNameMax :=
  Nat.lt_of_le_of_lt (nameLoop_length _ _ _ _) (by decide)

/-- `mbl_entry_t`; the name is the text before the terminator of `name[128]`. -/
structure MblEntry where
  inode : UInt32
  type : UInt8
  name : List UInt8
  size : UInt32
  name_fits : name.length < mblNameMax
  deriving DecidableEq

end ModularBootloader
