import ModularBootloader.Lib.ByteStore

/-!
# CRC32c over packed structures

The reflected Castagnoli step of `owfs.c`, one byte at a time, and the checksum
of a structure whose own four checksum bytes count as zero.
-/

namespace ModularBootloader
open ByteStore

def crcPoly : UInt32 := 0x82F63B78

def crcShift (crc : UInt32) : UInt32 :=
  if crc &&& 1 ≠ 0 then (crc >>> 1) ^^^ crcPoly else crc >>> 1

def crc32cByte (crc : UInt32) (b : UInt8) : UInt32 := crcShift^[8] (crc ^^^ b.toUInt32)

def maskedByte (data : Bytes) (ckOff : UInt32) (i : Nat) : UInt8 :=
  if ckOff.toNat ≤ i ∧ i < (ckOff + 4).toNat then 0 else data i

def crc32cStruct (data : Bytes) (size ckOff : UInt32) : UInt32 :=
  ~~~((List.range size.toNat).foldl
    (fun crc i => crc32cByte crc (maskedByte data ckOff i)) 0xFFFFFFFF)

theorem crc32cStruct_congr {data data' : Bytes} (size ckOff : UInt32)
    (h : ∀ i < size.toNat, ¬ (ckOff.toNat ≤ i ∧ i < (ckOff + 4).toNat) → data i = data' i) :
    crc32cStruct data size ckOff = crc32cStruct data' size ckOff := by
  refine congrArg (~~~·) (List.foldl_ext _ _ _ fun crc i hi => ?_)
  refine congrArg (crc32cByte crc) ?_
  unfold maskedByte
  split
  · rfl
  · next hm => exact h i (List.mem_range.mp hi) hm

end ModularBootloader
