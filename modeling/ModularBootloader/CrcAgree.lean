import ModularBootloader.MkfsStructs

/-!
# The two checksum implementations

`owfs_mkfs.py` computes its checksum on integers of any size: the register is
shifted, masked with a negated bit and complemented at the end by an exclusive
or. `owfs.c` works on 32-bit words. The integers never leave 32 bits, and both
read the four bytes of the checksum itself as zero.
-/

namespace ModularBootloader.Mkfs.Integers
open ByteStore SliceAssign RaisingLoop

def crcPoly : Int := 0x82F63B78

def crcStep (crc : Int) : Int := Int.xor (crc >>> 1) (Int.land crcPoly (-Int.land crc 1))

def crcByte (crc : Int) (b : UInt8) : Int := crcStep^[8] (Int.xor crc b.toNat)

def crc32c (data : Bytearray) (initial : Int) : Int := data.foldl crcByte initial

def clearChecksum (buf : Bytearray) (ckOff : Nat) : Except PyError Bytearray :=
  pass (fun i b => setByte b (ckOff + i) 0) 4 buf

def crc32cStruct (buf : Bytearray) (ckOff : Nat) : Except PyError Int := do
  let b ← clearChecksum buf ckOff
  .ok (Int.xor (crc32c b 0xFFFFFFFF) 0xFFFFFFFF)

theorem land_all (n : Nat) : Int.land n (-1) = n := by
  have hclear : Nat.ldiff n 0 = n := by
    apply Nat.eq_of_testBit_eq
    intro i
    rw [Nat.testBit_ldiff, Nat.zero_testBit, Bool.not_false, Bool.and_true]
  exact congrArg Int.ofNat hclear

theorem crcStep_cast (crc : UInt32) : crcStep crc.toNat = (Mkfs.crcStep crc).toNat := by
  have hshift : ((crc.toNat : Int) >>> 1) = (crc >>> 1).toNat := by
    rw [UInt32.toNat_shiftRight]
    rfl
  have hbit : Int.land crc.toNat 1 = (crc.toNat % 2 : Nat) :=
    congrArg Int.ofNat (Nat.and_two_pow_sub_one_eq_mod crc.toNat 1)
  have hodd : crc &&& 1 ≠ 0 ↔ crc.toNat % 2 = 1 := by
    have hand : (crc &&& 1).toNat = crc.toNat % 2 := by
      rw [UInt32.toNat_and]
      exact Nat.and_two_pow_sub_one_eq_mod crc.toNat 1
    rw [Ne, ← UInt32.toNat_inj, hand]
    exact Nat.mod_two_ne_zero
  rw [crcStep_eq, crcShift, crcStep, hshift, hbit]
  rcases Nat.mod_two_eq_zero_or_one crc.toNat with h | h
  · rw [if_neg (by rw [hodd, h]; decide), h]
    exact congrArg Int.ofNat (Nat.xor_zero _)
  · rw [if_pos (hodd.mpr h), h, UInt32.toNat_xor]
    exact congrArg (Int.xor (crc >>> 1).toNat) (land_all _)

theorem crcByte_cast (crc : UInt32) (b : UInt8) :
    crcByte crc.toNat b = (Mkfs.crcStep^[8] (crc ^^^ b.toUInt32)).toNat := by
  have hsteps : Function.Semiconj (fun x : UInt32 => (x.toNat : Int)) Mkfs.crcStep crcStep :=
    fun x => (crcStep_cast x).symm
  have hstart : Int.xor crc.toNat b.toNat = ((crc ^^^ b.toUInt32).toNat : Int) := by
    rw [UInt32.toNat_xor, UInt8.toNat_toUInt32]
    rfl
  rw [crcByte, hstart]
  exact ((hsteps.iterate_right 8) (crc ^^^ b.toUInt32)).symm

theorem crc32c_cast (data : Bytearray) (crc : UInt32) :
    crc32c data crc.toNat = (Mkfs.crc32c data crc).toNat := by
  induction data generalizing crc with
  | nil => rfl
  | cons b rest ih =>
    rw [crc32c, List.foldl_cons, crcByte_cast]
    exact ih _

theorem clearChecksum_eq {buf : Bytearray} {ckOff : Nat} (h : ckOff + 4 ≤ buf.length) :
    clearChecksum buf ckOff = .ok (sliceAssign buf ckOff (ckOff + 4) (List.replicate 4 0)) := by
  have hrounds : ∀ n, ckOff + n ≤ buf.length → pass (fun i b => setByte b (ckOff + i) 0) n buf =
      .ok (sliceAssign buf ckOff (ckOff + n) (List.replicate n 0)) := by
    intro n
    induction n with
    | zero =>
      intro _
      simp [RaisingLoop.pass, sliceAssign]
    | succ n ih =>
      intro hn
      have hlength := sliceAssign_length (v := List.replicate n (0 : UInt8))
        (Nat.le_add_right ckOff n) (show ckOff + n ≤ buf.length by omega)
      rw [List.length_replicate] at hlength
      rw [RaisingLoop.pass, ih (by omega)]
      change setByte _ (ckOff + n) 0 = _
      rw [setByte, if_neg (by decide), if_pos (by omega), sliceAssign_adjacent
        (by rw [List.length_replicate]) (by omega) (by omega), List.replicate_succ']
      rfl
  exact hrounds 4 h

theorem crc32cStruct_value {buf : Bytearray} {ckOff : Nat} (h : ckOff + 4 ≤ buf.length) :
    crc32cStruct buf ckOff = .ok ((Mkfs.crc32cStruct buf ckOff).toNat : Int) := by
  have hones : (0xFFFFFFFF : Int) = ((0xFFFFFFFF : UInt32).toNat : Int) := rfl
  rw [crc32cStruct, clearChecksum_eq h, hones]
  change Except.ok (Int.xor (crc32c _ _) _) = _
  rw [crc32c_cast, Mkfs.crc32cStruct, UInt32.toNat_xor]
  rfl

/-- Both programs compute the same checksum, on which its own four bytes have no
influence. -/
theorem crc32cStruct_agree {buf : Bytearray} {ckOff : Nat} (hck : ckOff + 4 ≤ buf.length)
    (hsize : buf.length < 2 ^ 32) :
    ∃ value : Int, crc32cStruct buf ckOff = .ok value ∧
      (ModularBootloader.crc32cStruct (bytesOf buf) (UInt32.ofNat buf.length)
        (UInt32.ofNat ckOff)).toNat = value ∧ 0 ≤ value ∧ value < 2 ^ 32 ∧
      ∀ other : Bytearray, other.length = buf.length →
        (∀ i, ¬ (ckOff ≤ i ∧ i < ckOff + 4) → other[i]? = buf[i]?) →
        crc32cStruct other ckOff = .ok value ∧
        (ModularBootloader.crc32cStruct (bytesOf other) (UInt32.ofNat buf.length)
          (UInt32.ofNat ckOff)).toNat = value := by
  have hlen : (UInt32.ofNat buf.length).toNat = buf.length := Nat.mod_eq_of_lt hsize
  have hoff : (UInt32.ofNat ckOff).toNat = ckOff := Nat.mod_eq_of_lt (by omega)
  have hend : (UInt32.ofNat ckOff + 4).toNat = ckOff + 4 := by
    have hfour : (4 : UInt32).toNat = 4 := rfl
    rw [UInt32.toNat_add, hoff, hfour]
    omega
  have hdriver : ∀ other : Bytearray, other.length = buf.length →
      Mkfs.crc32cStruct other ckOff = ModularBootloader.crc32cStruct (bytesOf other)
        (UInt32.ofNat buf.length) (UInt32.ofNat ckOff) := by
    intro other hlength
    have hsame : Mkfs.crc32cStruct other (UInt32.ofNat ckOff).toNat =
        ModularBootloader.crc32cStruct (bytesOf other) (UInt32.ofNat buf.length)
          (UInt32.ofNat ckOff) :=
      crc32cStruct_driver (hlength.trans hlen.symm) (by omega)
    rwa [hoff] at hsame
  have hbound := (Mkfs.crc32cStruct buf ckOff).toNat_lt
  refine ⟨_, crc32cStruct_value hck, ?_, by omega, by omega, ?_⟩
  · rw [hdriver buf rfl]
  intro other hlength hagree
  have hsame : ModularBootloader.crc32cStruct (bytesOf other) (UInt32.ofNat buf.length)
      (UInt32.ofNat ckOff) = ModularBootloader.crc32cStruct (bytesOf buf)
        (UInt32.ofNat buf.length) (UInt32.ofNat ckOff) := by
    apply crc32cStruct_congr
    intro i _ hi
    rw [hoff, hend] at hi
    rw [bytesOf, bytesOf, List.getD_eq_getElem?_getD, List.getD_eq_getElem?_getD, hagree i hi]
  rw [← hdriver other hlength, ← hdriver buf rfl] at hsame
  constructor
  · rw [crc32cStruct_value (by omega), hsame]
  · rw [← hdriver other hlength, hsame]

def staleChecksum : Bytearray :=
  [0x4F, 0x57, 0x46, 0x53, 0xDE, 0xAD, 0xBE, 0xEF, 0x02, 0x00, 0x00, 0x10, 0x4D, 0x42, 0x4C]

theorem staleChecksum_agree :
    ∃ value : Int, crc32cStruct staleChecksum 4 = .ok value ∧
      (ModularBootloader.crc32cStruct (bytesOf staleChecksum) (UInt32.ofNat 15)
        (UInt32.ofNat 4)).toNat = value ∧ 0 ≤ value ∧ value < 2 ^ 32 ∧
      ∀ other : Bytearray, other.length = 15 →
        (∀ i, ¬ (4 ≤ i ∧ i < 8) → other[i]? = staleChecksum[i]?) →
        crc32cStruct other 4 = .ok value ∧
        (ModularBootloader.crc32cStruct (bytesOf other) (UInt32.ofNat 15)
          (UInt32.ofNat 4)).toNat = value :=
  crc32cStruct_agree (by decide) (by decide)

end ModularBootloader.Mkfs.Integers
