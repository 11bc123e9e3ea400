import ModularBootloader.Disk

/-!
# The device the loader reads from

`init_block_io` takes the first fixed device with a medium, whatever its block
size. The driver then counts in sectors of 512 bytes and in 32-bit arithmetic,
while the device counts in its own blocks.
-/

namespace ModularBootloader
open ByteStore

structure BlockIoMedia where
  removableMedia : Bool
  mediaPresent : Bool
  blockSize : UInt32

/-- `EFI_BLOCK_IO_PROTOCOL`, with the bytes of its medium and the requests it
refuses. -/
structure BlockIoProtocol where
  media : Option BlockIoMedia
  content : Bytes
  fails : Nat → UInt64 → Bool

def fixedDevice (bio : BlockIoProtocol) : Option BlockIo :=
  match bio.media with
  | none => none
  | some media =>
    if media.removableMedia then none
    else if !media.mediaPresent then none
    else some ⟨media.blockSize, bio.content, bio.fails⟩

/-- `handles` is nothing if none are located; a handle without the protocol is
nothing in it. -/
def initBlockIo (handles : Option (List (Option BlockIoProtocol))) : Option BlockIo :=
  match handles with
  | none => none
  | some handles => handles.findSome? fun bio => bio.bind fixedDevice

def blockStart (block : UInt32) : Nat := owfsPartitionLba.toNat * 512 + 4096 * block.toNat

def ReadsBlock (dev : BlockIo) (block : UInt32) : Prop :=
  ∀ addr s t, diskReadBlock (some dev) block (.linear addr) s = (0, t) →
    ∀ i < 4096, t.ram (addr.toNat + i) = dev.content (blockStart block + i)

theorem blockLba_mod (block : UInt32) :
    (blockLba block).toNat = (owfsPartitionLba.toNat + 8 * block.toNat) % 2 ^ 32 := by
  have height : (8 : UInt32).toNat = 8 := rfl
  rw [blockLba, UInt32.toNat_add, UInt32.toNat_mul, height]
  omega

theorem cut_scaled {n m : Nat} (hpos : 0 < n) :
    n % 2 ^ 32 * 2 ^ m = 2 ^ 9 * n ↔ m = 9 ∧ n < 2 ^ 32 := by
  have hsplit := Nat.mod_add_div n (2 ^ 32)
  have hlt := Nat.mod_lt n (show 0 < 2 ^ 32 by decide)
  generalize n % 2 ^ 32 = r at *
  generalize n / 2 ^ 32 = q at *
  constructor
  · intro h
    rcases Nat.lt_trichotomy m 9 with hsmall | rfl | hlarge
    · have hpow : 2 ^ m ≤ 2 ^ 8 := Nat.pow_le_pow_right (by decide) (by omega)
      have hmul := Nat.mul_le_mul_left r hpow
      omega
    · exact ⟨rfl, by omega⟩
    · obtain ⟨e, rfl⟩ := Nat.exists_eq_add_of_lt hlarge
      have hsame : 2 ^ 32 * q = r * (2 ^ (e + 1) - 1) := by
        rw [Nat.add_assoc, pow_add] at h
        have hcut : r * 2 ^ (e + 1) = n := by
          apply Nat.eq_of_mul_eq_mul_left (show 0 < 2 ^ 9 by decide)
          rw [← h]
          exact Nat.mul_left_comm _ _ _
        rw [Nat.mul_sub_one, hcut]
        omega
      have hodd : Nat.Coprime (2 ^ 32) (2 ^ (e + 1) - 1) := by
        apply Nat.Coprime.pow_left
        rw [Nat.coprime_two_left, pow_succ]
        have hpow : 0 < 2 ^ e := Nat.two_pow_pos e
        exact ⟨2 ^ e - 1, by omega⟩
      have hdvd : 2 ^ 32 ∣ r := hodd.dvd_of_dvd_mul_right ⟨q, hsame.symm⟩
      obtain rfl := Nat.eq_zero_of_dvd_of_lt hdvd hlt
      omega
  · rintro ⟨rfl, hfits⟩
    omega

/-- The device looks for the block where it lies only if its blocks are sectors
and the sector number fits. -/
theorem blockLba_offset {size : Nat} (block : UInt32) (hsize : size ∣ 4096) :
    (blockLba block).toNat * size = blockStart block ↔
      size = 512 ∧ owfsPartitionLba.toNat + 8 * block.toNat < 2 ^ 32 := by
  have hpow : (4096 : Nat) = 2 ^ 12 := by decide
  rw [hpow, Nat.dvd_prime_pow Nat.prime_two] at hsize
  obtain ⟨m, -, rfl⟩ := hsize
  have hpos : 0 < owfsPartitionLba.toNat + 8 * block.toNat := by
    rw [owfsPartitionLba_toNat]
    omega
  have hstart : blockStart block = 2 ^ 9 * (owfsPartitionLba.toNat + 8 * block.toNat) := by
    rw [blockStart]
    omega
  have hsector : 2 ^ m = 512 ↔ m = 9 := by
    rw [show (512 : Nat) = 2 ^ 9 by decide]
    exact Nat.pow_right_inj (Nat.le_refl 2)
  rw [blockLba_mod, hstart, hsector]
  exact cut_scaled hpos

theorem diskReadBlock_ram {dev : BlockIo} {block addr : UInt32} {s t : Machine}
    (h : diskReadBlock (some dev) block (.linear addr) s = (0, t)) {i : Nat} (hi : i < 4096) :
    t.ram (addr.toNat + i) = dev.content ((blockLba block).toNat * dev.blockSize.toNat + i) := by
  rw [diskReadBlock_eq] at h
  split at h
  · cases h
  · obtain rfl := (Prod.mk.inj h).2
    exact blit_at hi

theorem diskReadBlock_delivers (dev : BlockIo) (hsize : dev.blockSize.toNat ∣ 4096)
    (hfails : ∀ nth lba, dev.fails nth lba = false) (block addr : UInt32) (s : Machine) :
    diskReadBlock (some dev) block (.linear addr) s =
      (0, (s.request block (.linear addr)).deliver (.linear addr) 4096
        (diskBlock (some dev) block)) := by
  rw [diskReadBlock_eq]
  apply if_neg
  simp [readFails, BlockIo.readBlocks, hfails, Nat.mod_eq_zero_of_dvd hsize]

def soleDisk (dev : BlockIo) : Option (List (Option BlockIoProtocol)) :=
  some [some ⟨some ⟨false, true, dev.blockSize⟩, dev.content, dev.fails⟩]

theorem initBlockIo_soleDisk (dev : BlockIo) : initBlockIo (soleDisk dev) = some dev := rfl

def oneByteDisk (blockSize : UInt32) (pos : Nat) : BlockIo :=
  ⟨blockSize, fun a => if a = pos then 1 else 0, fun _ _ => false⟩

theorem oneByteDisk_misread {blockSize block : UInt32} (hsize : blockSize.toNat ∣ 4096)
    (hoffset : (blockLba block).toNat * blockSize.toNat ≠ blockStart block) :
    ¬ ReadsBlock (oneByteDisk blockSize (blockStart block)) block := by
  intro h
  have hread := diskReadBlock_delivers (oneByteDisk blockSize (blockStart block)) hsize
    (fun _ _ => rfl) block 0 (Machine.boot fun _ => 0)
  have hright := h 0 _ _ hread 0 (by decide)
  have hbyte : ∀ a, (oneByteDisk blockSize (blockStart block)).content a =
      if a = blockStart block then 1 else 0 := fun _ => rfl
  have hunit : (oneByteDisk blockSize (blockStart block)).blockSize = blockSize := rfl
  rw [diskReadBlock_ram hread (by decide), hbyte, hbyte, hunit, Nat.add_zero, Nat.add_zero,
    if_neg hoffset, if_pos rfl] at hright
  exact absurd hright (by decide)

/-- Of the devices the loader may pick, those with blocks of 512 bytes are read
right as far as the sector numbers fit in 32 bits, and no other. -/
theorem diskReadBlock_reads_iff {blockSize : UInt32} (hsize : blockSize.toNat ∣ 4096)
    (block : UInt32) :
    (∀ handles dev, initBlockIo handles = some dev → dev.blockSize = blockSize →
      ReadsBlock dev block) ↔
    blockSize = 512 ∧ owfsPartitionLba.toNat + 8 * block.toNat < 2 ^ 32 := by
  have hword : blockSize = 512 ↔ blockSize.toNat = 512 := UInt32.toNat_inj.symm
  rw [hword, ← blockLba_offset block hsize]
  constructor
  · intro h
    by_contra hoffset
    exact oneByteDisk_misread hsize hoffset (h _ _ (initBlockIo_soleDisk _) rfl)
  · rintro hoffset handles dev - rfl addr s t ht i hi
    rw [diskReadBlock_ram ht hi, hoffset]

theorem sectorDisk_reads_iff :
    (∀ handles dev, initBlockIo handles = some dev → dev.blockSize = 512 → ReadsBlock dev 16) ↔
    (512 : UInt32) = 512 ∧ owfsPartitionLba.toNat + 8 * (16 : UInt32).toNat < 2 ^ 32 :=
  diskReadBlock_reads_iff (by decide) 16

theorem largeBlocks_misread : ∃ dev, initBlockIo (soleDisk dev) = some dev ∧
    dev.blockSize = 4096 ∧ ¬ ReadsBlock dev 0 := by
  refine ⟨oneByteDisk 4096 (blockStart 0), rfl, rfl, ?_⟩
  apply oneByteDisk_misread (by decide)
  rw [Ne, blockLba_offset 0 (by decide)]
  decide

end ModularBootloader
