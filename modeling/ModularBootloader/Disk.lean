import ModularBootloader.Layout

/-!
# Driver state and block input

The boot services device answers one transfer request at a time: it may refuse
any request, and otherwise delivers the bytes of its medium counted in its own
block size. The machine holds flat RAM, the statics of the driver, and a trace
of the requests issued, the diagnostics raised and the RAM intervals stored to.
The statics are objects of the loaded image, which is assumed to lie below 4 GiB
and apart from the fixed RAM map: the driver cuts their addresses to 32 bits.
-/

namespace ModularBootloader
open ByteStore

structure BlockIo where
  blockSize : UInt32
  content : Bytes
  fails : Nat → UInt64 → Bool

/-- `ReadBlocks` for the `nth` request issued since boot. -/
def BlockIo.readBlocks (dev : BlockIo) (nth : Nat) (lba : UInt64) (bufferSize : Nat) :
    Option Bytes :=
  if bufferSize % dev.blockSize.toNat ≠ 0 || dev.fails nth lba then none
  else some (window dev.content (lba.toNat * dev.blockSize.toNat))

theorem BlockIo.readBlocks_data (dev : BlockIo) {nth n : Nat} {lba : UInt32} {data : Bytes}
    (h : dev.readBlocks nth lba.toUInt64 n = some data) :
    data = window dev.content (lba.toNat * dev.blockSize.toNat) := by
  unfold BlockIo.readBlocks at h
  split at h
  · cases h
  · simpa using h.symm

inductive Target
  | sb
  | blockBuf
  | linear (addr : UInt32)
  deriving DecidableEq, Repr

structure Request where
  block : UInt32
  target : Target
  deriving DecidableEq, Repr

structure Machine where
  ram : Bytes
  gSb : Bytes
  gBlockBuf : Bytes
  gDrive : UInt8
  diag : DiagRing
  /-- Newest first, as are the two traces below. -/
  requests : List Request
  raises : List Bancode
  stores : List (Nat × Nat)

namespace Machine

def boot (ram : Bytes) : Machine := ⟨ram, fun _ => 0, fun _ => 0, 0, DiagRing.initial, [], [], []⟩

def raise (code : Bancode) (s : Machine) : Machine :=
  { s with diag := DiagRing.mblDiagRaise code s.diag, raises := code :: s.raises }

def deliver (target : Target) (n : Nat) (data : Bytes) (s : Machine) : Machine :=
  match target with
  | .sb => { s with gSb := blit s.gSb 0 n data }
  | .blockBuf => { s with gBlockBuf := blit s.gBlockBuf 0 n data }
  | .linear addr =>
    { s with ram := blit s.ram addr.toNat n data, stores := (addr.toNat, n) :: s.stores }

def request (block : UInt32) (target : Target) (s : Machine) : Machine :=
  { s with requests := ⟨block, target⟩ :: s.requests }

def copyBytes (dst src : Nat) (n : UInt32) (s : Machine) : Machine :=
  { s with ram := copyUp s.ram dst src n.toNat, stores := (dst, n.toNat) :: s.stores }

/-- The code `MBL_PROPAGATE` returns. -/
def propagate (s : Machine) : Bancode :=
  match DiagRing.mblDiagLast s.diag with
  | some d => d.code
  | none => mblBanLoadFailed

@[simp] theorem raise_ram (c : Bancode) (s : Machine) : (s.raise c).ram = s.ram := rfl
@[simp] theorem raise_gSb (c : Bancode) (s : Machine) : (s.raise c).gSb = s.gSb := rfl
@[simp] theorem raise_requests (c : Bancode) (s : Machine) :
    (s.raise c).requests = s.requests := rfl
@[simp] theorem raise_raises (c : Bancode) (s : Machine) :
    (s.raise c).raises = c :: s.raises := rfl
@[simp] theorem raise_stores (c : Bancode) (s : Machine) : (s.raise c).stores = s.stores := rfl

@[simp] theorem request_ram (b : UInt32) (t : Target) (s : Machine) :
    (s.request b t).ram = s.ram := rfl
@[simp] theorem request_gSb (b : UInt32) (t : Target) (s : Machine) :
    (s.request b t).gSb = s.gSb := rfl
@[simp] theorem request_diag (b : UInt32) (t : Target) (s : Machine) :
    (s.request b t).diag = s.diag := rfl
@[simp] theorem request_requests (b : UInt32) (t : Target) (s : Machine) :
    (s.request b t).requests = ⟨b, t⟩ :: s.requests := rfl
@[simp] theorem request_raises (b : UInt32) (t : Target) (s : Machine) :
    (s.request b t).raises = s.raises := rfl
@[simp] theorem request_stores (b : UInt32) (t : Target) (s : Machine) :
    (s.request b t).stores = s.stores := rfl

@[simp] theorem deliver_diag (t : Target) (n : Nat) (d : Bytes) (s : Machine) :
    (s.deliver t n d).diag = s.diag := by cases t <;> rfl
@[simp] theorem deliver_requests (t : Target) (n : Nat) (d : Bytes) (s : Machine) :
    (s.deliver t n d).requests = s.requests := by cases t <;> rfl
@[simp] theorem deliver_raises (t : Target) (n : Nat) (d : Bytes) (s : Machine) :
    (s.deliver t n d).raises = s.raises := by cases t <;> rfl

@[simp] theorem propagate_raise (c : Bancode) (s : Machine) : (s.raise c).propagate = c := by
  simp [propagate, raise, DiagRing.mblDiagLast_raise]

end Machine

def diskReadSectors (io : Option BlockIo) (lba : UInt32) (target : Target) (count : UInt16)
    (nth : Nat) (s : Machine) : Int × Machine :=
  if count = 0 then (0, s)
  else
    match io with
    | none => (-1, s)
    | some dev =>
      match dev.readBlocks nth lba.toUInt64 (count.toNat * 512) with
      | none => (-1, s)
      | some data => (0, s.deliver target (count.toNat * 512) data)

def diskReadBlock (io : Option BlockIo) (block : UInt32) (target : Target) (s : Machine) :
    Int × Machine :=
  diskReadSectors io (owfsPartitionLba + block * 8) target 8 s.requests.length
    (s.request block target)

def blockLba (block : UInt32) : UInt32 := owfsPartitionLba + block * 8

@[simp] theorem owfsPartitionLba_toNat : owfsPartitionLba.toNat = 131200 := rfl

theorem blockLba_toNat {block : UInt32}
    (h : owfsPartitionLba.toNat + 8 * block.toNat < 2 ^ 32) :
    (blockLba block).toNat = owfsPartitionLba.toNat + 8 * block.toNat := by
  have height : (8 : UInt32).toNat = 8 := rfl
  rw [owfsPartitionLba_toNat] at h
  rw [blockLba, UInt32.toNat_add, UInt32.toNat_mul, height, owfsPartitionLba_toNat]
  omega

def readFails (io : Option BlockIo) (nth : Nat) (block : UInt32) : Bool :=
  match io with
  | none => true
  | some dev => (dev.readBlocks nth (blockLba block).toUInt64 4096).isNone

def diskBlock (io : Option BlockIo) (block : UInt32) : Bytes :=
  match io with
  | none => fun _ => 0
  | some dev => window dev.content ((blockLba block).toNat * dev.blockSize.toNat)

/-- Everything `disk_read_block` does: it fails and leaves memory alone, or it
fills the target with the block. -/
theorem diskReadBlock_eq (io : Option BlockIo) (block : UInt32) (target : Target) (s : Machine) :
    diskReadBlock io block target s =
      if readFails io s.requests.length block then (-1, s.request block target)
      else (0, (s.request block target).deliver target 4096 (diskBlock io block)) := by
  have hbytes : (8 : UInt16).toNat * 512 = 4096 := rfl
  have hlba : owfsPartitionLba + block * 8 = blockLba block := rfl
  have hcount : (8 : UInt16) ≠ 0 := by decide
  cases io with
  | none => rfl
  | some dev =>
    rw [diskReadBlock, diskReadSectors, if_neg hcount, hlba, hbytes, readFails]
    cases h : dev.readBlocks s.requests.length (blockLba block).toUInt64 4096 with
    | none => rfl
    | some data =>
      rw [diskBlock, ← dev.readBlocks_data h]
      rfl

end ModularBootloader
