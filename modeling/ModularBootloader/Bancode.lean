import ModularBootloader.Lib.ByteStore

/-!
# BANcode registry and the boot-path diagnostic recorder

The provisional `MBL_*` placements, the registry blocks they fall in, the
Kernel Security Trap mapping, and the eight-slot ring of `bancode_boot.c`. The
ring head is an index of the ring by type and the record count carries its cap.
-/

namespace ModularBootloader

abbrev Bancode := UInt32

namespace Bancode

def bancodeStart : UInt32 := 0x0011A000
def bancodeEnd : UInt32 := 0x0011A7FF
def comcodeStart : UInt32 := 0x0011AC00
def comcodeEnd : UInt32 := 0x0011ADFF
def softcodeStart : UInt32 := 0x0011AE00
def softcodeEnd : UInt32 := 0x0011AEFF

def kernelTrapMin : UInt32 := 0x7FFFFFF0
def invalidCodepoint : UInt32 := 0x7FFFFFFF
def trapSlotCount : UInt32 := 15
def bancodesPerTrap : UInt32 := 128

def isBancode (code : Bancode) : Bool := bancodeStart ≤ code && code ≤ bancodeEnd

def toTrap (code : Bancode) : UInt32 :=
  if !isBancode code then invalidCodepoint
  else
    let slot := (code - bancodeStart) / bancodesPerTrap
    if trapSlotCount ≤ slot then invalidCodepoint else kernelTrapMin + slot

end Bancode

def mblComVolumeProbeOk : Bancode := 0x0011AC20
def mblComCatalogEnumOk : Bancode := 0x0011AC21
def mblComKernelLoadOk : Bancode := 0x0011AC22
def mblComBootHandoffOk : Bancode := 0x0011AC23

def mblWarnVolumeDirty : Bancode := 0x0011AA20
def mblWarnVolumeLocked : Bancode := 0x0011AA21
def mblWarnStateError : Bancode := 0x0011AA22
def mblWarnVersionMismatch : Bancode := 0x0011AA23

def mblSoftNoVolume : Bancode := 0x0011AEA0
def mblSoftIsUsfs : Bancode := 0x0011AEA1
def mblSoftNotAFile : Bancode := 0x0011AEA2
def mblSoftKernelTooSmall : Bancode := 0x0011AEA3
def mblSoftKernelTooLarge : Bancode := 0x0011AEA4
def mblSoftEncryptedVolume : Bancode := 0x0011AEA5
def mblSoftBadBlockMap : Bancode := 0x0011AEA6

def mblBanSbMagic : Bancode := 0x0011A2E0
def mblBanSbChecksum : Bancode := 0x0011A2E1
def mblBanInodeChecksum : Bancode := 0x0011A2E2
def mblBanCatalogChecksum : Bancode := 0x0011A2E3
def mblBanIoError : Bancode := 0x0011A2E4
def mblBanLoadFailed : Bancode := 0x0011A2E5

def mblCodeIsSuccess (code : Bancode) : Bool :=
  Bancode.comcodeStart ≤ code && code ≤ Bancode.comcodeEnd

def mblCodeIsSoft (code : Bancode) : Bool :=
  Bancode.softcodeStart ≤ code && code ≤ Bancode.softcodeEnd

structure MblDiag where
  fired : Bool
  slot : UInt32
  trapCp : UInt32
  code : Bancode
  deriving DecidableEq, Repr

def mblDiagMax : Nat := 8

/-- The static recorder state: `g_diag_ring`, `g_diag_head`, `g_diag_count`. -/
structure DiagRing where
  ring : Fin mblDiagMax → MblDiag
  head : Fin mblDiagMax
  count : Nat
  count_le : count ≤ mblDiagMax

namespace DiagRing

def initial : DiagRing where
  ring := fun _ => ⟨false, 0, 0, 0⟩
  head := ⟨0, by decide⟩
  count := 0
  count_le := Nat.zero_le _

def next (i : Fin mblDiagMax) : Fin mblDiagMax :=
  ⟨(i.val + 1) % mblDiagMax, Nat.mod_lt _ (by decide)⟩

def prev (i : Fin mblDiagMax) : Fin mblDiagMax :=
  ⟨(i.val + mblDiagMax - 1) % mblDiagMax, Nat.mod_lt _ (by decide)⟩

@[simp] theorem prev_next (i : Fin mblDiagMax) : prev (next i) = i := by
  have hi := i.isLt
  ext
  simp only [prev, next, mblDiagMax] at *
  omega

/-- The record written by `mbl_diag_raise`: the slot's `fired` flag is not stored to. -/
def record (old : MblDiag) (code : Bancode) : MblDiag :=
  let trap := Bancode.toTrap code
  { old with
    code := code
    trapCp := trap
    slot := if trap ≠ Bancode.invalidCodepoint then trap - Bancode.kernelTrapMin
      else Bancode.trapSlotCount }

def mblDiagRaise (code : Bancode) (g : DiagRing) : DiagRing where
  ring := Function.update g.ring g.head (record (g.ring g.head) code)
  head := next g.head
  count := if g.count < mblDiagMax then g.count + 1 else g.count
  count_le := by
    have hc := g.count_le
    split <;> omega

def mblDiagLast (g : DiagRing) : Option MblDiag :=
  if g.count = 0 then none else some (g.ring (prev g.head))

def mblDiagCount (g : DiagRing) : Int := g.count

theorem mblDiagRaise_count_ne (code : Bancode) (g : DiagRing) :
    (mblDiagRaise code g).count ≠ 0 := by
  intro h
  simp only [mblDiagRaise] at h
  split at h <;> simp only [mblDiagMax] at * <;> omega

theorem mblDiagLast_raise (code : Bancode) (g : DiagRing) :
    mblDiagLast (mblDiagRaise code g) = some (record (g.ring g.head) code) := by
  rw [mblDiagLast, if_neg (mblDiagRaise_count_ne code g)]
  simp [mblDiagRaise]

@[simp] theorem record_code (old : MblDiag) (code : Bancode) : (record old code).code = code := rfl

end DiagRing

end ModularBootloader
