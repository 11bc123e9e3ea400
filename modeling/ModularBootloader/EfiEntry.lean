import ModularBootloader.DiskImage
import ModularBootloader.InitGop
import ModularBootloader.InitBlockIo
import ModularBootloader.Kmain

/-!
# The entry point

`EfiMain` locates a graphics output, a disk and the function that is to leave
boot services, and runs `kmain` with them. On a disk that holds the built image
every run ends at the menu's word: in a reboot, a shutdown, or the kernel.
-/

namespace ModularBootloader
open ByteStore

/-- `EFI_LOADED_IMAGE_PROTOCOL`; what the compiler puts between its fields is
part of the words it is read as. -/
structure LoadedImage where
  revision : UInt32
  revisionPad : UInt32
  parentHandle : UInt64
  systemTable : UInt64
  deviceHandle : UInt64
  filePath : UInt64
  loadOptionsSize : UInt32
  loadOptionsPad : UInt32
  loadOptions : UInt64
  imageBase : UInt64
  imageSize : UInt64
  imageCodeType : UInt32
  imageDataType : UInt32
  unload : UInt64
  exitBootServices : UInt64

namespace LoadedImage

def pair (low high : UInt32) : UInt64 := low.toUInt64 ||| (high.toUInt64 <<< 32)

def words (img : LoadedImage) : List UInt64 := [
  pair img.revision img.revisionPad,
  img.parentHandle,
  img.systemTable,
  img.deviceHandle,
  img.filePath,
  pair img.loadOptionsSize img.loadOptionsPad,
  img.loadOptions,
  img.imageBase,
  img.imageSize,
  pair img.imageCodeType img.imageDataType,
  img.unload,
  img.exitBootServices]

end LoadedImage

/-- What the firmware offers: its handles, the image, the answers of its boot
services, and what a function answers by its address. -/
structure EfiSystem where
  graphics : Option (List (Option GopProtocol))
  disks : Option (List (Option BlockIoProtocol))
  loadedImage : Option LoadedImage
  firstMap : MapAnswer
  allocStatus : UInt64
  pages : UInt64
  secondMap : MapAnswer
  call : UInt64 → UInt64

namespace EfiSystem

def gExitBootServices (sys : EfiSystem) : UInt64 :=
  match sys.loadedImage with
  | none => 0
  | some img => img.words.getD 10 0

def firmware (sys : EfiSystem) : Firmware where
  firstMap := sys.firstMap
  allocStatus := sys.allocStatus
  pages := sys.pages
  secondMap := sys.secondMap
  exitStatus :=
    if sys.gExitBootServices = 0 then none else some (sys.call sys.gExitBootServices)

end EfiSystem

structure EfiRun where
  video : Option VideoSetup
  disk : Option BlockIo
  boot : BootRun

inductive EfiMain (sys : EfiSystem) (inp : MenuInput) (s : Machine) : EfiRun → Prop
  | intro {run : BootRun} (hkmain : Kmain (initBlockIo sys.disks) inp sys.firmware s run) :
    EfiMain sys inp s ⟨initGop sys.graphics, initBlockIo sys.disks, run⟩

def Firmware.Spares (fw : Firmware) (a : Nat) : Prop :=
  a < fw.pages.toNat ∨ fw.pages.toNat + fw.mapRoom.toNat ≤ a

section Memory
variable {fw : Firmware} {s : BootState} {a : Nat}

theorem getMemoryMap_ram {answer : MapAnswer} {memoryMap mapSize : UInt64}
    (h : a < memoryMap.toNat ∨ memoryMap.toNat + mapSize.toNat ≤ a) :
    (getMemoryMap answer memoryMap mapSize s).machine.ram a = s.machine.ram a := by
  apply blit_outside
  omega

theorem handoff_ram (h : fw.Spares a) : (handoff fw s).machine.ram a = s.machine.ram a := by
  have hroom : (0 : UInt64).toNat = 0 := rfl
  have hfirst : (getMemoryMap fw.firstMap 0 0 s).machine.ram a = s.machine.ram a :=
    getMemoryMap_ram (by omega)
  have hsecond : (getMemoryMap fw.secondMap fw.pages fw.mapRoom
      ((getMemoryMap fw.firstMap 0 0 s).record
        (.allocatePages ((fw.mapRoom + 4095) / 4096) fw.allocStatus))).machine.ram a =
      s.machine.ram a := (getMemoryMap_ram h).trans hfirst
  rw [handoff]
  split_ifs
  · exact hfirst
  · exact hsecond
  · cases fw.exitStatus with
    | none => exact hsecond
    | some status => exact hsecond

theorem publishBootConfig_outside {size : UInt32} {ram : Bytes}
    (h : a < mblBootconfig.toNat ∨ mblBootconfig.toNat + mblBootConfigSize ≤ a) :
    publishBootConfig size ram a = ram a := by
  have hsize : mblBootConfigSize = 28 := rfl
  rw [publishBootConfig, sucsInitBootConfig]
  rw [store32_outside (by omega), Function.update_of_ne (by omega), store32_outside (by omega),
    store32_outside (by omega), store32_outside (by omega), Function.update_of_ne (by omega),
    store32_outside (by omega)]

end Memory

/-- Where the memory map lies elsewhere, RAM holds the kernel at its address and
the configuration its size. -/
structure KernelInPlace (fw : Firmware) (kernel : Mkfs.Bytearray) (ram : Bytes) : Prop where
  bytes : ∀ j < kernel.length, fw.Spares (mblKernelAddr.toNat + j) →
    ram (mblKernelAddr.toNat + j) = kernel.getD j 0
  config : fw.SparesConfig → ConfigHolds ram (UInt32.ofNat kernel.length)

section Load
variable {io : Option BlockIo} {inp : MenuInput} {fw : Firmware} {kernel : Mkfs.Bytearray}
variable {s : Machine} {t : BootState} {inode : UInt32} {run : BootRun}

theorem kmainLoad_places (fw : Firmware) (hload : Mkfs.Loads io inode 0 t.machine kernel)
    (hmin : 16 ≤ kernel.length) :
    (kmainLoad io fw inode t).ending = .handedOver ∧
      KernelInPlace fw kernel (kmainLoad io fw inode t).state.machine.ram := by
  have haddr : mblBootconfig.toNat + mblBootConfigSize ≤ mblKernelAddr.toNat := by decide
  have hsize : (owfsLoadFile io inode mblKernelAddr 0 t.machine).size =
      UInt32.ofNat kernel.length := by
    rw [← hload.size, UInt32.ofNat_toNat]
  have hlarge : 16 ≤ (owfsLoadFile io inode mblKernelAddr 0 t.machine).size := by
    rw [UInt32.le_iff_toNat_le, hload.size]
    exact hmin
  rw [kmainLoad]
  dsimp only
  rw [if_neg (not_not.mpr hload.code), if_neg (UInt32.not_lt.mpr hlarge)]
  refine ⟨rfl, ?_, ?_⟩
  · intro j hj hspares
    rw [handoff_ram hspares]
    change publishBootConfig _ _ _ = _
    rw [publishBootConfig_outside (.inr (by omega)), hload.bytes j hj]
  · intro hspares
    apply handoff_config _ hspares
    rw [← hsize]
    exact publishBootConfig_holds _ _

structure EndsWith (fw : Firmware) (kernel : Mkfs.Bytearray) (result : Int) (run : BootRun) :
    Prop where
  handedOver : run.ending = .handedOver ↔ result = 0
  shutDown : run.ending = .shutDown ↔ result = -2
  rebooted : run.ending = .rebooted ↔ result ≠ 0 ∧ result ≠ -2
  placed : run.ending = .handedOver → KernelInPlace fw kernel run.state.machine.ram

theorem kmainSelected_ends {sel : Int} (fw : Firmware)
    (hload : Mkfs.Loads io DiskImage.kernelEntry.inode 0 t.machine kernel)
    (hmin : 16 ≤ kernel.length) :
    EndsWith fw kernel sel (kmainSelected io fw [DiskImage.kernelEntry] 1 sel t) := by
  have hplaces := kmainLoad_places (t := t.record (.chosen sel)) fw hload hmin
  rw [kmainSelected]
  split_ifs with hreboot hdown hrange
  · constructor <;> simp [hreboot]
  · constructor <;> simp [hdown]
  · constructor <;> simp <;> omega
  · obtain rfl : sel = 0 := by omega
    obtain ⟨hend, hplaced⟩ := hplaces
    have hinode : entryInode [DiskImage.kernelEntry] 0 = DiskImage.kernelEntry.inode := rfl
    rw [hinode]
    refine ⟨by simp [hend], by simp [hend], by simp [hend], fun _ => hplaced⟩

structure ServesKernel (io : Option BlockIo) (kernel : Mkfs.Bytearray) : Prop where
  probed : ∀ drive s, (owfsProbe io drive s).1 = mblComVolumeProbeOk
  served : ∀ drive s, DiskImage.KernelServed io (owfsProbe io drive s).2 kernel
  size_ge : 16 ≤ kernel.length

theorem ServesKernel.kmain (h : ServesKernel io kernel) (inp : MenuInput) (fw : Firmware)
    (s : Machine) :
    (∀ run, Kmain io inp fw s run → ∃ r, MenuReturns inp 1 10 r ∧
      EndsWith fw kernel r.result run) ∧
    (∀ r, MenuReturns inp 1 10 r → ∃ run, Kmain io inp fw s run ∧
      EndsWith fw kernel r.result run) := by
  obtain ⟨hprobed, hserved, hmin⟩ := h
  obtain ⟨hlisted, hloads⟩ := hserved 0 s
  have hcode := hprobed 0 s
  obtain ⟨hentries, hresult⟩ := hlisted _ .start mblMenuMax (by decide)
  have hload := hloads _ (.listed mblMenuMax .start) 0
  generalize hprobe : owfsProbe io 0 s = p at *
  generalize hlisting : owfsEnumerate io mblMenuMax p.2 = listing at *
  have hcount : listedCount listing = 1 := by
    rw [listedCount, hresult]
    rfl
  have hsuccess : mblCodeIsSuccess mblComVolumeProbeOk = true := by decide
  constructor
  · intro run hrun
    cases hrun with
    | @probeFailed rc t hprobe' hfailed =>
      obtain rfl : p = (rc, t) := hprobe.symm.trans hprobe'
      obtain rfl : rc = mblComVolumeProbeOk := hcode
      rw [hsuccess] at hfailed
      cases hfailed
    | @menu rc t listing' r hprobe' _ hlisting' hmenu =>
      obtain rfl : p = (rc, t) := hprobe.symm.trans hprobe'
      obtain rfl : listing = listing' := hlisting.symm.trans hlisting'
      rw [hcount] at hmenu ⊢
      rw [hentries]
      exact ⟨r, hmenu, kmainSelected_ends fw hload hmin⟩
  · intro r hmenu
    rw [← hcount] at hmenu
    refine ⟨_, .menu hprobe (by rw [hcode, hsuccess]) hlisting hmenu, ?_⟩
    rw [hcount, hentries]
    exact kmainSelected_ends fw hload hmin

end Load

/-- Of the handles that are fixed devices with a medium, the first is a disk of
512-byte sectors that holds the image and refuses no request. -/
def FirstFixed (disks : Option (List (Option BlockIoProtocol))) (image : Mkfs.Bytearray) : Prop :=
  ∃ before after, (∀ handle ∈ before, handle.bind fixedDevice = none) ∧
    disks = some (before ++
      some ⟨some ⟨false, true, 512⟩, Mkfs.bytesOf image, fun _ _ => false⟩ :: after)

theorem FirstFixed.initBlockIo {disks : Option (List (Option BlockIoProtocol))}
    {image : Mkfs.Bytearray} (h : FirstFixed disks image) :
    initBlockIo disks = Mkfs.diskWith image := by
  obtain ⟨before, after, hskipped, rfl⟩ := h
  have hnone : before.findSome? (fun bio => bio.bind fixedDevice) = none :=
    List.findSome?_eq_none_iff.mpr hskipped
  change (before ++ _ :: after).findSome? (fun bio => bio.bind fixedDevice) = _
  rw [List.findSome?_append, hnone, Option.none_or]
  rfl

section Boot
variable {sys : EfiSystem} {inp : MenuInput} {diskGuid : GptWriter.Uuid}
variable {efiData kernel image : Mkfs.Bytearray}

theorem buildImage_serves (hne : efiData ≠ []) (hmax : efiData.length ≤ Esp.maxEfiData)
    (hmin : 16 ≤ kernel.length) (hcap : kernel.length ≤ 1034 * 4096)
    (hbuild : DiskImage.buildImage diskGuid efiData kernel = .ok image) :
    ServesKernel (Mkfs.diskWith image) kernel := by
  have hblocks := Mkfs.Volume.blocksOf_eq kernel
  obtain ⟨mbr, gpt, entries, pri, bak, esp, fat, t, h⟩ := DiskImage.stages diskGuid hne hmax
    (show Mkfs.Volume.blocksOf kernel ≤ 1034 by omega)
  obtain rfl : t.image = image := Except.ok.inj (h.run.symm.trans hbuild)
  exact ⟨fun drive s => (h.served hmin drive s).1, fun drive s => (h.served hmin drive s).2, hmin⟩

def smallSystem (image : Mkfs.Bytearray) : EfiSystem where
  graphics := none
  disks := some [some ⟨some ⟨true, false, 512⟩, fun _ => 0, fun _ _ => true⟩,
    some ⟨some ⟨false, true, 512⟩, Mkfs.bytesOf image, fun _ _ => false⟩]
  loadedImage := some ⟨0x1000, 0, 1, 2, 3, 4, 0, 0, 0, 0x10000, 0x8000, 1, 2, 0, 0x7000⟩
  firstMap := willingFirmware.firstMap
  allocStatus := 0
  pages := 0x7F000000
  secondMap := willingFirmware.secondMap
  call := fun _ => 0

theorem smallSystem_fixed (image : Mkfs.Bytearray) :
    FirstFixed (smallSystem image).disks image := by
  refine ⟨[some ⟨some ⟨true, false, 512⟩, fun _ => 0, fun _ _ => true⟩], [], ?_, rfl⟩
  intro handle hhandle
  obtain rfl := List.mem_singleton.mp hhandle
  rfl

theorem smallImage_builds : ∃ image,
    DiskImage.buildImage GptWriter.owfsPartGuid [0x4D, 0x5A] (List.replicate 16 0x90) =
      .ok image := by
  obtain ⟨mbr, gpt, entries, pri, bak, esp, fat, t, h⟩ := DiskImage.stages
    GptWriter.owfsPartGuid (show ([0x4D, 0x5A] : Mkfs.Bytearray) ≠ [] by decide) (by decide)
    (show Mkfs.Volume.blocksOf (List.replicate 16 0x90) ≤ 1034 by decide)
  exact ⟨t.image, h.run⟩

theorem enterAtOnce_returns : ∃ r, MenuReturns enterAtOnce 1 10 r ∧ r.result = 0 := by
  have hstep : menuStep enterAtOnce 1 10 (menuStart enterAtOnce 10) = .inl _ := rfl
  exact ⟨_, ⟨0, _, .start, hstep⟩, rfl⟩

end Boot

section Exit
variable {io : Option BlockIo} {sys : EfiSystem} {inp : MenuInput} {fw : Firmware}
variable {s : Machine} {run : BootRun} {key status : UInt64}

/-- Exactly when `handoff` calls `gExitBootServices`, with which key and with which answer. -/
def LeavesWith (fw : Firmware) (key status : UInt64) : Prop :=
  efiError fw.allocStatus = false ∧ efiError fw.secondMap.status = false ∧
    key = fw.secondMap.mapKey ∧ fw.exitStatus = some status

theorem handoff_exit {u : BootState} (hnone : NoExit u.events) :
    .exitBootServices key status ∈ (handoff fw u).events ↔ LeavesWith fw key status := by
  rw [handoff, LeavesWith]
  split_ifs with halloc hmap
  · simp [BootState.record, getMemoryMap, hnone key status, halloc]
  · simp [BootState.record, getMemoryMap, hnone key status, hmap]
  · cases hfw : fw.exitStatus with
    | none => simp [BootState.record, getMemoryMap, hnone key status]
    | some answer =>
      simp [BootState.record, getMemoryMap, hnone key status, halloc, hmap, eq_comm]

theorem kmain_exit (h : Kmain io inp fw s run) :
    .exitBootServices key status ∈ run.state.events ↔
      run.ending = .handedOver ∧ LeavesWith fw key status := by
  by_cases hend : run.ending = .handedOver
  · obtain ⟨size, u, hstate, hready, -⟩ := kmain_handsOver h hend
    rw [hstate, handoff_exit hready.noExit]
    exact (and_iff_right hend).symm
  · refine iff_of_false ?_ fun hleaves => hend hleaves.1
    intro hexit
    cases h with
    | probeFailed hprobe hcode => simp at hexit
    | menu hprobe hcode hlisting hmenu =>
      rw [kmainSelected] at hexit hend
      split_ifs at hexit hend
      · simp [BootState.record] at hexit
      · simp [BootState.record] at hexit
      · simp [BootState.record] at hexit
      · rw [kmainLoad] at hexit hend
        dsimp only at hexit hend
        split_ifs at hexit hend
        · simp [BootState.record] at hexit
        · simp [BootState.record] at hexit
        · exact hend rfl

theorem gExitBootServices_eq (sys : EfiSystem) :
    sys.gExitBootServices = (sys.loadedImage.map LoadedImage.unload).getD 0 := by
  rw [EfiSystem.gExitBootServices]
  cases sys.loadedImage with
  | none => rfl
  | some img => rfl

theorem exitStatus_eq_some : sys.firmware.exitStatus = some status ↔
    ∃ img, sys.loadedImage = some img ∧ img.unload ≠ 0 ∧ status = sys.call img.unload := by
  rw [EfiSystem.firmware, gExitBootServices_eq]
  cases himage : sys.loadedImage with
  | none => simp
  | some img => simp [eq_comm]

theorem EfiMain.exit_iff {efiRun : EfiRun} (h : EfiMain sys inp s efiRun) :
    .exitBootServices key status ∈ efiRun.boot.state.events ↔
      efiRun.boot.ending = .handedOver ∧ efiError sys.allocStatus = false ∧
        efiError sys.secondMap.status = false ∧ key = sys.secondMap.mapKey ∧
        ∃ img, sys.loadedImage = some img ∧ img.unload ≠ 0 ∧ status = sys.call img.unload := by
  obtain ⟨hkmain⟩ := h
  refine (kmain_exit hkmain).trans ?_
  rw [LeavesWith, exitStatus_eq_some]
  rfl

/-- The function called to leave boot services is the one the image is unloaded with: it is called
exactly where the kernel is called after two good answers of the firmware. No other field of the
image has an influence on a run, and with none to unload it no handoff is safe. -/
theorem efiMain_callsUnload :
    (∀ run, EfiMain sys inp s run → ∀ key status,
      .exitBootServices key status ∈ run.boot.state.events ↔
        run.boot.ending = .handedOver ∧ efiError sys.allocStatus = false ∧
          efiError sys.secondMap.status = false ∧ key = sys.secondMap.mapKey ∧
          ∃ img, sys.loadedImage = some img ∧ img.unload ≠ 0 ∧ status = sys.call img.unload) ∧
    (∀ img img', sys.loadedImage = some img → img'.unload = img.unload →
      EfiMain { sys with loadedImage := some img' } inp s = EfiMain sys inp s) ∧
    ((∀ img, sys.loadedImage = some img → img.unload = 0) → ∀ run, EfiMain sys inp s run →
      ¬ SafeHandoff run.boot) := by
  refine ⟨fun run hrun key status => hrun.exit_iff, ?_, ?_⟩
  · intro img img' himage hunload
    have hfirmware : EfiSystem.firmware { sys with loadedImage := some img' } = sys.firmware := by
      simp only [EfiSystem.firmware, gExitBootServices_eq, himage, Option.map_some, hunload]
    funext run
    apply propext
    constructor
    · rintro ⟨hkmain⟩
      rw [hfirmware] at hkmain
      exact .intro hkmain
    · rintro ⟨hkmain⟩
      rw [← hfirmware] at hkmain
      exact .intro hkmain
  · intro hnull run hrun hsafe
    obtain ⟨key, status, hexit, -⟩ := hsafe.exited.mem
    obtain ⟨-, -, -, -, img, himage, hunload, -⟩ := hrun.exit_iff.mp hexit
    exact hunload (hnull img himage)

theorem smallSystem_unsafe : ∃ image run,
    EfiMain (smallSystem image) enterAtOnce (.boot fun _ => 0) run ∧
      run.boot.ending = .handedOver ∧ ¬ SafeHandoff run.boot := by
  obtain ⟨image, hbuild⟩ := smallImage_builds
  obtain ⟨r, hmenu, hresult⟩ := enterAtOnce_returns
  have hserves := buildImage_serves (by decide) (by decide) (by decide) (by decide) hbuild
  obtain ⟨run, hkmain, hends⟩ :=
    (hserves.kmain enterAtOnce (smallSystem image).firmware (.boot fun _ => 0)).2 r hmenu
  rw [← (smallSystem_fixed image).initBlockIo] at hkmain
  refine ⟨image, _, .intro hkmain, hends.handedOver.mpr hresult, ?_⟩
  apply efiMain_callsUnload.2.2 _ _ (.intro hkmain)
  intro img himage
  obtain rfl := Option.some.inj himage
  rfl

end Exit

end ModularBootloader
