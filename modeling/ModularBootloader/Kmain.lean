import ModularBootloader.MenuStatus
import ModularBootloader.RoundTrip

/-!
# The boot run and the kernel handoff

`kmain` from the volume probe to the call of the kernel. Each firmware service
is answered at most once in a run, so a firmware is its answers. A run records
what the driver, the menu and the firmware returned, and the RAM it ends in;
drawing goes to the framebuffer and is left out here.
-/

namespace ModularBootloader
open ByteStore

def efiError (status : UInt64) : Bool := status.toInt64 < 0

def mblBootConfigSize : Nat := 28

def sucsModeBase : UInt32 := 0
def sucsModeExtended : UInt32 := 1

def sucsInitBootConfig (target : Nat) (initialMode : UInt32) (ram : Bytes) : Bytes :=
  let mode := if initialMode ≠ sucsModeBase ∧ initialMode ≠ sucsModeExtended then sucsModeBase
    else initialMode
  let ram := store32 ram target mode
  let ram := store32 ram (target + 4) mode
  let ram := Function.update ram (target + 8) 0
  store32 ram (target + 12) 0

def publishBootConfig (size : UInt32) (ram : Bytes) : Bytes :=
  let cfg := mblBootconfig.toNat
  let ram := store32 ram cfg mblMagicBootcfg
  let ram := Function.update ram (cfg + 4) 0
  let ram := store32 ram (cfg + 8) size
  sucsInitBootConfig (cfg + 12) sucsModeBase ram

def ConfigHolds (ram : Bytes) (size : UInt32) : Prop :=
  load32 ram mblBootconfig.toNat = mblMagicBootcfg ∧ load32 ram (mblBootconfig.toNat + 8) = size

theorem load32_update_other {m : Bytes} {a off : Nat} {v : UInt8} (h : a < off ∨ off + 4 ≤ a) :
    load32 (Function.update m a v) off = load32 m off := by
  apply load32_congr
  intro k hk
  exact Function.update_of_ne (show off + k ≠ a by omega) v m

theorem sucsInitBootConfig_below {ram : Bytes} {target off : Nat} (mode : UInt32)
    (h : off + 4 ≤ target) : load32 (sucsInitBootConfig target mode ram) off = load32 ram off := by
  rw [sucsInitBootConfig, load32_store32_other (by omega), load32_update_other (by omega),
    load32_store32_other (by omega), load32_store32_other (by omega)]

theorem publishBootConfig_holds (size : UInt32) (ram : Bytes) :
    ConfigHolds (publishBootConfig size ram) size := by
  rw [ConfigHolds, publishBootConfig]
  generalize mblBootconfig.toNat = cfg
  constructor
  · rw [sucsInitBootConfig_below _ (by omega), load32_store32_other (by omega),
      load32_update_other (by omega), load32_store32]
  · rw [sucsInitBootConfig_below _ (by omega), load32_store32]

theorem ConfigHolds.of_outside {ram : Bytes} {size : UInt32} {dst n : Nat} {data : Bytes}
    (h : ConfigHolds ram size)
    (hout : dst + n ≤ mblBootconfig.toNat ∨ mblBootconfig.toNat + mblBootConfigSize ≤ dst) :
    ConfigHolds (blit ram dst n data) size := by
  have hsize : mblBootConfigSize = 28 := rfl
  have hsame : ∀ off, mblBootconfig.toNat ≤ off → off + 4 ≤ mblBootconfig.toNat + 28 →
      load32 (blit ram dst n data) off = load32 ram off := by
    intro off hlo hhi
    apply load32_congr
    intro k hk
    exact blit_outside (by omega)
  obtain ⟨hmagic, hlength⟩ := h
  constructor
  · rw [hsame _ (Nat.le_refl _) (by omega), hmagic]
  · rw [hsame _ (by omega) (by omega), hlength]

theorem blit_load32 {ram ram' : Bytes} {off : Nat} (h : load32 ram off = load32 ram' off)
    (dst n : Nat) (data : Bytes) :
    load32 (blit ram dst n data) off = load32 (blit ram' dst n data) off := by
  apply load32_congr
  intro k hk
  have hbyte := load32_inj h k hk
  simp only [blit, hbyte]

theorem ConfigHolds.blit_iff {ram ram' : Bytes} {size : UInt32} (h : ConfigHolds ram size)
    (h' : ConfigHolds ram' size) (dst n : Nat) (data : Bytes) :
    ConfigHolds (blit ram dst n data) size ↔ ConfigHolds (blit ram' dst n data) size := by
  have hmagic := blit_load32 (h.1.trans h'.1.symm) dst n data
  have hsize := blit_load32 (h.2.trans h'.2.symm) dst n data
  rw [ConfigHolds, ConfigHolds, hmagic, hsize]

/-- An answer of `GetMemoryMap`: what it leaves in its arguments, and how many
bytes of its buffer it fills. -/
structure MapAnswer where
  status : UInt64
  mapSize : UInt64
  mapKey : UInt64
  filled : Nat
  data : Bytes

/-- The answers to the calls `kmain` makes, in their order. -/
structure Firmware where
  firstMap : MapAnswer
  allocStatus : UInt64
  pages : UInt64
  secondMap : MapAnswer
  /-- What `gExitBootServices` answers, when it is not NULL. -/
  exitStatus : Option UInt64

inductive BootEvent
  | probed (rc : Bancode)
  | listed (count : Int) (entries : List MblEntry)
  | chosen (sel : Int)
  | loaded (inode : UInt32) (code : Bancode) (size : UInt32)
  | getMemoryMap (status key : UInt64)
  | allocatePages (numPages status : UInt64)
  | exitBootServices (key status : UInt64)
  | kernel (addr : UInt32)

structure BootState where
  machine : Machine
  /-- Newest first. -/
  events : List BootEvent

def BootState.record (e : BootEvent) (s : BootState) : BootState :=
  { s with events := e :: s.events }

/-- The firmware fills no more of the buffer than the caller says it has. -/
def getMemoryMap (answer : MapAnswer) (memoryMap mapSize : UInt64) (s : BootState) : BootState where
  machine := { s.machine with
    ram := blit s.machine.ram memoryMap.toNat (min answer.filled mapSize.toNat) answer.data }
  events := .getMemoryMap answer.status answer.mapKey :: s.events

def Firmware.mapRoom (fw : Firmware) : UInt64 := fw.firstMap.mapSize + 4096

inductive BootEnd
  | probeFailed (rc : Bancode)
  | rebooted
  | shutDown
  | failed (msg : String)
  /-- The kernel has been called. -/
  | handedOver
  deriving DecidableEq, Repr

structure BootRun where
  ending : BootEnd
  state : BootState

/-- The last stage: leave boot services, then call the kernel whatever came of it. -/
def handoff (fw : Firmware) (s : BootState) : BootState :=
  let s := getMemoryMap fw.firstMap 0 0 s
  let numPages := (fw.mapRoom + 4095) / 4096
  let s := s.record (.allocatePages numPages fw.allocStatus)
  let s :=
    if efiError fw.allocStatus then s
    else
      let s := getMemoryMap fw.secondMap fw.pages fw.mapRoom s
      if efiError fw.secondMap.status then s
      else
        match fw.exitStatus with
        | none => s
        | some status => s.record (.exitBootServices fw.secondMap.mapKey status)
  s.record (.kernel mblKernelAddr)

def entryInode (entries : List MblEntry) (sel : Int) : UInt32 :=
  (entries[sel.toNat]?).elim 0 MblEntry.inode

def kmainLoad (io : Option BlockIo) (fw : Firmware) (inode : UInt32) (s : BootState) : BootRun :=
  let load := owfsLoadFile io inode mblKernelAddr 0 s.machine
  let s : BootState := ⟨load.machine, .loaded inode load.code load.size :: s.events⟩
  if load.code ≠ mblComKernelLoadOk then ⟨.failed "Kernel load failed!", s⟩
  else if load.size < 16 then
    ⟨.failed "Kernel image too small!", { s with machine := s.machine.raise mblSoftKernelTooSmall }⟩
  else
    let published := { s.machine with ram := publishBootConfig load.size s.machine.ram }
    ⟨.handedOver, handoff fw { s with machine := published.raise mblComBootHandoffOk }⟩

def kmainSelected (io : Option BlockIo) (fw : Firmware) (entries : List MblEntry) (count sel : Int)
    (s : BootState) : BootRun :=
  let s := s.record (.chosen sel)
  if sel = -1 then ⟨.rebooted, s⟩
  else if sel = -2 then ⟨.shutDown, s⟩
  else if sel < 0 ∨ sel ≥ count then ⟨.rebooted, s⟩
  else kmainLoad io fw (entryInode entries sel) s

def listedCount (listing : Listing) : Int := if listing.result < 0 then 0 else listing.result

/-- The runs of `kmain`. A run that never leaves the menu is none of them. -/
inductive Kmain (io : Option BlockIo) (inp : MenuInput) (fw : Firmware) (s : Machine) :
    BootRun → Prop
  | probeFailed {rc : Bancode} {t : Machine} (hprobe : owfsProbe io 0 s = (rc, t))
      (hcode : mblCodeIsSuccess rc = false) :
      Kmain io inp fw s ⟨.probeFailed rc, ⟨t, [.probed rc]⟩⟩
  | menu {rc : Bancode} {t : Machine} {listing : Listing} {r : MenuResult}
      (hprobe : owfsProbe io 0 s = (rc, t)) (hcode : mblCodeIsSuccess rc = true)
      (hlisting : owfsEnumerate io mblMenuMax t = listing)
      (hmenu : MenuReturns inp (listedCount listing) 10 r) :
      Kmain io inp fw s (kmainSelected io fw listing.entries (listedCount listing) r.result
        ⟨listing.machine, [.listed (listedCount listing) listing.entries, .probed rc]⟩)

def lastMapKey : List BootEvent → Option UInt64
  | [] => none
  | .getMemoryMap status key :: earlier => if efiError status then lastMapKey earlier else some key
  | _ :: earlier => lastMapKey earlier

def ServicesExited (events : List BootEvent) : Prop :=
  ∃ later key status earlier, events = later ++ .exitBootServices key status :: earlier ∧
    efiError status = false ∧ lastMapKey earlier = some key

structure KernelLoaded (events : List BootEvent) (size : UInt32) : Prop where
  probed : ∃ rc, .probed rc ∈ events ∧ mblCodeIsSuccess rc = true
  loaded : ∃ count entries sel entry, .listed count entries ∈ events ∧ .chosen sel ∈ events ∧
    0 ≤ sel ∧ sel < count ∧ entries[sel.toNat]? = some entry ∧
    .loaded entry.inode mblComKernelLoadOk size ∈ events
  size_ge : 16 ≤ size

structure SafeHandoff (run : BootRun) : Prop where
  kernel : ∃ size, KernelLoaded run.state.events size ∧ ConfigHolds run.state.machine.ram size
  exited : ServicesExited run.state.events

structure Firmware.LetsGo (fw : Firmware) : Prop where
  pages : efiError fw.allocStatus = false
  map : efiError fw.secondMap.status = false
  exit : ∃ status, fw.exitStatus = some status ∧ efiError status = false

def Firmware.SparesConfig (fw : Firmware) : Prop :=
  fw.pages.toNat + fw.mapRoom.toNat ≤ mblBootconfig.toNat ∨
    mblBootconfig.toNat + mblBootConfigSize ≤ fw.pages.toNat

def Firmware.overlaid (fw : Firmware) (ram : Bytes) : Bytes :=
  blit ram fw.pages.toNat (min fw.secondMap.filled fw.mapRoom.toNat) fw.secondMap.data

/-- Put over a published configuration, the second map leaves magic and size as they are. -/
def Firmware.LeavesConfig (fw : Firmware) (size : UInt32) : Prop :=
  ConfigHolds (fw.overlaid (publishBootConfig size fun _ => 0)) size

section Runs
variable {io : Option BlockIo} {inp : MenuInput} {fw : Firmware} {s : Machine} {run : BootRun}

theorem handoff_events (fw : Firmware) (s : BootState) :
    ∃ later, (handoff fw s).events = later ++ s.events := by
  rw [handoff]
  split_ifs
  · exact ⟨[_, _, _], rfl⟩
  · exact ⟨[_, _, _, _], rfl⟩
  · cases fw.exitStatus with
    | none => exact ⟨[_, _, _, _], rfl⟩
    | some status => exact ⟨[_, _, _, _, _], rfl⟩

theorem handoff_config {size : UInt32} {s : BootState} (h : ConfigHolds s.machine.ram size)
    (hspares : fw.SparesConfig) : ConfigHolds (handoff fw s).machine.ram size := by
  have hroom : (0 : UInt64).toNat = 0 := rfl
  have hfirst : ConfigHolds (getMemoryMap fw.firstMap 0 0 s).machine.ram size := by
    apply h.of_outside
    left
    rw [hroom]
    omega
  have hsecond : ConfigHolds (getMemoryMap fw.secondMap fw.pages fw.mapRoom
      ((getMemoryMap fw.firstMap 0 0 s).record
        (.allocatePages ((fw.mapRoom + 4095) / 4096) fw.allocStatus))).machine.ram size := by
    apply hfirst.of_outside
    rcases hspares with hbelow | habove
    · left
      omega
    · exact .inr habove
  rw [handoff]
  split_ifs
  · exact hfirst
  · exact hsecond
  · cases fw.exitStatus with
    | none => exact hsecond
    | some status => exact hsecond

def NoExit (events : List BootEvent) : Prop := ∀ key status, .exitBootServices key status ∉ events

structure ReadyToCall (events : List BootEvent) (size : UInt32) : Prop where
  kernel : KernelLoaded events size
  only : ∀ inode code other, .loaded inode code other ∈ events → other = size
  noExit : NoExit events
  noCall : ∀ addr, .kernel addr ∉ events

theorem handoff_calls (fw : Firmware) (s : BootState) :
    ∃ earlier, (handoff fw s).events = .kernel mblKernelAddr :: earlier ∧
      ∃ later, earlier = later ++ s.events := by
  rw [handoff]
  split_ifs
  · exact ⟨_, rfl, [_, _], rfl⟩
  · exact ⟨_, rfl, [_, _, _], rfl⟩
  · cases fw.exitStatus with
    | none => exact ⟨_, rfl, [_, _, _], rfl⟩
    | some status => exact ⟨_, rfl, [_, _, _, _], rfl⟩

theorem handoff_call {s : BootState} {addr : UInt32} (hnone : ∀ a, .kernel a ∉ s.events)
    (hcall : .kernel addr ∈ (handoff fw s).events) : addr = mblKernelAddr := by
  rw [handoff] at hcall
  split_ifs at hcall
  · simpa [BootState.record, getMemoryMap, hnone addr] using hcall
  · simpa [BootState.record, getMemoryMap, hnone addr] using hcall
  · cases hfw : fw.exitStatus with
    | none => simpa [hfw, BootState.record, getMemoryMap, hnone addr] using hcall
    | some status => simpa [hfw, BootState.record, getMemoryMap, hnone addr] using hcall

theorem handoff_loaded {s : BootState} {inode : UInt32} {code : Bancode} {size : UInt32} :
    .loaded inode code size ∈ (handoff fw s).events ↔ .loaded inode code size ∈ s.events := by
  rw [handoff]
  split_ifs
  · simp [BootState.record, getMemoryMap]
  · simp [BootState.record, getMemoryMap]
  · cases fw.exitStatus with
    | none => simp [BootState.record, getMemoryMap]
    | some status => simp [BootState.record, getMemoryMap]

theorem handoff_overlays (hgo : fw.LetsGo) (s : BootState) :
    (handoff fw s).machine.ram = fw.overlaid s.machine.ram := by
  have hzero : (0 : UInt64).toNat = 0 := rfl
  have hfirst : blit s.machine.ram (0 : UInt64).toNat (min fw.firstMap.filled (0 : UInt64).toNat)
      fw.firstMap.data = s.machine.ram := by
    funext a
    apply blit_outside
    right
    omega
  obtain ⟨hpages, hmap, status, hexit, -⟩ := hgo
  rw [handoff, hpages, hmap, hexit]
  simp only [Bool.false_eq_true, if_false, BootState.record, getMemoryMap, hfirst]
  rfl

theorem ServicesExited.mem {events : List BootEvent} (h : ServicesExited events) :
    ∃ key status, .exitBootServices key status ∈ events ∧ efiError status = false := by
  obtain ⟨later, key, status, earlier, rfl, hstatus, -⟩ := h
  exact ⟨key, status, List.mem_append_right later List.mem_cons_self, hstatus⟩

theorem handoff_exited {s : BootState} (h : NoExit s.events) :
    ServicesExited (handoff fw s).events ↔ fw.LetsGo := by
  constructor
  · intro hexit
    obtain ⟨key, status, hmem, hstatus⟩ := hexit.mem
    rw [handoff] at hmem
    -- The call is in the record only where all three services answered.
    split_ifs at hmem with halloc hmap
    · simp [BootState.record, getMemoryMap, h key status] at hmem
    · simp [BootState.record, getMemoryMap, h key status] at hmem
    · cases hfw : fw.exitStatus with
      | none => simp [hfw, BootState.record, getMemoryMap, h key status] at hmem
      | some answer =>
        simp [hfw, BootState.record, getMemoryMap, h key status] at hmem
        obtain ⟨-, rfl⟩ := hmem
        exact ⟨Bool.eq_false_iff.mpr halloc, Bool.eq_false_iff.mpr hmap, status, hfw, hstatus⟩
  · rintro ⟨hpages, hmap, status, hfw, hstatus⟩
    rw [handoff, hpages, hmap, hfw]
    refine ⟨[.kernel mblKernelAddr], fw.secondMap.mapKey, status, _, rfl, hstatus, ?_⟩
    simp [BootState.record, getMemoryMap, lastMapKey, hmap]

theorem kmainLoad_handsOver {inode : UInt32} {t : BootState}
    (h : (kmainLoad io fw inode t).ending = .handedOver) :
    ∃ size u, (kmainLoad io fw inode t).state = handoff fw u ∧ 16 ≤ size ∧
      u.events = .loaded inode mblComKernelLoadOk size :: t.events ∧
      ConfigHolds u.machine.ram size := by
  rw [kmainLoad] at h ⊢
  dsimp only at h ⊢
  split_ifs at h ⊢ with hcode hsize
  refine ⟨(owfsLoadFile io inode mblKernelAddr 0 t.machine).size, _, rfl, ?_, ?_, ?_⟩
  · exact UInt32.not_lt.mp hsize
  · rw [not_not.mp hcode]
  · exact publishBootConfig_holds _ _

def Counted (l : Listing) : Prop := 0 ≤ l.result → l.result = l.entries.length

theorem enumerateStep_counted {root : Bytes} {max : Int} {st : EnumState} {l : Listing}
    (h : enumerateStep io root max st = .inl l) : Counted l := by
  intro hnonneg
  rw [enumerateStep] at h
  generalize owfsBlockmapGet io root st.idx st.machine = r at h
  obtain ⟨res, u⟩ := r
  cases res with
  | error e =>
    cases h
    exact absurd hnonneg (show ¬ (0 : Int) ≤ -3 by decide)
  | ok bnum =>
    dsimp only at h
    split_ifs at h
    · cases h
      exact absurd hnonneg (show ¬ (0 : Int) ≤ -4 by decide)
    · cases h
      rfl

theorem owfsEnumerate_counted (io : Option BlockIo) (max : Int) (s : Machine) :
    Counted (owfsEnumerate io max s) := by
  rw [owfsEnumerate]
  generalize owfsReadInode io owfsRootInode s = r
  obtain ⟨res, u⟩ := r
  cases res with
  | error e =>
    intro h
    exact absurd h (show ¬ (0 : Int) ≤ -1 by decide)
  | ok root =>
    dsimp only
    split_ifs
    · intro h
      exact absurd h (show ¬ (0 : Int) ≤ -2 by decide)
    · apply BoundedLoop.run_invariant (I := fun _ => True) (Q := Counted) trivial
      · intro _ _ _ _
        trivial
      · intro st l _ hl
        exact enumerateStep_counted hl
      · intro _ _ _
        rfl

theorem chosen_listed {listing : Listing} {sel : Int}
    (hlisting : owfsEnumerate io mblMenuMax s = listing)
    (hlo : 0 ≤ sel) (hhi : sel < listedCount listing) :
    ∃ entry, listing.entries[sel.toNat]? = some entry ∧
      entryInode listing.entries sel = entry.inode := by
  have hcount : sel < listing.entries.length := by
    rw [listedCount] at hhi
    split_ifs at hhi with hneg
    · omega
    · have hcounted := owfsEnumerate_counted io mblMenuMax s
      rw [hlisting] at hcounted
      rw [← hcounted (by omega)]
      exact hhi
  have hget := List.getElem?_eq_getElem (show sel.toNat < listing.entries.length by omega)
  refine ⟨_, hget, ?_⟩
  rw [entryInode, hget]
  rfl

theorem kmain_handsOver (h : Kmain io inp fw s run) (hend : run.ending = .handedOver) :
    ∃ size u, run.state = handoff fw u ∧ ReadyToCall u.events size ∧
      ConfigHolds u.machine.ram size := by
  cases h with
  | probeFailed hprobe hcode => cases hend
  | @menu rc t listing r hprobe hcode hlisting hmenu =>
    rw [kmainSelected] at hend ⊢
    split_ifs at hend ⊢ with hreboot hdown hrange
    rw [not_or] at hrange
    obtain ⟨entry, hget, hinode⟩ := chosen_listed hlisting (show 0 ≤ r.result by omega)
      (show r.result < listedCount listing by omega)
    obtain ⟨size, u, hstate, hsize, hevents, hconfig⟩ := kmainLoad_handsOver hend
    refine ⟨size, u, hstate, ⟨⟨⟨rc, ?_, hcode⟩, ?_, hsize⟩, ?_, ?_, ?_⟩, hconfig⟩
    · simp [hevents, BootState.record]
    · refine ⟨listedCount listing, listing.entries, r.result, entry, ?_, ?_, ?_⟩
      · simp [hevents, BootState.record]
      · simp [hevents, BootState.record]
      · rw [hevents, hinode]
        exact ⟨by omega, by omega, hget, List.mem_cons_self⟩
    · intro inode code other hmem
      simp only [hevents, BootState.record, List.mem_cons, reduceCtorEq, or_false,
        List.not_mem_nil, BootEvent.loaded.injEq] at hmem
      exact hmem.2.2
    · intro key status
      simp [hevents, BootState.record]
    · intro addr
      simp [hevents, BootState.record]

theorem kmain_ends_of_call (h : Kmain io inp fw s run) {addr : UInt32}
    (hcall : .kernel addr ∈ run.state.events) : run.ending = .handedOver := by
  cases h with
  | probeFailed hprobe hcode => simp at hcall
  | menu hprobe hcode hlisting hmenu =>
    rw [kmainSelected] at hcall ⊢
    split_ifs at hcall ⊢
    · simp [BootState.record] at hcall
    · simp [BootState.record] at hcall
    · simp [BootState.record] at hcall
    · rw [kmainLoad] at hcall ⊢
      dsimp only at hcall ⊢
      split_ifs at hcall ⊢
      · simp [BootState.record] at hcall
      · simp [BootState.record] at hcall
      · rfl

theorem kmain_calls_of_end (h : Kmain io inp fw s run) (hend : run.ending = .handedOver) :
    .kernel mblKernelAddr ∈ run.state.events := by
  obtain ⟨size, u, hstate, -⟩ := kmain_handsOver h hend
  obtain ⟨earlier, hevents, -⟩ := handoff_calls fw u
  rw [hstate, hevents]
  exact List.mem_cons_self

theorem KernelLoaded.append {events : List BootEvent} {size : UInt32} (h : KernelLoaded events size)
    (later : List BootEvent) : KernelLoaded (later ++ events) size := by
  obtain ⟨⟨rc, hrc, hcode⟩, ⟨count, entries, sel, entry, hlisted, hchosen, hlo, hhi, hget, hload⟩,
    hsize⟩ := h
  have hmem : ∀ e ∈ events, e ∈ later ++ events := fun e he => List.mem_append_right later he
  exact ⟨⟨rc, hmem _ hrc, hcode⟩, ⟨count, entries, sel, entry, hmem _ hlisted, hmem _ hchosen, hlo,
    hhi, hget, hmem _ hload⟩, hsize⟩

/-- The kernel is called at its one address, as the last thing recorded, and only after an entry
of an accepted volume has been chosen and loaded. The call is safe exactly when the firmware lets
the loader leave boot services and its map leaves the boot configuration as published. -/
theorem kmain_safeHandoff (h : Kmain io inp fw s run) {addr : UInt32}
    (hcall : .kernel addr ∈ run.state.events) :
    addr = mblKernelAddr ∧ ∃ size earlier, run.state.events = .kernel addr :: earlier ∧
      KernelLoaded earlier size ∧ (SafeHandoff run ↔ fw.LetsGo ∧ fw.LeavesConfig size) := by
  obtain ⟨size, u, hstate, hready, hconfig⟩ := kmain_handsOver h (kmain_ends_of_call h hcall)
  obtain ⟨earlier, hevents, later, rfl⟩ := handoff_calls fw u
  have hexited : ServicesExited (handoff fw u).events ↔ fw.LetsGo := handoff_exited hready.noExit
  have hleaves (hgo : fw.LetsGo) :
      ConfigHolds (handoff fw u).machine.ram size ↔ fw.LeavesConfig size := by
    rw [handoff_overlays hgo]
    exact hconfig.blit_iff (publishBootConfig_holds size _) _ _ _
  rw [hstate] at hcall
  obtain rfl := handoff_call hready.noCall hcall
  refine ⟨rfl, size, _, hstate ▸ hevents, hready.kernel.append later, ?_⟩
  constructor
  · intro hsafe
    obtain ⟨loaded, hkernel, hholds⟩ := hsafe.kernel
    have hgo := hexited.mp (hstate ▸ hsafe.exited)
    obtain ⟨-, -, -, entry, -, -, -, -, -, hload⟩ := hkernel.loaded
    rw [hstate, handoff_loaded] at hload
    obtain rfl := hready.only _ _ _ hload
    rw [hstate] at hholds
    exact ⟨hgo, (hleaves hgo).mp hholds⟩
  · rintro ⟨hgo, hmap⟩
    refine ⟨⟨size, ?_, ?_⟩, ?_⟩
    · rw [hstate, hevents]
      exact (hready.kernel.append later).append [_]
    · rw [hstate]
      exact (hleaves hgo).mpr hmap
    · rw [hstate]
      exact hexited.mpr hgo

theorem kmainLoad_calls {inode : UInt32} {t : BootState} (fw : Firmware)
    (hload : (owfsLoadFile io inode mblKernelAddr 0 t.machine).code = mblComKernelLoadOk)
    (hsize : 16 ≤ (owfsLoadFile io inode mblKernelAddr 0 t.machine).size) :
    (kmainLoad io fw inode t).ending = .handedOver := by
  have hok : ¬ (owfsLoadFile io inode mblKernelAddr 0 t.machine).code ≠ mblComKernelLoadOk :=
    not_not.mpr hload
  rw [kmainLoad]
  dsimp only
  rw [if_neg hok, if_neg (UInt32.not_lt.mpr hsize)]

theorem kmain_calls {rc : Bancode} {t : Machine} {listing : Listing} {r : MenuResult}
    {entry : MblEntry} (fw : Firmware) (hprobe : owfsProbe io 0 s = (rc, t))
    (hcode : mblCodeIsSuccess rc = true) (hlisting : owfsEnumerate io mblMenuMax t = listing)
    (hmenu : MenuReturns inp (listedCount listing) 10 r) (hlo : 0 ≤ r.result)
    (hhi : r.result < listedCount listing) (hget : listing.entries[r.result.toNat]? = some entry)
    (hload : (owfsLoadFile io entry.inode mblKernelAddr 0 listing.machine).code =
      mblComKernelLoadOk)
    (hsize : 16 ≤ (owfsLoadFile io entry.inode mblKernelAddr 0 listing.machine).size) :
    ∃ run, Kmain io inp fw s run ∧ run.ending = .handedOver := by
  have hinode : entryInode listing.entries r.result = entry.inode := by
    rw [entryInode, hget]
    rfl
  refine ⟨_, .menu hprobe hcode hlisting hmenu, ?_⟩
  rw [kmainSelected, if_neg (by omega), if_neg (by omega), if_neg (by omega), hinode]
  exact kmainLoad_calls fw hload hsize

end Runs

def willingFirmware : Firmware where
  firstMap := ⟨0x8000000000000005, 48, 0, 0, fun _ => 0⟩
  allocStatus := 0
  pages := 0x7F000000
  secondMap := ⟨0, 48, 7, 48, fun _ => 0⟩
  exitStatus := some 0

def fullFirmware : Firmware := { willingFirmware with allocStatus := 0x8000000000000009 }

theorem smallKernel_handsOver : ∃ s,
    Mkfs.formatOwfs Mkfs.smallDisk 276 "MBL" Mkfs.smallKernel true volumeBase = .ok s ∧
    ∀ fw, ∃ run, Kmain (Mkfs.diskWith s.image) enterAtOnce fw (.boot fun _ => 0) run ∧
      run.ending = .handedOver := by
  obtain ⟨s, hs⟩ := Mkfs.smallDisk_formats
  have hshort : ∀ f ∈ Mkfs.smallKernel, f.1.length ≤ 178 :=
    fun f hf => (Mkfs.smallKernel_plain f hf).short.trans (by omega)
  obtain ⟨D, hmedium, hvol⟩ := Mkfs.formatOwfs_onMedium Mkfs.smallDisk_blank (by decide) hshort hs
  obtain ⟨hcode, hmounted⟩ := owfsProbe_mounts 0 (.boot fun _ => 0) hmedium.accepted
  obtain ⟨hentries, hresult⟩ := hmedium.enumerates_all hmounted hvol hshort (by decide)
    (show Mkfs.smallKernel.length ≤ 32 by decide)
  refine ⟨s, hs, fun fw => ?_⟩
  obtain ⟨start, hfile⟩ := hvol.stored.file 0 _ rfl
  generalize hprobe : owfsProbe (some (diskOf (Mkfs.bytesOf s.image))) 0 (.boot fun _ => 0) = p
    at hcode hmounted hentries hresult
  generalize hlisting : owfsEnumerate (some (diskOf (Mkfs.bytesOf s.image))) 32 p.2 = listing
    at hentries hresult
  have hcount : listedCount listing = 1 := by
    rw [listedCount, hresult]
    rfl
  have hgSb : listing.machine.gSb = p.2.gSb := by
    rw [← hlisting]
    exact owfsEnumerate_gSb 32
  obtain ⟨hload, hsize, -⟩ :=
    hmedium.loads (hmounted.of_gSb hgSb) hfile (by decide) (by decide) 0
  have hstep : menuStep enterAtOnce 1 10 (menuStart enterAtOnce 10) = .inl _ := rfl
  have hmenu : MenuReturns enterAtOnce 1 10 _ := ⟨0, _, .start, hstep⟩
  rw [← hcount] at hmenu
  have hlarge : 16 ≤ (owfsLoadFile (some (diskOf (Mkfs.bytesOf s.image))) (UInt32.ofNat (0 + 1))
      mblKernelAddr 0 listing.machine).size := by
    rw [UInt32.le_iff_toNat_le, hsize]
    decide
  have hget : listing.entries[0]? =
      some (Mkfs.Volume.entryOf 0 ([0x6B], List.replicate 16 0x41)) := by
    rw [hentries]
    rfl
  exact kmain_calls fw hprobe (by rw [hcode]; decide) hlisting hmenu (Int.le_refl 0)
    (by rw [hcount]; decide) hget hload hlarge

theorem smallKernel_unsafe : ∃ s run,
    Mkfs.formatOwfs Mkfs.smallDisk 276 "MBL" Mkfs.smallKernel true volumeBase = .ok s ∧
    Kmain (Mkfs.diskWith s.image) enterAtOnce fullFirmware (.boot fun _ => 0) run ∧
    .kernel mblKernelAddr ∈ run.state.events ∧ ¬ SafeHandoff run := by
  obtain ⟨s, hs, hruns⟩ := smallKernel_handsOver
  obtain ⟨run, hrun, hend⟩ := hruns fullFirmware
  refine ⟨s, run, hs, hrun, kmain_calls_of_end hrun hend, ?_⟩
  intro hsafe
  obtain ⟨size, u, hstate, hready, -⟩ := kmain_handsOver hrun hend
  have hexited := hsafe.exited
  rw [hstate] at hexited
  exact absurd ((handoff_exited hready.noExit).mp hexited).pages (by decide)

def lowFirmware : Firmware := { willingFirmware with pages := 0 }

theorem lowFirmware_leaves (size : UInt32) : lowFirmware.LeavesConfig size := by
  apply (publishBootConfig_holds size _).of_outside
  left
  decide

theorem smallKernel_safe : ∃ s run,
    Mkfs.formatOwfs Mkfs.smallDisk 276 "MBL" Mkfs.smallKernel true volumeBase = .ok s ∧
    Kmain (Mkfs.diskWith s.image) enterAtOnce lowFirmware (.boot fun _ => 0) run ∧
    .kernel mblKernelAddr ∈ run.state.events ∧ SafeHandoff run := by
  obtain ⟨s, hs, hruns⟩ := smallKernel_handsOver
  obtain ⟨run, hrun, hend⟩ := hruns lowFirmware
  have hcall := kmain_calls_of_end hrun hend
  obtain ⟨-, size, -, -, -, hsafe⟩ := kmain_safeHandoff hrun hcall
  exact ⟨s, run, hs, hrun, hcall,
    hsafe.mpr ⟨⟨by decide, by decide, 0, rfl, by decide⟩, lowFirmware_leaves size⟩⟩

end ModularBootloader
