import ModularBootloader.BootChoice
import ModularBootloader.OwfsFaults
import ModularBootloader.DiagFormat

/-!
# The screens of a boot

What `kmain` draws where it does not leave the screen to the menu: the failure
screens, and the two lines of a boot that goes on. A failed run from a cold start
names the code `owfs_load_file` returned, which is the one raised last.
-/

namespace ModularBootloader
open ByteStore

def diagbuf (code : Bancode) : List UInt8 := (mblDiagFormat code).map Prod.snd

/-- `fail`; `d` is what `mbl_diag_last` returned. -/
def failCalls (msg : String) (d : Option MblDiag) : List VgaCall :=
  [.fill 12 20 0x20 40 0x0F, .write 12 20 (cString msg) 0x0F] ++
    match d with
    | none => []
    | some d =>
      [.fill 13 20 0x20 40 0x07, .write 13 20 (cString "BANcode ") 0x07,
        .write 13 28 (diagbuf d.code) 0x07]

def probeFailedCalls (rc : Bancode) : List VgaCall :=
  [.fill 10 20 0x20 44 0x0F,
    .write 10 20 (cString (if mblCodeIsSoft rc then "No bootable OWFS volume."
      else "OWFS volume unusable.")) 0x0F,
    .fill 11 20 0x20 44 0x07,
    .write 11 20 (diagbuf rc) 0x07,
    .fill 12 20 0x20 44 0x07,
    .write 12 20 (cString "Press Esc to reboot.") 0x07]

def loadingCalls : List VgaCall := [.write 10 30 (cString "Loading kernel...") 0x0F]

def bootingCalls : List VgaCall := [.write 11 30 (cString "Booting...") 0x0F]

/-- What a run has drawn since it last cleared the screen, where it drew anything. -/
def BootRun.calls (run : BootRun) : Option (List VgaCall) :=
  match run.ending with
  | .probeFailed rc => some (probeFailedCalls rc)
  | .failed msg =>
    some (loadingCalls ++ failCalls msg (DiagRing.mblDiagLast run.state.machine.diag))
  | .handedOver => some (loadingCalls ++ bootingCalls)
  | .rebooted | .shutDown => none

def boxed (width : Nat) (text : List UInt8) (attr : UInt8) : Line :=
  ⟨20, width, attr, 20, text, attr⟩

def probeScreen (rc : Bancode) (r : Nat) : Option Line :=
  if r = 10 then
    some (boxed 44 (cString (if mblCodeIsSoft rc then "No bootable OWFS volume."
      else "OWFS volume unusable.")) 0x0F)
  else if r = 11 then some (boxed 44 (diagText rc) 0x07)
  else if r = 12 then some (boxed 44 (cString "Press Esc to reboot.") 0x07)
  else none

def failScreen (code : Option Bancode) (r : Nat) : Option Line :=
  if r = 10 then some (.bare 30 (cString "Loading kernel...") 0x0F)
  else if r = 12 then some (boxed 40 (cString "Kernel load failed!") 0x0F)
  else if r = 13 then
    code.map fun code => boxed 40 (cString "BANcode " ++ diagText code) 0x07
  else none

def bootingScreen (r : Nat) : Option Line :=
  if r = 10 then some (.bare 30 (cString "Loading kernel...") 0x0F)
  else if r = 11 then some (.bare 30 (cString "Booting...") 0x0F)
  else none

section Screens
variable {g : GopStatics} {width : Nat}

theorem boot_texts :
    (cString "Loading kernel...").takeWhile (· ≠ 0) = cString "Loading kernel..." ∧
    (cString "Booting...").takeWhile (· ≠ 0) = cString "Booting..." ∧
    (cString "Kernel load failed!").takeWhile (· ≠ 0) = cString "Kernel load failed!" ∧
    (cString "BANcode ").takeWhile (· ≠ 0) = cString "BANcode " := by
  decide +kernel

theorem probe_texts (rc : Bancode) :
    (cString (if mblCodeIsSoft rc then "No bootable OWFS volume."
      else "OWFS volume unusable.")).takeWhile (· ≠ 0) =
    cString (if mblCodeIsSoft rc then "No bootable OWFS volume." else "OWFS volume unusable.") := by
  cases mblCodeIsSoft rc <;> decide +kernel

theorem Draws.boxed {calls : List VgaCall} {lines : Nat → Option Line}
    (h : Draws g width calls lines) (row : UInt8) (hline : lines row.toNat = none) (n : UInt8)
    (str : List UInt8) (attr : UInt8) :
    Draws g width (calls ++ [.fill row 20 0x20 n attr, .write row 20 str attr])
      (Function.update lines row.toNat
        (some (ModularBootloader.boxed n.toNat (str.takeWhile (· ≠ 0)) attr))) := by
  have hfill := h.fill row 20 n attr (.inl hline)
  have hwritten := hfill.write (Function.update_self ..) rfl 20 str attr
  rw [Function.update_idem, List.append_assoc] at hwritten
  exact hwritten

theorem probeFailed_draws (rc : Bancode) :
    Draws g width (probeFailedCalls rc) (probeScreen rc) := by
  have hfault := (Draws.nil g width).boxed 10 rfl 44
    (cString (if mblCodeIsSoft rc then "No bootable OWFS volume." else "OWFS volume unusable."))
    0x0F
  have hcode := hfault.boxed 11 rfl 44 (diagbuf rc) 0x07
  have hhint := hcode.boxed 12 rfl 44 (cString "Press Esc to reboot.") 0x07
  apply hhint.congr
  intro r
  simp only [Function.update_apply, probe_texts, reboot_takeWhile, UInt8.reduceToNat, probeScreen]
  split_ifs <;> first | omega | rfl

theorem loading_draws :
    Draws g width loadingCalls
      (Function.update (fun _ => none) 10
        (some (.bare 30 (cString "Loading kernel...") 0x0F))) := by
  have hbare := (Draws.nil g width).bare 10 rfl 30 (cString "Loading kernel...") 0x0F
  rw [boot_texts.1] at hbare
  exact hbare

theorem booting_draws : Draws g width (loadingCalls ++ bootingCalls) bootingScreen := by
  have hloading : Draws g width loadingCalls _ := loading_draws
  have hbare := hloading.bare 11 rfl 30 (cString "Booting...") 0x0F
  apply hbare.congr
  intro r
  simp only [Function.update_apply, boot_texts.2.1, UInt8.reduceToNat, bootingScreen]
  split_ifs <;> first | omega | rfl

theorem fail_draws (d : Option MblDiag) :
    Draws g width (loadingCalls ++ failCalls "Kernel load failed!" d)
      (failScreen (d.map MblDiag.code)) := by
  have hloading : Draws g width loadingCalls _ := loading_draws
  have hmsg := hloading.boxed 12 rfl 40 (cString "Kernel load failed!") 0x0F
  cases d with
  | none =>
    rw [failCalls, List.append_nil]
    apply hmsg.congr
    intro r
    simp only [Function.update_apply, boot_texts.2.2.1, UInt8.reduceToNat, failScreen]
    split_ifs <;> first | omega | rfl
  | some d =>
    have hlabel := hmsg.boxed 13 rfl 40 (cString "BANcode ") 0x07
    rw [boot_texts.2.2.2] at hlabel
    have hcode := hlabel.extend (Function.update_self ..) 28 (by decide +kernel) rfl
      (diagbuf d.code)
    rw [Function.update_idem, List.append_assoc, List.append_assoc] at hcode
    rw [failCalls]
    apply hcode.congr
    intro r
    simp only [Function.update_apply, boot_texts.2.2.1, UInt8.reduceToNat, failScreen]
    split_ifs <;> first | omega | rfl

end Screens

/-- The recorder returns the code raised last, and no load has been reported. -/
structure Unloaded (s : Machine) : Prop where
  last : (DiagRing.mblDiagLast s.diag).map MblDiag.code = s.raises.head?
  fresh : mblComKernelLoadOk ∉ s.raises

section Raises
variable {io : Option BlockIo} {s t : Machine}

theorem Unloaded.boot (ram : Bytes) : Unloaded (.boot ram) where
  last := rfl
  fresh := by simp [Machine.boot]

theorem Unloaded.raise (h : Unloaded s) {code : Bancode} (hcode : code ≠ mblComKernelLoadOk) :
    Unloaded (s.raise code) where
  last := mblDiagLast_machine_raise code s
  fresh := by
    rw [Machine.raise_raises, List.mem_cons, not_or]
    exact ⟨hcode.symm, h.fresh⟩

theorem Unloaded.congr (h : Unloaded s) (hdiag : t.diag = s.diag) (hraises : t.raises = s.raises) :
    Unloaded t where
  last := by rw [hdiag, hraises, h.last]
  fresh := by rw [hraises]; exact h.fresh

theorem Unloaded.read (h : Unloaded s) (io : Option BlockIo) (block : UInt32) (target : Target) :
    Unloaded (diskReadBlock io block target s).2 := by
  rw [diskReadBlock_eq]
  split
  · exact h.congr rfl rfl
  · exact h.congr (by simp) (by simp)

theorem Unloaded.propagate (h : Unloaded s) : s.propagate ≠ mblComKernelLoadOk := by
  have hlast := h.last
  rw [Machine.propagate]
  cases hdiag : DiagRing.mblDiagLast s.diag with
  | none => decide
  | some d =>
    rw [hdiag] at hlast
    rintro hok
    exact h.fresh (hok ▸ List.mem_of_mem_head? hlast.symm)

theorem Unloaded.probe (h : Unloaded s) (io : Option BlockIo) (drive : UInt8) :
    Unloaded (owfsProbe io drive s).2 := by
  have hstart : Unloaded { s with gDrive := drive } := h.congr rfl rfl
  have hread := hstart.read io owfsSuperblockBlock .sb
  have hwarn : ∀ u, Unloaded u → Unloaded (owfsWarnVolumeCondition u) := by
    intro u hu
    have hif : ∀ (p : Prop) [Decidable p] (v : Machine) (code : Bancode), Unloaded v →
        code ≠ mblComKernelLoadOk → Unloaded (if p then v.raise code else v) := by
      intro p _ v code hv hcode
      split
      · exact hv.raise hcode
      · exact hv
    exact hif _ _ _ (hif _ _ _ (hif _ _ _ (hif _ _ _ hu (by decide)) (by decide)) (by decide))
      (by decide)
  rw [owfsProbe]
  split
  · exact hread.raise (by decide)
  · unfold checkSuperblock fault
    split_ifs
    · exact hread.raise (by decide)
    · exact hread.raise (by decide)
    · exact hread.raise (by decide)
    · exact hread.raise (by decide)
    · exact hread.raise (by decide)
    · exact hread.raise (by decide)
    · exact hwarn _ hread

theorem Unloaded.readInode (h : Unloaded s) (io : Option BlockIo) (num : UInt32) :
    Unloaded (owfsReadInode io num s).2 := by
  have hread := h.read io (inodeBlock s.gSb num) .blockBuf
  unfold owfsReadInode
  dsimp only
  split_ifs
  · exact h
  · exact hread.raise (by decide)
  · exact hread
  · exact hread.raise (by decide)
  · exact hread

theorem Unloaded.blockmapGet (h : Unloaded s) (io : Option BlockIo) (ino : Bytes) (idx : UInt32) :
    Unloaded (owfsBlockmapGet io ino idx s).2 := by
  have hread := h.read io (Inode.indirectBlock ino) (.linear mblFsBuf)
  unfold owfsBlockmapGet
  dsimp only
  split_ifs
  · exact h.raise (by decide)
  · exact h.raise (by decide)
  · exact h
  · exact h.raise (by decide)
  · exact hread.raise (by decide)
  · exact hread.raise (by decide)
  · exact hread

theorem Unloaded.scanSlots (h : Unloaded s) (max : Int) (slots : List Nat) (es : List MblEntry) :
    Unloaded (scanSlots max slots es s).machine := by
  induction slots generalizing es s with
  | nil => exact h
  | cons e rest ih =>
    rw [ModularBootloader.scanSlots]
    split_ifs
    · exact ih (h.raise (by decide)) es
    · exact h
    · exact ih h _
    · exact ih h es

theorem Unloaded.enumerateStep (io : Option BlockIo) (root : Bytes) (max : Int) {st : EnumState}
    (h : Unloaded st.machine) :
    (∀ r, enumerateStep io root max st = .inl r → Unloaded r.machine) ∧
      ∀ b, enumerateStep io root max st = .inr b → Unloaded b.machine := by
  have hmap := h.blockmapGet io root st.idx
  unfold ModularBootloader.enumerateStep
  generalize owfsBlockmapGet io root st.idx st.machine = r at hmap
  obtain ⟨res, u⟩ := r
  cases res with
  | error e => constructor <;> intro x hx <;> cases hx; exact hmap
  | ok bnum =>
    have hread := Unloaded.read hmap io bnum (.linear mblFsBuf)
    have hscan := hread.scanSlots max (List.range owfsEntriesPerBlock) st.entries
    dsimp only
    split_ifs
    · constructor <;> intro x hx <;> cases hx
      exact hread.raise (by decide)
    · constructor <;> intro x hx <;> cases hx
      exact hscan
    · constructor <;> intro x hx <;> cases hx
      exact hscan

theorem Unloaded.enumerate (h : Unloaded s) (io : Option BlockIo) (max : Int) :
    Unloaded (owfsEnumerate io max s).machine := by
  have hinode := h.readInode io owfsRootInode
  unfold owfsEnumerate
  generalize owfsReadInode io owfsRootInode s = r at hinode
  obtain ⟨res, u⟩ := r
  cases res with
  | error e => exact hinode
  | ok root =>
    dsimp only
    split_ifs
    · exact Unloaded.raise hinode (by decide)
    apply BoundedLoop.run_invariant (I := fun st : EnumState => Unloaded st.machine)
      (Q := fun r : Listing => Unloaded r.machine)
    · exact hinode
    · exact fun a b ha hb => (ha.enumerateStep io root max).2 b hb
    · exact fun a r ha hr => (ha.enumerateStep io root max).1 r hr
    · intro a ha
      rw [enumerateFinish]
      dsimp only
      split_ifs
      · exact ha.raise (by decide)
      · exact ha

structure LoadChecked (r : Loaded) : Prop where
  size : r.code = mblComKernelLoadOk → 16 ≤ r.size
  failed : r.code ≠ mblComKernelLoadOk → Unloaded r.machine ∧ r.machine.propagate = r.code

theorem Unloaded.checked_raise (h : Unloaded s) {code : Bancode} (size : UInt32)
    (hcode : code ≠ mblComKernelLoadOk) : LoadChecked ⟨code, size, s.raise code⟩ where
  size := fun hok => absurd hok hcode
  failed := fun _ => ⟨h.raise hcode, Machine.propagate_raise code s⟩

theorem Unloaded.checked_propagate (h : Unloaded s) (size : UInt32) :
    LoadChecked ⟨s.propagate, size, s⟩ where
  size := fun hok => absurd hok h.propagate
  failed := fun _ => ⟨h, rfl⟩

theorem Unloaded.loadStep (io : Option BlockIo) (ino : Bytes) (sizeOut : UInt32) {st : LoadState}
    (h : Unloaded st.machine) :
    (∀ r, loadStep io ino sizeOut st = .inl r → LoadChecked r) ∧
      ∀ b, loadStep io ino sizeOut st = .inr b → Unloaded b.machine := by
  have hmap := h.blockmapGet io ino st.idx
  unfold ModularBootloader.loadStep
  generalize owfsBlockmapGet io ino st.idx st.machine = r at hmap
  obtain ⟨res, u⟩ := r
  cases res with
  | error e =>
    constructor <;> intro x hx <;> cases hx
    exact Unloaded.checked_propagate hmap sizeOut
  | ok bnum =>
    have hread := Unloaded.read hmap io bnum (.linear mblFsBuf)
    dsimp only
    split_ifs
    · constructor <;> intro x hx <;> cases hx
      exact hread.checked_raise sizeOut (by decide)
    · constructor <;> intro x hx <;> cases hx
      exact hread.congr rfl rfl

theorem Unloaded.loads (h : Unloaded s) (io : Option BlockIo) (num dest sizeOut : UInt32) :
    LoadChecked (owfsLoadFile io num dest sizeOut s) := by
  have hinode := h.readInode io num
  unfold owfsLoadFile
  generalize owfsReadInode io num s = r at hinode
  obtain ⟨res, u⟩ := r
  cases res with
  | error e => exact Unloaded.checked_propagate hinode sizeOut
  | ok ino =>
    dsimp only
    split_ifs with hfile hsmall hlarge
    · exact Unloaded.checked_raise hinode sizeOut (by decide)
    · exact Unloaded.checked_raise hinode sizeOut (by decide)
    · exact Unloaded.checked_raise hinode sizeOut (by decide)
    apply BoundedLoop.run_invariant (I := fun st : LoadState => Unloaded st.machine)
    · exact hinode
    · exact fun a b ha hb => (ha.loadStep io ino sizeOut).2 b hb
    · exact fun a r ha hr => (ha.loadStep io ino sizeOut).1 r hr
    · intro a _
      constructor
      · exact fun _ => UInt32.not_lt.mp hsmall
      · exact fun hcode => absurd rfl hcode

end Raises

def BootRun.screen (run : BootRun) : Option (Nat → Option Line) :=
  match run.ending with
  | .probeFailed rc => some (probeScreen rc)
  | .failed _ => some (failScreen run.state.machine.raises.head?)
  | .handedOver => some bootingScreen
  | .rebooted | .shutDown => none

structure LoadRefused (run : BootRun) (msg : String) : Prop where
  msg : msg = "Kernel load failed!"
  loaded : ∃ inode code size, .loaded inode code size ∈ run.state.events ∧
    code ≠ mblComKernelLoadOk ∧ code = run.state.machine.raises.head?.getD mblBanLoadFailed

section Runs
variable {io : Option BlockIo} {inp : MenuInput} {fw : Firmware} {run : BootRun} {ram : Bytes}

theorem kmainLoad_refused {inode : UInt32} {t : BootState} (h : Unloaded t.machine) {msg : String}
    (hend : (kmainLoad io fw inode t).ending = .failed msg) :
    LoadRefused (kmainLoad io fw inode t) msg ∧
      Unloaded (kmainLoad io fw inode t).state.machine := by
  obtain ⟨hsize, hfailed⟩ := h.loads io inode mblKernelAddr 0
  rw [kmainLoad] at hend ⊢
  dsimp only at hend ⊢
  split_ifs at hend ⊢ with hcode hsmall
  · obtain ⟨hmachine, hpropagate⟩ := hfailed hcode
    have hlast := hmachine.last
    refine ⟨⟨(BootEnd.failed.inj hend).symm, _, _, _, List.mem_cons_self, hcode, ?_⟩, hmachine⟩
    rw [← hpropagate, Machine.propagate, ← hlast]
    cases DiagRing.mblDiagLast (owfsLoadFile io inode mblKernelAddr 0 t.machine).machine.diag <;>
      rfl
  · have henough := hsize (not_not.mp hcode)
    exact absurd hsmall (UInt32.not_lt.mpr henough)

theorem kmain_refused (h : Kmain io inp fw (.boot ram) run) {msg : String}
    (hend : run.ending = .failed msg) : LoadRefused run msg ∧ Unloaded run.state.machine := by
  cases h with
  | probeFailed hprobe hcode => cases hend
  | @menu rc t listing r hprobe hcode hlisting hmenu =>
    have hprobed : Unloaded t := by
      have hcold := (Unloaded.boot ram).probe io 0
      rw [hprobe] at hcold
      exact hcold
    have hlisted := hprobed.enumerate io mblMenuMax
    rw [hlisting] at hlisted
    rw [kmainSelected] at hend ⊢
    split_ifs at hend ⊢
    exact kmainLoad_refused hlisted hend

/-- From a cold start, what a run has drawn is on display: the failure screen
names the code the driver returned, and the only refusal is the driver's. -/
theorem kmain_displays (g : GopStatics) (width : Nat) (h : Kmain io inp fw (.boot ram) run) :
    (∀ calls lines, run.calls = some calls → run.screen = some lines →
      Displays g width calls lines) ∧
    ∀ msg, run.ending = .failed msg → LoadRefused run msg := by
  constructor
  · intro calls lines hcalls hlines
    rw [BootRun.calls] at hcalls
    rw [BootRun.screen] at hlines
    cases hend : run.ending with
    | probeFailed rc =>
      rw [hend] at hcalls hlines
      rw [← Option.some.inj hcalls, ← Option.some.inj hlines]
      exact (probeFailed_draws rc).displays
    | rebooted =>
      rw [hend] at hcalls
      cases hcalls
    | shutDown =>
      rw [hend] at hcalls
      cases hcalls
    | failed msg =>
      obtain ⟨hrefused, hmachine⟩ := kmain_refused h hend
      rw [hend, hrefused.msg] at hcalls
      rw [hend, ← hmachine.last] at hlines
      rw [← Option.some.inj hcalls, ← Option.some.inj hlines]
      exact (fail_draws _).displays
    | handedOver =>
      rw [hend] at hcalls hlines
      rw [← Option.some.inj hcalls, ← Option.some.inj hlines]
      exact booting_draws.displays
  · exact fun msg hend => (kmain_refused h hend).1

theorem kmain_boots_first {files : Mkfs.FileList} {d : Mkfs.VolumeState}
    (hlength : files.length = 1) (hshort : ∀ f ∈ files, f.1.length ≤ 178)
    (hformat : Mkfs.formatOwfs Mkfs.smallDisk 276 "MBL" files true volumeBase = .ok d) :
    ∃ run, Kmain (Mkfs.diskWith d.image) enterAtOnce willingFirmware (.boot fun _ => 0) run ∧
      BootsChosen willingFirmware files 0 run := by
  have hblank : Mkfs.BlankFrom Mkfs.smallDisk volumeBase (4096 * 276 + 4096 * files.length) := by
    rw [hlength]
    exact Mkfs.smallDisk_blank
  obtain ⟨hcode, hserves⟩ := formatOwfs_serves hblank (by decide) hshort hformat 0
    (.boot fun _ => 0)
  obtain ⟨r, hreturns, hzero⟩ := enterAtOnce_returns
  have hcount : ((min files.length mblMenuMax : Nat) : Int) = 1 := by
    rw [hlength]
    decide
  obtain ⟨run, hrun, hboots⟩ := (hserves.runs hcode enterAtOnce willingFirmware).2 r
    (hcount.symm ▸ hreturns)
  exact ⟨run, hrun, hzero ▸ hboots⟩

def shortFile : Mkfs.FileList := [([0x6B], [0x90, 0x90, 0xF4])]

theorem threeEndings_display :
    (∃ run, Kmain none enterAtOnce willingFirmware (.boot fun _ => 0) run ∧
      run.screen = some (probeScreen mblBanIoError) ∧
      Displays vga640x480.statics 80 (probeFailedCalls mblBanIoError)
        (probeScreen mblBanIoError)) ∧
    (∃ d run calls,
      Mkfs.formatOwfs Mkfs.smallDisk 276 "MBL" shortFile true volumeBase = .ok d ∧
      Kmain (Mkfs.diskWith d.image) enterAtOnce willingFirmware (.boot fun _ => 0) run ∧
      run.calls = some calls ∧
      Displays vga640x480.statics 80 calls (failScreen run.state.machine.raises.head?) ∧
      LoadRefused run "Kernel load failed!") ∧
    ∃ d run,
      Mkfs.formatOwfs Mkfs.smallDisk 276 "MBL" Mkfs.smallKernel true volumeBase = .ok d ∧
      Kmain (Mkfs.diskWith d.image) enterAtOnce willingFirmware (.boot fun _ => 0) run ∧
      run.ending = .handedOver ∧
      Displays vga640x480.statics 80 (loadingCalls ++ bootingCalls) bootingScreen := by
  refine ⟨?_, ?_, ?_⟩
  · have hrun : Kmain none enterAtOnce willingFirmware (.boot fun _ => 0)
        ⟨.probeFailed mblBanIoError, _⟩ := .probeFailed rfl (by decide)
    exact ⟨_, hrun, rfl, (kmain_displays vga640x480.statics 80 hrun).1 _ _ rfl rfl⟩
  · have hname : ∀ f ∈ shortFile, f.1.length ≤ 178 := by decide
    have hblank : Mkfs.BlankFrom Mkfs.smallDisk volumeBase
        (4096 * 276 + 4096 * shortFile.length) := Mkfs.smallDisk_blank
    obtain ⟨d, hd⟩ := Mkfs.formatOwfs_fits "MBL" hblank hname (by decide) (by decide) (by decide)
      (by decide)
    obtain ⟨run, hrun, hboots⟩ := kmain_boots_first rfl hname hd
    have hend := hboots.refused 0 _ (by decide) rfl rfl (by decide)
    have hdisplays := kmain_displays vga640x480.statics 80 hrun
    refine ⟨d, run, _, hd, hrun, by rw [BootRun.calls, hend], ?_, hdisplays.2 _ hend⟩
    exact hdisplays.1 _ _ (by rw [BootRun.calls, hend]) (by rw [BootRun.screen, hend])
  · have hname : ∀ f ∈ Mkfs.smallKernel, f.1.length ≤ 178 := by decide
    obtain ⟨d, hd⟩ := Mkfs.smallDisk_formats
    obtain ⟨run, hrun, hboots⟩ := kmain_boots_first rfl hname hd
    have hend := (hboots.booted 0 _ (by decide) rfl rfl (by decide)).1
    refine ⟨d, run, hd, hrun, hend, ?_⟩
    exact (kmain_displays vga640x480.statics 80 hrun).1 _ _ (by rw [BootRun.calls, hend])
      (by rw [BootRun.screen, hend])

end Runs

end ModularBootloader
