import ModularBootloader.EfiEntry

/-!
# What is chosen is what is booted

A volume formatted with any files, under `kmain`: the menu gets the first
entries of the catalog in the order the files were given, and the kernel is
called with the bytes of the file the menu returned, or not at all where that
file is too short.
-/

namespace ModularBootloader.Mkfs.Volume
open ByteStore BlockStore

theorem OnMedium.refuses {vol : Volume} {content : Bytes} {D : Store} {k num start : Nat}
    {s : Machine} {roots : List Nat} {name data : Bytearray} (h : OnMedium vol content D k)
    (hm : Mounted content s) (hfile : FileAt vol D k roots num start name data)
    (hnum : num < 4096) (hshort : data.length < 16) (dest sizeOut : UInt32) :
    (owfsLoadFile (some (diskOf content)) (UInt32.ofNat num) dest sizeOut s).code ≠
      mblComKernelLoadOk := by
  obtain ⟨hacc, hino⟩ := h.inode hm hnum hfile.inode (show UInt8.ofNat entryFile ≠ 0 by decide)
  have hsize := hino.size
  dsimp only [fileFields] at hsize
  rw [Nat.mod_eq_of_lt (by omega)] at hsize
  refine (owfsLoadFile_rejected ?_).2 hacc
  intro hload
  have hmin := hload.min
  omega

end ModularBootloader.Mkfs.Volume

namespace ModularBootloader
open ByteStore

structure ServesFiles (io : Option BlockIo) (files : Mkfs.FileList) (s : Machine) : Prop where
  entries : (owfsEnumerate io mblMenuMax s).entries =
    (Mkfs.Volume.entriesOf files).take mblMenuMax
  result : (owfsEnumerate io mblMenuMax s).result = (min files.length mblMenuMax : Nat)
  loads : ∀ i f, files[i]? = some f → 16 ≤ f.2.length →
    Mkfs.Loads io (UInt32.ofNat (i + 1)) 0 (owfsEnumerate io mblMenuMax s).machine f.2
  refuses : ∀ i f, files[i]? = some f → f.2.length < 16 →
    (owfsLoadFile io (UInt32.ofNat (i + 1)) mblKernelAddr 0
      (owfsEnumerate io mblMenuMax s).machine).code ≠ mblComKernelLoadOk

section Format
variable {image : Mkfs.Bytearray} {totalBlocks : Nat} {label : String} {files : Mkfs.FileList}
variable {d : Mkfs.VolumeState}

theorem formatOwfs_serves
    (hblank : Mkfs.BlankFrom image volumeBase (4096 * totalBlocks + 4096 * files.length))
    (hwidth : totalBlocks < 2 ^ 32) (hnames : ∀ f ∈ files, f.1.length ≤ 178)
    (hformat : Mkfs.formatOwfs image totalBlocks label files true volumeBase = .ok d)
    (drive : UInt8) (s : Machine) :
    (owfsProbe (Mkfs.diskWith d.image) drive s).1 = mblComVolumeProbeOk ∧
      ServesFiles (Mkfs.diskWith d.image) files (owfsProbe (Mkfs.diskWith d.image) drive s).2 := by
  obtain ⟨D, hmedium, hvol⟩ := Mkfs.formatOwfs_onMedium hblank hwidth hnames hformat
  obtain ⟨hprobe, hmounted⟩ := owfsProbe_mounts drive s hmedium.accepted
  have hgSb : (owfsEnumerate (Mkfs.diskWith d.image) mblMenuMax
      (owfsProbe (Mkfs.diskWith d.image) drive s).2).machine.gSb =
      (owfsProbe (Mkfs.diskWith d.image) drive s).2.gSb := owfsEnumerate_gSb mblMenuMax
  have hlater := hmounted.of_gSb hgSb
  have hcount := hvol.catalog.count_lt
  have hlisting : (owfsEnumerate (Mkfs.diskWith d.image) mblMenuMax
        (owfsProbe (Mkfs.diskWith d.image) drive s).2).entries =
        (Mkfs.Volume.entriesOf files).take mblMenuMax ∧
      (owfsEnumerate (Mkfs.diskWith d.image) mblMenuMax
        (owfsProbe (Mkfs.diskWith d.image) drive s).2).result =
        (min files.length mblMenuMax : Nat) := by
    rcases Nat.lt_or_ge mblMenuMax files.length with hmany | hfew
    · rw [Nat.min_eq_right hmany.le]
      exact hmedium.enumerates_first hmounted hvol hnames hmany (by decide)
    · have hmax : mblMenuMax ≤ 160 := by decide
      rw [Nat.min_eq_left hfew, List.take_of_length_le (by
        rw [Mkfs.Volume.entriesOf_length]
        exact hfew)]
      exact hmedium.enumerates_all hmounted hvol hnames (by omega) hfew
  refine ⟨hprobe, hlisting.1, hlisting.2, ?_, ?_⟩
  · intro i f hf hmin
    have hi := hvol.stored.index_lt hf
    obtain ⟨start, hfile⟩ := hvol.stored.file i f hf
    obtain ⟨hcode, hsize, hbytes⟩ := hmedium.loads hlater hfile (show i + 1 < 4096 by omega) hmin 0
    exact ⟨hcode, hsize, hbytes⟩
  · intro i f hf hshort
    have hi := hvol.stored.index_lt hf
    obtain ⟨start, hfile⟩ := hvol.stored.file i f hf
    exact hmedium.refuses hlater hfile (by omega) hshort mblKernelAddr 0

end Format

/-- How a run ends by what the menu returned. A file of fewer than sixteen bytes
is no kernel. -/
structure BootsChosen (fw : Firmware) (files : Mkfs.FileList) (result : Int) (run : BootRun) :
    Prop where
  listed : .listed (min files.length mblMenuMax : Nat)
    ((Mkfs.Volume.entriesOf files).take mblMenuMax) ∈ run.state.events
  chosen : .chosen result ∈ run.state.events
  shutDown : run.ending = .shutDown ↔ result = -2
  rebooted : run.ending = .rebooted ↔
    result ≠ -2 ∧ (result < 0 ∨ (min files.length mblMenuMax : Nat) ≤ result)
  booted : ∀ i f, i < mblMenuMax → files[i]? = some f → result = (i : Int) →
    16 ≤ f.2.length → run.ending = .handedOver ∧ KernelInPlace fw f.2 run.state.machine.ram
  refused : ∀ i f, i < mblMenuMax → files[i]? = some f → result = (i : Int) →
    f.2.length < 16 → run.ending = .failed "Kernel load failed!"

section Runs
variable {io : Option BlockIo} {inp : MenuInput} {fw : Firmware} {files : Mkfs.FileList}
variable {s : Machine} {t : BootState} {run : BootRun} {inode : UInt32}

theorem kmainLoad_fails (fw : Firmware)
    (h : (owfsLoadFile io inode mblKernelAddr 0 t.machine).code ≠ mblComKernelLoadOk) :
    (kmainLoad io fw inode t).ending = .failed "Kernel load failed!" := by
  rw [kmainLoad]
  dsimp only
  rw [if_pos h]

theorem kmainLoad_keeps {e : BootEvent} (fw : Firmware) (h : e ∈ t.events) :
    e ∈ (kmainLoad io fw inode t).state.events := by
  have hloaded := List.mem_cons_of_mem (.loaded inode
    (owfsLoadFile io inode mblKernelAddr 0 t.machine).code
    (owfsLoadFile io inode mblKernelAddr 0 t.machine).size) h
  rw [kmainLoad]
  dsimp only
  split_ifs
  · exact hloaded
  · exact hloaded
  · generalize hu : BootState.mk _ _ = u
    obtain ⟨later, hlater⟩ := handoff_events fw u
    rw [hlater, ← hu]
    exact List.mem_append_right later hloaded

theorem kmainLoad_ending (io : Option BlockIo) (fw : Firmware) (inode : UInt32) (t : BootState) :
    (kmainLoad io fw inode t).ending ≠ .shutDown ∧
      (kmainLoad io fw inode t).ending ≠ .rebooted := by
  rw [kmainLoad]
  dsimp only
  split_ifs <;> simp

theorem entryInode_of {sel : Int} {i : Nat} {f : Mkfs.Bytearray × Mkfs.Bytearray}
    (hi : i < mblMenuMax) (hf : files[i]? = some f) (hsel : sel = (i : Int)) :
    entryInode ((Mkfs.Volume.entriesOf files).take mblMenuMax) sel = UInt32.ofNat (i + 1) := by
  have hget : ((Mkfs.Volume.entriesOf files).take mblMenuMax)[i]? =
      some (Mkfs.Volume.entryOf i f) := by
    rw [List.getElem?_take_of_lt hi, Mkfs.Volume.entriesOf, List.getElem?_mapIdx, hf]
    rfl
  rw [entryInode, hsel, Int.toNat_natCast, hget]
  rfl

theorem ServesFiles.selected {m : Machine} {sel : Int} (h : ServesFiles io files m) (fw : Firmware)
    (hmachine : t.machine = (owfsEnumerate io mblMenuMax m).machine)
    (hlisted : .listed (min files.length mblMenuMax : Nat)
      ((Mkfs.Volume.entriesOf files).take mblMenuMax) ∈ t.events) :
    BootsChosen fw files sel
      (kmainSelected io fw ((Mkfs.Volume.entriesOf files).take mblMenuMax)
        (min files.length mblMenuMax : Nat) sel t) := by
  have hmax : ∀ i f, files[i]? = some f → i < mblMenuMax →
      i < min files.length mblMenuMax := by
    intro i f hf hi
    obtain ⟨hlt, -⟩ := List.getElem?_eq_some_iff.mp hf
    exact Nat.lt_min.mpr ⟨hlt, hi⟩
  have hkept := List.mem_cons_of_mem (.chosen sel) hlisted
  have hchosen : BootEvent.chosen sel ∈ .chosen sel :: t.events := List.mem_cons_self
  rw [kmainSelected]
  split_ifs with hreboot hdown hrange
  · refine ⟨hkept, hchosen, by simp [hreboot], by simp [hreboot], ?_, ?_⟩ <;> omega
  · refine ⟨hkept, hchosen, by simp [hdown], by simp [hdown], ?_, ?_⟩ <;> omega
  · refine ⟨hkept, hchosen, by simp [hdown], ?_, ?_, ?_⟩
    · simp only [true_iff]
      omega
    · intro i f hi hf hsel
      have := hmax i f hf hi
      omega
    · intro i f hi hf hsel
      have := hmax i f hf hi
      omega
  · obtain ⟨hnotDown, hnotReboot⟩ := kmainLoad_ending io fw
      (entryInode ((Mkfs.Volume.entriesOf files).take mblMenuMax) sel) (t.record (.chosen sel))
    refine ⟨kmainLoad_keeps fw hkept, kmainLoad_keeps fw hchosen, ?_, ?_, ?_, ?_⟩
    · simp [hnotDown, hdown]
    · simp only [hnotReboot, false_iff]
      omega
    · intro i f hi hf hsel hmin
      have hload := h.loads i f hf hmin
      rw [← hmachine] at hload
      rw [entryInode_of hi hf hsel]
      exact kmainLoad_places (t := t.record (.chosen sel)) fw hload hmin
    · intro i f hi hf hsel hshort
      have hrefused := h.refuses i f hf hshort
      rw [← hmachine] at hrefused
      rw [entryInode_of hi hf hsel]
      exact kmainLoad_fails (t := t.record (.chosen sel)) fw hrefused

theorem ServesFiles.runs (h : ServesFiles io files (owfsProbe io 0 s).2)
    (hcode : (owfsProbe io 0 s).1 = mblComVolumeProbeOk) (inp : MenuInput) (fw : Firmware) :
    (∀ run, Kmain io inp fw s run →
      ∃ r, MenuReturns inp (min files.length mblMenuMax : Nat) 10 r ∧
        BootsChosen fw files r.result run) ∧
    (∀ r, MenuReturns inp (min files.length mblMenuMax : Nat) 10 r →
      ∃ run, Kmain io inp fw s run ∧ BootsChosen fw files r.result run) := by
  generalize hprobe : owfsProbe io 0 s = p at *
  generalize hlisting : owfsEnumerate io mblMenuMax p.2 = listing
  have hentries := h.entries
  have hresult := h.result
  rw [hlisting] at hentries hresult
  have hcount : listedCount listing = (min files.length mblMenuMax : Nat) := by
    rw [listedCount, hresult, if_neg (by omega)]
  have hsuccess : mblCodeIsSuccess mblComVolumeProbeOk = true := by decide
  constructor
  · intro run hrun
    cases hrun with
    | @probeFailed rc t hprobe' hfailed =>
      obtain rfl : p = (rc, t) := hprobe.symm.trans hprobe'
      obtain rfl : rc = mblComVolumeProbeOk := hcode
      rw [hsuccess] at hfailed
      cases hfailed
    | @menu rc t listing' r hprobe' _ hlisting' hmenu =>
      obtain rfl : p = (rc, t) := hprobe.symm.trans hprobe'
      obtain rfl : listing = listing' := hlisting.symm.trans hlisting'
      rw [hcount] at hmenu ⊢
      rw [hentries]
      exact ⟨r, hmenu, h.selected fw (by rw [hlisting]) List.mem_cons_self⟩
  · intro r hmenu
    rw [← hcount] at hmenu
    refine ⟨_, .menu hprobe (by rw [hcode, hsuccess]) hlisting hmenu, ?_⟩
    rw [hcount, hentries]
    exact h.selected fw (by rw [hlisting]) List.mem_cons_self

theorem ServesFiles.ends_iff (h : ServesFiles io files (owfsProbe io 0 s).2)
    (hcode : (owfsProbe io 0 s).1 = mblComVolumeProbeOk) (inp : MenuInput) (fw : Firmware) :
    (∃ run, Kmain io inp fw s run) ↔
      ∃ r, MenuReturns inp (min files.length mblMenuMax : Nat) 10 r := by
  obtain ⟨hends, hmenus⟩ := h.runs hcode inp fw
  constructor
  · rintro ⟨run, hrun⟩
    obtain ⟨r, hreturns, -⟩ := hends run hrun
    exact ⟨r, hreturns⟩
  · rintro ⟨r, hreturns⟩
    obtain ⟨run, hrun, -⟩ := hmenus r hreturns
    exact ⟨run, hrun⟩

/-- Every run on a formatted volume ends as the menu says, and a menu that
returns leads to a run. -/
theorem kmain_bootsChosen {image : Mkfs.Bytearray} {totalBlocks : Nat} {label : String}
    {d : Mkfs.VolumeState}
    (hblank : Mkfs.BlankFrom image volumeBase (4096 * totalBlocks + 4096 * files.length))
    (hwidth : totalBlocks < 2 ^ 32) (hnames : ∀ f ∈ files, f.1.length ≤ 178)
    (hformat : Mkfs.formatOwfs image totalBlocks label files true volumeBase = .ok d)
    (inp : MenuInput) (fw : Firmware) (s : Machine) :
    (∀ run, Kmain (Mkfs.diskWith d.image) inp fw s run →
      ∃ r, MenuReturns inp (min files.length mblMenuMax : Nat) 10 r ∧
        BootsChosen fw files r.result run) ∧
    (∀ r, MenuReturns inp (min files.length mblMenuMax : Nat) 10 r →
      ∃ run, Kmain (Mkfs.diskWith d.image) inp fw s run ∧ BootsChosen fw files r.result run) := by
  obtain ⟨hcode, hserves⟩ := formatOwfs_serves hblank hwidth hnames hformat 0 s
  exact hserves.runs hcode inp fw

theorem smallKernel_bootsChosen : ∃ d,
    Mkfs.formatOwfs Mkfs.smallDisk 276 "MBL" Mkfs.smallKernel true volumeBase = .ok d ∧
    ∃ r run, Kmain (Mkfs.diskWith d.image) enterAtOnce willingFirmware (.boot fun _ => 0) run ∧
      r = 0 ∧ BootsChosen willingFirmware Mkfs.smallKernel r run := by
  obtain ⟨d, hd⟩ := Mkfs.smallDisk_formats
  obtain ⟨-, hexists⟩ := kmain_bootsChosen Mkfs.smallDisk_blank (by decide)
    (fun f hf => (Mkfs.smallKernel_plain f hf).short.trans (by omega)) hd enterAtOnce
    willingFirmware (.boot fun _ => 0)
  obtain ⟨r, hreturns, hzero⟩ := enterAtOnce_returns
  obtain ⟨run, hrun, hboots⟩ := hexists r hreturns
  exact ⟨d, hd, r.result, run, hrun, hzero, hboots⟩

end Runs

end ModularBootloader
