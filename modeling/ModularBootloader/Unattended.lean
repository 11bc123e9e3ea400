import ModularBootloader.BootChoice
import ModularBootloader.Kbd

/-!
# How long a boot waits

The menu loop has no bound of its own. Whether it is ever left is decided by the
keys it polls and the seconds it counts, and with it whether a boot from a
formatted volume comes to an end. Left alone, such a boot takes the first file;
where there is none it waits for a key, and for a clock that ticks.
-/

namespace ModularBootloader
open ByteStore

section Menu
variable {inp : MenuInput} {count timeoutSecs key : Int} {k : Nat} {s t : MenuState}

theorem menuHandleKey_leaves (h : ¬ Quiet key) (count sel top : Int) :
    (menuHandleKey key count sel top).action = 1 ∨
      (menuHandleKey key count sel top).action = 2 ∨
      (menuHandleKey key count sel top).action = 3 := by
  simp only [Quiet, not_and_or, not_not] at h
  rcases h with rfl | rfl | rfl | rfl
  · exact .inl rfl
  · exact .inr (.inl rfl)
  · exact .inr (.inl rfl)
  · exact .inr (.inr rfl)

theorem menuRound_quiet (hs : Ticking inp.seconds timeoutSecs k s)
    (h : menuRound inp count timeoutSecs s = .inr t) : Quiet (inp.key k) := by
  have hpolls := (menuRedraw_ticking count hs).polls
  by_contra hleaves
  have haction := menuHandleKey_leaves hleaves count (menuRedraw count s).sel
    (menuRedraw count s).top
  simp only [menuRound, hpolls] at h
  split_ifs at h with hkey
  · omega
  · rw [not_not] at hkey
    rw [hkey] at hleaves
    exact hleaves (by unfold Quiet; decide)

variable (hseconds : ∀ k, (inp.seconds k).toNat < 60) (hcount : 1 ≤ count)
variable (hpos : 0 < timeoutSecs) (hint : timeoutSecs < 2 ^ 31)
include hseconds hcount hpos hint

/-- The menu is left exactly where a key that leaves is polled some time, or
where the clock is seen to go far enough. -/
theorem menu_returns_iff : (∃ r, MenuReturns inp count timeoutSecs r) ↔
    (∃ n, ¬ Quiet (inp.key n)) ∨ ∃ k, timeoutSecs ≤ counted inp.seconds k := by
  constructor
  · rintro ⟨r, hr⟩
    by_contra hnever
    simp only [not_or, not_exists, not_not, not_le] at hnever
    obtain ⟨hkeys, hclock⟩ := hnever
    have hout := (quiet_ranOut hseconds hcount hpos hint hkeys hr).1.out
    exact absurd (hclock r.state.polls) (not_lt.mpr hout)
  · intro hends
    by_contra hnever
    have hreaches := BoundedLoop.reaches_of_not_returns fun r hr => hnever ⟨r, hr⟩
    rcases hends with ⟨n, hkey⟩ | ⟨k, hclock⟩
    · obtain ⟨u, hu⟩ := hreaches (n + 1)
      obtain ⟨a, b, ha, hstep⟩ := hu.earlier (Nat.lt_succ_self n)
      rw [menuStep_some hcount] at hstep
      exact hkey (menuRound_quiet (reaches_ticking hseconds hcount hpos hint ha) hstep)
    · obtain ⟨u, hu⟩ := hreaches k
      exact absurd (reaches_ticking hseconds hcount hpos hint hu).runs (not_lt.mpr hclock)

end Menu

section Boot
variable {image : Mkfs.Bytearray} {totalBlocks : Nat} {label : String} {files : Mkfs.FileList}
variable {d : Mkfs.VolumeState} {inp : MenuInput}

/-- A boot from a formatted volume comes to an end exactly if somebody leaves the menu or ten
seconds are counted, and without anybody it is the first file that is booted. -/
theorem kmain_unattended
    (hblank : Mkfs.BlankFrom image volumeBase (4096 * totalBlocks + 4096 * files.length))
    (hwidth : totalBlocks < 2 ^ 32) (hnames : ∀ f ∈ files, f.1.length ≤ 178) (hfiles : files ≠ [])
    (hformat : Mkfs.formatOwfs image totalBlocks label files true volumeBase = .ok d)
    (hseconds : ∀ k, (inp.seconds k).toNat < 60) (fw : Firmware) (s : Machine) :
    ((∃ run, Kmain (Mkfs.diskWith d.image) inp fw s run) ↔
      (∃ n, ¬ Quiet (inp.key n)) ∨ ∃ k, 10 ≤ counted inp.seconds k) ∧
    ((∀ n, Quiet (inp.key n)) → ∀ run, Kmain (Mkfs.diskWith d.image) inp fw s run →
      BootsChosen fw files 0 run) := by
  obtain ⟨hcode, hserves⟩ := formatOwfs_serves hblank hwidth hnames hformat 0 s
  obtain ⟨hends, -⟩ := hserves.runs hcode inp fw
  have hcount : (1 : Int) ≤ (min files.length mblMenuMax : Nat) := by
    have hlen := List.length_pos_iff.mpr hfiles
    have hmax : mblMenuMax = 32 := rfl
    omega
  constructor
  · rw [← menu_returns_iff hseconds hcount (by decide) (by decide)]
    exact hserves.ends_iff hcode inp fw
  · intro hkeys run hrun
    obtain ⟨r, hreturns, hboots⟩ := hends run hrun
    have hout := (quiet_ranOut hseconds hcount (by decide) (by decide) hkeys hreturns).1
    rw [hout.result] at hboots
    exact hboots

def nobody : MenuInput := ⟨fun _ => mblKeyNone, fun n => UInt8.ofNat (n % 60), true⟩

theorem twentyFiles_unattended : ∃ d run,
    Mkfs.formatOwfs Mkfs.twentyDisk 21000 "MBL" Mkfs.twentyFiles true volumeBase = .ok d ∧
    Kmain (Mkfs.diskWith d.image) nobody willingFirmware (.boot fun _ => 0) run ∧
    BootsChosen willingFirmware Mkfs.twentyFiles 0 run := by
  obtain ⟨d, hd⟩ := Mkfs.twentyDisk_formats
  have hseconds : ∀ k, (nobody.seconds k).toNat < 60 := by
    intro k
    show (UInt8.ofNat (k % 60)).toNat < 60
    rw [UInt8.toNat_ofNat']
    omega
  obtain ⟨hends, hfirst⟩ := kmain_unattended Mkfs.twentyDisk_blank (by decide)
    (fun f hf => (Mkfs.twentyFiles_plain f hf).short.trans (by omega)) (by decide) hd hseconds
    willingFirmware (.boot fun _ => 0)
  obtain ⟨run, hrun⟩ := hends.mpr (.inr ⟨10, by decide⟩)
  have hquiet : Quiet mblKeyNone := by
    unfold Quiet
    decide
  exact ⟨d, run, hd, hrun, hfirst (fun _ => hquiet) run hrun⟩

/-- With no file to list, a boot ends in a reboot, and only if the clock ticks once for each poll
before the key. -/
theorem kmain_noFiles {gConIn : TextInput} {k : Nat}
    (hblank : Mkfs.BlankFrom image volumeBase (4096 * totalBlocks)) (hwidth : totalBlocks < 2 ^ 32)
    (hformat : Mkfs.formatOwfs image totalBlocks label [] true volumeBase = .ok d)
    (hbefore : ∀ i < k, kbdPoll gConIn i = mblKeyNone)
    (hkey : kbdPoll gConIn k = mblKeyEsc ∨ kbdPoll gConIn k = mblKeyReboot)
    (gRT : TimeService) (fw : Firmware) (s : Machine) :
    ((∃ run, Kmain (Mkfs.diskWith d.image) (kbdInput gConIn gRT) fw s run) ↔
      gRT = none ∨ Ticks (efiGetSeconds gRT) k 1) ∧
    ∀ run, Kmain (Mkfs.diskWith d.image) (kbdInput gConIn gRT) fw s run →
      run.ending = .rebooted := by
  have hnames : ∀ f ∈ ([] : Mkfs.FileList), f.1.length ≤ 178 := List.forall_mem_nil _
  obtain ⟨hcode, hserves⟩ := formatOwfs_serves hblank hwidth hnames hformat 0 s
  obtain ⟨hends, -⟩ := hserves.runs hcode (kbdInput gConIn gRT) fw
  have hcount : ((min ([] : Mkfs.FileList).length mblMenuMax : Nat) : Int) ≤ 0 := by decide
  constructor
  · rw [← noEntries_returns_iff hcount 10 hbefore hkey]
    exact hserves.ends_iff hcode (kbdInput gConIn gRT) fw
  · intro run hrun
    obtain ⟨r, hreturns, hboots⟩ := hends run hrun
    have hresult := ((menu_empty (kbdInput gConIn gRT) 10 hcount).2 r hreturns).1
    refine hboots.rebooted.mpr ⟨?_, .inl ?_⟩ <;> omega

def escapeKey : TextInput := some fun i => if i < 2 then none else some ⟨0, 0x1B⟩

def risingClock : TimeService := some fun n => some fun _ => UInt8.ofNat n

theorem escapeKey_reboots : ∃ d run,
    Mkfs.formatOwfs Mkfs.smallDisk 276 "MBL" [] true volumeBase = .ok d ∧
    Kmain (Mkfs.diskWith d.image) (kbdInput escapeKey risingClock) willingFirmware
      (.boot fun _ => 0) run ∧
    run.ending = .rebooted := by
  have hblank : Mkfs.BlankFrom Mkfs.smallDisk volumeBase (4096 * 276) :=
    Mkfs.blankFrom_replicate (by decide)
  obtain ⟨d, hd⟩ := @Mkfs.formatOwfs_fits _ 276 [] "MBL" hblank (by simp) (by decide) (by decide)
    (by simp) (by decide)
  have hbefore : ∀ i < 2, kbdPoll escapeKey i = mblKeyNone := by decide
  have hescape : kbdPoll escapeKey 2 = mblKeyEsc := by decide
  obtain ⟨hends, hreboots⟩ := kmain_noFiles hblank (by decide) hd hbefore (.inl hescape)
    risingClock willingFirmware (.boot fun _ => 0)
  obtain ⟨run, hrun⟩ := hends.mpr (.inr ⟨0, fun i hi => absurd hi (Nat.not_lt_zero i), by decide, 0,
    fun i hi => absurd hi (Nat.not_lt_zero i), by decide, trivial⟩)
  exact ⟨d, run, hd, hrun, hreboots run hrun⟩

end Boot

end ModularBootloader
