import ModularBootloader.Kmain
import ModularBootloader.Lib.Relay

/-!
# Kernel mode switching

A mode is requested of the controller, handed over in the boot configuration and
committed there by the kernel that boots next.
-/

namespace ModularBootloader
open ByteStore

structure SucsKernelBootConfig where
  activeMode : UInt32
  pendingMode : UInt32
  rebootRequired : Bool
  modeChangeCount : UInt32
  deriving DecidableEq

inductive SucsSwitchStatus
  | success
  | errInvalidMode
  | errAlreadyActive
  | rebootRequired
  deriving DecidableEq

def gKernelBootCfg : SucsKernelBootConfig := ⟨sucsModeBase, sucsModeBase, false, 0⟩

def initialModeOf (initialMode : UInt32) : UInt32 :=
  if initialMode ≠ sucsModeBase ∧ initialMode ≠ sucsModeExtended then sucsModeBase
  else initialMode

namespace SucsKernelBootConfig

def initBootConfig (initialMode : UInt32) : SucsKernelBootConfig where
  activeMode := initialModeOf initialMode
  pendingMode := initialModeOf initialMode
  rebootRequired := false
  modeChangeCount := 0

def requestModeSwitch (newMode : UInt32) (cfg : SucsKernelBootConfig) :
    SucsSwitchStatus × SucsKernelBootConfig :=
  if newMode ≠ sucsModeBase ∧ newMode ≠ sucsModeExtended then (.errInvalidMode, cfg)
  else if newMode = cfg.activeMode ∧ cfg.rebootRequired = false then (.errAlreadyActive, cfg)
  else (.rebootRequired, { cfg with pendingMode := newMode, rebootRequired := true })

def commitModeOnBoot (target : SucsKernelBootConfig) : Bool × SucsKernelBootConfig :=
  if target.rebootRequired = true ∧ target.pendingMode ≠ target.activeMode then
    (true, { target with
      activeMode := target.pendingMode
      rebootRequired := false
      modeChangeCount := target.modeChangeCount + 1 })
  else (false, { target with rebootRequired := false })

def load (ram : Bytes) (off : Nat) : SucsKernelBootConfig where
  activeMode := load32 ram off
  pendingMode := load32 ram (off + 4)
  rebootRequired := decide (ram (off + 8) ≠ 0)
  modeChangeCount := load32 ram (off + 12)

theorem load_init (target : Nat) (initialMode : UInt32) (ram : Bytes) :
    load (sucsInitBootConfig target initialMode ram) target = initBootConfig initialMode := by
  have hflag : sucsInitBootConfig target initialMode ram (target + 8) = 0 := by
    rw [sucsInitBootConfig, store32_outside (by omega), Function.update_self]
  rw [load, hflag, sucsInitBootConfig, load32_store32, load32_store32_other (by omega),
    load32_store32_other (by omega), load32_update_other (by omega),
    load32_update_other (by omega), load32_store32_other (by omega), load32_store32,
    load32_store32]
  rfl

end SucsKernelBootConfig

theorem publishBootConfig_block (size : UInt32) (ram : Bytes) :
    SucsKernelBootConfig.load (publishBootConfig size ram) (mblBootconfig.toNat + 12) =
      .initBootConfig sucsModeBase :=
  SucsKernelBootConfig.load_init _ _ _

structure SucsBlocks where
  controller : SucsKernelBootConfig
  boot : SucsKernelBootConfig

/-- `boot_cfg` is NULL or the handed-over block. -/
inductive SucsTarget
  | controller
  | boot

inductive SucsCall
  | init (target : SucsTarget) (initialMode : UInt32)
  | request (newMode : UInt32)
  /-- The staged state travels in the boot configuration. -/
  | handOver
  | commit (target : SucsTarget)

namespace SucsBlocks

def step (s : SucsBlocks) : SucsCall → SucsBlocks
  | .init .controller mode => { s with controller := .initBootConfig mode }
  | .init .boot mode => { s with boot := .initBootConfig mode }
  | .request mode => { s with controller := (s.controller.requestModeSwitch mode).2 }
  | .handOver =>
    { s with boot :=
      { s.boot with
        pendingMode := s.controller.pendingMode
        rebootRequired := s.controller.rebootRequired } }
  | .commit .controller => { s with controller := s.controller.commitModeOnBoot.2 }
  | .commit .boot => { s with boot := s.boot.commitModeOnBoot.2 }

def run (s : SucsBlocks) (calls : List SucsCall) : SucsBlocks := calls.foldl step s

end SucsBlocks

def publishedBlocks (size : UInt32) (ram : Bytes) : SucsBlocks where
  controller := gKernelBootCfg
  boot := .load (publishBootConfig size ram) (mblBootconfig.toNat + 12)

/-- What was asked for: the modes the blocks were started in and the last request. -/
structure SucsHistory where
  controllerStart : UInt32
  bootStart : UInt32
  requested : UInt32

def IsMode (mode : UInt32) : Prop := mode = sucsModeBase ∨ mode = sucsModeExtended

instance (mode : UInt32) : Decidable (IsMode mode) := inferInstanceAs (Decidable (_ ∨ _))

namespace SucsHistory

def step (h : SucsHistory) : SucsCall → SucsHistory
  | .init .controller mode =>
    { h with controllerStart := initialModeOf mode, requested := initialModeOf mode }
  | .init .boot mode => { h with bootStart := initialModeOf mode }
  | .request mode => if IsMode mode then { h with requested := mode } else h
  | .handOver => h
  | .commit _ => h

def run (h : SucsHistory) (calls : List SucsCall) : SucsHistory := calls.foldl step h

end SucsHistory

def publishedHistory : SucsHistory := ⟨sucsModeBase, sucsModeBase, sucsModeBase⟩

structure StartedIn (mode : UInt32) (cfg : SucsKernelBootConfig) : Prop where
  start : IsMode mode
  active : IsMode cfg.activeMode
  pending : IsMode cfg.pendingMode
  parity : cfg.activeMode = mode ↔ Even cfg.modeChangeCount.toNat

structure Controls (requested : UInt32) (cfg : SucsKernelBootConfig) : Prop where
  pending : cfg.pendingMode = requested
  settled : cfg.rebootRequired = false → requested = cfg.activeMode

section Blocks
variable {mode requested newMode : UInt32} {cfg : SucsKernelBootConfig}

theorem not_isMode_iff : ¬ IsMode mode ↔ mode ≠ sucsModeBase ∧ mode ≠ sucsModeExtended := not_or

theorem initialModeOf_isMode (mode : UInt32) : IsMode (initialModeOf mode) := by
  rw [initialModeOf]
  split_ifs with h
  · exact .inl rfl
  · by_contra hnot
    exact h (not_isMode_iff.mp hnot)

theorem even_succ_count (count : UInt32) :
    Even (count + 1).toNat ↔ ¬ Even count.toNat := by
  rw [← Nat.even_add_one, UInt32.toNat_add, Nat.even_iff, Nat.even_iff]
  change (count.toNat + 1) % 2 ^ 32 % 2 = 0 ↔ _
  omega

theorem StartedIn.init (mode : UInt32) :
    StartedIn (initialModeOf mode) (.initBootConfig mode) where
  start := initialModeOf_isMode mode
  active := initialModeOf_isMode mode
  pending := initialModeOf_isMode mode
  parity := by simp [SucsKernelBootConfig.initBootConfig]

theorem StartedIn.request (h : StartedIn mode cfg) (newMode : UInt32) :
    StartedIn mode (cfg.requestModeSwitch newMode).2 := by
  rw [SucsKernelBootConfig.requestModeSwitch]
  split_ifs with hinvalid halready
  · exact h
  · exact h
  · have hmode : IsMode newMode := by
      by_contra hnot
      exact hinvalid (not_isMode_iff.mp hnot)
    exact ⟨h.start, h.active, hmode, h.parity⟩

theorem StartedIn.commit (h : StartedIn mode cfg) : StartedIn mode cfg.commitModeOnBoot.2 := by
  rw [SucsKernelBootConfig.commitModeOnBoot]
  split_ifs with hstaged
  · refine ⟨h.start, h.pending, h.pending, ?_⟩
    rw [even_succ_count, ← h.parity]
    -- Of two modes, the one committed is the start mode exactly if the one left was not.
    have hother := hstaged.2
    rcases h.start with hm | hm <;> rcases h.active with ha | ha <;>
      rcases h.pending with hp | hp <;> simp [hm, ha, hp] at hother ⊢ <;> decide
  · exact ⟨h.start, h.active, h.pending, h.parity⟩

theorem StartedIn.handOver (h : StartedIn mode cfg) {source : SucsKernelBootConfig}
    (hfrom : IsMode source.pendingMode) :
    StartedIn mode
      { cfg with
        pendingMode := source.pendingMode
        rebootRequired := source.rebootRequired } :=
  ⟨h.start, h.active, hfrom, h.parity⟩

theorem Controls.request (h : Controls requested cfg) (newMode : UInt32) :
    Controls (if IsMode newMode then newMode else requested)
      (cfg.requestModeSwitch newMode).2 := by
  rw [SucsKernelBootConfig.requestModeSwitch]
  by_cases hmode : IsMode newMode
  · rw [if_pos hmode, if_neg fun hnot => not_isMode_iff.mpr hnot hmode]
    split_ifs with halready
    · -- The mode in force is asked for again and nothing is staged.
      have hsame := h.settled halready.2
      exact ⟨h.pending.trans (hsame.trans halready.1.symm), fun _ => halready.1⟩
    · exact ⟨rfl, nofun⟩
  · rw [if_neg hmode, if_pos (not_isMode_iff.mp hmode)]
    exact h

theorem Controls.commit (h : Controls requested cfg) :
    Controls requested cfg.commitModeOnBoot.2 := by
  rw [SucsKernelBootConfig.commitModeOnBoot]
  split_ifs with hstaged
  · exact ⟨h.pending, fun _ => h.pending.symm⟩
  · refine ⟨h.pending, ?_⟩
    intro _
    cases hflag : cfg.rebootRequired with
    | false => exact h.settled hflag
    | true =>
      have hsame : cfg.pendingMode = cfg.activeMode := by simpa [hflag] using hstaged
      exact h.pending.symm.trans hsame

theorem Controls.commits (h : Controls requested cfg) :
    (cfg.commitModeOnBoot.1 = true ↔ requested ≠ cfg.activeMode) ∧
      cfg.commitModeOnBoot.2.activeMode = requested := by
  rw [SucsKernelBootConfig.commitModeOnBoot]
  split_ifs with hstaged
  · exact ⟨by simp [← h.pending, hstaged.2], h.pending⟩
  · have hsame : requested = cfg.activeMode := by
      cases hflag : cfg.rebootRequired with
      | false => exact h.settled hflag
      | true =>
        have hpending : cfg.pendingMode = cfg.activeMode := by simpa [hflag] using hstaged
        exact h.pending.symm.trans hpending
    exact ⟨by simp [hsame], hsame.symm⟩

end Blocks

structure BlocksKept (h : SucsHistory) (s : SucsBlocks) : Prop where
  controller : StartedIn h.controllerStart s.controller
  boot : StartedIn h.bootStart s.boot
  controls : Controls h.requested s.controller

theorem publishedBlocks_kept (size : UInt32) (ram : Bytes) :
    BlocksKept publishedHistory (publishedBlocks size ram) where
  controller := StartedIn.init sucsModeBase
  boot := by
    rw [publishedBlocks, publishBootConfig_block]
    exact StartedIn.init sucsModeBase
  controls := ⟨rfl, fun _ => rfl⟩

theorem BlocksKept.step {h : SucsHistory} {s : SucsBlocks} (hkept : BlocksKept h s)
    (call : SucsCall) : BlocksKept (h.step call) (s.step call) := by
  cases call with
  | init target mode =>
    cases target with
    | controller => exact ⟨.init mode, hkept.boot, rfl, fun _ => rfl⟩
    | boot => exact ⟨hkept.controller, .init mode, hkept.controls⟩
  | request mode =>
    have hcontroller := hkept.controller.request mode
    have hcontrols := hkept.controls.request mode
    simp only [SucsHistory.step, SucsBlocks.step]
    split_ifs at hcontrols ⊢ with hmode
    · exact ⟨hcontroller, hkept.boot, hcontrols⟩
    · exact ⟨hcontroller, hkept.boot, hcontrols⟩
  | handOver =>
    exact ⟨hkept.controller, hkept.boot.handOver hkept.controller.pending, hkept.controls⟩
  | commit target =>
    cases target with
    | controller => exact ⟨hkept.controller.commit, hkept.boot, hkept.controls.commit⟩
    | boot => exact ⟨hkept.controller, hkept.boot.commit, hkept.controls⟩

theorem BlocksKept.run {h : SucsHistory} {s : SucsBlocks} (hkept : BlocksKept h s)
    (calls : List SucsCall) : BlocksKept (h.run calls) (s.run calls) := by
  induction calls generalizing h s with
  | nil => exact hkept
  | cons call calls ih => exact ih (hkept.step call)

/-- In every run both blocks hold modes only, their counters tell by parity which one is active,
and a commit on the controller puts the last request in force. -/
theorem sucsCalls_commit (size : UInt32) (ram : Bytes) (calls : List SucsCall) :
    let s := (publishedBlocks size ram).run calls
    let h := publishedHistory.run calls
    StartedIn h.controllerStart s.controller ∧ StartedIn h.bootStart s.boot ∧
      (s.controller.commitModeOnBoot.1 = true ↔ h.requested ≠ s.controller.activeMode) ∧
      s.controller.commitModeOnBoot.2.activeMode = h.requested := by
  intro s h
  have hkept := (publishedBlocks_kept size ram).run calls
  exact ⟨hkept.controller, hkept.boot, hkept.controls.commits⟩

inductive SucsMode
  | base
  | extended
  deriving DecidableEq

namespace SucsMode

def code : SucsMode → UInt32
  | .base => sucsModeBase
  | .extended => sucsModeExtended

def ofCode (mode : UInt32) : Option SucsMode :=
  if mode = sucsModeBase then some .base
  else if mode = sucsModeExtended then some .extended
  else none

theorem code_inj {a b : SucsMode} : a.code = b.code ↔ a = b := by
  cases a <;> cases b <;> decide

theorem code_isMode (a : SucsMode) : IsMode a.code := by
  cases a <;> decide

theorem ofCode_some {mode : UInt32} {a : SucsMode} (h : ofCode mode = some a) : mode = a.code := by
  rw [ofCode] at h
  split_ifs at h with hbase hextended
  · obtain rfl := Option.some.inj h
    exact hbase
  · obtain rfl := Option.some.inj h
    exact hextended

theorem ofCode_none {mode : UInt32} (h : ofCode mode = none) : ¬ IsMode mode := by
  rw [ofCode] at h
  split_ifs at h with hbase hextended
  exact not_isMode_iff.mpr ⟨hbase, hextended⟩

end SucsMode

/-- The running kernel requests and hands over, the next one commits. -/
inductive KernelCall
  | request (newMode : UInt32)
  | handOver
  | commit

namespace KernelCall

def call : KernelCall → SucsCall
  | .request mode => .request mode
  | .handOver => .handOver
  | .commit => .commit .boot

def op : KernelCall → Option (Relay.Op SucsMode)
  | .request mode => (SucsMode.ofCode mode).map .ask
  | .handOver => some .hand
  | .commit => some .apply

end KernelCall

structure Follows (s : SucsBlocks) (r : Relay.State SucsMode) : Prop where
  controller : s.controller.activeMode = sucsModeBase
  asked : s.controller.pendingMode = r.asked.code
  quiet : s.controller.rebootRequired = false →
    r.asked = .base ∧ r.handed = .base ∧ r.inForce = .base
  handed : s.boot.pendingMode = r.handed.code
  inForce : s.boot.activeMode = r.inForce.code
  staged : s.boot.rebootRequired = false → r.handed = r.inForce
  counted : s.boot.modeChangeCount.toNat = r.changes % 2 ^ 32

section Handover
variable {s : SucsBlocks} {r : Relay.State SucsMode}

theorem Follows.ask (h : Follows s r) (a : SucsMode) :
    Follows (s.step (.request a.code)) (Relay.step r (.ask a)) := by
  have hmode := a.code_isMode
  simp only [SucsBlocks.step, Relay.step, SucsKernelBootConfig.requestModeSwitch]
  rw [if_neg fun hnot => not_isMode_iff.mpr hnot hmode]
  split_ifs with halready
  · -- Nothing was requested so far but the mode all blocks are in.
    obtain ⟨hasked, hhanded, hforce⟩ := h.quiet halready.2
    have hbase : a = .base := SucsMode.code_inj.mp (halready.1.trans h.controller)
    refine ⟨h.controller, ?_, fun _ => ⟨hbase, hhanded, hforce⟩, h.handed, h.inForce, h.staged,
      h.counted⟩
    rw [h.asked, hasked, hbase]
  · exact ⟨h.controller, rfl, nofun, h.handed, h.inForce, h.staged, h.counted⟩

theorem Follows.refuse (h : Follows s r) {mode : UInt32} (hmode : ¬ IsMode mode) :
    Follows (s.step (.request mode)) r := by
  simp only [SucsBlocks.step, SucsKernelBootConfig.requestModeSwitch]
  rw [if_pos (not_isMode_iff.mp hmode)]
  exact h

theorem Follows.hand (h : Follows s r) : Follows (s.step .handOver) (Relay.step r .hand) where
  controller := h.controller
  asked := h.asked
  quiet := by
    intro hflag
    obtain ⟨hasked, -, hforce⟩ := h.quiet hflag
    exact ⟨hasked, hasked, hforce⟩
  handed := h.asked
  inForce := h.inForce
  staged := by
    intro hflag
    obtain ⟨hasked, -, hforce⟩ := h.quiet hflag
    exact hasked.trans hforce.symm
  counted := h.counted

theorem Follows.apply (h : Follows s r) :
    Follows (s.step (.commit .boot)) (Relay.step r .apply) := by
  have hsame : r.handed = r.inForce ↔ s.boot.pendingMode = s.boot.activeMode := by
    rw [h.handed, h.inForce, SucsMode.code_inj]
  have hquiet : s.controller.rebootRequired = false →
      r.asked = .base ∧ r.handed = .base ∧ r.handed = .base := by
    intro hflag
    obtain ⟨hasked, hhanded, -⟩ := h.quiet hflag
    exact ⟨hasked, hhanded, hhanded⟩
  simp only [SucsBlocks.step, Relay.step, SucsKernelBootConfig.commitModeOnBoot]
  split_ifs with hcommits hequal hequal
  · exact absurd (hsame.mp hequal) hcommits.2
  · refine ⟨h.controller, h.asked, hquiet, h.handed, h.handed, fun _ => rfl, ?_⟩
    change (s.boot.modeChangeCount + 1).toNat = _
    rw [UInt32.toNat_add, h.counted]
    exact Nat.mod_add_mod _ _ _
  · refine ⟨h.controller, h.asked, hquiet, h.handed, ?_, fun _ => rfl, h.counted⟩
    rw [hequal]
    exact h.inForce
  · -- A mode that differs was handed over with its flag.
    cases hflag : s.boot.rebootRequired with
    | false => exact absurd (h.staged hflag) hequal
    | true => exact absurd ⟨hflag, fun heq => hequal (hsame.mpr heq)⟩ hcommits

theorem Follows.run (h : Follows s r) (calls : List KernelCall) :
    Follows (s.run (calls.map KernelCall.call)) (Relay.run (calls.filterMap KernelCall.op) r) := by
  induction calls generalizing s r with
  | nil => exact h
  | cons call calls ih =>
    cases call with
    | request mode =>
      cases hmode : SucsMode.ofCode mode with
      | none =>
        rw [List.filterMap_cons_none (by simp [KernelCall.op, hmode])]
        exact ih (h.refuse (SucsMode.ofCode_none hmode))
      | some a =>
        rw [List.filterMap_cons_some (b := .ask a) (by simp [KernelCall.op, hmode])]
        obtain rfl := SucsMode.ofCode_some hmode
        exact ih (h.ask a)
    | handOver => exact ih h.hand
    | commit => exact ih h.apply

end Handover

end ModularBootloader
