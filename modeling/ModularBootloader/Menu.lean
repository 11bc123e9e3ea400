import ModularBootloader.Lib.BoundedLoop

/-!
# The boot menu

`menu.c` as a loop over key codes and clock readings. A state holds the locals
of `menu_run`; what is drawn is recorded as events that name the entries read.
Every round keeps the selection inside the list and inside the window of
eighteen rows.
-/

namespace ModularBootloader

def int32 (x : Int) : Int := (x + 2 ^ 31) % 2 ^ 32 - 2 ^ 31

def visible : Int := 18

def mblKeyNone : Int := 0
def mblKeyUp : Int := 1
def mblKeyDown : Int := 2
def mblKeyHome : Int := 3
def mblKeyEnd : Int := 4
def mblKeyPgup : Int := 5
def mblKeyPgdn : Int := 6
def mblKeyEnter : Int := 7
def mblKeyEsc : Int := 8
def mblKeyReboot : Int := 9
def mblKeyShutdown : Int := 10

inductive Row
  | entry (idx : Int) (selected : Bool)
  | blank
  deriving DecidableEq, Repr

/-- The last `n` rows of the list: entries up to the end of the array, then blanks. -/
def drawRows (count sel top : Int) : Nat → List Row
  | 0 => []
  | n + 1 =>
    let idx := int32 (top + (visible - (n + 1)))
    if idx ≥ count then List.replicate (n + 1) .blank
    else .entry idx (idx == sel) :: drawRows count sel top n

def drawList (count sel top : Int) : List Row := drawRows count sel top visible.toNat

inductive MenuEvent
  | frame
  | list (rows : List Row)
  /-- `draw_status(entries[idx].name, remaining)` -/
  | status (idx remaining : Int)
  | noEntries
  deriving DecidableEq, Repr

def scrollTop (count sel top : Int) : Int :=
  let top := if sel < top then sel else top
  let top := if sel ≥ int32 (top + visible) then int32 (int32 (sel - visible) + 1) else top
  let top := if top < 0 then 0 else top
  let top := if top > int32 (count - visible) then int32 (count - visible) else top
  if top < 0 then 0 else top

structure KeyEffect where
  action : Int
  sel : Int
  top : Int
  deriving DecidableEq, Repr

def menuHandleKey (key count sel top : Int) : KeyEffect :=
  let moved (sel : Int) : KeyEffect := ⟨0, sel, scrollTop count sel top⟩
  if key = mblKeyUp then
    let sel := int32 (sel - 1)
    moved (if sel < 0 then int32 (count - 1) else sel)
  else if key = mblKeyDown then
    let sel := int32 (sel + 1)
    moved (if sel ≥ count then 0 else sel)
  else if key = mblKeyHome then moved 0
  else if key = mblKeyEnd then moved (int32 (count - 1))
  else if key = mblKeyPgup then
    let sel := int32 (sel - visible)
    moved (if sel < 0 then 0 else sel)
  else if key = mblKeyPgdn then
    let sel := int32 (sel + visible)
    moved (if sel ≥ count then int32 (count - 1) else sel)
  else if key = mblKeyEnter then ⟨1, sel, top⟩
  else if key = mblKeyEsc ∨ key = mblKeyReboot then ⟨2, sel, top⟩
  else if key = mblKeyShutdown then ⟨3, sel, top⟩
  else ⟨0, sel, top⟩

structure MenuInput where
  key : Nat → Int
  seconds : Nat → UInt8
  /-- `gRT && gRT->GetTime` -/
  getTime : Bool

inductive KbdWait
  | idle
  | key
  /-- Waiting for the seconds to change from `t0`. -/
  | tick (t0 : UInt8)
  deriving DecidableEq, Repr

structure MenuState where
  sel : Int
  top : Int
  needRedraw : Bool
  lastSec : UInt8
  remaining : Int
  wait : KbdWait
  polls : Nat
  readings : Nat
  /-- Newest first. -/
  shown : List MenuEvent

structure MenuResult where
  result : Int
  state : MenuState

def menuStart (inp : MenuInput) (timeoutSecs : Int) : MenuState :=
  ⟨0, 0, true, inp.seconds 0, timeoutSecs, .idle, 0, 1, [.frame]⟩

def menuRedraw (count : Int) (s : MenuState) : MenuState :=
  if s.needRedraw then
    { s with
      shown := .status s.sel s.remaining :: .list (drawList count s.sel s.top) :: s.shown
      needRedraw := false }
  else s

def secondsDelta (lastSec now : UInt8) : Int :=
  if now ≥ lastSec then now.toNat - lastSec.toNat else now.toNat + 60 - lastSec.toNat

def menuClock (inp : MenuInput) (timeoutSecs : Int) (s : MenuState) : MenuResult ⊕ MenuState :=
  if timeoutSecs > 0 then
    let now := inp.seconds s.readings
    let s := { s with readings := s.readings + 1 }
    if now = s.lastSec then .inr s
    else
      let remaining := int32 (s.remaining - secondsDelta s.lastSec now)
      let s := { s with remaining := remaining, lastSec := now }
      if remaining ≤ 0 then .inl ⟨0, s⟩
      else .inr { s with shown := .status s.sel remaining :: s.shown }
  else .inr s

/-- With nothing to list: draw, then one turn of `kbd_wait` at a time. -/
def menuEmptyRound (inp : MenuInput) (s : MenuState) : MenuResult ⊕ MenuState :=
  match s.wait with
  | .idle => .inr { s with shown := .noEntries :: s.shown, wait := .key }
  | .key =>
    let key := inp.key s.polls
    let s := { s with polls := s.polls + 1 }
    if key = mblKeyNone then
      if inp.getTime then
        .inr { s with wait := .tick (inp.seconds s.readings), readings := s.readings + 1 }
      else .inr s
    else if key = mblKeyEsc ∨ key = mblKeyReboot then .inl ⟨-1, s⟩
    else .inr { s with wait := .idle }
  | .tick t0 =>
    let now := inp.seconds s.readings
    let s := { s with readings := s.readings + 1 }
    if now = t0 then .inr s else .inr { s with wait := .key }

def menuRound (inp : MenuInput) (count timeoutSecs : Int) (s : MenuState) :
    MenuResult ⊕ MenuState :=
  let s := menuRedraw count s
  let key := inp.key s.polls
  let s := { s with polls := s.polls + 1 }
  if key ≠ mblKeyNone then
    let effect := menuHandleKey key count s.sel s.top
    let s := { s with sel := effect.sel, top := effect.top }
    if effect.action = 1 then .inl ⟨s.sel, s⟩
    else if effect.action = 2 then .inl ⟨-1, s⟩
    else if effect.action = 3 then .inl ⟨-2, s⟩
    else menuClock inp timeoutSecs { s with needRedraw := true }
  else menuClock inp timeoutSecs s

def menuStep (inp : MenuInput) (count timeoutSecs : Int) (s : MenuState) :
    MenuResult ⊕ MenuState :=
  if count ≤ 0 then menuEmptyRound inp s else menuRound inp count timeoutSecs s

def MenuReturns (inp : MenuInput) (count timeoutSecs : Int) (r : MenuResult) : Prop :=
  BoundedLoop.Returns (menuStep inp count timeoutSecs) (menuStart inp timeoutSecs) r

def MenuReaches (inp : MenuInput) (count timeoutSecs : Int) (s : MenuState) : Prop :=
  ∃ k, BoundedLoop.Reaches (menuStep inp count timeoutSecs) (menuStart inp timeoutSecs) k s

/-- The selection is an entry and lies in a window that lies in the list. -/
structure InWindow (count sel top : Int) : Prop where
  sel_nonneg : 0 ≤ sel
  sel_lt : sel < count
  top_nonneg : 0 ≤ top
  top_le : top ≤ max 0 (count - visible)
  top_le_sel : top ≤ sel
  sel_lt_top : sel < top + visible

def Row.highlighted : Row → Bool
  | .entry _ selected => selected
  | .blank => false

def Row.reads : Row → List Int
  | .entry idx _ => [idx]
  | .blank => []

def MenuEvent.reads : MenuEvent → List Int
  | .frame => []
  | .list rows => rows.flatMap Row.reads
  | .status idx _ => [idx]
  | .noEntries => []

/-- Every entry read exists, and a list has one highlighted row. -/
structure ShownWell (count : Int) (e : MenuEvent) : Prop where
  reads_lt : ∀ idx ∈ e.reads, 0 ≤ idx ∧ idx < count
  highlights : ∀ rows, e = .list rows → rows.countP Row.highlighted = 1

section Window
variable {count sel top : Int}

theorem int32_of_range {x : Int} (hlo : -2 ^ 31 ≤ x) (hhi : x < 2 ^ 31) : int32 x = x := by
  rw [int32]
  omega

theorem scrollTop_inWindow (hcount : count ≤ 2 ^ 31 - 19) (hsel : 0 ≤ sel) (hlt : sel < count)
    (htop : 0 ≤ top) : InWindow count sel (scrollTop count sel top) := by
  have hvisible : visible = 18 := rfl
  have hrest : int32 (count - visible) = count - visible :=
    int32_of_range (by omega) (by omega)
  have hback : int32 (sel - visible) = sel - visible := int32_of_range (by omega) (by omega)
  have hlast : int32 (sel - visible + 1) = sel - visible + 1 :=
    int32_of_range (by omega) (by omega)
  have hbelow : int32 ((if sel < top then sel else top) + visible) =
      (if sel < top then sel else top) + visible := by
    apply int32_of_range
    · split <;> omega
    · split <;> omega
  simp only [scrollTop, hrest, hback, hlast, hbelow]
  constructor
  all_goals grind

theorem menuHandleKey_inWindow (hcount : count ≤ 2 ^ 31 - 19) (h : InWindow count sel top)
    (key : Int) : InWindow count (menuHandleKey key count sel top).sel
      (menuHandleKey key count sel top).top := by
  have hvisible : visible = 18 := rfl
  obtain ⟨hsel, hlt, htop, -, -, -⟩ := id h
  have hmoved : ∀ sel', 0 ≤ sel' ∧ sel' < count →
      InWindow count (KeyEffect.mk 0 sel' (scrollTop count sel' top)).sel
        (KeyEffect.mk 0 sel' (scrollTop count sel' top)).top := by
    intro sel' hsel'
    exact scrollTop_inWindow hcount hsel'.1 hsel'.2 htop
  have hup : int32 (sel - 1) = sel - 1 := int32_of_range (by omega) (by omega)
  have hdown : int32 (sel + 1) = sel + 1 := int32_of_range (by omega) (by omega)
  have hpgup : int32 (sel - visible) = sel - visible := int32_of_range (by omega) (by omega)
  have hpgdn : int32 (sel + visible) = sel + visible := int32_of_range (by omega) (by omega)
  have hlast : int32 (count - 1) = count - 1 := int32_of_range (by omega) (by omega)
  simp only [menuHandleKey, hup, hdown, hpgup, hpgdn, hlast]
  split_ifs
  -- The six navigation keys come first; the rest leave the selection alone.
  all_goals first | exact h | (apply hmoved; omega)

theorem drawRows_reads {n : Nat} (htop : 0 ≤ top) (hlt : top + visible ≤ 2 ^ 31 - 1)
    (hn : n ≤ 18) {idx : Int} (hidx : idx ∈ (drawRows count sel top n).flatMap Row.reads) :
    0 ≤ idx ∧ idx < count := by
  have hvisible : visible = 18 := rfl
  induction n with
  | zero => cases hidx
  | succ n ih =>
    have hrow : int32 (top + (visible - (n + 1))) = top + (visible - (n + 1)) :=
      int32_of_range (by omega) (by omega)
    simp only [drawRows, hrow] at hidx
    split_ifs at hidx with hend
    · simp [Row.reads] at hidx
    · simp only [List.flatMap_cons, Row.reads, List.cons_append, List.nil_append,
        List.mem_cons] at hidx
      rcases hidx with rfl | hidx
      · omega
      · exact ih (by omega) hidx

theorem drawRows_highlighted {n : Nat} (hlt : top + visible ≤ 2 ^ 31 - 1) (hn : n ≤ 18)
    (htop : 0 ≤ top) (hsel : sel < count) (hbelow : sel < top + visible) :
    (drawRows count sel top n).countP Row.highlighted =
      if top + (visible - n) ≤ sel then 1 else 0 := by
  have hvisible : visible = 18 := rfl
  induction n with
  | zero =>
    rw [if_neg (by omega)]
    rfl
  | succ n ih =>
    have hrow : int32 (top + (visible - (n + 1))) = top + (visible - (n + 1)) :=
      int32_of_range (by omega) (by omega)
    simp only [drawRows, hrow]
    split_ifs with hend hfrom hfrom
    · omega
    · simp [List.countP_replicate, Row.highlighted]
    · rw [List.countP_cons, ih (by omega)]
      simp only [Row.highlighted, beq_iff_eq]
      split_ifs <;> omega
    · rw [List.countP_cons, ih (by omega)]
      simp only [Row.highlighted, beq_iff_eq]
      split_ifs <;> omega

theorem drawList_shownWell (hcount : count ≤ 2 ^ 31 - 19) (h : InWindow count sel top) :
    ShownWell count (.list (drawList count sel top)) := by
  have hvisible : visible = 18 := rfl
  obtain ⟨hsel, hlt, htop, hle, hfrom, hbelow⟩ := h
  constructor
  · intro idx hidx
    apply drawRows_reads htop (by omega) (le_refl 18) hidx
  · intro rows hrows
    obtain rfl := MenuEvent.list.inj hrows
    rw [drawList, drawRows_highlighted (by omega) (by decide) htop hlt hbelow]
    apply if_pos
    rw [show visible.toNat = 18 from rfl]
    omega

theorem status_shownWell (hsel : 0 ≤ sel) (hlt : sel < count) (remaining : Int) :
    ShownWell count (.status sel remaining) := by
  constructor
  · intro idx hidx
    obtain rfl := List.mem_singleton.mp hidx
    exact ⟨hsel, hlt⟩
  · intro rows hrows
    cases hrows

end Window

structure MenuWell (count : Int) (s : MenuState) : Prop where
  window : InWindow count s.sel s.top
  shown : ∀ e ∈ s.shown, ShownWell count e

structure MenuReturnWell (count : Int) (r : MenuResult) : Prop where
  state : MenuWell count r.state
  result : r.result = -1 ∨ r.result = -2 ∨ (0 ≤ r.result ∧ r.result < count)

section Runs
variable {inp : MenuInput} {count timeoutSecs : Int} {s t : MenuState} {r : MenuResult}

theorem menuStart_well (hcount : 1 ≤ count) :
    MenuWell count (menuStart inp timeoutSecs) := by
  have hvisible : visible = 18 := rfl
  constructor
  · constructor <;> simp only [menuStart] <;> omega
  · intro e he
    obtain rfl := List.mem_singleton.mp he
    constructor
    · intro idx hidx
      cases hidx
    · intro rows hrows
      cases hrows

theorem menuRedraw_well (hcount : count ≤ 2 ^ 31 - 19) (h : MenuWell count s) :
    MenuWell count (menuRedraw count s) := by
  unfold menuRedraw
  split
  · constructor
    · exact h.window
    · intro e he
      simp only [List.mem_cons] at he
      rcases he with rfl | rfl | he
      · exact status_shownWell h.window.sel_nonneg h.window.sel_lt s.remaining
      · exact drawList_shownWell hcount h.window
      · exact h.shown e he
  · exact h

theorem menuClock_exits (h : menuClock inp timeoutSecs s = .inl r) :
    r.result = 0 ∧ r.state.sel = s.sel ∧ r.state.top = s.top ∧ r.state.shown = s.shown := by
  unfold menuClock at h
  split_ifs at h
  dsimp only at h
  split_ifs at h
  obtain rfl := Sum.inl.inj h
  exact ⟨rfl, rfl, rfl, rfl⟩

theorem menuClock_continues (h : menuClock inp timeoutSecs s = .inr t) :
    t.sel = s.sel ∧ t.top = s.top ∧
      (t.shown = s.shown ∨ t.shown = .status s.sel t.remaining :: s.shown) := by
  unfold menuClock at h
  split_ifs at h
  · dsimp only at h
    split_ifs at h
    · obtain rfl := Sum.inr.inj h
      exact ⟨rfl, rfl, .inl rfl⟩
    · obtain rfl := Sum.inr.inj h
      exact ⟨rfl, rfl, .inr rfl⟩
  · obtain rfl := Sum.inr.inj h
    exact ⟨rfl, rfl, .inl rfl⟩

theorem menuClock_well (h : MenuWell count s) :
    (∀ r, menuClock inp timeoutSecs s = .inl r → r.result = 0 ∧ MenuWell count r.state) ∧
    ∀ t, menuClock inp timeoutSecs s = .inr t → MenuWell count t := by
  constructor
  · intro r hr
    obtain ⟨hresult, hsel, htop, hshown⟩ := menuClock_exits hr
    refine ⟨hresult, ?_, ?_⟩
    · rw [hsel, htop]
      exact h.window
    · rw [hshown]
      exact h.shown
  · intro t ht
    obtain ⟨hsel, htop, hshown⟩ := menuClock_continues ht
    constructor
    · rw [hsel, htop]
      exact h.window
    · rcases hshown with hshown | hshown
      · rw [hshown]
        exact h.shown
      · rw [hshown]
        intro e he
        rcases List.mem_cons.mp he with rfl | he
        · exact status_shownWell h.window.sel_nonneg h.window.sel_lt t.remaining
        · exact h.shown e he

theorem menuRound_well (hcount : count ≤ 2 ^ 31 - 19) (h : MenuWell count s) :
    (∀ r, menuRound inp count timeoutSecs s = .inl r → MenuReturnWell count r) ∧
    ∀ t, menuRound inp count timeoutSecs s = .inr t → MenuWell count t := by
  have hdrawn := menuRedraw_well hcount h
  have hmoved := menuHandleKey_inWindow hcount hdrawn.window
    (inp.key (menuRedraw count s).polls)
  have hclock : ∀ s', MenuWell count s' →
      (∀ r, menuClock inp timeoutSecs s' = .inl r → MenuReturnWell count r) ∧
      ∀ t, menuClock inp timeoutSecs s' = .inr t → MenuWell count t := by
    intro s' hs'
    constructor
    · intro r hr
      obtain ⟨hresult, hstate⟩ := (menuClock_well hs').1 r hr
      have hpos : 0 < count := lt_of_le_of_lt hs'.window.sel_nonneg hs'.window.sel_lt
      refine ⟨hstate, .inr (.inr ?_)⟩
      rw [hresult]
      exact ⟨le_refl 0, hpos⟩
    · exact (menuClock_well hs').2
  simp only [menuRound]
  split_ifs
  · constructor
    · intro r hr
      obtain rfl := Sum.inl.inj hr
      exact ⟨⟨hmoved, hdrawn.shown⟩, .inr (.inr ⟨hmoved.sel_nonneg, hmoved.sel_lt⟩)⟩
    · intro t ht
      cases ht
  · constructor
    · intro r hr
      obtain rfl := Sum.inl.inj hr
      exact ⟨⟨hmoved, hdrawn.shown⟩, .inl rfl⟩
    · intro t ht
      cases ht
  · constructor
    · intro r hr
      obtain rfl := Sum.inl.inj hr
      exact ⟨⟨hmoved, hdrawn.shown⟩, .inr (.inl rfl)⟩
    · intro t ht
      cases ht
  · exact hclock _ ⟨hmoved, hdrawn.shown⟩
  · exact hclock _ ⟨hdrawn.window, hdrawn.shown⟩

theorem menuEmptyRound_reads (h : ∀ e ∈ s.shown, e.reads = []) :
    (∀ r, menuEmptyRound inp s = .inl r →
      r.result = -1 ∧ ∀ e ∈ r.state.shown, e.reads = []) ∧
    ∀ t, menuEmptyRound inp s = .inr t → ∀ e ∈ t.shown, e.reads = [] := by
  unfold menuEmptyRound
  cases s.wait with
  | idle =>
    constructor
    · intro r hr
      cases hr
    · intro t ht
      obtain rfl := Sum.inr.inj ht
      intro e he
      rcases List.mem_cons.mp he with rfl | he
      · rfl
      · exact h e he
  | key =>
    dsimp only
    split_ifs
    · constructor <;> intro x hx <;> cases hx
      exact h
    · constructor <;> intro x hx <;> cases hx
      exact h
    · constructor <;> intro x hx <;> cases hx
      exact ⟨rfl, h⟩
    · constructor <;> intro x hx <;> cases hx
      exact h
  | tick t0 =>
    dsimp only
    split_ifs
    all_goals
      constructor <;> intro x hx <;> cases hx
      exact h

theorem menu_well (inp : MenuInput) (timeoutSecs : Int) (hpos : 1 ≤ count)
    (hcount : count ≤ 2 ^ 31 - 19) :
    (∀ k s, BoundedLoop.Reaches (menuStep inp count timeoutSecs) (menuStart inp timeoutSecs) k s →
      MenuWell count s) ∧
    ∀ r, MenuReturns inp count timeoutSecs r → MenuReturnWell count r := by
  have hround : menuStep inp count timeoutSecs = menuRound inp count timeoutSecs := by
    funext s
    exact if_neg (by omega)
  unfold MenuReturns
  rw [hround]
  apply BoundedLoop.invariant_returns (menuStart_well hpos)
  · intro s t hs ht
    exact (menuRound_well hcount hs).2 t ht
  · intro s r hs hr
    exact (menuRound_well hcount hs).1 r hr

theorem menu_empty (inp : MenuInput) (timeoutSecs : Int) (hnone : count ≤ 0) :
    (∀ k s, BoundedLoop.Reaches (menuStep inp count timeoutSecs) (menuStart inp timeoutSecs) k s →
      ∀ e ∈ s.shown, e.reads = []) ∧
    ∀ r, MenuReturns inp count timeoutSecs r →
      r.result = -1 ∧ ∀ e ∈ r.state.shown, e.reads = [] := by
  have hround : menuStep inp count timeoutSecs = menuEmptyRound inp := by
    funext s
    exact if_pos hnone
  unfold MenuReturns
  rw [hround]
  apply BoundedLoop.invariant_returns
  · intro e he
    obtain rfl := List.mem_singleton.mp he
    rfl
  · intro s t hs ht
    exact (menuEmptyRound_reads hs).2 t ht
  · intro s r hs hr
    exact (menuEmptyRound_reads hs).1 r hr

theorem menuRun_inWindow (inp : MenuInput) (count timeoutSecs : Int) :
    (1 ≤ count → count ≤ 2 ^ 31 - 19 →
      (∀ s, MenuReaches inp count timeoutSecs s →
        InWindow count s.sel s.top ∧ ∀ e ∈ s.shown, ShownWell count e) ∧
      ∀ r, MenuReturns inp count timeoutSecs r →
        (r.result = -1 ∨ r.result = -2 ∨ (0 ≤ r.result ∧ r.result < count)) ∧
        InWindow count r.state.sel r.state.top ∧ ∀ e ∈ r.state.shown, ShownWell count e) ∧
    (count ≤ 0 →
      (∀ s, MenuReaches inp count timeoutSecs s → ∀ e ∈ s.shown, e.reads = []) ∧
      ∀ r, MenuReturns inp count timeoutSecs r →
        r.result = -1 ∧ ∀ e ∈ r.state.shown, e.reads = []) := by
  constructor
  · intro hpos hcount
    obtain ⟨hreach, hreturn⟩ := menu_well inp timeoutSecs hpos hcount
    constructor
    · rintro s ⟨k, hs⟩
      have hwell := hreach k s hs
      exact ⟨hwell.window, hwell.shown⟩
    · intro r hr
      have hwell := hreturn r hr
      exact ⟨hwell.result, hwell.state.window, hwell.state.shown⟩
  · intro hnone
    obtain ⟨hreach, hreturn⟩ := menu_empty inp timeoutSecs hnone
    constructor
    · rintro s ⟨k, hs⟩
      exact hreach k s hs
    · exact hreturn

theorem twentyEntries_inWindow :
    ∃ s, MenuReaches ⟨fun _ => mblKeyEnd, fun _ => 0, true⟩ 20 10 s ∧ s.sel = 19 ∧ s.top = 2 ∧
      InWindow 20 s.sel s.top := by
  have hreach : MenuReaches ⟨fun _ => mblKeyEnd, fun _ => 0, true⟩ 20 10 _ :=
    ⟨1, .next .start rfl⟩
  exact ⟨_, hreach, by decide, by decide,
    ((menuRun_inWindow _ 20 10).1 (by decide) (by decide)).1 _ hreach |>.1⟩

end Runs

end ModularBootloader
