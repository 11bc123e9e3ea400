import ModularBootloader.Menu

/-!
# The status line

`draw_status` fills a local buffer with the entry's name between bounded and
unbounded appends, and `menu_run` draws it for the entry it is about to boot.
The first part places every store into the buffer, the second compares what the
last status line and list showed with what the menu returns.
-/

namespace ModularBootloader

/-- `buf` under construction: `n` and the stores made so far. -/
structure LineBuf where
  n : Nat
  stores : List (Nat × UInt8)

namespace LineBuf

def put (b : LineBuf) (c : UInt8) : LineBuf := ⟨b.n + 1, b.stores ++ [(b.n, c)]⟩

def copy : List UInt8 → LineBuf → LineBuf
  | [], b => b
  | c :: rest, b => if c ≠ 0 ∧ b.n < 43 then copy rest (b.put c) else b

def putAll (b : LineBuf) (text : List UInt8) : LineBuf := text.foldl put b

end LineBuf

def digitChar (d : Int) : UInt8 := UInt8.ofNat (0x30 + d.toNat)

def bootingText : List UInt8 := [0x42, 0x6F, 0x6F, 0x74, 0x69, 0x6E, 0x67, 0x20]

def inText : List UInt8 := [0x20, 0x69, 0x6E, 0x20]

/-- The stores of `draw_status` into `char buf[44]`, in order; `name` is the
array up to the terminator that closes it. -/
def drawStatus (name : List UInt8) (remaining : Int) : List (Nat × UInt8) :=
  let b := LineBuf.copy name (LineBuf.copy bootingText ⟨0, []⟩)
  let b :=
    if remaining > 0 then
      if remaining ≥ 10 then
        (((b.putAll inText).put (digitChar (remaining / 10))).put
          (digitChar (remaining % 10))).put 0x73
      else ((b.putAll inText).put (digitChar remaining)).put 0x73
    else b
  b.stores ++ [(b.n, 0)]

namespace LineBuf

def Filled (b : LineBuf) : Prop := b.stores.map Prod.fst = List.range b.n

variable {b : LineBuf}

theorem Filled.put (h : b.Filled) (c : UInt8) : (b.put c).Filled := by
  have hrange := List.range_succ (n := b.n)
  simp only [Filled] at h
  simp [Filled, LineBuf.put, hrange, h]

theorem Filled.putAll (h : b.Filled) (text : List UInt8) : (b.putAll text).Filled := by
  induction text generalizing b with
  | nil => exact h
  | cons c rest ih => exact ih (h.put c)

theorem putAll_n (b : LineBuf) (text : List UInt8) : (b.putAll text).n = b.n + text.length := by
  induction text generalizing b with
  | nil => rfl
  | cons c rest ih =>
    have hrest := ih (b.put c)
    simp only [LineBuf.putAll, List.foldl_cons, LineBuf.put, List.length_cons] at hrest ⊢
    omega

theorem copy_filled (h : b.Filled) (hn : b.n ≤ 43) (text : List UInt8) :
    (copy text b).Filled ∧
      (copy text b).n = min 43 (b.n + (text.takeWhile (· ≠ 0)).length) := by
  induction text generalizing b with
  | nil =>
    simp only [copy, List.takeWhile_nil, List.length_nil]
    exact ⟨h, by omega⟩
  | cons c rest ih =>
    by_cases hzero : c = 0
    · have hstop : copy (c :: rest) b = b := by simp [copy, hzero]
      rw [hstop]
      simp only [hzero, ne_eq, List.takeWhile_cons, decide_not]
      simp only [decide_true, Bool.not_true, Bool.false_eq_true, if_false, List.length_nil]
      exact ⟨h, by omega⟩
    · have hlength : ((c :: rest).takeWhile (· ≠ 0)).length =
          (rest.takeWhile (· ≠ 0)).length + 1 := by
        simp [hzero]
      rw [hlength]
      by_cases hroom : b.n < 43
      · have hput : (b.put c).n = b.n + 1 := rfl
        obtain ⟨hfilled, hcount⟩ := ih (h.put c) (by omega)
        have hnext : copy (c :: rest) b = copy rest (b.put c) := by simp [copy, hzero, hroom]
        rw [hnext]
        exact ⟨hfilled, by omega⟩
      · have hstop : copy (c :: rest) b = b := by simp [copy, hroom]
        rw [hstop]
        exact ⟨h, by omega⟩

theorem Filled.closed (h : b.Filled) (m : Nat) :
    (∀ st ∈ b.stores ++ [(b.n, (0 : UInt8))], st.1 < m) ↔ b.n < m := by
  constructor
  · intro hall
    exact hall (b.n, 0) (by simp)
  · intro hn st hst
    rcases List.mem_append.mp hst with hst | hst
    · have hplace : st.1 ∈ b.stores.map Prod.fst := List.mem_map_of_mem hst
      rw [h] at hplace
      exact (List.mem_range.mp hplace).trans hn
    · obtain rfl := List.mem_singleton.mp hst
      exact hn

end LineBuf

theorem drawStatus_fits (name : List UInt8) (remaining : Int) :
    (∀ st ∈ drawStatus name remaining, st.1 < 44) ↔
      remaining ≤ 0 ∨
        (name.takeWhile (· ≠ 0)).length ≤ if remaining ≥ 10 then 28 else 29 := by
  have hempty : (LineBuf.mk 0 []).Filled := rfl
  obtain ⟨hpre, hpre_n⟩ := LineBuf.copy_filled hempty (by decide) bootingText
  have height : (LineBuf.copy bootingText ⟨0, []⟩).n = 8 := hpre_n
  obtain ⟨hname, hname_n⟩ := LineBuf.copy_filled hpre (by omega) name
  rw [height] at hname_n
  have hin : inText.length = 4 := rfl
  have htail := LineBuf.putAll_n (LineBuf.copy name (LineBuf.copy bootingText ⟨0, []⟩)) inText
  have hput : ∀ (b : LineBuf) (c : UInt8), (b.put c).n = b.n + 1 := fun _ _ => rfl
  rw [drawStatus]
  split_ifs with hpos hten
  · apply ((((hname.putAll inText).put _).put _).put 0x73).closed 44 |>.trans
    rw [hput, hput, hput, htail, hin]
    omega
  · apply (((hname.putAll inText).put _).put 0x73).closed 44 |>.trans
    rw [hput, hput, htail, hin]
    omega
  · apply (hname.closed 44).trans
    omega
  · apply (hname.closed 44).trans
    omega

theorem longName_overruns :
    ¬ ∀ st ∈ drawStatus (List.replicate 29 0x61) 10, st.1 < 44 := by
  decide

def MenuEvent.statusOf : MenuEvent → Option Int
  | .status idx _ => some idx
  | _ => none

def MenuEvent.listOf : MenuEvent → Option (List Row)
  | .list rows => some rows
  | _ => none

/-- The last status line named the entry returned, and the last list highlighted it. -/
structure Announced (r : MenuResult) : Prop where
  status : r.state.shown.findSome? MenuEvent.statusOf = some r.result
  list : ∃ rows, r.state.shown.findSome? MenuEvent.listOf = some rows ∧
    Row.entry r.result true ∈ rows

structure Drawn (count sel top : Int) (shown : List MenuEvent) : Prop where
  status : shown.findSome? MenuEvent.statusOf = some sel
  list : shown.findSome? MenuEvent.listOf = some (drawList count sel top)

def Current (count : Int) (s : MenuState) : Prop :=
  s.needRedraw = false → Drawn count s.sel s.top s.shown

section Screen
variable {inp : MenuInput} {count timeoutSecs sel top : Int} {s t : MenuState} {r : MenuResult}

theorem menuRedraw_drawn (h : Current count s) :
    Drawn count s.sel s.top (menuRedraw count s).shown := by
  unfold menuRedraw
  split
  · constructor
    · rfl
    · rfl
  · next hdue => exact h (Bool.eq_false_iff.mpr hdue)

theorem menuRedraw_sel (count : Int) (s : MenuState) : (menuRedraw count s).sel = s.sel := by
  unfold menuRedraw
  split <;> rfl

theorem menuRedraw_top (count : Int) (s : MenuState) : (menuRedraw count s).top = s.top := by
  unfold menuRedraw
  split <;> rfl

theorem menuRedraw_polls (count : Int) (s : MenuState) : (menuRedraw count s).polls = s.polls := by
  unfold menuRedraw
  split <;> rfl

theorem menuClock_current (h : Current count s) (ht : menuClock inp timeoutSecs s = .inr t) :
    Current count t := by
  have hredraw : t.needRedraw = s.needRedraw := by
    unfold menuClock at ht
    split_ifs at ht
    · dsimp only at ht
      split_ifs at ht
      · obtain rfl := Sum.inr.inj ht
        rfl
      · obtain rfl := Sum.inr.inj ht
        rfl
    · obtain rfl := Sum.inr.inj ht
      rfl
  obtain ⟨hsel, htop, hshown⟩ := menuClock_continues ht
  intro hnone
  rw [hredraw] at hnone
  obtain ⟨hstatus, hlist⟩ := h hnone
  rw [hsel, htop]
  rcases hshown with hshown | hshown
  · rw [hshown]
    exact ⟨hstatus, hlist⟩
  · rw [hshown]
    constructor
    · rfl
    · exact hlist

theorem menuHandleKey_boots (key count sel top : Int) :
    (menuHandleKey key count sel top).action = 1 ↔ key = mblKeyEnter := by
  simp only [menuHandleKey]
  split_ifs <;> simp_all [mblKeyUp, mblKeyDown, mblKeyHome, mblKeyEnd, mblKeyPgup, mblKeyPgdn,
    mblKeyEnter, mblKeyEsc, mblKeyReboot, mblKeyShutdown]

theorem menuHandleKey_enter (count sel top : Int) :
    menuHandleKey mblKeyEnter count sel top = ⟨1, sel, top⟩ := rfl

theorem menuRound_current (h : Current count s) (ht : menuRound inp count timeoutSecs s = .inr t) :
    Current count t := by
  have hdrawn := menuRedraw_drawn h
  simp only [menuRound] at ht
  split_ifs at ht
  · apply menuClock_current _ ht
    intro hnone
    cases hnone
  · apply menuClock_current _ ht
    intro _
    rw [← menuRedraw_sel count s, ← menuRedraw_top count s] at hdrawn
    exact hdrawn

theorem menuRound_returns (hr : menuRound inp count timeoutSecs s = .inl r)
    (hpos : 0 ≤ r.result) :
    r.state.shown = (menuRedraw count s).shown ∧
      (inp.key s.polls = mblKeyEnter ∧ r.result = s.sel ∨
        inp.key s.polls ≠ mblKeyEnter ∧ r.result = 0) := by
  have hpolls := menuRedraw_polls count s
  have hsel := menuRedraw_sel count s
  simp only [menuRound, hpolls] at hr
  split_ifs at hr with hkey hboot hreboot hoff
  · rw [menuHandleKey_boots] at hboot
    obtain rfl := Sum.inl.inj hr
    refine ⟨rfl, .inl ⟨hboot, ?_⟩⟩
    rw [hboot, menuHandleKey_enter]
    exact hsel
  · obtain rfl := Sum.inl.inj hr
    exact absurd hpos (show ¬ (0 : Int) ≤ -1 by decide)
  · obtain rfl := Sum.inl.inj hr
    exact absurd hpos (show ¬ (0 : Int) ≤ -2 by decide)
  · rw [menuHandleKey_boots] at hboot
    obtain ⟨hresult, -, -, hshown⟩ := menuClock_exits hr
    exact ⟨hshown, .inr ⟨hboot, hresult⟩⟩
  · obtain ⟨hresult, -, -, hshown⟩ := menuClock_exits hr
    refine ⟨hshown, .inr ⟨?_, hresult⟩⟩
    intro henter
    rw [henter] at hkey
    exact hkey (by decide)

theorem drawRows_selected {n : Nat} (hlt : top + visible ≤ 2 ^ 31 - 1) (hn : n ≤ 18)
    (htop : 0 ≤ top) (hsel : sel < count) (hfrom : top + (visible - n) ≤ sel)
    (hbelow : sel < top + visible) : Row.entry sel true ∈ drawRows count sel top n := by
  have hvisible : visible = 18 := rfl
  induction n with
  | zero => omega
  | succ n ih =>
    have hrow : int32 (top + (visible - (n + 1))) = top + (visible - (n + 1)) :=
      int32_of_range (by omega) (by omega)
    simp only [drawRows, hrow]
    by_cases hfirst : top + (visible - (n + 1)) = sel
    · rw [if_neg (by omega), hfirst]
      simp
    · rw [if_neg (by omega)]
      apply List.mem_cons_of_mem
      exact ih (by omega) (by omega)

theorem drawList_selected (hcount : count ≤ 2 ^ 31 - 19) (h : InWindow count sel top) :
    Row.entry sel true ∈ drawList count sel top := by
  have hvisible : visible = 18 := rfl
  obtain ⟨hsel, hlt, htop, hle, hfrom, hbelow⟩ := h
  apply drawRows_selected (by omega) (by decide) htop hlt _ hbelow
  have hrows : ((visible.toNat : Nat) : Int) = 18 := rfl
  omega

theorem menu_current (inp : MenuInput) (timeoutSecs : Int) (hpos : 1 ≤ count) {k : Nat}
    (h : BoundedLoop.Reaches (menuStep inp count timeoutSecs) (menuStart inp timeoutSecs) k s) :
    Current count s := by
  apply h.invariant (I := fun _ s => Current count s)
  · intro hnone
    cases hnone
  · intro j a b _ ha hb
    rw [menuStep, if_neg (by omega)] at hb
    exact menuRound_current ha hb

/-- In the round that returns an entry, Enter was pressed or the first row was selected. -/
theorem menuRun_announced (hpos : 1 ≤ count) (hcount : count ≤ 2 ^ 31 - 19)
    (hs : MenuReaches inp count timeoutSecs s)
    (hr : menuStep inp count timeoutSecs s = .inl r) (hresult : 0 ≤ r.result) :
    Announced r ↔ inp.key s.polls = mblKeyEnter ∨ s.sel = 0 := by
  obtain ⟨k, hk⟩ := hs
  have hwell := (menu_well inp timeoutSecs hpos hcount).1 k s hk
  have hselected := drawList_selected hcount hwell.window
  obtain ⟨hstatus, hlist⟩ := menuRedraw_drawn (menu_current inp timeoutSecs hpos hk)
  rw [menuStep, if_neg (by omega)] at hr
  obtain ⟨hshown, hcases⟩ := menuRound_returns hr hresult
  rw [← hshown] at hstatus hlist
  constructor
  · intro hann
    rcases hcases with ⟨henter, -⟩ | ⟨-, hzero⟩
    · exact .inl henter
    · right
      have heq := hstatus.symm.trans hann.status
      rw [hzero] at heq
      exact Option.some.inj heq
  · intro hcond
    have hsel : r.result = s.sel := by
      rcases hcases with ⟨-, hres⟩ | ⟨hother, hzero⟩
      · exact hres
      · rw [hzero, hcond.resolve_left hother]
    constructor
    · rw [hsel]
      exact hstatus
    · rw [hsel]
      exact ⟨_, hlist, hselected⟩

def enterAtOnce : MenuInput := ⟨fun _ => mblKeyEnter, fun _ => 0, true⟩

def downOnly : MenuInput :=
  ⟨fun n => if n = 0 then mblKeyDown else mblKeyNone, fun n => if n < 2 then 0 else 1, true⟩

theorem enterAtOnce_announced : ∃ r,
    menuStep enterAtOnce 2 1 (menuStart enterAtOnce 1) = .inl r ∧ r.result = 0 ∧
      (Announced r ↔ enterAtOnce.key 0 = mblKeyEnter ∨ (menuStart enterAtOnce 1).sel = 0) := by
  have hreach : MenuReaches enterAtOnce 2 1 (menuStart enterAtOnce 1) := ⟨0, .start⟩
  have hstep : menuStep enterAtOnce 2 1 (menuStart enterAtOnce 1) = .inl _ := rfl
  exact ⟨_, hstep, rfl, menuRun_announced (by decide) (by decide) hreach hstep (by decide)⟩

theorem downOnly_bootsAnother : ∃ r,
    MenuReturns downOnly 2 1 r ∧ r.result = 0 ∧ ¬ Announced r := by
  have hstep : menuStep downOnly 2 1 (menuStart downOnly 1) = .inr _ := rfl
  refine ⟨_, ⟨1, _, .next .start hstep, rfl⟩, rfl, ?_⟩
  intro hann
  have hstatus := hann.status
  revert hstatus
  decide

end Screen

end ModularBootloader
