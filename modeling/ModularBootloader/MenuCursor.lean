import ModularBootloader.Menu
import ModularBootloader.Lib.Viewport

/-!
# Moving through the menu

The selection and the window of the menu are those of a scrolled list moved by
the keys polled so far, and how the menu is left is told by the last of them.
-/

namespace ModularBootloader
open Viewport

def keyMove (key : Int) : Option Move :=
  if key = mblKeyUp then some (.turn (-1))
  else if key = mblKeyDown then some (.turn 1)
  else if key = mblKeyHome then some .first
  else if key = mblKeyEnd then some .last
  else if key = mblKeyPgup then some (.page (-visible))
  else if key = mblKeyPgdn then some (.page visible)
  else none

def keyAction (key : Int) : Int :=
  if key = mblKeyEnter then 1
  else if key = mblKeyEsc ∨ key = mblKeyReboot then 2
  else if key = mblKeyShutdown then 3
  else 0

def MenuState.view (s : MenuState) : View := ⟨s.sel, s.top⟩

def keysPolled (inp : MenuInput) (n : Nat) : List Int := (List.range n).map inp.key

def viewAfter (count : Int) (keys : List Int) : View :=
  View.run visible count ⟨0, 0⟩ (keys.filterMap keyMove)

section Keys
variable {count sel top key : Int}

theorem scrollTop_reveal (hcount : count ≤ 2 ^ 31 - 19) (hsel : 0 ≤ sel) (hlt : sel < count)
    (htop : 0 ≤ top) (hle : top ≤ max 0 (count - visible)) :
    scrollTop count sel top = reveal visible sel top := by
  have hvisible : visible = 18 := rfl
  have hrest : int32 (count - visible) = count - visible :=
    int32_of_range (by omega) (by omega)
  have hback : int32 (sel - visible) = sel - visible := int32_of_range (by omega) (by omega)
  have hlast : int32 (sel - visible + 1) = sel - visible + 1 :=
    int32_of_range (by omega) (by omega)
  have hbelow : int32 ((if sel < top then sel else top) + visible) =
      (if sel < top then sel else top) + visible := by
    apply int32_of_range
    · split <;> omega
    · split <;> omega
  simp only [scrollTop, hrest, hback, hlast, hbelow, reveal]
  grind

theorem keyMove_some {m : Move} (h : keyMove key = some m) :
    (key = mblKeyUp ∧ m = .turn (-1)) ∨ (key = mblKeyDown ∧ m = .turn 1) ∨
    (key = mblKeyHome ∧ m = .first) ∨ (key = mblKeyEnd ∧ m = .last) ∨
    (key = mblKeyPgup ∧ m = .page (-visible)) ∨ (key = mblKeyPgdn ∧ m = .page visible) := by
  rw [keyMove] at h
  split_ifs at h <;> simp_all

theorem menuHandleKey_moved (hcount : count ≤ 2 ^ 31 - 19) (h : InWindow count sel top)
    {m : Move} (hkey : keyMove key = some m) :
    menuHandleKey key count sel top =
      ⟨0, m.target count sel, reveal visible (m.target count sel) top⟩ := by
  have hvisible : visible = 18 := rfl
  obtain ⟨hsel, hlt, htop, hle, -, -⟩ := h
  have hpos : 0 < count := lt_of_le_of_lt hsel hlt
  have hscroll := scrollTop_reveal hcount (target_nonneg hpos m sel) (target_lt hpos m sel)
    htop hle
  rw [← hscroll]
  have hlast : int32 (count - 1) = count - 1 := int32_of_range (by omega) (by omega)
  have hmoved : ∀ sel', sel' = m.target count sel →
      (⟨0, sel', scrollTop count sel' top⟩ : KeyEffect) =
        ⟨0, m.target count sel, scrollTop count (m.target count sel) top⟩ := by
    rintro sel' rfl
    rfl
  rcases keyMove_some hkey with ⟨rfl, rfl⟩ | ⟨rfl, rfl⟩ | ⟨rfl, rfl⟩ | ⟨rfl, rfl⟩ | ⟨rfl, rfl⟩ |
    ⟨rfl, rfl⟩
  · apply hmoved
    rw [int32_of_range (by omega) (by omega), hlast, Move.target]
    by_cases hfirst : sel = 0
    · subst hfirst
      rw [if_pos (by omega)]
      calc count - 1 = (count - 1) % count := (Int.emod_eq_of_lt (by omega) (by omega)).symm
        _ = (0 + -1 + count) % count := by rw [Int.zero_add, Int.add_comm, Int.sub_eq_add_neg]
        _ = (0 + -1) % count := Int.add_emod_right _ _
    · rw [if_neg (by omega)]
      exact (Int.emod_eq_of_lt (by omega) (by omega)).symm
  · apply hmoved
    rw [int32_of_range (by omega) (by omega), Move.target]
    split_ifs with hover
    · rw [show sel + 1 = count by omega, Int.emod_self]
    · exact (Int.emod_eq_of_lt (by omega) (by omega)).symm
  · rfl
  · apply hmoved
    exact hlast
  · apply hmoved
    rw [int32_of_range (by omega) (by omega), Move.target]
    split_ifs <;> omega
  · apply hmoved
    rw [int32_of_range (by omega) (by omega), hlast, Move.target]
    split_ifs <;> omega

theorem menuHandleKey_stays (hkey : keyMove key = none) :
    menuHandleKey key count sel top = ⟨keyAction key, sel, top⟩ := by
  simp only [keyMove] at hkey
  simp only [menuHandleKey, keyAction]
  split_ifs at hkey ⊢ <;> rfl

theorem keyAction_of_move {m : Move} (hkey : keyMove key = some m) : keyAction key = 0 := by
  rcases keyMove_some hkey with ⟨rfl, -⟩ | ⟨rfl, -⟩ | ⟨rfl, -⟩ | ⟨rfl, -⟩ | ⟨rfl, -⟩ | ⟨rfl, -⟩ <;>
    rfl

theorem viewAfter_snoc (count : Int) (keys : List Int) (key : Int) :
    viewAfter count (keys ++ [key]) =
      match keyMove key with
      | some m => (viewAfter count keys).move visible count m
      | none => viewAfter count keys := by
  cases hkey : keyMove key with
  | some m => simp [viewAfter, View.run, hkey, List.filterMap_append]
  | none => simp [viewAfter, View.run, hkey, List.filterMap_append]

theorem menuHandleKey_view (hcount : count ≤ 2 ^ 31 - 19) (h : InWindow count sel top)
    {keys : List Int} (hview : (⟨sel, top⟩ : View) = viewAfter count keys) (key : Int) :
    (menuHandleKey key count sel top).action = keyAction key ∧
      (⟨(menuHandleKey key count sel top).sel, (menuHandleKey key count sel top).top⟩ : View) =
        viewAfter count (keys ++ [key]) := by
  rw [viewAfter_snoc, ← hview]
  cases hkey : keyMove key with
  | some m =>
    rw [menuHandleKey_moved hcount h hkey]
    exact ⟨(keyAction_of_move hkey).symm, rfl⟩
  | none =>
    rw [menuHandleKey_stays hkey]
    exact ⟨rfl, rfl⟩

end Keys

def resultOf (action sel : Int) : Int :=
  if action = 1 then sel else if action = 2 then -1 else if action = 3 then -2 else 0

/-- No key polled so far has left the menu, and all have moved the view. -/
structure MenuMoved (inp : MenuInput) (count : Int) (s : MenuState) : Prop where
  window : InWindow count s.sel s.top
  view : s.view = viewAfter count (keysPolled inp s.polls)
  stayed : ∀ key ∈ keysPolled inp s.polls, keyAction key = 0

structure MenuLeft (inp : MenuInput) (count : Int) (n : Nat) (r : MenuResult) : Prop where
  polls : r.state.polls = n + 1
  view : r.state.view = viewAfter count (keysPolled inp (n + 1))
  stayed : ∀ key ∈ keysPolled inp n, keyAction key = 0
  result : r.result = resultOf (keyAction (inp.key n)) r.state.sel

section Runs
variable {inp : MenuInput} {count timeoutSecs : Int} {s t : MenuState} {r : MenuResult}

theorem keysPolled_succ (inp : MenuInput) (n : Nat) :
    keysPolled inp (n + 1) = keysPolled inp n ++ [inp.key n] := by
  simp [keysPolled, List.range_succ]

theorem menuRedraw_keeps (count : Int) (s : MenuState) :
    (menuRedraw count s).sel = s.sel ∧ (menuRedraw count s).top = s.top ∧
      (menuRedraw count s).polls = s.polls := by
  unfold menuRedraw
  split_ifs <;> exact ⟨rfl, rfl, rfl⟩

theorem menuClock_polls (inp : MenuInput) (timeoutSecs : Int) (s : MenuState) :
    (∀ r, menuClock inp timeoutSecs s = .inl r → r.state.polls = s.polls) ∧
    ∀ t, menuClock inp timeoutSecs s = .inr t → t.polls = s.polls := by
  unfold menuClock
  split_ifs
  · dsimp only
    split_ifs
    all_goals
      constructor <;> intro x hx <;> cases hx
      rfl
  · constructor <;> intro x hx <;> cases hx
    rfl

theorem menuClock_moved {n : Nat} (hpolls : s.polls = n + 1) (hmoved : MenuMoved inp count s) :
    (∀ r, menuClock inp timeoutSecs s = .inl r → MenuLeft inp count n r) ∧
    ∀ t, menuClock inp timeoutSecs s = .inr t → MenuMoved inp count t := by
  obtain ⟨hwindow, hview, hstayed⟩ := hmoved
  have hpolled := menuClock_polls inp timeoutSecs s
  constructor
  · intro r hr
    obtain ⟨hresult, hsel, htop, -⟩ := menuClock_exits hr
    have hlast : keyAction (inp.key n) = 0 := by
      apply hstayed
      rw [hpolls, keysPolled_succ]
      exact List.mem_append_right _ List.mem_cons_self
    refine ⟨(hpolled.1 r hr).trans hpolls, ?_, ?_, ?_⟩
    · rw [MenuState.view, hsel, htop, ← hpolls]
      exact hview
    · intro key hkey
      apply hstayed
      rw [hpolls, keysPolled_succ]
      exact List.mem_append_left _ hkey
    · rw [hresult, hlast]
      rfl
  · intro t ht
    obtain ⟨hsel, htop, -⟩ := menuClock_continues ht
    refine ⟨?_, ?_, ?_⟩
    · rw [hsel, htop]
      exact hwindow
    · rw [MenuState.view, hsel, htop, hpolled.2 t ht]
      exact hview
    · rw [hpolled.2 t ht]
      exact hstayed

theorem menuRound_moved (hcount : count ≤ 2 ^ 31 - 19) (h : MenuMoved inp count s) :
    (∀ r, menuRound inp count timeoutSecs s = .inl r → MenuLeft inp count s.polls r) ∧
    ∀ t, menuRound inp count timeoutSecs s = .inr t → MenuMoved inp count t := by
  obtain ⟨hsel, htop, hpolls⟩ := menuRedraw_keeps count s
  obtain ⟨hwindow, hview, hstayed⟩ := h
  have hkeys := keysPolled_succ inp s.polls
  obtain ⟨haction, hmoves⟩ := menuHandleKey_view hcount hwindow hview (inp.key s.polls)
  have hnext := menuHandleKey_inWindow hcount hwindow (inp.key s.polls)
  rw [← hkeys] at hmoves
  have hall : keyAction (inp.key s.polls) = 0 →
      ∀ key ∈ keysPolled inp (s.polls + 1), keyAction key = 0 := by
    intro hzero key hkey
    rw [hkeys, List.mem_append, List.mem_singleton] at hkey
    rcases hkey with hkey | rfl
    · exact hstayed key hkey
    · exact hzero
  simp only [menuRound, hsel, htop, hpolls]
  split_ifs with hpressed hboot hreboot hoff
  · constructor
    · intro r hr
      obtain rfl := Sum.inl.inj hr
      refine ⟨rfl, hmoves, hstayed, ?_⟩
      rw [← haction, hboot]
      rfl
    · intro t ht
      cases ht
  · constructor
    · intro r hr
      obtain rfl := Sum.inl.inj hr
      refine ⟨rfl, hmoves, hstayed, ?_⟩
      rw [← haction, hreboot]
      rfl
    · intro t ht
      cases ht
  · constructor
    · intro r hr
      obtain rfl := Sum.inl.inj hr
      refine ⟨rfl, hmoves, hstayed, ?_⟩
      rw [← haction, hoff]
      rfl
    · intro t ht
      cases ht
  · have hzero : keyAction (inp.key s.polls) = 0 := by
      simp only [haction, keyAction] at hboot hreboot hoff ⊢
      split_ifs at hboot hreboot hoff ⊢ <;> simp_all
    exact menuClock_moved rfl ⟨hnext, hmoves, hall hzero⟩
  · have hnone : inp.key s.polls = mblKeyNone := not_not.mp hpressed
    have hzero : keyAction (inp.key s.polls) = 0 := by
      rw [hnone]
      rfl
    have hstill : menuHandleKey (inp.key s.polls) count s.sel s.top = ⟨0, s.sel, s.top⟩ := by
      rw [hnone]
      rfl
    rw [hstill] at hmoves
    apply menuClock_moved rfl
    exact ⟨by simpa only [hsel, htop] using hwindow, by
      simpa only [MenuState.view, hsel, htop] using hmoves, hall hzero⟩

theorem menuStart_moved (hpos : 1 ≤ count) :
    MenuMoved inp count (menuStart inp timeoutSecs) where
  window := (menuStart_well hpos).window
  view := rfl
  stayed := nofun

theorem menu_moved (inp : MenuInput) (timeoutSecs : Int) (hpos : 1 ≤ count)
    (hcount : count ≤ 2 ^ 31 - 19) :
    (∀ k s, BoundedLoop.Reaches (menuStep inp count timeoutSecs) (menuStart inp timeoutSecs) k s →
      MenuMoved inp count s) ∧
    ∀ r, MenuReturns inp count timeoutSecs r → ∃ n, MenuLeft inp count n r := by
  have hround : menuStep inp count timeoutSecs = menuRound inp count timeoutSecs := by
    funext s
    exact if_neg (by omega)
  unfold MenuReturns
  rw [hround]
  apply BoundedLoop.invariant_returns (menuStart_moved hpos)
  · intro s t hs ht
    exact (menuRound_moved hcount hs).2 t ht
  · intro s r hs hr
    exact ⟨s.polls, (menuRound_moved hcount hs).1 r hr⟩

/-- Every run of the menu moves a scrolled list by the keys polled, and what it returns is told
by the last one. -/
theorem menuRun_cursor (inp : MenuInput) (timeoutSecs : Int) (hpos : 1 ≤ count)
    (hcount : count ≤ 2 ^ 31 - 19) :
    (∀ s, MenuReaches inp count timeoutSecs s → MenuMoved inp count s) ∧
      ∀ r, MenuReturns inp count timeoutSecs r → ∃ n, MenuLeft inp count n r := by
  obtain ⟨hreach, hreturn⟩ := menu_moved inp timeoutSecs hpos hcount
  refine ⟨?_, hreturn⟩
  rintro s ⟨k, hs⟩
  exact hreach k s hs

theorem secondEntry_cursor :
    ∃ r, MenuReturns
      ⟨fun n => if n = 0 then mblKeyDown else mblKeyEnter, fun _ => 0, true⟩ 20 10 r ∧
      r.result = 1 ∧ ∃ n, MenuLeft ⟨fun n => if n = 0 then mblKeyDown else mblKeyEnter,
        fun _ => 0, true⟩ 20 n r := by
  have hreturns : MenuReturns
      ⟨fun n => if n = 0 then mblKeyDown else mblKeyEnter, fun _ => 0, true⟩ 20 10 _ :=
    ⟨1, _, .next .start rfl, rfl⟩
  exact ⟨_, hreturns, by decide,
    (menuRun_cursor _ 10 (by decide) (by decide)).2 _ hreturns⟩

theorem turns_of_keys {keys : List Int}
    (h : ∀ key ∈ keys, key = mblKeyUp ∨ key = mblKeyDown ∨ keyMove key = none) :
    ∃ turns : List Int, keys.filterMap keyMove = turns.map Move.turn ∧
      turns.sum = (keys.count mblKeyDown : Int) - keys.count mblKeyUp := by
  induction keys with
  | nil => exact ⟨[], rfl, rfl⟩
  | cons key keys ih =>
    obtain ⟨turns, hturns, hsum⟩ := ih fun k hk => h k (List.mem_cons_of_mem key hk)
    rcases h key List.mem_cons_self with rfl | rfl | hnone
    · refine ⟨-1 :: turns, ?_, ?_⟩
      · rw [List.filterMap_cons_some (show keyMove mblKeyUp = some (.turn (-1)) from rfl), hturns,
          List.map_cons]
      · rw [List.sum_cons, hsum, List.count_cons_self,
          List.count_cons_of_ne (show mblKeyUp ≠ mblKeyDown by decide)]
        omega
    · refine ⟨1 :: turns, ?_, ?_⟩
      · rw [List.filterMap_cons_some (show keyMove mblKeyDown = some (.turn 1) from rfl), hturns,
          List.map_cons]
      · rw [List.sum_cons, hsum, List.count_cons_self,
          List.count_cons_of_ne (show mblKeyDown ≠ mblKeyUp by decide)]
        omega
    · refine ⟨turns, ?_, ?_⟩
      · rw [List.filterMap_cons_none hnone, hturns]
      · rw [hsum, List.count_cons_of_ne, List.count_cons_of_ne]
        · rintro rfl
          cases hnone
        · rintro rfl
          cases hnone

theorem viewAfter_turns {keys : List Int} (hpos : 0 < count)
    (h : ∀ key ∈ keys, key = mblKeyUp ∨ key = mblKeyDown ∨ keyMove key = none) :
    (viewAfter count keys).sel =
      ((keys.count mblKeyDown : Int) - keys.count mblKeyUp) % count := by
  obtain ⟨turns, hturns, hsum⟩ := turns_of_keys h
  rw [viewAfter, hturns, run_turns (le_refl 0) hpos, hsum, Int.zero_add]

/-- In every state reached the next key scrolls no further than it has to, and turns alone leave
the selection at their balance. -/
theorem menuRun_scrolls (inp : MenuInput) (timeoutSecs : Int) (hpos : 1 ≤ count)
    (hcount : count ≤ 2 ^ 31 - 19) (hs : MenuReaches inp count timeoutSecs s) :
    (∀ key top', InWindow count (menuHandleKey key count s.sel s.top).sel top' →
      top' = (menuHandleKey key count s.sel s.top).top ∨
        |(menuHandleKey key count s.sel s.top).top - s.top| < |top' - s.top|) ∧
    ((∀ key ∈ keysPolled inp s.polls, key = mblKeyUp ∨ key = mblKeyDown ∨ keyMove key = none) →
      s.sel = (((keysPolled inp s.polls).count mblKeyDown : Int) -
        (keysPolled inp s.polls).count mblKeyUp) % count) := by
  obtain ⟨k, hk⟩ := hs
  have hmoved := (menu_moved inp timeoutSecs hpos hcount).1 k s hk
  constructor
  · intro key top' hshown
    cases hkey : keyMove key with
    | some m =>
      rw [menuHandleKey_moved hcount hmoved.window hkey] at hshown ⊢
      exact reveal_nearest hshown.top_le_sel hshown.sel_lt_top
    | none =>
      rw [menuHandleKey_stays hkey]
      by_cases hsame : top' = s.top
      · exact .inl hsame
      · refine .inr ?_
        rw [Int.sub_self, abs_zero, abs_pos]
        omega
  · intro hturns
    have hsel := congrArg View.sel hmoved.view
    rw [viewAfter_turns (by omega) hturns] at hsel
    exact hsel

theorem lastEntry_scrolls :
    ∃ s, MenuReaches ⟨fun _ => mblKeyUp, fun _ => 0, true⟩ 20 10 s ∧ s.polls = 1 ∧
      s.sel = (((keysPolled ⟨fun _ => mblKeyUp, fun _ => 0, true⟩ s.polls).count mblKeyDown : Int) -
        (keysPolled ⟨fun _ => mblKeyUp, fun _ => 0, true⟩ s.polls).count mblKeyUp) % 20 := by
  have hreach : MenuReaches ⟨fun _ => mblKeyUp, fun _ => 0, true⟩ 20 10 _ :=
    ⟨1, .next .start rfl⟩
  refine ⟨_, hreach, rfl, (menuRun_scrolls _ 10 (by decide) (by decide) hreach).2 ?_⟩
  intro key hkey
  simp only [keysPolled, List.mem_map] at hkey
  obtain ⟨n, -, rfl⟩ := hkey
  exact .inl rfl

end Runs

end ModularBootloader
