import ModularBootloader.MenuStatus
import ModularBootloader.Lib.ByteStore

/-!
# The countdown

The clock answers with the seconds of a minute, or not at all, and `menu_run`
adds up the differences modulo sixty. The sum counts how often a reading falls
below the one before it; with a clock that always answers it is the time that
passed.
-/

namespace ModularBootloader
open ByteStore

abbrev TimeService := Option (Nat → Option Bytes)

def efiGetSeconds (gRT : TimeService) (nth : Nat) : UInt8 :=
  match gRT with
  | none => 0
  | some getTime =>
    match getTime nth with
    | none => 0
    | some timeBuf => timeBuf 6

def rtcGetSeconds (gRT : TimeService) (nth : Nat) : UInt8 := efiGetSeconds gRT nth

def TimeService.answer (gRT : TimeService) (nth : Nat) : Option Bytes := gRT.bind (· nth)

/-- Call by call, the clock fails or shows the second of the minute at `t`. -/
structure ShowsTime (gRT : TimeService) (t : Nat → Nat) : Prop where
  mono : Monotone t
  gap : ∀ k, t (k + 1) - t k < 60
  second : ∀ k buf, gRT.answer k = some buf → (buf 6).toNat = t k % 60

def minuteWraps (r : Nat → UInt8) : Nat → Nat
  | 0 => 0
  | k + 1 => minuteWraps r k + if r (k + 1) < r k then 1 else 0

def counted (r : Nat → UInt8) (k : Nat) : Int :=
  60 * minuteWraps r k + (r k).toNat - (r 0).toNat

section Readings
variable {gRT : TimeService} {t : Nat → Nat} {r : Nat → UInt8}

theorem efiGetSeconds_some {k : Nat} {buf : Bytes} (h : gRT.answer k = some buf) :
    efiGetSeconds gRT k = buf 6 := by
  cases gRT with
  | none => cases h
  | some getTime =>
    have hcall : getTime k = some buf := h
    simp only [efiGetSeconds, hcall]

theorem efiGetSeconds_none {k : Nat} (h : gRT.answer k = none) : efiGetSeconds gRT k = 0 := by
  cases gRT with
  | none => rfl
  | some getTime =>
    have hcall : getTime k = none := h
    simp only [efiGetSeconds, hcall]

theorem ShowsTime.lt_sixty (h : ShowsTime gRT t) (k : Nat) : (rtcGetSeconds gRT k).toNat < 60 := by
  rw [rtcGetSeconds]
  cases hcall : gRT.answer k with
  | none =>
    rw [efiGetSeconds_none hcall]
    decide
  | some buf =>
    rw [efiGetSeconds_some hcall, h.second k buf hcall]
    omega

theorem secondsDelta_eq (last now : UInt8) : secondsDelta last now =
    (if now.toNat < last.toNat then 60 else 0) + now.toNat - last.toNat := by
  have hle : now ≥ last ↔ last.toNat ≤ now.toNat := UInt8.le_iff_toNat_le
  unfold secondsDelta
  rw [if_congr hle rfl rfl]
  split_ifs <;> omega

theorem counted_zero (r : Nat → UInt8) : counted r 0 = 0 := by
  simp only [counted, minuteWraps]
  omega

theorem counted_succ (r : Nat → UInt8) (k : Nat) :
    counted r (k + 1) = counted r k + secondsDelta (r k) (r (k + 1)) := by
  rw [secondsDelta_eq]
  simp only [counted, minuteWraps, UInt8.lt_iff_toNat_lt]
  split_ifs <;> omega

theorem secondsDelta_range {last now : UInt8} (hlast : last.toNat < 60) (hnow : now.toNat < 60) :
    0 ≤ secondsDelta last now ∧ secondsDelta last now < 60 ∧
      (now = last → secondsDelta last now = 0) := by
  rw [secondsDelta_eq]
  refine ⟨?_, ?_, ?_⟩
  · split_ifs <;> omega
  · split_ifs <;> omega
  · intro heq
    rw [heq, if_neg (by omega)]
    omega

theorem counted_le_succ (hr : ∀ k, (r k).toNat < 60) (k : Nat) :
    counted r k ≤ counted r (k + 1) := by
  have hrange := secondsDelta_range (hr k) (hr (k + 1))
  rw [counted_succ]
  omega

theorem ShowsTime.counted_eq (h : ShowsTime gRT t) (hruns : ∀ k, gRT.answer k ≠ none) (k : Nat) :
    counted (rtcGetSeconds gRT) k = t k - t 0 := by
  have hreading : ∀ k, (rtcGetSeconds gRT k).toNat = t k % 60 := by
    intro j
    obtain ⟨buf, hbuf⟩ := Option.ne_none_iff_exists'.mp (hruns j)
    rw [rtcGetSeconds, efiGetSeconds_some hbuf]
    exact h.second j buf hbuf
  induction k with
  | zero => rw [counted_zero, Int.sub_self]
  | succ k ih =>
    have hmono : t k ≤ t (k + 1) := h.mono (by omega)
    have hgap := h.gap k
    have hnow := hreading (k + 1)
    have hlast := hreading k
    rw [counted_succ, ih, secondsDelta_eq]
    split_ifs <;> omega

end Readings

def Quiet (key : Int) : Prop :=
  key ≠ mblKeyEnter ∧ key ≠ mblKeyEsc ∧ key ≠ mblKeyReboot ∧ key ≠ mblKeyShutdown

/-- The clock was read after the last key: the menu left at its timeout. -/
def TimedOut (r : MenuResult) : Prop := r.state.readings = r.state.polls + 1

structure Ticking (r : Nat → UInt8) (timeoutSecs : Int) (k : Nat) (s : MenuState) : Prop where
  polls : s.polls = k
  readings : s.readings = k + 1
  lastSec : s.lastSec = r k
  remaining : s.remaining = timeoutSecs - counted r k
  runs : counted r k < timeoutSecs

structure RanOut (r : Nat → UInt8) (timeoutSecs : Int) (k : Nat) (res : MenuResult) : Prop where
  result : res.result = 0
  timedOut : TimedOut res
  polls : res.state.polls = k
  remaining : res.state.remaining = timeoutSecs - counted r k
  out : timeoutSecs ≤ counted r k

theorem menuHandleKey_quiet {key : Int} (h : Quiet key) (count sel top : Int) :
    (menuHandleKey key count sel top).action = 0 := by
  obtain ⟨henter, hesc, hreboot, hoff⟩ := h
  simp only [menuHandleKey, henter, hesc, hreboot, hoff, or_self, if_false]
  split_ifs <;> rfl

section Rounds
variable {inp : MenuInput} {count timeoutSecs : Int} {k : Nat} {s t : MenuState} {res : MenuResult}

theorem menuRedraw_ticking (count : Int) (hs : Ticking inp.seconds timeoutSecs k s) :
    Ticking inp.seconds timeoutSecs k (menuRedraw count s) := by
  unfold menuRedraw
  split
  · exact ⟨hs.polls, hs.readings, hs.lastSec, hs.remaining, hs.runs⟩
  · exact hs

variable (hseconds : ∀ k, (inp.seconds k).toNat < 60)
variable (hpos : 0 < timeoutSecs) (hint : timeoutSecs < 2 ^ 31)

include hseconds hpos hint

theorem remaining_next (hrem : s.remaining = timeoutSecs - counted inp.seconds k)
    (hruns : counted inp.seconds k < timeoutSecs) (hstart : 0 ≤ counted inp.seconds k) :
    int32 (s.remaining - secondsDelta (inp.seconds k) (inp.seconds (k + 1))) =
      timeoutSecs - counted inp.seconds (k + 1) := by
  obtain ⟨hlo, hhi, -⟩ := secondsDelta_range (hseconds k) (hseconds (k + 1))
  have hnext := counted_succ inp.seconds k
  rw [int32_of_range (by omega) (by omega)]
  omega

theorem menuClock_runsOut (h : menuClock inp timeoutSecs s = .inl res) (hpolls : s.polls = k + 1)
    (hreadings : s.readings = k + 1) (hlast : s.lastSec = inp.seconds k)
    (hrem : s.remaining = timeoutSecs - counted inp.seconds k)
    (hruns : counted inp.seconds k < timeoutSecs) (hstart : 0 ≤ counted inp.seconds k) :
    RanOut inp.seconds timeoutSecs (k + 1) res := by
  have hwide := remaining_next hseconds hpos hint hrem hruns hstart
  simp only [menuClock, if_pos hpos, hreadings, hlast, hwide] at h
  split_ifs at h with hsame hout
  obtain rfl := Sum.inl.inj h
  constructor
  · rfl
  · rw [TimedOut]
    dsimp only
    omega
  · exact hpolls
  · rfl
  · omega

theorem menuClock_ticks (h : menuClock inp timeoutSecs s = .inr t) (hpolls : s.polls = k + 1)
    (hreadings : s.readings = k + 1) (hlast : s.lastSec = inp.seconds k)
    (hrem : s.remaining = timeoutSecs - counted inp.seconds k)
    (hruns : counted inp.seconds k < timeoutSecs) (hstart : 0 ≤ counted inp.seconds k) :
    Ticking inp.seconds timeoutSecs (k + 1) t := by
  have hwide := remaining_next hseconds hpos hint hrem hruns hstart
  simp only [menuClock, if_pos hpos, hreadings, hlast, hwide] at h
  split_ifs at h with hsame hout
  · have hnext := counted_succ inp.seconds k
    have hzero := (secondsDelta_range (hseconds k) (hseconds (k + 1))).2.2 hsame
    obtain rfl := Sum.inr.inj h
    constructor
    · exact hpolls
    · rfl
    · exact hsame.symm
    · show s.remaining = timeoutSecs - counted inp.seconds (k + 1)
      omega
    · omega
  · obtain rfl := Sum.inr.inj h
    constructor
    · exact hpolls
    · rfl
    · rfl
    · rfl
    · omega

theorem menuRound_stays (hs : Ticking inp.seconds timeoutSecs k s)
    (hstart : 0 ≤ counted inp.seconds k) (h : menuRound inp count timeoutSecs s = .inr t) :
    Ticking inp.seconds timeoutSecs (k + 1) t := by
  obtain ⟨hpolls, hreadings, hlast, hrem, hruns⟩ := menuRedraw_ticking count hs
  simp only [menuRound, hpolls] at h
  split_ifs at h
  · exact menuClock_ticks hseconds hpos hint h rfl hreadings hlast hrem hruns hstart
  · exact menuClock_ticks hseconds hpos hint h rfl hreadings hlast hrem hruns hstart

theorem menuRound_leaves (hs : Ticking inp.seconds timeoutSecs k s)
    (hstart : 0 ≤ counted inp.seconds k) (h : menuRound inp count timeoutSecs s = .inl res) :
    (Quiet (inp.key k) → RanOut inp.seconds timeoutSecs (k + 1) res) ∧
      (TimedOut res → RanOut inp.seconds timeoutSecs (k + 1) res) := by
  obtain ⟨hpolls, hreadings, hlast, hrem, hruns⟩ := menuRedraw_ticking count hs
  have hquiet : Quiet (inp.key k) → (menuHandleKey (inp.key k) count (menuRedraw count s).sel
      (menuRedraw count s).top).action = 0 := fun hq => menuHandleKey_quiet hq _ _ _
  -- A key that leaves does so before the clock is read.
  have hkept : ∀ (result : Int) (u : MenuState), u.polls = k + 1 → u.readings = k + 1 →
      ¬ TimedOut ⟨result, u⟩ := by
    intro result u hup hur htimed
    rw [TimedOut] at htimed
    dsimp only at htimed
    omega
  simp only [menuRound, hpolls] at h
  split_ifs at h with hkey hboot hreboot hoff
  · obtain rfl := Sum.inl.inj h
    refine ⟨fun hq => absurd (hboot.symm.trans (hquiet hq)) (by decide), fun htimed => ?_⟩
    exact absurd htimed (hkept _ _ rfl hreadings)
  · obtain rfl := Sum.inl.inj h
    refine ⟨fun hq => absurd (hreboot.symm.trans (hquiet hq)) (by decide), fun htimed => ?_⟩
    exact absurd htimed (hkept _ _ rfl hreadings)
  · obtain rfl := Sum.inl.inj h
    refine ⟨fun hq => absurd (hoff.symm.trans (hquiet hq)) (by decide), fun htimed => ?_⟩
    exact absurd htimed (hkept _ _ rfl hreadings)
  · have hout := menuClock_runsOut hseconds hpos hint h rfl hreadings hlast hrem hruns hstart
    exact ⟨fun _ => hout, fun _ => hout⟩
  · have hout := menuClock_runsOut hseconds hpos hint h rfl hreadings hlast hrem hruns hstart
    exact ⟨fun _ => hout, fun _ => hout⟩

end Rounds

section Runs
variable {inp : MenuInput} {count timeoutSecs : Int} {k : Nat} {s : MenuState} {res : MenuResult}

theorem counted_nonneg {r : Nat → UInt8} (hr : ∀ k, (r k).toNat < 60) (k : Nat) :
    0 ≤ counted r k := by
  induction k with
  | zero => exact (counted_zero r).ge
  | succ k ih => exact ih.trans (counted_le_succ hr k)

theorem counted_mono {r : Nat → UInt8} (hr : ∀ k, (r k).toNat < 60) : Monotone (counted r) :=
  monotone_nat_of_le_succ (counted_le_succ hr)

theorem menuStep_some (hcount : 1 ≤ count) :
    menuStep inp count timeoutSecs s = menuRound inp count timeoutSecs s := if_neg (by omega)

variable (hseconds : ∀ k, (inp.seconds k).toNat < 60) (hcount : 1 ≤ count)
variable (hpos : 0 < timeoutSecs) (hint : timeoutSecs < 2 ^ 31)
include hseconds hcount hpos hint

theorem reaches_ticking
    (h : BoundedLoop.Reaches (menuStep inp count timeoutSecs) (menuStart inp timeoutSecs) k s) :
    Ticking inp.seconds timeoutSecs k s := by
  apply h.invariant (I := fun k s => Ticking inp.seconds timeoutSecs k s)
  · have hzero := counted_zero inp.seconds
    constructor
    · rfl
    · rfl
    · rfl
    · rw [hzero, Int.sub_zero]
      rfl
    · omega
  · intro j a b _ ha hb
    rw [menuStep_some hcount] at hb
    exact menuRound_stays hseconds hpos hint ha (counted_nonneg hseconds j) hb

theorem reaches_of_counted (hkeys : ∀ n, Quiet (inp.key n))
    (hk : counted inp.seconds k < timeoutSecs) :
    ∃ s, BoundedLoop.Reaches (menuStep inp count timeoutSecs) (menuStart inp timeoutSecs) k s := by
  induction k with
  | zero => exact ⟨_, .start⟩
  | succ k ih =>
    have hle := counted_le_succ hseconds k
    obtain ⟨s, hs⟩ := ih (by omega)
    have hticks := reaches_ticking hseconds hcount hpos hint hs
    cases hstep : menuStep inp count timeoutSecs s with
    | inr t => exact ⟨t, .next hs hstep⟩
    | inl res =>
      rw [menuStep_some hcount] at hstep
      have hout := (menuRound_leaves hseconds hpos hint hticks (counted_nonneg hseconds k)
        hstep).1 (hkeys k)
      exact absurd hout.out (by omega)

theorem returns_of_counted (hkeys : ∀ n, Quiet (inp.key n))
    (hk : timeoutSecs ≤ counted inp.seconds k)
    (hfirst : ∀ j < k, counted inp.seconds j < timeoutSecs) :
    ∃ res, MenuReturns inp count timeoutSecs res ∧ RanOut inp.seconds timeoutSecs k res := by
  have hzero := counted_zero inp.seconds
  cases k with
  | zero => omega
  | succ k =>
    obtain ⟨s, hs⟩ := reaches_of_counted hseconds hcount hpos hint hkeys
      (hfirst k (Nat.lt_succ_self k))
    have hticks := reaches_ticking hseconds hcount hpos hint hs
    cases hstep : menuStep inp count timeoutSecs s with
    | inr t =>
      have hnext := reaches_ticking hseconds hcount hpos hint (.next hs hstep)
      exact absurd hnext.runs (by omega)
    | inl res =>
      refine ⟨res, ⟨k, s, hs, hstep⟩, ?_⟩
      rw [menuStep_some hcount] at hstep
      exact (menuRound_leaves hseconds hpos hint hticks (counted_nonneg hseconds k)
        hstep).1 (hkeys k)

theorem timedOut_ranOut (hres : MenuReturns inp count timeoutSecs res) (htimed : TimedOut res) :
    RanOut inp.seconds timeoutSecs res.state.polls res := by
  obtain ⟨k, s, hs, hstep⟩ := hres
  have hticks := reaches_ticking hseconds hcount hpos hint hs
  rw [menuStep_some hcount] at hstep
  have hout := (menuRound_leaves hseconds hpos hint hticks (counted_nonneg hseconds k)
    hstep).2 htimed
  rw [hout.polls]
  exact hout

theorem quiet_ranOut (hkeys : ∀ n, Quiet (inp.key n))
    (hres : MenuReturns inp count timeoutSecs res) :
    RanOut inp.seconds timeoutSecs res.state.polls res ∧
      ∀ j < res.state.polls, counted inp.seconds j < timeoutSecs := by
  obtain ⟨k, s, hs, hstep⟩ := hres
  have hticks := reaches_ticking hseconds hcount hpos hint hs
  rw [menuStep_some hcount] at hstep
  have hout := (menuRound_leaves hseconds hpos hint hticks (counted_nonneg hseconds k)
    hstep).1 (hkeys k)
  rw [hout.polls]
  refine ⟨hout, ?_⟩
  intro j hj
  exact lt_of_le_of_lt (counted_mono hseconds (Nat.le_of_lt_succ hj)) hticks.runs

end Runs

section Time
variable {gRT : TimeService} {t : Nat → Nat} {count timeoutSecs : Int}
variable (hclock : ShowsTime gRT t) (hcount : 1 ≤ count)
variable (hpos : 0 < timeoutSecs) (hint : timeoutSecs < 2 ^ 31)
include hclock hcount hpos hint

/-- With a clock that always answers and no key that leaves, `k` polls leave the
timeout less the time that passed, and the first poll past it returns. -/
theorem menuRun_countsDown (hruns : ∀ k, gRT.answer k ≠ none) {key : Nat → Int}
    (hkeys : ∀ n, Quiet (key n)) :
    (∀ k : Nat, (t k : Int) - t 0 < timeoutSecs →
      ∃ s, BoundedLoop.Reaches (menuStep ⟨key, rtcGetSeconds gRT, gRT.isSome⟩ count timeoutSecs)
          (menuStart ⟨key, rtcGetSeconds gRT, gRT.isSome⟩ timeoutSecs) k s ∧
        s.polls = k ∧ s.remaining = timeoutSecs - (t k - t 0)) ∧
    (∀ k : Nat, timeoutSecs ≤ (t k : Int) - t 0 → (∀ j < k, (t j : Int) - t 0 < timeoutSecs) →
      ∃ res, MenuReturns ⟨key, rtcGetSeconds gRT, gRT.isSome⟩ count timeoutSecs res ∧
        res.result = 0 ∧ res.state.polls = k ∧ res.state.remaining = timeoutSecs - (t k - t 0)) ∧
    ∀ res, MenuReturns ⟨key, rtcGetSeconds gRT, gRT.isSome⟩ count timeoutSecs res →
      res.result = 0 ∧ timeoutSecs ≤ (t res.state.polls : Int) - t 0 ∧
        ∀ j < res.state.polls, (t j : Int) - t 0 < timeoutSecs := by
  have hexact := fun k => hclock.counted_eq hruns k
  have hseconds : ∀ k, ((MenuInput.mk key (rtcGetSeconds gRT) gRT.isSome).seconds k).toNat < 60 :=
    hclock.lt_sixty
  refine ⟨?_, ?_, ?_⟩
  · intro k hk
    obtain ⟨s, hs⟩ := reaches_of_counted hseconds hcount hpos hint hkeys (k := k) (by
      rw [hexact]
      exact hk)
    have hticks := reaches_ticking hseconds hcount hpos hint hs
    refine ⟨s, hs, hticks.polls, ?_⟩
    rw [hticks.remaining, hexact]
  · intro k hk hfirst
    obtain ⟨res, hres, hout⟩ := returns_of_counted hseconds hcount hpos hint hkeys (k := k) (by
      rw [hexact]
      exact hk) (by
      intro j hj
      rw [hexact]
      exact hfirst j hj)
    refine ⟨res, hres, hout.result, hout.polls, ?_⟩
    rw [hout.remaining, hexact]
  · intro res hres
    obtain ⟨hout, hfirst⟩ := quiet_ranOut hseconds hcount hpos hint hkeys hres
    refine ⟨hout.result, ?_, ?_⟩
    · rw [← hexact]
      exact hout.out
    · intro j hj
      rw [← hexact]
      exact hfirst j hj

/-- The menu never times out early if and only if, less than the timeout after
the first reading, the readings have not come round the minute too often. -/
theorem menuRun_neverEarly :
    (∀ key res, MenuReturns ⟨key, rtcGetSeconds gRT, gRT.isSome⟩ count timeoutSecs res →
      TimedOut res → timeoutSecs ≤ (t res.state.polls : Int) - t 0) ↔
    ∀ k : Nat, (t k : Int) - t 0 < timeoutSecs →
      60 * minuteWraps (rtcGetSeconds gRT) k + (rtcGetSeconds gRT k).toNat <
        timeoutSecs + (rtcGetSeconds gRT 0).toNat := by
  have hbelow : ∀ k, 60 * minuteWraps (rtcGetSeconds gRT) k + (rtcGetSeconds gRT k).toNat <
      timeoutSecs + (rtcGetSeconds gRT 0).toNat ↔
      counted (rtcGetSeconds gRT) k < timeoutSecs := by
    intro k
    rw [counted]
    omega
  simp only [hbelow]
  constructor
  · intro hnever k hk
    by_contra hout
    have hseconds : ∀ k, ((MenuInput.mk (fun _ => mblKeyNone) (rtcGetSeconds gRT)
        gRT.isSome).seconds k).toNat < 60 := hclock.lt_sixty
    have hkeys : ∀ _ : Nat, Quiet mblKeyNone := by
      intro _
      rw [Quiet]
      decide
    -- The first poll at which the clock has run out.
    have hsome : ∃ k, timeoutSecs ≤ counted (rtcGetSeconds gRT) k := ⟨k, by omega⟩
    classical
    obtain ⟨res, hres, hran⟩ := returns_of_counted hseconds hcount hpos hint hkeys
      (Nat.find_spec hsome) fun j hj => not_le.mp (Nat.find_min hsome hj)
    have hlate := hnever _ res hres hran.timedOut
    rw [hran.polls] at hlate
    have hle : Nat.find hsome ≤ k := Nat.find_min' hsome (by omega)
    have hmono := hclock.mono hle
    omega
  · intro hslow key res hres htimed
    have hseconds : ∀ k, ((MenuInput.mk key (rtcGetSeconds gRT) gRT.isSome).seconds k).toNat < 60 :=
      hclock.lt_sixty
    have hran := timedOut_ranOut hseconds hcount hpos hint hres htimed
    by_contra hearly
    have hruns := hslow res.state.polls (by omega)
    exact absurd hran.out (not_le.mpr hruns)

end Time

def clockAt (t : Nat → Nat) (fails : Nat → Bool) : TimeService :=
  some fun k => if fails k then none else some fun _ => UInt8.ofNat (t k % 60)

theorem clockAt_showsTime {t : Nat → Nat} (fails : Nat → Bool) (hmono : Monotone t)
    (hgap : ∀ k, t (k + 1) - t k < 60) : ShowsTime (clockAt t fails) t := by
  refine ⟨hmono, hgap, ?_⟩
  intro k buf hbuf
  have hcall : (if fails k then none else some fun _ => UInt8.ofNat (t k % 60)) = some buf := hbuf
  split_ifs at hcall
  obtain rfl := Option.some.inj hcall
  rw [UInt8.toNat_ofNat']
  omega

theorem tenSeconds_countsDown : ∃ res,
    MenuReturns ⟨fun _ => mblKeyNone, rtcGetSeconds (clockAt id fun _ => false),
      (clockAt id fun _ => false).isSome⟩ 1 10 res ∧
      res.result = 0 ∧ res.state.polls = 10 ∧ res.state.remaining = 10 - (10 - 0) := by
  have hshows : ShowsTime (clockAt id fun _ => false) id := by
    apply clockAt_showsTime _ monotone_id
    intro k
    simp only [id]
    omega
  have hkeys : Nat → Quiet mblKeyNone := by
    intro _
    rw [Quiet]
    decide
  exact (menuRun_countsDown hshows (by decide) (by decide) (by decide)
    (fun k => Option.some_ne_none _) hkeys).2.1 10 (by decide) (by decide)

def lostReading : TimeService := clockAt (fun _ => 30) fun k => k == 1

theorem lostReading_showsTime : ShowsTime lostReading fun _ => 30 :=
  clockAt_showsTime _ monotone_const fun _ => by decide

theorem lostReading_neverEarly :
    (∀ key res, MenuReturns ⟨key, rtcGetSeconds lostReading, lostReading.isSome⟩ 1 10 res →
      TimedOut res → (10 : Int) ≤ (30 : Nat) - (30 : Nat)) ↔
    ∀ k : Nat, ((30 : Nat) : Int) - (30 : Nat) < 10 →
      60 * minuteWraps (rtcGetSeconds lostReading) k + (rtcGetSeconds lostReading k).toNat <
        (10 : Int) + (rtcGetSeconds lostReading 0).toNat :=
  menuRun_neverEarly lostReading_showsTime (by decide) (by decide) (by decide)

theorem lostReading_bootsEarly : ∃ res,
    MenuReturns ⟨fun _ => mblKeyNone, rtcGetSeconds lostReading, lostReading.isSome⟩ 1 10 res ∧
      TimedOut res ∧ ¬ (10 : Int) ≤ (30 : Nat) - (30 : Nat) := by
  refine ⟨_, ⟨0, _, .start, rfl⟩, ?_, by decide⟩
  rw [TimedOut]
  rfl

end ModularBootloader
