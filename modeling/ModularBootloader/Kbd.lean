import ModularBootloader.MenuClock

/-!
# Waiting for a key

`kbd_wait` polls the console and, between two polls without a key, spins until
the seconds of the clock change. The keys and the readings of the clock are two
independent streams, and a failing clock reads zero for ever.
-/

namespace ModularBootloader

structure EfiInputKey where
  scanCode : UInt16
  unicodeChar : UInt16
  deriving DecidableEq, Repr

/-- `gConIn` if there is one: what `ReadKeyStroke` delivers at each call, nothing
on an error status. -/
abbrev TextInput := Option (Nat → Option EfiInputKey)

def scanUp : UInt16 := 0x01
def scanDown : UInt16 := 0x02
def scanHome : UInt16 := 0x06
def scanEnd : UInt16 := 0x0B
def scanPageUp : UInt16 := 0x09
def scanPageDown : UInt16 := 0x0D

def keyCode (key : EfiInputKey) : Int :=
  if key.scanCode = scanUp then mblKeyUp
  else if key.scanCode = scanDown then mblKeyDown
  else if key.scanCode = scanHome then mblKeyHome
  else if key.scanCode = scanEnd then mblKeyEnd
  else if key.scanCode = scanPageUp then mblKeyPgup
  else if key.scanCode = scanPageDown then mblKeyPgdn
  else if key.unicodeChar = 0x0D then mblKeyEnter
  else if key.unicodeChar = 0x1B then mblKeyEsc
  else if key.unicodeChar = 'r'.val.toUInt16 ∨ key.unicodeChar = 'R'.val.toUInt16 then
    mblKeyReboot
  else if key.unicodeChar = 's'.val.toUInt16 ∨ key.unicodeChar = 'S'.val.toUInt16 then
    mblKeyShutdown
  else mblKeyNone

def kbdPoll (gConIn : TextInput) (nth : Nat) : Int :=
  match gConIn with
  | none => mblKeyNone
  | some readKeyStroke =>
    match readKeyStroke nth with
    | none => mblKeyNone
    | some key => keyCode key

/-- `kbd_wait` before its next call to the firmware: `tick` holds `t0` while the
inner loop spins. -/
structure KbdState where
  tick : Option UInt8
  polls : Nat
  readings : Nat
  deriving DecidableEq, Repr

def kbdWaitStep (gConIn : TextInput) (gRT : TimeService) (s : KbdState) : Int ⊕ KbdState :=
  match s.tick with
  | none =>
    let code := kbdPoll gConIn s.polls
    let s := { s with polls := s.polls + 1 }
    if code ≠ mblKeyNone then .inl code
    else if gRT.isSome then
      .inr { s with tick := some (efiGetSeconds gRT s.readings), readings := s.readings + 1 }
    else .inr s
  | some t0 =>
    let now := efiGetSeconds gRT s.readings
    let s := { s with readings := s.readings + 1 }
    if now = t0 then .inr s else .inr { s with tick := none }

def KbdWaitReturns (gConIn : TextInput) (gRT : TimeService) (polls readings : Nat) (code : Int) :
    Prop :=
  BoundedLoop.Returns (kbdWaitStep gConIn gRT) ⟨none, polls, readings⟩ code

/-- From reading `n` on, the clock changes as `k` ticks need it: each begins at
the reading after the change that ended the one before. -/
def Ticks (r : Nat → UInt8) : Nat → Nat → Prop
  | 0, _ => True
  | k + 1, n =>
    ∃ d, (∀ i < d, r (n + 1 + i) = r n) ∧ r (n + 1 + d) ≠ r n ∧ Ticks r k (n + 1 + d + 1)

theorem ticks_succ_iff {r : Nat → UInt8} {k n d : Nat} (hsame : ∀ i < d, r (n + 1 + i) = r n)
    (hchange : r (n + 1 + d) ≠ r n) : Ticks r (k + 1) n ↔ Ticks r k (n + 1 + d + 1) := by
  constructor
  · rintro ⟨d', hsame', hchange', hrest⟩
    obtain rfl : d' = d := by
      rcases Nat.lt_trichotomy d' d with hlt | heq | hlt
      · exact absurd (hsame d' hlt) hchange'
      · exact heq
      · exact absurd (hsame' d hlt) hchange
    exact hrest
  · intro hrest
    exact ⟨d, hsame, hchange, hrest⟩

section Wait
variable {gConIn : TextInput} {gRT : TimeService} {p n k : Nat} {code : Int}

theorem kbdWait_key (h : kbdPoll gConIn p ≠ mblKeyNone) :
    KbdWaitReturns gConIn gRT p n code ↔ code = kbdPoll gConIn p :=
  BoundedLoop.returns_exit (if_pos h)

theorem kbdWait_noClock (h : kbdPoll gConIn p = mblKeyNone) :
    KbdWaitReturns gConIn none p n code ↔ KbdWaitReturns gConIn none (p + 1) n code := by
  apply BoundedLoop.returns_next
  simp [kbdWaitStep, h]

theorem kbdWaitStep_poll (h : kbdPoll gConIn p = mblKeyNone) (hclock : gRT.isSome) :
    kbdWaitStep gConIn gRT ⟨none, p, n⟩ = .inr ⟨some (efiGetSeconds gRT n), p + 1, n + 1⟩ := by
  simp [kbdWaitStep, h, hclock]

theorem kbdWaitStep_spin {t0 : UInt8} (h : efiGetSeconds gRT n = t0) :
    kbdWaitStep gConIn gRT ⟨some t0, p, n⟩ = .inr ⟨some t0, p, n + 1⟩ := by
  simp [kbdWaitStep, h]

theorem kbdWaitStep_change {t0 : UInt8} (h : efiGetSeconds gRT n ≠ t0) :
    kbdWaitStep gConIn gRT ⟨some t0, p, n⟩ = .inr ⟨none, p, n + 1⟩ := by
  simp [kbdWaitStep, h]

theorem kbdWait_spins {t0 : UInt8} {d : Nat} (h : ∀ i < d, efiGetSeconds gRT (n + i) = t0) :
    BoundedLoop.Reaches (kbdWaitStep gConIn gRT) ⟨some t0, p, n⟩ d ⟨some t0, p, n + d⟩ := by
  induction d with
  | zero => exact .start
  | succ d ih =>
    exact .next (ih fun i hi => h i (by omega)) (kbdWaitStep_spin (h d (by omega)))

theorem kbdWait_tick {d : Nat} (h : kbdPoll gConIn p = mblKeyNone) (hclock : gRT.isSome)
    (hsame : ∀ i < d, efiGetSeconds gRT (n + 1 + i) = efiGetSeconds gRT n)
    (hchange : efiGetSeconds gRT (n + 1 + d) ≠ efiGetSeconds gRT n) :
    KbdWaitReturns gConIn gRT p n code ↔
      KbdWaitReturns gConIn gRT (p + 1) (n + 1 + d + 1) code := by
  have hspins : BoundedLoop.Reaches (kbdWaitStep gConIn gRT)
      ⟨some (efiGetSeconds gRT n), p + 1, n + 1⟩ d
      ⟨some (efiGetSeconds gRT n), p + 1, n + 1 + d⟩ := kbdWait_spins hsame
  have hends := hspins.next (kbdWaitStep_change hchange)
  exact (BoundedLoop.returns_next (kbdWaitStep_poll h hclock)).trans hends.returns_iff

theorem kbdWait_stuck (h : kbdPoll gConIn p = mblKeyNone) (hclock : gRT.isSome)
    (hsame : ∀ d, efiGetSeconds gRT (n + 1 + d) = efiGetSeconds gRT n) :
    ¬ KbdWaitReturns gConIn gRT p n code := by
  rw [KbdWaitReturns, BoundedLoop.returns_next (kbdWaitStep_poll h hclock)]
  apply BoundedLoop.not_returns
    (I := fun s => s.tick = some (efiGetSeconds gRT n) ∧ n + 1 ≤ s.readings)
  · exact ⟨rfl, Nat.le_refl _⟩
  · rintro ⟨tick, polls, readings⟩ ⟨htick, hreadings⟩
    obtain ⟨d, rfl⟩ := Nat.exists_eq_add_of_le hreadings
    obtain rfl : tick = _ := htick
    exact ⟨_, kbdWaitStep_spin (hsame d), rfl, Nat.le_succ_of_le hreadings⟩

theorem kbdWait_returns (hbefore : ∀ i < k, kbdPoll gConIn (p + i) = mblKeyNone)
    (hkey : kbdPoll gConIn (p + k) ≠ mblKeyNone) :
    KbdWaitReturns gConIn gRT p n code ↔
      code = kbdPoll gConIn (p + k) ∧ (gRT = none ∨ Ticks (efiGetSeconds gRT) k n) := by
  induction k generalizing p n with
  | zero =>
    rw [Nat.add_zero] at hkey ⊢
    rw [kbdWait_key hkey]
    simp [Ticks]
  | succ k ih =>
    have hfirst : kbdPoll gConIn p = mblKeyNone := hbefore 0 (Nat.succ_pos k)
    have hshift : ∀ i, p + (i + 1) = p + 1 + i := by
      intro i
      omega
    have hrest : ∀ i < k, kbdPoll gConIn (p + 1 + i) = mblKeyNone := by
      intro i hi
      rw [← hshift]
      exact hbefore (i + 1) (by omega)
    rw [hshift] at hkey ⊢
    by_cases hclock : gRT = none
    · subst hclock
      rw [kbdWait_noClock hfirst, ih hrest hkey]
      simp
    · have hsome : gRT.isSome := Option.isSome_iff_ne_none.mpr hclock
      simp only [hclock, false_or] at ih ⊢
      by_cases hends : ∃ d, efiGetSeconds gRT (n + 1 + d) ≠ efiGetSeconds gRT n
      · have hsame : ∀ i < Nat.find hends,
            efiGetSeconds gRT (n + 1 + i) = efiGetSeconds gRT n := by
          intro i hi
          exact not_not.mp (Nat.find_min hends hi)
        rw [kbdWait_tick hfirst hsome hsame (Nat.find_spec hends), ih hrest hkey,
          ticks_succ_iff hsame (Nat.find_spec hends)]
      · push Not at hends
        constructor
        · intro hreturns
          exact absurd hreturns (kbdWait_stuck hfirst hsome hends)
        · rintro ⟨-, d, -, hchange, -⟩
          exact absurd (hends d) hchange

/-- `kbd_wait` returns the first key that has a code exactly if there is no
clock to wait for, or the clock ticks once for each poll before that key. -/
theorem kbdWait_returns_iff (hbefore : ∀ i < k, kbdPoll gConIn (p + i) = mblKeyNone)
    (hkey : kbdPoll gConIn (p + k) ≠ mblKeyNone) :
    KbdWaitReturns gConIn gRT p n (kbdPoll gConIn (p + k)) ↔
      gRT = none ∨ Ticks (efiGetSeconds gRT) k n := by
  rw [kbdWait_returns hbefore hkey]
  exact and_iff_right rfl

end Wait

theorem countingClock_returns :
    KbdWaitReturns (some fun i => if i < 2 then none else some ⟨scanUp, 0⟩)
      (some fun n => some fun _ => UInt8.ofNat n) 0 0
      (kbdPoll (some fun i => if i < 2 then none else some ⟨scanUp, 0⟩) (0 + 2)) ↔
      (some fun n => some fun _ => UInt8.ofNat n : TimeService) = none ∨
        Ticks (efiGetSeconds (some fun n => some fun _ => UInt8.ofNat n)) 2 0 :=
  kbdWait_returns_iff (by decide) (by decide)

theorem failingClock_hangs :
    kbdPoll (some fun i => if i = 0 then none else some ⟨scanUp, 0⟩) 1 = mblKeyUp ∧
      ∀ code, ¬ KbdWaitReturns (some fun i => if i = 0 then none else some ⟨scanUp, 0⟩)
        (some fun _ => none) 0 0 code := by
  refine ⟨rfl, ?_⟩
  intro code
  exact kbdWait_stuck rfl rfl fun _ => rfl

theorem not_ticks_of_settled {r : Nat → UInt8} {N : Nat} (h : ∀ m > N, r m = r N) {k n : Nat}
    (hn : N ≤ n + k) : ¬ Ticks r (k + 1) n := by
  induction k generalizing n with
  | zero =>
    have hsettled : ∀ m, n ≤ m → r m = r N := by
      intro m hm
      rcases Nat.lt_or_eq_of_le (Nat.le_trans hn hm) with hlt | rfl
      · exact h m hlt
      · rfl
    rintro ⟨d, -, hchange, -⟩
    rw [hsettled (n + 1 + d) (by omega), hsettled n (Nat.le_refl n)] at hchange
    exact hchange rfl
  | succ k ih =>
    rintro ⟨d, -, -, hrest⟩
    exact ih (by omega) hrest

theorem ticks_of_changes {r : Nat → UInt8} (h : ∀ N, ∃ m > N, r m ≠ r N) (k n : Nat) :
    Ticks r k n := by
  induction k generalizing n with
  | zero => trivial
  | succ k ih =>
    have hends : ∃ d, r (n + 1 + d) ≠ r n := by
      obtain ⟨m, hm, hchange⟩ := h n
      obtain ⟨d, rfl⟩ := Nat.exists_eq_add_of_le hm
      exact ⟨d, hchange⟩
    refine ⟨Nat.find hends, ?_, Nat.find_spec hends, ih _⟩
    intro i hi
    exact not_not.mp (Nat.find_min hends hi)

/-- The clocks with which `kbd_wait` returns whatever is typed are those whose
readings never settle. -/
theorem kbdWait_always_iff (gRT : TimeService) (n : Nat) :
    (∀ gConIn p k, (∀ i < k, kbdPoll gConIn (p + i) = mblKeyNone) →
      kbdPoll gConIn (p + k) ≠ mblKeyNone →
      KbdWaitReturns gConIn gRT p n (kbdPoll gConIn (p + k))) ↔
    gRT = none ∨ ∀ N, ∃ m > N, efiGetSeconds gRT m ≠ efiGetSeconds gRT N := by
  constructor
  · intro halways
    by_cases hclock : gRT = none
    · exact .inl hclock
    · right
      intro N
      by_contra hsettled
      push Not at hsettled
      have hbefore : ∀ i < N + 1,
          kbdPoll (some fun i => if i < N + 1 then none else some ⟨scanUp, 0⟩) (0 + i) =
            mblKeyNone := by
        intro i hi
        simp [kbdPoll, hi]
      have hkey : kbdPoll (some fun i => if i < N + 1 then none else some ⟨scanUp, 0⟩)
          (0 + (N + 1)) ≠ mblKeyNone := by
        simp [kbdPoll, keyCode, mblKeyUp, mblKeyNone]
      have hticks := (kbdWait_returns hbefore hkey).mp (halways _ 0 (N + 1) hbefore hkey)
      exact not_ticks_of_settled hsettled (by omega) (hticks.2.resolve_left hclock)
  · rintro hclock gConIn p k hbefore hkey
    rw [kbdWait_returns hbefore hkey]
    refine ⟨rfl, hclock.imp_right ?_⟩
    intro hchanges
    exact ticks_of_changes hchanges k n

def kbdInput (gConIn : TextInput) (gRT : TimeService) : MenuInput where
  key := kbdPoll gConIn
  seconds := rtcGetSeconds gRT
  getTime := gRT.isSome

def MenuState.inKbdWait (s : MenuState) (t : KbdState) : MenuState :=
  { s with wait := t.tick.elim .key .tick, polls := t.polls, readings := t.readings }

section NoEntries
variable {gConIn : TextInput} {gRT : TimeService} {count : Int} {k : Nat}

theorem menuEmptyRound_waits (s : MenuState) {t t' : KbdState}
    (h : kbdWaitStep gConIn gRT t = .inr t') :
    menuEmptyRound (kbdInput gConIn gRT) (s.inKbdWait t) = .inr (s.inKbdWait t') := by
  obtain ⟨tick, polls, readings⟩ := t
  cases tick with
  | none =>
    simp only [kbdWaitStep] at h
    split_ifs at h with hcode hclock
    all_goals
      obtain rfl := Sum.inr.inj h
      simp_all [menuEmptyRound, kbdInput, MenuState.inKbdWait, rtcGetSeconds]
  | some t0 =>
    simp only [kbdWaitStep] at h
    split_ifs at h with hsame
    all_goals
      obtain rfl := Sum.inr.inj h
      simp_all [menuEmptyRound, kbdInput, MenuState.inKbdWait, rtcGetSeconds]

theorem menuEmptyRound_leaves (s : MenuState) {t : KbdState} {code : Int}
    (h : kbdWaitStep gConIn gRT t = .inl code) (hcode : code = mblKeyEsc ∨ code = mblKeyReboot) :
    ∃ r, menuEmptyRound (kbdInput gConIn gRT) (s.inKbdWait t) = .inl r := by
  obtain ⟨tick, polls, readings⟩ := t
  cases tick with
  | none =>
    simp only [kbdWaitStep] at h
    split_ifs at h with hpoll
    obtain rfl := Sum.inl.inj h
    exact ⟨_, (if_neg hpoll).trans (if_pos hcode)⟩
  | some t0 =>
    simp only [kbdWaitStep] at h
    split_ifs at h

theorem noEntries_returns_iff (hcount : count ≤ 0) (timeoutSecs : Int)
    (hbefore : ∀ i < k, kbdPoll gConIn i = mblKeyNone)
    (hkey : kbdPoll gConIn k = mblKeyEsc ∨ kbdPoll gConIn k = mblKeyReboot) :
    (∃ r, MenuReturns (kbdInput gConIn gRT) count timeoutSecs r) ↔
      gRT = none ∨ Ticks (efiGetSeconds gRT) k 1 := by
  have hsome : kbdPoll gConIn k ≠ mblKeyNone := by
    rcases hkey with h | h <;> rw [h] <;> decide
  have hwait : ∀ code, KbdWaitReturns gConIn gRT 0 1 code ↔
      code = kbdPoll gConIn k ∧ (gRT = none ∨ Ticks (efiGetSeconds gRT) k 1) := by
    intro code
    rw [← Nat.zero_add k] at hsome
    simpa only [Nat.zero_add] using kbdWait_returns (by simpa only [Nat.zero_add]) hsome
  have hround : menuStep (kbdInput gConIn gRT) count timeoutSecs =
      menuEmptyRound (kbdInput gConIn gRT) := by
    funext s
    exact if_pos hcount
  let drawn := { menuStart (kbdInput gConIn gRT) timeoutSecs with shown := [.noEntries, .frame] }
  have hdraw : menuEmptyRound (kbdInput gConIn gRT) (menuStart (kbdInput gConIn gRT) timeoutSecs) =
      .inr (drawn.inKbdWait ⟨none, 0, 1⟩) := rfl
  unfold MenuReturns
  simp only [hround, BoundedLoop.returns_next hdraw]
  constructor
  · rintro ⟨r, hr⟩
    obtain ⟨code, hcode⟩ := hr.of_embedded fun _ _ => menuEmptyRound_waits drawn
    exact ((hwait code).mp hcode).2
  · intro hclock
    obtain ⟨j, t, ht, hexit⟩ := (hwait _).mpr ⟨rfl, hclock⟩
    obtain ⟨r, hr⟩ := menuEmptyRound_leaves drawn hexit hkey
    exact ⟨r, j, _, ht.embedded fun _ _ => menuEmptyRound_waits drawn, hr⟩

end NoEntries

end ModularBootloader
