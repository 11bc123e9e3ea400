import ModularBootloader.Screen
import ModularBootloader.Lib.Typewriter

/-!
# The cursor of the text screen

`vga_goto`, `vga_putc` and `vga_puts` type at a cursor. Whatever is called in
between, the cursor is that of a typewriter with the screen for its sheet, and
what is typed is drawn as `vga_fill` draws single characters.
-/

namespace ModularBootloader
open Typewriter

def vgaGoto (row col : UInt8) (s : GopState) : GopState :=
  let row := if row ≥ s.g.textRows.toUInt8 then (s.g.textRows - 1).toUInt8 else row
  let col := if col ≥ s.g.textCols.toUInt8 then (s.g.textCols - 1).toUInt8 else col
  { s with row := row.toUInt32, col := col.toUInt32 }

def vgaAdvance (s : GopState) : GopState :=
  let s := { s with col := s.col + 1 }
  if s.col ≥ s.g.textCols then
    let s := { s with col := 0 }
    if s.row + 1 < s.g.textRows then { s with row := s.row + 1 } else s
  else s

def vgaPutc (base : Nat) (c : UInt8) (s : GopState) : GopState :=
  if c = 0x0A then
    let s := { s with col := 0 }
    if s.row + 1 < s.g.textRows then { s with row := s.row + 1 } else s
  else vgaAdvance { s with ram := renderGlyph s.g base s.col s.row c colWhite colBlack s.ram }

def vgaPuts (base : Nat) : List UInt8 → GopState → GopState
  | [], s => s
  | c :: str, s => if c ≠ 0 then vgaPuts base str (vgaPutc base c s) else s

inductive TerminalCall
  | goto (row col : UInt8)
  | putc (c : UInt8)
  | puts (str : List UInt8)
  | draw (call : VgaCall)

def terminalCall (base : Nat) : TerminalCall → GopState → GopState
  | .goto row col => vgaGoto row col
  | .putc c => vgaPutc base c
  | .puts str => vgaPuts base str
  | .draw call => vgaCall base call

def terminalRun (base : Nat) (calls : List TerminalCall) (s : GopState) : GopState :=
  calls.foldl (fun s call => terminalCall base call s) s

def typedKey (c : UInt8) : Key UInt8 := if c = 0x0A then .feed else .strike c

def GopState.place (s : GopState) : Place := ⟨s.row.toNat, s.col.toNat⟩

def strikeCall (strike : Place × UInt8) : VgaCall :=
  .fill (UInt8.ofNat strike.1.row) (UInt8.ofNat strike.1.col) strike.2 1 0x07

namespace TerminalCall

def keys : TerminalCall → List (Key UInt8)
  | .goto _ _ => []
  | .putc c => [typedKey c]
  | .puts str => (str.takeWhile (· ≠ 0)).map typedKey
  | .draw _ => []

def place (g : GopStatics) (call : TerminalCall) (p : Place) : Place :=
  match call with
  | .goto row col => ⟨min (g.textRows.toNat - 1) row.toNat, min (g.textCols.toNat - 1) col.toNat⟩
  | .draw .clear => ⟨0, 0⟩
  | call => travel g.textRows.toNat g.textCols.toNat call.keys p

def drawn (g : GopStatics) (call : TerminalCall) (p : Place) : List VgaCall :=
  match call with
  | .draw call => [call]
  | call => (strikes g.textRows.toNat g.textCols.toNat call.keys p).map strikeCall

end TerminalCall

def placeAfter (g : GopStatics) (calls : List TerminalCall) (p : Place) : Place :=
  calls.foldl (fun p call => call.place g p) p

def typedCalls (g : GopStatics) : List TerminalCall → Place → List VgaCall
  | [], _ => []
  | call :: calls, p => call.drawn g p ++ typedCalls g calls (call.place g p)

/-- The grid sizes `vga_init_gop` sets for a screen that holds a character. -/
structure GridSized (g : GopStatics) : Prop where
  rows_pos : 0 < g.textRows.toNat
  rows_le : g.textRows.toNat ≤ 100
  cols_pos : 0 < g.textCols.toNat
  cols_le : g.textCols.toNat ≤ 200

/-- The state `t` of the terminal, with what was typed drawn by calls on `u`. -/
structure Types (t u : GopState) (p : Place) : Prop where
  statics : u.g = t.g
  ram : t.ram = u.ram
  place : t.place = p
  inside : p.Inside t.g.textRows.toNat t.g.textCols.toNat

section Keys
variable {s u : GopState} {p : Place}

theorem vgaGoto_place (hg : GridSized s.g) (row col : UInt8) :
    (vgaGoto row col s).place =
      ⟨min (s.g.textRows.toNat - 1) row.toNat, min (s.g.textCols.toNat - 1) col.toNat⟩ := by
  have hclamp : ∀ (n : UInt32) (v : UInt8), 0 < n.toNat → n.toNat ≤ 200 →
      (if v ≥ n.toUInt8 then (n - 1).toUInt8 else v).toUInt32.toNat =
        min (n.toNat - 1) v.toNat := by
    intro n v hpos hle
    have hnarrow : n.toUInt8.toNat = n.toNat := by
      rw [UInt32.toNat_toUInt8, Nat.mod_eq_of_lt (by omega)]
    have hone : 1 ≤ n := UInt32.le_iff_toNat_le.mpr (show (1 : UInt32).toNat ≤ n.toNat from hpos)
    have hlast : (n - 1).toUInt8.toNat = n.toNat - 1 := by
      rw [UInt32.toNat_toUInt8, UInt32.toNat_sub_of_le n 1 hone, UInt32.toNat_one,
        Nat.mod_eq_of_lt (by omega)]
    rw [UInt8.toNat_toUInt32]
    split_ifs with hover
    · rw [ge_iff_le, UInt8.le_iff_toNat_le, hnarrow] at hover
      omega
    · rw [ge_iff_le, UInt8.le_iff_toNat_le, hnarrow] at hover
      omega
  obtain ⟨hrows, hrows', hcols, hcols'⟩ := hg
  simp only [vgaGoto, GopState.place]
  rw [hclamp _ row hrows (by omega), hclamp _ col hcols hcols']

theorem succ_toNat {a b : UInt32} (h : a.toNat < b.toNat) : (a + 1).toNat = a.toNat + 1 := by
  have hb := b.toNat_lt
  rw [UInt32.toNat_add, UInt32.toNat_one, Nat.mod_eq_of_lt (by omega)]

theorem feed_place (s : GopState) (h : s.row.toNat < s.g.textRows.toNat) :
    (if s.row + 1 < s.g.textRows then { s with row := s.row + 1, col := 0 }
      else { s with col := 0 }).place = s.place.feed s.g.textRows.toNat := by
  have hnext := succ_toNat h
  simp only [GopState.place, Place.feed, UInt32.lt_iff_toNat_lt, hnext]
  split_ifs with hline
  · simp only [hnext, Place.mk.injEq]
    exact ⟨by omega, rfl⟩
  · simp only [Place.mk.injEq]
    exact ⟨by omega, rfl⟩

theorem vgaAdvance_place (h : s.place.Inside s.g.textRows.toNat s.g.textCols.toNat) :
    (vgaAdvance s).place = s.place.next s.g.textRows.toNat s.g.textCols.toNat := by
  have hnext := succ_toNat (show s.col.toNat < s.g.textCols.toNat from h.col)
  rw [Place.next, ← feed_place s h.row]
  simp only [vgaAdvance, ge_iff_le, UInt32.le_iff_toNat_le, hnext]
  by_cases hline : s.place.col + 1 < s.g.textCols.toNat
  · rw [if_pos hline, if_neg (show ¬ s.g.textCols.toNat ≤ s.col.toNat + 1 from not_le.mpr hline)]
    simp only [GopState.place, hnext]
  · rw [if_neg hline, if_pos (show s.g.textCols.toNat ≤ s.col.toNat + 1 from not_lt.mp hline)]

theorem vgaAdvance_keeps (s : GopState) :
    (vgaAdvance s).g = s.g ∧ (vgaAdvance s).ram = s.ram := by
  simp only [vgaAdvance]
  split_ifs <;> exact ⟨rfl, rfl⟩

theorem vgaPutc_g (base : Nat) (c : UInt8) (s : GopState) : (vgaPutc base c s).g = s.g := by
  simp only [vgaPutc]
  split_ifs
  · rfl
  · rfl
  · exact (vgaAdvance_keeps _).1

theorem strikeCall_ram (base : Nat) (hg : GridSized u.g)
    (h : p.Inside u.g.textRows.toNat u.g.textCols.toNat) (c : UInt8) :
    (vgaCall base (strikeCall (p, c)) u).ram =
      renderGlyph u.g base (UInt32.ofNat p.col) (UInt32.ofNat p.row) c colWhite colBlack u.ram := by
  obtain ⟨hrow, hcol⟩ := h
  obtain ⟨-, hrows, -, hcols⟩ := hg
  have hplace : ∀ n : Nat, n < 200 → (UInt8.ofNat n).toUInt32 = UInt32.ofNat n := by
    intro n hn
    rw [← UInt32.toNat_inj, UInt8.toNat_toUInt32, UInt8.toNat_ofNat', UInt32.toNat_ofNat',
      Nat.mod_eq_of_lt (by omega), Nat.mod_eq_of_lt (by omega)]
  have hin : ∀ (n : Nat) (m : UInt32), n < m.toNat → UInt32.ofNat n < m := by
    intro n m hn
    have hm := m.toNat_lt
    rw [UInt32.lt_iff_toNat_lt, UInt32.toNat_ofNat', Nat.mod_eq_of_lt (by omega)]
    exact hn
  simp only [strikeCall, vgaCall, vgaFill]
  rw [hplace p.row (by omega), hplace p.col (by omega), if_neg]
  · change vgaFillLoop u.g base _ _ _ c 1 _ u.ram = _
    rw [vgaFillLoop, if_pos (hin _ _ hcol)]
    rfl
  · rw [not_or, ge_iff_le, ge_iff_le, UInt32.not_le, UInt32.not_le]
    exact ⟨hin _ _ hrow, hin _ _ hcol⟩

end Keys

section Runs
variable {t u : GopState} {p : Place}

theorem vgaCall_ram (base : Nat) (call : VgaCall) (hg : u.g = t.g) (hram : t.ram = u.ram) :
    (vgaCall base call t).ram = (vgaCall base call u).ram := by
  cases call with
  | clear => rw [vgaClear_ram, vgaClear_ram, hg, hram]
  | write row col str attr =>
    simp only [vgaCall, vgaWrite, hg, hram]
    split_ifs
    · exact hram
    · rfl
  | fill row col ch n attr =>
    simp only [vgaCall, vgaFill, hg, hram]
    split_ifs
    · exact hram
    · rfl

theorem vgaCall_place (base : Nat) (call : VgaCall) (hdraws : call.wipes = false) (t : GopState) :
    (vgaCall base call t).place = t.place := by
  obtain ⟨row, col, text, attr, -, heq⟩ := vgaCall_draws base call hdraws t
  rw [heq]
  rfl

theorem Types.putc (h : Types t u p) (hg : GridSized t.g) (base : Nat) (c : UInt8) :
    Types (vgaPutc base c t)
      (Overlay.run (vgaCall base)
        ((strikes t.g.textRows.toNat t.g.textCols.toNat [typedKey c] p).map strikeCall) u)
      (travel t.g.textRows.toNat t.g.textCols.toNat [typedKey c] p) := by
  obtain ⟨hstatics, hram, hplace, hinside⟩ := h
  subst hplace
  refine ⟨?_, ?_, ?_, ?_⟩
  · rw [run_g, vgaPutc_g, hstatics]
  · by_cases hfeed : c = 0x0A
    · simp only [vgaPutc, typedKey, if_pos hfeed, strikes, List.map_nil]
      split_ifs <;> exact hram
    · have hcell := strikeCall_ram base (hstatics ▸ hg) (hstatics ▸ hinside) c
      simp only [vgaPutc, typedKey, if_neg hfeed, strikes, List.map_cons, List.map_nil]
      rw [(vgaAdvance_keeps _).2]
      dsimp only
      refine Eq.trans ?_ hcell.symm
      rw [hstatics, hram]
      simp only [GopState.place, UInt32.ofNat_toNat]
  · by_cases hfeed : c = 0x0A
    · simp only [vgaPutc, typedKey, if_pos hfeed, travel]
      exact feed_place t hinside.row
    · simp only [vgaPutc, typedKey, if_neg hfeed, travel]
      exact vgaAdvance_place hinside
  · rw [vgaPutc_g]
    exact hinside.travel [typedKey c]

theorem vgaRun_append (base : Nat) (calls later : List VgaCall) (u : GopState) :
    Overlay.run (vgaCall base) (calls ++ later) u =
      Overlay.run (vgaCall base) later (Overlay.run (vgaCall base) calls u) :=
  List.foldl_append

theorem vgaPuts_g (base : Nat) (str : List UInt8) (s : GopState) :
    (vgaPuts base str s).g = s.g := by
  induction str generalizing s with
  | nil => rfl
  | cons c str ih =>
    rw [vgaPuts]
    split_ifs
    · rw [ih, vgaPutc_g]
    · rfl

theorem Types.puts (h : Types t u p) (hg : GridSized t.g) (base : Nat) (str : List UInt8) :
    Types (vgaPuts base str t)
      (Overlay.run (vgaCall base) ((strikes t.g.textRows.toNat t.g.textCols.toNat
        ((str.takeWhile (· ≠ 0)).map typedKey) p).map strikeCall) u)
      (travel t.g.textRows.toNat t.g.textCols.toNat ((str.takeWhile (· ≠ 0)).map typedKey) p) := by
  induction str generalizing t u p with
  | nil => exact h
  | cons c str ih =>
    by_cases hc : c = 0
    · simp only [vgaPuts, hc, List.takeWhile_cons]
      exact h
    · have hfirst := h.putc hg base c
      have hrest := ih hfirst (by rw [vgaPutc_g]; exact hg)
      rw [vgaPutc_g, ← vgaRun_append, ← List.map_append, ← strikes_append, ← travel_append,
        List.singleton_append] at hrest
      simp only [vgaPuts, List.takeWhile_cons]
      simpa [hc] using hrest

theorem terminalCall_g (base : Nat) (call : TerminalCall) (s : GopState) :
    (terminalCall base call s).g = s.g := by
  cases call with
  | goto row col => rfl
  | putc c => exact vgaPutc_g base c s
  | puts str => exact vgaPuts_g base str s
  | draw call => exact vgaCall_g call s

theorem Types.call (h : Types t u p) (hg : GridSized t.g) (base : Nat) (call : TerminalCall) :
    Types (terminalCall base call t) (Overlay.run (vgaCall base) (call.drawn t.g p) u)
      (call.place t.g p) := by
  cases call with
  | goto row col =>
    refine ⟨h.statics, h.ram, vgaGoto_place hg row col, ?_⟩
    obtain ⟨hrows, -, hcols, -⟩ := hg
    constructor <;> simp only [TerminalCall.place, terminalCall, vgaGoto] <;> omega
  | putc c => exact h.putc hg base c
  | puts str => exact h.puts hg base str
  | draw call =>
    have hram := vgaCall_ram base call h.statics h.ram
    refine ⟨?_, hram, ?_, ?_⟩
    · rw [run_g, terminalCall_g, h.statics]
    · cases call with
      | clear => rfl
      | write => exact (vgaCall_place base _ rfl t).trans h.place
      | fill => exact (vgaCall_place base _ rfl t).trans h.place
    · rw [terminalCall_g]
      cases call with
      | clear => exact ⟨hg.rows_pos, hg.cols_pos⟩
      | write => exact h.inside
      | fill => exact h.inside

theorem Types.run (h : Types t u p) (hg : GridSized t.g) (base : Nat) (calls : List TerminalCall) :
    Types (terminalRun base calls t) (Overlay.run (vgaCall base) (typedCalls t.g calls p) u)
      (placeAfter t.g calls p) := by
  induction calls generalizing t u p with
  | nil => exact h
  | cons call calls ih =>
    have hrest := ih (h.call hg base call) (by rw [terminalCall_g]; exact hg)
    rw [terminalCall_g, ← vgaRun_append] at hrest
    exact hrest

end Runs

theorem statics_sized {info : ModeInformation} (hcols : 8 ≤ info.horizontalResolution.toNat)
    (hrows : 16 ≤ info.verticalResolution.toNat) : GridSized info.statics := by
  have hcap : ∀ n size cap : UInt32, 0 < size.toNat → size.toNat ≤ n.toNat → 0 < cap.toNat →
      0 < (if n / size > cap then cap else n / size).toNat ∧
        (if n / size > cap then cap else n / size).toNat ≤ cap.toNat := by
    intro n size cap hsize hle hcap
    have hpos := Nat.div_pos hle hsize
    rw [← UInt32.toNat_div] at hpos
    split_ifs with hover
    · exact ⟨hcap, Nat.le_refl _⟩
    · rw [gt_iff_lt, UInt32.lt_iff_toNat_lt] at hover
      exact ⟨hpos, by omega⟩
  obtain ⟨hcols0, hcols1⟩ := hcap info.horizontalResolution 8 200 (by decide) hcols (by decide)
  obtain ⟨hrows0, hrows1⟩ := hcap info.verticalResolution 16 100 (by decide) hrows (by decide)
  exact ⟨hrows0, hrows1, hcols0, hcols1⟩

/-- From a screen just initialised, every run of the calls has the typewriter's cursor, never
outside the grid, and draws what is typed. -/
theorem terminal_types {info : ModeInformation} (hcols : 8 ≤ info.horizontalResolution.toNat)
    (hrows : 16 ≤ info.verticalResolution.toNat) (base fb : Nat) (s : GopState)
    (calls : List TerminalCall) :
    let start := vgaInitGop (some (some ⟨some info, fb⟩)) s
    Types (terminalRun base calls start)
      (Overlay.run (vgaCall base) (typedCalls info.statics calls ⟨0, 0⟩) start)
      (placeAfter info.statics calls ⟨0, 0⟩) := by
  intro start
  have hg := statics_sized hcols hrows
  have hstart : Types start start ⟨0, 0⟩ := ⟨rfl, rfl, rfl, hg.rows_pos, hg.cols_pos⟩
  exact hstart.run hg base calls

theorem lastPlace_types :
    let start := vgaInitGop (some (some ⟨some vga640x480, 0⟩)) ⟨byteFill, {}, 0, 0, fun _ => 0⟩
    let calls : List TerminalCall := [.goto 255 255, .putc 0x41, .putc 0x42]
    placeAfter vga640x480.statics calls ⟨0, 0⟩ = ⟨29, 1⟩ ∧
      Types (terminalRun 0 calls start)
        (Overlay.run (vgaCall 0) (typedCalls vga640x480.statics calls ⟨0, 0⟩) start)
        (placeAfter vga640x480.statics calls ⟨0, 0⟩) :=
  ⟨by decide, terminal_types (by decide) (by decide) 0 0 _ _⟩

section Reading
variable {g : GopStatics} {p : Place} {c r : Nat}

def placeIndex (g : GopStatics) (p : Place) : Nat := p.row * g.textCols.toNat + p.col

theorem placeIndex_inj {cols row row' col col' : Nat} (hcol : col < cols) (hcol' : col' < cols) :
    row * cols + col = row' * cols + col' ↔ col = col' ∧ row = row' := by
  constructor
  · intro h
    have hmod := congrArg (· % cols) h
    have hdiv := congrArg (· / cols) h
    simp only [Nat.mul_add_mod_self_right, Nat.mod_eq_of_lt hcol, Nat.mod_eq_of_lt hcol'] at hmod
    rw [Nat.mul_comm row, Nat.mul_comm row', Nat.mul_add_div (by omega),
      Nat.mul_add_div (by omega), Nat.div_eq_of_lt hcol, Nat.div_eq_of_lt hcol'] at hdiv
    exact ⟨hmod, hdiv⟩
  · rintro ⟨rfl, rfl⟩
    rfl

theorem strikeCall_covers (hg : GridSized g) (hp : p.Inside g.textRows.toNat g.textCols.toNat)
    (ch : UInt8) (hc : c < g.textCols.toNat) (hr : r < g.textRows.toNat) :
    (strikeCall (p, ch)).covers g (c, r) =
      if r * g.textCols.toNat + c = placeIndex g p then some ⟨ch, 0x07⟩ else none := by
  obtain ⟨hrow, hcol⟩ := hp
  obtain ⟨-, hrows, -, hcols⟩ := hg
  have hwidth : ∀ n : Nat, n < 200 → (UInt8.ofNat n).toNat = n := by
    intro n hn
    rw [UInt8.toNat_ofNat', Nat.mod_eq_of_lt (by omega)]
  rw [placeIndex, strikeCall, VgaCall.covers, textCovers_eq hc hr, hwidth p.row (by omega),
    hwidth p.col (by omega)]
  by_cases hat : c = p.col ∧ r = p.row
  · obtain ⟨rfl, rfl⟩ := hat
    simp [textCell]
  · rw [if_neg fun h => hat ((placeIndex_inj hc hcol).mp h)]
    by_cases hrow' : r = p.row
    · have hapart : c < p.col ∨ p.col + 1 ≤ c := by omega
      rw [if_pos hrow', textCell]
      rcases hapart with hlt | hgt
      · rw [if_neg (by omega)]
      · rw [if_pos (by omega), List.getElem?_eq_none]
        · rfl
        · change 1 ≤ c - p.col
          omega
    · rw [if_neg hrow']

theorem placeIndex_next (hp : p.Inside g.textRows.toNat g.textCols.toNat) :
    placeIndex g (p.next g.textRows.toNat g.textCols.toNat) = placeIndex g p + 1 ∨
      (placeIndex g p + 1 = g.textRows.toNat * g.textCols.toNat ∧
        placeIndex g (p.next g.textRows.toNat g.textCols.toNat) ≤ placeIndex g p) := by
  obtain ⟨hrow, hcol⟩ := hp
  generalize g.textRows.toNat = rows at *
  simp only [placeIndex]
  generalize g.textCols.toNat = cols at *
  rw [Place.next]
  split_ifs with hline
  · exact .inl rfl
  · have hend : p.row * cols + p.col + 1 = (p.row + 1) * cols := by
      rw [Nat.succ_mul]
      omega
    simp only [Place.feed, hend]
    by_cases hlast : p.row + 1 < rows
    · rw [Nat.min_eq_right (by omega)]
      exact .inl rfl
    · obtain rfl : rows = p.row + 1 := by omega
      refine .inr ⟨rfl, ?_⟩
      rw [Nat.add_sub_cancel, Nat.min_eq_left (by omega)]
      omega

theorem textCell_one (col : Nat) (ch attr : UInt8) (k : Nat) :
    textCell col [ch] attr k = if k = col then some ⟨ch, attr⟩ else none := by
  rw [textCell]
  by_cases hat : k = col
  · subst hat
    simp
  · rw [if_neg hat]
    split_ifs with hle
    · rw [List.getElem?_eq_none]
      · rfl
      · change 1 ≤ k - col
        omega
    · rfl

theorem strikes_lastCover (hg : GridSized g) (hp : p.Inside g.textRows.toNat g.textCols.toNat)
    {text : List UInt8}
    (hfits : placeIndex g p + text.length ≤ g.textRows.toNat * g.textCols.toNat)
    (hc : c < g.textCols.toNat) (hr : r < g.textRows.toNat) :
    Overlay.lastCover VgaCall.wipes (VgaCall.covers g)
        ((strikes g.textRows.toNat g.textCols.toNat (text.map .strike) p).map strikeCall) (c, r) =
      textCell (placeIndex g p) text 0x07 (r * g.textCols.toNat + c) := by
  induction text generalizing p with
  | nil => simp [strikes, Overlay.lastCover]
  | cons ch text ih =>
    have hnext := placeIndex_next hp
    rw [List.length_cons] at hfits
    have hstays : ∀ k ∈ (strikes g.textRows.toNat g.textCols.toNat (text.map .strike)
        (p.next g.textRows.toNat g.textCols.toNat)).map strikeCall, k.wipes = false := by
      intro k hk
      obtain ⟨strike, -, rfl⟩ := List.mem_map.mp hk
      rfl
    have hfirst : Overlay.lastCover VgaCall.wipes (VgaCall.covers g) [strikeCall (p, ch)] (c, r) =
        textCell (placeIndex g p) [ch] 0x07 (r * g.textCols.toNat + c) := by
      have hdraws : (strikeCall (p, ch)).wipes = false := rfl
      rw [textCell_one, ← strikeCall_covers hg hp ch hc hr]
      simp [Overlay.lastCover, hdraws]
    have hrest : Overlay.lastCover VgaCall.wipes (VgaCall.covers g)
        ((strikes g.textRows.toNat g.textCols.toNat (text.map .strike)
          (p.next g.textRows.toNat g.textCols.toNat)).map strikeCall) (c, r) =
        textCell (placeIndex g p + [ch].length) text 0x07 (r * g.textCols.toNat + c) := by
      cases text with
      | nil => simp [strikes, Overlay.lastCover]
      | cons ch' text =>
        rw [List.length_cons] at hfits
        rw [ih hp.next (by rw [List.length_cons]; omega),
          show placeIndex g (p.next g.textRows.toNat g.textCols.toNat) = placeIndex g p + 1
            by omega]
        rfl
    rw [List.map_cons, strikes, List.map_cons, ← List.singleton_append,
      Overlay.lastCover_append hstays, hfirst, hrest, textCell_append]
    rfl

theorem typedCalls_append (g : GopStatics) (calls later : List TerminalCall) (p : Place) :
    typedCalls g (calls ++ later) p =
      typedCalls g calls p ++ typedCalls g later (placeAfter g calls p) := by
  induction calls generalizing p with
  | nil => rfl
  | cons call calls ih =>
    rw [List.cons_append, typedCalls, ih, typedCalls, List.append_assoc]
    rfl

theorem placeAfter_inside (hg : GridSized g) (hp : p.Inside g.textRows.toNat g.textCols.toNat)
    (calls : List TerminalCall) :
    (placeAfter g calls p).Inside g.textRows.toNat g.textCols.toNat := by
  induction calls generalizing p with
  | nil => exact hp
  | cons call calls ih =>
    apply ih
    obtain ⟨hrows, -, hcols, -⟩ := hg
    cases call with
    | goto row col => constructor <;> simp only [TerminalCall.place] <;> omega
    | putc c => exact hp.travel _
    | puts str => exact hp.travel _
    | draw call =>
      cases call with
      | clear => exact ⟨hrows, hcols⟩
      | write => exact hp
      | fill => exact hp

end Reading

theorem puts_drawn {g : GopStatics} {text : List UInt8} (hnul : 0 ∉ text) (hfeed : 0x0A ∉ text)
    (p : Place) : (TerminalCall.puts text).drawn g p =
      (strikes g.textRows.toNat g.textCols.toNat (text.map .strike) p).map strikeCall := by
  have hwhole : text.takeWhile (· ≠ 0) = text := by
    rw [List.takeWhile_eq_self_iff]
    intro c hc
    rw [decide_eq_true_eq]
    rintro rfl
    exact hnul hc
  have hkeys : text.map typedKey = text.map .strike := by
    apply List.map_congr_left
    intro c hc
    rw [typedKey, if_neg]
    rintro rfl
    exact hfeed hc
  rw [TerminalCall.drawn, TerminalCall.keys, hwhole, hkeys]
  · rintro call h
    cases h

/-- A text that fits behind the cursor is read on the screen from there on in reading order, in
front of what was drawn before. -/
theorem vgaPuts_reads {info : ModeInformation} (hcols : 8 ≤ info.horizontalResolution.toNat)
    (hrows : 16 ≤ info.verticalResolution.toNat) (base fb : Nat) (s : GopState)
    (calls : List TerminalCall) {text : List UInt8} (hnul : 0 ∉ text) (hfeed : 0x0A ∉ text)
    (hfits : placeIndex info.statics (placeAfter info.statics calls ⟨0, 0⟩) + text.length ≤
      info.statics.textRows.toNat * info.statics.textCols.toNat)
    (hg : Addressable info.statics) {x y : Nat} (hx : x < info.statics.textCols.toNat * 8)
    (hy : y < info.statics.textRows.toNat * 16) :
    info.statics.pixelFormat.shown
        (terminalRun base (.draw .clear :: calls ++ [.puts text])
          (vgaInitGop (some (some ⟨some info, fb⟩)) s)).ram
        (base + Raster.offset info.statics.fbPitch.toNat 4 x y) =
      rgb (((textCell (placeIndex info.statics (placeAfter info.statics calls ⟨0, 0⟩)) text 0x07
          (y / 16 * info.statics.textCols.toNat + x / 8)).or
        (Overlay.lastCover VgaCall.wipes (VgaCall.covers info.statics)
          (typedCalls info.statics calls ⟨0, 0⟩) (x / 8, y / 16))).elim colBlack
            (·.color (x, y))) := by
  have hsized := statics_sized hcols hrows
  generalize hstart : vgaInitGop (some (some ⟨some info, fb⟩)) s = start
  have hstatics : start.g = info.statics := hstart ▸ rfl
  have hplace : start.place = ⟨0, 0⟩ := hstart ▸ rfl
  rw [← hstatics] at hfits hg hx hy hsized ⊢
  have htop : Place.Inside start.g.textRows.toNat start.g.textCols.toNat ⟨0, 0⟩ :=
    ⟨hsized.rows_pos, hsized.cols_pos⟩
  have htypes : Types start start ⟨0, 0⟩ := ⟨rfl, rfl, hplace, htop⟩
  have hrun := (htypes.run hsized base (.draw .clear :: calls ++ [.puts text])).ram
  have hcell := strikes_lastCover hsized (placeAfter_inside hsized htop calls) hfits
    (show x / 8 < start.g.textCols.toNat by omega) (show y / 16 < start.g.textRows.toNat by omega)
  have hcalls : typedCalls start.g (.draw .clear :: calls ++ [.puts text]) ⟨0, 0⟩ =
      .clear :: (typedCalls start.g calls ⟨0, 0⟩ ++
        (TerminalCall.puts text).drawn start.g (placeAfter start.g calls ⟨0, 0⟩)) := by
    change VgaCall.clear :: typedCalls start.g (calls ++ [.puts text]) ⟨0, 0⟩ = _
    rw [typedCalls_append, typedCalls, typedCalls, List.append_nil]
  rw [puts_drawn hnul hfeed] at hcalls
  have hstays : ∀ k ∈ (strikes start.g.textRows.toNat start.g.textCols.toNat (text.map .strike)
      (placeAfter start.g calls ⟨0, 0⟩)).map strikeCall, k.wipes = false := by
    intro k hk
    obtain ⟨strike, -, rfl⟩ := List.mem_map.mp hk
    rfl
  have hpoint : cellOf (x, y) = (x / 8, y / 16) := rfl
  have hwidth := hg.cols
  have hheight := hg.rows
  rw [hrun, hcalls, (hg.refinesGrid base rfl _).shows x y (by omega) (by omega), gridColor,
    Overlay.picture, Overlay.lastCover_first rfl, hpoint, Overlay.lastCover_append hstays, hcell]
  generalize (textCell _ _ _ _).or _ = shown
  cases shown <;> rfl

def wideScanLine : ModeInformation := { vga640x480 with pixelsPerScanLine := 2560 }

theorem wideScanLine_reads :
    wideScanLine.statics.pixelFormat.shown
        (terminalRun 0 (.draw .clear :: [.goto 29 78] ++ [.puts [0x41, 0x42]])
          (vgaInitGop (some (some ⟨some wideScanLine, 0⟩)) ⟨byteFill, {}, 0, 0, fun _ => 255⟩)).ram
        (0 + Raster.offset wideScanLine.statics.fbPitch.toNat 4 636 470) =
      rgb (((textCell 2398 [0x41, 0x42] 0x07 2399).or none).elim colBlack (·.color (636, 470))) :=
  vgaPuts_reads (by decide) (by decide) 0 0 _ [.goto 29 78] (by decide) (by decide) (by decide)
    ⟨by decide, by decide, by decide, by decide⟩ (by decide) (by decide)

end ModularBootloader
