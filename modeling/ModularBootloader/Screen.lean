import ModularBootloader.GopGrid

/-!
# Lines of the text screen

The menu and the failure screens fill a stretch of a row with blanks and write
text over it. A `Line` is what that leaves in the row. `Draws` says which lines
a list of calls leaves, and its rules follow the calls one by one.
-/

namespace ModularBootloader
open Overlay

/-- A blank stretch of a row, and a text over it. -/
structure Line where
  start : Nat
  width : Nat
  back : UInt8
  col : Nat
  text : List UInt8
  attr : UInt8

def textCell (col : Nat) (text : List UInt8) (attr : UInt8) (c : Nat) : Option Cell :=
  if col ≤ c then text[c - col]?.map (⟨·, attr⟩) else none

namespace Line

def cell (line : Line) (c : Nat) : Option Cell :=
  (textCell line.col line.text line.attr c).or
    (textCell line.start (List.replicate line.width 0x20) line.back c)

def blank (start width : Nat) (back : UInt8) : Line := ⟨start, width, back, 0, [], back⟩

def bare (col : Nat) (text : List UInt8) (attr : UInt8) : Line := ⟨0, 0, attr, col, text, attr⟩

def Spans (line : Line) (width : Nat) : Prop := line.start = 0 ∧ width ≤ line.width

end Line

/-- In the first `width` columns of the screen the calls leave these lines. -/
structure Draws (g : GopStatics) (width : Nat) (calls : List VgaCall)
    (lines : Nat → Option Line) : Prop where
  stays : ∀ k ∈ calls, k.wipes = false
  cells : ∀ c r, c < width → c < g.textCols.toNat → r < g.textRows.toNat →
    lastCover VgaCall.wipes (VgaCall.covers g) calls (c, r) = (lines r).bind (·.cell c)

section Cells
variable {g : GopStatics} {col row : UInt8} {text more : List UInt8} {attr : UInt8} {c r : Nat}

@[simp] theorem textCell_nil (col : Nat) (attr : UInt8) (c : Nat) :
    textCell col [] attr c = none := by
  simp [textCell]

theorem textCell_append (col : Nat) :
    (textCell (col + text.length) more attr c).or (textCell col text attr c) =
      textCell col (text ++ more) attr c := by
  by_cases hcol : col ≤ c
  · by_cases hmore : col + text.length ≤ c
    · have hpast : text.length ≤ c - col := by omega
      have hrest : c - (col + text.length) = c - col - text.length := by omega
      simp [textCell, hcol, hmore, hrest, List.getElem?_append_right hpast,
        List.getElem?_eq_none hpast]
    · have hin : c - col < text.length := by omega
      simp [textCell, hcol, hmore, List.getElem?_append_left hin]
  · have hmore : ¬ col + text.length ≤ c := by omega
    simp [textCell, hcol, hmore]

theorem textCovers_eq (hc : c < g.textCols.toNat) (hr : r < g.textRows.toNat) :
    textCovers g row col text attr (c, r) =
      if r = row.toNat then textCell col.toNat text attr c else none := by
  by_cases hrow : r = row.toNat
  · subst hrow
    simp [textCovers, textCell, hc, hr]
  · simp [textCovers, hrow]

@[simp] theorem Line.blank_cell (start width : Nat) (back : UInt8) (c : Nat) :
    (blank start width back).cell c = textCell start (List.replicate width 0x20) back c := by
  simp [cell, blank]

theorem Line.bare_cell (col : Nat) (text : List UInt8) (attr : UInt8) (c : Nat) :
    (bare col text attr).cell c = textCell col text attr c := by
  simp [cell, bare]

theorem Line.Spans.cell {line : Line} {width : Nat} (h : line.Spans width) (hc : c < width) :
    ∃ v, line.cell c = some v := by
  obtain ⟨hstart, hwidth⟩ := h
  have hback : textCell line.start (List.replicate line.width 0x20) line.back c =
      some ⟨0x20, line.back⟩ := by
    have hin : c < line.width := by omega
    simp [textCell, hstart, hin]
  rw [Line.cell, hback]
  cases textCell line.col line.text line.attr c with
  | none => exact ⟨_, rfl⟩
  | some v => exact ⟨v, rfl⟩

theorem Line.cell_extend (line : Line) (more : List UInt8) (c : Nat) :
    (textCell (line.col + line.text.length) more line.attr c).or (line.cell c) =
      { line with text := line.text ++ more }.cell c := by
  rw [cell, ← Option.or_assoc, textCell_append]
  rfl

theorem Line.cell_write {line : Line} (hempty : line.text = []) (col : Nat) (text : List UInt8)
    (attr : UInt8) (c : Nat) :
    (textCell col text attr c).or (line.cell c) =
      { line with col := col, text := text, attr := attr }.cell c := by
  rw [cell, hempty, textCell_nil, Option.none_or]
  rfl

end Cells

namespace Draws

variable {g : GopStatics} {width : Nat} {calls later : List VgaCall}
variable {lines above : Nat → Option Line} {row col n attr back : UInt8} {line : Line}

theorem nil (g : GopStatics) (width : Nat) : Draws g width [] fun _ => none where
  stays := by simp
  cells := by simp [lastCover]

theorem fill (h : Draws g width calls lines) (row col n back : UInt8)
    (hover : lines row.toNat = none ∨ (Line.blank col.toNat n.toNat back).Spans width) :
    Draws g width (calls ++ [.fill row col 0x20 n back])
      (Function.update lines row.toNat (some (.blank col.toNat n.toNat back))) where
  stays := by
    intro k hk
    rcases List.mem_append.mp hk with hk | hk
    · exact h.stays k hk
    · obtain rfl := List.mem_singleton.mp hk
      rfl
  cells := by
    intro c r hc hcols hrows
    rw [lastCover_draw rfl, h.cells c r hc hcols hrows, VgaCall.covers, textCovers_eq hcols hrows]
    by_cases hrow : r = row.toNat
    · subst hrow
      rw [if_pos rfl, Function.update_self, Option.bind_some, Line.blank_cell]
      rcases hover with hnone | hspans
      · simp [hnone]
      · obtain ⟨v, hv⟩ := hspans.cell hc
        rw [Line.blank_cell] at hv
        simp [hv]
    · rw [if_neg hrow, Function.update_of_ne hrow, Option.none_or]

theorem write_line (h : Draws g width calls lines) {str : List UInt8} {next : Line}
    (hnext : ∀ c, (textCell col.toNat (str.takeWhile (· ≠ 0)) attr c).or
      ((lines row.toNat).bind (·.cell c)) = next.cell c) :
    Draws g width (calls ++ [.write row col str attr])
      (Function.update lines row.toNat (some next)) where
  stays := by
    intro k hk
    rcases List.mem_append.mp hk with hk | hk
    · exact h.stays k hk
    · obtain rfl := List.mem_singleton.mp hk
      rfl
  cells := by
    intro c r hc hcols hrows
    rw [lastCover_draw rfl, h.cells c r hc hcols hrows, VgaCall.covers, textCovers_eq hcols hrows]
    by_cases hrow : r = row.toNat
    · subst hrow
      rw [if_pos rfl, Function.update_self, Option.bind_some, hnext]
    · rw [if_neg hrow, Function.update_of_ne hrow, Option.none_or]

theorem bare (h : Draws g width calls lines) (row : UInt8) (hline : lines row.toNat = none)
    (col : UInt8) (str : List UInt8) (attr : UInt8) :
    Draws g width (calls ++ [.write row col str attr])
      (Function.update lines row.toNat
        (some (.bare col.toNat (str.takeWhile (· ≠ 0)) attr))) := by
  apply h.write_line
  intro c
  rw [hline, Line.bare_cell]
  exact Option.or_none

theorem write (h : Draws g width calls lines) (hline : lines row.toNat = some line)
    (hempty : line.text = []) (col : UInt8) (str : List UInt8) (attr : UInt8) :
    Draws g width (calls ++ [.write row col str attr])
      (Function.update lines row.toNat
        (some { line with col := col.toNat, text := str.takeWhile (· ≠ 0), attr := attr })) := by
  apply h.write_line
  intro c
  rw [hline]
  exact line.cell_write hempty col.toNat (str.takeWhile (· ≠ 0)) attr c

theorem extend (h : Draws g width calls lines) (hline : lines row.toNat = some line)
    (col : UInt8) (hcol : col.toNat = line.col + line.text.length) (hattr : attr = line.attr)
    (str : List UInt8) :
    Draws g width (calls ++ [.write row col str attr])
      (Function.update lines row.toNat
        (some { line with text := line.text ++ str.takeWhile (· ≠ 0) })) := by
  apply h.write_line
  intro c
  rw [hline, hcol, hattr]
  exact line.cell_extend (str.takeWhile (· ≠ 0)) c

theorem append (h : Draws g width calls lines) (hlater : Draws g width later above)
    (hapart : ∀ r, above r ≠ none → lines r = none) :
    Draws g width (calls ++ later) fun r => (above r).or (lines r) where
  stays := by
    intro k hk
    rcases List.mem_append.mp hk with hk | hk
    · exact h.stays k hk
    · exact hlater.stays k hk
  cells := by
    intro c r hc hcols hrows
    rw [lastCover_append hlater.stays, hlater.cells c r hc hcols hrows, h.cells c r hc hcols hrows]
    cases habove : above r with
    | none => rfl
    | some line =>
      rw [hapart r (by simp [habove])]
      simp

theorem rounds {ε : Type*} {draw : ε → List VgaCall} {drawn : ε → Nat → Option Line}
    {rounds : List ε} (h : ∀ e ∈ rounds, Draws g width (draw e) (drawn e))
    (hwhole : ∀ e r line, drawn e r = some line → line.Spans width) :
    Draws g width (rounds.reverse.flatMap draw) fun r => rounds.findSome? (drawn · r) where
  stays := by
    intro k hk
    obtain ⟨e, he, hk⟩ := List.mem_flatMap.mp hk
    exact (h e (List.mem_reverse.mp he)).stays k hk
  cells := by
    intro c r hc hcols hrows
    rw [lastCover_rounds fun e he => (h e he).stays]
    induction rounds with
    | nil => rfl
    | cons e rounds ih =>
      have hrest := ih fun e' he' => h e' (List.mem_cons_of_mem e he')
      have hfirst := h e List.mem_cons_self
      rw [List.findSome?_cons, List.findSome?_cons, hfirst.cells c r hc hcols hrows]
      cases hline : drawn e r with
      | none => exact hrest
      | some line =>
        obtain ⟨v, hv⟩ := (hwhole e r line hline).cell hc
        simp [hv]

theorem congr (h : Draws g width calls lines) (heq : ∀ r, lines r = above r) :
    Draws g width calls above := by
  rw [← funext heq]
  exact h

theorem color (h : Draws g width calls lines) {x y : Nat} (hx : x / fontW < width)
    (hcols : x / fontW < g.textCols.toNat) (hrows : y / fontH < g.textRows.toNat) :
    gridColor g (.clear :: calls) (x, y) =
      ((lines (y / fontH)).bind (·.cell (x / fontW))).elim colBlack (·.color (x, y)) := by
  have hpoint : cellOf (x, y) = (x / fontW, y / fontH) := rfl
  rw [gridColor, picture, lastCover_first rfl, hpoint, h.cells _ _ hx hcols hrows]
  cases (lines (y / fontH)).bind (·.cell (x / fontW)) <;> rfl

end Draws

/-- After a clear, the first `width` columns show these lines and nothing else:
in every cell of the grid, and in every pixel where the renderer refines the grid. -/
structure Displays (g : GopStatics) (width : Nat) (calls : List VgaCall)
    (lines : Nat → Option Line) : Prop where
  cells : ∀ c r, c < width → c < g.textCols.toNat → r < g.textRows.toNat →
    lastCover VgaCall.wipes (VgaCall.covers g) (.clear :: calls) (c, r) =
      (lines r).bind (·.cell c)
  pixels : Addressable g → ∀ base s, s.g = g → ∀ x y, x < g.fbHres.toNat →
    y < g.fbVres.toNat → x / fontW < width → x / fontW < g.textCols.toNat →
    y / fontH < g.textRows.toNat →
    g.pixelFormat.shown (run (vgaCall base) (.clear :: calls) s).ram
        (base + Raster.offset g.fbPitch.toNat 4 x y) =
      rgb (((lines (y / fontH)).bind (·.cell (x / fontW))).elim colBlack (·.color (x, y)))

theorem Draws.displays {g : GopStatics} {width : Nat} {calls : List VgaCall}
    {lines : Nat → Option Line} (h : Draws g width calls lines) :
    Displays g width calls lines where
  cells := by
    intro c r hc hcols hrows
    rw [lastCover_first rfl]
    exact h.cells c r hc hcols hrows
  pixels := by
    intro hg base s hs x y hx hy hwidth hcols hrows
    subst hs
    rw [← h.color hwidth hcols hrows]
    exact (hg.refinesGrid base rfl calls).shows x y hx hy

end ModularBootloader
