import ModularBootloader.Gop
import ModularBootloader.Lib.Overlay

/-!
# The text grid behind the framebuffer

What the renderer is for: a grid of character cells, each showing the glyph the
last call since the last clear put there. The grid is read back through a map
from pixels to addresses. Through the map the source draws with, a scan line of
`g_fb_pitch` bytes, the renderer refines the grid. The display's own map has
four bytes a pixel, and `g_fb_pitch` counts pixels.
-/

namespace ModularBootloader
open ByteStore

structure Rgb where
  red : UInt8
  green : UInt8
  blue : UInt8
  deriving DecidableEq, Repr

def rgb (color : UInt32) : Rgb where
  red := ((color >>> 16) &&& 0xFF).toUInt8
  green := ((color >>> 8) &&& 0xFF).toUInt8
  blue := (color &&& 0xFF).toUInt8

def PixelFormat.shown (format : PixelFormat) (ram : Bytes) (a : Nat) : Rgb :=
  match format with
  | .redGreenBlueReserved8BitPerColor => ⟨ram a, ram (a + 1), ram (a + 2)⟩
  | _ => ⟨ram (a + 2), ram (a + 1), ram a⟩

structure Cell where
  ch : UInt8
  attr : UInt8
  deriving DecidableEq, Repr

/-- Pixels and cells are given column first. -/
def cellOf (p : Nat × Nat) : Nat × Nat := (p.1 / fontW, p.2 / fontH)

def glyphColor (ch : UInt8) (fg bg : UInt32) (p : Nat × Nat) : UInt32 :=
  if glyphBit (fontGlyph ch) (p.1 % fontW) (p.2 % fontH) then fg else bg

def Cell.color (cell : Cell) (p : Nat × Nat) : UInt32 :=
  let (fg, bg) := attrToColors cell.attr
  glyphColor cell.ch fg bg p

def VgaCall.wipes : VgaCall → Bool
  | .clear => true
  | _ => false

def textCovers (g : GopStatics) (row col : UInt8) (text : List UInt8) (attr : UInt8)
    (cell : Nat × Nat) : Option Cell :=
  if cell.2 = row.toNat ∧ row.toNat < g.textRows.toNat ∧ col.toNat ≤ cell.1 ∧
      cell.1 < g.textCols.toNat then
    text[cell.1 - col.toNat]?.map (⟨·, attr⟩)
  else none

def VgaCall.covers (g : GopStatics) : VgaCall → Nat × Nat → Option Cell
  | .clear, _ => none
  | .write row col str attr, cell => textCovers g row col (str.takeWhile (· ≠ 0)) attr cell
  | .fill row col ch n attr, cell => textCovers g row col (List.replicate n.toNat ch) attr cell

def gridColor (g : GopStatics) (calls : List VgaCall) (p : Nat × Nat) : UInt32 :=
  Overlay.picture VgaCall.wipes (VgaCall.covers g) cellOf Cell.color colBlack calls p

/-- The calls leave the grid's colours at every visible pixel, no call changes a
pixel of a cell it does not cover, and none a byte outside the `size` bytes of
the framebuffer. -/
structure RefinesGrid (base size : Nat) (addr : Nat → Nat → Nat) (calls : List VgaCall)
    (s : GopState) : Prop where
  shows : ∀ x y, x < s.g.fbHres.toNat → y < s.g.fbVres.toNat →
    s.g.pixelFormat.shown (Overlay.run (vgaCall base) calls s).ram (base + addr x y) =
      rgb (gridColor s.g calls (x, y))
  keeps : ∀ earlier call, earlier ++ [call] <+: calls → ∀ x y, x < s.g.fbHres.toNat →
    y < s.g.fbVres.toNat → call.wipes = false → call.covers s.g (cellOf (x, y)) = none →
    ∀ k < 4, (Overlay.run (vgaCall base) (earlier ++ [call]) s).ram (base + addr x y + k) =
      (Overlay.run (vgaCall base) earlier s).ram (base + addr x y + k)
  inside : ∀ earlier call, earlier ++ [call] <+: calls → ∀ a, a < base ∨ base + size ≤ a →
    (Overlay.run (vgaCall base) (earlier ++ [call]) s).ram a =
      (Overlay.run (vgaCall base) earlier s).ram a

def renderText (g : GopStatics) (base : Nat) (r fg bg : UInt32) :
    List UInt8 → UInt32 → Bytes → Bytes
  | [], _, ram => ram
  | ch :: text, c, ram =>
    if c < g.textCols then
      renderText g base r fg bg text (c + 1) (renderGlyph g base c r ch fg bg ram)
    else ram

def drawText (g : GopStatics) (base : Nat) (row col : UInt8) (text : List UInt8) (attr : UInt8)
    (ram : Bytes) : Bytes :=
  if row.toUInt32 ≥ g.textRows ∨ col.toUInt32 ≥ g.textCols then ram
  else
    let (fg, bg) := attrToColors attr
    renderText g base row.toUInt32 fg bg text col.toUInt32 ram

variable {g : GopStatics} {base : Nat} {r c fg bg : UInt32} {ram : Bytes} {ch : UInt8}

theorem vgaWriteLoop_eq (str : List UInt8) :
    vgaWriteLoop g base r fg bg str c ram =
      renderText g base r fg bg (str.takeWhile (· ≠ 0)) c ram := by
  induction str generalizing c ram with
  | nil => rfl
  | cons ch str ih =>
    by_cases hch : ch = 0
    · simp [vgaWriteLoop, renderText, hch]
    · simp [vgaWriteLoop, renderText, hch, ih]

theorem vgaFillLoop_eq (n : Nat) :
    vgaFillLoop g base r fg bg ch n c ram =
      renderText g base r fg bg (List.replicate n ch) c ram := by
  induction n generalizing c ram with
  | zero => rfl
  | succ n ih => simp [vgaFillLoop, List.replicate_succ, renderText, ih]

theorem vgaCall_draws (base : Nat) (call : VgaCall) (hdraws : call.wipes = false) (s : GopState) :
    ∃ row col text attr, call.covers s.g = textCovers s.g row col text attr ∧
      vgaCall base call s = { s with ram := drawText s.g base row col text attr s.ram } := by
  cases call with
  | clear => cases hdraws
  | write row col str attr =>
    refine ⟨row, col, str.takeWhile (· ≠ 0), attr, rfl, ?_⟩
    unfold vgaCall vgaWrite drawText
    simp only [vgaWriteLoop_eq]
    split <;> rfl
  | fill row col ch n attr =>
    refine ⟨row, col, List.replicate n.toNat ch, attr, rfl, ?_⟩
    unfold vgaCall vgaFill drawText
    simp only [vgaFillLoop_eq]
    split <;> rfl

@[simp] theorem vgaCall_g (call : VgaCall) (s : GopState) : (vgaCall base call s).g = s.g := by
  cases h : call.wipes with
  | true =>
    cases call <;> first | rfl | cases h
  | false =>
    obtain ⟨row, col, text, attr, -, heq⟩ := vgaCall_draws base call h s
    rw [heq]

variable {x y color : UInt32}

def PixelFormat.ink (format : PixelFormat) (color : UInt32) : Bytes :=
  let (red, green, blue) := ((rgb color).red, (rgb color).green, (rgb color).blue)
  match format with
  | .redGreenBlueReserved8BitPerColor => fun k => [red, green, blue, 0].getD k 0
  | _ => fun k => [blue, green, red, 0].getD k 0

theorem putPixel_eq (hx : x < g.fbHres) (hy : y < g.fbVres) :
    putPixel g base x y color ram =
      blit ram (base + g.pixelOffset x y) 4 (g.pixelFormat.ink color) := by
  have hin : ¬ (x ≥ g.fbHres ∨ y ≥ g.fbVres) := by
    rw [not_or]
    exact ⟨UInt32.not_le.mpr hx, UInt32.not_le.mpr hy⟩
  funext a
  rw [putPixel, if_neg hin]
  generalize base + g.pixelOffset x y = px
  by_cases hat : px ≤ a ∧ a < px + 4
  · rw [blit_inside hat.1 hat.2]
    obtain ⟨k, rfl⟩ := Nat.exists_eq_add_of_le hat.1
    have hk : k = 0 ∨ k = 1 ∨ k = 2 ∨ k = 3 := by omega
    rw [Nat.add_sub_cancel_left]
    rcases hk with rfl | rfl | rfl | rfl <;> cases g.pixelFormat <;>
      simp [PixelFormat.ink, rgb, Function.update_of_ne]
  · rw [blit_outside (by omega)]
    have h0 : a ≠ px := by omega
    have h1 : a ≠ px + 1 := by omega
    have h2 : a ≠ px + 2 := by omega
    have h3 : a ≠ px + 3 := by omega
    cases g.pixelFormat <;> simp [Function.update_of_ne, h0, h1, h2, h3]

theorem PixelFormat.shown_congr {ram' : Bytes} {a : Nat} (format : PixelFormat)
    (h : ∀ k < 4, ram' (a + k) = ram (a + k)) : format.shown ram' a = format.shown ram a := by
  have h0 : ram' a = ram a := h 0 (by omega)
  have h1 := h 1 (by omega)
  have h2 := h 2 (by omega)
  cases format <;> simp only [PixelFormat.shown, h0, h1, h2]

theorem PixelFormat.shown_ink {a : Nat} (format : PixelFormat)
    (h : ∀ k < 4, ram (a + k) = format.ink color k) : format.shown ram a = rgb color := by
  have h0 : ram a = format.ink color 0 := h 0 (by omega)
  have h1 := h 1 (by omega)
  have h2 := h 2 (by omega)
  cases format <;> simp [PixelFormat.shown, PixelFormat.ink, h0, h1, h2]

def PixelsKeep (g : GopStatics) (base : Nat) (I : Bytes → Prop) : Prop :=
  ∀ x y color ram, x < g.fbHres → y < g.fbVres → I ram → I (putPixel g base x y color ram)

variable {I : Bytes → Prop}

theorem renderGlyph_keeps (h : PixelsKeep g base I) {col row : UInt32} (hram : I ram) :
    I (renderGlyph g base col row ch fg bg ram) := by
  unfold renderGlyph
  apply Raster.scan_keeps hram
  intro x y t _ _ ht
  by_cases hin : col * 8 + UInt32.ofNat x < g.fbHres ∧ row * 16 + UInt32.ofNat y < g.fbVres
  · exact h _ _ _ _ hin.1 hin.2 ht
  · -- `put_pixel` returns at once.
    have hout : col * 8 + UInt32.ofNat x ≥ g.fbHres ∨ row * 16 + UInt32.ofNat y ≥ g.fbVres := by
      rw [not_and_or, UInt32.not_lt, UInt32.not_lt] at hin
      exact hin
    rw [putPixel, if_pos hout]
    exact ht

theorem renderText_keeps (h : PixelsKeep g base I) (text : List UInt8) (hram : I ram) :
    I (renderText g base r fg bg text c ram) := by
  induction text generalizing c ram with
  | nil => exact hram
  | cons ch text ih =>
    rw [renderText]
    split
    · exact ih (renderGlyph_keeps h hram)
    · exact hram

theorem drawText_keeps (h : PixelsKeep g base I) {row col attr : UInt8} (text : List UInt8)
    (hram : I ram) : I (drawText g base row col text attr ram) := by
  unfold drawText
  split
  · exact hram
  · exact renderText_keeps h text hram

theorem vgaClear_ram (base : Nat) (s : GopState) :
    (vgaCall base .clear s).ram =
      blit s.ram base (s.g.fbPitch * s.g.fbVres).toNat fun _ => 0 :=
  s.gBS.setMem_fills _ _ _ _

theorem vgaCall_outside {a : Nat} {s : GopState} (call : VgaCall)
    (hpixel : ∀ x y, x < s.g.fbHres → y < s.g.fbVres →
      a < base + s.g.pixelOffset x y ∨ base + s.g.pixelOffset x y + 4 ≤ a)
    (hclear : a < base ∨ base + (s.g.fbPitch * s.g.fbVres).toNat ≤ a) :
    (vgaCall base call s).ram a = s.ram a := by
  have hkeep : PixelsKeep s.g base fun ram => ram a = s.ram a := by
    intro x y color ram hx hy hram
    rw [putPixel_eq hx hy, blit_outside (hpixel x y hx hy), hram]
  cases hdraws : call.wipes with
  | true =>
    cases call with
    | clear =>
      rw [vgaClear_ram]
      exact blit_outside hclear
    | write => cases hdraws
    | fill => cases hdraws
  | false =>
    obtain ⟨row, col, text, attr, -, heq⟩ := vgaCall_draws base call hdraws s
    rw [heq]
    exact drawText_keeps hkeep text rfl

theorem run_g (base : Nat) (calls : List VgaCall) (s : GopState) :
    (Overlay.run (vgaCall base) calls s).g = s.g := by
  apply Overlay.run_keeps (I := fun t : GopState => t.g = s.g) rfl
  intro k t ht
  rw [vgaCall_g, ht]

theorem run_outside {a : Nat} {s : GopState} (calls : List VgaCall)
    (hpixel : ∀ x y, x < s.g.fbHres → y < s.g.fbVres →
      a < base + s.g.pixelOffset x y ∨ base + s.g.pixelOffset x y + 4 ≤ a)
    (hclear : a < base ∨ base + (s.g.fbPitch * s.g.fbVres).toNat ≤ a) :
    (Overlay.run (vgaCall base) calls s).ram a = s.ram a := by
  have hkeeps : ∀ k t, (t.g = s.g ∧ t.ram a = s.ram a) →
      (vgaCall base k t).g = s.g ∧ (vgaCall base k t).ram a = s.ram a := by
    rintro k t ⟨hg, hram⟩
    rw [← hg] at hpixel hclear
    exact ⟨(vgaCall_g k t).trans hg, (vgaCall_outside k hpixel hclear).trans hram⟩
  have hrun : (Overlay.run (vgaCall base) calls s).g = s.g ∧
      (Overlay.run (vgaCall base) calls s).ram a = s.ram a :=
    Overlay.run_keeps (I := fun t : GopState => t.g = s.g ∧ t.ram a = s.ram a) ⟨rfl, rfl⟩ hkeeps
  exact hrun.2

/-- A scan line of `g_fb_pitch` bytes has room for its pixels, the whole screen
is addressed without wrapping, and the grid lies on the screen. -/
structure Addressable (g : GopStatics) : Prop where
  line : g.fbHres.toNat * 4 ≤ g.fbPitch.toNat
  screen : g.fbPitch.toNat * g.fbVres.toNat < 2 ^ 32
  cols : g.textCols.toNat * 8 ≤ g.fbHres.toNat
  rows : g.textRows.toNat * 16 ≤ g.fbVres.toNat

namespace Addressable

theorem clear_size (hg : Addressable g) :
    (g.fbPitch * g.fbVres).toNat = g.fbPitch.toNat * g.fbVres.toNat := by
  rw [UInt32.toNat_mul, Nat.mod_eq_of_lt hg.screen]

theorem pixelOffset_eq (hg : Addressable g) (hx : x < g.fbHres) (hy : y < g.fbVres) :
    g.pixelOffset x y = Raster.offset g.fbPitch.toNat 4 x.toNat y.toNat := by
  rw [UInt32.lt_iff_toNat_lt] at hx hy
  have hend := Raster.offset_end_le hg.line hx hy
  have hscreen := hg.screen
  rw [Raster.offset] at hend ⊢
  rw [GopStatics.pixelOffset, UInt32.toNat_mul, UInt32.toNat_mul, Nat.mod_eq_of_lt (by omega),
    Nat.mod_eq_of_lt (show x.toNat * UInt32.toNat 4 < 2 ^ 32 by change x.toNat * 4 < _; omega)]
  rfl

end Addressable

def word (src : Bytes) : Fin 4 → UInt8 := fun k => src k

def GopStatics.look (g : GopStatics) (base : Nat) (ram : Bytes) (X Y : Nat) : Fin 4 → UInt8 :=
  word (window ram (base + Raster.offset g.fbPitch.toNat 4 X Y))

theorem putPixel_look (hg : Addressable g) (hx : x < g.fbHres) (hy : y < g.fbVres) {X Y : Nat}
    (hX : X < g.fbHres.toNat) :
    g.look base (putPixel g base x y color ram) X Y =
      if X = x.toNat ∧ Y = y.toNat then word (g.pixelFormat.ink color)
      else g.look base ram X Y := by
  rw [putPixel_eq hx hy, hg.pixelOffset_eq hx hy]
  funext k
  have hk := k.isLt
  split
  next hat =>
    rw [hat.1, hat.2]
    exact blit_at hk
  next hother =>
    have hapart := Raster.offset_disjoint hg.line (UInt32.lt_iff_toNat_lt.mp hx) hX hother
    exact blit_outside (by omega)

theorem toNat_mul_add_ofNat {a b : UInt32} {i : Nat} (h : a.toNat * b.toNat + i < 2 ^ 32) :
    (a * b + UInt32.ofNat i).toNat = a.toNat * b.toNat + i := by
  rw [UInt32.toNat_add, UInt32.toNat_mul, UInt32.toNat_ofNat',
    Nat.mod_eq_of_lt (show a.toNat * b.toNat < 2 ^ 32 by omega),
    Nat.mod_eq_of_lt (show i < 2 ^ 32 by omega), Nat.mod_eq_of_lt h]

theorem cellOf_eq_iff {X Y col row : Nat} :
    (col * 8 ≤ X ∧ X < col * 8 + fontW) ∧ row * 16 ≤ Y ∧ Y < row * 16 + fontH ↔
      cellOf (X, Y) = (col, row) := by
  simp only [cellOf, fontW, fontH, Prod.mk.injEq]
  omega

theorem renderGlyph_look (hg : Addressable g) {col row : UInt32}
    (hcol : col < g.textCols) (hrow : row < g.textRows) {X Y : Nat} (hX : X < g.fbHres.toNat) :
    g.look base (renderGlyph g base col row ch fg bg ram) X Y =
      if cellOf (X, Y) = (col.toNat, row.toNat) then
        word (g.pixelFormat.ink (glyphColor ch fg bg (X, Y)))
      else g.look base ram X Y := by
  rw [UInt32.lt_iff_toNat_lt] at hcol hrow
  have hcols := hg.cols
  have hrows := hg.rows
  have hhres := g.fbHres.toNat_lt
  have hvres := g.fbVres.toNat_lt
  have hvisit : ∀ x y t, x < fontW → y < fontH → ∀ X Y, X < g.fbHres.toNat →
      g.look base (putPixel g base (col * 8 + UInt32.ofNat x) (row * 16 + UInt32.ofNat y)
        (if glyphBit (fontGlyph ch) x y then fg else bg) t) X Y =
      if X = col.toNat * 8 + x ∧ Y = row.toNat * 16 + y then
        word (g.pixelFormat.ink (if glyphBit (fontGlyph ch) x y then fg else bg))
      else g.look base t X Y := by
    intro x y t hx hy X Y hX
    have hx8 : x < 8 := hx
    have hy16 : y < 16 := hy
    have hpx : (col * 8 + UInt32.ofNat x).toNat = col.toNat * 8 + x :=
      toNat_mul_add_ofNat (show col.toNat * 8 + x < 2 ^ 32 by omega)
    have hpy : (row * 16 + UInt32.ofNat y).toNat = row.toNat * 16 + y :=
      toNat_mul_add_ofNat (show row.toNat * 16 + y < 2 ^ 32 by omega)
    rw [putPixel_look hg (UInt32.lt_iff_toNat_lt.mpr (by omega))
      (UInt32.lt_iff_toNat_lt.mpr (by omega)) hX, hpx, hpy]
  rw [renderGlyph, Raster.scan_look hvisit ram hX]
  by_cases hin : cellOf (X, Y) = (col.toNat, row.toNat)
  · have hrect := cellOf_eq_iff.mpr hin
    rw [if_pos hrect, if_pos hin]
    simp only [fontW, fontH] at hrect
    rw [glyphColor, fontW, fontH, show X - col.toNat * 8 = X % 8 by omega,
      show Y - row.toNat * 16 = Y % 16 by omega]
  · rw [if_neg (mt cellOf_eq_iff.mp hin), if_neg hin]

theorem renderText_look (hg : Addressable g) (hrow : r < g.textRows) (text : List UInt8)
    {X Y : Nat} (hX : X < g.fbHres.toNat) :
    g.look base (renderText g base r fg bg text c ram) X Y =
      if Y / fontH = r.toNat ∧ c.toNat ≤ X / fontW ∧ X / fontW < g.textCols.toNat then
        match text[X / fontW - c.toNat]? with
        | some ch => word (g.pixelFormat.ink (glyphColor ch fg bg (X, Y)))
        | none => g.look base ram X Y
      else g.look base ram X Y := by
  induction text generalizing c ram with
  | nil => simp [renderText]
  | cons ch text ih =>
    have hcols := g.textCols.toNat_lt
    rw [renderText]
    split
    next hc =>
      have hnext : (c + 1).toNat = c.toNat + 1 := by
        rw [UInt32.lt_iff_toNat_lt] at hc
        rw [UInt32.toNat_add]
        change (c.toNat + 1) % 2 ^ 32 = c.toNat + 1
        omega
      rw [ih, hnext, renderGlyph_look hg hc hrow hX]
      rw [UInt32.lt_iff_toNat_lt] at hc
      simp only [cellOf, Prod.mk.injEq]
      by_cases hfirst : X / fontW = c.toNat
      · by_cases hline : Y / fontH = r.toNat
        · rw [if_neg (by omega), if_pos ⟨hfirst, hline⟩, if_pos (by omega), hfirst, Nat.sub_self]
          rfl
        · rw [if_neg (by omega), if_neg (mt And.right hline), if_neg (mt And.left hline)]
      · rw [if_neg (mt And.left hfirst)]
        by_cases hafter : Y / fontH = r.toNat ∧ c.toNat ≤ X / fontW ∧ X / fontW < g.textCols.toNat
        · rw [if_pos (by omega), if_pos hafter,
            show X / fontW - c.toNat = X / fontW - (c.toNat + 1) + 1 by omega,
            List.getElem?_cons_succ]
        · rw [if_neg (by omega), if_neg hafter]
    next hc =>
      rw [UInt32.lt_iff_toNat_lt] at hc
      rw [if_neg (by omega)]

theorem vgaCall_look (base : Nat) (call : VgaCall) (hdraws : call.wipes = false) {s : GopState}
    (hg : Addressable s.g) {p : Nat × Nat} (hX : p.1 < s.g.fbHres.toNat) :
    s.g.look base (vgaCall base call s).ram p.1 p.2 =
      match call.covers s.g (cellOf p) with
      | some cell => word (s.g.pixelFormat.ink (cell.color p))
      | none => s.g.look base s.ram p.1 p.2 := by
  obtain ⟨row, col, text, attr, hcovers, heq⟩ := vgaCall_draws base call hdraws s
  rw [heq, hcovers]
  have hrow : row.toUInt32.toNat = row.toNat := UInt8.toNat_toUInt32 row
  have hcol : col.toUInt32.toNat = col.toNat := UInt8.toNat_toUInt32 col
  change s.g.look base (drawText s.g base row col text attr s.ram) p.1 p.2 = _
  rw [drawText]
  split
  next hout =>
    have hnone : textCovers s.g row col text attr (cellOf p) = none := by
      apply if_neg
      simp only [ge_iff_le, UInt32.le_iff_toNat_le, hrow, hcol] at hout
      omega
    rw [hnone]
  next hin =>
    rw [not_or, UInt32.not_le, UInt32.not_le] at hin
    change s.g.look base (renderText s.g base row.toUInt32 (attrToColors attr).1
      (attrToColors attr).2 text col.toUInt32 s.ram) p.1 p.2 = _
    rw [renderText_look hg hin.1 text hX, hrow, hcol, textCovers]
    rw [UInt32.lt_iff_toNat_lt, hrow] at hin
    simp only [cellOf, hin.1, true_and]
    split
    next hat => cases text[p.1 / fontW - col.toNat]? <;> rfl
    next hat => rfl

theorem ink_black (format : PixelFormat) : word (format.ink colBlack) = fun _ => 0 := by
  cases format <;> decide

theorem vgaClear_look {s : GopState} (hg : Addressable s.g) {X Y : Nat}
    (hX : X < s.g.fbHres.toNat) (hY : Y < s.g.fbVres.toNat) :
    s.g.look base (vgaCall base .clear s).ram X Y = word (s.g.pixelFormat.ink colBlack) := by
  have hend := Raster.offset_end_le hg.line hX hY
  rw [vgaClear_ram, hg.clear_size, ink_black]
  funext k
  have hk := k.isLt
  have hin : base ≤ base + Raster.offset s.g.fbPitch.toNat 4 X Y + k ∧
      base + Raster.offset s.g.fbPitch.toNat 4 X Y + k <
        base + s.g.fbPitch.toNat * s.g.fbVres.toNat := by omega
  change blit s.ram base _ (fun _ => 0) (base + Raster.offset s.g.fbPitch.toNat 4 X Y + k) = 0
  rw [blit_inside hin.1 hin.2]

theorem Addressable.run_look {s : GopState} (hg : Addressable s.g) {first : VgaCall}
    (hfirst : first.wipes = true) (calls : List VgaCall) {p : Nat × Nat}
    (hX : p.1 < s.g.fbHres.toNat) (hY : p.2 < s.g.fbVres.toNat) :
    s.g.look base (Overlay.run (vgaCall base) (first :: calls) s).ram p.1 p.2 =
      word (s.g.pixelFormat.ink (gridColor s.g (first :: calls) p)) := by
  refine Eq.trans ?_ (Overlay.picture_map (fun color => word (s.g.pixelFormat.ink color)) _ p)
  refine Overlay.run_shows (fun (t : GopState) (p : Nat × Nat) => s.g.look base t.ram p.1 p.2)
    (fun t => t.g = s.g) (fun p => p.1 < s.g.fbHres.toNat ∧ p.2 < s.g.fbVres.toNat)
    ?_ ?_ ?_ hfirst rfl ⟨hX, hY⟩
  · intro k t ht
    rw [vgaCall_g, ht]
  · intro k t hk ht p hp
    cases k with
    | clear =>
      rw [← ht] at hg hp ⊢
      exact vgaClear_look hg hp.1 hp.2
    | write => cases hk
    | fill => cases hk
  · intro k t hk ht p hp
    rw [← ht] at hg hp ⊢
    rw [vgaCall_look base k hk hg hp.1]
    cases VgaCall.covers t.g k (cellOf p) <;> rfl

theorem Addressable.refinesGrid {s : GopState} (hg : Addressable s.g) (base : Nat)
    {first : VgaCall} (hfirst : first.wipes = true) (calls : List VgaCall) :
    RefinesGrid base (s.g.fbPitch.toNat * s.g.fbVres.toNat)
      (Raster.offset s.g.fbPitch.toNat 4) (first :: calls) s where
  shows := by
    intro x y hX hY
    apply PixelFormat.shown_ink
    intro k hk
    exact congrFun (hg.run_look hfirst calls (p := (x, y)) hX hY) ⟨k, hk⟩
  keeps := by
    intro earlier call _ x y hX _ hdraws hcovers k hk
    have hsame := run_g base earlier s
    rw [← hsame] at hg hX hcovers
    have hlook := vgaCall_look base call hdraws hg (p := (x, y)) hX
    rw [hcovers] at hlook
    rw [Overlay.run_snoc, ← hsame]
    exact congrFun hlook ⟨k, hk⟩
  inside := by
    intro earlier call _ a ha
    rw [Overlay.run_snoc]
    have hsame := run_g base earlier s
    apply vgaCall_outside
    · intro x y hx hy
      rw [hsame] at hx hy ⊢
      rw [hg.pixelOffset_eq hx hy]
      have hend := Raster.offset_end_le hg.line (UInt32.lt_iff_toNat_lt.mp hx)
        (UInt32.lt_iff_toNat_lt.mp hy)
      omega
    · rw [hsame, hg.clear_size]
      exact ha

namespace ModeInformation

variable {info : ModeInformation}

def addr (info : ModeInformation) (x y : Nat) : Nat :=
  4 * (y * info.pixelsPerScanLine.toNat + x)

def frameBufferSize (info : ModeInformation) : Nat :=
  4 * (info.pixelsPerScanLine.toNat * info.verticalResolution.toNat)

structure Valid (info : ModeInformation) : Prop where
  format : info.pixelFormat = .redGreenBlueReserved8BitPerColor ∨
    info.pixelFormat = .blueGreenRedReserved8BitPerColor
  stride : info.horizontalResolution ≤ info.pixelsPerScanLine
  width : 8 ≤ info.horizontalResolution
  height : 16 ≤ info.verticalResolution

/-- The bytes from the framebuffer's base the renderer can reach: it takes the
scan line for a quarter of its length. -/
def reach (info : ModeInformation) : Nat :=
  info.pixelsPerScanLine.toNat * info.verticalResolution.toNat + 4 * info.horizontalResolution.toNat

theorem pixelOffset_reach {x y : UInt32} (hx : x < info.horizontalResolution)
    (hy : y < info.verticalResolution) : info.statics.pixelOffset x y + 4 ≤ info.reach := by
  rw [UInt32.lt_iff_toNat_lt] at hx hy
  have hline : (y * info.pixelsPerScanLine).toNat ≤ y.toNat * info.pixelsPerScanLine.toNat := by
    rw [UInt32.toNat_mul]
    exact Nat.mod_le _ _
  have hcolumn : (x * 4).toNat ≤ x.toNat * 4 := by
    rw [UInt32.toNat_mul]
    exact Nat.mod_le _ _
  have hrows : y.toNat * info.pixelsPerScanLine.toNat ≤
      info.pixelsPerScanLine.toNat * info.verticalResolution.toNat := by
    rw [Nat.mul_comm]
    exact Nat.mul_le_mul_left _ hy.le
  change (y * info.pixelsPerScanLine).toNat + (x * 4).toNat + 4 ≤ _
  unfold reach
  omega

theorem clear_reach (info : ModeInformation) :
    (info.statics.fbPitch * info.statics.fbVres).toNat ≤ info.reach := by
  change (info.pixelsPerScanLine * info.verticalResolution).toNat ≤ _
  have hsize : (info.pixelsPerScanLine * info.verticalResolution).toNat ≤
      info.pixelsPerScanLine.toNat * info.verticalResolution.toNat := by
    rw [UInt32.toNat_mul]
    exact Nat.mod_le _ _
  exact hsize.trans (Nat.le_add_right _ _)

theorem run_beyond {base a : Nat} {s : GopState} (calls : List VgaCall) (hs : s.g = info.statics)
    (ha : a < base ∨ base + info.reach ≤ a) :
    (Overlay.run (vgaCall base) calls s).ram a = s.ram a := by
  have hclear := info.clear_reach
  apply run_outside
  · intro x y hx hy
    rw [hs] at hx hy ⊢
    have hpixel := pixelOffset_reach hx hy
    omega
  · rw [hs]
    omega

namespace Valid

theorem stride_pos (h : info.Valid) : 8 ≤ info.pixelsPerScanLine.toNat := by
  have hwidth := UInt32.le_iff_toNat_le.mp h.width
  have hstride := UInt32.le_iff_toNat_le.mp h.stride
  change 8 ≤ _ at hwidth
  omega

theorem reach_le (h : info.Valid) : info.reach ≤ info.frameBufferSize := by
  have hheight : 16 ≤ info.verticalResolution.toNat := UInt32.le_iff_toNat_le.mp h.height
  have hstride := UInt32.le_iff_toNat_le.mp h.stride
  have harea : info.pixelsPerScanLine.toNat * 16 ≤
      info.pixelsPerScanLine.toNat * info.verticalResolution.toNat :=
    Nat.mul_le_mul_left _ hheight
  unfold reach frameBufferSize
  omega

theorem reach_le_last (h : info.Valid) :
    info.reach ≤
      info.addr (info.horizontalResolution.toNat - 1) (info.verticalResolution.toNat - 1) := by
  have hheight : 16 ≤ info.verticalResolution.toNat := UInt32.le_iff_toNat_le.mp h.height
  have hwidth : 8 ≤ info.horizontalResolution.toNat := UInt32.le_iff_toNat_le.mp h.width
  have hstride := h.stride_pos
  obtain ⟨lines, hlines⟩ := Nat.exists_eq_add_of_le hheight
  unfold reach addr
  rw [hlines, show 16 + lines - 1 = lines + 15 by omega, Nat.mul_add, Nat.add_mul,
    Nat.mul_comm lines]
  omega

end Valid

end ModeInformation

theorem capped_le (n cap : UInt32) : (if n > cap then cap else n).toNat ≤ n.toNat := by
  split
  next h => exact (UInt32.lt_iff_toNat_lt.mp h).le
  next => exact le_refl _

/-- No sequence of calls draws the last visible pixel of any mode, so what the
firmware left there stays on the screen. -/
theorem run_last_pixel {info : ModeInformation} (h : info.Valid) (base : Nat)
    (calls : List VgaCall) {s : GopState} (hs : s.g = info.statics) :
    info.pixelFormat.shown (Overlay.run (vgaCall base) calls s).ram
      (base + info.addr (info.horizontalResolution.toNat - 1)
        (info.verticalResolution.toNat - 1)) =
    info.pixelFormat.shown s.ram
      (base + info.addr (info.horizontalResolution.toNat - 1)
        (info.verticalResolution.toNat - 1)) := by
  apply PixelFormat.shown_congr
  intro k _
  have hlast := h.reach_le_last
  exact ModeInformation.run_beyond calls hs (.inr (by omega))

theorem run_inside {info : ModeInformation} (h : info.Valid) {base a : Nat}
    (calls : List VgaCall) {s : GopState} (hs : s.g = info.statics)
    (ha : a < base ∨ base + info.frameBufferSize ≤ a) :
    (Overlay.run (vgaCall base) calls s).ram a = s.ram a := by
  have hreach := h.reach_le
  exact ModeInformation.run_beyond calls hs (by omega)

theorem bytePitch_refinesGrid {info : ModeInformation} (h : info.Valid) (base : Nat)
    (hsize : info.frameBufferSize < 2 ^ 32) {s : GopState}
    (hs : s.g = { info.statics with fbPitch := info.pixelsPerScanLine * 4 })
    {first : VgaCall} (hfirst : first.wipes = true) (calls : List VgaCall) :
    RefinesGrid base info.frameBufferSize info.addr (first :: calls) s := by
  have hheight : 16 ≤ info.verticalResolution.toNat := UInt32.le_iff_toNat_le.mp h.height
  have hstride := UInt32.le_iff_toNat_le.mp h.stride
  have hline : info.pixelsPerScanLine.toNat * 16 ≤
      info.pixelsPerScanLine.toNat * info.verticalResolution.toNat :=
    Nat.mul_le_mul_left _ hheight
  unfold ModeInformation.frameBufferSize at hsize
  have hpitch : s.g.fbPitch.toNat = info.pixelsPerScanLine.toNat * 4 := by
    rw [hs]
    change (info.pixelsPerScanLine * 4).toNat = _
    rw [UInt32.toNat_mul]
    exact Nat.mod_eq_of_lt (show info.pixelsPerScanLine.toNat * 4 < 2 ^ 32 by omega)
  have hhres : s.g.fbHres = info.horizontalResolution := by rw [hs]; rfl
  have hvres : s.g.fbVres = info.verticalResolution := by rw [hs]; rfl
  have hcols : s.g.textCols.toNat ≤ info.horizontalResolution.toNat / 8 := by
    rw [hs]
    exact capped_le (info.horizontalResolution / 8) 200
  have hrows : s.g.textRows.toNat ≤ info.verticalResolution.toNat / 16 := by
    rw [hs]
    exact capped_le (info.verticalResolution / 16) 100
  have hg : Addressable s.g := by
    constructor
    · rw [hpitch, hhres]
      omega
    · rw [hpitch, hvres, Nat.mul_right_comm]
      omega
    · rw [hhres]
      omega
    · rw [hvres]
      omega
  have hrefines := hg.refinesGrid base hfirst calls
  have hwhole : s.g.fbPitch.toNat * s.g.fbVres.toNat = info.frameBufferSize := by
    rw [hpitch, hvres, Nat.mul_right_comm, Nat.mul_comm]
    rfl
  have hmap : Raster.offset s.g.fbPitch.toNat 4 = info.addr := by
    funext x y
    rw [Raster.offset, hpitch, ModeInformation.addr]
    ring
  rw [hwhole, hmap] at hrefines
  exact hrefines

/-- `vga_init_gop` in a mode, from any statics and any RAM, then the calls. -/
def DrawsGrid (info : ModeInformation) (base : Nat) (calls : List VgaCall) (s : GopState) : Prop :=
  RefinesGrid base info.frameBufferSize info.addr calls
    (vgaInitGop (some (some ⟨some info, base⟩)) s)

/-- In no mode does any sequence of calls draw the grid over everything the
framebuffer may have held. -/
theorem not_drawsGrid {info : ModeInformation} (h : info.Valid) (base : Nat)
    (calls : List VgaCall) : ¬ ∀ s, DrawsGrid info base (.clear :: calls) s := by
  intro hall
  have hwidth : 8 ≤ info.horizontalResolution.toNat := UInt32.le_iff_toNat_le.mp h.width
  have hheight : 16 ≤ info.verticalResolution.toNat := UInt32.le_iff_toNat_le.mp h.height
  -- Two framebuffers of one colour each: the last pixel keeps either.
  have hpixel : ∀ v : UInt8, (⟨v, v, v⟩ : Rgb) = rgb (gridColor info.statics (.clear :: calls)
      (info.horizontalResolution.toNat - 1, info.verticalResolution.toNat - 1)) := by
    intro v
    have hdrawn := (hall ⟨byteFill, info.statics, 0, 0, fun _ => v⟩).shows
      (info.horizontalResolution.toNat - 1) (info.verticalResolution.toNat - 1)
      (Nat.sub_lt (by omega) one_pos) (Nat.sub_lt (by omega) one_pos)
    have hkept := run_last_pixel h base (.clear :: calls)
      (s := ⟨byteFill, info.statics, 0, 0, fun _ => v⟩) rfl
    refine Eq.trans ?_ (hkept.symm.trans hdrawn)
    cases info.pixelFormat <;> rfl
  have hsame : (⟨0, 0, 0⟩ : Rgb) = ⟨255, 255, 255⟩ := (hpixel 0).trans (hpixel 255).symm
  exact absurd hsame (by decide)

def vga640x480 : ModeInformation where
  horizontalResolution := 640
  verticalResolution := 480
  pixelFormat := .blueGreenRedReserved8BitPerColor
  pixelsPerScanLine := 640

theorem vga640x480_valid : vga640x480.Valid where
  format := .inr rfl
  stride := by decide
  width := by decide
  height := by decide

theorem vga640x480_not_drawsGrid :
    ¬ ∀ s, DrawsGrid vga640x480 0xE0000000 [.clear, .write 10 30 [0x42, 0x6F, 0x6F, 0x74] 0x0F] s :=
  not_drawsGrid vga640x480_valid 0xE0000000 [.write 10 30 [0x42, 0x6F, 0x6F, 0x74] 0x0F]

theorem vga_clear_keeps_white :
    vga640x480.Valid ∧ ¬ DrawsGrid vga640x480 0xE0000000 [.clear]
      ⟨byteFill, {}, 0, 0, fun _ => 255⟩ := by
  refine ⟨vga640x480_valid, ?_⟩
  intro h
  exact absurd (h.shows 639 479 (by decide) (by decide)) (by decide)

/-- No call leaves the framebuffer, and with `g_fb_pitch` in bytes, as its comment has it, the calls
would draw the grid. -/
theorem vgaCalls_framebuffer {info : ModeInformation} (h : info.Valid) (base : Nat)
    (calls : List VgaCall) (s : GopState) :
    (∀ a, a < base ∨ base + info.frameBufferSize ≤ a →
      (Overlay.run (vgaCall base) calls (vgaInitGop (some (some ⟨some info, base⟩)) s)).ram a =
        s.ram a) ∧
    (info.frameBufferSize < 2 ^ 32 → ∀ t : GopState,
      t.g = { info.statics with fbPitch := info.pixelsPerScanLine * 4 } →
      RefinesGrid base info.frameBufferSize info.addr (.clear :: calls) t) := by
  constructor
  · intro a ha
    exact run_inside h calls (s := vgaInitGop (some (some ⟨some info, base⟩)) s) rfl ha
  · intro hsize t ht
    exact bytePitch_refinesGrid h base hsize ht rfl calls

theorem vga640x480_framebuffer :
    (∀ a, a < 0xE0000000 ∨ 0xE0000000 + vga640x480.frameBufferSize ≤ a →
      (Overlay.run (vgaCall 0xE0000000) [.clear, .fill 29 79 0x2A 9 0x70]
        (vgaInitGop (some (some ⟨some vga640x480, 0xE0000000⟩))
          ⟨byteFill, {}, 0, 0, fun _ => 255⟩)).ram a = 255) ∧
    (vga640x480.frameBufferSize < 2 ^ 32 → ∀ t : GopState,
      t.g = { vga640x480.statics with fbPitch := vga640x480.pixelsPerScanLine * 4 } →
      RefinesGrid 0xE0000000 vga640x480.frameBufferSize vga640x480.addr
        [.clear, .clear, .fill 29 79 0x2A 9 0x70] t) :=
  vgaCalls_framebuffer vga640x480_valid 0xE0000000 [.clear, .fill 29 79 0x2A 9 0x70]
    ⟨byteFill, {}, 0, 0, fun _ => 255⟩

end ModularBootloader
