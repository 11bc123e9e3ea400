import ModularBootloader.EfiFont
import ModularBootloader.Lib.ByteStore
import ModularBootloader.Lib.Raster

/-!
# The framebuffer text renderer

The calls of `gop.c` that draw at a given cell. Their arithmetic is the
source's, on 32-bit unsigned numbers; an address is the base of the framebuffer
plus two such offsets. A string is its bytes up to a NUL or to the end of the
list.
-/

namespace ModularBootloader
open ByteStore

inductive PixelFormat where
  | redGreenBlueReserved8BitPerColor
  | blueGreenRedReserved8BitPerColor
  | bitMask
  | bltOnly
  deriving DecidableEq, Repr

structure ModeInformation where
  horizontalResolution : UInt32
  verticalResolution : UInt32
  pixelFormat : PixelFormat
  pixelsPerScanLine : UInt32
  deriving DecidableEq, Repr

structure GopMode where
  info : Option ModeInformation
  frameBufferBase : Nat

structure GopStatics where
  textCols : UInt32 := 80
  textRows : UInt32 := 25
  fbPitch : UInt32 := 0
  fbHres : UInt32 := 0
  fbVres : UInt32 := 0
  pixelFormat : PixelFormat := .redGreenBlueReserved8BitPerColor
  deriving DecidableEq, Repr

/-- `gBS`: of the boot services the renderer calls one, which fills a buffer with a byte. -/
structure BootServices where
  setMem (buffer size : Nat) (value : UInt8) : Bytes → Bytes
  setMem_fills : ∀ buffer size value ram,
    setMem buffer size value ram = blit ram buffer size fun _ => value

def byteFill : BootServices where
  setMem buffer size value ram := blit ram buffer size fun _ => value
  setMem_fills _ _ _ _ := rfl

structure GopState where
  gBS : BootServices
  g : GopStatics
  row : UInt32
  col : UInt32
  ram : Bytes

def colBlack : UInt32 := 0x00000000
def colWhite : UInt32 := 0x00FFFFFF
def colBright : UInt32 := 0x00FFFFFF
def colError : UInt32 := 0x00FF4444

def ModeInformation.statics (info : ModeInformation) : GopStatics :=
  let textCols := info.horizontalResolution / 8
  let textRows := info.verticalResolution / 16
  { textCols := if textCols > 200 then 200 else textCols
    textRows := if textRows > 100 then 100 else textRows
    fbPitch := info.pixelsPerScanLine
    fbHres := info.horizontalResolution
    fbVres := info.verticalResolution
    pixelFormat := info.pixelFormat }

/-- `gop` is `gGOP`; each `none` is a NULL pointer on the way to the mode. -/
def vgaInitGop (gop : Option (Option GopMode)) (s : GopState) : GopState :=
  match gop with
  | some (some ⟨some info, _⟩) => { s with g := info.statics, row := 0, col := 0 }
  | _ => s

def GopStatics.pixelOffset (g : GopStatics) (x y : UInt32) : Nat :=
  (y * g.fbPitch).toNat + (x * 4).toNat

def putPixel (g : GopStatics) (base : Nat) (x y color : UInt32) (ram : Bytes) : Bytes :=
  if x ≥ g.fbHres ∨ y ≥ g.fbVres then ram
  else
    let px := base + g.pixelOffset x y
    let low := (color &&& 0xFF).toUInt8
    let mid := ((color >>> 8) &&& 0xFF).toUInt8
    let high := ((color >>> 16) &&& 0xFF).toUInt8
    match g.pixelFormat with
    | .redGreenBlueReserved8BitPerColor =>
      let ram := Function.update ram px high
      let ram := Function.update ram (px + 1) mid
      let ram := Function.update ram (px + 2) low
      Function.update ram (px + 3) 0
    -- The fallback for the other formats is the code of the blue-first case.
    | _ =>
      let ram := Function.update ram px low
      let ram := Function.update ram (px + 1) mid
      let ram := Function.update ram (px + 2) high
      Function.update ram (px + 3) 0

def glyphBit (glyph : FontGlyph) (x y : Nat) : Bool :=
  glyph.getD y 0 &&& (0x80 >>> UInt8.ofNat x) ≠ 0

def renderGlyph (g : GopStatics) (base : Nat) (col row : UInt32) (ch : UInt8) (fg bg : UInt32)
    (ram : Bytes) : Bytes :=
  let glyph := fontGlyph ch
  let px := col * 8
  let py := row * 16
  Raster.scan (fun x y ram =>
    let c := if glyphBit glyph x y then fg else bg
    putPixel g base (px + UInt32.ofNat x) (py + UInt32.ofNat y) c ram) fontW fontH ram

def attrToColors (attr : UInt8) : UInt32 × UInt32 :=
  if attr = 0x70 then (colBlack, colWhite)
  else if attr = 0x0F then (colBright, colBlack)
  else if attr = 0x4F then (colWhite, colError)
  else (colWhite, colBlack)

def vgaClear (base : Nat) (s : GopState) : GopState :=
  let fbSize := s.g.fbPitch * s.g.fbVres
  { s with ram := s.gBS.setMem base fbSize.toNat 0 s.ram, row := 0, col := 0 }

def vgaWriteLoop (g : GopStatics) (base : Nat) (r fg bg : UInt32) :
    List UInt8 → UInt32 → Bytes → Bytes
  | [], _, ram => ram
  | ch :: s, c, ram =>
    if ch ≠ 0 ∧ c < g.textCols then
      vgaWriteLoop g base r fg bg s (c + 1) (renderGlyph g base c r ch fg bg ram)
    else ram

def vgaWrite (base : Nat) (row col : UInt8) (str : List UInt8) (attr : UInt8)
    (s : GopState) : GopState :=
  let r := row.toUInt32
  let c := col.toUInt32
  if r ≥ s.g.textRows ∨ c ≥ s.g.textCols then s
  else
    let (fg, bg) := attrToColors attr
    { s with ram := vgaWriteLoop s.g base r fg bg str c s.ram }

/-- `n` is the number of rounds the counter `i` still allows. -/
def vgaFillLoop (g : GopStatics) (base : Nat) (r fg bg : UInt32) (ch : UInt8) :
    Nat → UInt32 → Bytes → Bytes
  | 0, _, ram => ram
  | n + 1, c, ram =>
    if c < g.textCols then
      vgaFillLoop g base r fg bg ch n (c + 1) (renderGlyph g base c r ch fg bg ram)
    else ram

def vgaFill (base : Nat) (row col ch n attr : UInt8) (s : GopState) : GopState :=
  let r := row.toUInt32
  let c := col.toUInt32
  if r ≥ s.g.textRows ∨ c ≥ s.g.textCols then s
  else
    let (fg, bg) := attrToColors attr
    { s with ram := vgaFillLoop s.g base r fg bg ch n.toNat c s.ram }

inductive VgaCall where
  | clear
  | write (row col : UInt8) (str : List UInt8) (attr : UInt8)
  | fill (row col ch n attr : UInt8)
  deriving DecidableEq, Repr

def vgaCall (base : Nat) : VgaCall → GopState → GopState
  | .clear => vgaClear base
  | .write row col str attr => vgaWrite base row col str attr
  | .fill row col ch n attr => vgaFill base row col ch n attr

end ModularBootloader
