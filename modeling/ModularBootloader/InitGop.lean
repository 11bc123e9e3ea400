import ModularBootloader.Gop
import ModularBootloader.Lib.FirstBest

/-!
# The choice of a video mode

`init_gop` takes the first graphics output it finds and switches it to the mode
with the most pixels. The product is one of 32-bit numbers, and the pixel format
of a mode is not looked at.
-/

namespace ModularBootloader

/-- `EFI_GRAPHICS_OUTPUT_PROTOCOL`: a query answers with an error status or with
a pointer, which may be NULL. -/
structure GopProtocol where
  maxMode : UInt32
  mode : UInt32
  queryMode : UInt32 → Option (Option ModeInformation)

structure BestMode where
  mode : UInt32
  pixels : UInt32
  deriving DecidableEq, Repr

namespace GopProtocol

def setMode (gop : GopProtocol) (mode : UInt32) : GopProtocol := { gop with mode := mode }

def visitMode (gop : GopProtocol) (best : BestMode) (i : Nat) : BestMode :=
  match gop.queryMode (UInt32.ofNat i) with
  | none => best
  | some none => best
  | some (some info) =>
    let pixels := info.horizontalResolution * info.verticalResolution
    if pixels > best.pixels then ⟨UInt32.ofNat i, pixels⟩ else best

def bestMode (gop : GopProtocol) : BestMode :=
  (List.range gop.maxMode.toNat).foldl gop.visitMode ⟨0, 0⟩

end GopProtocol

structure VideoSetup where
  gop : GopProtocol
  setModes : List UInt32

def firstGop (handles : Option (List (Option GopProtocol))) : Option GopProtocol :=
  match handles with
  | none => none
  | some handles => handles.findSome? id

def initGop (handles : Option (List (Option GopProtocol))) : Option VideoSetup :=
  match firstGop handles with
  | none => none
  | some gop =>
    let best := gop.bestMode
    if best.mode ≠ gop.mode then some ⟨gop.setMode best.mode, [best.mode]⟩
    else some ⟨gop, []⟩

namespace GopProtocol

def modeInfo (gop : GopProtocol) (m : UInt32) : Option ModeInformation :=
  if m < gop.maxMode then (gop.queryMode m).join else none

def Drawable (info : ModeInformation) : Prop :=
  info.pixelFormat = .redGreenBlueReserved8BitPerColor ∨
    info.pixelFormat = .blueGreenRedReserved8BitPerColor

def area (info : ModeInformation) : Nat :=
  info.horizontalResolution.toNat * info.verticalResolution.toNat

/-- `m` is a drawable mode and none of the others is larger. -/
structure LargestDrawable (gop : GopProtocol) (m : UInt32) (info : ModeInformation) : Prop where
  entry : gop.modeInfo m = some info
  drawable : Drawable info
  largest : ∀ m' info', gop.modeInfo m' = some info' → Drawable info' → area info' ≤ area info

/-- What is wanted of the mode that is active afterwards. -/
structure ModeChosen (gop : GopProtocol) (setup : VideoSetup) : Prop where
  active : (∃ m info, gop.modeInfo m = some info ∧ Drawable info) →
    ∃ info, LargestDrawable gop setup.gop.mode info
  quiet : (∀ m, gop.modeInfo m = none) → setup.setModes = []

/-- Of all modes that can be queried, `m` has the largest product modulo `2^32`
and is the first with it; where every product is zero it is mode zero. -/
structure FirstByProduct (gop : GopProtocol) (m : UInt32) (info : ModeInformation) : Prop where
  upper : ∀ m' info', gop.modeInfo m' = some info' → area info' % 2 ^ 32 ≤ area info % 2 ^ 32
  first : ∀ m' < m, ∀ info', gop.modeInfo m' = some info' →
    area info' % 2 ^ 32 < area info % 2 ^ 32
  nonzero : 0 < area info % 2 ^ 32 ∨ m = 0

def weight (gop : GopProtocol) (i : Nat) : Option Nat :=
  (gop.queryMode (UInt32.ofNat i)).join.map fun info => area info % 2 ^ 32

theorem pixels_toNat (info : ModeInformation) :
    (info.horizontalResolution * info.verticalResolution).toNat = area info % 2 ^ 32 :=
  UInt32.toNat_mul _ _

variable {gop : GopProtocol} {m : UInt32} {info : ModeInformation}

theorem visitMode_visit {best : BestMode} {i : Nat} (hi : i < 2 ^ 32) :
    ((gop.visitMode best i).mode.toNat, (gop.visitMode best i).pixels.toNat) =
      FirstBest.visit gop.weight (best.mode.toNat, best.pixels.toNat) i := by
  unfold visitMode FirstBest.visit weight
  rcases gop.queryMode (UInt32.ofNat i) with _ | _ | info
  · rfl
  · rfl
  · have hindex : (UInt32.ofNat i).toNat = i := Nat.mod_eq_of_lt hi
    have hlt : info.horizontalResolution * info.verticalResolution > best.pixels ↔
        best.pixels.toNat < area info % 2 ^ 32 := by
      rw [gt_iff_lt, UInt32.lt_iff_toNat_lt, pixels_toNat]
    simp only [Option.join_some, Option.map_some, if_congr hlt rfl rfl]
    split_ifs
    · rw [hindex, pixels_toNat]
    · rfl

theorem bestMode_scan (gop : GopProtocol) :
    (gop.bestMode.mode.toNat, gop.bestMode.pixels.toNat) =
      FirstBest.scan gop.weight gop.maxMode.toNat := by
  have hmax := gop.maxMode.toNat_lt
  have hprefix : ∀ n ≤ gop.maxMode.toNat,
      (((List.range n).foldl gop.visitMode ⟨0, 0⟩).mode.toNat,
        ((List.range n).foldl gop.visitMode ⟨0, 0⟩).pixels.toNat) =
      FirstBest.scan gop.weight n := by
    intro n
    induction n with
    | zero =>
      intro _
      rfl
    | succ n ih =>
      intro hn
      rw [FirstBest.scan, List.range_succ, List.foldl_append, List.foldl_append,
        List.foldl_cons, List.foldl_nil, List.foldl_cons, List.foldl_nil,
        visitMode_visit (by omega), ih (by omega)]
      rfl
  exact hprefix _ (Nat.le_refl _)

theorem weight_modeInfo {i : Nat} (hi : i < gop.maxMode.toNat) :
    gop.weight i = (gop.modeInfo (UInt32.ofNat i)).map fun info => area info % 2 ^ 32 := by
  have hmax := gop.maxMode.toNat_lt
  have hindex : (UInt32.ofNat i).toNat = i := Nat.mod_eq_of_lt (by omega)
  have hlt : UInt32.ofNat i < gop.maxMode := by
    rw [UInt32.lt_iff_toNat_lt, hindex]
    exact hi
  rw [weight, modeInfo, if_pos hlt]

theorem modeInfo_lt (h : gop.modeInfo m = some info) : m.toNat < gop.maxMode.toNat := by
  unfold modeInfo at h
  split_ifs at h with hlt
  exact UInt32.lt_iff_toNat_lt.mp hlt

theorem weight_word (m : UInt32) (hm : m.toNat < gop.maxMode.toNat) :
    gop.weight m.toNat = (gop.modeInfo m).map fun info => area info % 2 ^ 32 := by
  rw [weight_modeInfo hm, UInt32.ofNat_toNat]

theorem bestMode_eq_iff (h : gop.modeInfo m = some info) :
    gop.bestMode.mode = m ↔ gop.FirstByProduct m info := by
  have hlt := modeInfo_lt h
  have hmax := gop.maxMode.toNat_lt
  have hweight : gop.weight m.toNat = some (area info % 2 ^ 32) := by
    rw [weight_word m hlt, h, Option.map_some]
  have hscan : gop.bestMode.mode.toNat = (FirstBest.scan gop.weight gop.maxMode.toNat).1 :=
    congrArg Prod.fst (bestMode_scan gop)
  rw [← UInt32.toNat_inj, hscan, FirstBest.scan_eq_iff hlt hweight]
  have hentry : ∀ m' info', gop.modeInfo m' = some info' →
      gop.weight m'.toNat = some (area info' % 2 ^ 32) := by
    intro m' info' h'
    rw [weight_word m' (modeInfo_lt h'), h', Option.map_some]
  have hmode : ∀ i < gop.maxMode.toNat, ∀ u, gop.weight i = some u →
      ∃ m' info', gop.modeInfo m' = some info' ∧ m'.toNat = i ∧ area info' % 2 ^ 32 = u := by
    intro i hi u hu
    rw [weight_modeInfo hi, Option.map_eq_some_iff] at hu
    obtain ⟨info', hinfo, harea⟩ := hu
    exact ⟨_, info', hinfo, Nat.mod_eq_of_lt (by omega), harea⟩
  constructor
  · rintro ⟨hupper, hfirst, hpos⟩
    refine ⟨?_, ?_, hpos.imp_right fun hzero => UInt32.toNat_inj.mp hzero⟩
    · intro m' info' h'
      exact hupper _ (modeInfo_lt h') _ (hentry m' info' h')
    · intro m' hm' info' h'
      exact hfirst _ (UInt32.lt_iff_toNat_lt.mp hm') _ (hentry m' info' h')
  · rintro ⟨hupper, hfirst, hpos⟩
    refine ⟨?_, ?_, hpos.imp_right fun hzero => congrArg UInt32.toNat hzero⟩
    · intro i hi u hu
      obtain ⟨m', info', h', -, rfl⟩ := hmode i hi u hu
      exact hupper m' info' h'
    · intro i hi u hu
      obtain ⟨m', info', h', rfl, rfl⟩ := hmode i (hi.trans hlt) u hu
      exact hfirst m' (UInt32.lt_iff_toNat_lt.mpr hi) info' h'

theorem bestMode_none (h : ∀ m, gop.modeInfo m = none) : gop.bestMode.mode = 0 := by
  have hscan : gop.bestMode.mode.toNat = (FirstBest.scan gop.weight gop.maxMode.toNat).1 :=
    congrArg Prod.fst (bestMode_scan gop)
  rw [FirstBest.scan_eq_zero] at hscan
  · exact UInt32.toNat_inj.mp hscan
  · intro i hi
    rw [weight_modeInfo hi, h, Option.map_none]

end GopProtocol

section Choice
open GopProtocol
variable {handles : Option (List (Option GopProtocol))} {gop : GopProtocol}

theorem initGop_some (h : firstGop handles = some gop) :
    ∃ setup, initGop handles = some setup ∧ setup.gop.mode = gop.bestMode.mode ∧
      (setup.setModes = [] ↔ gop.bestMode.mode = gop.mode) := by
  rw [initGop, h]
  by_cases hsame : gop.bestMode.mode = gop.mode
  · exact ⟨⟨gop, []⟩, if_neg (not_not.mpr hsame), hsame.symm, by simp [hsame]⟩
  · exact ⟨⟨gop.setMode gop.bestMode.mode, [gop.bestMode.mode]⟩, if_pos hsame, rfl, by simp [hsame]⟩

/-- The mode is chosen as wanted exactly if a largest drawable mode comes first
by the products of all modes, and no mode is active but mode zero when none can
be queried. -/
theorem initGop_modeChosen_iff (h : firstGop handles = some gop) :
    (∃ setup, initGop handles = some setup ∧ ModeChosen gop setup) ↔
      ((∃ m info, gop.modeInfo m = some info ∧ Drawable info) →
        ∃ m info, LargestDrawable gop m info ∧ FirstByProduct gop m info) ∧
      ((∀ m, gop.modeInfo m = none) → gop.mode = 0) := by
  obtain ⟨setup, hsetup, hactive, hquiet⟩ := initGop_some h
  constructor
  · rintro ⟨setup', hsetup', hchosen⟩
    obtain rfl : setup = setup' := Option.some.inj (hsetup.symm.trans hsetup')
    constructor
    · intro hdrawable
      obtain ⟨info, hlargest⟩ := hchosen.active hdrawable
      rw [hactive] at hlargest
      exact ⟨_, info, hlargest, (bestMode_eq_iff hlargest.entry).mp rfl⟩
    · intro hnone
      rw [← hquiet.mp (hchosen.quiet hnone), bestMode_none hnone]
  · rintro ⟨hfirst, hzero⟩
    refine ⟨setup, hsetup, ?_, ?_⟩
    · intro hdrawable
      obtain ⟨m, info, hlargest, hproduct⟩ := hfirst hdrawable
      rw [hactive, (bestMode_eq_iff hlargest.entry).mpr hproduct]
      exact ⟨info, hlargest⟩
    · intro hnone
      rw [hquiet, bestMode_none hnone, hzero hnone]

def oneMode : GopProtocol :=
  ⟨1, 0, fun _ => some (some ⟨1024, 768, .redGreenBlueReserved8BitPerColor, 1024⟩)⟩

theorem oneMode_modeChosen_iff :
    (∃ setup, initGop (some [none, some oneMode]) = some setup ∧ ModeChosen oneMode setup) ↔
      ((∃ m info, oneMode.modeInfo m = some info ∧ Drawable info) →
        ∃ m info, LargestDrawable oneMode m info ∧ FirstByProduct oneMode m info) ∧
      ((∀ m, oneMode.modeInfo m = none) → oneMode.mode = 0) :=
  initGop_modeChosen_iff rfl

def largerBltOnly : GopProtocol :=
  ⟨2, 0, fun m => some (some (if m = 0 then ⟨1024, 768, .redGreenBlueReserved8BitPerColor, 1024⟩
    else ⟨1920, 1080, .bltOnly, 1920⟩))⟩

theorem largerBltOnly_chosen : ∃ setup, initGop (some [some largerBltOnly]) = some setup ∧
    (∃ m info, largerBltOnly.modeInfo m = some info ∧ Drawable info) ∧
    setup.gop.mode = 1 ∧ ¬ ModeChosen largerBltOnly setup := by
  refine ⟨⟨largerBltOnly.setMode 1, [1]⟩, rfl, ⟨0, _, rfl, .inl rfl⟩, rfl, ?_⟩
  intro h
  obtain ⟨info, hentry, hdrawable, -⟩ := h.active ⟨0, _, rfl, .inl rfl⟩
  obtain rfl : ⟨1920, 1080, .bltOnly, 1920⟩ = info := Option.some.inj hentry
  rcases hdrawable with hformat | hformat <;> cases hformat

end Choice

end ModularBootloader
