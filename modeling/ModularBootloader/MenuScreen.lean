import ModularBootloader.MenuClock
import ModularBootloader.Layout
import ModularBootloader.Screen

/-!
# The menu on the screen

The drawing routines of `menu.c` as the calls they make, and the screen they
are for: a title, eighteen rows of the list with one row reversed, a hint and
the countdown. Whenever `menu_run` polls for a key that screen is on display.
-/

namespace ModularBootloader

def cString (s : String) : List UInt8 := s.toList.map fun c => UInt8.ofNat c.toNat

def vgaCols : Int := 80
def entryTop : Nat := 4
def hint1Row : UInt8 := 22
def hint2Row : UInt8 := 23

def attrNormal : UInt8 := 0x07
def attrHilite : UInt8 := 0x70
def attrBright : UInt8 := 0x0F
def attrDim : UInt8 := 0x07

def mStrlen : List UInt8 → Int
  | [] => 0
  | c :: s => if c ≠ 0 then mStrlen s + 1 else 0

def centerText (row : UInt8) (s : List UInt8) (attr : UInt8) : VgaCall :=
  let col := (vgaCols - mStrlen s).tdiv 2
  let col := if col < 0 then 0 else col
  .write row (UInt8.ofNat col.toNat) s attr

def drawFrame (title subtitle : List UInt8) : List VgaCall :=
  [.fill 0 0 0x20 80 attrNormal,
    .fill 1 0 0x20 80 attrNormal,
    .fill 2 0 0x20 80 attrNormal,
    .fill 3 0 0x20 80 attrNormal,
    centerText 0 title attrBright,
    centerText 1 subtitle attrDim,
    .fill hint1Row 0 0x20 80 attrNormal,
    .fill hint2Row 0 0x20 80 attrNormal,
    centerText hint1Row (cString "Use the arrow keys to move and Enter to boot.") attrDim]

def drawEntry (row : Nat) (name : List UInt8) (selected : Bool) : List VgaCall :=
  let attr := if selected then attrHilite else attrNormal
  [.fill (UInt8.ofNat row) 0 0x20 80 attr,
    .write (UInt8.ofNat row) 2 (cString (if selected then "> " else "  ")) attr,
    .write (UInt8.ofNat row) 4 name attr]

/-- The array is static, so an entry not stored to has an empty name. -/
def listedName (entries : List MblEntry) (idx : Int) : List UInt8 :=
  (entries[idx.toNat]?).elim [] MblEntry.name

def drawListFrom (entries : List MblEntry) : Nat → List Row → List VgaCall
  | _, [] => []
  | row, .entry idx selected :: rows =>
    drawEntry row (listedName entries idx) selected ++ drawListFrom entries (row + 1) rows
  | row, .blank :: rows =>
    [.fill (UInt8.ofNat row) 0 0x20 80 attrNormal] ++ drawListFrom entries (row + 1) rows

def statusText (name : List UInt8) (remaining : Int) : List UInt8 :=
  (drawStatus name remaining).map Prod.snd

def drawStatusLine (name : List UInt8) (remaining : Int) : List VgaCall :=
  [.fill hint2Row 0 0x20 80 attrNormal, centerText hint2Row (statusText name remaining) attrDim]

def drawNoEntries : List VgaCall :=
  [.fill 6 0 0x20 80 attrNormal,
    centerText 6 (cString "No bootable entries found.") attrNormal,
    .fill 8 0 0x20 80 attrNormal,
    centerText 8 (cString "Press Esc to reboot.") attrDim,
    .fill hint2Row 0 0x20 80 attrNormal]

def MenuEvent.calls (entries : List MblEntry) : MenuEvent → List VgaCall
  | .frame => drawFrame (cString "Modular Bootloader") (cString "OpenWindows OWFS boot manager")
  | .list rows => drawListFrom entries entryTop rows
  | .status idx remaining => drawStatusLine (listedName entries idx) remaining
  | .noEntries => drawNoEntries

/-- The calls behind what was shown, the newest of which comes first. -/
def menuCalls (entries : List MblEntry) (shown : List MenuEvent) : List VgaCall :=
  shown.reverse.flatMap (MenuEvent.calls entries)

def blankRow : Line := .blank 0 80 attrNormal

def centered (text : List UInt8) (attr : UInt8) : Line :=
  ⟨0, 80, attrNormal, (80 - text.length) / 2, text, attr⟩

def entryLine (name : List UInt8) (selected : Bool) : Line :=
  let attr := if selected then attrHilite else attrNormal
  ⟨0, 80, attr, 2, cString (if selected then "> " else "  ") ++ name.takeWhile (· ≠ 0), attr⟩

def countdownText (name : List UInt8) (remaining : Int) : List UInt8 :=
  cString "Booting " ++ name.takeWhile (· ≠ 0) ++ cString " in " ++
    cString (toString remaining.toNat) ++ cString "s"

def titleLine : Line := centered (cString "Modular Bootloader") attrBright
def subtitleLine : Line := centered (cString "OpenWindows OWFS boot manager") attrDim
def hintLine : Line := centered (cString "Use the arrow keys to move and Enter to boot.") attrDim

def listLine (entries : List MblEntry) (sel : Int) (idx : Nat) : Line :=
  match entries[idx]? with
  | some e => entryLine e.name (decide (sel = idx))
  | none => blankRow

def menuScreen (entries : List MblEntry) (sel top remaining : Int) (r : Nat) : Option Line :=
  if r = 0 then some titleLine
  else if r = 1 then some subtitleLine
  else if r < 4 then some blankRow
  else if r < 22 then some (listLine entries sel (top.toNat + (r - entryTop)))
  else if r = 22 then some hintLine
  else if r = 23 then some (centered (countdownText (listedName entries sel) remaining) attrDim)
  else none

def emptyScreen (r : Nat) : Option Line :=
  if r = 0 then some titleLine
  else if r = 1 then some subtitleLine
  else if r = 6 then some (centered (cString "No bootable entries found.") attrNormal)
  else if r = 8 then some (centered (cString "Press Esc to reboot.") attrDim)
  else if r = 22 then some hintLine
  else if r < 4 ∨ r = 23 then some blankRow
  else none

def frameLine (r : Nat) : Option Line :=
  if r = 0 then some titleLine
  else if r = 1 then some subtitleLine
  else if r = 22 then some hintLine
  else if r < 4 ∨ r = 23 then some blankRow
  else none

def Row.line (entries : List MblEntry) : Row → Line
  | .entry idx selected => entryLine (listedName entries idx) selected
  | .blank => blankRow

def statusLine (name : List UInt8) (remaining : Int) : Line :=
  centered ((statusText name remaining).takeWhile (· ≠ 0)) attrDim

def MenuEvent.lines (entries : List MblEntry) : MenuEvent → Nat → Option Line
  | .frame, r => frameLine r
  | .list rows, r =>
    if entryTop ≤ r then rows[r - entryTop]?.map (Row.line entries) else none
  | .status idx remaining, r =>
    if r = 23 then some (statusLine (listedName entries idx) remaining) else none
  | .noEntries, r => if r < 4 ∨ r = 22 then none else emptyScreen r

section Events
variable {g : GopStatics} {calls : List VgaCall} {lines : Nat → Option Line}
variable {entries : List MblEntry}

theorem mStrlen_eq (s : List UInt8) : mStrlen s = (s.takeWhile (· ≠ 0)).length := by
  induction s with
  | nil => rfl
  | cons c s ih =>
    by_cases hc : c = 0
    · simp [mStrlen, hc]
    · simp [mStrlen, hc, ih]

theorem centerText_eq (row : UInt8) (s : List UInt8) (attr : UInt8) :
    ∃ col : UInt8, col.toNat = (80 - (s.takeWhile (· ≠ 0)).length) / 2 ∧
      centerText row s attr = .write row col s attr := by
  refine ⟨_, ?_, rfl⟩
  rw [mStrlen_eq, vgaCols, UInt8.toNat_ofNat']
  generalize (s.takeWhile (· ≠ 0)).length = n
  by_cases hn : n ≤ 80
  · rw [Int.tdiv_eq_ediv_of_nonneg (by omega), if_neg (by omega)]
    omega
  · have hcol : ((80 : Int) - n).tdiv 2 = -(((n - 80) / 2 : Nat) : Int) := by
      rw [← Int.neg_sub, Int.neg_tdiv, Int.tdiv_eq_ediv_of_nonneg (by omega)]
      omega
    split <;> omega

theorem Draws.blank (h : Draws g 80 calls lines) (row attr : UInt8) :
    Draws g 80 (calls ++ [.fill row 0 0x20 80 attr])
      (Function.update lines row.toNat (some (.blank 0 80 attr))) :=
  h.fill row 0 80 attr (.inr ⟨rfl, le_refl 80⟩)

theorem Draws.center (h : Draws g 80 calls lines) (row : UInt8)
    (hline : lines row.toNat = some blankRow) (s : List UInt8) (attr : UInt8) :
    Draws g 80 (calls ++ [centerText row s attr])
      (Function.update lines row.toNat (some (centered (s.takeWhile (· ≠ 0)) attr))) := by
  obtain ⟨col, hcol, hcall⟩ := centerText_eq row s attr
  have hdrawn := h.write hline rfl col s attr
  rw [hcall]
  rw [hcol] at hdrawn
  exact hdrawn

theorem title_takeWhile :
    (cString "Modular Bootloader").takeWhile (· ≠ 0) = cString "Modular Bootloader" := by
  decide +kernel

theorem subtitle_takeWhile : (cString "OpenWindows OWFS boot manager").takeWhile (· ≠ 0) =
    cString "OpenWindows OWFS boot manager" := by
  decide +kernel

theorem hint_takeWhile :
    (cString "Use the arrow keys to move and Enter to boot.").takeWhile (· ≠ 0) =
      cString "Use the arrow keys to move and Enter to boot." := by
  decide +kernel

theorem frame_draws : Draws g 80 (MenuEvent.frame.calls entries) frameLine := by
  have hblank := (((((Draws.nil g 80).blank 0 attrNormal).blank 1 attrNormal).blank 2
    attrNormal).blank 3 attrNormal)
  have hcaption := (hblank.center 0 rfl (cString "Modular Bootloader") attrBright).center 1 rfl
    (cString "OpenWindows OWFS boot manager") attrDim
  have hhint := ((hcaption.blank hint1Row attrNormal).blank hint2Row attrNormal).center hint1Row
    rfl (cString "Use the arrow keys to move and Enter to boot.") attrDim
  apply hhint.congr
  intro r
  have hone : hint1Row.toNat = 22 := rfl
  have htwo : hint2Row.toNat = 23 := rfl
  simp only [Function.update_apply, title_takeWhile, subtitle_takeWhile, hint_takeWhile, hone,
    htwo, UInt8.reduceToNat, frameLine]
  split_ifs <;> first | omega | rfl

theorem marker_takeWhile (selected : Bool) :
    (cString (if selected then "> " else "  ")).takeWhile (· ≠ 0) =
      cString (if selected then "> " else "  ") := by
  cases selected <;> decide +kernel

theorem marker_length (selected : Bool) :
    (cString (if selected then "> " else "  ")).length = 2 := by
  cases selected <;> decide +kernel

theorem Draws.entry (h : Draws g 80 calls lines) {row : Nat} (hrow : row < 256)
    (name : List UInt8) (selected : Bool) :
    Draws g 80 (calls ++ drawEntry row name selected)
      (Function.update lines row (some (entryLine name selected))) := by
  have hnat : (UInt8.ofNat row).toNat = row := UInt8.toNat_ofNat_of_lt' hrow
  have hmarked := (h.blank (UInt8.ofNat row) (if selected then attrHilite else attrNormal)).write
    (Function.update_self ..) rfl 2 (cString (if selected then "> " else "  "))
    (if selected then attrHilite else attrNormal)
  have hnamed := hmarked.extend (Function.update_self ..) 4
    (by rw [marker_takeWhile, marker_length]; rfl) rfl name
  rw [Function.update_idem, Function.update_idem, hnat, marker_takeWhile, List.append_assoc,
    List.append_assoc] at hnamed
  exact hnamed

theorem Row.calls_draws (row : Row) {n : Nat} (hn : n < 256) :
    Draws g 80 (drawListFrom entries n [row])
      (Function.update (fun _ => none) n (some (row.line entries))) := by
  cases row with
  | entry idx selected =>
    simp only [drawListFrom, List.append_nil]
    exact (Draws.nil g 80).entry hn (listedName entries idx) selected
  | blank =>
    have hnat : (UInt8.ofNat n).toNat = n := UInt8.toNat_ofNat_of_lt' hn
    have hblank := (Draws.nil g 80).blank (UInt8.ofNat n) attrNormal
    rw [hnat] at hblank
    exact hblank

theorem drawListFrom_cons (row : Row) (rows : List Row) (n : Nat) :
    drawListFrom entries n (row :: rows) =
      drawListFrom entries n [row] ++ drawListFrom entries (n + 1) rows := by
  cases row <;> simp [drawListFrom]

theorem drawListFrom_draws (rows : List Row) {n : Nat} (hn : n + rows.length ≤ 256) :
    Draws g 80 (drawListFrom entries n rows) fun r =>
      if n ≤ r then rows[r - n]?.map (Row.line entries) else none := by
  induction rows generalizing n with
  | nil => exact (Draws.nil g 80).congr fun r => by simp
  | cons row rows ih =>
    rw [List.length_cons] at hn
    rw [drawListFrom_cons]
    apply ((row.calls_draws (show n < 256 by omega)).append (ih (by omega)) _).congr
    · intro r
      rcases Nat.lt_trichotomy r n with hr | rfl | hr
      · simp [Function.update_of_ne (show r ≠ n by omega), show ¬ n ≤ r by omega,
          show ¬ n + 1 ≤ r by omega]
      · simp
      · have hnext : r - n = r - (n + 1) + 1 := by omega
        simp [Function.update_of_ne (show r ≠ n by omega), show n ≤ r by omega,
          show n + 1 ≤ r by omega, hnext]
    · intro r hr
      by_cases heq : r = n
      · simp [heq] at hr
      · exact Function.update_of_ne heq _ _

theorem status_draws (name : List UInt8) (remaining : Int) :
    Draws g 80 (drawStatusLine name remaining) fun r =>
      if r = 23 then some (statusLine name remaining) else none := by
  have hblank := (Draws.nil g 80).blank hint2Row attrNormal
  have hdrawn := hblank.center hint2Row rfl (statusText name remaining) attrDim
  apply hdrawn.congr
  intro r
  have htwo : hint2Row.toNat = 23 := rfl
  simp only [Function.update_apply, htwo]
  split_ifs <;> rfl

theorem noEntries_takeWhile : (cString "No bootable entries found.").takeWhile (· ≠ 0) =
    cString "No bootable entries found." := by
  decide +kernel

theorem reboot_takeWhile :
    (cString "Press Esc to reboot.").takeWhile (· ≠ 0) = cString "Press Esc to reboot." := by
  decide +kernel

theorem noEntries_draws :
    Draws g 80 drawNoEntries (MenuEvent.noEntries.lines entries) := by
  have hfound := ((Draws.nil g 80).blank 6 attrNormal).center 6 rfl
    (cString "No bootable entries found.") attrNormal
  have hesc := (hfound.blank 8 attrNormal).center 8 rfl
    (cString "Press Esc to reboot.") attrDim
  apply (hesc.blank hint2Row attrNormal).congr
  intro r
  have htwo : hint2Row.toNat = 23 := rfl
  simp only [Function.update_apply, noEntries_takeWhile, reboot_takeWhile, htwo,
    UInt8.reduceToNat, MenuEvent.lines, emptyScreen]
  split_ifs <;> first | omega | rfl

theorem MenuEvent.draws (e : MenuEvent) (hrows : ∀ rows, e = .list rows → rows.length = 18) :
    Draws g 80 (e.calls entries) (e.lines entries) := by
  cases e with
  | frame => exact frame_draws
  | list rows =>
    have hlength := hrows rows rfl
    have htop : entryTop = 4 := rfl
    exact drawListFrom_draws rows (by omega)
  | status idx remaining => exact status_draws (listedName entries idx) remaining
  | noEntries => exact noEntries_draws

theorem Row.line_spans (row : Row) : (row.line entries).Spans 80 := by
  cases row <;> exact ⟨rfl, le_refl 80⟩

theorem frameLine_spans {r : Nat} {line : Line} (h : frameLine r = some line) : line.Spans 80 := by
  simp only [frameLine] at h
  split_ifs at h
  all_goals
    obtain rfl := Option.some.inj h
    exact ⟨rfl, le_refl 80⟩

theorem emptyScreen_spans {r : Nat} {line : Line} (h : emptyScreen r = some line) :
    line.Spans 80 := by
  simp only [emptyScreen] at h
  split_ifs at h
  all_goals
    obtain rfl := Option.some.inj h
    exact ⟨rfl, le_refl 80⟩

theorem MenuEvent.lines_spans (e : MenuEvent) {r : Nat} {line : Line}
    (h : e.lines entries r = some line) : line.Spans 80 := by
  cases e with
  | frame => exact frameLine_spans h
  | list rows =>
    simp only [MenuEvent.lines] at h
    split_ifs at h
    obtain ⟨row, -, rfl⟩ := Option.map_eq_some_iff.mp h
    exact row.line_spans
  | status idx remaining =>
    simp only [MenuEvent.lines] at h
    split_ifs at h
    obtain rfl := Option.some.inj h
    exact ⟨rfl, le_refl 80⟩
  | noEntries =>
    simp only [MenuEvent.lines] at h
    split_ifs at h
    exact emptyScreen_spans h

end Events

namespace LineBuf

def values (b : LineBuf) : List UInt8 := b.stores.map Prod.snd

theorem put_values (b : LineBuf) (c : UInt8) : (b.put c).values = b.values ++ [c] := by
  simp [values, put]

theorem putAll_values (b : LineBuf) (text : List UInt8) :
    (b.putAll text).values = b.values ++ text := by
  induction text generalizing b with
  | nil => simp [putAll]
  | cons c rest ih =>
    have hrest := ih (b.put c)
    rw [put_values] at hrest
    simpa [putAll] using hrest

theorem copy_values {b : LineBuf} {text : List UInt8}
    (hfits : b.n + (text.takeWhile (· ≠ 0)).length ≤ 43) :
    (copy text b).values = b.values ++ text.takeWhile (· ≠ 0) := by
  induction text generalizing b with
  | nil => simp [copy]
  | cons c rest ih =>
    by_cases hzero : c = 0
    · simp [copy, hzero]
    · simp only [List.takeWhile_cons, ne_eq, hzero, not_false_eq_true, decide_true, if_true,
        List.length_cons] at hfits ⊢
      have hput : (b.put c).n = b.n + 1 := rfl
      have hnext : copy (c :: rest) b = copy rest (b.put c) := by
        simp [copy, hzero, show b.n < 43 by omega]
      have hroom : (b.put c).n + (rest.takeWhile (· ≠ 0)).length ≤ 43 := by
        simp only [hput, ne_eq]
        omega
      rw [hnext, ih hroom, put_values]
      simp

end LineBuf

theorem drawStatus_values (name : List UInt8) {remaining : Int}
    (hname : (name.takeWhile (· ≠ 0)).length ≤ 28) (hpos : 0 < remaining) :
    statusText name remaining = bootingText ++ name.takeWhile (· ≠ 0) ++ inText ++
      (if remaining ≥ 10 then [digitChar (remaining / 10), digitChar (remaining % 10)]
        else [digitChar remaining]) ++ [0x73, 0] := by
  have hfirst : (LineBuf.copy bootingText ⟨0, []⟩).values = bootingText :=
    LineBuf.copy_values (by decide)
  have hn : (LineBuf.copy bootingText ⟨0, []⟩).n = 8 := rfl
  have hroom : (LineBuf.copy bootingText ⟨0, []⟩).n + (name.takeWhile (· ≠ 0)).length ≤ 43 := by
    omega
  have hcopy := LineBuf.copy_values hroom
  have hvalues : ∀ b : LineBuf, (b.stores ++ [(b.n, (0 : UInt8))]).map Prod.snd =
      b.values ++ [0] := by
    intro b
    simp [LineBuf.values]
  rw [hfirst] at hcopy
  rw [statusText, drawStatus, hvalues, if_pos hpos]
  split_ifs
  · simp [LineBuf.put_values, LineBuf.putAll_values, hcopy]
  · simp [LineBuf.put_values, LineBuf.putAll_values, hcopy]

theorem digitChar_eq (d : Nat) (hd : d < 10) :
    digitChar d = UInt8.ofNat (Nat.digitChar d).toNat ∧ digitChar d ≠ 0 := by
  revert d
  decide

theorem decimal_digits {n : Nat} (hn : n < 100) :
    cString (toString n) =
      if (n : Int) ≥ 10 then [digitChar (n / 10), digitChar (n % 10)] else [digitChar n] := by
  rw [cString, Nat.toString_eq_ofList_toDigits, String.toList_ofList]
  split
  next hten =>
    have htens := (digitChar_eq (n / 10) (by omega)).1
    have hunits := (digitChar_eq (n % 10) (by omega)).1
    push_cast at htens hunits
    rw [Nat.toDigits_of_base_le (by omega) (by omega), Nat.toDigits_of_lt_base (by omega)]
    simp [htens, hunits]
  next hten =>
    rw [Nat.toDigits_of_lt_base (by omega), (digitChar_eq n (by omega)).1]
    rfl

theorem digits_plain {n : Nat} (hn : n < 100) : 0 ∉ cString (toString n) := by
  rw [decimal_digits hn]
  have htens := (digitChar_eq (n / 10) (by omega)).2
  have hunits := (digitChar_eq (n % 10) (by omega)).2
  push_cast at htens hunits
  split
  next => simp [htens.symm, hunits.symm]
  next hten => simp [(digitChar_eq n (by omega)).2.symm]

theorem takeWhile_terminated {text : List UInt8} (h : 0 ∉ text) :
    (text ++ [0]).takeWhile (· ≠ 0) = text := by
  have hall : ∀ c ∈ text, decide (c ≠ 0) = true := by
    rintro c hc
    simp only [decide_eq_true_eq]
    rintro rfl
    exact h hc
  rw [List.takeWhile_append_of_pos hall]
  simp

theorem statusLine_eq (name : List UInt8) {remaining : Int}
    (hname : (name.takeWhile (· ≠ 0)).length ≤ 28) (hpos : 0 < remaining)
    (hle : remaining ≤ 99) :
    statusLine name remaining = centered (countdownText name remaining) attrDim := by
  obtain ⟨n, rfl⟩ := Int.eq_ofNat_of_zero_le hpos.le
  have hbooting : bootingText = cString "Booting " := by decide +kernel
  have hin : inText = cString " in " := by decide +kernel
  have hs : [0x73] = cString "s" := by decide +kernel
  have hvalues := drawStatus_values name hname hpos
  have hend : ([0x73, 0] : List UInt8) = [0x73] ++ [0] := rfl
  rw [← decimal_digits (show n < 100 by omega), hbooting, hin, hend, hs,
    ← List.append_assoc] at hvalues
  have htext : 0 ∉ countdownText name n := by
    have hjoined : 0 ∉ cString "Booting " ∧ 0 ∉ cString " in " ∧ 0 ∉ cString "s" := by
      decide +kernel
    have hname : 0 ∉ name.takeWhile (· ≠ 0) := by
      intro hzero
      simpa using List.mem_takeWhile_imp hzero
    simp only [countdownText, List.mem_append, not_or]
    exact ⟨⟨⟨⟨hjoined.1, hname⟩, hjoined.2.1⟩, digits_plain (by omega)⟩, hjoined.2.2⟩
  have hline : (statusText name n).takeWhile (· ≠ 0) = countdownText name n := by
    rw [hvalues]
    exact takeWhile_terminated htext
  rw [statusLine, hline]

/-- The newest event that drew a row decides it. -/
def screen (entries : List MblEntry) (shown : List MenuEvent) (r : Nat) : Option Line :=
  shown.findSome? (·.lines entries r)

def Framed (r : Nat) : Prop := r < 4 ∨ r = 22 ∨ 24 ≤ r

structure MenuShows (entries : List MblEntry) (s : MenuState) : Prop where
  lists : ∀ rows, .list rows ∈ s.shown → rows.length = 18
  frame : ∀ r, Framed r → screen entries s.shown r = frameLine r
  current : s.needRedraw = false →
    screen entries s.shown = menuScreen entries s.sel s.top s.remaining

/-- The status line for the selected entry reads as a countdown. -/
def Legible (entries : List MblEntry) (s : MenuState) : Prop :=
  statusLine (listedName entries s.sel) s.remaining =
    centered (countdownText (listedName entries s.sel) s.remaining) attrDim

section Runs
variable {g : GopStatics} {entries : List MblEntry} {shown : List MenuEvent}
variable {inp : MenuInput} {count timeoutSecs sel top remaining : Int} {s t : MenuState} {r : Nat}

theorem screen_cons (e : MenuEvent) :
    screen entries (e :: shown) r = (e.lines entries r).or (screen entries shown r) := by
  rw [screen, List.findSome?_cons]
  cases e.lines entries r <;> rfl

theorem menuCalls_draws (h : ∀ rows, .list rows ∈ shown → rows.length = 18) :
    Draws g 80 (menuCalls entries shown) (screen entries shown) := by
  apply Draws.rounds
  · intro e he
    apply e.draws
    rintro rows rfl
    exact h rows he
  · intro e r line hline
    exact e.lines_spans hline

theorem status_lines_framed (idx remaining : Int) (hr : Framed r) :
    (MenuEvent.status idx remaining).lines entries r = none := by
  apply if_neg
  unfold Framed at hr
  omega

theorem list_lines_framed {rows : List Row} (hrows : rows.length = 18) (hr : Framed r) :
    (MenuEvent.list rows).lines entries r = none := by
  have htop : entryTop = 4 := rfl
  simp only [MenuEvent.lines]
  split
  · rw [List.getElem?_eq_none (by unfold Framed at hr; omega)]
    rfl
  · rfl

theorem drawRows_length (count sel top : Int) (n : Nat) :
    (drawRows count sel top n).length = n := by
  induction n with
  | zero => rfl
  | succ n ih =>
    simp only [drawRows]
    split <;> simp [ih]

theorem drawList_length (count sel top : Int) : (drawList count sel top).length = 18 :=
  drawRows_length count sel top 18

theorem drawRows_getElem {n i : Nat} (htop : 0 ≤ top) (hlt : top + visible ≤ 2 ^ 31 - 1)
    (hn : n ≤ 18) (hi : i < n) :
    (drawRows count sel top n)[i]? =
      some (if top + (visible - n) + i ≥ count then .blank
        else .entry (top + (visible - n) + i) (top + (visible - n) + i == sel)) := by
  have hvisible : visible = 18 := rfl
  induction n generalizing i with
  | zero => omega
  | succ n ih =>
    have hrow : int32 (top + (visible - (n + 1))) = top + (visible - (n + 1)) :=
      int32_of_range (by omega) (by omega)
    simp only [drawRows, hrow]
    split
    next hend =>
      rw [List.getElem?_replicate, if_pos hi, if_pos (by push_cast; omega)]
    next hend =>
      cases i with
      | zero =>
        rw [if_neg (by push_cast; omega)]
        simp
      | succ i =>
        have hplace : top + (visible - (n + 1 : Nat)) + (i + 1 : Nat) =
            top + (visible - n) + i := by
          push_cast
          omega
        rw [List.getElem?_cons_succ, ih (by omega) (by omega), hplace]

theorem list_lines (hwindow : InWindow entries.length sel top)
    (hcount : entries.length ≤ 2 ^ 31 - 19) (hlo : entryTop ≤ r) (hhi : r < 22) :
    (MenuEvent.list (drawList entries.length sel top)).lines entries r =
      some (listLine entries sel (top.toNat + (r - entryTop))) := by
  have hvisible : visible = 18 := rfl
  have hfirst : entryTop = 4 := rfl
  obtain ⟨hsel, hlt, htop, -, hfrom, -⟩ := hwindow
  have hplace : top + (visible - (18 : Nat)) + (r - entryTop : Nat) =
      (top.toNat + (r - entryTop) : Nat) := by
    push_cast
    omega
  simp only [MenuEvent.lines, if_pos hlo]
  rw [drawList, show visible.toNat = 18 from rfl,
    drawRows_getElem htop (by omega) (le_refl 18) (by omega), hplace]
  generalize top.toNat + (r - entryTop) = idx
  rw [listLine, Option.map_some]
  split
  next hend =>
    rw [List.getElem?_eq_none (by omega)]
    rfl
  next hin =>
    have hidx : idx < entries.length := by omega
    rw [List.getElem?_eq_getElem hidx, Row.line, listedName, Int.toNat_natCast,
      List.getElem?_eq_getElem hidx]
    simp only [Option.elim_some, beq_eq_decide, eq_comm]

theorem frameLine_framed (sel top remaining : Int) (hr : Framed r) :
    menuScreen entries sel top remaining r = frameLine r := by
  unfold Framed at hr
  simp only [menuScreen, frameLine]
  split_ifs <;> first | omega | rfl

theorem screen_status (hshown : screen entries shown = menuScreen entries sel top remaining)
    (remaining' : Int)
    (hstatus : statusLine (listedName entries sel) remaining' =
      centered (countdownText (listedName entries sel) remaining') attrDim) :
    screen entries (.status sel remaining' :: shown) =
      menuScreen entries sel top remaining' := by
  funext r
  rw [screen_cons, hshown]
  simp only [MenuEvent.lines, hstatus, menuScreen]
  split_ifs <;> first | omega | rfl

theorem MenuShows.redraw (h : MenuShows entries s)
    (hwindow : InWindow entries.length s.sel s.top) (hcount : entries.length ≤ 2 ^ 31 - 19)
    (hstatus : Legible entries s) :
    MenuShows entries (menuRedraw entries.length s) ∧
      screen entries (menuRedraw entries.length s).shown =
        menuScreen entries s.sel s.top s.remaining := by
  have hfirst : entryTop = 4 := rfl
  have hlength := drawList_length entries.length s.sel s.top
  cases hdue : s.needRedraw with
  | false =>
    have hsame : menuRedraw entries.length s = s := by simp [menuRedraw, hdue]
    rw [hsame]
    exact ⟨h, h.current hdue⟩
  | true =>
    have hscreen : screen entries (.status s.sel s.remaining ::
        .list (drawList entries.length s.sel s.top) :: s.shown) =
        menuScreen entries s.sel s.top s.remaining := by
      funext r
      rw [screen_cons, screen_cons]
      by_cases hframed : Framed r
      · rw [status_lines_framed _ _ hframed, list_lines_framed hlength hframed, h.frame r hframed,
          frameLine_framed _ _ _ hframed]
        rfl
      · unfold Framed at hframed
        by_cases hlist : r < 22
        · have hnone : (MenuEvent.status s.sel s.remaining).lines entries r = none :=
            if_neg (by omega)
          rw [hnone, list_lines hwindow hcount (by omega) hlist]
          simp [menuScreen, hlist, show ¬ r < 4 by omega, show r ≠ 0 by omega,
            show r ≠ 1 by omega]
        · obtain rfl : r = 23 := by omega
          rw [Legible] at hstatus
          simp [MenuEvent.lines, menuScreen, hstatus]
    have hdrawn : menuRedraw entries.length s = { s with
        shown := .status s.sel s.remaining ::
          .list (drawList entries.length s.sel s.top) :: s.shown
        needRedraw := false } := by
      simp [menuRedraw, hdue]
    rw [hdrawn]
    refine ⟨⟨?_, ?_, fun _ => hscreen⟩, hscreen⟩
    · intro rows hrows
      simp only [List.mem_cons, reduceCtorEq, MenuEvent.list.injEq, false_or] at hrows
      rcases hrows with rfl | hrows
      · exact hlength
      · exact h.lists rows hrows
    · intro r hframed
      rw [hscreen, frameLine_framed _ _ _ hframed]

theorem menuClock_shows (ht : menuClock inp timeoutSecs s = .inr t) :
    t.needRedraw = s.needRedraw ∧ t.sel = s.sel ∧ t.top = s.top ∧
      (t.shown = s.shown ∧ t.remaining = s.remaining ∨
        t.shown = .status s.sel t.remaining :: s.shown) := by
  unfold menuClock at ht
  split_ifs at ht
  · dsimp only at ht
    split_ifs at ht
    · obtain rfl := Sum.inr.inj ht
      exact ⟨rfl, rfl, rfl, .inl ⟨rfl, rfl⟩⟩
    · obtain rfl := Sum.inr.inj ht
      exact ⟨rfl, rfl, rfl, .inr rfl⟩
  · obtain rfl := Sum.inr.inj ht
    exact ⟨rfl, rfl, rfl, .inl ⟨rfl, rfl⟩⟩

theorem MenuShows.clock (h : MenuShows entries s) (ht : menuClock inp timeoutSecs s = .inr t)
    (hstatus : Legible entries t) : MenuShows entries t := by
  obtain ⟨hdue, hsel, htop, hkept | hticked⟩ := menuClock_shows ht
  · obtain ⟨hshown, hremaining⟩ := hkept
    refine ⟨?_, ?_, ?_⟩
    · rw [hshown]
      exact h.lists
    · rw [hshown]
      exact h.frame
    · rw [hdue, hshown, hsel, htop, hremaining]
      exact h.current
  · refine ⟨?_, ?_, ?_⟩
    · rw [hticked]
      intro rows hrows
      exact h.lists rows (by simpa using hrows)
    · rw [hticked]
      intro r hframed
      rw [screen_cons, status_lines_framed _ _ hframed, h.frame r hframed, Option.none_or]
    · rw [Legible, hsel] at hstatus
      rw [hdue, hticked, hsel, htop]
      intro hcurrent
      exact screen_status (h.current hcurrent) t.remaining hstatus

theorem MenuShows.round (h : MenuShows entries s)
    (hwindow : InWindow entries.length s.sel s.top) (hcount : entries.length ≤ 2 ^ 31 - 19)
    (hnow : Legible entries s) (ht : menuRound inp entries.length timeoutSecs s = .inr t)
    (hnext : Legible entries t) : MenuShows entries t := by
  have hdrawn := (h.redraw hwindow hcount hnow).1
  simp only [menuRound] at ht
  split_ifs at ht
  · refine MenuShows.clock ?_ ht hnext
    -- A key always leaves a redraw behind.
    refine ⟨hdrawn.lists, hdrawn.frame, ?_⟩
    intro hnone
    cases hnone
  · refine MenuShows.clock ?_ ht hnext
    exact ⟨hdrawn.lists, hdrawn.frame, hdrawn.current⟩

theorem menuStart_shows (inp : MenuInput) (timeoutSecs : Int) :
    MenuShows entries (menuStart inp timeoutSecs) where
  lists := by
    intro rows hrows
    simp [menuStart] at hrows
  frame := by
    intro r _
    rw [menuStart, screen_cons]
    exact Option.or_none
  current := by
    intro hnone
    cases hnone

theorem listedName_short (hnames : ∀ e ∈ entries, (e.name.takeWhile (· ≠ 0)).length ≤ 28)
    (idx : Int) : ((listedName entries idx).takeWhile (· ≠ 0)).length ≤ 28 := by
  rw [listedName]
  cases hentry : entries[idx.toNat]? with
  | none => simp
  | some e => exact hnames e (List.mem_of_getElem? hentry)

theorem reaches_legible (hnames : ∀ e ∈ entries, (e.name.takeWhile (· ≠ 0)).length ≤ 28)
    (hsome : 1 ≤ count) (hseconds : ∀ k, (inp.seconds k).toNat < 60) (hpos : 0 < timeoutSecs)
    (htimeout : timeoutSecs ≤ 99) {k : Nat}
    (h : BoundedLoop.Reaches (menuStep inp count timeoutSecs) (menuStart inp timeoutSecs) k s) :
    Legible entries s := by
  have hticks := reaches_ticking hseconds hsome hpos (by omega) h
  have hstart := counted_nonneg hseconds k
  have hruns := hticks.runs
  have hremaining := hticks.remaining
  exact statusLine_eq _ (listedName_short hnames s.sel) (by omega) (by omega)

theorem reaches_shows (hnames : ∀ e ∈ entries, (e.name.takeWhile (· ≠ 0)).length ≤ 28)
    (hsome : 1 ≤ entries.length) (hcount : entries.length ≤ 2 ^ 31 - 19)
    (hseconds : ∀ k, (inp.seconds k).toNat < 60) (hpos : 0 < timeoutSecs)
    (htimeout : timeoutSecs ≤ 99) {k : Nat}
    (h : BoundedLoop.Reaches (menuStep inp entries.length timeoutSecs)
      (menuStart inp timeoutSecs) k s) : MenuShows entries s := by
  have hmany : (1 : Int) ≤ entries.length := by omega
  induction h with
  | start => exact menuStart_shows inp timeoutSecs
  | next hprev hstep ih =>
    have hwell := (menu_well inp timeoutSecs hmany (by omega)).1 _ _ hprev
    have hnow := reaches_legible hnames hmany hseconds hpos htimeout hprev
    have hnext := reaches_legible hnames hmany hseconds hpos htimeout (hprev.next hstep)
    rw [menuStep_some hmany] at hstep
    exact ih.round hwell.window hcount hnow hstep hnext

/-- One row is reversed, and it names the selected entry. -/
def NamesSelected (entries : List MblEntry) (sel : Int) (lines : Nat → Option Line) : Prop :=
  ∃ e r, entries[sel.toNat]? = some e ∧ lines r = some (entryLine e.name true) ∧
    ∀ r' line, lines r' = some line → line.back = attrHilite → r' = r

theorem listLine_reversed {idx : Nat} (h : (listLine entries sel idx).back = attrHilite) :
    sel = idx := by
  rw [listLine] at h
  cases hentry : entries[idx]? with
  | none =>
    rw [hentry] at h
    change attrNormal = attrHilite at h
    exact absurd h (by decide)
  | some e =>
    rw [hentry] at h
    by_contra hother
    rw [decide_eq_false hother] at h
    change attrNormal = attrHilite at h
    exact absurd h (by decide)

theorem menuScreen_namesSelected (h : InWindow entries.length sel top) (remaining : Int) :
    NamesSelected entries sel (menuScreen entries sel top remaining) := by
  have hvisible : visible = 18 := rfl
  have hfirst : entryTop = 4 := rfl
  obtain ⟨hsel, hlt, htop, -, hfrom, hbelow⟩ := h
  have hidx : sel.toNat < entries.length := by omega
  have hplace : top.toNat + (entryTop + (sel - top).toNat - entryTop) = sel.toNat := by omega
  refine ⟨entries[sel.toNat], entryTop + (sel - top).toNat, List.getElem?_eq_getElem hidx, ?_, ?_⟩
  · simp only [menuScreen, hplace]
    rw [if_neg (by omega), if_neg (by omega), if_neg (by omega), if_pos (by omega), listLine,
      List.getElem?_eq_getElem hidx, decide_eq_true (by omega)]
  · intro r' line hline hback
    have hplain : ∀ other : Line, other.back = attrNormal → some other ≠ some line := by
      intro other hother hsame
      rw [Option.some.inj hsame, hback] at hother
      exact absurd hother (by decide)
    simp only [menuScreen] at hline
    split_ifs at hline
    · exact absurd hline (hplain _ rfl)
    · exact absurd hline (hplain _ rfl)
    · exact absurd hline (hplain _ rfl)
    · obtain rfl := Option.some.inj hline
      have heq := listLine_reversed hback
      omega
    · exact absurd hline (hplain _ rfl)
    · exact absurd hline (hplain _ rfl)

structure EmptyShows (entries : List MblEntry) (s : MenuState) : Prop where
  lists : ∀ rows, .list rows ∈ s.shown → rows.length = 18
  rows : ∀ r, screen entries s.shown r = frameLine r ∨ screen entries s.shown r = emptyScreen r
  waiting : s.wait ≠ .idle → screen entries s.shown = emptyScreen

theorem screen_noEntries
    (h : ∀ r, screen entries shown r = frameLine r ∨ screen entries shown r = emptyScreen r) :
    screen entries (.noEntries :: shown) = emptyScreen := by
  funext r
  rw [screen_cons]
  simp only [MenuEvent.lines]
  split
  next hframe =>
    have hsame : frameLine r = emptyScreen r := by
      simp only [frameLine, emptyScreen]
      split_ifs <;> first | omega | rfl
    rw [Option.none_or]
    rcases h r with hr | hr
    · exact hr.trans hsame
    · exact hr
  next hrest =>
    cases hempty : emptyScreen r with
    | some line => rfl
    | none =>
      have hnone : frameLine r = none := by
        simp only [emptyScreen] at hempty
        split_ifs at hempty
        simp only [frameLine]
        split_ifs
        rfl
      rw [Option.none_or]
      rcases h r with hr | hr
      · exact hr.trans hnone
      · exact hr.trans hempty

theorem EmptyShows.round (h : EmptyShows entries s) (ht : menuEmptyRound inp s = .inr t) :
    EmptyShows entries t := by
  unfold menuEmptyRound at ht
  cases hwait : s.wait with
  | idle =>
    rw [hwait] at ht
    obtain rfl := Sum.inr.inj ht
    have hscreen := screen_noEntries h.rows
    refine ⟨?_, fun r => .inr (congrFun hscreen r), fun _ => hscreen⟩
    intro rows hrows
    exact h.lists rows (by simpa using hrows)
  | key =>
    have hscreen := h.waiting (by simp [hwait])
    rw [hwait] at ht
    dsimp only at ht
    split_ifs at ht
    all_goals
      obtain rfl := Sum.inr.inj ht
      exact ⟨h.lists, h.rows, fun _ => hscreen⟩
  | tick t0 =>
    have hscreen := h.waiting (by simp [hwait])
    rw [hwait] at ht
    dsimp only at ht
    split_ifs at ht
    all_goals
      obtain rfl := Sum.inr.inj ht
      exact ⟨h.lists, h.rows, fun _ => hscreen⟩

theorem reaches_empty (hnone : count ≤ 0) {k : Nat}
    (h : BoundedLoop.Reaches (menuStep inp count timeoutSecs) (menuStart inp timeoutSecs) k s) :
    EmptyShows entries s := by
  induction h with
  | start =>
    refine ⟨?_, ?_, ?_⟩
    · intro rows hrows
      simp [menuStart] at hrows
    · intro r
      rw [menuStart, screen_cons]
      exact .inl Option.or_none
    · intro hwait
      exact absurd rfl hwait
  | next hprev hstep ih =>
    rw [menuStep, if_pos hnone] at hstep
    exact ih.round hstep

/-- Whenever `menu_run` polls for a key, the screen shows the list around the
selected entry and the seconds left, or that there is nothing to boot. -/
theorem menuRun_displays (g : GopStatics)
    (hnames : ∀ e ∈ entries, (e.name.takeWhile (· ≠ 0)).length ≤ 28)
    (hcount : entries.length ≤ 2 ^ 31 - 19) (hseconds : ∀ k, (inp.seconds k).toNat < 60)
    (hpos : 0 < timeoutSecs) (htimeout : timeoutSecs ≤ 99)
    (hs : MenuReaches inp entries.length timeoutSecs s) :
    (entries ≠ [] →
      Displays g 80 (menuCalls entries (menuRedraw entries.length s).shown)
        (menuScreen entries s.sel s.top s.remaining) ∧
      NamesSelected entries s.sel (menuScreen entries s.sel s.top s.remaining)) ∧
    (entries = [] → s.wait ≠ .idle → Displays g 80 (menuCalls entries s.shown) emptyScreen) := by
  obtain ⟨k, hk⟩ := hs
  constructor
  · intro hsome
    have hlength : 1 ≤ entries.length := List.length_pos_of_ne_nil hsome
    have hmany : (1 : Int) ≤ entries.length := by omega
    have hwell := (menu_well inp timeoutSecs hmany (by omega)).1 k s hk
    have hlegible := reaches_legible hnames hmany hseconds hpos htimeout hk
    have hshows := reaches_shows hnames hlength hcount hseconds hpos htimeout hk
    obtain ⟨hdrawn, hscreen⟩ := hshows.redraw hwell.window hcount hlegible
    have hdraws : Draws g 80 (menuCalls entries (menuRedraw entries.length s).shown)
        (screen entries (menuRedraw entries.length s).shown) := menuCalls_draws hdrawn.lists
    rw [hscreen] at hdraws
    exact ⟨hdraws.displays, menuScreen_namesSelected hwell.window s.remaining⟩
  · rintro rfl hwait
    have hempty : EmptyShows [] s := reaches_empty (by simp) hk
    have hdraws : Draws g 80 (menuCalls [] s.shown) (screen [] s.shown) :=
      menuCalls_draws hempty.lists
    rw [hempty.waiting hwait] at hdraws
    exact hdraws.displays

def twoKernels : List MblEntry :=
  [⟨16, 1, cString "kernel.bin", 65536, by decide +kernel⟩,
    ⟨17, 1, cString "rescue.bin", 4096, by decide +kernel⟩]

theorem downOnly_displays : ∃ s, MenuReaches downOnly twoKernels.length 10 s ∧ s.sel = 1 ∧
    Displays vga640x480.statics 80 (menuCalls twoKernels (menuRedraw twoKernels.length s).shown)
      (menuScreen twoKernels s.sel s.top s.remaining) := by
  have hstep : menuStep downOnly twoKernels.length 10 (menuStart downOnly 10) = .inr _ := rfl
  have hreach : MenuReaches downOnly twoKernels.length 10 _ := ⟨1, .next .start hstep⟩
  have hseconds : ∀ k, (downOnly.seconds k).toNat < 60 := by
    intro k
    simp only [downOnly]
    split <;> decide
  exact ⟨_, hreach, rfl, ((menuRun_displays vga640x480.statics (by decide +kernel) (by decide)
    hseconds (by decide) (by decide) hreach).1 (by simp [twoKernels])).1⟩

end Runs

end ModularBootloader
