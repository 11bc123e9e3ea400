import ModularBootloader.Bancode
import ModularBootloader.MenuScreen

/-!
# The text of a diagnostic code

`mbl_diag_format` renders a code as eight hexadecimal digits and its codename.
The text fits the buffers of its callers, ends in the whole name, and is read
back as the code it was made from.
-/

namespace ModularBootloader

def gCodeNames : List (Bancode × List UInt8) :=
  [(mblComVolumeProbeOk, cString "MBL_COM_VOLUME_PROBE_OK"),
    (mblComCatalogEnumOk, cString "MBL_COM_CATALOG_ENUM_OK"),
    (mblComKernelLoadOk, cString "MBL_COM_KERNEL_LOAD_OK"),
    (mblComBootHandoffOk, cString "MBL_COM_BOOT_HANDOFF_OK"),
    (mblWarnVolumeDirty, cString "MBL_WARN_VOLUME_DIRTY"),
    (mblWarnVolumeLocked, cString "MBL_WARN_VOLUME_LOCKED"),
    (mblWarnStateError, cString "MBL_WARN_STATE_ERROR"),
    (mblWarnVersionMismatch, cString "MBL_WARN_VERSION_MISMATCH"),
    (mblSoftNoVolume, cString "MBL_SOFT_NO_VOLUME"),
    (mblSoftIsUsfs, cString "MBL_SOFT_IS_USFS"),
    (mblSoftNotAFile, cString "MBL_SOFT_NOT_A_FILE"),
    (mblSoftKernelTooSmall, cString "MBL_SOFT_KERNEL_TOO_SMALL"),
    (mblSoftKernelTooLarge, cString "MBL_SOFT_KERNEL_TOO_LARGE"),
    (mblSoftEncryptedVolume, cString "MBL_SOFT_ENCRYPTED_VOLUME"),
    (mblSoftBadBlockMap, cString "MBL_SOFT_BAD_BLOCK_MAP"),
    (mblBanSbMagic, cString "MBL_BAN_SB_MAGIC"),
    (mblBanSbChecksum, cString "MBL_BAN_SB_CHECKSUM"),
    (mblBanInodeChecksum, cString "MBL_BAN_INODE_CHECKSUM"),
    (mblBanCatalogChecksum, cString "MBL_BAN_CATALOG_CHECKSUM"),
    (mblBanIoError, cString "MBL_BAN_IO_ERROR"),
    (mblBanLoadFailed, cString "MBL_BAN_LOAD_FAILED")]

def mblBancodeName (code : Bancode) : List UInt8 :=
  (gCodeNames.find? (·.1 = code)).elim (cString "UNKNOWN") Prod.snd

def hexDigits : List UInt8 := cString "0123456789ABCDEF"

def hexDigit (code : Bancode) (d : Nat) : UInt8 :=
  hexDigits.getD ((code >>> UInt32.ofNat (d * 4)) &&& 0x0F).toNat 0

def copyName : List UInt8 → LineBuf → LineBuf
  | [], b => b
  | c :: name, b => if c ≠ 0 ∧ b.n < 46 then copyName name (b.put c) else b

def mblDiagFormat (code : Bancode) : List (Nat × UInt8) :=
  let b := ((LineBuf.mk 0 []).put 0x30).put 0x78
  let b := [7, 6, 5, 4, 3, 2, 1, 0].foldl (fun b d => b.put (hexDigit code d)) b
  let b := copyName (mblBancodeName code) (b.put 0x20)
  b.stores ++ [(b.n, 0)]

def diagText (code : Bancode) : List UInt8 :=
  ((mblDiagFormat code).map Prod.snd).takeWhile (· ≠ 0)

def hexValue (c : UInt8) : Option Nat :=
  if 0x30 ≤ c ∧ c ≤ 0x39 then some (c.toNat - 0x30)
  else if 0x41 ≤ c ∧ c ≤ 0x46 then some (c.toNat - 0x37)
  else none

def readDigits (text : List UInt8) : Option Nat :=
  text.foldlM (fun v c => (hexValue c).map (v * 16 + ·)) 0

def readDiag (text : List UInt8) : Option (Nat × List UInt8) :=
  if text.take 2 = cString "0x" ∧ (text.drop 10).take 1 = cString " " then
    (readDigits ((text.drop 2).take 8)).map (·, text.drop 11)
  else none

structure Identifies (code : Bancode) : Prop where
  fits : ∀ st ∈ mblDiagFormat code, st.1 < 48
  places : (mblDiagFormat code).map Prod.fst = List.range (mblDiagFormat code).length
  reads : readDiag (diagText code) = some (code.toNat, mblBancodeName code)

theorem foldl_digits (x b n v : Nat) :
    (List.range n).reverse.foldl (fun v d => v * b + x / b ^ d % b) v = v * b ^ n + x % b ^ n := by
  induction n generalizing v with
  | zero => simp [Nat.mod_one]
  | succ n ih =>
    rw [List.range_succ, List.reverse_append, List.reverse_singleton, List.singleton_append,
      List.foldl_cons, ih, Nat.mod_pow_succ]
    ring

theorem hexValue_digit (n : Nat) (hn : n < 16) : hexValue (hexDigits.getD n 0) = some n := by
  revert n
  decide +kernel

theorem nibble_eq (code : Bancode) (d : Nat) (hd : d < 8) :
    ((code >>> UInt32.ofNat (d * 4)) &&& 0x0F).toNat = code.toNat / 16 ^ d % 16 := by
  have hshift : (UInt32.ofNat (d * 4)).toNat = d * 4 := by
    rw [UInt32.toNat_ofNat']
    omega
  have hpow : 2 ^ (d * 4) = 16 ^ d := by
    rw [Nat.mul_comm, Nat.pow_mul]
  rw [UInt32.toNat_and, UInt32.toNat_shiftRight, hshift, Nat.mod_eq_of_lt (by omega),
    Nat.shiftRight_eq_div_pow, hpow]
  exact Nat.and_two_pow_sub_one_eq_mod _ 4

theorem hexValue_hexDigit (code : Bancode) {d : Nat} (hd : d < 8) :
    hexValue (hexDigit code d) = some (code.toNat / 16 ^ d % 16) := by
  rw [hexDigit, nibble_eq code d hd]
  exact hexValue_digit _ (Nat.mod_lt _ (by omega))

theorem readDigits_eq (code : Bancode) :
    readDigits ([7, 6, 5, 4, 3, 2, 1, 0].map (hexDigit code)) = some code.toNat := by
  have hfold : ∀ (ds : List Nat) (v : Nat), (∀ d ∈ ds, d < 8) →
      (ds.map (hexDigit code)).foldlM (fun v c => (hexValue c).map (v * 16 + ·)) v =
        some (ds.foldl (fun v d => v * 16 + code.toNat / 16 ^ d % 16) v) := by
    intro ds
    induction ds with
    | nil => simp
    | cons d ds ih =>
      intro v hds
      have hd : d < 8 := hds d List.mem_cons_self
      simp only [List.map_cons, List.foldlM_cons, hexValue_hexDigit code hd, Option.map_some,
        List.foldl_cons]
      exact ih _ fun e he => hds e (List.mem_cons_of_mem d he)
  have hdigits := foldl_digits code.toNat 16 8 0
  have hsmall := code.toNat_lt
  rw [readDigits, hfold _ _ (by decide)]
  rw [Nat.zero_mul, Nat.zero_add, Nat.mod_eq_of_lt (by omega)] at hdigits
  exact congrArg some hdigits

def diagLine (code : Bancode) : List UInt8 :=
  [0x30, 0x78] ++ [7, 6, 5, 4, 3, 2, 1, 0].map (hexDigit code) ++ [0x20] ++ mblBancodeName code

theorem mblBancodeName_mem (code : Bancode) :
    mblBancodeName code = cString "UNKNOWN" ∨
      ∃ e ∈ gCodeNames, e.1 = code ∧ mblBancodeName code = e.2 := by
  rw [mblBancodeName]
  cases hfound : gCodeNames.find? (·.1 = code) with
  | none => exact .inl rfl
  | some e =>
    have hcode := List.find?_some hfound
    exact .inr ⟨e, List.mem_of_find?_eq_some hfound, by simpa using hcode, rfl⟩

theorem mblBancodeName_plain (code : Bancode) :
    (mblBancodeName code).length ≤ 25 ∧ 0 ∉ mblBancodeName code := by
  have hknown : ∀ e ∈ gCodeNames, e.2.length ≤ 25 ∧ 0 ∉ e.2 := by decide +kernel
  have hunknown : (cString "UNKNOWN").length ≤ 25 ∧ 0 ∉ cString "UNKNOWN" := by decide +kernel
  rcases mblBancodeName_mem code with hname | ⟨e, he, -, hname⟩
  · rw [hname]
    exact hunknown
  · rw [hname]
    exact hknown e he

/-- A name as a number to the base 256, by which names are told apart. -/
def nameNumber (name : List UInt8) : Nat := name.foldl (fun v c => v * 256 + c.toNat) 0

/-- Every codename of the table is its own code's, and `UNKNOWN` is none of them. -/
theorem mblBancodeName_inj {a b : Bancode} (h : mblBancodeName a = mblBancodeName b) :
    a = b ∨ mblBancodeName a = cString "UNKNOWN" := by
  have hnumbers : (gCodeNames.map fun e => nameNumber e.2 % 75) =
      [9, 67, 48, 61, 49, 12, 35, 29, 24, 52, 39, 18, 4, 43, 34, 15, 47, 40, 45, 59, 27] := by
    decide +kernel
  have hnodup : (gCodeNames.map fun e => nameNumber e.2 % 75).Nodup := by
    rw [hnumbers]
    decide
  have hapart : ∀ e ∈ gCodeNames, ∀ e' ∈ gCodeNames, e.2 = e'.2 → e = e' := by
    intro e he e' he' hsame
    exact List.inj_on_of_nodup_map hnodup he he' (by rw [hsame])
  rcases mblBancodeName_mem a with hname | ⟨e, he, rfl, hname⟩
  · exact .inr hname
  · rcases mblBancodeName_mem b with hother | ⟨e', he', rfl, hother⟩
    · exact .inr (h.trans hother)
    · rw [hname, hother] at h
      exact .inl (congrArg Prod.fst (hapart e he e' he' h))

theorem hexDigit_ne_zero (code : Bancode) {d : Nat} (hd : d < 8) : hexDigit code d ≠ 0 := by
  intro hzero
  have hvalue := hexValue_hexDigit code hd
  rw [hzero] at hvalue
  cases hvalue

theorem diagLine_plain (code : Bancode) : 0 ∉ diagLine code := by
  have hdigits : ∀ d ∈ [7, 6, 5, 4, 3, 2, 1, 0], hexDigit code d ≠ 0 := by
    intro d hd
    have hall : ∀ d ∈ [7, 6, 5, 4, 3, 2, 1, 0], d < 8 := by decide
    exact hexDigit_ne_zero code (hall d hd)
  simp only [diagLine, List.mem_append, not_or]
  refine ⟨⟨⟨by decide, ?_⟩, by decide⟩, (mblBancodeName_plain code).2⟩
  intro hzero
  obtain ⟨d, hd, hdigit⟩ := List.mem_map.mp hzero
  exact hdigits d hd hdigit

theorem diagLine_length (code : Bancode) :
    (diagLine code).length = 11 + (mblBancodeName code).length := by
  simp only [diagLine, List.length_append, List.length_map, List.length_cons, List.length_nil]

theorem copyName_eq {name : List UInt8} {b : LineBuf} (hplain : 0 ∉ name)
    (hfits : b.n + name.length ≤ 46) : copyName name b = b.putAll name := by
  induction name generalizing b with
  | nil => rfl
  | cons c name ih =>
    rw [List.length_cons] at hfits
    have hput : (b.put c).n = b.n + 1 := rfl
    rw [List.mem_cons, not_or] at hplain
    rw [copyName, if_pos ⟨Ne.symm hplain.1, by omega⟩, ih hplain.2 (by omega)]
    rfl

theorem mblDiagFormat_eq (code : Bancode) :
    mblDiagFormat code =
      ((LineBuf.mk 0 []).putAll (diagLine code)).stores ++ [((diagLine code).length, 0)] := by
  have hhead : (([7, 6, 5, 4, 3, 2, 1, 0].foldl (fun b d => b.put (hexDigit code d))
      (((LineBuf.mk 0 []).put 0x30).put 0x78)).put 0x20) =
      (LineBuf.mk 0 []).putAll
        ([0x30, 0x78] ++ [7, 6, 5, 4, 3, 2, 1, 0].map (hexDigit code) ++ [0x20]) := rfl
  obtain ⟨hlength, hplain⟩ := mblBancodeName_plain code
  have hwhole : (LineBuf.putAll (LineBuf.putAll ⟨0, []⟩
      ([0x30, 0x78] ++ [7, 6, 5, 4, 3, 2, 1, 0].map (hexDigit code) ++ [0x20]))
      (mblBancodeName code)) = (LineBuf.mk 0 []).putAll (diagLine code) := by
    rw [diagLine, LineBuf.putAll, LineBuf.putAll, LineBuf.putAll, ← List.foldl_append]
  have hn := LineBuf.putAll_n ⟨0, []⟩ (diagLine code)
  simp only [mblDiagFormat]
  rw [hhead, copyName_eq hplain (by rw [LineBuf.putAll_n]; simp; omega), hwhole, hn,
    Nat.zero_add]

theorem diagText_eq (code : Bancode) : diagText code = diagLine code := by
  have hvalues := LineBuf.putAll_values ⟨0, []⟩ (diagLine code)
  have hempty : (LineBuf.mk 0 []).values = [] := rfl
  rw [hempty, List.nil_append] at hvalues
  rw [diagText, mblDiagFormat_eq, List.map_append]
  change (LineBuf.values _ ++ [0]).takeWhile (· ≠ 0) = _
  rw [hvalues]
  exact takeWhile_terminated (diagLine_plain code)

theorem readDiag_diagLine (code : Bancode) :
    readDiag (diagLine code) = some (code.toNat, mblBancodeName code) := by
  have hmark : cString "0x" = [0x30, 0x78] := by decide +kernel
  have hblank : cString " " = [0x20] := by decide +kernel
  have hdigits := readDigits_eq code
  rw [readDiag, hmark, hblank, if_pos ⟨rfl, rfl⟩]
  change (readDigits ([7, 6, 5, 4, 3, 2, 1, 0].map (hexDigit code))).map _ = _
  rw [hdigits]
  rfl

/-- The text of a code fits its buffer of 48 bytes, is read back as the code and
its name, and is no other code's. -/
theorem mblDiagFormat_identifies (code : Bancode) :
    Identifies code ∧ (∀ other, diagText other = diagText code → other = code) ∧
      ∀ other, mblBancodeName code = mblBancodeName other →
        code = other ∨ mblBancodeName code = cString "UNKNOWN" := by
  have hreads : ∀ c, readDiag (diagText c) = some (c.toNat, mblBancodeName c) := by
    intro c
    rw [diagText_eq]
    exact readDiag_diagLine c
  have hfilled := LineBuf.Filled.putAll (b := ⟨0, []⟩) rfl (diagLine code)
  have hn := LineBuf.putAll_n ⟨0, []⟩ (diagLine code)
  rw [Nat.zero_add] at hn
  refine ⟨⟨?_, ?_, hreads code⟩, ?_, fun other => mblBancodeName_inj⟩
  · have hname := (mblBancodeName_plain code).1
    have hlength := diagLine_length code
    rw [mblDiagFormat_eq, ← hn]
    exact (hfilled.closed 48).mpr (by omega)
  · have hstores : ((LineBuf.mk 0 []).putAll (diagLine code)).stores.length =
        (diagLine code).length := by
      rw [← List.length_map (f := Prod.fst), hfilled, List.length_range, hn]
    rw [LineBuf.Filled, hn] at hfilled
    rw [mblDiagFormat_eq, List.map_append, hfilled, List.length_append, hstores]
    exact List.range_succ.symm
  · intro other hsame
    have hother := hreads other
    rw [hsame, hreads code] at hother
    exact UInt32.toNat_inj.mp (congrArg Prod.fst (Option.some.inj hother)).symm

end ModularBootloader
