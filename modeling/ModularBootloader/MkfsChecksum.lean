import ModularBootloader.MkfsAccounting
import ModularBootloader.Lib.Fletcher

/-!
# The checksum of the bitmap

The superblock of a finished volume holds the Fletcher sums of its bitmap, and a
bitmap in which some blocks changed their mark, few enough or close enough, has
others.
-/

namespace ModularBootloader.Mkfs
open ByteStore SliceAssign RaisingLoop

section Bits
variable {l : Bytearray} {o n i : Nat}

theorem fromBytes_testBit (l : Bytearray) (i : Nat) :
    (fromBytes l).testBit i = (bytesOf l (i / 8)).toNat.testBit (i % 8) := by
  induction l generalizing i with
  | nil => simp [fromBytes, bytesOf]
  | cons b rest ih =>
    have hfirst : fromBytes (b :: rest) = 2 ^ 8 * fromBytes rest + b.toNat := Nat.add_comm _ _
    rw [hfirst, Nat.testBit_two_pow_mul_add _ b.toNat_lt]
    split_ifs with hi
    · rw [Nat.div_eq_of_lt hi, Nat.mod_eq_of_lt hi]
      rfl
    · rw [ih]
      obtain ⟨j, rfl⟩ : ∃ j, i = j + 8 := ⟨i - 8, by omega⟩
      rw [Nat.add_sub_cancel, Nat.add_div_right j (by decide), Nat.add_mod_right]
      rfl

theorem fromBytes_slice (l : Bytearray) (o n i : Nat) :
    (fromBytes ((l.drop o).take n)).testBit i =
      (decide (i < 8 * n) && (bytesOf l (o + i / 8)).toNat.testBit (i % 8)) := by
  rw [fromBytes_testBit, bytesOf, bytesOf, List.getD_eq_getElem?_getD, List.getElem?_take,
    List.getElem?_drop, List.getD_eq_getElem?_getD]
  by_cases hi : i < 8 * n
  · rw [if_pos (by omega)]
    simp [hi]
  · rw [if_neg (by omega)]
    simp [hi]

theorem fromBytes_slice_lt (l : Bytearray) (o n : Nat) :
    fromBytes ((l.drop o).take n) < 2 ^ (8 * n) := by
  apply Nat.lt_pow_two_of_testBit
  intro i hi
  rw [fromBytes_slice, decide_eq_false (by omega), Bool.false_and]

theorem byteOf_testBit (v k : Nat) (hi : i < 8) :
    (byteOf v k).toNat.testBit i = v.testBit (8 * k + i) := by
  have hpow : 256 ^ k = 2 ^ (8 * k) := by rw [Nat.pow_mul]
  rw [byteOf, UInt8.toNat_ofNat', Nat.testBit_mod_two_pow, hpow,
    Nat.testBit_div_two_pow, decide_eq_true hi, Bool.true_and, Nat.add_comm]

end Bits

namespace Volume

def bitmapWord (vol : Volume) (image : Bytearray) (i : Nat) : Nat :=
  fromBytes ((image.drop (vol.blockOff bitmapStartBlock + 4 * i)).take 4)

def bitmapChecksum (vol : Volume) (image : Bytearray) : Nat :=
  fromBytes ((image.drop (vol.blockOff superBlock + 0x3C)).take 8)

section Sums
variable {vol : Volume} {image image' : Bytearray}

theorem bitmapWord_lt (vol : Volume) (image : Bytearray) (i : Nat) :
    vol.bitmapWord image i < 2 ^ 32 :=
  fromBytes_slice_lt image _ 4

theorem bitmapWord_bit (vol : Volume) (image : Bytearray) (p : Nat) :
    Fletcher.bit 32 (vol.bitmapWord image) p = !vol.bitClear image p := by
  have hplace : vol.blockOff bitmapStartBlock + 4 * (p / 32) + p % 32 / 8 =
      vol.blockOff bitmapStartBlock + p / 8 := by omega
  have hbit : p % 32 % 8 = p % 8 := by omega
  have hin : p % 32 < 8 * 4 := Nat.mod_lt p (by decide)
  rw [Fletcher.bit, bitmapWord, fromBytes_slice, hplace, hbit, decide_eq_true hin, Bool.true_and,
    bitClear, Bool.not_not]
  rfl

theorem sums_append (m : Nat) (f : Nat → Nat) (n k : Nat) :
    Fletcher.sums m f (n + k) =
      (List.range k).foldl (fun s i => Fletcher.step m s (f (n + i))) (Fletcher.sums m f n) := by
  induction k with
  | zero => rfl
  | succ k ih =>
    rw [← Nat.add_assoc, Fletcher.sums_succ, ih, List.range_succ, List.foldl_append]
    rfl

theorem bitmapBlock_word (vol : Volume) (image : Bytearray) {b i : Nat} (hi : i < 1024) :
    fromBytes ((((image.drop (vol.blockOff (bitmapStartBlock + b))).take block).drop
      (4 * i)).take 4) = vol.bitmapWord image (1024 * b + i) := by
  have hplace : vol.blockOff (bitmapStartBlock + b) + 4 * i =
      vol.blockOff bitmapStartBlock + 4 * (1024 * b + i) := by
    rw [blockOff_eq, blockOff_eq]
    omega
  rw [List.drop_take, List.take_take, List.drop_drop, hplace, block_eq, Nat.min_eq_left (by omega)]
  rfl

theorem bitmap_sums (vol : Volume) (image : Bytearray) (n : Nat) :
    ((List.range n).map fun b =>
      (image.drop (vol.blockOff (bitmapStartBlock + b))).take block).foldl
        (fun sums b => (List.range (block / 4)).foldl
          (fun sums i => fletcherWord sums (fromBytes ((b.drop (4 * i)).take 4))) sums) (0, 0) =
      Fletcher.sums (2 ^ 32 - 1) (vol.bitmapWord image) (1024 * n) := by
  induction n with
  | zero => rfl
  | succ n ih =>
    rw [List.range_succ, List.map_append, List.foldl_append, ih, Nat.mul_add, Nat.mul_one,
      sums_append]
    simp only [List.map_cons, List.map_nil, List.foldl_cons, List.foldl_nil]
    apply List.foldl_ext
    intro s i hi
    rw [bitmapBlock_word vol image (List.mem_range.mp hi)]
    rfl

theorem fletcher64_bitmap (vol : Volume) (image : Bytearray) :
    fletcher64 (vol.bitmapImage image) =
      2 ^ 32 * (Fletcher.sums (2 ^ 32 - 1) (vol.bitmapWord image) (1024 * vol.bitmapBlocks)).2 +
        (Fletcher.sums (2 ^ 32 - 1) (vol.bitmapWord image) (1024 * vol.bitmapBlocks)).1 := by
  have hsmall := Fletcher.sums_lt (m := 2 ^ 32 - 1) (by decide) (vol.bitmapWord image)
    (1024 * vol.bitmapBlocks)
  have hsums := bitmap_sums vol image vol.bitmapBlocks
  rw [fletcher64, bitmapImage, hsums, ← Nat.shiftLeft_add_eq_or_of_lt (by omega),
    Nat.shiftLeft_eq, Nat.mul_comm]

theorem fletcher64_lt (vol : Volume) (image : Bytearray) :
    fletcher64 (vol.bitmapImage image) < 2 ^ 64 := by
  have hsmall := Fletcher.sums_lt (m := 2 ^ 32 - 1) (by decide) (vol.bitmapWord image)
    (1024 * vol.bitmapBlocks)
  rw [fletcher64_bitmap]
  omega

/-- The bitmaps differ, and in nothing but marks within 31 in a row, or two of them. -/
structure BitmapDamaged (vol : Volume) (image image' : Bytearray) : Prop where
  differs : ∃ p < 32768 * vol.bitmapBlocks, vol.bitClear image p ≠ vol.bitClear image' p
  within : (∃ s, ∀ p < 32768 * vol.bitmapBlocks, p < s ∨ s + 31 ≤ p →
      vol.bitClear image p = vol.bitClear image' p) ∨
    ∃ p q, ∀ r < 32768 * vol.bitmapBlocks, r ≠ p → r ≠ q →
      vol.bitClear image r = vol.bitClear image' r

theorem BitmapDamaged.words (h : BitmapDamaged vol image image') :
    Fletcher.Damaged 32 (1024 * vol.bitmapBlocks) (vol.bitmapWord image)
      (vol.bitmapWord image') := by
  have hbits : 32 * (1024 * vol.bitmapBlocks) = 32768 * vol.bitmapBlocks := by omega
  constructor
  · obtain ⟨p, hp, hne⟩ := h.differs
    refine ⟨p, by omega, ?_⟩
    rw [bitmapWord_bit, bitmapWord_bit]
    exact fun hsame => hne (Bool.not_inj hsame)
  · rw [hbits]
    rcases h.within with ⟨s, hrest⟩ | ⟨p, q, hrest⟩
    · refine .inl ⟨s, fun p hp hout => ?_⟩
      rw [bitmapWord_bit, bitmapWord_bit, hrest p hp (by omega)]
    · refine .inr ⟨p, q, fun r hr hrp hrq => ?_⟩
      rw [bitmapWord_bit, bitmapWord_bit, hrest r hr hrp hrq]

theorem BitmapDamaged.fletcher64_ne (h : BitmapDamaged vol image image')
    (hwidth : vol.totalBlocks < 2 ^ 32) :
    fletcher64 (vol.bitmapImage image) ≠ fletcher64 (vol.bitmapImage image') := by
  have hblocks : vol.bitmapBlocks = (vol.totalBlocks - 273 + 32768) / 32769 := rfl
  have hsmall := Fletcher.sums_lt (m := 2 ^ 32 - 1) (by decide) (vol.bitmapWord image)
    (1024 * vol.bitmapBlocks)
  have hsmall' := Fletcher.sums_lt (m := 2 ^ 32 - 1) (by decide) (vol.bitmapWord image')
    (1024 * vol.bitmapBlocks)
  have hne := h.words.sums_ne (by decide) (by omega) (fun t _ => bitmapWord_lt vol image t)
    (fun t _ => bitmapWord_lt vol image' t)
  rw [fletcher64_bitmap, fletcher64_bitmap]
  intro heq
  apply hne
  apply Prod.ext
  · omega
  · omega

def flipMark (vol : Volume) (image : Bytearray) (p : Nat) : Bytearray :=
  image.modify (vol.blockOff bitmapStartBlock + p / 8) (· ^^^ UInt8.ofNat (2 ^ (p % 8)))

theorem xor_bit_testBit (b : UInt8) {i : Nat} (hi : i < 8) (j : Nat) :
    (b ^^^ UInt8.ofNat (2 ^ i)).toNat.testBit j = (b.toNat.testBit j ^^ decide (i = j)) := by
  have hpow : 2 ^ i < 2 ^ 8 := Nat.pow_lt_pow_right (by decide) hi
  rw [UInt8.toNat_xor, UInt8.toNat_ofNat', Nat.mod_eq_of_lt hpow, Nat.testBit_xor,
    Nat.testBit_two_pow]

theorem getD_modify {l : Bytearray} {k : Nat} (hk : k < l.length) (f : UInt8 → UInt8) (i : Nat) :
    (l.modify k f).getD i 0 = if k = i then f (l.getD i 0) else l.getD i 0 := by
  rw [List.getD_eq_getElem?_getD, List.getD_eq_getElem?_getD, List.getElem?_modify]
  by_cases hki : k = i
  · subst hki
    simp [hk]
  · cases l[i]? <;> simp [hki]

theorem flipMark_bitClear {p : Nat} (hin : vol.blockOff bitmapStartBlock + p / 8 < image.length)
    (r : Nat) :
    vol.bitClear (vol.flipMark image p) r = (vol.bitClear image r ^^ decide (p = r)) := by
  rw [bitClear, bitClear, flipMark, getD_modify hin]
  by_cases hbyte : p / 8 = r / 8
  · have hsame : p % 8 = r % 8 ↔ p = r := by omega
    rw [if_pos (by rw [hbyte]), xor_bit_testBit _ (Nat.mod_lt p (by decide)), ← Bool.not_xor]
    simp only [hsame]
  · rw [if_neg (by omega), decide_eq_false (by omega), Bool.xor_false]

theorem flipMark_damaged {p : Nat} (hp : p < 32768 * vol.bitmapBlocks)
    (hin : vol.blockOff bitmapStartBlock + p / 8 < image.length) :
    BitmapDamaged vol image (vol.flipMark image p) where
  differs := by
    refine ⟨p, hp, ?_⟩
    rw [flipMark_bitClear hin]
    simp
  within := by
    refine .inr ⟨p, p, fun r _ hr _ => ?_⟩
    rw [flipMark_bitClear hin, decide_eq_false (Ne.symm hr), Bool.xor_false]

end Sums

section Finished
variable {vol : Volume} {s s' : VolumeState} {sb : Bytearray}

theorem superblockBytes_fletcher (h : vol.superblockBytes s = .ok sb) :
    ∀ i < 8, bytesOf sb (0x3C + i) = byteOf (fletcher64 (vol.bitmapImage s.image)) i := by
  have hsmall := fletcher64_lt vol s.image
  simp only [superblockBytes, bind_ok] at h
  obtain ⟨_, -, _, -, _, -, _, -, _, -, _, -, _, -, _, -, _, -, _, -, _, -, _, -, _, -, _, -, _, -,
    _, -, _, -, b17, h17, h18⟩ := h
  have p17 := packInto_ok h17
  have pc := packInto_ok h18
  have hvalue : ((fletcher64 (vol.bitmapImage s.image) : Int) % 2 ^ 64).toNat =
      fletcher64 (vol.bitmapImage s.image) := by omega
  intro i hi
  rw [pc.outside _ (by omega), p17.inside i (by simpa [leBytes] using hi), hvalue]
  simp [leBytes, bytesOf, hi]

theorem writeSuperblock_image (hcover : vol.blockOff vol.inodeTableStart ≤ s.image.length)
    (h : vol.writeSuperblock s = .ok s') :
    vol.bitmapChecksum s'.image = fletcher64 (vol.bitmapImage s.image) ∧
      vol.bitmapImage s'.image = vol.bitmapImage s.image := by
  obtain ⟨sb, hsb, hres⟩ := bind_ok.mp h
  cases hres
  have hlength := (superblockBytes_ok hsb).length
  have hfield := superblockBytes_fletcher hsb
  have hsmall := fletcher64_lt vol s.image
  have hsuper : superBlock = 16 := rfl
  have hstart : bitmapStartBlock = 17 := rfl
  rw [blockOff_eq, inodeTableStart_eq] at hcover
  have hin : vol.blockOff superBlock ≤ s.image.length := by
    rw [blockOff_eq]
    omega
  dsimp only
  constructor
  · apply Nat.eq_of_testBit_eq
    intro i
    rw [bitmapChecksum, fromBytes_slice]
    by_cases hi : i < 64
    · have hbyte : bytesOf (sliceAssign s.image (vol.blockOff superBlock)
          (vol.blockOff superBlock + block) sb) (vol.blockOff superBlock + 0x3C + i / 8) =
          byteOf (fletcher64 (vol.bitmapImage s.image)) (i / 8) := by
        rw [Nat.add_assoc, bytesOf, sliceAssign_getD_inside hin (by omega)]
        exact hfield (i / 8) (by omega)
      rw [hbyte, byteOf_testBit _ _ (Nat.mod_lt i (by decide)), Nat.div_add_mod,
        decide_eq_true (by omega), Bool.true_and]
    · have hpow : 2 ^ 64 ≤ 2 ^ i := Nat.pow_le_pow_right (by decide) (Nat.not_lt.mp hi)
      rw [decide_eq_false (by omega), Bool.false_and, Nat.testBit_eq_false_of_lt (by omega)]
  · have hbehind : ∀ b, (sliceAssign s.image (vol.blockOff superBlock)
        (vol.blockOff superBlock + block) sb).drop (vol.blockOff (bitmapStartBlock + b)) =
        s.image.drop (vol.blockOff (bitmapStartBlock + b)) := by
      intro b
      apply List.ext_getElem?
      intro a
      have hpast : vol.blockOff (bitmapStartBlock + b) + a =
          vol.blockOff superBlock + sb.length + (4096 * b + a) := by
        rw [blockOff_eq, blockOff_eq]
        omega
      have hpast' : vol.blockOff (bitmapStartBlock + b) + a =
          vol.blockOff superBlock + block + (4096 * b + a) := by
        rw [block_eq, hpast, hlength]
      rw [List.getElem?_drop, List.getElem?_drop]
      nth_rewrite 1 [hpast]
      rw [sliceAssign_after (Nat.le_add_right _ _) hin, hpast']
    simp only [bitmapImage, hbehind]

end Finished

end Volume

section Format
variable {image : Bytearray} {totalBlocks blockStart : Nat} {label : String} {files : FileList}
variable {s : VolumeState}

theorem formatOwfs_super
    (h : formatOwfs image totalBlocks label files true blockStart = .ok s) :
    ∃ t, formatOwfs image totalBlocks label files false blockStart = .ok t ∧
      (Volume.mk totalBlocks blockStart label).writeSuperblock t = .ok s := by
  unfold formatOwfs at h ⊢
  by_cases hsmall : totalBlocks < superBlock + 1 + 1 + inodeTableBlocks + 1
  · rw [if_pos hsmall] at h
    cases h
  rw [if_neg hsmall] at h ⊢
  obtain ⟨⟨b, t⟩, halloc, hrest⟩ := bind_ok.mp h
  obtain ⟨u, hroot, hrest⟩ := bind_ok.mp hrest
  obtain ⟨v, hfiles, hsuper⟩ := bind_ok.mp hrest
  rw [if_pos rfl] at hsuper
  refine ⟨v, ?_, hsuper⟩
  exact bind_ok.mpr ⟨⟨b, t⟩, halloc, bind_ok.mpr ⟨u, hroot, bind_ok.mpr ⟨v, hfiles,
    if_neg Bool.false_ne_true⟩⟩⟩

/-- On a finished volume the superblock holds the checksum of the bitmap as it is, and not that
of the bitmap damaged. -/
theorem formatOwfs_checksum (hcover : blockStart + 4096 * totalBlocks + Volume.padSum files ≤
      image.length) (hwidth : totalBlocks < 2 ^ 32)
    (h : formatOwfs image totalBlocks label files true blockStart = .ok s) :
    Volume.bitmapChecksum ⟨totalBlocks, blockStart, label⟩ s.image =
        fletcher64 (Volume.bitmapImage ⟨totalBlocks, blockStart, label⟩ s.image) ∧
      ∀ image', Volume.BitmapDamaged ⟨totalBlocks, blockStart, label⟩ s.image image' →
        Volume.bitmapChecksum ⟨totalBlocks, blockStart, label⟩ s.image ≠
          fletcher64 (Volume.bitmapImage ⟨totalBlocks, blockStart, label⟩ image') := by
  obtain ⟨t, ht, hsuper⟩ := formatOwfs_super h
  have hlength := (formatOwfs_contained hcover ht).length
  have htotal : 275 ≤ totalBlocks := by
    have hmin : superBlock + 1 + 1 + inodeTableBlocks + 1 = 275 := rfl
    by_contra hsmall
    unfold formatOwfs at h
    rw [hmin, if_pos (by omega)] at h
    cases h
  have hend : (Volume.mk totalBlocks blockStart label).blockOff
      (Volume.mk totalBlocks blockStart label).inodeTableStart ≤ t.image.length := by
    have hgeometry := (Volume.mk totalBlocks blockStart label).geometry htotal
    rw [Volume.dataRegionStart_eq] at hgeometry
    rw [Volume.blockOff_eq, Volume.inodeTableStart_eq]
    dsimp only at hgeometry ⊢
    omega
  obtain ⟨hstored, hsame⟩ := Volume.writeSuperblock_image hend hsuper
  have hchecked := hstored.trans (congrArg fletcher64 hsame.symm)
  refine ⟨hchecked, ?_⟩
  intro image' hdamage
  rw [hchecked]
  exact hdamage.fletcher64_ne hwidth

theorem smallKernel_checksum : ∃ s,
    formatOwfs smallDisk 276 "MBL" smallKernel true volumeBase = .ok s ∧
    Volume.bitmapChecksum ⟨276, volumeBase, "MBL"⟩ s.image ≠
      fletcher64 (Volume.bitmapImage ⟨276, volumeBase, "MBL"⟩
        (Volume.flipMark ⟨276, volumeBase, "MBL"⟩ s.image 0)) := by
  obtain ⟨s, hs⟩ := smallDisk_formats
  have hlength : smallDisk.length = volumeBase + (4096 * 276 + 4096 * 1) :=
    List.length_replicate
  have hpad : Volume.padSum smallKernel = 4080 := by decide +kernel
  have hgrow : Volume.growSum smallKernel = 0 := by decide
  have hcover : volumeBase + 4096 * 276 + Volume.padSum smallKernel ≤ smallDisk.length := by omega
  have hcont := (formatOwfs_contained hcover hs).length
  refine ⟨s, hs, (formatOwfs_checksum hcover (by decide) hs).2 _ ?_⟩
  apply Volume.flipMark_damaged
  · decide
  · rw [Volume.blockOff_eq, show Volume.bitmapStartBlock = 17 from rfl]
    dsimp only
    omega

end Format

end ModularBootloader.Mkfs
