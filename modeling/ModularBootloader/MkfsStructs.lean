import ModularBootloader.Mkfs
import ModularBootloader.OwfsRounds

/-!
# The structures the formatter writes

A packed write as a patch of its buffer, and what the driver's field loads read
back from a finished inode, catalog entry and superblock.
-/

namespace ModularBootloader.Mkfs
open ByteStore SliceAssign RaisingLoop

theorem bind_ok {ε α β : Type} {x : Except ε α} {f : α → Except ε β} {b : β} :
    (x >>= f) = .ok b ↔ ∃ a, x = .ok a ∧ f a = .ok b := by
  cases x with
  | error e =>
    constructor
    · intro h
      cases h
    · rintro ⟨a, ha, _⟩
      cases ha
  | ok a =>
    constructor
    · intro h
      exact ⟨a, rfl, h⟩
    · rintro ⟨a', ha, h⟩
      cases ha
      exact h

def bytesOf (buf : Bytearray) : Bytes := fun i => buf.getD i 0

structure Patched (buf : Bytearray) (off : Nat) (bytes buf' : Bytearray) : Prop where
  fits : off + bytes.length ≤ buf.length
  length : buf'.length = buf.length
  inside : ∀ i < bytes.length, bytesOf buf' (off + i) = bytesOf bytes i
  outside : ∀ a, a < off ∨ off + bytes.length ≤ a → bytesOf buf' a = bytesOf buf a

section Patches
variable {buf buf' bytes : Bytearray} {off off' : Nat}

theorem patched_slice (h : off + bytes.length ≤ buf.length) :
    Patched buf off bytes (sliceAssign buf off (off + bytes.length) bytes) := by
  have hlength := sliceAssign_length (v := bytes) (Nat.le_add_right off bytes.length) h
  refine ⟨h, by omega, ?_, ?_⟩
  · intro i hi
    exact sliceAssign_getD_inside (by omega) hi
  · intro a ha
    rw [bytesOf, bytesOf, List.getD_eq_getElem?_getD, List.getD_eq_getElem?_getD,
      sliceAssign_outside rfl h ha]

theorem Patched.word (h : Patched buf off bytes buf')
    (hoff : off' + 4 ≤ off ∨ off + bytes.length ≤ off') :
    load32 (bytesOf buf') off' = load32 (bytesOf buf) off' :=
  load32_congr fun k hk => h.outside (off' + k) (by omega)

theorem Patched.half (h : Patched buf off bytes buf')
    (hoff : off' + 2 ≤ off ∨ off + bytes.length ≤ off') :
    load16 (bytesOf buf') off' = load16 (bytesOf buf) off' :=
  load16_congr fun k hk => h.outside (off' + k) (by omega)

@[simp] theorem leBytes_length (n v : Nat) : (leBytes n v).length = n := by
  rw [leBytes, List.length_map, List.length_range]

theorem bytesOf_leBytes {n v i : Nat} (hi : i < n) : bytesOf (leBytes n v) i = byteOf v i := by
  simp [bytesOf, leBytes, hi]

theorem packInto_ok (h : packInto buf off bytes = .ok buf') : Patched buf off bytes buf' := by
  unfold packInto at h
  split_ifs at h with hfits
  cases h
  exact patched_slice hfits

theorem packInto_total (h : off + bytes.length ≤ buf.length) :
    ∃ buf', packInto buf off bytes = .ok buf' := ⟨_, if_pos h⟩

theorem Patched.word_self {v : Nat} (h : Patched buf off (leBytes 4 v) buf') :
    (load32 (bytesOf buf') off).toNat = v % 2 ^ 32 := by
  apply load32_bytes
  intro k hk
  rw [h.inside k (by rw [leBytes_length]; exact hk), bytesOf_leBytes hk]

theorem Patched.half_self {v : Nat} (h : Patched buf off (leBytes 2 v) buf') :
    (load16 (bytesOf buf') off).toNat = v % 2 ^ 16 := by
  apply load16_bytes
  intro k hk
  rw [h.inside k (by rw [leBytes_length]; exact hk), bytesOf_leBytes hk]

theorem setByte_ok {i val : Nat} (h : setByte buf i val = .ok buf') :
    val ≤ 255 ∧ Patched buf i [UInt8.ofNat val] buf' := by
  unfold setByte at h
  split_ifs at h with hval hfits
  cases h
  exact ⟨by omega, patched_slice hfits⟩

theorem setByte_total {i val : Nat} (hval : val ≤ 255) (hi : i < buf.length) :
    ∃ buf', setByte buf i val = .ok buf' := by
  rw [setByte, if_neg (by omega), if_pos hi]
  exact ⟨_, rfl⟩

structure EachPut (buf : Bytearray) (off : Nat) (vs : List Nat) (buf' : Bytearray) : Prop where
  fits : vs = [] ∨ off + 4 * vs.length ≤ buf.length
  length : buf'.length = buf.length
  word : ∀ k (hk : k < vs.length),
    (load32 (bytesOf buf') (off + 4 * k)).toNat = vs[k] % 2 ^ 32
  outside : ∀ a, a < off ∨ off + 4 * vs.length ≤ a → bytesOf buf' a = bytesOf buf a

theorem putEach_ok {vs : List Nat} (h : putEach buf off vs = .ok buf') :
    EachPut buf off vs buf' := by
  induction vs generalizing buf off with
  | nil =>
    cases h
    exact ⟨.inl rfl, rfl, fun k hk => absurd hk (Nat.not_lt_zero k), fun _ _ => rfl⟩
  | cons v vs ih =>
    obtain ⟨mid, hput, hrest⟩ := bind_ok.mp h
    have hfirst := packInto_ok hput
    have hlater := ih hrest
    have hfits := hfirst.fits
    have hvalue : ((v : Int) % 2 ^ 32).toNat % 2 ^ 32 = v % 2 ^ 32 := by omega
    rw [leBytes_length] at hfits
    refine ⟨.inr ?_, hlater.length.trans hfirst.length, ?_, ?_⟩
    · rcases hlater.fits with rfl | hlater
      · simpa using hfits
      · rw [hfirst.length] at hlater
        rw [List.length_cons]
        omega
    · intro k hk
      cases k with
      | zero =>
        have hword := hfirst.word_self
        rw [List.getElem_cons_zero, ← hvalue, ← hword]
        refine congrArg UInt32.toNat (load32_congr ?_)
        intro i hi
        exact hlater.outside _ (by omega)
      | succ k =>
        rw [List.getElem_cons_succ, show off + 4 * (k + 1) = off + 4 + 4 * k by omega]
        exact hlater.word k (Nat.lt_of_succ_lt_succ hk)
    · intro a ha
      rw [List.length_cons] at ha
      rw [hlater.outside a (by omega), hfirst.outside a (by rw [leBytes_length]; omega)]

theorem putEach_total {vs : List Nat} (h : off + 4 * vs.length ≤ buf.length) :
    ∃ buf', putEach buf off vs = .ok buf' := by
  induction vs generalizing buf off with
  | nil => exact ⟨buf, rfl⟩
  | cons v vs ih =>
    rw [List.length_cons] at h
    have hfits : off + (leBytes 4 ((v : Int) % 2 ^ 32).toNat).length ≤ buf.length := by
      rw [leBytes_length]
      omega
    obtain ⟨mid, hmid⟩ := packInto_total hfits
    have hrest : off + 4 + 4 * vs.length ≤ mid.length := by
      rw [(packInto_ok hmid).length]
      omega
    obtain ⟨buf', hbuf'⟩ := ih hrest
    exact ⟨buf', bind_ok.mpr ⟨mid, hmid, hbuf'⟩⟩

end Patches

theorem crcStep_eq (crc : UInt32) : crcStep crc = crcShift crc := by
  have hbit : (crc &&& 1).toNat = crc.toNat % 2 := by
    rw [UInt32.toNat_and]
    exact Nat.and_two_pow_sub_one_eq_mod _ 1
  rw [crcStep, crcShift]
  rcases Nat.mod_two_eq_zero_or_one crc.toNat with h | h
  · have hzero : crc &&& 1 = 0 := UInt32.toNat_inj.mp (hbit.trans h)
    rw [hzero, if_neg (by decide)]
    simp
  · have hone : crc &&& 1 = 1 := UInt32.toNat_inj.mp (hbit.trans h)
    have hmask : crcPoly &&& (0 - 1) = crcPoly := by decide
    rw [hone, if_pos (by decide), hmask]

theorem crc32cStruct_driver {buf : Bytearray} {size ckOff : UInt32}
    (hsize : buf.length = size.toNat) (hck : ckOff.toNat + 4 ≤ size.toNat) :
    crc32cStruct buf ckOff.toNat = ModularBootloader.crc32cStruct (bytesOf buf) size ckOff := by
  have hend : (ckOff + 4).toNat = ckOff.toNat + 4 := by
    have hmax := size.toNat_lt
    have hfour : (4 : UInt32).toNat = 4 := rfl
    rw [UInt32.toNat_add, hfour]
    omega
  have hmasked : sliceAssign buf ckOff.toNat (ckOff.toNat + 4) (List.replicate 4 0) =
      (List.range size.toNat).map (maskedByte (bytesOf buf) ckOff) := by
    have hzeros : (List.replicate 4 (0 : UInt8)).length = 4 := List.length_replicate
    have hlength := sliceAssign_length (v := List.replicate 4 (0 : UInt8))
      (Nat.le_add_right ckOff.toNat 4) (show ckOff.toNat + 4 ≤ buf.length by omega)
    apply List.ext_getElem?
    intro i
    by_cases hi : i < size.toNat
    · rw [List.getElem?_map, List.getElem?_range hi, Option.map_some, maskedByte, hend]
      split_ifs with hin
      · obtain ⟨j, rfl⟩ : ∃ j, i = ckOff.toNat + j := ⟨i - ckOff.toNat, by omega⟩
        rw [sliceAssign_inside (by omega) (by omega), List.getElem?_replicate, if_pos (by omega)]
      · rw [sliceAssign_outside (by omega) (by omega) (by omega), bytesOf,
          List.getD_eq_getElem?_getD, List.getElem?_eq_getElem (by omega), Option.getD_some]
    · rw [List.getElem?_eq_none (by omega), List.getElem?_eq_none (by
        rw [List.length_map, List.length_range]
        omega)]
  have hbyte : ∀ crc b, crcStep^[8] (crc ^^^ b.toUInt32) = crc32cByte crc b := by
    intro crc b
    rw [crc32cByte, funext crcStep_eq]
  have hnot : ∀ x : UInt32, x ^^^ 0xFFFFFFFF = ~~~x := by
    intro x
    rw [show (0xFFFFFFFF : UInt32) = -1 by decide, UInt32.xor_neg_one]
  rw [crc32cStruct, crc32c, hmasked, List.foldl_map, hnot]
  simp only [hbyte]
  rfl

theorem sealed_of_put {buf buf' : Bytearray} (size ckOff : UInt32)
    (hsize : buf.length = size.toNat) (hmax : ckOff.toNat + 4 < 2 ^ 32)
    (h : Patched buf ckOff.toNat
      (leBytes 4 ((crc32cStruct buf ckOff.toNat).toNat % 2 ^ 32 : Int).toNat) buf') :
    ModularBootloader.crc32cStruct (bytesOf buf') size ckOff =
      load32 (bytesOf buf') ckOff.toNat := by
  have hfits := h.fits
  rw [leBytes_length] at hfits
  have hend : (ckOff + 4).toNat = ckOff.toNat + 4 := by
    have hfour : (4 : UInt32).toNat = 4 := rfl
    rw [UInt32.toNat_add, hfour]
    omega
  have hsame : ModularBootloader.crc32cStruct (bytesOf buf') size ckOff =
      ModularBootloader.crc32cStruct (bytesOf buf) size ckOff := by
    apply crc32cStruct_congr
    intro i _ hi
    rw [hend] at hi
    apply h.outside
    rw [leBytes_length]
    omega
  have hcrc := (crc32cStruct buf ckOff.toNat).toNat_lt
  have hword := h.word_self
  rw [hsame, ← crc32cStruct_driver hsize (by omega), ← UInt32.toNat_inj, hword]
  omega

namespace Volume

structure InodeImage (f : InodeFields) (ino : Bytearray) : Prop where
  length : ino.length = 256
  few : f.directBlocks.length ≤ 56
  type : bytesOf ino 4 = UInt8.ofNat f.entryType
  size : (load32 (bytesOf ino) 0x0A).toNat = f.sizeBytes % 2 ^ 32
  count : (load32 (bytesOf ino) 0x0E).toNat = f.blockCount % 2 ^ 32
  direct : ∀ k (hk : k < f.directBlocks.length), k < 10 →
    (load32 (bytesOf ino) (0x1E + 4 * k)).toNat = f.directBlocks[k] % 2 ^ 32
  indirect : (load32 (bytesOf ino) 0x46).toNat = f.indirectBlock % 2 ^ 32
  isSealed : ModularBootloader.crc32cStruct (bytesOf ino) owfsInodeSize owfsStructCk =
    load32 (bytesOf ino) 0xFC

theorem inodeBytes_ok {f : InodeFields} {ino : Bytearray} (h : inodeBytes f = .ok ino)
    (hname : f.name.length ≤ 178) : InodeImage f ino := by
  simp only [inodeBytes, bind_ok] at h
  obtain ⟨b0, h0, b1, h1, b2, h2, b3, h3, b4, h4, b5, h5, b6, h6, b7, h7, b8, h8, b9, h9, h10⟩ := h
  obtain ⟨-, p1⟩ := setByte_ok h1
  obtain ⟨-, p2⟩ := setByte_ok h2
  have p0 := packInto_ok h0
  have p3 := packInto_ok h3
  have p4 := packInto_ok h4
  have p5 := packInto_ok h5
  have p6 := packInto_ok h6
  have p7 := packInto_ok h7
  have p8 := putEach_ok h8
  have p9 := packInto_ok h9
  have l7 : b7.length = 256 := by
    rw [p7.length, p6.length, p5.length, p4.length, p3.length, p2.length, p1.length, p0.length,
      List.length_replicate]
  have l9 : b9.length = 256 := by
    rw [p9.length, p8.length, l7]
  have pn := patched_slice (show 0x4A + f.name.length ≤ b9.length by omega)
  have pc := packInto_ok h10
  have hlow : ∀ a < 0x1E, bytesOf ino a = bytesOf b7 a := by
    intro a ha
    rw [pc.outside a (by omega), pn.outside a (by omega), p9.outside a (by omega),
      p8.outside a (by omega)]
  have hmap : ∀ a, 0x1E ≤ a → a < 0x46 → bytesOf ino a = bytesOf b8 a := by
    intro a hlo hhi
    rw [pc.outside a (by omega), pn.outside a (by omega), p9.outside a (by omega)]
  have hmask : ∀ v : Nat, ((v : Int) % 2 ^ 32).toNat % 2 ^ 32 = v % 2 ^ 32 := by
    intro v
    omega
  refine ⟨?_, ?_, ?_, ?_, ?_, ?_, ?_, ?_⟩
  · rw [pc.length, pn.length, l9]
  · rcases p8.fits with hnone | hfits
    · rw [hnone]
      exact Nat.zero_le _
    · omega
  · rw [hlow 4 (by omega), p7.outside 4 (by omega), p6.outside 4 (by omega),
      p5.outside 4 (by omega), p4.outside 4 (by omega), p3.outside 4 (by omega),
      p2.outside 4 (by omega)]
    exact p1.inside 0 (by simp)
  · rw [load32_congr fun k hk => hlow (0x0A + k) (by omega), p7.word (by simp), p6.word (by simp),
      p5.word_self, hmask]
  · rw [load32_congr fun k hk => hlow (0x0E + k) (by omega), p7.word (by simp), p6.word_self, hmask]
  · intro k hk hten
    rw [load32_congr fun i hi => hmap (0x1E + 4 * k + i) (by omega) (by omega), p8.word k hk]
  · rw [pc.word (by simp), pn.word (by omega), p9.word_self, hmask]
  · exact sealed_of_put owfsInodeSize owfsStructCk (pn.length.trans l9) (by decide) pc

theorem inodeBytes_length {f : InodeFields} {ino : Bytearray} (h : inodeBytes f = .ok ino) :
    ino.length = 256 + (f.name.length - 182) := by
  simp only [inodeBytes, bind_ok] at h
  obtain ⟨b0, h0, b1, h1, b2, h2, b3, h3, b4, h4, b5, h5, b6, h6, b7, h7, b8, h8, b9, h9, h10⟩ := h
  have l9 : b9.length = 256 := by
    rw [(packInto_ok h9).length, (putEach_ok h8).length, (packInto_ok h7).length,
      (packInto_ok h6).length, (packInto_ok h5).length, (packInto_ok h4).length,
      (packInto_ok h3).length, (setByte_ok h2).2.length, (setByte_ok h1).2.length,
      (packInto_ok h0).length, List.length_replicate]
  rw [(packInto_ok h10).length, sliceAssign_length_le (by omega) rfl, l9]
  omega

theorem put_total {n off : Nat} {buf : Bytearray} (v : Nat) (h : off + n ≤ buf.length) :
    ∃ buf', packInto buf off (leBytes n v) = .ok buf' ∧ buf'.length = buf.length := by
  have hfits : off + (leBytes n v).length ≤ buf.length := by rwa [leBytes_length]
  obtain ⟨buf', hput⟩ := packInto_total hfits
  exact ⟨buf', hput, (packInto_ok hput).length⟩

theorem inodeBytes_total {f : InodeFields} (htype : f.entryType ≤ 255) (hlen : f.nameLength ≤ 255)
    (hdirect : f.directBlocks.length ≤ 56) (hname : f.name.length ≤ 182) :
    ∃ ino, inodeBytes f = .ok ino := by
  have hzero : 0 + 4 ≤ (List.replicate 0x100 (0 : UInt8)).length := by
    rw [List.length_replicate]
    omega
  obtain ⟨b0, h0, l0⟩ := put_total ((f.inodeNumber : Int) % 2 ^ 32).toNat hzero
  rw [List.length_replicate] at l0
  obtain ⟨b1, h1⟩ := setByte_total htype (show 4 < b0.length by omega)
  have l1 := (setByte_ok h1).2.length
  obtain ⟨b2, h2⟩ := setByte_total hlen (show 5 < b1.length by omega)
  have l2 := (setByte_ok h2).2.length
  obtain ⟨b3, h3, l3⟩ := put_total ((f.permissions : Int) % 2 ^ 16).toNat
    (show 6 + 2 ≤ b2.length by omega)
  obtain ⟨b4, h4, l4⟩ := put_total ((f.flags : Int) % 2 ^ 16).toNat
    (show 8 + 2 ≤ b3.length by omega)
  obtain ⟨b5, h5, l5⟩ := put_total ((f.sizeBytes : Int) % 2 ^ 32).toNat
    (show 0x0A + 4 ≤ b4.length by omega)
  obtain ⟨b6, h6, l6⟩ := put_total ((f.blockCount : Int) % 2 ^ 32).toNat
    (show 0x0E + 4 ≤ b5.length by omega)
  obtain ⟨b7, h7, l7⟩ := put_total ((f.parentInode : Int) % 2 ^ 32).toNat
    (show 0x1A + 4 ≤ b6.length by omega)
  obtain ⟨b8, h8⟩ := putEach_total
    (show 0x1E + 4 * f.directBlocks.length ≤ b7.length by omega)
  have l8 := (putEach_ok h8).length
  obtain ⟨b9, h9, l9⟩ := put_total ((f.indirectBlock : Int) % 2 ^ 32).toNat
    (show 0x46 + 4 ≤ b8.length by omega)
  have ln := (patched_slice (show 0x4A + f.name.length ≤ b9.length by omega)).length
  obtain ⟨ino, h10, -⟩ := put_total (((crc32cStruct
    (sliceAssign b9 0x4A (0x4A + f.name.length) f.name) 0xFC).toNat : Int) % 2 ^ 32).toNat
    (show 0xFC + 4 ≤ (sliceAssign b9 0x4A (0x4A + f.name.length) f.name).length by omega)
  refine ⟨ino, ?_⟩
  simp only [inodeBytes, bind_ok]
  exact ⟨b0, h0, b1, h1, b2, h2, b3, h3, b4, h4, b5, h5, b6, h6, b7, h7, b8, h8, b9, h9, h10⟩

structure EntryImage (target type : Nat) (name ent : Bytearray) : Prop where
  length : ent.length = 256
  inode : (load32 (bytesOf ent) 0x00).toNat = target % 2 ^ 32
  type : bytesOf ent 4 = UInt8.ofNat type
  nameLength : bytesOf ent 5 = UInt8.ofNat name.length
  name : ∀ i < name.length, bytesOf ent (0x06 + i) = bytesOf name i
  isSealed : ModularBootloader.crc32cStruct (bytesOf ent) owfsInodeSize owfsStructCk =
    load32 (bytesOf ent) 0xFC

theorem entryBytes_ok {target type : Nat} {name ent : Bytearray}
    (h : entryBytes target type name = .ok ent) (hname : name.length ≤ 246) :
    EntryImage target type name ent := by
  simp only [entryBytes, bind_ok] at h
  obtain ⟨b0, h0, b1, h1, b2, h2, h3⟩ := h
  have p0 := packInto_ok h0
  obtain ⟨-, p1⟩ := setByte_ok h1
  obtain ⟨-, p2⟩ := setByte_ok h2
  have l2 : b2.length = 256 := by
    rw [p2.length, p1.length, p0.length, List.length_replicate]
  have pn := patched_slice (show 0x06 + name.length ≤ b2.length by omega)
  have pc := packInto_ok h3
  have hlow : ∀ a < 0x06, bytesOf ent a = bytesOf b2 a := by
    intro a ha
    rw [pc.outside a (by omega), pn.outside a (by omega)]
  refine ⟨?_, ?_, ?_, ?_, ?_, ?_⟩
  · rw [pc.length, pn.length, l2]
  · rw [load32_congr fun k hk => hlow (0 + k) (by omega), p2.word (by simp), p1.word (by simp),
      p0.word_self]
    omega
  · rw [hlow 4 (by omega), p2.outside 4 (by omega)]
    exact p1.inside 0 (by simp)
  · rw [hlow 5 (by omega)]
    exact p2.inside 0 (by simp)
  · intro i hi
    rw [pc.outside _ (by omega), pn.inside i hi]
  · exact sealed_of_put owfsInodeSize owfsStructCk (pn.length.trans l2) (by decide) pc

theorem entryBytes_length {target type : Nat} {name ent : Bytearray}
    (h : entryBytes target type name = .ok ent) :
    ent.length = 256 + (name.length - 250) := by
  simp only [entryBytes, bind_ok] at h
  obtain ⟨b0, h0, b1, h1, b2, h2, h3⟩ := h
  have l2 : b2.length = 256 := by
    rw [(setByte_ok h2).2.length, (setByte_ok h1).2.length, (packInto_ok h0).length,
      List.length_replicate]
  rw [(packInto_ok h3).length, sliceAssign_length_le (by omega) rfl, l2]
  omega

theorem entryBytes_total (target type : Nat) (name : Bytearray) (htype : type ≤ 255)
    (hname : name.length ≤ 250) : ∃ ent, entryBytes target type name = .ok ent := by
  have hzero : 0 + 4 ≤ (List.replicate 0x100 (0 : UInt8)).length := by
    rw [List.length_replicate]
    omega
  obtain ⟨b0, h0, l0⟩ := put_total ((target : Int) % 2 ^ 32).toNat hzero
  rw [List.length_replicate] at l0
  obtain ⟨b1, h1⟩ := setByte_total htype (show 4 < b0.length by omega)
  have l1 := (setByte_ok h1).2.length
  obtain ⟨b2, h2⟩ := setByte_total (show name.length ≤ 255 by omega) (show 5 < b1.length by omega)
  have l2 := (setByte_ok h2).2.length
  have ln := (patched_slice (show 0x06 + name.length ≤ b2.length by omega)).length
  obtain ⟨ent, h3, -⟩ := put_total (((crc32cStruct
    (sliceAssign b2 0x06 (0x06 + name.length) name) 0xFC).toNat : Int) % 2 ^ 32).toNat
    (show 0xFC + 4 ≤ (sliceAssign b2 0x06 (0x06 + name.length) name).length by omega)
  refine ⟨ent, ?_⟩
  simp only [entryBytes, bind_ok]
  exact ⟨b0, h0, b1, h1, b2, h2, h3⟩

structure SuperblockImage (vol : Volume) (sb : Bytearray) : Prop where
  length : sb.length = 4096
  magic : Superblock.magic (bytesOf sb) = owfsMagic
  version : Superblock.versionMajor (bytesOf sb) = owfsVersionMajor
  blockSize : Superblock.blockSize (bytesOf sb) = owfsBlockSize
  totalBlocks : (Superblock.totalBlocks (bytesOf sb)).toNat = vol.totalBlocks % 2 ^ 32
  totalInodes : Superblock.totalInodes (bytesOf sb) = 0x1000
  inodeTableStart : (Superblock.inodeTableStart (bytesOf sb)).toNat =
    vol.inodeTableStart % 2 ^ 32
  inodeTableBlocks : (Superblock.inodeTableBlocks (bytesOf sb)).toNat = inodeTableBlocks
  dataRegionStart : (Superblock.dataRegionStart (bytesOf sb)).toNat =
    vol.dataRegionStart % 2 ^ 32
  securityFlags : Superblock.securityFlags (bytesOf sb) = 0
  isSealed : ModularBootloader.crc32cStruct (bytesOf sb) owfsBlockSize owfsSuperblockCk =
    Superblock.checksum (bytesOf sb)

theorem superblockBytes_ok {vol : Volume} {s : VolumeState} {sb : Bytearray}
    (h : vol.superblockBytes s = .ok sb) : SuperblockImage vol sb := by
  simp only [superblockBytes, bind_ok] at h
  obtain ⟨b0, h0, b1, h1, b2, h2, b3, h3, b4, h4, b5, h5, b6, h6, b7, h7, b8, h8, b9, h9, b10, h10,
    b11, h11, b12, h12, b13, h13, b14, h14, b15, h15, b16, h16, b17, h17, h18⟩ := h
  have p0 := packInto_ok h0
  have p1 := packInto_ok h1
  have p2 := packInto_ok h2
  have p3 := packInto_ok h3
  have p4 := packInto_ok h4
  have p5 := packInto_ok h5
  have p6 := packInto_ok h6
  have p7 := packInto_ok h7
  have p8 := packInto_ok h8
  have p9 := packInto_ok h9
  have p10 := packInto_ok h10
  have p11 := packInto_ok h11
  have p12 := packInto_ok h12
  have p13 := packInto_ok h13
  have p14 := packInto_ok h14
  have p15 := packInto_ok h15
  have hlabel : (vol.label.toUTF8.toList.take 64).length ≤ 64 := List.length_take_le _ _
  have l15 : b15.length = 4096 := by
    rw [p15.length, p14.length, p13.length, p12.length, p11.length, p10.length, p9.length,
      p8.length, p7.length, p6.length, p5.length, p4.length, p3.length, p2.length, p1.length,
      p0.length, List.length_replicate]
    rfl
  have pn := patched_slice (show 0x44 + (vol.label.toUTF8.toList.take 64).length ≤ b15.length by
    omega)
  have p16 := packInto_ok h16
  have p17 := packInto_ok h17
  have pc := packInto_ok h18
  have hlow : ∀ a < 0x3C, bytesOf sb a = bytesOf b15 a := by
    intro a ha
    rw [pc.outside a (by omega), p17.outside a (by omega), p16.outside a (by omega),
      pn.outside a (by omega)]
  refine ⟨?_, ?_, ?_, ?_, ?_, ?_, ?_, ?_, ?_, ?_, ?_⟩
  · rw [pc.length, p17.length, p16.length, pn.length, l15]
  · rw [Superblock.magic, load32_congr fun k hk => hlow (0x000 + k) (by omega), p15.word (by simp),
      p14.word (by simp), p13.word (by simp), p12.word (by simp), p11.word (by simp),
      p10.word (by simp), p9.word (by simp), p8.word (by simp), p7.word (by simp),
      p6.word (by simp), p5.word (by simp), p4.word (by simp), p3.word (by simp),
      p2.word (by simp), p1.word (by simp), ← UInt32.toNat_inj, p0.word_self]
    rfl
  · rw [Superblock.versionMajor, load16_congr fun k hk => hlow (0x004 + k) (by omega),
      p15.half (by simp), p14.half (by simp), p13.half (by simp), p12.half (by simp),
      p11.half (by simp), p10.half (by simp), p9.half (by simp), p8.half (by simp),
      p7.half (by simp), p6.half (by simp), p5.half (by simp), p4.half (by simp),
      p3.half (by simp), p2.half (by simp), ← UInt16.toNat_inj, p1.half_self]
    rfl
  · rw [Superblock.blockSize, load32_congr fun k hk => hlow (0x008 + k) (by omega),
      p15.word (by simp), p14.word (by simp), p13.word (by simp), p12.word (by simp),
      p11.word (by simp), p10.word (by simp), p9.word (by simp), p8.word (by simp),
      p7.word (by simp), p6.word (by simp), p5.word (by simp), p4.word (by simp),
      ← UInt32.toNat_inj, p3.word_self]
    rfl
  · rw [Superblock.totalBlocks, load32_congr fun k hk => hlow (0x00C + k) (by omega),
      p15.word (by simp), p14.word (by simp), p13.word (by simp), p12.word (by simp),
      p11.word (by simp), p10.word (by simp), p9.word (by simp), p8.word (by simp),
      p7.word (by simp), p6.word (by simp), p5.word (by simp), p4.word_self]
    omega
  · rw [Superblock.totalInodes, load32_congr fun k hk => hlow (0x014 + k) (by omega),
      p15.word (by simp), p14.word (by simp), p13.word (by simp), p12.word (by simp),
      p11.word (by simp), p10.word (by simp), p9.word (by simp), p8.word (by simp),
      p7.word (by simp), ← UInt32.toNat_inj, p6.word_self]
    rfl
  · rw [Superblock.inodeTableStart, load32_congr fun k hk => hlow (0x024 + k) (by omega),
      p15.word (by simp), p14.word (by simp), p13.word (by simp), p12.word (by simp),
      p11.word (by simp), p10.word_self]
    omega
  · rw [Superblock.inodeTableBlocks, load32_congr fun k hk => hlow (0x028 + k) (by omega),
      p15.word (by simp), p14.word (by simp), p13.word (by simp), p12.word (by simp),
      p11.word_self]
    rfl
  · rw [Superblock.dataRegionStart, load32_congr fun k hk => hlow (0x02C + k) (by omega),
      p15.word (by simp), p14.word (by simp), p13.word (by simp), p12.word_self]
    omega
  · rw [Superblock.securityFlags, pc.word (by simp), p17.word (by simp), ← UInt32.toNat_inj,
      p16.word_self]
    rfl
  · rw [Superblock.checksum]
    apply sealed_of_put owfsBlockSize owfsSuperblockCk _ (by decide) pc
    rw [p17.length, p16.length, pn.length, l15]
    rfl

theorem superblockBytes_total (vol : Volume) (s : VolumeState) :
    ∃ sb, vol.superblockBytes s = .ok sb := by
  have lz : (List.replicate block (0 : UInt8)).length = 4096 := List.length_replicate
  obtain ⟨b0, h0, l0⟩ := put_total ((magic : Int) % 2 ^ 32).toNat
    (show 0x00 + 4 ≤ (List.replicate block (0 : UInt8)).length by omega)
  obtain ⟨b1, h1, l1⟩ := put_total ((1 : Int) % 2 ^ 16).toNat
    (show 0x04 + 2 ≤ b0.length by omega)
  obtain ⟨b2, h2, l2⟩ := put_total ((2 : Int) % 2 ^ 16).toNat
    (show 0x06 + 2 ≤ b1.length by omega)
  obtain ⟨b3, h3, l3⟩ := put_total ((block : Int) % 2 ^ 32).toNat
    (show 0x08 + 4 ≤ b2.length by omega)
  obtain ⟨b4, h4, l4⟩ := put_total ((vol.totalBlocks : Int) % 2 ^ 32).toNat
    (show 0x0C + 4 ≤ b3.length by omega)
  obtain ⟨b5, h5, l5⟩ := put_total (s.freeBlocks % 2 ^ 32).toNat
    (show 0x10 + 4 ≤ b4.length by omega)
  obtain ⟨b6, h6, l6⟩ := put_total ((totalInodes : Int) % 2 ^ 32).toNat
    (show 0x14 + 4 ≤ b5.length by omega)
  obtain ⟨b7, h7, l7⟩ := put_total (s.freeInodes % 2 ^ 32).toNat
    (show 0x18 + 4 ≤ b6.length by omega)
  obtain ⟨b8, h8, l8⟩ := put_total ((bitmapStartBlock : Int) % 2 ^ 32).toNat
    (show 0x1C + 4 ≤ b7.length by omega)
  obtain ⟨b9, h9, l9⟩ := put_total ((vol.bitmapBlocks : Int) % 2 ^ 32).toNat
    (show 0x20 + 4 ≤ b8.length by omega)
  obtain ⟨b10, h10, l10⟩ := put_total ((vol.inodeTableStart : Int) % 2 ^ 32).toNat
    (show 0x24 + 4 ≤ b9.length by omega)
  obtain ⟨b11, h11, l11⟩ := put_total ((inodeTableBlocks : Int) % 2 ^ 32).toNat
    (show 0x28 + 4 ≤ b10.length by omega)
  obtain ⟨b12, h12, l12⟩ := put_total ((vol.dataRegionStart : Int) % 2 ^ 32).toNat
    (show 0x2C + 4 ≤ b11.length by omega)
  obtain ⟨b13, h13, l13⟩ := put_total ((rootInode : Int) % 2 ^ 32).toNat
    (show 0x30 + 4 ≤ b12.length by omega)
  obtain ⟨b14, h14, l14⟩ := put_total ((0 : Int) % 2 ^ 32).toNat
    (show 0x34 + 4 ≤ b13.length by omega)
  obtain ⟨b15, h15, l15⟩ := put_total ((0 : Int) % 2 ^ 32).toNat
    (show 0x38 + 4 ≤ b14.length by omega)
  have hlabel : (vol.label.toUTF8.toList.take 64).length ≤ 64 := List.length_take_le _ _
  have ln := (patched_slice (show 0x44 + (vol.label.toUTF8.toList.take 64).length ≤ b15.length by
    omega)).length
  obtain ⟨b16, h16, l16⟩ := put_total ((0 : Int) % 2 ^ 32).toNat
    (show 0x88 + 4 ≤ (sliceAssign b15 0x44 (0x44 + (vol.label.toUTF8.toList.take 64).length)
      (vol.label.toUTF8.toList.take 64)).length by omega)
  obtain ⟨b17, h17, l17⟩ := put_total
    ((fletcher64 (vol.bitmapImage s.image) : Int) % 2 ^ 64).toNat
    (show 0x3C + 8 ≤ b16.length by omega)
  obtain ⟨sb, h18, -⟩ := put_total (((crc32cStruct b17 0x84).toNat : Int) % 2 ^ 32).toNat
    (show 0x84 + 4 ≤ b17.length by omega)
  refine ⟨sb, ?_⟩
  simp only [superblockBytes, bind_ok]
  exact ⟨b0, h0, b1, h1, b2, h2, b3, h3, b4, h4, b5, h5, b6, h6, b7, h7, b8, h8, b9, h9, b10, h10,
    b11, h11, b12, h12, b13, h13, b14, h14, b15, h15, b16, h16, b17, h17, h18⟩

theorem SuperblockImage.accepted {vol : Volume} {sb : Bytearray} (h : SuperblockImage vol sb) :
    SuperblockAccepted (bytesOf sb) := by
  refine ⟨h.magic, h.blockSize, h.isSealed, ?_, ?_⟩
  · rw [h.version]
    exact UInt16.le_refl _
  · rw [h.securityFlags]
    decide

end Volume

end ModularBootloader.Mkfs
