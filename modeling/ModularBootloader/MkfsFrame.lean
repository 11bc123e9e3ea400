import ModularBootloader.MkfsStructs

/-!
# Where the formatter writes

Every slice it assigns lies between the superblock and the end of the volume.
The value of a slice is shorter by what a last block falls short of, and longer
by what a name runs over its field; unless it is as long as its slice, the image
behind the volume moves.
-/

namespace ModularBootloader.Mkfs
open SliceAssign RaisingLoop

namespace Volume

theorem block_eq : block = 4096 := rfl
theorem totalInodes_eq : totalInodes = 4096 := rfl

theorem inodeTableStart_eq (vol : Volume) : vol.inodeTableStart = 17 + vol.bitmapBlocks := rfl

theorem dataRegionStart_eq (vol : Volume) : vol.dataRegionStart = 273 + vol.bitmapBlocks := by
  have hdef : vol.dataRegionStart = 16 + 1 + vol.bitmapBlocks + 256 := rfl
  omega

theorem blockOff_eq (vol : Volume) (b : Nat) : vol.blockOff b = vol.blockStart + 4096 * b := by
  rw [blockOff, block_eq, Nat.mul_comm]

theorem inodeOff_eq (vol : Volume) (num : Nat) :
    vol.inodeOff num = vol.blockStart + 4096 * vol.inodeTableStart + 256 * num := by
  have hlow : num &&& 0x0F = num % 16 := Nat.and_two_pow_sub_one_eq_mod num 4
  have hhigh : num >>> 4 = num / 16 := Nat.shiftRight_eq_div_pow num 4
  rw [inodeOff, blockOff_eq, hlow, hhigh]
  omega

theorem geometry (vol : Volume) (h : 275 ≤ vol.totalBlocks) :
    vol.dataRegionStart + vol.dataBlocks = vol.totalBlocks ∧ 0 < vol.dataBlocks ∧
      vol.dataBlocks ≤ 32768 * vol.bitmapBlocks := by
  have hbitmap : vol.bitmapBlocks = (vol.totalBlocks - 273 + 32768) / 32769 := rfl
  have hdata : vol.dataBlocks = vol.totalBlocks - vol.dataRegionStart := rfl
  rw [dataRegionStart_eq] at hdata ⊢
  omega

/-- The image lost `pad` bytes and gained `grow`, kept everything before the
superblock, and, if it lost and gained none, everything from the end of the
volume on. -/
structure Contained (vol : Volume) (pad grow : Nat) (image image' : Bytearray) : Prop where
  length : image'.length + pad = image.length + grow
  before : ∀ a < vol.blockOff superBlock, image'[a]? = image[a]?
  after : pad = 0 → grow = 0 → ∀ a, vol.blockOff vol.totalBlocks ≤ a → image'[a]? = image[a]?

section Frames
variable {vol : Volume} {pad pad' grow grow' : Nat} {image image' image'' : Bytearray}

theorem Contained.refl (vol : Volume) (image : Bytearray) : Contained vol 0 0 image image :=
  ⟨rfl, fun _ _ => rfl, fun _ _ _ _ => rfl⟩

theorem Contained.trans (h : Contained vol pad grow image image')
    (h' : Contained vol pad' grow' image' image'') :
    Contained vol (pad + pad') (grow + grow') image image'' := by
  have hlength := h.length
  have hlength' := h'.length
  refine ⟨by omega, ?_, ?_⟩
  · intro a ha
    rw [h'.before a ha, h.before a ha]
  · intro hpad hgrow a ha
    rw [h'.after (by omega) (by omega) a ha, h.after (by omega) (by omega) a ha]

theorem contained_slice {lo hi : Nat} {v : Bytearray} (hlo : vol.blockOff superBlock ≤ lo)
    (hle : lo ≤ hi) (hhi : hi ≤ vol.blockOff vol.totalBlocks)
    (hv : lo + v.length + pad = hi + grow) (himage : hi ≤ image.length) :
    Contained vol pad grow image (sliceAssign image lo hi v) := by
  have hlength := sliceAssign_length (v := v) hle himage
  refine ⟨by omega, ?_, ?_⟩
  · intro a ha
    exact sliceAssign_before (by omega) (by omega)
  · intro hpad hgrow a ha
    exact sliceAssign_outside (by omega) himage (.inr (by omega))

variable {s s' : VolumeState}

theorem allocBlock_contained {b : Nat} (htotal : 275 ≤ vol.totalBlocks)
    (h : vol.allocBlock s = .ok (b, s')) :
    vol.dataRegionStart ≤ b ∧ b < vol.totalBlocks ∧ s'.rootBlocks = s.rootBlocks ∧
      Contained vol 0 0 s.image s'.image := by
  obtain ⟨hdata, -, -⟩ := vol.geometry htotal
  have hstart := vol.dataRegionStart_eq
  have hbitmap : bitmapStartBlock = 17 := rfl
  obtain ⟨found, hfound, hsome⟩ := bind_ok.mp h
  cases found with
  | none => cases hsome
  | some r =>
    cases hsome
    obtain ⟨i, hi, hrow⟩ := firstSome_sound hfound
    obtain ⟨j, hj, hbit⟩ := firstSome_sound hrow
    rw [List.mem_range] at hi hj
    rw [block_eq] at hj
    obtain ⟨val, hval, hrest⟩ := bind_ok.mp hbit
    split_ifs at hrest with hfull
    · cases hrest
    · split at hrest
      · cases hrest
      · next bit hfree =>
        dsimp only at hrest
        split_ifs at hrest with hrel
        obtain ⟨image, hset, hres⟩ := bind_ok.mp hrest
        cases hres
        refine ⟨by omega, by omega, rfl, ?_⟩
        unfold setByte at hset
        split_ifs at hset with hbig hin
        cases hset
        simp only [blockOff_eq, hbitmap] at hin ⊢
        apply contained_slice
        · rw [blockOff_eq, show superBlock = 16 from rfl]
          omega
        · omega
        · rw [blockOff_eq]
          omega
        · rfl
        · omega

theorem writeInode_contained {num : Nat} {f : InodeFields} (htotal : 275 ≤ vol.totalBlocks)
    (hcover : vol.blockOff vol.totalBlocks ≤ s.image.length) (hnum : num < 4096)
    (h : vol.writeInode num f s = .ok s') : s'.rootBlocks = s.rootBlocks ∧
      Contained vol 0 (f.name.length - 182) s.image s'.image := by
  obtain ⟨hdata, -, -⟩ := vol.geometry htotal
  have hstart := vol.dataRegionStart_eq
  have htable := vol.inodeTableStart_eq
  obtain ⟨ino, hino, hres⟩ := bind_ok.mp h
  cases hres
  have hlen := inodeBytes_length hino
  refine ⟨rfl, ?_⟩
  rw [blockOff_eq] at hcover
  dsimp only
  rw [inodeOff_eq]
  apply contained_slice
  · rw [blockOff_eq, show superBlock = 16 from rfl]
    omega
  · omega
  · rw [blockOff_eq]
    omega
  · omega
  · omega

theorem writeCatalogEntry_contained {bnum e target type : Nat} {name : Bytearray}
    (hcover : vol.blockOff vol.totalBlocks ≤ s.image.length) (hlo : vol.dataRegionStart ≤ bnum)
    (hhi : bnum < vol.totalBlocks) (he : e < 16)
    (h : writeCatalogEntry (vol.blockOff bnum) e target type name s = .ok s') :
    s'.rootBlocks = s.rootBlocks ∧ Contained vol 0 (name.length - 250) s.image s'.image := by
  have hstart := vol.dataRegionStart_eq
  obtain ⟨ent, hent, hres⟩ := bind_ok.mp h
  cases hres
  have hlen := entryBytes_length hent
  refine ⟨rfl, ?_⟩
  rw [blockOff_eq] at hcover
  dsimp only
  rw [blockOff_eq]
  apply contained_slice
  · rw [blockOff_eq, show superBlock = 16 from rfl]
    omega
  · omega
  · rw [blockOff_eq]
    omega
  · omega
  · omega

theorem rootFields_name (blocks : List Nat) : (rootFields blocks).name.length - 182 = 0 :=
  Nat.sub_eq_zero_of_le (show 1 ≤ 182 by omega)

def RootsInside (vol : Volume) (s : VolumeState) : Prop :=
  ∀ b ∈ s.rootBlocks, vol.dataRegionStart ≤ b ∧ b < vol.totalBlocks

theorem catalogInsert_contained {target type : Nat} {name : Bytearray}
    (htotal : 275 ≤ vol.totalBlocks)
    (hcover : vol.blockOff vol.totalBlocks ≤ s.image.length) (hroots : RootsInside vol s)
    (h : vol.catalogInsert name target type s = .ok s') :
    RootsInside vol s' ∧ Contained vol 0 (name.length - 250) s.image s'.image := by
  obtain ⟨found, hfound, hrest⟩ := bind_ok.mp h
  cases found with
  | some t =>
    cases hrest
    obtain ⟨bnum, hbnum, hrow⟩ := firstSome_sound hfound
    obtain ⟨e, he, hslot⟩ := firstSome_sound hrow
    rw [List.mem_range, show entriesPerBlock = 16 from rfl] at he
    obtain ⟨t', ht', hentry⟩ := bind_ok.mp hslot
    split_ifs at hentry with hfree
    · obtain ⟨u, hwrite, hres⟩ := bind_ok.mp hentry
      cases hres
      obtain ⟨hsame, hcont⟩ := writeCatalogEntry_contained hcover (hroots bnum hbnum).1
        (hroots bnum hbnum).2 he hwrite
      refine ⟨?_, hcont⟩
      intro b hb
      rw [hsame] at hb
      exact hroots b hb
    · cases hentry
  | none =>
    obtain ⟨⟨bnum, t⟩, halloc, hrest⟩ := bind_ok.mp hrest
    obtain ⟨u, hwrite, hroot⟩ := bind_ok.mp hrest
    obtain ⟨hlo, hhi, hsame, hcont⟩ := allocBlock_contained htotal halloc
    have hlen := hcont.length
    obtain ⟨hkept, hcont'⟩ := writeCatalogEntry_contained
      (s := { t with rootBlocks := t.rootBlocks ++ [bnum] })
      (show vol.blockOff vol.totalBlocks ≤ t.image.length by omega) hlo hhi
      (show 0 < 16 by omega) hwrite
    have hlen' : u.image.length + 0 = t.image.length + (name.length - 250) := hcont'.length
    obtain ⟨hfinal, hcont''⟩ := writeInode_contained htotal
      (s := { u with rootBlockCount := u.rootBlocks.length })
      (show vol.blockOff vol.totalBlocks ≤ u.image.length by omega)
      (show 0 < 4096 by omega) hroot
    rw [rootFields_name] at hcont''
    have hgrown : s'.rootBlocks = s.rootBlocks ++ [bnum] := by
      rw [← hsame]
      exact hfinal.trans hkept
    have hall := (hcont.trans hcont').trans hcont''
    simp only [Nat.zero_add, Nat.add_zero] at hall
    refine ⟨?_, hall⟩
    intro b hb
    rw [hgrown] at hb
    rcases List.mem_append.mp hb with hb | hb
    · exact hroots b hb
    · obtain rfl := List.mem_singleton.mp hb
      exact ⟨hlo, hhi⟩

theorem allocInode_ok {num : Nat} (h : vol.allocInode s = .ok (num, s')) :
    num < 4096 ∧ s' = { s with freeInodes := s.freeInodes - 1 } := by
  obtain ⟨found, hfound, hrest⟩ := bind_ok.mp h
  cases found with
  | none => cases hrest
  | some n =>
    cases hrest
    obtain ⟨m, hm, hslot⟩ := firstSome_sound hfound
    rw [List.mem_range, totalInodes_eq] at hm
    obtain ⟨t, -, hres⟩ := bind_ok.mp hslot
    split_ifs at hres with hfree
    · cases hres
      exact ⟨hm, rfl⟩
    · cases hres

/-- Bytes the last block of a file falls short of. -/
def padOf (data : Bytearray) : Nat := 4096 * blocksOf data - data.length

theorem blocksOf_eq (data : Bytearray) : blocksOf data = (data.length + 4095) / 4096 := by
  rw [blocksOf, block_eq]
  omega

theorem chunk_length (data : Bytearray) (i : Nat) :
    (chunk data i).length = min 4096 (data.length - 4096 * i) := by
  rw [chunk, List.length_take, List.length_drop, block_eq, Nat.mul_comm]

structure BlocksContained (vol : Volume) (data : Bytearray) (s : VolumeState) (i : Nat)
    (st : AddState) : Prop where
  roots : st.state.rootBlocks = s.rootBlocks
  contained : Contained vol (4096 * i - data.length) 0 s.image st.state.image
  indirect : st.indirect ≠ 0 →
    vol.dataRegionStart ≤ st.indirect ∧ st.indirect < vol.totalBlocks

theorem addBlock_contained {data : Bytearray} {i : Nat} {st st' : AddState}
    (htotal : 275 ≤ vol.totalBlocks)
    (hcover : vol.blockOff vol.totalBlocks ≤ s.image.length) (hi : 4096 * i < data.length)
    (hinv : BlocksContained vol data s i st) (h : vol.addBlock data i st = .ok st') :
    BlocksContained vol data s (i + 1) st' := by
  have hstart := vol.dataRegionStart_eq
  obtain ⟨hroots, hcont, hindirect⟩ := hinv
  rw [show 4096 * i - data.length = 0 by omega] at hcont
  obtain ⟨⟨indirect, t⟩, hfirst, hrest⟩ := bind_ok.mp h
  obtain ⟨⟨b, u⟩, halloc, hres⟩ := bind_ok.mp hrest
  cases hres
  -- The block for the indirect words, if this round has to allocate it.
  have hfirst' : (indirect ≠ 0 → vol.dataRegionStart ≤ indirect ∧
      indirect < vol.totalBlocks) ∧ t.rootBlocks = s.rootBlocks ∧
      Contained vol 0 0 s.image t.image := by
    unfold indirectFor at hfirst
    split_ifs at hfirst with hneeded
    · obtain ⟨hlo, hhi, hsame, hcont'⟩ := allocBlock_contained htotal hfirst
      exact ⟨fun _ => ⟨hlo, hhi⟩, hsame.trans hroots, hcont.trans hcont'⟩
    · cases hfirst
      exact ⟨hindirect, hroots, hcont⟩
  obtain ⟨hrange, hroots', hcont'⟩ := hfirst'
  obtain ⟨hlo, hhi, hsame, hcont''⟩ := allocBlock_contained htotal halloc
  have hlength : u.image.length + 0 = s.image.length := (hcont'.trans hcont'').length
  refine ⟨hsame.trans hroots', ?_, hrange⟩
  have hwrite : Contained vol (4096 * (i + 1) - data.length) 0 u.image
      (sliceAssign u.image (vol.blockOff b) (vol.blockOff b + block) (chunk data i)) := by
    rw [blockOff_eq] at hcover
    rw [blockOff_eq, block_eq]
    apply contained_slice
    · rw [blockOff_eq, show superBlock = 16 from rfl]
      omega
    · omega
    · rw [blockOff_eq]
      omega
    · rw [chunk_length]
      omega
    · omega
  have hall := (hcont'.trans hcont'').trans hwrite
  simpa only [Nat.zero_add] using hall

theorem writeIndirect_contained {st : AddState} {direct : List Nat}
    (hcover : vol.blockOff vol.totalBlocks ≤ st.state.image.length)
    (hindirect : st.indirect ≠ 0 →
      vol.dataRegionStart ≤ st.indirect ∧ st.indirect < vol.totalBlocks)
    (h : vol.writeIndirect st = .ok (direct, s')) :
    s'.rootBlocks = st.state.rootBlocks ∧ Contained vol 0 0 st.state.image s'.image := by
  have hstart := vol.dataRegionStart_eq
  unfold writeIndirect at h
  split_ifs at h with hused
  · obtain ⟨ibuf, hput, hres⟩ := bind_ok.mp h
    cases hres
    have hlength : ibuf.length = 4096 := by
      rw [(putEach_ok hput).length, List.length_replicate, block_eq]
    obtain ⟨hlo, hhi⟩ := hindirect hused
    refine ⟨rfl, ?_⟩
    rw [blockOff_eq] at hcover
    dsimp only
    rw [blockOff_eq, block_eq]
    apply contained_slice
    · rw [blockOff_eq, show superBlock = 16 from rfl]
      omega
    · omega
    · rw [blockOff_eq]
      omega
    · omega
    · omega
  · cases h
    exact ⟨rfl, Contained.refl vol st.state.image⟩

/-- Bytes a name runs over its fields in the inode and in the catalog entry. -/
def growOf (name : Bytearray) : Nat := name.length - 182 + (name.length - 250)

theorem addFile_contained {name data : Bytearray} {num : Nat} (htotal : 275 ≤ vol.totalBlocks)
    (hcover : vol.blockOff vol.totalBlocks + padOf data ≤ s.image.length)
    (hroots : RootsInside vol s) (h : vol.addFile name data s = .ok (num, s')) :
    RootsInside vol s' ∧ Contained vol (padOf data) (growOf name) s.image s'.image := by
  obtain ⟨⟨n, t⟩, hinode, hrest⟩ := bind_ok.mp h
  obtain ⟨st, hloop, hrest⟩ := bind_ok.mp hrest
  obtain ⟨⟨direct, u⟩, hindirect, hrest⟩ := bind_ok.mp hrest
  obtain ⟨v, hwrite, hrest⟩ := bind_ok.mp hrest
  obtain ⟨w, hinsert, hres⟩ := bind_ok.mp hrest
  cases hres
  obtain ⟨hn, hinode'⟩ := allocInode_ok hinode
  have himage : t.image = s.image := by
    rw [hinode']
  have hsame : t.rootBlocks = s.rootBlocks := by
    rw [hinode']
  have hblocks := blocksOf_eq data
  have hloopInv : BlocksContained vol data t (blocksOf data) st := by
    refine pass_sound (I := BlocksContained vol data t) ?_ ?_ hloop
    · exact ⟨rfl, by simpa using Contained.refl vol t.image, fun hne => absurd rfl hne⟩
    · intro i hi a b _ hinv hstep
      apply addBlock_contained htotal _ _ hinv hstep
      · rw [himage]
        omega
      · omega
  obtain ⟨hroots', hcont, hrange⟩ := hloopInv
  have hpad : 4096 * blocksOf data - data.length = padOf data := rfl
  rw [himage, hpad] at hcont
  have hlength := hcont.length
  obtain ⟨hsame', hcont'⟩ := writeIndirect_contained (by omega) hrange hindirect
  have hlength' : u.image.length + 0 = st.state.image.length := hcont'.length
  obtain ⟨hsame'', hcont''⟩ := writeInode_contained htotal (by omega) hn hwrite
  have hlength'' : v.image.length + 0 = u.image.length + (name.length - 182) := hcont''.length
  have hinside : RootsInside vol v := by
    intro b hb
    rw [hsame'', hsame', hroots', hsame] at hb
    exact hroots b hb
  obtain ⟨hfinal, hinserted⟩ := catalogInsert_contained htotal (by omega) hinside hinsert
  have hall := ((hcont.trans hcont').trans hcont'').trans hinserted
  rw [Nat.zero_add] at hall
  exact ⟨hfinal, hall⟩

def padSum (files : FileList) : Nat := (files.map fun f => padOf f.2).sum

def growSum (files : FileList) : Nat := (files.map fun f => growOf f.1).sum

theorem addFiles_contained {files : FileList} (htotal : 275 ≤ vol.totalBlocks)
    (hcover : vol.blockOff vol.totalBlocks + padSum files ≤ s.image.length)
    (hroots : RootsInside vol s) (h : addFiles vol files s = .ok s') :
    Contained vol (padSum files) (growSum files) s.image s'.image := by
  induction files generalizing s with
  | nil =>
    obtain rfl := Except.ok.inj h
    exact Contained.refl vol _
  | cons f rest ih =>
    obtain ⟨⟨num, t⟩, hfile, hrest⟩ := bind_ok.mp h
    have hsum : padSum (f :: rest) = padOf f.2 + padSum rest := List.sum_cons
    have hgrow : growSum (f :: rest) = growOf f.1 + growSum rest := List.sum_cons
    obtain ⟨hinside, hcont⟩ := addFile_contained htotal (by omega) hroots hfile
    have hlength := hcont.length
    have hcont' := ih (by omega) hinside hrest
    rw [hsum, hgrow]
    exact hcont.trans hcont'

theorem writeSuperblock_contained (htotal : 275 ≤ vol.totalBlocks)
    (hcover : vol.blockOff vol.totalBlocks ≤ s.image.length)
    (h : vol.writeSuperblock s = .ok s') : Contained vol 0 0 s.image s'.image := by
  obtain ⟨sb, hsb, hres⟩ := bind_ok.mp h
  cases hres
  have hlength := (superblockBytes_ok hsb).length
  rw [blockOff_eq] at hcover
  dsimp only
  rw [blockOff_eq, block_eq]
  apply contained_slice
  · rw [blockOff_eq]
  · omega
  · rw [blockOff_eq, show superBlock = 16 from rfl]
    omega
  · omega
  · rw [show superBlock = 16 from rfl]
    omega

end Frames

end Volume

section Format
variable {image : Bytearray} {totalBlocks blockStart : Nat} {label : String} {files : FileList}
variable {allocSuper : Bool} {s : VolumeState}

theorem formatOwfs_contained (hcover : blockStart + 4096 * totalBlocks + Volume.padSum files ≤
      image.length)
    (h : formatOwfs image totalBlocks label files allocSuper blockStart = .ok s) :
    Volume.Contained ⟨totalBlocks, blockStart, label⟩ (Volume.padSum files)
      (Volume.growSum files) image s.image := by
  have hmin : superBlock + 1 + 1 + inodeTableBlocks + 1 = 275 := rfl
  unfold formatOwfs at h
  rw [hmin] at h
  by_cases hsmall : totalBlocks < 275
  · rw [if_pos hsmall] at h
    cases h
  rw [if_neg hsmall] at h
  have htotal : 275 ≤ (Volume.mk totalBlocks blockStart label).totalBlocks := not_lt.mp hsmall
  have hend := Volume.blockOff_eq ⟨totalBlocks, blockStart, label⟩ totalBlocks
  dsimp only at hend
  obtain ⟨⟨b, t⟩, halloc, hrest⟩ := bind_ok.mp h
  obtain ⟨u, hroot, hrest⟩ := bind_ok.mp hrest
  obtain ⟨v, hfiles, hsuper⟩ := bind_ok.mp hrest
  obtain ⟨hlo, hhi, hsame, hcont⟩ := Volume.allocBlock_contained htotal halloc
  have hlength : t.image.length + 0 = image.length := hcont.length
  obtain ⟨hkept, hcont'⟩ := Volume.writeInode_contained htotal
    (s := ⟨t.image, t.freeBlocks, t.freeInodes, t.rootBlocks ++ [b],
      (t.rootBlocks ++ [b]).length⟩)
    (by dsimp only; omega) (show 0 < 4096 by omega) hroot
  rw [Volume.rootFields_name] at hcont'
  have hlength' : u.image.length + 0 = t.image.length := hcont'.length
  have hinside : Volume.RootsInside ⟨totalBlocks, blockStart, label⟩ u := by
    intro c hc
    have hroots : u.rootBlocks = t.rootBlocks ++ [b] := hkept
    have hnone : t.rootBlocks = [] := hsame
    rw [hroots, hnone, List.nil_append] at hc
    obtain rfl := List.mem_singleton.mp hc
    exact ⟨hlo, hhi⟩
  have hcont'' := Volume.addFiles_contained htotal (by dsimp only; omega) hinside hfiles
  have hlength'' := hcont''.length
  have hall := (hcont.trans hcont').trans hcont''
  simp only [Nat.zero_add] at hall
  split_ifs at hsuper with hwrite
  · have hsealed := Volume.writeSuperblock_contained htotal (by dsimp only; omega) hsuper
    exact hall.trans hsealed
  · cases hsuper
    exact hall

end Format

end ModularBootloader.Mkfs
