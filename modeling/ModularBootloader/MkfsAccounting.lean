import ModularBootloader.MkfsTrace
import ModularBootloader.RoundTrip

/-!
# What the allocator hands out, and what it counts

The calls of `alloc_block` in a formatting run on a zeroed volume, whatever the
files: short values and long names move only what lies behind the bitmap. With
names that fit, the inode table stays in place as well, and both counters agree
with the bytes they count.
-/

namespace ModularBootloader.Mkfs
open ByteStore SliceAssign RaisingLoop CallLog

namespace Volume

structure RegionsInOrder (vol : Volume) : Prop where
  super : superBlock + 1 ≤ bitmapStartBlock
  bitmap : bitmapStartBlock + vol.bitmapBlocks ≤ vol.inodeTableStart
  table : vol.inodeTableStart + inodeTableBlocks ≤ vol.dataRegionStart
  data : vol.dataRegionStart < vol.totalBlocks

theorem regionsInOrder (vol : Volume) (htotal : 275 ≤ vol.totalBlocks) : RegionsInOrder vol := by
  obtain ⟨hdata, hpos, -⟩ := vol.geometry htotal
  exact ⟨Nat.le_refl _, Nat.le_refl _, Nat.le_refl _, by omega⟩

theorem bitmapBlocks_least (vol : Volume) (htotal : 275 ≤ vol.totalBlocks) :
    IsLeast {b : Nat | (vol.totalBlocks : Int) - 273 - b ≤ 32768 * b} vol.bitmapBlocks := by
  have hbitmap : vol.bitmapBlocks = (vol.totalBlocks - 273 + 32768) / 32769 := rfl
  constructor
  · simp only [Set.mem_ofPred_eq]
    omega
  · intro b hb
    simp only [Set.mem_ofPred_eq] at hb
    omega

def bitClear (vol : Volume) (image : Bytearray) (rel : Nat) : Bool :=
  !(image.getD (vol.blockOff bitmapStartBlock + rel / 8) 0).toNat.testBit (rel % 8)

def clearBlocks (vol : Volume) (image : Bytearray) : Nat :=
  (List.range vol.dataBlocks).countP (vol.bitClear image)

def slotFree (vol : Volume) (image : Bytearray) (num : Nat) : Bool :=
  image.getD (vol.inodeOff num + 4) 0 == 0

def freeSlots (vol : Volume) (image : Bytearray) : Nat :=
  (List.range totalInodes).countP (vol.slotFree image)

theorem countP_range_le {p : Nat → Bool} {n k : Nat} (hp : ∀ i < n, p i = decide (k ≤ i)) :
    (List.range n).countP p = n - k := by
  induction n with
  | zero => simp
  | succ n ih =>
    have hlast := hp n (Nat.lt_succ_self n)
    rw [List.range_succ, List.countP_append, ih fun i hi => hp i (Nat.lt_succ_of_lt hi)]
    by_cases hk : k ≤ n
    · simp [hlast, hk]
      omega
    · simp [hlast, hk]
      omega

section Counts
variable {vol : Volume} {image : Bytearray} {k n num lo hi : Nat} {v : Bytearray} {s : VolumeState}

theorem filled_testBit {j i : Nat} (hi : i < 8) :
    (filled k j).toNat.testBit i = decide (8 * j + i < k) := by
  have hpow : 2 ^ min 8 (k - 8 * j) ≤ 2 ^ 8 := Nat.pow_le_pow_right (by omega) (Nat.min_le_left _ _)
  rw [filled, UInt8.toNat_ofNat', Nat.mod_eq_of_lt (by omega), Nat.testBit_two_pow_sub_one]
  apply decide_eq_decide.mpr
  omega

theorem BitsAt.clearBlocks (h : BitsAt vol image k) (htotal : 275 ≤ vol.totalBlocks) :
    vol.clearBlocks image = vol.dataBlocks - k := by
  obtain ⟨-, -, hcover⟩ := vol.geometry htotal
  apply countP_range_le
  intro rel hrel
  rw [bitClear, h.bits (rel / 8) (by omega), filled_testBit (Nat.mod_lt rel (by omega)),
    ← decide_not]
  apply decide_eq_decide.mpr
  omega

structure TableAt (vol : Volume) (image : Bytearray) (n : Nat) : Prop where
  length : vol.blockOff vol.dataRegionStart ≤ image.length
  types : ∀ num < 4096, image.getD (vol.inodeOff num + 4) 0 = 0 ↔ n ≤ num

theorem table_end (vol : Volume) : vol.blockOff vol.dataRegionStart =
    vol.blockOff vol.inodeTableStart + 4096 * 256 := by
  have hstart := vol.dataRegionStart_eq
  rw [blockOff_eq, blockOff_eq, inodeTableStart_eq]
  omega

theorem inodeOff_table (vol : Volume) (num : Nat) :
    vol.inodeOff num = vol.blockOff vol.inodeTableStart + 256 * num := by
  rw [inodeOff_eq, blockOff_eq]

theorem TableAt.freeSlots (h : TableAt vol image n) : vol.freeSlots image = 4096 - n := by
  apply countP_range_le
  intro num hnum
  rw [slotFree, ← decide_eq_decide.mpr (h.types num hnum)]
  rfl

theorem TableAt.slice (h : TableAt vol image n) (hlo : vol.blockOff vol.dataRegionStart ≤ lo) :
    TableAt vol (sliceAssign image lo hi v) n := by
  have hlength := h.length
  have hend := table_end vol
  refine ⟨sliceAssign_length_ge hlo hlength, ?_⟩
  intro num hnum
  rw [List.getD_eq_getElem?_getD, inodeOff_table, sliceAssign_prefix (by omega) (by omega),
    ← List.getD_eq_getElem?_getD, ← inodeOff_table]
  exact h.types num hnum

theorem TableAt.marked (h : TableAt vol image n) (hk : k < 32768 * vol.bitmapBlocks) :
    TableAt vol (markedImage vol image k) n := by
  have hlength := h.length
  have hend := table_end vol
  have hbits := bitmap_end vol
  have hin : vol.blockOff bitmapStartBlock + k / 8 < image.length := by omega
  constructor
  · rw [markedImage, sliceAssign_one_length hin]
    exact hlength
  · intro num hnum
    rw [markedImage, sliceAssign_one_other hin (by rw [inodeOff_table]; omega)]
    exact h.types num hnum

theorem TableAt.write (h : TableAt vol image n) (hnum : num ≤ n) (hlt : num < 4096)
    (hv : v.length = 256) (htype : v.getD 4 0 ≠ 0) :
    TableAt vol (sliceAssign image (vol.inodeOff num) (vol.inodeOff num + 256) v)
      (max n (num + 1)) := by
  have hlength := h.length
  have hend := table_end vol
  have hoff := inodeOff_table vol num
  constructor
  · have hsame : (sliceAssign image (vol.inodeOff num) (vol.inodeOff num + 256) v).length =
        max image.length (vol.inodeOff num + 256) := sliceAssign_length_le (by omega) (by omega)
    omega
  · intro other hother
    have haddr := inodeOff_table vol other
    by_cases hsame : other = num
    · subst hsame
      rw [sliceAssign_getD_inside (by omega) (by omega)]
      constructor
      · intro hzero
        exact absurd hzero htype
      · intro hle
        omega
    · rw [List.getD_eq_getElem?_getD, sliceAssign_outside (by omega) (by omega) (by omega),
        ← List.getD_eq_getElem?_getD, h.types other hother]
      omega

theorem TableAt.round (h : TableAt vol image n) {i : Nat} (hi : i < 4096) :
    (do
      let t ← getByte image (vol.inodeOff i + 4)
      .ok (if t = 0 then some i else none) : Except PyError (Option Nat)) =
        .ok (if n ≤ i then some i else none) := by
  have hlength := h.length
  have hend := table_end vol
  have hoff := inodeOff_table vol i
  have hlt : vol.inodeOff i + 4 < image.length := by omega
  have htype := h.types i hi
  rw [List.getD_eq_getElem?_getD, List.getElem?_eq_getElem hlt, Option.getD_some] at htype
  refine bind_ok.mpr ⟨image[vol.inodeOff i + 4], ?_, ?_⟩
  · rw [getByte, List.getElem?_eq_getElem hlt]
  · simp only [htype]

theorem TableAt.allocInode (h : TableAt vol s.image n) {s' : VolumeState}
    (halloc : vol.allocInode s = .ok (num, s')) :
    num = n ∧ n < 4096 := by
  obtain ⟨found, hfound, hrest⟩ := bind_ok.mp halloc
  rw [totalInodes_eq] at hfound
  by_cases hn : n < 4096
  · rw [firstSome_range (k := n) hn, firstSome_found (a := n)] at hfound
    · cases hfound
      cases hrest
      exact ⟨rfl, hn⟩
    · rw [h.round hn, if_pos (Nat.le_refl n)]
    · intro i hi
      rw [h.round (by omega), if_neg (by omega)]
  · rw [firstSome_none] at hfound
    · cases hfound
      cases hrest
    · intro i hi
      rw [List.mem_range] at hi
      rw [h.round hi, if_neg (by omega)]

end Counts

end Volume

def handed (calls : List VolumeCall) : List Nat :=
  calls.filterMap fun
    | .allocBlock _ (.ok b) _ => some b
    | _ => none

/-- What a call has done, given the calls before it. -/
def CallSound (vol : Volume) (short : Prop) (earlier : List VolumeCall) : VolumeCall → Prop
  | .allocBlock before answer after =>
    (∀ b, answer = .ok b → vol.dataRegionStart ≤ b ∧ b < vol.totalBlocks ∧ b ∉ handed earlier) ∧
    ((∃ e, answer = .error e) ↔
      ∀ b, vol.dataRegionStart ≤ b → b < vol.totalBlocks → b ∈ handed earlier) ∧
    ((∃ e, answer = .error e) → after = before) ∧
    after.freeBlocks = vol.clearBlocks after.image
  | .addFile after => short → after.freeInodes = vol.freeSlots after.image

def CallsSound (vol : Volume) (short : Prop) (calls : List VolumeCall) : Prop :=
  ∀ earlier c later, calls = earlier ++ c :: later → CallSound vol short earlier c

/-- The state and the record agree: `k` blocks are handed out and, if all names
are short, `n` inode slots are taken and `m` are no longer counted as free. -/
structure Accounted (vol : Volume) (short : Prop) (n m : Nat) (s : VolumeState)
    (calls : List VolumeCall) : Prop where
  sound : CallsSound vol short calls
  blocks : ∃ k ≤ vol.dataBlocks, vol.BitsAt s.image k ∧
    s.freeBlocks = (vol.dataBlocks - k : Nat) ∧
    handed calls = (List.range k).map fun rel => vol.dataRegionStart + rel
  roots : ∀ b ∈ s.rootBlocks, vol.dataRegionStart ≤ b
  inodes : short → vol.TableAt s.image n ∧ s.freeInodes = 4096 - (m : Int)

section Steps
variable {vol : Volume} {short : Prop} {n m : Nat} {s s' : VolumeState} {calls : List VolumeCall}
variable {c : VolumeCall}

theorem CallsSound.snoc (h : CallsSound vol short calls) (hc : CallSound vol short calls c) :
    CallsSound vol short (calls ++ [c]) := by
  intro earlier d later heq
  rcases List.eq_nil_or_concat later with rfl | ⟨rest, last, rfl⟩
  · obtain ⟨rfl, hlast⟩ := List.append_inj' heq rfl
    obtain rfl := List.singleton_inj.mp hlast
    exact hc
  · have hsplit : earlier ++ d :: rest.concat last = (earlier ++ d :: rest) ++ [last] := by
      simp
    rw [hsplit] at heq
    obtain ⟨rfl, -⟩ := List.append_inj' heq rfl
    exact h earlier d rest rfl

theorem mem_handed {k b : Nat}
    (h : handed calls = (List.range k).map fun rel => vol.dataRegionStart + rel) :
    b ∈ handed calls ↔ vol.dataRegionStart ≤ b ∧ b < vol.dataRegionStart + k := by
  rw [h, List.mem_map]
  constructor
  · rintro ⟨rel, hrel, rfl⟩
    rw [List.mem_range] at hrel
    omega
  · intro hb
    exact ⟨b - vol.dataRegionStart, by rw [List.mem_range]; omega, by omega⟩

theorem Accounted.allocBlock (htotal : 275 ≤ vol.totalBlocks) :
    Keeps (CallsSound vol short) (Accounted vol short n m s) (Traced.allocBlock vol s)
      fun r calls => Accounted vol short n m r.2 calls ∧ vol.dataRegionStart ≤ r.1 := by
  rintro calls ⟨hsound, ⟨k, hk, hbits, hfree, hhanded⟩, hroots, hinodes⟩
  obtain ⟨hdata, -, hcover⟩ := vol.geometry htotal
  have hmem := fun b => mem_handed (b := b) hhanded
  have hcount := hbits.clearBlocks htotal
  have halloc := vol.allocBlockOn_eq s
  rw [Volume.allocBlock_eq hbits htotal hk] at halloc
  rw [Traced.allocBlock, halloc]
  by_cases hleft : k < vol.dataBlocks
  · rw [if_pos hleft]
    have hmarked := hbits.marked (show k < 32768 * vol.bitmapBlocks by omega)
    have hless : (Volume.markedState vol s k).freeBlocks = (vol.dataBlocks - (k + 1) : Nat) := by
      have hminus : (Volume.markedState vol s k).freeBlocks = s.freeBlocks - 1 := rfl
      omega
    have hcall : CallSound vol short calls
        (.allocBlock s (.ok (vol.dataRegionStart + k)) (Volume.markedState vol s k)) := by
      refine ⟨?_, ?_, ?_, ?_⟩
      · intro b hb
        obtain rfl := Except.ok.inj hb
        refine ⟨by omega, by omega, ?_⟩
        rw [hmem]
        omega
      · constructor
        · rintro ⟨e, he⟩
          cases he
        · intro hall
          have hnext := (hmem _).mp (hall (vol.dataRegionStart + k) (by omega) (by omega))
          omega
      · rintro ⟨e, he⟩
        cases he
      · rw [hless]
        exact congrArg Nat.cast (hmarked.clearBlocks htotal).symm
    refine ⟨hsound.snoc hcall, ?_⟩
    intro r hr
    obtain rfl := Except.ok.inj hr
    refine ⟨⟨hsound.snoc hcall, ⟨k + 1, hleft, hmarked, hless, ?_⟩, hroots, ?_⟩,
      Nat.le_add_right vol.dataRegionStart k⟩
    · rw [handed, List.filterMap_append, ← handed, hhanded, List.range_succ, List.map_append]
      rfl
    · intro hshort
      obtain ⟨htable, hinode⟩ := hinodes hshort
      exact ⟨htable.marked (by omega), hinode⟩
  · rw [if_neg hleft]
    have hcall : CallSound vol short calls
        (.allocBlock s (.error (.runtimeError "OWFS volume is full")) s) := by
      refine ⟨?_, ?_, ?_, ?_⟩
      · intro b hb
        cases hb
      · constructor
        · intro _ b hlo hhi
          rw [hmem]
          omega
        · intro _
          exact ⟨_, rfl⟩
      · intro _
        rfl
      · rw [hfree, hcount]
    refine ⟨hsound.snoc hcall, ?_⟩
    intro r hr
    cases hr

theorem Accounted.write {lo hi : Nat} {v : Bytearray} (h : Accounted vol short n m s calls)
    (hlo : vol.blockOff vol.dataRegionStart ≤ lo) :
    Accounted vol short n m { s with image := sliceAssign s.image lo hi v } calls := by
  obtain ⟨hsound, ⟨k, hk, hbits, hblocks⟩, hroots, hinodes⟩ := h
  have hend := vol.table_end
  refine ⟨hsound, ⟨k, hk, hbits.slice (by omega), hblocks⟩, hroots, ?_⟩
  intro hshort
  obtain ⟨htable, hinode⟩ := hinodes hshort
  exact ⟨htable.slice hlo, hinode⟩

theorem Accounted.writeInode {num n' : Nat} {f : Volume.InodeFields}
    (h : Accounted vol short n m s calls) (hwrite : vol.writeInode num f s = .ok s')
    (hnum : short → num ≤ n ∧ num < 4096 ∧ n' = max n (num + 1))
    (hname : short → f.name.length ≤ 178) (htype : UInt8.ofNat f.entryType ≠ 0) :
    Accounted vol short n' m s' calls := by
  obtain ⟨hsound, ⟨k, hk, hbits, hblocks⟩, hroots, hinodes⟩ := h
  obtain ⟨ino, hino, hres⟩ := bind_ok.mp hwrite
  cases hres
  have hoff := vol.inodeOff_table num
  refine ⟨hsound, ⟨k, hk, hbits.slice (by omega), hblocks⟩, hroots, ?_⟩
  intro hshort
  obtain ⟨htable, hinode⟩ := hinodes hshort
  obtain ⟨hle, hlt, rfl⟩ := hnum hshort
  have hok := Volume.inodeBytes_ok hino (hname hshort)
  have htaken : ino.getD 4 0 ≠ 0 := by
    rw [← hok.type] at htype
    exact htype
  exact ⟨htable.write hle hlt hok.length htaken, hinode⟩

theorem Accounted.writeRootInode (h : Accounted vol short n m s calls)
    (hwrite : vol.writeRootInode s = .ok s') : Accounted vol short (max n 1) m s' calls := by
  have hcount : Accounted vol short n m { s with rootBlockCount := s.rootBlocks.length } calls :=
    ⟨h.sound, h.blocks, h.roots, h.inodes⟩
  apply hcount.writeInode hwrite
  · intro _
    exact ⟨Nat.zero_le n, show 0 < 4096 by decide, rfl⟩
  · intro _
    exact show 1 ≤ 178 by decide
  · exact show UInt8.ofNat 2 ≠ 0 by decide

theorem Accounted.writeCatalogEntry {b e target type : Nat} {name : Bytearray}
    (h : Accounted vol short n m s calls) (hb : vol.dataRegionStart ≤ b)
    (hwrite : Volume.writeCatalogEntry (vol.blockOff b) e target type name s = .ok s') :
    Accounted vol short n m s' calls := by
  obtain ⟨ent, -, hres⟩ := bind_ok.mp hwrite
  cases hres
  apply h.write
  rw [Volume.blockOff_eq, Volume.blockOff_eq]
  omega

theorem Accounted.grow {b : Nat} (h : Accounted vol short n m s calls)
    (hb : vol.dataRegionStart ≤ b) :
    Accounted vol short n m { s with rootBlocks := s.rootBlocks ++ [b] } calls := by
  refine ⟨h.sound, h.blocks, ?_, h.inodes⟩
  intro c hc
  rcases List.mem_append.mp hc with hold | hnew
  · exact h.roots c hold
  · obtain rfl := List.mem_singleton.mp hnew
    exact hb

theorem keeps_silent {α : Type} {y : Except PyError α} {post : α → List VolumeCall → Prop}
    (h : ∀ calls a, Accounted vol short n m s calls → y = .ok a → post a calls) :
    Keeps (CallsSound vol short) (Accounted vol short n m s) (.silent y) post :=
  Keeps.silent (fun _ hcalls => hcalls.sound) h

theorem catalogGrow_accounted {num type : Nat} {name : Bytearray}
    (htotal : 275 ≤ vol.totalBlocks) (hn : 1 ≤ n) :
    Keeps (CallsSound vol short) (Accounted vol short n m s)
      (Traced.catalogGrow vol name num type s) (Accounted vol short n m) := by
  rw [Traced.catalogGrow]
  apply (Accounted.allocBlock htotal).bind
  rintro ⟨bnum, t⟩ -
  refine Keeps.bind (M := Accounted vol short n m) ?_ ?_
  · apply Keeps.silent
    · intro calls hcalls
      exact hcalls.1.sound
    · rintro calls u ⟨hcalls, hb⟩ hwrite
      exact (hcalls.grow hb).writeCatalogEntry hb hwrite
  · intro u _
    apply keeps_silent
    intro calls w hcalls hwrite
    have hroot := hcalls.writeRootInode hwrite
    rw [Nat.max_eq_left hn] at hroot
    exact hroot

theorem catalogInsert_accounted {num type : Nat} {name : Bytearray}
    (htotal : 275 ≤ vol.totalBlocks) (hn : 1 ≤ n) :
    Keeps (CallsSound vol short) (Accounted vol short n m s)
      (Traced.catalogInsert vol name num type s) (Accounted vol short n m) := by
  unfold Traced.catalogInsert
  refine Keeps.bind (M := fun _ => Accounted vol short n m s) ?_ ?_
  · exact keeps_silent fun calls found hcalls _ => hcalls
  · intro found hfound
    cases found with
    | none => exact catalogGrow_accounted htotal hn
    | some t =>
      apply keeps_silent
      intro calls u hcalls hu
      cases hu
      obtain ⟨bnum, hb, hrow⟩ := firstSome_sound hfound
      obtain ⟨e, -, hslot⟩ := firstSome_sound hrow
      obtain ⟨type, -, hrest⟩ := bind_ok.mp hslot
      split_ifs at hrest with hfree
      · obtain ⟨u, hwrite, hres⟩ := bind_ok.mp hrest
        cases hres
        exact hcalls.writeCatalogEntry (hcalls.roots bnum hb) hwrite
      · cases hrest

def LoopAccounted (vol : Volume) (short : Prop) (n m : Nat) (st : Volume.AddState)
    (calls : List VolumeCall) : Prop :=
  Accounted vol short n m st.state calls ∧
    (st.indirect = 0 ∨ vol.dataRegionStart ≤ st.indirect)

theorem indirectFor_accounted {i : Nat} {st : Volume.AddState} (htotal : 275 ≤ vol.totalBlocks) :
    Keeps (CallsSound vol short) (LoopAccounted vol short n m st) (Traced.indirectFor vol i st)
      fun r => LoopAccounted vol short n m ⟨r.2, st.direct, r.1⟩ := by
  rw [Traced.indirectFor]
  split_ifs
  · apply (Accounted.allocBlock htotal).conseq
    · intro calls hcalls
      exact hcalls.1
    · intro r calls hr
      exact ⟨hr.1, .inr hr.2⟩
  · apply Keeps.silent
    · intro calls hcalls
      exact hcalls.1.sound
    · intro calls r hcalls hr
      obtain rfl := Except.ok.inj hr
      exact hcalls

theorem addBlock_accounted (data : Bytearray) (i : Nat) {st : Volume.AddState}
    (htotal : 275 ≤ vol.totalBlocks) :
    Keeps (CallsSound vol short) (LoopAccounted vol short n m st) (Traced.addBlock vol data i st)
      (LoopAccounted vol short n m) := by
  rw [Traced.addBlock]
  apply (indirectFor_accounted htotal).bind
  rintro ⟨indirect, t⟩ -
  apply (Keeps.frame fun _ => Accounted.allocBlock htotal).bind
  rintro ⟨b, u⟩ -
  apply Keeps.silent
  · intro calls hcalls
    exact hcalls.1.1.sound
  · rintro calls st' ⟨⟨hacc, hb⟩, hindirect⟩ hst
    obtain rfl := Except.ok.inj hst
    refine ⟨hacc.write ?_, hindirect⟩
    rw [Volume.blockOff_eq, Volume.blockOff_eq]
    dsimp only at hb
    omega

theorem addBlocks_accounted {data : Bytearray} (htotal : 275 ≤ vol.totalBlocks) :
    Keeps (CallsSound vol short) (Accounted vol short n m s)
      (Recorded.pass (Traced.addBlock vol data) (Volume.blocksOf data) ⟨s, [], 0⟩)
      (LoopAccounted vol short n m) := by
  have hpass := Keeps.pass (I := fun _ => LoopAccounted vol short n m) (s := ⟨s, [], 0⟩)
    (Volume.blocksOf data) (fun _ hcalls => hcalls.1.sound)
    fun i _ st => addBlock_accounted data i htotal
  exact hpass.conseq (fun _ hcalls => ⟨hcalls, .inl rfl⟩) fun _ _ hst => hst

theorem writeIndirect_accounted {st : Volume.AddState} {direct : List Nat}
    (h : LoopAccounted vol short n m st calls)
    (hwrite : vol.writeIndirect st = .ok (direct, s')) : Accounted vol short n m s' calls := by
  obtain ⟨hacc, hindirect⟩ := h
  rw [Volume.writeIndirect] at hwrite
  split_ifs at hwrite with hused
  · obtain ⟨ibuf, -, hres⟩ := bind_ok.mp hwrite
    cases hres
    apply hacc.write
    have hb := hindirect.resolve_left hused
    rw [Volume.blockOff_eq, Volume.blockOff_eq]
    omega
  · cases hwrite
    exact hacc

theorem addFile_accounted {name data : Bytearray} (htotal : 275 ≤ vol.totalBlocks) (hn : 1 ≤ n)
    (hname : short → name.length ≤ 128) :
    Keeps (CallsSound vol short) (Accounted vol short n n s) (Traced.addFile vol name data s)
      fun r => Accounted vol short (n + 1) (n + 1) r.2 := by
  unfold Traced.addFile
  refine Keeps.bind (M := fun r calls => Accounted vol short n (n + 1) r.2 calls ∧
    (short → r.1 = n ∧ n < 4096)) ?_ ?_
  · apply keeps_silent
    rintro calls ⟨num, t⟩ hcalls halloc
    obtain ⟨-, rfl⟩ := Volume.allocInode_ok halloc
    refine ⟨⟨hcalls.sound, hcalls.blocks, hcalls.roots, ?_⟩, ?_⟩
    · intro hshort
      obtain ⟨htable, hinode⟩ := hcalls.inodes hshort
      refine ⟨htable, ?_⟩
      dsimp only
      omega
    · intro hshort
      exact (hcalls.inodes hshort).1.allocInode halloc
  rintro ⟨inodeNum, t⟩ -
  apply (Keeps.frame fun _ => addBlocks_accounted htotal).bind
  intro st _
  refine Keeps.bind (M := fun r calls => Accounted vol short n (n + 1) r.2 calls ∧
    (short → inodeNum = n ∧ n < 4096)) ?_ ?_
  · apply Keeps.silent
    · intro calls hcalls
      exact hcalls.1.1.sound
    · intro calls r hcalls hr
      exact ⟨writeIndirect_accounted hcalls.1 hr, hcalls.2⟩
  rintro ⟨direct, u⟩ -
  refine Keeps.bind (M := fun v calls => Accounted vol short (n + 1) (n + 1) v calls ∧
    (short → n < 4096)) ?_ ?_
  · apply Keeps.silent
    · intro calls hcalls
      exact hcalls.1.sound
    · rintro calls v ⟨hcalls, hnum⟩ hwrite
      refine ⟨hcalls.writeInode hwrite ?_ ?_ (show UInt8.ofNat 1 ≠ 0 by decide), ?_⟩
      · intro hshort
        obtain ⟨rfl, hlt⟩ := hnum hshort
        exact ⟨Nat.le_refl _, hlt, by omega⟩
      · intro hshort
        exact (hname hshort).trans (by omega)
      · intro hshort
        exact (hnum hshort).2
  intro v _
  apply (Keeps.frame fun _ => catalogInsert_accounted htotal (Nat.le_add_left 1 n)).bind
  rintro w _ calls ⟨hcalls, hlt⟩
  -- As many slots are taken as are no longer counted.
  have hcall : CallSound vol short calls (.addFile w) := by
    intro hshort
    obtain ⟨htable, hinode⟩ := hcalls.inodes hshort
    have hn := hlt hshort
    rw [hinode, htable.freeSlots]
    omega
  refine ⟨hcalls.sound.snoc hcall, ?_⟩
  intro r hr
  obtain rfl := Except.ok.inj hr
  obtain ⟨k, hk, hbits, hfree, hhanded⟩ := hcalls.blocks
  refine ⟨hcalls.sound.snoc hcall, ⟨k, hk, hbits, hfree, ?_⟩, hcalls.roots, hcalls.inodes⟩
  rw [← hhanded]
  simp [handed, Recorded.call]

theorem addFiles_accounted {files : FileList} (htotal : 275 ≤ vol.totalBlocks) (hn : 1 ≤ n)
    (hnames : short → ∀ f ∈ files, f.1.length ≤ 128) :
    Keeps (CallsSound vol short) (Accounted vol short n n s) (Traced.addFiles vol files s)
      fun _ calls => CallsSound vol short calls := by
  induction files generalizing n s with
  | nil => exact keeps_silent fun calls _ hcalls _ => hcalls.sound
  | cons f rest ih =>
    obtain ⟨name, data⟩ := f
    rw [Traced.addFiles]
    apply (addFile_accounted htotal hn fun hshort => hnames hshort _ List.mem_cons_self).bind
    rintro ⟨num, t⟩ -
    apply ih (Nat.le_add_left 1 n)
    intro hshort f hf
    exact hnames hshort f (List.mem_cons_of_mem _ hf)

end Steps

section Format
variable {image : Bytearray} {totalBlocks blockStart : Nat} {label : String} {files : FileList}

theorem accounted_start (label : String) (short : Prop)
    (hblank : BlankFrom image blockStart (4096 * totalBlocks)) (htotal : 275 ≤ totalBlocks) :
    Accounted ⟨totalBlocks, blockStart, label⟩ short 0 1
      (Volume.init ⟨totalBlocks, blockStart, label⟩ image) [] := by
  obtain ⟨hlength, hzero⟩ := hblank
  have himage : (Volume.init ⟨totalBlocks, blockStart, label⟩ image).image = image := rfl
  have hfree : (Volume.init ⟨totalBlocks, blockStart, label⟩ image).freeBlocks =
      (totalBlocks : Int) - (Volume.mk totalBlocks blockStart label).dataRegionStart := rfl
  have hinodes : (Volume.init ⟨totalBlocks, blockStart, label⟩ image).freeInodes =
      4096 - ((1 : Nat) : Int) := rfl
  have hroots : (Volume.init ⟨totalBlocks, blockStart, label⟩ image).rootBlocks = [] := rfl
  have htotal' : 275 ≤ (Volume.mk totalBlocks blockStart label).totalBlocks := htotal
  have hall : (Volume.mk totalBlocks blockStart label).totalBlocks = totalBlocks := rfl
  have hfirst : (Volume.mk totalBlocks blockStart label).blockStart = blockStart := rfl
  generalize (⟨totalBlocks, blockStart, label⟩ : Volume) = vol at *
  obtain ⟨hdata, hpos, -⟩ := vol.geometry htotal'
  have hbits := vol.bitmap_end
  have hend := vol.table_end
  have hregion : vol.blockOff vol.dataRegionStart ≤ blockStart + 4096 * totalBlocks := by
    rw [Volume.blockOff_eq]
    omega
  have hbase : blockStart ≤ vol.blockOff Volume.bitmapStartBlock := by
    rw [Volume.blockOff_eq]
    omega
  rw [← himage] at hlength hzero
  refine ⟨?_, ⟨0, Nat.zero_le _, ⟨by omega, ?_⟩, by omega, rfl⟩, ?_, ?_⟩
  · intro earlier c later h
    simp at h
  · intro j hj
    rw [hzero _ (by omega) (by omega), Volume.filled_low (by omega), Nat.zero_sub]
    rfl
  · intro b hb
    rw [hroots] at hb
    cases hb
  · intro _
    refine ⟨⟨by omega, ?_⟩, hinodes⟩
    intro num hnum
    have hoff := vol.inodeOff_table num
    rw [hzero _ (by omega) (by omega)]
    simp

theorem formatOwfs_calls (label : String) (files : FileList) (allocSuper : Bool)
    (hblank : BlankFrom image blockStart (4096 * totalBlocks)) (htotal : 275 ≤ totalBlocks) :
    CallsSound ⟨totalBlocks, blockStart, label⟩ (∀ f ∈ files, f.1.length ≤ 128)
      (Traced.formatOwfs image totalBlocks label files allocSuper blockStart).calls := by
  have hmin : superBlock + 1 + 1 + inodeTableBlocks + 1 = 275 := rfl
  have hstart := accounted_start label (∀ f ∈ files, f.1.length ≤ 128) hblank htotal
  have htotal' : 275 ≤ (Volume.mk totalBlocks blockStart label).totalBlocks := htotal
  rw [Traced.formatOwfs, hmin, if_neg (by omega)]
  dsimp only
  generalize (⟨totalBlocks, blockStart, label⟩ : Volume) = vol at hstart htotal' ⊢
  generalize hshort : (∀ f ∈ files, f.1.length ≤ 128) = short at hstart ⊢
  have hnames : short → ∀ f ∈ files, f.1.length ≤ 128 := hshort.mpr
  refine Keeps.start (M := fun _ => CallsSound vol short) ?_ hstart
  apply (Accounted.allocBlock htotal').bind
  rintro ⟨b, s⟩ -
  refine Keeps.bind (M := Accounted vol short 1 1) ?_ ?_
  · apply Keeps.silent
    · intro calls hcalls
      exact hcalls.1.sound
    · rintro calls t ⟨hcalls, hb⟩ hwrite
      exact (hcalls.grow hb).writeRootInode hwrite
  intro s _
  apply (addFiles_accounted htotal' (Nat.le_refl 1) hnames).bind
  intro s _
  exact Keeps.silent (fun _ hcalls => hcalls) fun _ _ hcalls _ => hcalls

/-- The bitmap is as small as it can be, the regions follow each other, and on a
zeroed volume every call of the allocator is sound and both counters count. -/
theorem formatOwfs_accounts (label : String) (files : FileList) (allocSuper : Bool)
    (hblank : BlankFrom image blockStart (4096 * totalBlocks)) (htotal : 275 ≤ totalBlocks) :
    IsLeast {b : Nat | (totalBlocks : Int) - 273 - b ≤ 32768 * b}
        (Volume.mk totalBlocks blockStart label).bitmapBlocks ∧
      Volume.RegionsInOrder ⟨totalBlocks, blockStart, label⟩ ∧
      (Traced.formatOwfs image totalBlocks label files allocSuper blockStart).result =
        formatOwfs image totalBlocks label files allocSuper blockStart ∧
      CallsSound ⟨totalBlocks, blockStart, label⟩ (∀ f ∈ files, f.1.length ≤ 128)
        (Traced.formatOwfs image totalBlocks label files allocSuper blockStart).calls :=
  ⟨Volume.bitmapBlocks_least ⟨totalBlocks, blockStart, label⟩ htotal,
    Volume.regionsInOrder ⟨totalBlocks, blockStart, label⟩ htotal,
    Traced.formatOwfs_result image totalBlocks label files allocSuper blockStart,
    formatOwfs_calls label files allocSuper hblank htotal⟩

theorem smallKernel_accounts :
    IsLeast {b : Nat | ((276 : Nat) : Int) - 273 - b ≤ 32768 * b}
        (Volume.mk 276 volumeBase "MBL").bitmapBlocks ∧
      Volume.RegionsInOrder ⟨276, volumeBase, "MBL"⟩ ∧
      (Traced.formatOwfs smallDisk 276 "MBL" smallKernel true volumeBase).result =
        formatOwfs smallDisk 276 "MBL" smallKernel true volumeBase ∧
      CallsSound ⟨276, volumeBase, "MBL"⟩ (∀ f ∈ smallKernel, f.1.length ≤ 128)
        (Traced.formatOwfs smallDisk 276 "MBL" smallKernel true volumeBase).calls :=
  formatOwfs_accounts "MBL" smallKernel true (blankFrom_replicate (by decide)) (by decide)

end Format

end ModularBootloader.Mkfs
