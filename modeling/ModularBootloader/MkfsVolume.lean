import ModularBootloader.MkfsFiles

/-!
# The volume invariant

A volume with `k` data blocks in use and a list of files: file `j` has inode
`j + 1` and slot `j % 16` of catalog block `j / 16`; what is not in use is zero.
Each operation returns exactly if there is room, and keeps the invariant.
-/

namespace ModularBootloader.Mkfs.Volume
open ByteStore SliceAssign RaisingLoop BlockStore

def SlotAt (D : Store) (b e : Nat) (v : Bytearray) : Prop :=
  ∀ i < 256, D b (256 * e + i) = bytesOf v i

section Slots
variable {D D' : Store} {b b' e e' i : Nat} {v : Bytearray} {src : Nat → UInt8}

theorem slotAt_put : SlotAt (putAt D b (256 * e) 256 (bytesOf v)) b e v :=
  fun _ hi => putAt_inside hi

theorem slot_other (hi : i < 256) (hne : b ≠ b' ∨ e ≠ e') :
    putAt D b' (256 * e') 256 src b (256 * e + i) = D b (256 * e + i) :=
  putAt_outside (by omega)

theorem SlotAt.put (h : SlotAt D b e v) (hne : b ≠ b' ∨ e ≠ e') :
    SlotAt (putAt D b' (256 * e') 256 src) b e v := by
  intro i hi
  rw [slot_other hi hne]
  exact h i hi

theorem SlotAt.congr (h : SlotAt D b e v) (hsame : D' b = D b) : SlotAt D' b e v := by
  intro i hi
  rw [hsame]
  exact h i hi

end Slots

def InodeAt (vol : Volume) (D : Store) (num : Nat) (f : InodeFields) : Prop :=
  ∃ ino, InodeImage f ino ∧ SlotAt D (vol.inodeTableStart + num / 16) (num % 16) ino

section Inodes
variable {vol : Volume} {D D' : Store} {num num' room : Nat} {f : InodeFields} {s : VolumeState}

theorem InodeAt.congr (h : InodeAt vol D num f)
    (hsame : D' (vol.inodeTableStart + num / 16) = D (vol.inodeTableStart + num / 16)) :
    InodeAt vol D' num f := by
  obtain ⟨ino, himage, hslot⟩ := h
  exact ⟨ino, himage, hslot.congr hsame⟩

theorem InodeAt.put {src : Nat → UInt8} (h : InodeAt vol D num f) (hne : num ≠ num') :
    InodeAt vol (putAt D (vol.inodeTableStart + num' / 16) (256 * (num' % 16)) 256 src) num f := by
  obtain ⟨ino, himage, hslot⟩ := h
  exact ⟨ino, himage, hslot.put (by omega)⟩

theorem InodeAt.type (h : InodeAt vol D num f) :
    D (vol.inodeTableStart + num / 16) (256 * (num % 16) + 4) = UInt8.ofNat f.entryType := by
  obtain ⟨ino, himage, hslot⟩ := h
  rw [hslot 4 (by omega), himage.type]

theorem inodeOff_slot (vol : Volume) (num : Nat) :
    vol.inodeOff num = vol.blockOff (vol.inodeTableStart + num / 16) + 256 * (num % 16) := by
  rw [inodeOff_eq, blockOff_eq]
  omega

theorem inodeTable_inside (htotal : 275 ≤ vol.totalBlocks) (hnum : num < 4096) :
    vol.inodeTableStart + num / 16 < vol.dataRegionStart ∧
      vol.inodeTableStart + num / 16 < vol.totalBlocks := by
  obtain ⟨hregion, hpos, -⟩ := vol.geometry htotal
  have hstart := vol.dataRegionStart_eq
  have htable := vol.inodeTableStart_eq
  omega

theorem writeInode_returnsIff (num : Nat) (f : InodeFields) (himage : Images vol room s.image D)
    (htotal : 275 ≤ vol.totalBlocks) (hnum : num < 4096) (htype : f.entryType ≤ 255)
    (hlen : f.nameLength ≤ 255) (hname : f.name.length ≤ 178) :
    ReturnsIff (f.directBlocks.length ≤ 56) (vol.writeInode num f s) fun s' =>
      s'.rootBlocks = s.rootBlocks ∧ ∃ ino, InodeImage f ino ∧ Images vol room s'.image
        (putAt D (vol.inodeTableStart + num / 16) (256 * (num % 16)) 256 (bytesOf ino)) := by
  have hino : ReturnsIff (f.directBlocks.length ≤ 56) (inodeBytes f) (InodeImage f) := by
    constructor
    · intro hfew
      exact inodeBytes_total htype hlen hfew (by omega)
    · intro ino h
      have hok := inodeBytes_ok h hname
      exact ⟨hok.few, hok⟩
  refine (hino.bind (d := True) ?_).conseq (and_iff_left trivial) fun _ _ h => h
  intro ino _ hok
  have hwrite := write_image (v := ino) (i := 256 * (num % 16)) himage
    (inodeTable_inside htotal hnum).2 (by rw [hok.length]; omega)
  rw [hok.length] at hwrite
  refine ReturnsIff.ok ⟨rfl, ino, hok, ?_⟩
  dsimp only
  rw [inodeOff_slot]
  exact hwrite

theorem writeRootInode_returnsIff (himage : Images vol room s.image D)
    (htotal : 275 ≤ vol.totalBlocks) :
    ReturnsIff (s.rootBlocks.length ≤ 56) (vol.writeRootInode s) fun s' =>
      s'.rootBlocks = s.rootBlocks ∧ ∃ ino, InodeImage (rootFields s.rootBlocks) ino ∧
        Images vol room s'.image (putAt D (vol.inodeTableStart + 0 / 16) (256 * (0 % 16)) 256
          (bytesOf ino)) := by
  have htype : (rootFields s.rootBlocks).entryType ≤ 255 := show 2 ≤ 255 by omega
  have hlen : (rootFields s.rootBlocks).nameLength ≤ 255 := show 1 ≤ 255 by omega
  have hname : (rootFields s.rootBlocks).name.length ≤ 178 := show 1 ≤ 178 by omega
  exact writeInode_returnsIff rootInode _ (s := { s with rootBlockCount := s.rootBlocks.length })
    himage htotal (show 0 < 4096 by omega) htype hlen hname

end Inodes

theorem snoc_cases {α : Type} {l : List α} {x v : α} {j : Nat} (h : (l ++ [x])[j]? = some v) :
    (j < l.length ∧ l[j]? = some v) ∨ (j = l.length ∧ v = x) := by
  rcases Nat.lt_or_ge j l.length with hlt | hge
  · rw [List.getElem?_append_left hlt] at h
    exact .inl ⟨hlt, h⟩
  · rw [List.getElem?_append_right hge] at h
    obtain ⟨hlast, rfl⟩ := List.getElem?_eq_some_iff.mp h
    rw [List.length_singleton] at hlast
    exact .inr ⟨by omega, List.getElem_singleton _⟩

structure FileAt (vol : Volume) (D : Store) (k : Nat) (roots : List Nat) (num start : Nat)
    (name data : Bytearray) : Prop where
  within : start + takenBlocks (blocksOf data) ≤ k
  apart : ∀ b ∈ roots, b < vol.dataRegionStart + start ∨
    vol.dataRegionStart + (start + takenBlocks (blocksOf data)) ≤ b
  blocks : FileBlocks vol D start data
  inode : InodeAt vol D num (fileFields num name data
    ((vol.directOf start (blocksOf data)).take 10) (vol.indirectOf start (blocksOf data)))

/-- File `j` has inode `j + 1`; the slots behind the last file are free. -/
structure Stored (vol : Volume) (D : Store) (k : Nat) (roots : List Nat) (files : FileList) :
    Prop where
  file : ∀ j f, files[j]? = some f → ∃ start, FileAt vol D k roots (j + 1) start f.1 f.2
  spare : ∀ num, files.length < num → num < 4096 →
    D (vol.inodeTableStart + num / 16) (256 * (num % 16) + 4) = 0

section Files
variable {vol : Volume} {D D' : Store} {k k' num num' start b : Nat} {roots : List Nat}
variable {name data : Bytearray} {files : FileList} {src : Nat → UInt8}

theorem FileAt.congr (h : FileAt vol D k roots num start name data) (hk : k ≤ k')
    (htable : D' (vol.inodeTableStart + num / 16) = D (vol.inodeTableStart + num / 16))
    (hsame : ∀ r < takenBlocks (blocksOf data),
      D' (vol.dataRegionStart + (start + r)) = D (vol.dataRegionStart + (start + r))) :
    FileAt vol D' k' roots num start name data :=
  ⟨h.within.trans hk, h.apart, h.blocks.congr hsame, h.inode.congr htable⟩

theorem Stored.index_lt (_ : Stored vol D k roots files) {j : Nat} {f : Bytearray × Bytearray}
    (hj : files[j]? = some f) : j < files.length := by
  obtain ⟨h, -⟩ := List.getElem?_eq_some_iff.mp hj
  exact h

theorem Stored.congr (h : Stored vol D k roots files) (hkept : Kept vol k D D') (hk : k ≤ k')
    (hcount : files.length < 4095) : Stored vol D' k' roots files := by
  have hstart := vol.dataRegionStart_eq
  have htable := vol.inodeTableStart_eq
  constructor
  · intro j f hj
    have hlt := h.index_lt hj
    obtain ⟨start, hfile⟩ := h.file j f hj
    have hwithin := hfile.within
    refine ⟨start, hfile.congr hk (hkept _ (by omega) (by omega)) ?_⟩
    intro r hr
    exact hkept _ (by omega) (by omega)
  · intro num hlo hhi
    rw [hkept _ (by omega) (by omega)]
    exact h.spare num hlo hhi

theorem Stored.put_root (h : Stored vol D k roots files) (hb : b ∈ roots)
    (hdata : vol.dataRegionStart ≤ b) (hcount : files.length < 4095) (off n : Nat)
    (src : Nat → UInt8) :
    Stored vol (putAt D b off n src) k roots files := by
  have hstart := vol.dataRegionStart_eq
  have htable := vol.inodeTableStart_eq
  constructor
  · intro j f hj
    have hlt := h.index_lt hj
    obtain ⟨start, hfile⟩ := h.file j f hj
    have hapart := hfile.apart b hb
    refine ⟨start, hfile.congr (Nat.le_refl k) (putAt_block (by omega)) ?_⟩
    intro r hr
    exact putAt_block (by omega)
  · intro num hlo hhi
    rw [putAt_block (by omega)]
    exact h.spare num hlo hhi

theorem Stored.root (h : Stored vol D k roots files) (hb : vol.dataRegionStart + k ≤ b) :
    Stored vol D k (roots ++ [b]) files := by
  refine ⟨?_, h.spare⟩
  intro j f hj
  obtain ⟨start, hfile⟩ := h.file j f hj
  have hwithin := hfile.within
  refine ⟨start, hfile.within, ?_, hfile.blocks, hfile.inode⟩
  intro c hc
  rcases List.mem_append.mp hc with hc | hc
  · exact hfile.apart c hc
  · obtain rfl := List.mem_singleton.mp hc
    exact .inr (by omega)

theorem FileAt.put_inode (h : FileAt vol D k roots num start name data) (hne : num ≠ num')
    (hnum' : num' < 4096) :
    FileAt vol (putAt D (vol.inodeTableStart + num' / 16) (256 * (num' % 16)) 256 src) k roots num
      start name data := by
  have hstart := vol.dataRegionStart_eq
  have htable := vol.inodeTableStart_eq
  refine ⟨h.within, h.apart, h.blocks.congr ?_, h.inode.put hne⟩
  intro r hr
  exact putAt_block (by omega)

theorem Stored.put_rootInode (h : Stored vol D k roots files) :
    Stored vol (putAt D (vol.inodeTableStart + 0 / 16) (256 * (0 % 16)) 256 src) k roots
      files := by
  constructor
  · intro j f hj
    obtain ⟨start, hfile⟩ := h.file j f hj
    exact ⟨start, hfile.put_inode (Nat.succ_ne_zero j) (by omega)⟩
  · intro num hlo hhi
    rw [slot_other (by omega) (by omega)]
    exact h.spare num hlo hhi

theorem Stored.open_block (h : Stored vol D k roots files) (hcount : files.length < 4095)
    (off n : Nat) (src : Nat → UInt8) :
    Stored vol (putAt D (vol.dataRegionStart + k) off n src) (k + 1)
      (roots ++ [vol.dataRegionStart + k]) files := by
  have hmem : vol.dataRegionStart + k ∈ roots ++ [vol.dataRegionStart + k] :=
    List.mem_append_right _ List.mem_cons_self
  have hput := (h.root (Nat.le_refl _)).put_root hmem (by omega) hcount off n src
  exact hput.congr (Kept.refl vol k _) (Nat.le_succ k) hcount

theorem Stored.append {ino : Bytearray} (h : Stored vol D k roots files)
    (hcount : files.length < 4095) (hwithin : start + takenBlocks (blocksOf data) ≤ k)
    (hapart : ∀ b ∈ roots, b < vol.dataRegionStart + start)
    (hblocks : FileBlocks vol D start data)
    (hino : InodeImage (fileFields (files.length + 1) name data
      ((vol.directOf start (blocksOf data)).take 10) (vol.indirectOf start (blocksOf data))) ino) :
    Stored vol (putAt D (vol.inodeTableStart + (files.length + 1) / 16)
      (256 * ((files.length + 1) % 16)) 256 (bytesOf ino)) k roots (files ++ [(name, data)]) := by
  have hstart := vol.dataRegionStart_eq
  have htable := vol.inodeTableStart_eq
  constructor
  · intro j f hj
    rcases snoc_cases hj with ⟨hlt, hj⟩ | ⟨rfl, rfl⟩
    · obtain ⟨start', hfile⟩ := h.file j f hj
      exact ⟨start', hfile.put_inode (by omega) (by omega)⟩
    · refine ⟨start, hwithin, fun b hb => .inl (hapart b hb), hblocks.congr ?_, ino, hino,
        slotAt_put⟩
      intro r hr
      exact putAt_block (by omega)
  · intro num hlo hhi
    rw [List.length_append, List.length_singleton] at hlo
    rw [slot_other (by omega) (by omega)]
    exact h.spare num (by omega) hhi

theorem Stored.allocInode {room : Nat} {s : VolumeState} {root : InodeFields}
    (h : Stored vol D k roots files) (himage : Images vol room s.image D)
    (htotal : 275 ≤ vol.totalBlocks) (hcount : files.length < 4095)
    (hroot : InodeAt vol D 0 root) (hcat : root.entryType = entryCatalog) :
    vol.allocInode s = .ok (files.length + 1, { s with freeInodes := s.freeInodes - 1 }) := by
  have hread : ∀ num < 4096, getByte s.image (vol.inodeOff num + 4) =
      .ok (D (vol.inodeTableStart + num / 16) (256 * (num % 16) + 4)) := by
    intro num hnum
    rw [inodeOff_slot, Nat.add_assoc]
    exact getByte_image himage (inodeTable_inside htotal hnum).2 (by omega)
  have hused : ∀ num ≤ files.length,
      D (vol.inodeTableStart + num / 16) (256 * (num % 16) + 4) ≠ 0 := by
    intro num hnum
    cases num with
    | zero =>
      rw [hroot.type, hcat]
      decide
    | succ j =>
      obtain ⟨start, hfile⟩ := h.file j files[j] (List.getElem?_eq_getElem hnum)
      rw [hfile.inode.type]
      show UInt8.ofNat entryFile ≠ 0
      decide
  have hfound : firstSome (fun num => do
      let t ← getByte s.image (vol.inodeOff num + 4)
      .ok (if t = 0 then some num else none)) (List.range totalInodes) =
      .ok (some (files.length + 1)) := by
    rw [firstSome_range (k := files.length + 1) (by rw [totalInodes_eq]; omega)]
    · apply firstSome_found
      rw [hread _ (by omega), h.spare _ (Nat.lt_succ_self _) (by omega)]
      rfl
    · intro num hnum
      rw [hread num (by omega)]
      show Except.ok (if _ then some num else none) = _
      rw [if_neg (hused num (by omega))]
  exact bind_ok.mpr ⟨_, hfound, rfl⟩

end Files

/-- Entry `j` is in slot `j % 16` of block `j / 16`; the slots behind are free. -/
structure Listed (D : Store) (roots : List Nat) (files : FileList) : Prop where
  entry : ∀ j f, files[j]? = some f → ∃ b ent, roots[j / 16]? = some b ∧
    EntryImage (j + 1) entryFile f.1 ent ∧ SlotAt D b (j % 16) ent
  spare : ∀ r b e, roots[r]? = some b → e < 16 → files.length ≤ 16 * r + e →
    D b (256 * e + 4) = 0

def rootBlocksFor (count : Nat) : Nat := max 1 ((count + 15) / 16)

structure RootsAt (vol : Volume) (k : Nat) (roots : List Nat) (count : Nat) : Prop where
  inside : ∀ b ∈ roots, vol.dataRegionStart ≤ b ∧ b < vol.dataRegionStart + k
  nodup : roots.Nodup
  length : roots.length = rootBlocksFor count
  few : roots.length ≤ 56

section Catalog
variable {vol : Volume} {D D' : Store} {k k' b room : Nat} {roots : List Nat}
variable {files : FileList} {f : Bytearray × Bytearray} {s : VolumeState}

theorem RootsAt.count_lt (h : RootsAt vol k roots files.length) : files.length < 4095 := by
  have hlength := h.length
  have hfew := h.few
  rw [rootBlocksFor] at hlength
  omega

theorem RootsAt.grow {count : Nat} (h : RootsAt vol k roots count)
    (hfull : count = 16 * roots.length) (hfew : roots.length < 56) :
    RootsAt vol (k + 1) (roots ++ [vol.dataRegionStart + k]) (count + 1) := by
  have hlength := h.length
  refine ⟨?_, ?_, ?_, ?_⟩
  · intro c hc
    rcases List.mem_append.mp hc with hc | hc
    · have hin := h.inside c hc
      omega
    · obtain rfl := List.mem_singleton.mp hc
      omega
  · apply h.nodup.append (List.nodup_singleton _)
    intro c hc hlast
    have hin := h.inside c hc
    rw [List.mem_singleton] at hlast
    omega
  · rw [rootBlocksFor] at hlength ⊢
    rw [List.length_append, List.length_singleton]
    omega
  · rw [List.length_append, List.length_singleton]
    omega

theorem Listed.congr (h : Listed D roots files) (hsame : ∀ b ∈ roots, D' b = D b) :
    Listed D' roots files := by
  constructor
  · intro j f hj
    obtain ⟨b, ent, hb, hent, hslot⟩ := h.entry j f hj
    exact ⟨b, ent, hb, hent, hslot.congr (hsame b (List.mem_of_getElem? hb))⟩
  · intro r b e hb he hcount
    rw [hsame b (List.mem_of_getElem? hb)]
    exact h.spare r b e hb he hcount

theorem roots_injective (hnodup : roots.Nodup) {i j : Nat} (hi : roots[i]? = some b)
    (hj : roots[j]? = some b) : i = j := by
  obtain ⟨hlt, -⟩ := List.getElem?_eq_some_iff.mp hi
  exact (List.getElem?_inj hlt hnodup).mp (hi.trans hj.symm)

theorem Listed.append {ent : Bytearray} (h : Listed D roots files) (hnodup : roots.Nodup)
    (hb : roots[files.length / 16]? = some b)
    (hent : EntryImage (files.length + 1) entryFile f.1 ent) :
    Listed (putAt D b (256 * (files.length % 16)) 256 (bytesOf ent)) roots (files ++ [f]) := by
  constructor
  · intro j g hj
    rcases snoc_cases hj with ⟨hlt, hj⟩ | ⟨rfl, rfl⟩
    · obtain ⟨c, ent', hc, hent', hslot⟩ := h.entry j g hj
      refine ⟨c, ent', hc, hent', hslot.put ?_⟩
      by_cases hsame : c = b
      · subst hsame
        have hrow := roots_injective hnodup hc hb
        exact .inr (by omega)
      · exact .inl hsame
    · exact ⟨b, ent, hb, hent, slotAt_put⟩
  · intro r c e hc he hcount
    rw [List.length_append, List.length_singleton] at hcount
    have hother : c ≠ b ∨ e ≠ files.length % 16 := by
      by_cases hsame : c = b
      · subst hsame
        have hrow := roots_injective hnodup hc hb
        exact .inr (by omega)
      · exact .inl hsame
    rw [slot_other (by omega) hother]
    exact h.spare r c e hc he (by omega)

theorem Listed.grow (h : Listed D roots files) (hblank : ∀ i < 4096, D b i = 0) :
    Listed D (roots ++ [b]) files := by
  constructor
  · intro j f hj
    obtain ⟨c, ent, hc, hent, hslot⟩ := h.entry j f hj
    obtain ⟨hlt, -⟩ := List.getElem?_eq_some_iff.mp hc
    exact ⟨c, ent, (List.getElem?_append_left hlt).trans hc, hent, hslot⟩
  · intro r c e hc he hcount
    rcases snoc_cases hc with ⟨-, hc⟩ | ⟨-, rfl⟩
    · exact h.spare r c e hc he hcount
    · exact hblank _ (by omega)

theorem Listed.append_block {ent : Bytearray} (h : Listed D roots files)
    (hfull : files.length = 16 * roots.length) (hnodup : (roots ++ [b]).Nodup)
    (hblank : ∀ i < 4096, D b i = 0)
    (hent : EntryImage (files.length + 1) entryFile f.1 ent) :
    Listed (putAt D b (256 * 0) 256 (bytesOf ent)) (roots ++ [b]) (files ++ [f]) := by
  have hnew : (roots ++ [b])[files.length / 16]? = some b := by
    rw [List.getElem?_append_right (by omega),
      show files.length / 16 - roots.length = 0 by omega]
    rfl
  have hentry := (h.grow hblank).append hnodup hnew hent
  rwa [show files.length % 16 = 0 by omega] at hentry

theorem Listed.taken (h : Listed D roots files) (himage : Images vol room s.image D)
    (hinside : ∀ b ∈ roots, b < vol.totalBlocks) {r e target type : Nat} {name : Bytearray}
    (hb : roots[r]? = some b) (he : e < 16) (hused : 16 * r + e < files.length) :
    vol.insertSlot name target type s b e = .ok none := by
  obtain ⟨c, ent, hc, hent, hslot⟩ := h.entry (16 * r + e) files[16 * r + e]
    (List.getElem?_eq_getElem hused)
  rw [show (16 * r + e) / 16 = r by omega, hb, Option.some.injEq] at hc
  subst hc
  have htype := hslot 4 (by omega)
  rw [show (16 * r + e) % 16 = e by omega, hent.type] at htype
  have hread : getByte s.image (vol.blockOff b + e * 0x100 + 4) = .ok 1 := by
    rw [show vol.blockOff b + e * 0x100 + 4 = vol.blockOff b + (256 * e + 4) by omega,
      getByte_image himage (hinside b (List.mem_of_getElem? hb)) (by omega), htype]
    rfl
  refine bind_ok.mpr ⟨_, hread, ?_⟩
  rw [if_neg (by decide)]

theorem writeCatalogEntry_returns (target : Nat) (himage : Images vol room s.image D)
    (hb : b < vol.totalBlocks) {e : Nat} {name : Bytearray} (he : e < 16)
    (hname : name.length ≤ 178) :
    ∃ s' ent, writeCatalogEntry (vol.blockOff b) e target entryFile name s = .ok s' ∧
      EntryImage target entryFile name ent ∧ s'.rootBlocks = s.rootBlocks ∧
      Images vol room s'.image (putAt D b (256 * e) 256 (bytesOf ent)) := by
  obtain ⟨ent, hent⟩ := entryBytes_total target entryFile name (by decide) (by omega)
  have hok := entryBytes_ok hent (by omega)
  have hwrite := write_image (v := ent) (i := 256 * e) himage hb (by rw [hok.length]; omega)
  rw [hok.length] at hwrite
  refine ⟨_, ent, bind_ok.mpr ⟨ent, hent, rfl⟩, hok, rfl, ?_⟩
  dsimp only
  rw [show vol.blockOff b + e * 0x100 = vol.blockOff b + 256 * e by omega]
  exact hwrite

theorem Listed.free (h : Listed D roots files) (target : Nat) (himage : Images vol room s.image D)
    (hinside : ∀ b ∈ roots, b < vol.totalBlocks) {r e : Nat} {name : Bytearray}
    (hb : roots[r]? = some b) (he : e < 16) (hspare : files.length ≤ 16 * r + e)
    (hname : name.length ≤ 178) :
    ∃ s' ent, vol.insertSlot name target entryFile s b e = .ok (some s') ∧
      EntryImage target entryFile name ent ∧ s'.rootBlocks = s.rootBlocks ∧
      Images vol room s'.image (putAt D b (256 * e) 256 (bytesOf ent)) := by
  have hlt := hinside b (List.mem_of_getElem? hb)
  obtain ⟨s', ent, hs', hpost⟩ := writeCatalogEntry_returns target himage hlt he hname
  have hread : getByte s.image (vol.blockOff b + e * 0x100 + 4) = .ok 0 := by
    rw [show vol.blockOff b + e * 0x100 + 4 = vol.blockOff b + (256 * e + 4) by omega,
      getByte_image himage hlt (by omega), h.spare r b e hb he hspare]
  refine ⟨s', ent, bind_ok.mpr ⟨_, hread, ?_⟩, hpost⟩
  rw [if_pos (.inl rfl)]
  exact bind_ok.mpr ⟨s', hs', rfl⟩

theorem Listed.skip (h : Listed D roots files) (rest : List Nat) (target type : Nat)
    (name : Bytearray) (himage : Images vol room s.image D)
    (hinside : ∀ b ∈ roots, b < vol.totalBlocks) {n : Nat} (hn : 16 * n ≤ files.length) :
    firstSome (fun bnum => firstSome (vol.insertSlot name target type s bnum)
        (List.range entriesPerBlock)) (roots.take n ++ rest) =
      firstSome (fun bnum => firstSome (vol.insertSlot name target type s bnum)
        (List.range entriesPerBlock)) rest := by
  apply firstSome_skip
  intro c hc
  obtain ⟨r, hr⟩ := List.getElem?_of_mem hc
  obtain ⟨hlt, -⟩ := List.getElem?_eq_some_iff.mp hr
  rw [List.length_take] at hlt
  rw [List.getElem?_take_of_lt (by omega)] at hr
  apply firstSome_none
  intro e he
  rw [List.mem_range, show entriesPerBlock = 16 from rfl] at he
  exact h.taken himage hinside hr he (by omega)

end Catalog

structure VolumeAt (vol : Volume) (D : Store) (k : Nat) (roots : List Nat) (files : FileList) :
    Prop where
  fresh : Fresh vol D k
  catalog : RootsAt vol k roots files.length
  stored : Stored vol D k roots files
  listed : Listed D roots files
  root : InodeAt vol D 0 (rootFields roots)

def Formatted (vol : Volume) (room : Nat) (s : VolumeState) (k : Nat) (files : FileList) : Prop :=
  ∃ D, Images vol room s.image D ∧ VolumeAt vol D k s.rootBlocks files

def grows (count : Nat) : Nat := if count = 16 * rootBlocksFor count then 1 else 0

section Insert
variable {vol : Volume} {D : Store} {k room : Nat} {files : FileList} {name data : Bytearray}
variable {s : VolumeState}

/-- What `catalog_insert` starts from: a volume whose last file has no entry yet. -/
structure Pending (vol : Volume) (D : Store) (k : Nat) (roots : List Nat) (files : FileList)
    (name data : Bytearray) : Prop where
  fresh : Fresh vol D k
  catalog : RootsAt vol k roots files.length
  stored : Stored vol D k roots (files ++ [(name, data)])
  listed : Listed D roots files
  root : InodeAt vol D 0 (rootFields roots)

/-- The volume with a new catalog block that holds the entry of the last file. -/
theorem Pending.opened {D' : Store} {roots : List Nat} {ent ino : Bytearray}
    (h : Pending vol D k roots files name data) (hfull : files.length = 16 * roots.length)
    (hfew : roots.length < 56) (hfresh : Fresh vol D' (k + 1)) (hkept : ∀ k', Kept vol k' D D')
    (hk : k < vol.dataBlocks) (hent : EntryImage (files.length + 1) entryFile name ent)
    (hino : InodeImage (rootFields (roots ++ [vol.dataRegionStart + k])) ino) :
    VolumeAt vol (putAt (putAt D' (vol.dataRegionStart + k) (256 * 0) 256 (bytesOf ent))
      (vol.inodeTableStart + 0 / 16) (256 * (0 % 16)) 256 (bytesOf ino)) (k + 1)
      (roots ++ [vol.dataRegionStart + k]) (files ++ [(name, data)]) := by
  have htable := vol.inodeTableStart_eq
  have hstart := vol.dataRegionStart_eq
  obtain ⟨hregion, -, -⟩ := vol.geometry h.fresh.total
  have hcatalog : RootsAt vol (k + 1) (roots ++ [vol.dataRegionStart + k])
      (files ++ [(name, data)]).length := by
    rw [List.length_append, List.length_singleton]
    exact h.catalog.grow hfull hfew
  have hcount : (files ++ [(name, data)]).length < 4095 := hcatalog.count_lt
  have hblank : ∀ i < 4096, D' (vol.dataRegionStart + k) i = 0 := by
    intro i hi
    rw [hkept (k + 1) _ (by omega) (by omega)]
    exact h.fresh.blank _ (Nat.le_refl _) (by omega) i hi
  have hlisted : Listed (putAt D' (vol.dataRegionStart + k) (256 * 0) 256 (bytesOf ent))
      (roots ++ [vol.dataRegionStart + k]) (files ++ [(name, data)]) := by
    have hbefore : Listed D' roots files := by
      apply h.listed.congr
      intro c hc
      have hin := h.catalog.inside c hc
      exact hkept (k + 1) c (by omega) (by omega)
    exact hbefore.append_block hfull hcatalog.nodup hblank hent
  have hstored := (h.stored.congr (hkept k) (Nat.le_refl k) hcount).open_block hcount
    (256 * 0) 256 (bytesOf ent)
  refine ⟨?_, hcatalog, hstored.put_rootInode, ?_, ino, hino, slotAt_put⟩
  · exact (hfresh.put (.inr (by omega)) (by omega)).put (.inr (by omega)) (by omega)
  · apply hlisted.congr
    intro c hc
    have hin := hcatalog.inside c hc
    exact putAt_block (by omega)

variable (h : Pending vol D k s.rootBlocks files name data)
include h

theorem Pending.roots_inside : ∀ b ∈ s.rootBlocks, b < vol.totalBlocks := by
  intro b hb
  obtain ⟨hregion, -, -⟩ := vol.geometry h.fresh.total
  have hleft := h.fresh.left
  have hin := (h.catalog.inside b hb).2
  omega

theorem Pending.insert_slot (himage : Images vol room s.image D)
    (hspare : files.length < 16 * s.rootBlocks.length) (hname : name.length ≤ 178) :
    ∃ s', vol.catalogInsert name (files.length + 1) entryFile s = .ok s' ∧
      Formatted vol room s' k (files ++ [(name, data)]) := by
  have hcount := h.catalog.count_lt
  have hrow : files.length / 16 < s.rootBlocks.length := by omega
  have hb := List.getElem?_eq_getElem hrow
  generalize s.rootBlocks[files.length / 16] = b at hb
  have hmem := List.mem_of_getElem? hb
  obtain ⟨hlo, hhi⟩ := h.catalog.inside b hmem
  obtain ⟨s', ent, hs', hent, hsame, himage'⟩ := h.listed.free (r := files.length / 16)
    (files.length + 1) himage h.roots_inside hb (Nat.mod_lt files.length (by omega)) (by omega)
    hname
  have htable := vol.inodeTableStart_eq
  have hstart := vol.dataRegionStart_eq
  have hsplit : s.rootBlocks = s.rootBlocks.take (files.length / 16) ++
      b :: s.rootBlocks.drop (files.length / 16 + 1) := by
    rw [List.getElem?_eq_some_iff] at hb
    obtain ⟨_, rfl⟩ := hb
    rw [← List.drop_eq_getElem_cons hrow, List.take_append_drop]
  have hrowFound : firstSome (vol.insertSlot name (files.length + 1) entryFile s b)
      (List.range entriesPerBlock) = .ok (some s') := by
    rw [firstSome_range (k := files.length % 16) (by
      rw [show entriesPerBlock = 16 from rfl]
      omega)]
    · exact firstSome_found hs'
    · intro e he
      exact h.listed.taken himage h.roots_inside hb (by omega) (by omega)
  have hfound : firstSome (fun bnum => firstSome
      (vol.insertSlot name (files.length + 1) entryFile s bnum) (List.range entriesPerBlock))
      s.rootBlocks = .ok (some s') := by
    rw [hsplit, h.listed.skip _ _ _ _ himage h.roots_inside (by omega)]
    exact firstSome_found hrowFound
  refine ⟨s', bind_ok.mpr ⟨_, hfound, rfl⟩, _, himage', ?_⟩
  rw [hsame]
  refine ⟨h.fresh.put (.inr (by omega)) hhi, ?_, ?_, ?_, ?_⟩
  · refine ⟨h.catalog.inside, h.catalog.nodup, ?_, h.catalog.few⟩
    have hlength := h.catalog.length
    rw [rootBlocksFor] at hlength ⊢
    rw [List.length_append, List.length_singleton]
    omega
  · apply h.stored.put_root hmem hlo
    rw [List.length_append, List.length_singleton]
    have hlength := h.catalog.length
    have hfew := h.catalog.few
    rw [rootBlocksFor] at hlength
    omega
  · exact h.listed.append h.catalog.nodup hb hent
  · exact h.root.congr (putAt_block (by omega))

theorem Pending.no_slot (himage : Images vol room s.image D)
    (hfull : files.length = 16 * s.rootBlocks.length) (target : Nat) :
    firstSome (fun bnum => firstSome (vol.insertSlot name target entryFile s bnum)
      (List.range entriesPerBlock)) s.rootBlocks = .ok none := by
  have hskip := h.listed.skip [] target entryFile name himage h.roots_inside hfull.ge
  rwa [List.take_length, List.append_nil] at hskip

theorem Pending.insert_block (himage : Images vol room s.image D)
    (hfull : files.length = 16 * s.rootBlocks.length) (hname : name.length ≤ 178) :
    ReturnsIff (k < vol.dataBlocks ∧ s.rootBlocks.length < 56)
      (vol.catalogInsert name (files.length + 1) entryFile s)
      fun s' => Formatted vol room s' (k + 1) (files ++ [(name, data)]) := by
  obtain ⟨hregion, -, -⟩ := vol.geometry h.fresh.total
  refine ReturnsIff.after (h.no_slot himage hfull _)
    (ReturnsIff.bind (h.fresh.allocBlock himage) ?_)
  rintro ⟨b, t⟩ hk ⟨hblock, hroots, himage₁, hfresh₁, hkept₁⟩
  dsimp only at hblock hroots himage₁
  subst hblock
  obtain ⟨u, ent, hu, hent, hsame, himage₂⟩ := writeCatalogEntry_returns
    (s := { t with rootBlocks := t.rootBlocks ++ [vol.dataRegionStart + k] })
    (files.length + 1) himage₁
    (show vol.dataRegionStart + k < vol.totalBlocks by omega) (show 0 < 16 by omega) hname
  have hgrown : u.rootBlocks = s.rootBlocks ++ [vol.dataRegionStart + k] := by
    rw [hsame, ← hroots]
  have hlength : u.rootBlocks.length = s.rootBlocks.length + 1 := by
    rw [hgrown, List.length_append, List.length_singleton]
  refine ReturnsIff.after hu ((writeRootInode_returnsIff himage₂ h.fresh.total).conseq ?_ ?_)
  · omega
  · rintro s' hfew ⟨hsame', ino, hino, himage'⟩
    rw [hgrown] at hsame' hino
    refine ⟨_, himage', ?_⟩
    rw [hsame']
    exact h.opened hfull (by omega) hfresh₁ hkept₁ hk hent hino

end Insert

end ModularBootloader.Mkfs.Volume
