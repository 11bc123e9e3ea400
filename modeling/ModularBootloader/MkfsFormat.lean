import ModularBootloader.MkfsVolume

/-!
# Formatting a volume

When `format_owfs` returns on a blank image, and the volume it leaves.
-/

namespace ModularBootloader.Mkfs
open ByteStore SliceAssign RaisingLoop BlockStore

namespace Volume

def fileCost (count : Nat) (data : Bytearray) : Nat := takenBlocks (blocksOf data) + grows count

section AddFile
variable {vol : Volume} {D : Store} {k room : Nat} {files : FileList} {name data : Bytearray}
variable {s : VolumeState}

theorem Pending.insert (h : Pending vol D k s.rootBlocks files name data)
    (himage : Images vol room s.image D) (hname : name.length ≤ 178) :
    ReturnsIff (k + grows files.length ≤ vol.dataBlocks ∧ rootBlocksFor (files.length + 1) ≤ 56)
      (vol.catalogInsert name (files.length + 1) entryFile s)
      fun s' => Formatted vol room s' (k + grows files.length) (files ++ [(name, data)]) := by
  have hlength := h.catalog.length
  have hfew := h.catalog.few
  have hleft := h.fresh.left
  by_cases hfull : files.length = 16 * s.rootBlocks.length
  · have hgrows : grows files.length = 1 := if_pos (by omega)
    rw [hgrows]
    refine (h.insert_block himage hfull hname).conseq ?_ fun _ _ hpost => hpost
    rw [rootBlocksFor] at hlength ⊢
    omega
  · have hgrows : grows files.length = 0 := if_neg (by omega)
    rw [hgrows]
    have hspare : files.length < 16 * s.rootBlocks.length := by
      rw [rootBlocksFor] at hlength
      omega
    obtain ⟨s', hs', hpost⟩ := h.insert_slot himage hspare hname
    rw [hs']
    refine (ReturnsIff.ok (P := fun s' => Formatted vol room s' (k + 0) _) hpost).conseq ?_
      fun _ _ hpost => hpost
    rw [rootBlocksFor] at hlength ⊢
    constructor
    · intro _
      omega
    · intro _
      trivial

theorem addBlocks_returnsIff (himage : Images vol room s.image D) (hfresh : Fresh vol D k)
    (hroom : padOf data ≤ room) :
    ReturnsIff (k + takenBlocks (blocksOf data) ≤ vol.dataBlocks)
      (pass (vol.addBlock data) (blocksOf data) ⟨s, [], 0⟩)
      (BlocksAdded vol room k D data s (blocksOf data)) := by
  have hblocks := blocksOf_eq data
  have hleft := hfresh.left
  have hpass := ReturnsIff.pass (n := blocksOf data)
    (c := fun i => k + takenBlocks (i + 1) ≤ vol.dataBlocks)
    (blocksAdded_start data himage hfresh)
    fun i hi st hst => addBlock_returnsIff hroom (by omega) hst
  refine hpass.conseq ?_ fun _ _ h => h
  constructor
  · intro hall
    cases hn : blocksOf data with
    | zero => exact hleft
    | succ n => exact hall n (by omega)
  · intro h i hi
    rw [takenBlocks] at h ⊢
    split_ifs at h ⊢ <;> omega

theorem Formatted.addFile (h : Formatted vol room s k files) (data : Bytearray)
    (hroom : padOf data ≤ room)
    (hname : name.length ≤ 178) :
    ReturnsIff (k + fileCost files.length data ≤ vol.dataBlocks ∧ blocksOf data ≤ 1034 ∧
        rootBlocksFor (files.length + 1) ≤ 56) (vol.addFile name data s)
      fun r => Formatted vol (room - padOf data) r.2 (k + fileCost files.length data)
        (files ++ [(name, data)]) := by
  obtain ⟨D, himage, hvol⟩ := h
  have hcount := hvol.catalog.count_lt
  have htotal := hvol.fresh.total
  have hinode := hvol.stored.allocInode himage htotal hcount hvol.root rfl
  have hadd : ReturnsIff (k + takenBlocks (blocksOf data) ≤ vol.dataBlocks ∧
      blocksOf data ≤ 1034 ∧ True ∧
      (k + takenBlocks (blocksOf data) + grows files.length ≤ vol.dataBlocks ∧
        rootBlocksFor (files.length + 1) ≤ 56) ∧ True) (vol.addFile name data s)
      fun r => Formatted vol (room - padOf data) r.2 (k + fileCost files.length data)
        (files ++ [(name, data)]) := by
    refine ReturnsIff.after hinode (ReturnsIff.bind (addBlocks_returnsIff
      (s := { s with freeInodes := s.freeInodes - 1 }) himage hvol.fresh hroom) ?_)
    intro st _ hst
    refine ReturnsIff.bind (writeIndirect_returnsIff hst) ?_
    rintro ⟨direct, t⟩ _ ⟨hdirect, hroots, D₁, himage₁, hfresh₁, hkept, hblocks⟩
    dsimp only at hdirect hroots himage₁
    rw [hst.indirect, hdirect]
    have hten : ((vol.directOf k (blocksOf data)).take 10).length ≤ 56 :=
      (List.length_take_le 10 _).trans (by omega)
    refine ReturnsIff.bind ((writeInode_returnsIff (files.length + 1) _ himage₁ htotal
      (by omega) (show 1 ≤ 255 by omega) (show name.length ≤ 255 by omega) hname).conseq
      (iff_true_intro hten) fun _ _ hpost => hpost) ?_
    rintro u _ ⟨hsame, ino, hino, himage₂⟩
    have hpending : Pending vol (putAt D₁ (vol.inodeTableStart + (files.length + 1) / 16)
        (256 * ((files.length + 1) % 16)) 256 (bytesOf ino))
        (k + takenBlocks (blocksOf data)) u.rootBlocks files name data := by
      have htable := (inodeTable_inside htotal (show files.length + 1 < 4096 by omega)).1
      rw [hsame, hroots]
      refine ⟨hfresh₁.put (.inr (by omega)) (by omega), ?_, ?_, ?_, ?_⟩
      · refine ⟨?_, hvol.catalog.nodup, hvol.catalog.length, hvol.catalog.few⟩
        intro b hb
        have hin := hvol.catalog.inside b hb
        omega
      · exact (hvol.stored.congr hkept (by omega) hcount).append hcount (Nat.le_refl _)
          (fun b hb => (hvol.catalog.inside b hb).2) hblocks hino
      · apply hvol.listed.congr
        intro b hb
        have hin := hvol.catalog.inside b hb
        rw [putAt_block (by omega)]
        exact hkept b (by omega) (by omega)
      · exact (hvol.root.congr (hkept _ (by omega) (by omega))).put (Nat.succ_ne_zero _).symm
    refine ReturnsIff.bind (hpending.insert himage₂ hname) ?_
    intro w _ hw
    refine ReturnsIff.ok ?_
    rw [fileCost, ← Nat.add_assoc]
    exact hw
  refine hadd.conseq ?_ fun _ _ hpost => hpost
  rw [fileCost]
  constructor
  · rintro ⟨_, hcap, _, ⟨hleft, hfew⟩, _⟩
    exact ⟨by omega, hcap, hfew⟩
  · rintro ⟨hleft, hcap, hfew⟩
    exact ⟨by omega, hcap, trivial, ⟨by omega, hfew⟩, trivial⟩

end AddFile

def costFrom (count : Nat) : FileList → Nat
  | [] => 0
  | f :: rest => fileCost count f.2 + costFrom (count + 1) rest

theorem rootBlocksFor_le {count : Nat} : rootBlocksFor count ≤ 56 ↔ count ≤ 896 := by
  rw [rootBlocksFor]
  omega

theorem Formatted.addFiles {vol : Volume} {k room : Nat} {done files : FileList} {s : VolumeState}
    (h : Formatted vol room s k done) (hroom : padSum files ≤ room)
    (hnames : ∀ f ∈ files, f.1.length ≤ 178) :
    ReturnsIff (k + costFrom done.length files ≤ vol.dataBlocks ∧
        (∀ f ∈ files, blocksOf f.2 ≤ 1034) ∧ rootBlocksFor (done.length + files.length) ≤ 56)
      (Mkfs.addFiles vol files s)
      fun s' => Formatted vol (room - padSum files) s' (k + costFrom done.length files)
        (done ++ files) := by
  induction files generalizing done k room s with
  | nil =>
    obtain ⟨D, himage, hvol⟩ := h
    have hlength := hvol.catalog.length
    have hfew := hvol.catalog.few
    rw [List.append_nil]
    refine (ReturnsIff.ok (P := fun s' => Formatted vol room s' k done) ⟨D, himage, hvol⟩).conseq
      ?_ fun _ _ hpost => hpost
    constructor
    · intro _
      exact ⟨hvol.fresh.left, fun f hf => absurd hf List.not_mem_nil, hlength ▸ hfew⟩
    · intro _
      trivial
  | cons f rest ih =>
    have hsum : padSum (f :: rest) = padOf f.2 + padSum rest := List.sum_cons
    have hcost : costFrom done.length (f :: rest) =
        fileCost done.length f.2 + costFrom (done.length + 1) rest := rfl
    have hlen : (done ++ [f]).length = done.length + 1 := List.length_append
    have hfile := h.addFile f.2 (by omega) (hnames f List.mem_cons_self)
    have hall : ReturnsIff ((k + fileCost done.length f.2 ≤ vol.dataBlocks ∧
          blocksOf f.2 ≤ 1034 ∧ rootBlocksFor (done.length + 1) ≤ 56) ∧
        k + fileCost done.length f.2 + costFrom (done.length + 1) rest ≤ vol.dataBlocks ∧
          (∀ g ∈ rest, blocksOf g.2 ≤ 1034) ∧
          rootBlocksFor (done.length + 1 + rest.length) ≤ 56) (Mkfs.addFiles vol (f :: rest) s)
        fun s' => Formatted vol (room - padSum (f :: rest)) s'
          (k + costFrom done.length (f :: rest)) (done ++ f :: rest) := by
      refine ReturnsIff.bind hfile ?_
      intro r _ hr
      have hrest := ih hr (by omega) fun g hg => hnames g (List.mem_cons_of_mem f hg)
      rw [hsum, hcost, ← Nat.sub_sub, ← Nat.add_assoc, List.append_cons]
      rw [hlen] at hrest
      exact hrest
    refine hall.conseq ?_ fun _ _ hpost => hpost
    rw [hcost, List.length_cons, rootBlocksFor_le, rootBlocksFor_le, rootBlocksFor_le]
    constructor
    · rintro ⟨⟨_, hcap, _⟩, hleft, hcaps, hfew⟩
      refine ⟨by omega, ?_, by omega⟩
      intro g hg
      rcases List.mem_cons.mp hg with rfl | hg
      · exact hcap
      · exact hcaps g hg
    · rintro ⟨hleft, hcaps, hfew⟩
      exact ⟨⟨by omega, hcaps f List.mem_cons_self, by omega⟩, by omega,
        fun g hg => hcaps g (List.mem_cons_of_mem f hg), by omega⟩

def SuperblockAt (vol : Volume) (D : Store) : Prop :=
  ∃ sb, SuperblockImage vol sb ∧ ∀ i < 4096, D superBlock i = bytesOf sb i

theorem writeSuperblock_returns {vol : Volume} {D : Store} {k room : Nat} {files : FileList}
    {s : VolumeState} (himage : Images vol room s.image D)
    (hvol : VolumeAt vol D k s.rootBlocks files) :
    ∃ s' D', vol.writeSuperblock s = .ok s' ∧ s'.rootBlocks = s.rootBlocks ∧
      Images vol room s'.image D' ∧ VolumeAt vol D' k s'.rootBlocks files ∧
      SuperblockAt vol D' := by
  have htotal := hvol.fresh.total
  have hstart := vol.dataRegionStart_eq
  have htable := vol.inodeTableStart_eq
  have hsuper : superBlock = 16 := rfl
  obtain ⟨sb, hsb⟩ := superblockBytes_total vol s
  have hok := superblockBytes_ok hsb
  have hwrite := write_image (v := sb) (b := superBlock) (i := 0) himage (by omega)
    (by rw [hok.length])
  rw [hok.length] at hwrite
  have hkept : Kept vol k D (putAt D superBlock 0 4096 (bytesOf sb)) := by
    intro b hlo _
    exact putAt_block (by omega)
  refine ⟨_, _, bind_ok.mpr ⟨sb, hsb, rfl⟩, rfl, hwrite, ⟨?_, hvol.catalog, ?_, ?_, ?_⟩, sb, hok,
    fun i hi => putAt_whole hi⟩
  · exact hvol.fresh.put (.inl (by omega)) (by omega)
  · exact hvol.stored.congr hkept (Nat.le_refl k) hvol.catalog.count_lt
  · apply hvol.listed.congr
    intro b hb
    have hin := hvol.catalog.inside b hb
    exact hkept b (by omega) hin.2
  · exact hvol.root.congr (hkept _ (by omega) (by omega))

theorem fresh_blank {vol : Volume} (htotal : 275 ≤ vol.totalBlocks) :
    Fresh vol (fun _ _ => 0) 0 := by
  refine ⟨htotal, Nat.zero_le _, ?_, fun _ _ _ _ _ => rfl⟩
  intro j _
  rw [filled_low (by omega), Nat.zero_sub]
  rfl

theorem formatted_start {vol : Volume} {room : Nat} {image : Bytearray}
    (himage : Images vol room image fun _ _ => 0) (htotal : 275 ≤ vol.totalBlocks) :
    ∃ r s, vol.allocBlock (vol.init image) = .ok r ∧
      vol.writeRootInode { r.2 with rootBlocks := r.2.rootBlocks ++ [r.1] } = .ok s ∧
      Formatted vol room s 1 [] := by
  have hstart := vol.dataRegionStart_eq
  have htable := vol.inodeTableStart_eq
  obtain ⟨hregion, hpos, -⟩ := vol.geometry htotal
  obtain ⟨⟨b, t⟩, halloc, hblock, hroots, himage₁, hfresh₁, hkept⟩ :=
    ((fresh_blank htotal).allocBlock (s := vol.init image) himage).found hpos
  dsimp only at hblock hroots himage₁
  have hone : t.rootBlocks ++ [b] = [vol.dataRegionStart] := by
    rw [hroots, hblock]
    rfl
  obtain ⟨s, hs, hsame, ino, hino, himage₂⟩ := (writeRootInode_returnsIff
    (s := { t with rootBlocks := t.rootBlocks ++ [b] }) himage₁ htotal).found (by
      dsimp only
      rw [hone]
      exact show 1 ≤ 56 by omega)
  dsimp only at hsame hino
  rw [hone] at hsame hino
  have hzero : ∀ c i, vol.inodeTableStart ≤ c → c < vol.dataRegionStart + 1 →
      marked (fun _ _ => 0) 0 c i = (0 : UInt8) := by
    intro c i hlo hhi
    rw [hkept 1 c hlo hhi]
  refine ⟨(b, t), s, halloc, hs, _, himage₂, ?_⟩
  rw [hsame]
  refine ⟨hfresh₁.put (.inr (by omega)) (by omega), ?_, ?_, ?_, ino, hino, slotAt_put⟩
  · refine ⟨?_, List.nodup_singleton _, rfl, show 1 ≤ 56 by omega⟩
    intro c hc
    obtain rfl := List.mem_singleton.mp hc
    omega
  · constructor
    · intro j f hj
      cases hj
    · intro num hlo hhi
      rw [List.length_nil] at hlo
      rw [slot_other (by omega) (by omega)]
      exact hzero _ _ (by omega) (by omega)
  · constructor
    · intro j f hj
      cases hj
    · intro r c e hc _ _
      have hmem := List.mem_of_getElem? hc
      obtain rfl := List.mem_singleton.mp hmem
      rw [putAt_block (by omega)]
      exact hzero _ _ (by omega) (by omega)

end Volume

section Format
variable {image : Bytearray} {totalBlocks blockStart room : Nat} {label : String}
variable {files : FileList}

structure OnImage (vol : Volume) (room : Nat) (files : FileList) (allocSuper : Bool)
    (s : VolumeState) (D : Volume.Store) : Prop where
  image : Volume.Images vol (room - Volume.padSum files) s.image D
  volume : Volume.VolumeAt vol D (1 + Volume.costFrom 0 files) s.rootBlocks files
  super : allocSuper = true → Volume.SuperblockAt vol D

/-- `format_owfs` returns on a blank image exactly if the files fit. -/
theorem formatOwfs_returnsIff (allocSuper : Bool)
    (himage : Volume.Images ⟨totalBlocks, blockStart, label⟩ room image fun _ _ => 0)
    (hroom : Volume.padSum files ≤ room) (hnames : ∀ f ∈ files, f.1.length ≤ 178) :
    ReturnsIff (275 ≤ totalBlocks ∧
        1 + Volume.costFrom 0 files ≤ (Volume.mk totalBlocks blockStart label).dataBlocks ∧
        (∀ f ∈ files, Volume.blocksOf f.2 ≤ 1034) ∧ files.length ≤ 896)
      (formatOwfs image totalBlocks label files allocSuper blockStart)
      fun s => ∃ D, OnImage ⟨totalBlocks, blockStart, label⟩ room files allocSuper s D := by
  have hmin : superBlock + 1 + 1 + inodeTableBlocks + 1 = 275 := rfl
  rw [formatOwfs, hmin]
  by_cases hsmall : totalBlocks < 275
  · rw [if_pos hsmall]
    constructor
    · intro h
      omega
    · intro s hs
      cases hs
  rw [if_neg hsmall]
  obtain ⟨⟨b, t⟩, s₀, halloc, hroot, hstart⟩ := Volume.formatted_start himage (not_lt.mp hsmall)
  have hfiles := hstart.addFiles hroom hnames
  dsimp only at hroot ⊢
  apply ReturnsIff.after halloc
  apply ReturnsIff.after hroot
  refine (hfiles.bind (d := True) ?_).conseq ?_ fun _ _ hpost => hpost
  · rintro s _ ⟨D, himage', hvol⟩
    split_ifs with hwrite
    · obtain ⟨s', D', hs', hsame, himage'', hvol', hsuper⟩ :=
        Volume.writeSuperblock_returns himage' hvol
      rw [hs']
      exact ReturnsIff.ok ⟨D', himage'', hvol', fun _ => hsuper⟩
    · exact ReturnsIff.ok ⟨D, himage', hvol, fun h => absurd h hwrite⟩
  · rw [List.length_nil, Volume.rootBlocksFor, Nat.zero_add]
    constructor
    · rintro ⟨⟨hleft, hcaps, hfew⟩, _⟩
      exact ⟨by omega, hleft, hcaps, by omega⟩
    · rintro ⟨_, hleft, hcaps, hfew⟩
      exact ⟨⟨hleft, hcaps, by omega⟩, trivial⟩

end Format

end ModularBootloader.Mkfs
