import ModularBootloader.Gpt
import ModularBootloader.EspImage
import ModularBootloader.Lib.Gpt

/-!
# Reading the partition table back

What the statements leave in the table and in the two headers, and what a reader
that knows nothing of them finds on the finished disk, damaged or not.
-/

namespace ModularBootloader.GptWriter
open ByteStore Mkfs SliceAssign SliceWrites Esp

def Statement.write : Statement → Write UInt8
  | .slice lo _ value => ⟨lo, value⟩
  | .text off value => ⟨off, value⟩
  | .word off val => ⟨off, leBytes 4 val⟩
  | .quad off val => ⟨off, leBytes 8 val⟩

def Statement.Fits (n : Nat) : Statement → Prop
  | .slice lo hi value => hi = lo + value.length ∧ hi ≤ n
  | .text off value => off + value.length ≤ n
  | .word off val => val < 2 ^ 32 ∧ off + 4 ≤ n
  | .quad off val => val < 2 ^ 64 ∧ off + 8 ≤ n

instance (n : Nat) (s : Statement) : Decidable (s.Fits n) := by
  cases s <;> unfold Statement.Fits <;> infer_instance

def contents (statements : List Statement) : Bytes :=
  fun a => (written (statements.map Statement.write) a).getD 0

structure Packed (statements : List Statement) (n : Nat) (buf : Bytearray) : Prop where
  run : runAll statements (zeros n) = .ok buf
  length : buf.length = n
  bytes : bytesOf buf = contents statements

section Statements
variable {s : Statement} {statements : List Statement} {buf : Bytearray} {n a : Nat}

theorem Statement.stop_le (h : s.Fits n) : s.write.stop ≤ n := by
  cases s with
  | slice lo hi value => exact h.1 ▸ h.2
  | text off value => exact h
  | word off val => exact h.2
  | quad off val => exact h.2

theorem Statement.exec_fits (h : s.Fits buf.length) : s.exec buf = .ok (s.write.apply buf) := by
  cases s with
  | slice lo hi value =>
    obtain ⟨rfl, -⟩ := h
    rfl
  | text off value => exact if_pos h
  | word off val =>
    obtain ⟨hval, hoff⟩ := h
    rw [exec, packWord, if_pos hval, packInto, if_pos (by rwa [leBytes_length])]
    rfl
  | quad off val =>
    obtain ⟨hval, hoff⟩ := h
    rw [exec, packQuad, if_pos hval, packInto, if_pos (by rwa [leBytes_length])]
    rfl

theorem runAll_zeros (h : ∀ s ∈ statements, s.Fits n) : ∃ buf, Packed statements n buf := by
  have hzeros : (zeros n).length = n := List.length_replicate
  have hstop : ∀ s ∈ statements, s.write.stop ≤ (zeros n).length := by
    intro s hs
    rw [hzeros]
    exact Statement.stop_le (h s hs)
  have hstops : ∀ w ∈ statements.map Statement.write, w.stop ≤ (zeros n).length := by
    intro w hw
    obtain ⟨s, hs, rfl⟩ := List.mem_map.mp hw
    exact hstop s hs
  refine ⟨_, foldlM_fits hstop fun s hs buf hbuf => ?_, ?_, ?_⟩
  · apply Statement.exec_fits
    rw [hbuf, hzeros]
    exact h s hs
  · exact (applyAll_length hstops).trans hzeros
  · funext a
    rw [bytesOf, applyAll_getD hstops, contents]
    congr 1
    rw [zeros, List.getD_eq_getElem?_getD, List.getElem?_replicate]
    split_ifs <;> rfl

theorem contents_field (happart : (statements.map Statement.write).Pairwise Apart)
    (hs : s ∈ statements) {i : Nat} (hi : i < s.write.value.length) :
    contents statements (s.write.off + i) = bytesOf s.write.value i := by
  rw [contents, written_of_apart happart (List.mem_map_of_mem hs) hi, Option.getD_some, bytesOf,
    List.getD_eq_getElem?_getD, List.getElem?_eq_getElem hi, Option.getD_some]

theorem contents_outside
    (h : ∀ s ∈ statements, a < s.write.off ∨ s.write.stop ≤ a) : contents statements a = 0 := by
  rw [contents, written_none]
  · rfl
  · intro w hw
    obtain ⟨s, hs, rfl⟩ := List.mem_map.mp hw
    exact h s hs

end Statements

theorem crc32_register (data : Bytearray) (init : UInt32) :
    data.foldl (fun crc b => crc32Step^[8] (crc ^^^ b.toUInt32)) init =
      ShiftRegister.register Gpt.crcPoly init (fun i => (bytesOf data i).toUInt32) data.length := by
  induction data using List.reverseRecOn with
  | nil => rfl
  | append_singleton front b ih =>
    have hfront : ∀ i < front.length, (bytesOf front i).toUInt32 =
        (bytesOf (front ++ [b]) i).toUInt32 := by
      intro i hi
      rw [bytesOf, bytesOf, List.getD_append _ _ _ _ hi]
    have hlast : bytesOf (front ++ [b]) front.length = b := by
      simp [bytesOf]
    rw [List.foldl_append, ih, ShiftRegister.register_congr hfront, List.length_append]
    change _ = ShiftRegister.absorb _ _ (bytesOf (front ++ [b]) front.length).toUInt32
    rw [hlast]
    rfl

theorem crc32_eq (data : Bytearray) : crc32 data = Gpt.crc (bytesOf data) data.length := by
  have hones : ∀ x : UInt32, x ^^^ 0xFFFFFFFF = ~~~x := by
    intro x
    exact UInt32.xor_neg_one
  rw [crc32, crc32_register, hones]
  rfl

section Headers
variable {diskGuid : Uuid} {entriesCrc : UInt32} {myLba alternateLba entriesLba : Nat}

theorem Uuid.bytesLe_length (u : Uuid) : u.bytesLe.length = 16 := by
  simp [Uuid.bytesLe, u.tail_length]

theorem diskSectors_eq : diskSectors = 198656 := by decide

theorem headerStatements_fit (diskGuid : Uuid) (entriesCrc : UInt32) (hmy : myLba < 2 ^ 64)
    (halternate : alternateLba < 2 ^ 64) (hentries : entriesLba < 2 ^ 64) :
    ∀ s ∈ headerStatements diskGuid entriesCrc myLba alternateLba entriesLba,
      s.Fits sector := by
  have hcrc := entriesCrc.toNat_lt
  have hesp : espLba < 2 ^ 64 := by decide
  have hlast : diskSectors - 34 < 2 ^ 64 := by decide
  have htext : (ascii "EFI PART").length = 8 := by decide
  have hsector : sector = 512 := rfl
  simp [headerStatements, Statement.Fits, Uuid.bytesLe_length, htext, hcrc, hsector]
  exact ⟨hmy, halternate, hesp, hlast, hentries⟩

theorem headerStatements_apart :
    ((headerStatements diskGuid entriesCrc myLba alternateLba entriesLba).map
      Statement.write).Pairwise Apart := by
  have htext : (ascii "EFI PART").length = 8 := by decide
  simp [headerStatements, Statement.write, Apart, Write.stop, Uuid.bytesLe_length, htext]

def headerRead (diskGuid : Uuid) (entriesCrc crc : UInt32) (myLba alternateLba entriesLba : Nat) :
    Gpt.Header where
  crc := crc
  myLba := myLba
  alternateLba := alternateLba
  firstUsable := espLba
  lastUsable := diskSectors - 34
  diskGuid := diskGuid.bytesLe
  tableLba := entriesLba
  count := 128
  entrySize := 128
  tableCrc := entriesCrc

theorem header_contents (diskGuid : Uuid) (entriesCrc : UInt32) {m : Bytes} (crc : UInt32)
    (hmy : myLba < 2 ^ 64) (halternate : alternateLba < 2 ^ 64) (hentries : entriesLba < 2 ^ 64)
    (hcrc : load32 m 16 = crc)
    (h : ∀ i < 92, ¬ (16 ≤ i ∧ i < 20) →
      m i = contents (headerStatements diskGuid entriesCrc myLba alternateLba entriesLba) i) :
    Gpt.Signed m ∧
      Gpt.header m = headerRead diskGuid entriesCrc crc myLba alternateLba entriesLba := by
  have hfield : ∀ s ∈ headerStatements diskGuid entriesCrc myLba alternateLba entriesLba,
      s.write.stop ≤ 92 → s.write.stop ≤ 16 ∨ 20 ≤ s.write.off →
      ∀ i < s.write.value.length, m (s.write.off + i) = bytesOf s.write.value i := by
    intro s hs hin hout i hi
    have hstop : s.write.stop = s.write.off + s.write.value.length := rfl
    rw [h _ (by omega) (by omega), contents_field headerStatements_apart hs hi]
  have hword : ∀ off val, .word off val ∈
      headerStatements diskGuid entriesCrc myLba alternateLba entriesLba → val < 2 ^ 32 →
      off + 4 ≤ 92 → off + 4 ≤ 16 ∨ 20 ≤ off → (load32 m off).toNat = val := by
    intro off val hs hval hin hout
    rw [load32_bytes (v := val), Nat.mod_eq_of_lt hval]
    intro k hk
    rw [← bytesOf_leBytes (n := 4) hk]
    have hlength : (leBytes 4 val).length = 4 := leBytes_length 4 val
    exact hfield _ hs (by simpa [Statement.write, Write.stop] using hin)
      (by simpa [Statement.write, Write.stop] using hout) k (hlength.symm ▸ hk)
  have hquad : ∀ off val, .quad off val ∈
      headerStatements diskGuid entriesCrc myLba alternateLba entriesLba → val < 2 ^ 64 →
      off + 8 ≤ 92 → 20 ≤ off → load64 m off = val := by
    intro off val hs hval hin hout
    rw [load64_bytes (v := val), Nat.mod_eq_of_lt hval]
    intro k hk
    rw [← bytesOf_leBytes (n := 8) hk]
    have hlength : (leBytes 8 val).length = 8 := leBytes_length 8 val
    exact hfield _ hs (by simpa [Statement.write, Write.stop] using hin) (.inr hout) k
      (hlength.symm ▸ hk)
  have htext : ∀ off value, .text off value ∈
      headerStatements diskGuid entriesCrc myLba alternateLba entriesLba →
      off + value.length ≤ 92 → off + value.length ≤ 16 ∨ 20 ≤ off →
      Gpt.bytesAt m off value.length = value := by
    intro off value hs hin hout
    apply List.ext_getElem (Gpt.bytesAt_length _ _ _)
    intro k hk hk'
    have hbyte := hfield _ hs hin hout k hk'
    simp only [Gpt.bytesAt, List.getElem_map, List.getElem_range]
    refine hbyte.trans ?_
    change bytesOf value k = _
    rw [bytesOf, List.getD_eq_getElem?_getD, List.getElem?_eq_getElem hk', Option.getD_some]
  have hguid := htext 56 diskGuid.bytesLe (by simp [headerStatements])
    (by rw [Uuid.bytesLe_length]; decide) (.inr (by decide))
  rw [Uuid.bytesLe_length] at hguid
  have hsignature : Gpt.bytesAt m 0 8 = Gpt.signature :=
    htext 0 (ascii "EFI PART") (by simp [headerStatements]) (by decide) (.inl (by decide))
  have hrevision := hword 8 0x00010000 (by simp [headerStatements]) (by decide) (by decide)
    (.inl (by decide))
  have hsize := hword 12 92 (by simp [headerStatements]) (by decide) (by decide) (.inl (by decide))
  refine ⟨⟨hsignature, UInt32.toNat_inj.mp hrevision, hsize⟩, ?_⟩
  have htable := hword 88 entriesCrc.toNat (by simp [headerStatements]) entriesCrc.toNat_lt
    (by decide) (.inr (by decide))
  simp only [Gpt.header, headerRead, hcrc, hguid, UInt32.toNat_inj.mp htable,
    hquad 24 myLba (by simp [headerStatements]) hmy (by decide) (by decide),
    hquad 32 alternateLba (by simp [headerStatements]) halternate (by decide) (by decide),
    hquad 40 espLba (by simp [headerStatements]) (by decide) (by decide) (by decide),
    hquad 48 (diskSectors - 34) (by simp [headerStatements]) (by decide) (by decide) (by decide),
    hquad 72 entriesLba (by simp [headerStatements]) hentries (by decide) (by decide),
    hword 80 128 (by simp [headerStatements]) (by decide) (by decide) (.inr (by decide)),
    hword 84 128 (by simp [headerStatements]) (by decide) (by decide) (.inr (by decide))]

/-- A sector filled by `packHeader`, as the reader sees it. -/
structure HeaderPacked (diskGuid : Uuid) (entriesCrc : UInt32)
    (myLba alternateLba entriesLba : Nat) (hdr : Bytearray) : Prop where
  run : packHeader diskGuid entriesCrc myLba alternateLba entriesLba = .ok hdr
  length : hdr.length = sector
  signed : Gpt.Signed (bytesOf hdr)
  read : ∃ crc, Gpt.header (bytesOf hdr) =
    headerRead diskGuid entriesCrc crc myLba alternateLba entriesLba ∧
    Gpt.crc (Gpt.unsummed (bytesOf hdr)) Gpt.headerSize = crc

theorem packHeader_packed (diskGuid : Uuid) (entriesCrc : UInt32) (hmy : myLba < 2 ^ 64)
    (halternate : alternateLba < 2 ^ 64) (hentries : entriesLba < 2 ^ 64) :
    ∃ hdr, HeaderPacked diskGuid entriesCrc myLba alternateLba entriesLba hdr := by
  obtain ⟨buf, hrun, hlength, hbytes⟩ := runAll_zeros (n := sector)
    (headerStatements_fit diskGuid entriesCrc hmy halternate hentries)
  have hsector : sector = 512 := rfl
  have hfit : (crc32 (buf.take 92)).toNat < 2 ^ 32 := UInt32.toNat_lt _
  obtain ⟨hdr, hpack, hpatched⟩ := packWord_patched hfit
    (show 4 * 4 + 4 ≤ buf.length by omega)
  have hfield : ∀ k < 4, bytesOf buf (16 + k) = 0 := by
    intro k hk
    rw [hbytes]
    refine (contents_field headerStatements_apart (s := .word 16 0) (by simp [headerStatements])
      (i := k) (by simpa [Statement.write] using hk)).trans ?_
    change bytesOf (leBytes 4 0) k = 0
    rw [bytesOf_leBytes hk, byteOf, Nat.zero_div]
    rfl
  have hsummed : Gpt.crc (Gpt.unsummed (bytesOf hdr)) Gpt.headerSize = crc32 (buf.take 92) := by
    have htake : (buf.take 92).length = 92 := by
      rw [List.length_take, hlength]
      rfl
    rw [crc32_eq, htake]
    apply Gpt.crc_congr
    intro i hi
    have hi : i < 92 := hi
    have hfront : bytesOf (buf.take 92) i = bytesOf buf i := by
      rw [bytesOf, bytesOf, List.getD_eq_getElem?_getD, List.getElem?_take_of_lt hi,
        ← List.getD_eq_getElem?_getD]
    rw [hfront, Gpt.unsummed]
    split_ifs with hin
    · have hzero := hfield (i - 16) (by omega)
      rw [show 16 + (i - 16) = i by omega] at hzero
      exact hzero.symm
    · apply hpatched.outside
      rw [leBytes_length]
      omega
  have hcrc : load32 (bytesOf hdr) 16 = crc32 (buf.take 92) := by
    rw [← UInt32.toNat_inj]
    exact hpatched.word_self.trans (Nat.mod_eq_of_lt hfit)
  obtain ⟨hsigned, hread⟩ := header_contents diskGuid entriesCrc
    (m := bytesOf hdr) (crc32 (buf.take 92)) hmy halternate hentries hcrc (by
      intro i hi hout
      rw [← hbytes]
      apply hpatched.outside
      rw [leBytes_length]
      omega)
  refine ⟨hdr, ?_, hpatched.length.trans hlength, hsigned, _, hread, hsummed⟩
  rw [packHeader, hrun]
  exact hpack

end Headers

def codeUnits (name : String) : List UInt16 := name.toList.map fun c => UInt16.ofNat c.toNat

def espPartition : Gpt.Partition where
  typeGuid := espTypeGuid.bytesLe
  guid := espPartGuid.bytesLe
  first := espLba
  last := espLba + espSectors - 1
  attributes := 0
  name := codeUnits "EFI System Partition"

def owfsPartition : Gpt.Partition where
  typeGuid := owfsTypeGuid.bytesLe
  guid := owfsPartGuid.bytesLe
  first := owfsLba
  last := owfsLba + owfsSectors - 1
  attributes := 0
  name := codeUnits "MBL OWFS Data"

theorem entryAt_esp : Gpt.entryAt (contents entryStatements) 0 = some espPartition := by
  decide +kernel

theorem entryAt_owfs : Gpt.entryAt (contents entryStatements) 128 = some owfsPartition := by
  decide +kernel

theorem entryAt_unused {i : Nat} (hi : 2 ≤ i) :
    Gpt.entryAt (contents entryStatements) (i * 128) = none := by
  have hstop : ∀ s ∈ entryStatements, s.write.stop ≤ 256 := by decide
  have hzero : ∀ a, 256 ≤ a → contents entryStatements a = 0 := by
    intro a ha
    apply contents_outside
    intro s hs
    exact .inr ((hstop s hs).trans ha)
  have htype : Gpt.bytesAt (contents entryStatements) (i * 128) 16 =
      Gpt.bytesAt (fun _ => 0) 0 16 := by
    apply Gpt.bytesAt_congr
    intro k _
    exact hzero _ (by omega)
  exact if_pos htype

structure CopyAt (diskGuid : Uuid) (myLba alternateLba entriesLba : Nat)
    (entries hdr : Bytearray) (disk : Bytes) : Prop where
  packed : Packed entryStatements (128 * 128) entries
  sealed : HeaderPacked diskGuid (crc32 entries) myLba alternateLba entriesLba hdr
  header : ∀ i < sector, disk (myLba * sector + i) = bytesOf hdr i
  table : ∀ i < 128 * 128, disk (entriesLba * sector + i) = bytesOf entries i

section Copy
variable {diskGuid : Uuid} {myLba alternateLba entriesLba sectors : Nat}
variable {entries hdr : Bytearray} {disk : Bytes}

theorem CopyAt.bytes (h : CopyAt diskGuid myLba alternateLba entriesLba entries hdr disk) :
    ∀ i < Gpt.headerSize, Gpt.sectorAt disk myLba i = bytesOf hdr i :=
  fun i hi => h.header i (Nat.lt_trans hi (by decide))

theorem CopyAt.headerAt (h : CopyAt diskGuid myLba alternateLba entriesLba entries hdr disk) :
    ∃ crc, Gpt.headerAt disk myLba =
      headerRead diskGuid (crc32 entries) crc myLba alternateLba entriesLba ∧
      Gpt.crc (Gpt.unsummed (Gpt.sectorAt disk myLba)) Gpt.headerSize = crc := by
  obtain ⟨crc, hread, hcrc⟩ := h.sealed.read
  refine ⟨crc, (Gpt.header_congr h.bytes).trans hread, ?_⟩
  exact (Gpt.crc_congr (Gpt.unsummed_congr h.bytes)).trans hcrc

theorem CopyAt.partitionsAt (h : CopyAt diskGuid myLba alternateLba entriesLba entries hdr disk)
    (hlba : myLba < sectors) (hin : entriesLba * sector + 128 * 128 ≤ sectors * sector) :
    Gpt.partitionsAt disk sectors myLba = some [espPartition, owfsPartition] := by
  obtain ⟨crc, hread, hcrc⟩ := h.headerAt
  have htable : ∀ i < 128 * 128, Gpt.sectorAt disk entriesLba i = contents entryStatements i := by
    intro i hi
    rw [← h.packed.bytes]
    exact h.table i hi
  have hsum : Gpt.crc (Gpt.sectorAt disk entriesLba) (128 * 128) = crc32 entries := by
    rw [crc32_eq, h.packed.length]
    exact Gpt.crc_congr h.table
  have hacc : Gpt.Accepted disk sectors myLba := by
    unfold Gpt.Accepted
    rw [hread]
    exact ⟨hlba, (Gpt.signed_congr h.bytes).mpr h.sealed.signed, hcrc, rfl, Nat.le_refl 128, hin,
      hsum⟩
  have hentry : ∀ i < 128, Gpt.entryAt (Gpt.sectorAt disk entriesLba) (i * 128) =
      Gpt.entryAt (contents entryStatements) (i * 128) := by
    intro i hi
    apply Gpt.entryAt_congr
    intro k hk
    exact htable _ (by omega)
  have hunused : (List.range' 2 126).filterMap
      (fun i => Gpt.entryAt (Gpt.sectorAt disk entriesLba) (i * 128)) = [] := by
    rw [List.filterMap_eq_nil_iff]
    intro i hi
    obtain ⟨hlo, hhi⟩ := List.mem_range'_1.mp hi
    rw [hentry i (by omega), entryAt_unused hlo]
  have hrange : List.range 128 = 0 :: 1 :: List.range' 2 126 := by decide
  rw [Gpt.partitionsAt, if_pos hacc, hread]
  change some ((List.range 128).filterMap
    fun i => Gpt.entryAt (Gpt.sectorAt disk entriesLba) (i * 128)) = _
  rw [hrange, List.filterMap_cons, hentry 0 (by decide), entryAt_esp, List.filterMap_cons,
    hentry 1 (by decide), entryAt_owfs, hunused]

theorem CopyAt.covers (h : CopyAt diskGuid myLba alternateLba entriesLba entries hdr disk) {a : Nat}
    (ha : Gpt.Covers disk myLba a) : (myLba * sector ≤ a ∧ a < myLba * sector + 92) ∨
      (entriesLba * sector ≤ a ∧ a < entriesLba * sector + 128 * 128) := by
  obtain ⟨crc, hread, -⟩ := h.headerAt
  unfold Gpt.Covers at ha
  rw [hread] at ha
  exact ha

theorem CopyAt.of_same {disk' : Bytes}
    (h : CopyAt diskGuid myLba alternateLba entriesLba entries hdr disk)
    (hheader : ∀ a, myLba * sector ≤ a → a < (myLba + 1) * sector → disk' a = disk a)
    (htable : ∀ a, entriesLba * sector ≤ a → a < entriesLba * sector + 128 * 128 →
      disk' a = disk a) :
    CopyAt diskGuid myLba alternateLba entriesLba entries hdr disk' := by
  refine ⟨h.packed, h.sealed, ?_, ?_⟩
  · intro i hi
    rw [hheader _ (Nat.le_add_right _ _) (by rw [Nat.succ_mul]; omega), h.header i hi]
  · intro i hi
    rw [htable _ (Nat.le_add_right _ _) (by omega), h.table i hi]

end Copy

def gptWrites (entries pri bak : Bytearray) : List (Write UInt8) := [
  ⟨2 * sector, entries⟩,
  ⟨backupEntriesLba * sector, entries⟩,
  ⟨1 * sector, pri⟩,
  ⟨(diskSectors - 1) * sector, bak⟩]

/-- What the function leaves on the disk. -/
structure GptWritten (diskGuid : Uuid) (image image' entries pri bak : Bytearray) : Prop where
  run : writeGpt diskGuid image = .ok image'
  length : image'.length = image.length
  outside : ∀ a, a < 1 * sector ∨ 34 * sector ≤ a → a < backupEntriesLba * sector ∨
    diskSectors * sector ≤ a → image'[a]? = image[a]?
  primary : CopyAt diskGuid 1 (diskSectors - 1) 2 entries pri (bytesOf image')
  backup : CopyAt diskGuid (diskSectors - 1) 1 backupEntriesLba entries bak (bytesOf image')

theorem lbas : sector = 512 ∧ backupEntriesLba * sector = 101694976 ∧
    (diskSectors - 1) * sector = 101711360 ∧ diskSectors * sector = 101711872 ∧
    diskBytes = 101711872 := by decide

theorem writeGpt_written (diskGuid : Uuid) {image : Bytearray} (himage : diskBytes ≤ image.length) :
    ∃ image' entries pri bak, GptWritten diskGuid image image' entries pri bak := by
  obtain ⟨entries, hentries⟩ := runAll_zeros
    (show ∀ s ∈ entryStatements, s.Fits (128 * 128) by decide)
  obtain ⟨pri, hpri⟩ := packHeader_packed diskGuid (crc32 entries)
    (show 1 < 2 ^ 64 by decide) (show diskSectors - 1 < 2 ^ 64 by decide)
    (show 2 < 2 ^ 64 by decide)
  obtain ⟨bak, hbak⟩ := packHeader_packed diskGuid (crc32 entries)
    (show diskSectors - 1 < 2 ^ 64 by decide) (show 1 < 2 ^ 64 by decide)
    (show backupEntriesLba < 2 ^ 64 by decide)
  obtain ⟨hsector, hbackup, hlast, hend, hbytes⟩ := lbas
  have hentriesLength := hentries.length
  have hpriLength := hpri.length
  have hbakLength := hbak.length
  have happart : (gptWrites entries pri bak).Pairwise Apart := by
    simp only [gptWrites, List.pairwise_cons, List.mem_cons, List.not_mem_nil, or_false,
      forall_eq_or_imp, forall_eq, Apart, Write.stop, hentriesLength, hpriLength, hbakLength]
    simp
    omega
  have hfits : ∀ w ∈ gptWrites entries pri bak, w.stop ≤ image.length := by
    simp only [gptWrites, List.mem_cons, List.not_mem_nil, or_false, forall_eq_or_imp, forall_eq,
      Write.stop, hentriesLength, hpriLength, hbakLength]
    omega
  have hregion : ∀ w ∈ gptWrites entries pri bak, ∀ i < w.value.length,
      bytesOf (applyAll image (gptWrites entries pri bak)) (w.off + i) = bytesOf w.value i :=
    fun w hw i hi => applyAll_region happart hfits hw hi
  refine ⟨applyAll image (gptWrites entries pri bak), entries, pri, bak, ?_, applyAll_length hfits,
    ?_, ⟨hentries, hpri, ?_, ?_⟩, ⟨hentries, hbak, ?_, ?_⟩⟩
  · have hslice : ∀ (l v : Bytearray) (lo hi : Nat), lo + v.length = hi →
        sliceAssign l lo hi v = (Write.mk lo v).apply l := by
      intro l v lo hi h
      subst h
      rfl
    have hpriSlice : ∀ l, sliceAssign l (1 * sector) (2 * sector) pri =
        (Write.mk (1 * sector) pri).apply l := fun l => hslice l pri _ _ (by omega)
    have hbakSlice : ∀ l, sliceAssign l ((diskSectors - 1) * sector) (diskSectors * sector) bak =
        (Write.mk ((diskSectors - 1) * sector) bak).apply l := fun l => hslice l bak _ _ (by omega)
    rw [writeGpt, hentries.run]
    simp only [ok_bind, priHdr, hpri.run, bakHdr, hbak.run, hpriSlice, hbakSlice,
      hslice _ entries _ _ rfl]
    rfl
  · intro a hlow hhigh
    apply applyAll_outside hfits
    simp only [gptWrites, List.mem_cons, List.not_mem_nil, or_false]
    rintro w (rfl | rfl | rfl | rfl) <;> simp only [Write.stop] <;> omega
  · intro i hi
    exact hregion ⟨1 * sector, pri⟩ (by simp [gptWrites]) i (hpriLength.symm ▸ hi)
  · intro i hi
    exact hregion ⟨2 * sector, entries⟩ (by simp [gptWrites]) i (hentriesLength.symm ▸ hi)
  · intro i hi
    exact hregion ⟨(diskSectors - 1) * sector, bak⟩ (by simp [gptWrites]) i (hbakLength.symm ▸ hi)
  · intro i hi
    exact hregion ⟨backupEntriesLba * sector, entries⟩ (by simp [gptWrites]) i
      (hentriesLength.symm ▸ hi)

/-- What a reader finds in the image the function returns, and what the function
leaves alone. -/
structure TableReadBack (diskGuid : Uuid) (image image' : Bytearray) : Prop where
  run : writeGpt diskGuid image = .ok image'
  length : image'.length = image.length
  outside : ∀ a, a < 1 * sector ∨ 34 * sector ≤ a → a < backupEntriesLba * sector ∨
    diskSectors * sector ≤ a → image'[a]? = image[a]?
  primary : Gpt.partitionsAt (bytesOf image') diskSectors 1 = some [espPartition, owfsPartition]
  backup : Gpt.partitionsAt (bytesOf image') diskSectors
    (Gpt.headerAt (bytesOf image') 1).alternateLba = some [espPartition, owfsPartition]
  alternates : ∀ lba ∈ [1, diskSectors - 1],
    (Gpt.headerAt (bytesOf image') lba).alternateLba = diskSectors - lba ∧
    (Gpt.headerAt (bytesOf image') lba).diskGuid = diskGuid.bytesLe
  usable : ∀ lba ∈ [1, diskSectors - 1], ∀ part ∈ [espPartition, owfsPartition],
    (Gpt.headerAt (bytesOf image') lba).firstUsable ≤ part.first ∧ part.first ≤ part.last ∧
    part.last ≤ (Gpt.headerAt (bytesOf image') lba).lastUsable
  disjoint : espPartition.last < owfsPartition.first

section Trip
variable {diskGuid : Uuid} {image image' entries pri bak : Bytearray}

theorem GptWritten.primary_read (h : GptWritten diskGuid image image' entries pri bak) :
    Gpt.partitionsAt (bytesOf image') diskSectors 1 = some [espPartition, owfsPartition] :=
  h.primary.partitionsAt (by decide) (by decide)

theorem GptWritten.backup_read (h : GptWritten diskGuid image image' entries pri bak) :
    Gpt.partitionsAt (bytesOf image') diskSectors (diskSectors - 1) =
      some [espPartition, owfsPartition] :=
  h.backup.partitionsAt (by decide) (by decide)

/-- The table written to the disk is read back from both places. -/
theorem writeGpt_readBack (diskGuid : Uuid) (himage : diskBytes ≤ image.length) :
    ∃ image', TableReadBack diskGuid image image' := by
  obtain ⟨image', entries, pri, bak, h⟩ := writeGpt_written diskGuid himage
  obtain ⟨crc, hprimary, -⟩ := h.primary.headerAt
  obtain ⟨crc', hbackup, -⟩ := h.backup.headerAt
  have hother : diskSectors - (diskSectors - 1) = 1 := by decide
  have husable : ∀ part ∈ [espPartition, owfsPartition],
      espLba ≤ part.first ∧ part.first ≤ part.last ∧ part.last ≤ diskSectors - 34 := by decide
  refine ⟨image', h.run, h.length, h.outside, h.primary_read, ?_, ?_, ?_, by decide⟩
  · rw [hprimary]
    exact h.backup_read
  · simp only [List.forall_mem_cons, hprimary, hbackup, headerRead, hother]
    simp
  · simp only [List.forall_mem_cons (a := 1), List.forall_mem_singleton, hprimary, hbackup]
    exact ⟨husable, husable⟩

theorem blankDisk_readBack : ∃ image', TableReadBack owfsPartGuid (zeros diskBytes) image' :=
  writeGpt_readBack owfsPartGuid List.length_replicate.ge

/-- The partitions are read from a disk that was damaged within four bytes, from one
that lost its second copy, and from one whose first copy is refused for any reason. -/
theorem writeGpt_survives (himage : diskBytes ≤ image.length)
    (hrun : writeGpt diskGuid image = .ok image') (disk : Bytes) :
    (∀ p w, w ≤ 4 → Gpt.Within p w (bytesOf image') disk → Gpt.Uncut 1 p w →
      Gpt.partitions disk diskSectors = some [espPartition, owfsPartition]) ∧
    ((∀ a < 34 * sector, disk a = bytesOf image' a) →
      Gpt.partitions disk diskSectors = some [espPartition, owfsPartition]) ∧
    ((∀ a, backupEntriesLba * sector ≤ a → a < diskSectors * sector → disk a = bytesOf image' a) →
      Gpt.partitionsAt disk diskSectors 1 = none →
      Gpt.partitions disk diskSectors = some [espPartition, owfsPartition]) := by
  obtain ⟨image'', entries, pri, bak, h⟩ := writeGpt_written diskGuid himage
  obtain rfl : image'' = image' := Except.ok.inj (h.run.symm.trans hrun)
  obtain ⟨hsector, hbackup, hlast, hend, -⟩ := lbas
  refine ⟨?_, ?_, ?_⟩
  · intro p w hw hwithin huncut
    apply Gpt.partitions_burst hw hwithin huncut h.primary_read h.backup_read
    intro a b ha hb
    have ha := h.primary.covers ha
    have hb := h.backup.covers hb
    omega
  · intro hsame
    have huntouched : Gpt.partitionsAt disk diskSectors 1 =
        Gpt.partitionsAt (bytesOf image'') diskSectors 1 := by
      apply Gpt.partitionsAt_untouched
      intro a ha
      have ha := h.primary.covers ha
      exact hsame a (by omega)
    rw [Gpt.partitions, huntouched, h.primary_read, Option.some_or]
  · intro hsame hrefused
    rw [Gpt.partitions, hrefused, Option.none_or, ← h.backup_read]
    apply Gpt.partitionsAt_untouched
    intro a ha
    have ha := h.backup.covers ha
    exact hsame a (by omega) (by omega)

theorem blankDisk_survives : ∃ image', writeGpt owfsPartGuid (zeros diskBytes) = .ok image' ∧
    Gpt.partitions (Function.update (bytesOf image') 1024 0) diskSectors =
      some [espPartition, owfsPartition] := by
  have hblank : diskBytes ≤ (zeros diskBytes).length := List.length_replicate.ge
  obtain ⟨image', entries, pri, bak, h⟩ := writeGpt_written owfsPartGuid hblank
  refine ⟨image', h.run, (writeGpt_survives hblank h.run _).1 1024 1 (by decide) ?_
    (.inr (.inl (by decide)))⟩
  intro a ha
  exact Function.update_of_ne (by omega) _ _

end Trip

end ModularBootloader.GptWriter
