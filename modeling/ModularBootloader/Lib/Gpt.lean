import ModularBootloader.Lib.ByteStore
import ModularBootloader.Lib.ShiftRegister

/-!
# Reading a GUID partition table

A reader that knows a disk only by its bytes and its number of sectors. A header
is accepted by its signature, its own checksum, its place and the checksum of the
table it points at. The header of the last sector is tried when the one of sector
1 is refused. A burst of damage is told by whichever checksum covers it.
-/

namespace Gpt
open ByteStore ShiftRegister

def sectorSize : Nat := 512
def headerSize : Nat := 92

def crcPoly : UInt32 := 0xEDB88320

def crc (m : Bytes) (n : Nat) : UInt32 :=
  ~~~ register crcPoly 0xFFFFFFFF (fun i => (m i).toUInt32) n

structure Header where
  crc : UInt32
  myLba : Nat
  alternateLba : Nat
  firstUsable : Nat
  lastUsable : Nat
  diskGuid : List UInt8
  tableLba : Nat
  count : Nat
  entrySize : Nat
  tableCrc : UInt32
  deriving DecidableEq, Repr

structure Partition where
  typeGuid : List UInt8
  guid : List UInt8
  first : Nat
  last : Nat
  attributes : Nat
  name : List UInt16
  deriving DecidableEq, Repr

def bytesAt (m : Bytes) (off n : Nat) : List UInt8 := (List.range n).map fun k => m (off + k)

def signature : List UInt8 := [0x45, 0x46, 0x49, 0x20, 0x50, 0x41, 0x52, 0x54]

def header (m : Bytes) : Header where
  crc := load32 m 16
  myLba := load64 m 24
  alternateLba := load64 m 32
  firstUsable := load64 m 40
  lastUsable := load64 m 48
  diskGuid := bytesAt m 56 16
  tableLba := load64 m 72
  count := (load32 m 80).toNat
  entrySize := (load32 m 84).toNat
  tableCrc := load32 m 88

def Signed (m : Bytes) : Prop :=
  bytesAt m 0 8 = signature ∧ load32 m 8 = 0x00010000 ∧ (load32 m 12).toNat = headerSize

/-- The checksum of a header counts as zero in it. -/
def unsummed (m : Bytes) : Bytes := fun i => if 16 ≤ i ∧ i < 20 then 0 else m i

def nameAt (m : Bytes) (off : Nat) : List UInt16 :=
  ((List.range 36).map fun k => load16 m (off + 2 * k)).takeWhile (· ≠ 0)

def entryAt (m : Bytes) (off : Nat) : Option Partition :=
  if bytesAt m off 16 = List.replicate 16 0 then none
  else some {
    typeGuid := bytesAt m off 16
    guid := bytesAt m (off + 16) 16
    first := load64 m (off + 32)
    last := load64 m (off + 40)
    attributes := load64 m (off + 48)
    name := nameAt m (off + 56) }

def sectorAt (disk : Bytes) (lba : Nat) : Bytes := window disk (lba * sectorSize)

def headerAt (disk : Bytes) (lba : Nat) : Header := header (sectorAt disk lba)

namespace Header

def tableSize (h : Header) : Nat := h.count * h.entrySize

def table (h : Header) (disk : Bytes) : Bytes := sectorAt disk h.tableLba

def partitions (h : Header) (disk : Bytes) : List Partition :=
  (List.range h.count).filterMap fun i => entryAt (h.table disk) (i * h.entrySize)

end Header

def Accepted (disk : Bytes) (sectors lba : Nat) : Prop :=
  lba < sectors ∧
  Signed (sectorAt disk lba) ∧
  crc (unsummed (sectorAt disk lba)) headerSize = (headerAt disk lba).crc ∧
  (headerAt disk lba).myLba = lba ∧
  128 ≤ (headerAt disk lba).entrySize ∧
  (headerAt disk lba).tableLba * sectorSize + (headerAt disk lba).tableSize ≤
    sectors * sectorSize ∧
  crc ((headerAt disk lba).table disk) (headerAt disk lba).tableSize = (headerAt disk lba).tableCrc

instance (m : Bytes) : Decidable (Signed m) := by
  unfold Signed
  infer_instance

instance (disk : Bytes) (sectors lba : Nat) : Decidable (Accepted disk sectors lba) := by
  unfold Accepted
  infer_instance

/-- A record that gives the sectors behind it to the table, for tools that know none. -/
def Protective (disk : Bytes) (sectors : Nat) : Prop :=
  load16 disk 510 = 0xAA55 ∧ disk 450 = 0xEE ∧ (load32 disk 454).toNat = 1 ∧
    (load32 disk 458).toNat = min (sectors - 1) 0xFFFFFFFF

instance (disk : Bytes) (sectors : Nat) : Decidable (Protective disk sectors) := by
  unfold Protective
  infer_instance

def partitionsAt (disk : Bytes) (sectors lba : Nat) : Option (List Partition) :=
  if Accepted disk sectors lba then some ((headerAt disk lba).partitions disk) else none

def partitions (disk : Bytes) (sectors : Nat) : Option (List Partition) :=
  (partitionsAt disk sectors 1).or (partitionsAt disk sectors (sectors - 1))

section Congruence
variable {m m' disk disk' : Bytes} {off off' n sectors lba : Nat} {h : Header}

theorem bytesAt_congr (heq : ∀ k < n, m (off + k) = m' (off' + k)) :
    bytesAt m off n = bytesAt m' off' n := by
  apply List.map_congr_left
  intro k hk
  exact heq k (List.mem_range.mp hk)

theorem bytesAt_length (m : Bytes) (off n : Nat) : (bytesAt m off n).length = n := by
  simp [bytesAt]

theorem crc_congr (heq : ∀ i < n, m i = m' i) : crc m n = crc m' n := by
  have hregister : register crcPoly 0xFFFFFFFF (fun i => (m i).toUInt32) n =
      register crcPoly 0xFFFFFFFF (fun i => (m' i).toUInt32) n := by
    apply register_congr
    intro i hi
    rw [heq i hi]
  rw [crc, crc, hregister]

theorem header_congr (heq : ∀ i < headerSize, m i = m' i) : header m = header m' := by
  have hword : ∀ off, off + 4 ≤ 92 → load32 m off = load32 m' off := by
    intro off hoff
    exact load32_congr fun k hk => heq _ (show off + k < 92 by omega)
  have hquad : ∀ off, off + 8 ≤ 92 → load64 m off = load64 m' off := by
    intro off hoff
    exact load64_congr fun k hk => heq _ (show off + k < 92 by omega)
  have hguid : bytesAt m 56 16 = bytesAt m' 56 16 :=
    bytesAt_congr fun k hk => heq _ (show 56 + k < 92 by omega)
  simp only [header, hguid, hword 16 (by decide), hword 80 (by decide), hword 84 (by decide),
    hword 88 (by decide), hquad 24 (by decide), hquad 32 (by decide), hquad 40 (by decide),
    hquad 48 (by decide), hquad 72 (by decide)]

theorem signed_congr (heq : ∀ i < headerSize, m i = m' i) : Signed m ↔ Signed m' := by
  have hsignature : bytesAt m 0 8 = bytesAt m' 0 8 :=
    bytesAt_congr fun k hk => heq _ (show 0 + k < 92 by omega)
  have hword : ∀ off, off + 4 ≤ 92 → load32 m off = load32 m' off := by
    intro off hoff
    exact load32_congr fun k hk => heq _ (show off + k < 92 by omega)
  rw [Signed, Signed, hsignature, hword 8 (by decide), hword 12 (by decide)]

theorem unsummed_congr (heq : ∀ i < headerSize, m i = m' i) :
    ∀ i < headerSize, unsummed m i = unsummed m' i := by
  intro i hi
  rw [unsummed, unsummed, heq i hi]

theorem entryAt_congr (heq : ∀ k < 128, m (off + k) = m' (off' + k)) :
    entryAt m off = entryAt m' off' := by
  have hshift : ∀ d n, d + n ≤ 128 → ∀ k < n, m (off + d + k) = m' (off' + d + k) := by
    intro d n hd k hk
    rw [Nat.add_assoc, Nat.add_assoc]
    exact heq (d + k) (by omega)
  have htype : bytesAt m off 16 = bytesAt m' off' 16 :=
    bytesAt_congr fun k hk => heq k (by omega)
  have hguid : bytesAt m (off + 16) 16 = bytesAt m' (off' + 16) 16 :=
    bytesAt_congr (hshift 16 16 (by decide))
  have hquad : ∀ d, d + 8 ≤ 128 → load64 m (off + d) = load64 m' (off' + d) :=
    fun d hd => load64_congr (hshift d 8 hd)
  have hname : nameAt m (off + 56) = nameAt m' (off' + 56) := by
    rw [nameAt, nameAt]
    congr 1
    apply List.map_congr_left
    intro k hk
    rw [List.mem_range] at hk
    apply load16_congr
    intro j hj
    rw [Nat.add_assoc (off + 56), Nat.add_assoc (off' + 56)]
    exact hshift 56 72 (by decide) _ (by omega)
  simp only [entryAt, htype, hguid, hname, hquad 32 (by decide), hquad 40 (by decide),
    hquad 48 (by decide)]

theorem Header.partitions_congr (hsize : 128 ≤ h.entrySize)
    (heq : ∀ i < h.tableSize, h.table disk i = h.table disk' i) :
    h.partitions disk = h.partitions disk' := by
  apply List.filterMap_congr
  intro i hi
  rw [List.mem_range] at hi
  apply entryAt_congr
  intro k hk
  apply heq
  calc i * h.entrySize + k < i * h.entrySize + h.entrySize := by omega
    _ = (i + 1) * h.entrySize := (Nat.succ_mul i h.entrySize).symm
    _ ≤ h.count * h.entrySize := Nat.mul_le_mul_right _ hi

theorem accepted_congr (hheader : ∀ i < headerSize, sectorAt disk lba i = sectorAt disk' lba i)
    (htable : ∀ i < (headerAt disk lba).tableSize,
      (headerAt disk lba).table disk i = (headerAt disk lba).table disk' i) :
    Accepted disk sectors lba ↔ Accepted disk' sectors lba := by
  have hsame : headerAt disk lba = headerAt disk' lba := header_congr hheader
  have hcrc := crc_congr (unsummed_congr hheader)
  have htableCrc := crc_congr htable
  rw [Accepted, Accepted, signed_congr hheader, hcrc, htableCrc, hsame]

theorem partitionsAt_congr
    (hheader : ∀ i < headerSize, sectorAt disk lba i = sectorAt disk' lba i)
    (htable : ∀ i < (headerAt disk lba).tableSize,
      (headerAt disk lba).table disk i = (headerAt disk lba).table disk' i) :
    partitionsAt disk sectors lba = partitionsAt disk' sectors lba := by
  have hsame : headerAt disk lba = headerAt disk' lba := header_congr hheader
  have haccepted : Accepted disk sectors lba ↔ Accepted disk' sectors lba :=
    accepted_congr hheader htable
  by_cases hacc : Accepted disk sectors lba
  · obtain ⟨-, -, -, -, hsize, -⟩ := id hacc
    rw [partitionsAt, partitionsAt, if_pos hacc, if_pos (haccepted.mp hacc), ← hsame,
      Header.partitions_congr hsize htable]
  · rw [partitionsAt, partitionsAt, if_neg hacc, if_neg (mt haccepted.mpr hacc)]

theorem protective_congr (heq : ∀ i < 512, disk i = disk' i) :
    Protective disk sectors ↔ Protective disk' sectors := by
  have hword : ∀ off, off + 4 ≤ 512 → load32 disk off = load32 disk' off := by
    intro off hoff
    exact load32_congr fun k hk => heq _ (by omega)
  have hmark : load16 disk 510 = load16 disk' 510 := load16_congr fun k hk => heq _ (by omega)
  rw [Protective, Protective, hmark, heq 450 (by decide), hword 454 (by decide),
    hword 458 (by decide)]

end Congruence

def Within (p w : Nat) (disk disk' : Bytes) : Prop := ∀ a, a < p ∨ p + w ≤ a → disk' a = disk a

/-- The bytes are all in the checksum field of the header, or none of them is. -/
def Uncut (lba p w : Nat) : Prop :=
  p + w ≤ lba * sectorSize + 16 ∨ lba * sectorSize + 20 ≤ p ∨
    (lba * sectorSize + 16 ≤ p ∧ p + w ≤ lba * sectorSize + 20)

section Burst
variable {disk disk' m m' : Bytes} {sectors lba p w n : Nat}

theorem crcPoly_top : 2 ^ 31 ≤ crcPoly.toNat := by decide

theorem crc_agree (hw : w ≤ 4) (hwithin : Within p w m m') (h : crc m' n = crc m n) :
    ∀ i < n, m' i = m i := by
  rw [crc, crc, UInt32.not_inj] at h
  exact register_agree crcPoly_top hw (fun i _ hi => hwithin i hi) h

theorem Within.sector (h : Within p w disk disk') :
    Within (p - lba * sectorSize) w (sectorAt disk lba) (sectorAt disk' lba) := by
  intro a ha
  apply h
  omega

theorem Within.unsummed (h : Within p w m m') : Within p w (unsummed m) (unsummed m') := by
  intro a ha
  rw [Gpt.unsummed, Gpt.unsummed, h a ha]

theorem header_agree (hw : w ≤ 4) (hwithin : Within p w disk disk') (huncut : Uncut lba p w)
    (hacc : Accepted disk sectors lba) (hacc' : Accepted disk' sectors lba) :
    ∀ i < headerSize, sectorAt disk' lba i = sectorAt disk lba i := by
  obtain ⟨-, -, hcrc, -⟩ := hacc
  obtain ⟨-, -, hcrc', -⟩ := hacc'
  have hbase : ∀ {m : Bytes} {i}, ¬ (16 ≤ i ∧ i < 20) → Gpt.unsummed m i = m i := fun h => if_neg h
  by_cases hfield : lba * sectorSize + 16 ≤ p ∧ p + w ≤ lba * sectorSize + 20
  · -- Damage in the field itself: the bytes that are summed are the same.
    have hsum : crc (Gpt.unsummed (sectorAt disk' lba)) headerSize =
        crc (Gpt.unsummed (sectorAt disk lba)) headerSize := by
      apply crc_congr
      intro i _
      rw [Gpt.unsummed, Gpt.unsummed]
      split_ifs with hin
      · rfl
      · exact hwithin _ (by omega)
    have hload : load32 (sectorAt disk' lba) 16 = load32 (sectorAt disk lba) 16 :=
      hcrc'.symm.trans (hsum.trans hcrc)
    intro i _
    by_cases hin : 16 ≤ i ∧ i < 20
    · have hbyte := load32_inj hload (i - 16) (by omega)
      rwa [show 16 + (i - 16) = i by omega] at hbyte
    · exact hwithin _ (by omega)
  · have hout : ∀ k < 4, sectorAt disk' lba (16 + k) = sectorAt disk lba (16 + k) := by
      intro k hk
      unfold Uncut at huncut
      exact hwithin _ (by omega)
    have hload : (headerAt disk' lba).crc = (headerAt disk lba).crc := load32_congr hout
    have hagree := crc_agree hw hwithin.sector.unsummed (hcrc'.trans (hload.trans hcrc.symm))
    intro i hi
    by_cases hin : 16 ≤ i ∧ i < 20
    · have hbyte := hout (i - 16) (by omega)
      rwa [show 16 + (i - 16) = i by omega] at hbyte
    · have hbyte := hagree i hi
      rwa [hbase hin, hbase hin] at hbyte

theorem partitionsAt_burst {ps : List Partition} (hw : w ≤ 4) (hwithin : Within p w disk disk')
    (huncut : Uncut lba p w) (h : partitionsAt disk sectors lba = some ps) :
    partitionsAt disk' sectors lba = some ps ∨ partitionsAt disk' sectors lba = none := by
  by_cases hacc' : Accepted disk' sectors lba
  · by_cases hacc : Accepted disk sectors lba
    · left
      have hheader := header_agree hw hwithin huncut hacc hacc'
      have hsame : headerAt disk' lba = headerAt disk lba := header_congr hheader
      obtain ⟨-, -, -, -, -, -, hcrc⟩ := hacc
      obtain ⟨-, -, -, -, -, -, hcrc'⟩ := hacc'
      rw [hsame, ← hcrc] at hcrc'
      rw [← h]
      exact (partitionsAt_congr (fun i hi => (hheader i hi).symm)
        fun i hi => (crc_agree hw hwithin.sector hcrc' i hi).symm).symm
    · rw [partitionsAt, if_neg hacc] at h
      cases h
  · exact .inr (if_neg hacc')

def Covers (disk : Bytes) (lba a : Nat) : Prop :=
  (lba * sectorSize ≤ a ∧ a < lba * sectorSize + headerSize) ∨
    ((headerAt disk lba).tableLba * sectorSize ≤ a ∧
      a < (headerAt disk lba).tableLba * sectorSize + (headerAt disk lba).tableSize)

theorem partitionsAt_untouched (h : ∀ a, Covers disk lba a → disk' a = disk a) :
    partitionsAt disk' sectors lba = partitionsAt disk sectors lba := by
  symm
  apply partitionsAt_congr
  · intro i hi
    exact (h _ (.inl ⟨Nat.le_add_right _ _, Nat.add_lt_add_left hi _⟩)).symm
  · intro i hi
    exact (h _ (.inr ⟨Nat.le_add_right _ _, Nat.add_lt_add_left hi _⟩)).symm

/-- With two copies that lie apart, a burst of damage leaves the partitions readable. -/
theorem partitions_burst {ps : List Partition} (hw : w ≤ 4) (hwithin : Within p w disk disk')
    (huncut : Uncut 1 p w) (hprimary : partitionsAt disk sectors 1 = some ps)
    (hbackup : partitionsAt disk sectors (sectors - 1) = some ps)
    (hapart : ∀ a b, Covers disk 1 a → Covers disk (sectors - 1) b → a + 4 ≤ b) :
    partitions disk' sectors = some ps := by
  rcases partitionsAt_burst hw hwithin huncut hprimary with hread | hrefused
  · rw [partitions, hread, Option.some_or]
  · -- The damage is in the first copy, so it is not in the second.
    obtain ⟨a, ha, hchanged⟩ : ∃ a, Covers disk 1 a ∧ disk' a ≠ disk a := by
      by_contra hsame
      have huntouched : partitionsAt disk' sectors 1 = partitionsAt disk sectors 1 := by
        apply partitionsAt_untouched
        intro a ha
        by_contra hne
        exact hsame ⟨a, ha, hne⟩
      rw [hrefused, hprimary] at huntouched
      cases huntouched
    have hin : p ≤ a := by
      by_contra hout
      exact hchanged (hwithin a (by omega))
    rw [partitions, hrefused, Option.none_or, ← hbackup]
    apply partitionsAt_untouched
    intro b hb
    have hfar := hapart a b ha hb
    exact hwithin b (by omega)

end Burst

end Gpt
