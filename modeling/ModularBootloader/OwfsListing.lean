import ModularBootloader.OwfsCopy

/-!
# The root catalog listing

What a scan of the staged catalog block finds, one round of the enumeration
loop, and what `k` completed rounds have done.
-/

namespace ModularBootloader
open ByteStore

structure RaisedOnly (s t : Machine) : Prop where
  ram : t.ram = s.ram
  gSb : t.gSb = s.gSb
  requests : t.requests = s.requests

theorem RaisedOnly.refl (s : Machine) : RaisedOnly s s := ⟨rfl, rfl, rfl⟩

theorem RaisedOnly.of_raise {s t : Machine} {code : Bancode} (h : RaisedOnly (s.raise code) t) :
    RaisedOnly s t := ⟨h.ram, h.gSb, h.requests⟩

def validEntry (ce : Bytes) : Bool :=
  listable ce && decide (crc32cStruct ce owfsInodeSize owfsStructCk = CatalogEntry.checksum ce)

def entriesIn (ram : Bytes) (slots : List Nat) : List MblEntry :=
  (slots.filter fun e => validEntry (stagedEntry ram e)).map fun e => listEntry (stagedEntry ram e)

theorem scanSlots_spec (m : Nat) (slots : List Nat) (es : List MblEntry) (s : Machine)
    (h : es.length ≤ m) :
    (scanSlots m slots es s).full = decide (m < (es ++ entriesIn s.ram slots).length) ∧
      (scanSlots m slots es s).entries = (es ++ entriesIn s.ram slots).take m ∧
      RaisedOnly s (scanSlots m slots es s).machine := by
  induction slots generalizing es s with
  | nil =>
    refine ⟨?_, ?_, RaisedOnly.refl s⟩
    · simpa [scanSlots, entriesIn] using h
    · simpa [scanSlots, entriesIn] using (List.take_of_length_le h).symm
  | cons e rest ih =>
    by_cases hlist : listable (stagedEntry s.ram e) = true
    · by_cases hck : crc32cStruct (stagedEntry s.ram e) owfsInodeSize owfsStructCk =
          CatalogEntry.checksum (stagedEntry s.ram e)
      · have hvalid : validEntry (stagedEntry s.ram e) = true := by simp [validEntry, hlist, hck]
        have hfound : entriesIn s.ram (e :: rest) =
            listEntry (stagedEntry s.ram e) :: entriesIn s.ram rest := by
          simp [entriesIn, hvalid]
        by_cases hfull : m ≤ es.length
        · have hlen : es.length = m := le_antisymm h hfull
          have hscan : scanSlots m (e :: rest) es s = ⟨true, es, s⟩ := by
            simp [scanSlots, hlist, hck, hlen]
          rw [hscan, hfound]
          refine ⟨?_, ?_, RaisedOnly.refl s⟩
          · simp [hlen]
          · rw [← hlen, List.take_left]
        · have hscan : scanSlots m (e :: rest) es s =
              scanSlots m rest (es ++ [listEntry (stagedEntry s.ram e)]) s := by
            simp [scanSlots, hlist, hck, hfull]
          have hnext := ih (es ++ [listEntry (stagedEntry s.ram e)]) s (by simp; omega)
          rw [hscan, hfound]
          simpa using hnext
      · have hvalid : validEntry (stagedEntry s.ram e) = false := by simp [validEntry, hck]
        have hfound : entriesIn s.ram (e :: rest) = entriesIn s.ram rest := by
          simp [entriesIn, hvalid]
        have hscan : scanSlots m (e :: rest) es s =
            scanSlots m rest es (s.raise mblBanCatalogChecksum) := by
          simp [scanSlots, hlist, hck]
        obtain ⟨hf, he, hm⟩ := ih es (s.raise mblBanCatalogChecksum) h
        rw [hscan, hfound]
        exact ⟨hf, he, hm.of_raise⟩
    · have hvalid : validEntry (stagedEntry s.ram e) = false := by simp [validEntry, hlist]
      have hfound : entriesIn s.ram (e :: rest) = entriesIn s.ram rest := by
        simp [entriesIn, hvalid]
      have hscan : scanSlots m (e :: rest) es s = scanSlots m rest es s := by
        simp [scanSlots, hlist]
      rw [hscan, hfound]
      exact ih es s h

theorem scanSlots_toNat (max : Int) (slots : List Nat) (es : List MblEntry) (s : Machine) :
    scanSlots max slots es s = scanSlots max.toNat slots es s := by
  induction slots generalizing es s with
  | nil => rfl
  | cons e rest ih =>
    have hroom : (es.length : Int) ≥ max ↔ (es.length : Int) ≥ (max.toNat : Int) := by omega
    simp only [scanSlots, hroom, ih]

theorem owfsEnumerate_toNat (io : Option BlockIo) (max : Int) (s : Machine) :
    owfsEnumerate io max s = owfsEnumerate io max.toNat s := by
  have hstep : ∀ root, enumerateStep io root max = enumerateStep io root max.toNat := by
    intro root
    funext st
    simp only [enumerateStep, scanSlots_toNat max]
  simp only [owfsEnumerate, hstep]

def scanAt (io : Option BlockIo) (root : Bytes) (max : Int) (st : EnumState) : Scan :=
  scanSlots max (List.range owfsEntriesPerBlock) st.entries (fetchedAt io root st.idx st.machine)

section Rounds
variable {io : Option BlockIo} {root : Bytes} {max : Int} {st : EnumState}

theorem enumerateStep_next (max : Int) (hidx : st.idx < Inode.blockCount root)
    (h : ¬ FetchFails io st.machine.requests.length st.machine.ram root st.idx) :
    enumerateStep io root max st =
      if (scanAt io root max st).full then
        .inl ⟨(scanAt io root max st).entries.length, (scanAt io root max st).entries,
          (scanAt io root max st).machine⟩
      else .inr ⟨st.idx + 1, (scanAt io root max st).entries, (scanAt io root max st).machine⟩ := by
  rw [FetchFails, not_or] at h
  have hread := h.2
  rw [← lookedUp_requests_length io root] at hread
  rw [enumerateStep, owfsBlockmapGet_ok hidx h.1]
  simp only [diskReadBlock_reads (by simpa using hread)]
  rfl

theorem enumerateStep_fails (max : Int) (hidx : st.idx < Inode.blockCount root)
    (h : FetchFails io st.machine.requests.length st.machine.ram root st.idx) :
    ∃ t code res, enumerateStep io root max st = .inl ⟨res, st.entries, t.raise code⟩ ∧
      (LookupFails io st.machine.requests.length st.machine.ram root st.idx ∧ res = -3 ∨
        ¬ LookupFails io st.machine.requests.length st.machine.ram root st.idx ∧ res = -4) ∧
      StoppedAt io root st.idx st.machine t := by
  by_cases hl : LookupFails io st.machine.requests.length st.machine.ram root st.idx
  · obtain ⟨e, t, code, heq, -, ht⟩ := owfsBlockmapGet_fails hl
    refine ⟨t, code, -3, ?_, .inl ⟨hl, rfl⟩, .inl ⟨hl, ht⟩⟩
    rw [enumerateStep, heq]
  · have hread := h.resolve_left hl
    rw [← lookedUp_requests_length io root] at hread
    refine ⟨_, mblBanIoError, -4, ?_, .inr ⟨hl, rfl⟩, .inr ⟨hl, rfl⟩⟩
    rw [enumerateStep, owfsBlockmapGet_ok hidx hl]
    simp [diskReadBlock_fails hread]

end Rounds

structure EnumProgress (m : Nat) (t : Machine) (k : Nat) (st : EnumState) : Prop where
  idx : st.idx = UInt32.ofNat k
  requests : st.machine.requests.length = t.requests.length + transfersOf k
  frame : ∀ a, ¬ InStaging a → st.machine.ram a = t.ram a
  gSb : st.machine.gSb = t.gSb
  room : st.entries.length ≤ m

section Progress
variable {io : Option BlockIo} {root : Bytes} {m : Nat} {t : Machine} {k : Nat}
variable {st st' : EnumState}

theorem enumProgress_start (m : Nat) (t : Machine) : EnumProgress m t 0 ⟨0, [], t⟩ :=
  ⟨rfl, rfl, fun _ _ => rfl, rfl, Nat.zero_le m⟩

theorem EnumProgress.idx_lt (h : EnumProgress m t k st) (hk : k < (Inode.blockCount root).toNat) :
    st.idx < Inode.blockCount root := by
  have hmax := (Inode.blockCount root).toNat_lt
  rw [h.idx, UInt32.lt_iff_toNat_lt, UInt32.toNat_ofNat', Nat.mod_eq_of_lt (by omega)]
  exact hk

theorem enumerateStep_continues (h : EnumProgress m t k st)
    (hk : k < (Inode.blockCount root).toNat) (hstep : enumerateStep io root m st = .inr st') :
    ¬ FetchFails io st.machine.requests.length st.machine.ram root st.idx ∧
      (scanAt io root m st).full = false ∧
      st' = ⟨st.idx + 1, (scanAt io root m st).entries, (scanAt io root m st).machine⟩ := by
  by_cases hf : FetchFails io st.machine.requests.length st.machine.ram root st.idx
  · obtain ⟨u, code, res, heq, -⟩ := enumerateStep_fails m (h.idx_lt hk) hf
    rw [heq] at hstep
    cases hstep
  · rw [enumerateStep_next m (h.idx_lt hk) hf] at hstep
    by_cases hfull : (scanAt io root m st).full = true
    · rw [if_pos hfull] at hstep
      cases hstep
    · rw [if_neg hfull] at hstep
      exact ⟨hf, Bool.eq_false_iff.mpr hfull, (Sum.inr.inj hstep).symm⟩

theorem fetchedAt_frame (io : Option BlockIo) (ino : Bytes) (idx : UInt32) (s : Machine) {a : Nat}
    (ha : ¬ InStaging a) : (fetchedAt io ino idx s).ram a = s.ram a := by
  rw [InStaging, not_and_or] at ha
  rw [fetchedAt_ram, staged]
  exact blit_outside (by omega)

theorem enumProgress_next (h : EnumProgress m t k st) (hk : k < (Inode.blockCount root).toNat) :
    EnumProgress m t (k + 1)
      ⟨st.idx + 1, (scanAt io root m st).entries, (scanAt io root m st).machine⟩ := by
  have hmax := (Inode.blockCount root).toNat_lt
  have hone : (1 : UInt32).toNat = 1 := rfl
  obtain ⟨-, hentries, honly⟩ := scanSlots_spec m (List.range owfsEntriesPerBlock) st.entries
    (fetchedAt io root st.idx st.machine) h.room
  refine ⟨?_, ?_, ?_, ?_, ?_⟩
  · rw [h.idx, ← UInt32.toNat_inj, UInt32.toNat_add, UInt32.toNat_ofNat', UInt32.toNat_ofNat', hone]
    omega
  · rw [scanAt, honly.requests, h.idx, fetchedAt_requests_length io root _ (by omega), h.requests,
      transfersOf, transfersOf]
    omega
  · intro a ha
    rw [scanAt, honly.ram, fetchedAt_frame io root _ _ ha, h.frame a ha]
  · rw [scanAt, honly.gSb, fetchedAt_gSb, h.gSb]
  · rw [scanAt, hentries]
    exact List.length_take_le _ _

theorem enumRounds (h : BoundedLoop.Reaches (enumerateStep io root m) ⟨0, [], t⟩ k st)
    (hk : k ≤ (Inode.blockCount root).toNat) : EnumProgress m t k st := by
  refine h.invariant (I := EnumProgress m t) (enumProgress_start m t) ?_
  intro j a b hj ha hstep
  rw [(enumerateStep_continues ha (by omega) hstep).2.2]
  exact enumProgress_next ha (by omega)

end Progress

def diskEntry (io : Option BlockIo) (block : UInt32) (e : Nat) : Bytes :=
  window (diskBlock io block) (e * owfsCatalogEntrySize)

/-- One past the last byte of its block the text of an entry rests on. -/
def entrySpan (ce : Bytes) (e : Nat) : Nat :=
  e * owfsCatalogEntrySize + 0x06 +
    nameSpan (CatalogEntry.name ce) (CatalogEntry.nameLength ce).toNat (mblNameMax - 1) 0

theorem entrySpan_le {ce : Bytes} {e : Nat} (he : e < 15) : entrySpan ce e ≤ 4096 := by
  have hspan := nameSpan_le (CatalogEntry.name ce) (CatalogEntry.nameLength ce).toNat
    (mblNameMax - 1) 0
  have hlen := (CatalogEntry.nameLength ce).toNat_lt
  rw [entrySpan, owfsCatalogEntrySize]
  omega

section Staged
variable {io : Option BlockIo} {block : UInt32} {ram : Bytes} {e : Nat}

theorem stagedEntry_staged {i : Nat} (hi : e * owfsCatalogEntrySize + i < 4096) :
    stagedEntry (staged io ram block) e i = diskEntry io block e i := by
  have hpos : mblFsBuf.toNat + e * owfsCatalogEntrySize + i =
      staging + (e * owfsCatalogEntrySize + i) := by
    rw [staging, Nat.add_assoc]
  rw [stagedEntry, window_apply, hpos, staged, blit_at hi]
  rfl

theorem validEntry_staged (he : e < 16) :
    validEntry (stagedEntry (staged io ram block) e) = validEntry (diskEntry io block e) := by
  have hsame : ∀ i < 256, stagedEntry (staged io ram block) e i = diskEntry io block e i := by
    intro i hi
    refine stagedEntry_staged ?_
    rw [owfsCatalogEntrySize]
    omega
  have hcrc := crc32cStruct_congr owfsInodeSize owfsStructCk fun i hi _ => hsame i hi
  have hfield : CatalogEntry.checksum (stagedEntry (staged io ram block) e) =
      CatalogEntry.checksum (diskEntry io block e) :=
    load32_congr fun k hk => hsame _ (by omega)
  have htype : CatalogEntry.entryType (stagedEntry (staged io ram block) e) =
      CatalogEntry.entryType (diskEntry io block e) := hsame 4 (by omega)
  rw [validEntry, validEntry, listable, listable, hcrc, hfield, htype]

theorem listEntry_staged (he : e < 16) (hspan : entrySpan (diskEntry io block e) e ≤ 4096) :
    listEntry (stagedEntry (staged io ram block) e) = listEntry (diskEntry io block e) := by
  have hsame : ∀ i < 256, stagedEntry (staged io ram block) e i = diskEntry io block e i := by
    intro i hi
    refine stagedEntry_staged ?_
    rw [owfsCatalogEntrySize]
    omega
  have hinode : CatalogEntry.inodeNumber (stagedEntry (staged io ram block) e) =
      CatalogEntry.inodeNumber (diskEntry io block e) := load32_congr fun k hk => hsame _ (by omega)
  have htype : CatalogEntry.entryType (stagedEntry (staged io ram block) e) =
      CatalogEntry.entryType (diskEntry io block e) := hsame 4 (by omega)
  have hlength : CatalogEntry.nameLength (stagedEntry (staged io ram block) e) =
      CatalogEntry.nameLength (diskEntry io block e) := hsame 5 (by omega)
  have hname : owfsNameToAscii (CatalogEntry.name (diskEntry io block e))
        (CatalogEntry.nameLength (diskEntry io block e)) =
      owfsNameToAscii (CatalogEntry.name (stagedEntry (staged io ram block) e))
        (CatalogEntry.nameLength (diskEntry io block e)) := by
    refine nameLoop_congr fun j hj => ?_
    rw [entrySpan] at hspan
    exact (stagedEntry_staged (i := 0x06 + j) (by omega)).symm
  simp only [listEntry, hinode, htype, hlength, hname]

theorem entriesIn_staged {slots : List Nat} (h : ∀ e ∈ slots, e < 16 ∧
      (validEntry (diskEntry io block e) = true →
        entrySpan (diskEntry io block e) e ≤ 4096)) :
    entriesIn (staged io ram block) slots =
      (slots.filter fun e => validEntry (diskEntry io block e)).map fun e =>
        listEntry (diskEntry io block e) := by
  have hfilter : slots.filter (fun e => validEntry (stagedEntry (staged io ram block) e)) =
      slots.filter fun e => validEntry (diskEntry io block e) :=
    List.filter_congr fun e he => validEntry_staged (h e he).1
  rw [entriesIn, hfilter]
  refine List.map_congr_left fun e he => ?_
  obtain ⟨hslot, hvalid⟩ := List.mem_filter.mp he
  exact listEntry_staged (h e hslot).1 ((h e hslot).2 hvalid)

theorem entriesIn_length {slots : List Nat} (h : ∀ e ∈ slots, e < 16) :
    (entriesIn (staged io ram block) slots).length =
      (slots.filter fun e => validEntry (diskEntry io block e)).length := by
  have hfilter : slots.filter (fun e => validEntry (stagedEntry (staged io ram block) e)) =
      slots.filter fun e => validEntry (diskEntry io block e) :=
    List.filter_congr fun e he => validEntry_staged (h e he)
  rw [entriesIn, hfilter, List.length_map]

end Staged

end ModularBootloader
