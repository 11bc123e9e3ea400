import ModularBootloader.RoundTrip

/-!
# What RAM contents can change

Two runs from the same statics, diagnostics and request history, with arbitrary
RAM. They stay in lockstep as long as every map word and every name byte comes
from the block just staged; a map index past the indirect block does not.
-/

namespace ModularBootloader
open ByteStore

structure SameButRam (s s' : Machine) : Prop where
  gSb : s.gSb = s'.gSb
  diag : s.diag = s'.diag
  requests : s.requests = s'.requests

section SameButRam
variable {s s' : Machine}

theorem SameButRam.raise (h : SameButRam s s') (code : Bancode) :
    SameButRam (s.raise code) (s'.raise code) :=
  ⟨h.gSb, congrArg (DiagRing.mblDiagRaise code) h.diag, h.requests⟩

theorem SameButRam.request (h : SameButRam s s') (block : UInt32) (target : Target) :
    SameButRam (s.request block target) (s'.request block target) :=
  ⟨h.gSb, h.diag, congrArg (List.cons (Request.mk block target)) h.requests⟩

theorem SameButRam.fetched_buf (h : SameButRam s s') (io : Option BlockIo) (block : UInt32) :
    SameButRam (fetched io block .blockBuf s) (fetched io block .blockBuf s') :=
  ⟨h.gSb, h.diag, congrArg (List.cons (Request.mk block .blockBuf)) h.requests⟩

theorem SameButRam.fetched_linear (h : SameButRam s s') (io : Option BlockIo)
    (block addr : UInt32) :
    SameButRam (fetched io block (.linear addr) s) (fetched io block (.linear addr) s') :=
  ⟨h.gSb, h.diag, congrArg (List.cons (Request.mk block (.linear addr))) h.requests⟩

theorem SameButRam.propagate (h : SameButRam s s') : s.propagate = s'.propagate := by
  rw [Machine.propagate, Machine.propagate, h.diag]

theorem fetchedAt_requests_congr {io : Option BlockIo} {ino : Bytes} {idx : UInt32}
    (h : s.requests = s'.requests) (hword : mapWord io s.ram ino idx = mapWord io s'.ram ino idx) :
    (fetchedAt io ino idx s).requests = (fetchedAt io ino idx s').requests := by
  rw [fetchedAt, fetchedAt, hword, fetched_requests, fetched_requests, lookedUp, lookedUp]
  split
  · rw [h]
  · rw [fetched_requests, fetched_requests, h]

theorem owfsReadInode_related (h : SameButRam s s') (io : Option BlockIo) (num : UInt32) :
    (owfsReadInode io num s).1 = (owfsReadInode io num s').1 ∧
      SameButRam (owfsReadInode io num s).2 (owfsReadInode io num s').2 := by
  rw [owfsReadInode_eq, owfsReadInode_eq, h.gSb, h.requests]
  dsimp only
  split_ifs
  · exact ⟨rfl, h⟩
  · exact ⟨rfl, (h.request _ _).raise _⟩
  · exact ⟨rfl, h.fetched_buf io _⟩
  · exact ⟨rfl, (h.fetched_buf io _).raise _⟩
  · exact ⟨rfl, h.fetched_buf io _⟩

theorem owfsBlockmapGet_related (h : SameButRam s s') (io : Option BlockIo) (ino : Bytes)
    (idx : UInt32) (hword : readFails io s.requests.length (Inode.indirectBlock ino) = false →
      mapWord io s.ram ino idx = mapWord io s'.ram ino idx) :
    (owfsBlockmapGet io ino idx s).1 = (owfsBlockmapGet io ino idx s').1 ∧
      SameButRam (owfsBlockmapGet io ino idx s).2 (owfsBlockmapGet io ino idx s').2 := by
  unfold owfsBlockmapGet
  by_cases hidx : idx ≥ Inode.blockCount ino
  · rw [if_pos hidx, if_pos hidx]
    exact ⟨rfl, h.raise _⟩
  rw [if_neg hidx, if_neg hidx]
  by_cases hd : idx < owfsDirectBlocks
  · rw [if_pos hd, if_pos hd]
    split_ifs
    · exact ⟨rfl, h.raise _⟩
    · exact ⟨rfl, h⟩
  rw [if_neg hd, if_neg hd]
  by_cases hnz : Inode.indirectBlock ino = 0
  · rw [if_pos hnz, if_pos hnz]
    exact ⟨rfl, h.raise _⟩
  rw [if_neg hnz, if_neg hnz]
  cases hread : readFails io s.requests.length (Inode.indirectBlock ino) with
  | true =>
    rw [diskReadBlock_fails hread, diskReadBlock_fails (by rwa [← h.requests])]
    exact ⟨rfl, (h.request _ _).raise _⟩
  | false =>
    have hsame := hword hread
    rw [mapWord, mapWord, if_neg hd, if_neg hd] at hsame
    rw [diskReadBlock_reads hread, diskReadBlock_reads (by rwa [← h.requests])]
    have hstaged := h.fetched_linear io (Inode.indirectBlock ino) mblFsBuf
    obtain ⟨w, hw, hw'⟩ : ∃ w,
        read32 (window (fetched io (Inode.indirectBlock ino) (.linear mblFsBuf) s).ram
          (indirectWordAddr idx).toNat) = w ∧
        read32 (window (fetched io (Inode.indirectBlock ino) (.linear mblFsBuf) s').ram
          (indirectWordAddr idx).toNat) = w := ⟨_, hsame, rfl⟩
    simp only [hw, hw', ne_eq, not_true_eq_false, if_false]
    split_ifs
    · exact ⟨rfl, hstaged.raise _⟩
    · exact ⟨rfl, hstaged⟩

end SameButRam

structure SameLoad (r r' : Loaded) : Prop where
  code : r.code = r'.code
  size : r.size = r'.size
  requests : r.machine.requests = r'.machine.requests

section CopyLoop
variable {io : Option BlockIo} {ino : Bytes} {sizeOut dest : UInt32} {t t' : Machine}

theorem loadStep_related (io : Option BlockIo) (ino : Bytes) (sizeOut : UInt32)
    {st st' : LoadState} (hidx : st.idx = st'.idx) (hdst : st.dst = st'.dst)
    (h : SameButRam st.machine st'.machine)
    (hword : readFails io st.machine.requests.length (Inode.indirectBlock ino) = false →
      mapWord io st.machine.ram ino st.idx = mapWord io st'.machine.ram ino st.idx) :
    Sum.LiftRel SameLoad
      (fun a b => a.idx = b.idx ∧ a.dst = b.dst ∧ SameButRam a.machine b.machine)
      (loadStep io ino sizeOut st) (loadStep io ino sizeOut st') := by
  have hlook := owfsBlockmapGet_related h io ino st.idx hword
  rw [loadStep, loadStep, ← hidx]
  rcases hget : owfsBlockmapGet io ino st.idx st.machine with ⟨e | b, u⟩ <;>
    rcases hget' : owfsBlockmapGet io ino st.idx st'.machine with ⟨e' | b', u'⟩ <;>
    rw [hget, hget'] at hlook
  · exact .inl ⟨hlook.2.propagate, rfl, hlook.2.requests⟩
  · cases hlook.1
  · cases hlook.1
  · obtain ⟨hb, hu⟩ := hlook
    obtain rfl := Except.ok.inj hb
    dsimp only
    cases hread : readFails io u.requests.length b with
    | true =>
      rw [diskReadBlock_fails hread, diskReadBlock_fails (by rwa [← hu.requests])]
      exact .inl ⟨rfl, rfl, ((hu.request b _).raise _).requests⟩
    | false =>
      rw [diskReadBlock_reads hread, diskReadBlock_reads (by rwa [← hu.requests])]
      have hfetched := hu.fetched_linear io b mblFsBuf
      exact .inr ⟨rfl, congrArg (· + copyLength ino st.idx) hdst, hfetched.gSb, hfetched.diag,
        hfetched.requests⟩

theorem copyLoop_related (h : SameButRam t t')
    (hreach : ∀ k st, k < (Inode.blockCount ino).toNat →
      BoundedLoop.Reaches (loadStep io ino sizeOut) ⟨0, dest, t⟩ k st → k < mapCapacity ∨
        readFails io st.machine.requests.length (Inode.indirectBlock ino) = true) :
    SameLoad
      (BoundedLoop.run (loadStep io ino sizeOut) (loadFinish ino) (Inode.blockCount ino).toNat
        ⟨0, dest, t⟩)
      (BoundedLoop.run (loadStep io ino sizeOut) (loadFinish ino) (Inode.blockCount ino).toNat
        ⟨0, dest, t'⟩) := by
  let R : Nat → LoadState → LoadState → Prop := fun k st st' =>
    BoundedLoop.Reaches (loadStep io ino sizeOut) ⟨0, dest, t⟩ k st ∧ st.idx = st'.idx ∧
      st.dst = st'.dst ∧ SameButRam st.machine st'.machine
  refine BoundedLoop.run_related (R := R) _ ?_ ?_ ⟨.start, rfl, rfl, h⟩
  · rintro k st st' hk ⟨hr, hidx, hdst, hsame⟩
    have hprog := copyRounds hr hk.le
    have hstep := loadStep_related io ino sizeOut hidx hdst hsame fun hread => ?_
    · generalize loadStep io ino sizeOut st' = round' at hstep ⊢
      cases hround : loadStep io ino sizeOut st with
      | inl r =>
        rw [hround] at hstep
        cases hstep with
        | inl hq => exact .inl hq
      | inr u =>
        rw [hround] at hstep
        cases hstep with
        | inr hrel => exact .inr ⟨.next hr hround, hrel⟩
    · rcases hreach k st hk hr with hcap | hfails
      · have hmax := (Inode.blockCount ino).toNat_lt
        rw [hprog.idx]
        exact Option.some.inj ((mapWord_entry io ino hcap _).symm.trans
          (mapWord_entry io ino hcap _))
      · rw [hread] at hfails
        cases hfails
  · rintro st st' ⟨-, -, -, hsame⟩
    exact ⟨rfl, rfl, hsame.requests⟩

end CopyLoop

def withRam (s : Machine) (ram buf : Bytes) : Machine := { s with ram := ram, gBlockBuf := buf }

/-- Whatever RAM holds, the load returns the same and reads the same blocks. -/
def LoadDecided (io : Option BlockIo) (num sizeOut : UInt32) (s : Machine) : Prop :=
  ∀ ram buf ram' buf', SameLoad (owfsLoadFile io num mblKernelAddr sizeOut (withRam s ram buf))
    (owfsLoadFile io num mblKernelAddr sizeOut (withRam s ram' buf'))

/-- The load fetches every block its map can describe and still has more to go. -/
structure ReadsPastMap (io : Option BlockIo) (num : UInt32) (s : Machine) : Prop where
  accepted : LoadAccepted io num s
  longer : mapCapacity < (Inode.blockCount (onDiskInode io s.gSb num)).toNat
  fetched : ∀ f < mapCapacity, ¬ FetchFails io (s.requests.length + 1 + transfersOf f) s.ram
    (onDiskInode io s.gSb num) (UInt32.ofNat f)
  read : readFails io (s.requests.length + 1 + transfersOf mapCapacity)
    (Inode.indirectBlock (onDiskInode io s.gSb num)) = false

section Loads
variable {io : Option BlockIo} {num sizeOut : UInt32} {s : Machine}

theorem fetchFails_ram {ino : Bytes} {nth f : Nat} (hf : f < mapCapacity) (ram ram' : Bytes) :
    FetchFails io nth ram ino (UInt32.ofNat f) ↔ FetchFails io nth ram' ino (UInt32.ofNat f) :=
  fetchFails_congr io ino nth (Option.some.inj
    ((mapWord_entry io ino hf ram).symm.trans (mapWord_entry io ino hf ram')))

theorem InodeAccepted.withRam (h : InodeAccepted io num s) (ram buf : Bytes) :
    InodeAccepted io num (withRam s ram buf) :=
  ⟨h.inTable, h.read, h.used, h.checked⟩

theorem LoadAccepted.withRam (h : LoadAccepted io num s) (ram buf : Bytes) :
    LoadAccepted io num (withRam s ram buf) :=
  ⟨h.inode.withRam ram buf, h.file, h.min, h.max⟩

theorem loadDecided_of_within (h : ¬ ReadsPastMap io num s) : LoadDecided io num sizeOut s := by
  intro ram buf ram' buf'
  have hsame : SameButRam (withRam s ram buf) (withRam s ram' buf') := ⟨rfl, rfl, rfl⟩
  have hread := owfsReadInode_related hsame io num
  rw [owfsLoadFile, owfsLoadFile]
  rcases hino : owfsReadInode io num (withRam s ram buf) with ⟨e | ino, u⟩ <;>
    rcases hino' : owfsReadInode io num (withRam s ram' buf') with ⟨e' | ino', u'⟩ <;>
    rw [hino, hino'] at hread
  · exact ⟨hread.2.propagate, rfl, hread.2.requests⟩
  · cases hread.1
  · cases hread.1
  · obtain ⟨hb, hu⟩ := hread
    obtain rfl := Except.ok.inj hb
    obtain ⟨hacc, rfl, rfl⟩ := owfsReadInode_ok hino
    dsimp only
    split_ifs with hfile hmin hmax
    · exact ⟨rfl, rfl, hu.requests⟩
    · exact ⟨rfl, rfl, hu.requests⟩
    · exact ⟨rfl, rfl, hu.requests⟩
    · rw [UInt32.lt_iff_toNat_lt, not_lt] at hmin
      rw [gt_iff_lt, UInt32.lt_iff_toNat_lt, not_lt] at hmax
      have hload : LoadAccepted io num s :=
        ⟨⟨hacc.inTable, hacc.read, hacc.used, hacc.checked⟩, hfile, hmin, hmax⟩
      refine copyLoop_related hu fun k st hk hr => ?_
      by_contra hnot
      rw [not_or, not_lt, Bool.not_eq_true] at hnot
      obtain ⟨hfar, hreads⟩ := hnot
      have hcap : mapCapacity = 1034 := rfl
      have hfetched : ∀ f < mapCapacity, ¬ FetchFails io
          (s.requests.length + 1 + transfersOf f) s.ram (onDiskInode io s.gSb num)
          (UInt32.ofNat f) := by
        intro f hf
        rw [fetchFails_ram hf s.ram ram]
        exact copyRounds_fetched hr hk.le (by omega) (by omega)
      refine h ⟨hload, Nat.lt_of_le_of_lt hfar hk, hfetched, ?_⟩
      rcases Nat.lt_or_eq_of_le hfar with hfar | rfl
      · have hcapacity := copyRounds_fetched hr hk.le hfar (by omega)
        rw [FetchFails, LookupFails, not_or, not_or, not_and, not_or] at hcapacity
        have hindirect := mt (direct_ofNat (k := mapCapacity) (by omega)).mp (by omega)
        exact Bool.not_eq_true _ ▸ (hcapacity.1.1 hindirect).2
      · rwa [(copyRounds hr hk.le).requests] at hreads

theorem StoppedAt.requests_length {ino : Bytes} {idx : UInt32} {t u : Machine}
    (h : StoppedAt io ino idx t u) : t.requests.length ≤ u.requests.length := by
  rcases h with ⟨-, rfl | ⟨-, -, rfl | rfl⟩⟩ | ⟨-, rfl⟩
  · exact le_rfl
  · exact Nat.le_succ _
  · rw [lookedUp_requests_length]
    exact Nat.le_add_right _ _
  · rw [Machine.request_requests, List.length_cons, lookedUp_requests_length]
    omega

theorem mapWord_past (io : Option BlockIo) (ino : Bytes) {ram : Bytes} {c : UInt8}
    (h : ∀ a, staging + 4096 ≤ a → a < staging + 0x4000 → ram a = c) :
    mapWord io ram ino (UInt32.ofNat mapCapacity) = load32 (fun _ => c) 0 := by
  have hcap : mapCapacity = 1034 := rfl
  have hindirect := mt (direct_ofNat (k := mapCapacity) (by omega)).mp (by omega)
  have hbehind : mapWord io ram ino (UInt32.ofNat mapCapacity) =
      mapWord io (fun _ => c) ino (UInt32.ofNat mapCapacity) :=
    mapWord_congr io ino (by omega) h
  rw [hbehind, mapWord, if_neg hindirect, read32, load32_window,
    indirectWordAddr_ofNat (by omega) (by omega)]
  refine load32_congr fun k _ => ?_
  generalize hpos : staging + 4 * (mapCapacity - 10) + 0 + k = pos
  have hout : staging + 4096 ≤ pos := by omega
  rw [staged, blit_outside (.inr hout)]

section Past
variable {sizeOut : UInt32} (h : ReadsPastMap io num s)
include h

theorem ReadsPastMap.reaches (sizeOut : UInt32) (c : UInt8) (buf : Bytes) : ∃ st,
    BoundedLoop.Reaches (loadStep io (onDiskInode io s.gSb num) sizeOut)
      ⟨0, mblKernelAddr, afterInode io num (withRam s (fun _ => c) buf)⟩ mapCapacity st ∧
    CopyProgress (onDiskInode io s.gSb num) mblKernelAddr
      (afterInode io num (withRam s (fun _ => c) buf)) mapCapacity st ∧
    mapWord io st.machine.ram (onDiskInode io s.gSb num) st.idx = load32 (fun _ => c) 0 := by
  have hcap : mapCapacity = 1034 := rfl
  obtain ⟨st, hr, hprog⟩ := copyRounds_reach io sizeOut
    (t := afterInode io num (withRam s (fun _ => c) buf)) h.longer.le (by omega)
    fun f hf => (fetchFails_ram hf s.ram _).not.mp (h.fetched f hf)
  refine ⟨st, hr, hprog, ?_⟩
  rw [hprog.idx]
  refine mapWord_past io _ fun a hlo hhi => ?_
  have hstaging : staging = 0x30000 := rfl
  have hsmall : mapCapacity ≤ 2 ^ 20 - 512 := by decide
  have hlow : a < 0x200000 := by omega
  exact copyProgress_behind hprog hsmall hlo hlow

theorem ReadsPastMap.lookup_stops (sizeOut : UInt32) (buf : Bytes) :
    (owfsLoadFile io num mblKernelAddr sizeOut (withRam s (fun _ => 0) buf)).machine.requests.length
      ≤ s.requests.length + 1 + transfersOf mapCapacity + 1 := by
  have hacc := h.accepted.withRam (fun _ => 0) buf
  obtain ⟨st, hr, hprog, hword⟩ := h.reaches sizeOut 0 buf
  have hzero : load32 (fun _ => 0) 0 = 0 := by decide
  have hlookup : LookupFails io st.machine.requests.length st.machine.ram
      (onDiskInode io s.gSb num) st.idx := .inr (hword.trans hzero)
  obtain ⟨u, code, hstep, -, hu⟩ := loadStep_fails sizeOut (hprog.idx_lt h.longer)
    (.inl hlookup)
  have hcount : u.requests.length ≤ st.machine.requests.length + 1 := by
    rcases hu with ⟨-, rfl | ⟨hd, -, rfl | rfl⟩⟩ | ⟨hl, -⟩
    · exact Nat.le_succ _
    · exact le_rfl
    · rw [lookedUp, if_neg hd, fetched_requests, List.length_cons]
    · exact absurd hlookup hl
  rw [hprog.requests] at hcount
  rw [owfsLoadFile_accepted hacc]
  have hrun := hr.run_exit (loadFinish (onDiskInode io s.gSb num)) h.longer hstep
  exact (congrArg (fun r : Loaded => r.machine.requests.length) hrun).trans_le hcount

theorem ReadsPastMap.lookup_succeeds {st : LoadState} {buf : Bytes}
    (hprog : CopyProgress (onDiskInode io s.gSb num) mblKernelAddr
      (afterInode io num (withRam s (fun _ => 1) buf)) mapCapacity st)
    (hword : mapWord io st.machine.ram (onDiskInode io s.gSb num) st.idx = load32 (fun _ => 1) 0) :
    ¬ LookupFails io st.machine.requests.length st.machine.ram (onDiskInode io s.gSb num)
      st.idx := by
  have hcap : mapCapacity = 1034 := rfl
  have hten := h.fetched 10 (by omega)
  have hindirect := mt (direct_ofNat (k := 10) (by omega)).mp (by omega)
  rw [FetchFails, LookupFails, not_or, not_or, not_and, not_or] at hten
  rintro (⟨-, hzero | hread⟩ | hzero)
  · exact (hten.1.1 hindirect).1 hzero
  · have hstart : (afterInode io num (withRam s (fun _ => 1) buf)).requests.length =
        s.requests.length + 1 := rfl
    rw [hprog.requests, hstart, h.read] at hread
    cases hread
  · rw [hword] at hzero
    exact absurd hzero (by decide)

theorem ReadsPastMap.lookup_continues (sizeOut : UInt32) (buf : Bytes) :
    s.requests.length + 1 + transfersOf mapCapacity + 2 ≤
      (owfsLoadFile io num mblKernelAddr sizeOut
        (withRam s (fun _ => 1) buf)).machine.requests.length := by
  have hcap : mapCapacity = 1034 := rfl
  have hacc := h.accepted.withRam (fun _ => 1) buf
  have hlonger := h.longer
  obtain ⟨st, hr, hprog, hword⟩ := h.reaches sizeOut 1 buf
  have hcounted : ∀ k st', k ≤ (Inode.blockCount (onDiskInode io s.gSb num)).toNat →
      mapCapacity < k →
      BoundedLoop.Reaches (loadStep io (onDiskInode io s.gSb num) sizeOut)
        ⟨0, mblKernelAddr, afterInode io num (withRam s (fun _ => 1) buf)⟩ k st' →
      s.requests.length + 1 + transfersOf mapCapacity + 2 ≤ st'.machine.requests.length := by
    intro k st' hk hlt hr'
    have hlength := (copyRounds hr' hk).requests
    have hstart : (afterInode io num (withRam s (fun _ => 1) buf)).requests.length =
        s.requests.length + 1 := rfl
    rw [hlength, hstart, transfersOf, transfersOf]
    omega
  rw [owfsLoadFile_accepted hacc]
  rcases copyRun_cases io (onDiskInode io s.gSb num) sizeOut mblKernelAddr
    (afterInode io num (withRam s (fun _ => 1) buf)) with
    ⟨k, st', u, code, hk, hr', hf, heq, -, hu⟩ | ⟨st', hr', heq⟩
  · have hrequests := congrArg (fun r : Loaded => r.machine.requests.length) heq
    refine le_of_le_of_eq ?_ hrequests.symm
    rcases lt_trichotomy k mapCapacity with hlt | rfl | hlt
    · rw [copyProgress_fetchFails (copyRounds hr' hk.le) (by omega),
        fetchFails_ram hlt _ s.ram] at hf
      exact absurd hf (h.fetched k hlt)
    · obtain rfl := hr.det hr'
      rcases hu with ⟨hl, -⟩ | ⟨-, rfl⟩
      · exact absurd hl (h.lookup_succeeds hprog hword)
      · rw [Machine.raise_requests, Machine.request_requests, List.length_cons,
          lookedUp_requests_length, lookupTransfers, if_neg, hprog.requests]
        · exact le_rfl
        · rw [hprog.idx]
          exact mt (direct_ofNat (k := mapCapacity) (by omega)).mp (by omega)
    · exact (hcounted k st' hk.le hlt hr').trans hu.requests_length
  · have hrequests := congrArg (fun r : Loaded => r.machine.requests.length) heq
    exact le_of_le_of_eq (hcounted _ st' le_rfl hlonger hr') hrequests.symm

theorem ReadsPastMap.not_decided : ¬ LoadDecided io num sizeOut s := by
  intro hdecided
  have hsame := congrArg List.length
    (hdecided (fun _ => 0) s.gBlockBuf (fun _ => 1) s.gBlockBuf).requests
  have hstops := h.lookup_stops sizeOut s.gBlockBuf
  have hcontinues := h.lookup_continues sizeOut s.gBlockBuf
  omega

end Past

theorem loadDecided_iff : LoadDecided io num sizeOut s ↔ ¬ ReadsPastMap io num s :=
  ⟨fun hdecided hpast => hpast.not_decided hdecided, loadDecided_of_within⟩

end Loads

def validBelow (io : Option BlockIo) (block : UInt32) (n : Nat) : Nat :=
  ((List.range n).filter fun e => validEntry (diskEntry io block e)).length

def slotsListed (io : Option BlockIo) (ino : Bytes) : Nat → Nat
  | 0 => 0
  | k + 1 => slotsListed io ino k + validBelow io (mapBlock io ino k) 16

structure RootAccepted (io : Option BlockIo) (s : Machine) : Prop where
  inode : InodeAccepted io owfsRootInode s
  catalog : Inode.entryType (onDiskInode io s.gSb owfsRootInode) &&& owfsEntryCatalog ≠ 0

/-- The listing goes past the root's map, with room left in the caller's array. -/
structure ListsPastMap (io : Option BlockIo) (m : Nat) (s : Machine) : Prop where
  accepted : RootAccepted io s
  longer : mapCapacity < (Inode.blockCount (onDiskInode io s.gSb owfsRootInode)).toNat
  fetched : ∀ f < mapCapacity, ¬ FetchFails io (s.requests.length + 1 + transfersOf f) s.ram
    (onDiskInode io s.gSb owfsRootInode) (UInt32.ofNat f)
  room : slotsListed io (onDiskInode io s.gSb owfsRootInode) mapCapacity ≤ m
  read : readFails io (s.requests.length + 1 + transfersOf mapCapacity)
    (Inode.indirectBlock (onDiskInode io s.gSb owfsRootInode)) = false

/-- The listing gets to an entry in the last slot of a block whose name it
follows past the end of the block. -/
structure ListsPastBlock (io : Option BlockIo) (m : Nat) (s : Machine) (k : Nat) : Prop where
  accepted : RootAccepted io s
  inMap : k < (Inode.blockCount (onDiskInode io s.gSb owfsRootInode)).toNat ∧ k < mapCapacity
  fetched : ∀ f ≤ k, ¬ FetchFails io (s.requests.length + 1 + transfersOf f) s.ram
    (onDiskInode io s.gSb owfsRootInode) (UInt32.ofNat f)
  room : slotsListed io (onDiskInode io s.gSb owfsRootInode) k +
    validBelow io (mapBlock io (onDiskInode io s.gSb owfsRootInode) k) 15 < m
  valid : validEntry (diskEntry io
    (mapBlock io (onDiskInode io s.gSb owfsRootInode) k) 15) = true
  past : 4096 < entrySpan (diskEntry io
    (mapBlock io (onDiskInode io s.gSb owfsRootInode) k) 15) 15

def ListsWithin (io : Option BlockIo) (m : Nat) (s : Machine) : Prop :=
  ¬ ListsPastMap io m s ∧ ∀ k, ¬ ListsPastBlock io m s k

structure SameListing (l l' : Listing) : Prop where
  result : l.result = l'.result
  entries : l.entries = l'.entries

def ListingDecided (io : Option BlockIo) (m : Nat) (s : Machine) : Prop :=
  ∀ ram buf ram' buf', SameListing (owfsEnumerate io m (withRam s ram buf))
    (owfsEnumerate io m (withRam s ram' buf'))

section Listings
variable {io : Option BlockIo} {root : Bytes} {m k : Nat} {s t : Machine} {st st' : EnumState}

theorem entriesIn_take {block : UInt32} {es : List MblEntry} (ram ram' : Bytes)
    (hlast : es.length + validBelow io block 15 < m →
      validEntry (diskEntry io block 15) = true → entrySpan (diskEntry io block 15) 15 ≤ 4096) :
    (es ++ entriesIn (staged io ram block) (List.range 16)).take m =
      (es ++ entriesIn (staged io ram' block) (List.range 16)).take m := by
  have hfirst : entriesIn (staged io ram block) (List.range 15) =
      entriesIn (staged io ram' block) (List.range 15) := by
    have hslots : ∀ e ∈ List.range 15, e < 16 ∧ (validEntry (diskEntry io block e) = true →
        entrySpan (diskEntry io block e) e ≤ 4096) := by
      intro e he
      have hlt := List.mem_range.mp he
      exact ⟨by omega, fun _ => entrySpan_le hlt⟩
    rw [entriesIn_staged hslots, entriesIn_staged hslots]
  have hsplit : ∀ ram, entriesIn (staged io ram block) (List.range 16) =
      entriesIn (staged io ram block) (List.range 15) ++
        entriesIn (staged io ram block) [15] := by
    intro ram
    rw [List.range_succ, entriesIn, List.filter_append, List.map_append]
    rfl
  rw [hsplit, hsplit, ← hfirst, ← List.append_assoc, ← List.append_assoc]
  have hlen : (es ++ entriesIn (staged io ram block) (List.range 15)).length =
      es.length + validBelow io block 15 := by
    rw [List.length_append, entriesIn_length fun e he => by
      have hlt := List.mem_range.mp he
      omega, validBelow]
  by_cases hroom : es.length + validBelow io block 15 < m
  · have hslot : ∀ e ∈ [15], e < 16 ∧ (validEntry (diskEntry io block e) = true →
        entrySpan (diskEntry io block e) e ≤ 4096) := by
      intro e he
      obtain rfl := List.mem_singleton.mp he
      exact ⟨by omega, hlast hroom⟩
    rw [entriesIn_staged hslot, entriesIn_staged hslot]
  · have hfits : m ≤ (es ++ entriesIn (staged io ram block) (List.range 15)).length := by
      rw [hlen]
      omega
    rw [List.take_append_of_le_length hfits, List.take_append_of_le_length hfits]

theorem slotsListed_mono (io : Option BlockIo) (root : Bytes) :
    Monotone (slotsListed io root) := by
  apply monotone_nat_of_le_succ
  intro k
  exact Nat.le_add_right _ _

theorem scanAt_counts (h : EnumProgress m t k st) (hk : k < mapCapacity)
    (hlen : st.entries.length = slotsListed io root k) :
    (scanAt io root m st).full = decide (m < slotsListed io root (k + 1)) ∧
      (scanAt io root m st).entries.length = min m (slotsListed io root (k + 1)) := by
  obtain ⟨hfull, hentries, -⟩ := scanSlots_spec m (List.range owfsEntriesPerBlock) st.entries
    (fetchedAt io root st.idx st.machine) h.room
  have hcount : (st.entries ++ entriesIn (fetchedAt io root st.idx st.machine).ram
      (List.range owfsEntriesPerBlock)).length = slotsListed io root (k + 1) := by
    rw [List.length_append, fetchedAt_ram, h.idx, mapWord_mapBlock io root _ hk,
      owfsEntriesPerBlock, entriesIn_length fun e he => List.mem_range.mp he, hlen]
    rfl
  rw [hcount] at hfull
  refine ⟨hfull, ?_⟩
  have hlength := congrArg List.length hentries
  rwa [List.length_take, hcount] at hlength

theorem listedRounds (h : BoundedLoop.Reaches (enumerateStep io root m) ⟨0, [], t⟩ k st)
    (hk : k ≤ (Inode.blockCount root).toNat) (hcap : k ≤ mapCapacity) :
    st.entries.length = slotsListed io root k := by
  have hboth := h.invariant (I := fun k st => EnumProgress m t k st ∧
    st.entries.length = slotsListed io root k) ⟨enumProgress_start m t, rfl⟩ ?_
  · exact hboth.2
  · rintro j a b hj ⟨hprog, hlen⟩ hstep
    obtain ⟨-, hroom, hnext⟩ := enumerateStep_continues hprog (by omega) hstep
    obtain ⟨hfull, hlength⟩ := scanAt_counts hprog (by omega) hlen
    rw [hfull, decide_eq_false_iff_not, not_lt] at hroom
    rw [hnext]
    exact ⟨enumProgress_next hprog (by omega), hlength.trans (Nat.min_eq_right hroom)⟩

theorem fetchFails_related (h : st.machine.requests = st'.machine.requests)
    (hidx : st.idx = st'.idx)
    (hword : mapWord io st.machine.ram root st.idx = mapWord io st'.machine.ram root st.idx ∨
      (¬ st.idx < owfsDirectBlocks ∧
        readFails io st.machine.requests.length (Inode.indirectBlock root) = true)) :
    (LookupFails io st.machine.requests.length st.machine.ram root st.idx ↔
      LookupFails io st'.machine.requests.length st'.machine.ram root st'.idx) ∧
    (FetchFails io st.machine.requests.length st.machine.ram root st.idx ↔
      FetchFails io st'.machine.requests.length st'.machine.ram root st'.idx) := by
  rw [← hidx, ← h]
  rcases hword with hword | ⟨hd, hread⟩
  · rw [LookupFails, LookupFails, FetchFails, FetchFails, LookupFails, LookupFails, hword]
    exact ⟨Iff.rfl, Iff.rfl⟩
  · have hfails : ∀ ram, LookupFails io st.machine.requests.length ram root st.idx :=
      fun ram => .inl ⟨hd, .inr hread⟩
    exact ⟨iff_of_true (hfails _) (hfails _), iff_of_true (.inl (hfails _)) (.inl (hfails _))⟩

theorem enumerateStep_related (hprog : EnumProgress m t k st)
    (hk : k < (Inode.blockCount root).toNat) (hidx : st.idx = st'.idx)
    (hes : st.entries = st'.entries) (h : st.machine.requests = st'.machine.requests)
    (hword : k < mapCapacity ∨
      (k = mapCapacity ∧
        readFails io st.machine.requests.length (Inode.indirectBlock root) = true))
    (hlast : ¬ FetchFails io st.machine.requests.length st.machine.ram root st.idx →
      st.entries.length + validBelow io (mapBlock io root k) 15 < m →
      validEntry (diskEntry io (mapBlock io root k) 15) = true →
      entrySpan (diskEntry io (mapBlock io root k) 15) 15 ≤ 4096) :
    Sum.LiftRel SameListing
      (fun a b => a.idx = b.idx ∧ a.entries = b.entries ∧
        a.machine.requests = b.machine.requests)
      (enumerateStep io root m st) (enumerateStep io root m st') := by
  have hcap : mapCapacity = 1034 := rfl
  have hlt := hprog.idx_lt hk
  have hsame : mapWord io st.machine.ram root st.idx = mapWord io st'.machine.ram root st.idx ∨
      (¬ st.idx < owfsDirectBlocks ∧
        readFails io st.machine.requests.length (Inode.indirectBlock root) = true) := by
    rw [hprog.idx]
    rcases hword with hk | ⟨rfl, hread⟩
    · rw [mapWord_mapBlock io root _ hk, mapWord_mapBlock io root _ hk]
      exact .inl rfl
    · exact .inr ⟨mt (direct_ofNat (k := mapCapacity) (by omega)).mp (by omega), hread⟩
  obtain ⟨hlookup, hfetch⟩ := fetchFails_related h hidx hsame
  by_cases hf : FetchFails io st.machine.requests.length st.machine.ram root st.idx
  · obtain ⟨u, code, res, heq, hres, -⟩ := enumerateStep_fails m hlt hf
    obtain ⟨u', code', res', heq', hres', -⟩ :=
      enumerateStep_fails m (by rwa [← hidx]) (hfetch.mp hf)
    rw [heq, heq']
    refine .inl ⟨?_, hes⟩
    rcases hres with ⟨hl, rfl⟩ | ⟨hl, rfl⟩ <;> rcases hres' with ⟨hl', rfl⟩ | ⟨hl', rfl⟩
    · rfl
    · exact absurd (hlookup.mp hl) hl'
    · exact absurd (hlookup.mpr hl') hl
    · rfl
  · have hnear : k < mapCapacity := by
      rcases hword with hk | ⟨rfl, hread⟩
      · exact hk
      · refine absurd (.inl (.inl ⟨?_, .inr hread⟩)) hf
        rw [hprog.idx]
        exact mt (direct_ofNat (k := mapCapacity) (by omega)).mp (by omega)
    have hblock : mapWord io st.machine.ram root st.idx = mapBlock io root k := by
      rw [hprog.idx, mapWord_mapBlock io root _ hnear]
    have hblock' : mapWord io st'.machine.ram root st'.idx = mapBlock io root k := by
      rw [← hidx, hprog.idx, mapWord_mapBlock io root _ hnear]
    obtain ⟨hfull, hentries, honly⟩ := scanSlots_spec m (List.range owfsEntriesPerBlock) st.entries
      (fetchedAt io root st.idx st.machine) hprog.room
    obtain ⟨hfull', hentries', honly'⟩ := scanSlots_spec m (List.range owfsEntriesPerBlock)
      st'.entries (fetchedAt io root st'.idx st'.machine) (by rw [← hes]; exact hprog.room)
    rw [fetchedAt_ram, owfsEntriesPerBlock] at hfull hentries hfull' hentries'
    rw [hblock] at hfull hentries
    rw [hblock', ← hes] at hfull' hentries'
    have htake := entriesIn_take st.machine.ram st'.machine.ram (hlast hf)
    have hlength : ∀ ram, (st.entries ++ entriesIn (staged io ram (mapBlock io root k))
        (List.range 16)).length = st.entries.length + validBelow io (mapBlock io root k) 16 := by
      intro ram
      rw [List.length_append, entriesIn_length fun e he => List.mem_range.mp he, validBelow]
    rw [hlength] at hfull hfull'
    have hsamefull : (scanAt io root m st).full = (scanAt io root m st').full := by
      rw [scanAt, scanAt, ← hes]
      exact hfull.trans hfull'.symm
    have hsameentries : (scanAt io root m st).entries = (scanAt io root m st').entries := by
      rw [scanAt, scanAt, ← hes]
      exact hentries.trans (htake.trans hentries'.symm)
    have hrequests : (scanAt io root m st).machine.requests =
        (scanAt io root m st').machine.requests := by
      rw [scanAt, scanAt, honly.requests, honly'.requests, ← hidx]
      rw [← hidx] at hblock'
      exact fetchedAt_requests_congr h (hblock.trans hblock'.symm)
    rw [enumerateStep_next m hlt hf, enumerateStep_next m (by rwa [← hidx]) (mt hfetch.mpr hf),
      ← hsamefull]
    split_ifs
    · exact .inl ⟨by rw [hsameentries], hsameentries⟩
    · exact .inr ⟨by rw [hidx], hsameentries, hrequests⟩

theorem enumLoop_related {t' : Machine} (h : t.requests = t'.requests)
    (hreach : ∀ k st, k < (Inode.blockCount root).toNat →
      BoundedLoop.Reaches (enumerateStep io root m) ⟨0, [], t⟩ k st → k < mapCapacity ∨
        (k = mapCapacity ∧
          readFails io st.machine.requests.length (Inode.indirectBlock root) = true))
    (hlast : ∀ k st, k < (Inode.blockCount root).toNat → k < mapCapacity →
      BoundedLoop.Reaches (enumerateStep io root m) ⟨0, [], t⟩ k st →
      ¬ FetchFails io st.machine.requests.length st.machine.ram root st.idx →
      st.entries.length + validBelow io (mapBlock io root k) 15 < m →
      validEntry (diskEntry io (mapBlock io root k) 15) = true →
      entrySpan (diskEntry io (mapBlock io root k) 15) 15 ≤ 4096) :
    SameListing
      (BoundedLoop.run (enumerateStep io root m) enumerateFinish (Inode.blockCount root).toNat
        ⟨0, [], t⟩)
      (BoundedLoop.run (enumerateStep io root m) enumerateFinish (Inode.blockCount root).toNat
        ⟨0, [], t'⟩) := by
  let R : Nat → EnumState → EnumState → Prop := fun k st st' =>
    BoundedLoop.Reaches (enumerateStep io root m) ⟨0, [], t⟩ k st ∧ st.idx = st'.idx ∧
      st.entries = st'.entries ∧ st.machine.requests = st'.machine.requests
  refine BoundedLoop.run_related (R := R) _ ?_ ?_ ⟨.start, rfl, rfl, h⟩
  · rintro k st st' hk ⟨hr, hidx, hes, hsame⟩
    have hfar := hreach k st hk hr
    have hstep := enumerateStep_related (enumRounds hr hk.le) hk hidx hes hsame hfar
      fun hf => ?_
    · generalize enumerateStep io root m st' = round' at hstep ⊢
      cases hround : enumerateStep io root m st with
      | inl r =>
        rw [hround] at hstep
        cases hstep with
        | inl hq => exact .inl hq
      | inr u =>
        rw [hround] at hstep
        cases hstep with
        | inr hrel => exact .inr ⟨.next hr hround, hrel⟩
    · rcases hfar with hcap | ⟨rfl, hread⟩
      · exact hlast k st hk hcap hr hf
      · have hcap : mapCapacity = 1034 := rfl
        refine absurd (.inl (.inl ⟨?_, .inr hread⟩)) hf
        rw [(enumRounds hr hk.le).idx]
        exact mt (direct_ofNat (k := mapCapacity) (by omega)).mp (by omega)
  · rintro st st' ⟨-, -, hes, -⟩
    refine ⟨?_, hes⟩
    rw [enumerateFinish, enumerateFinish, hes]

theorem enumProgress_fetchFails (h : EnumProgress m t k st) (hk : k ≤ 4096) :
    FetchFails io st.machine.requests.length st.machine.ram root st.idx ↔
      FetchFails io (t.requests.length + transfersOf k) t.ram root (UInt32.ofNat k) := by
  rw [h.idx, h.requests]
  refine fetchFails_congr io root _ (mapWord_congr io root hk ?_)
  intro a hlo hhi
  exact h.frame a fun hst => absurd hst.2 (by omega)

theorem enumRounds_reach (t : Machine) (hk : k ≤ (Inode.blockCount root).toNat)
    (hcap : k ≤ mapCapacity)
    (hfetch : ∀ f < k, ¬ FetchFails io (t.requests.length + transfersOf f) t.ram root
      (UInt32.ofNat f)) (hroom : slotsListed io root k ≤ m) :
    ∃ st, BoundedLoop.Reaches (enumerateStep io root m) ⟨0, [], t⟩ k st ∧
      EnumProgress m t k st := by
  have hval : mapCapacity = 1034 := rfl
  have hround : ∀ j a, j < k → EnumProgress m t j a ∧ a.entries.length = slotsListed io root j →
      ∃ b, enumerateStep io root m a = .inr b ∧
        EnumProgress m t (j + 1) b ∧ b.entries.length = slotsListed io root (j + 1) := by
    rintro j a hj ⟨hprog, hlen⟩
    have hnot := hfetch j hj
    rw [← enumProgress_fetchFails hprog (by omega)] at hnot
    have hfits : slotsListed io root (j + 1) ≤ m := (slotsListed_mono io root hj).trans hroom
    obtain ⟨hfull, hlength⟩ := scanAt_counts hprog (by omega) hlen
    rw [decide_eq_false (not_lt.mpr hfits)] at hfull
    have hstep := enumerateStep_next m (hprog.idx_lt (by omega)) hnot
    rw [hfull] at hstep
    exact ⟨_, hstep, enumProgress_next hprog (by omega),
      hlength.trans (Nat.min_eq_right hfits)⟩
  obtain ⟨st, hr, hprog, -⟩ := BoundedLoop.reaches_of_progress
    (I := fun j st => EnumProgress m t j st ∧ st.entries.length = slotsListed io root j)
    ⟨enumProgress_start m t, rfl⟩ hround
  exact ⟨st, hr, hprog⟩

theorem enumRounds_fetched {f : Nat}
    (hr : BoundedLoop.Reaches (enumerateStep io root m) ⟨0, [], t⟩ k st)
    (hk : k ≤ (Inode.blockCount root).toNat) (hf : f < k) (hf' : f ≤ 4096) :
    ¬ FetchFails io (t.requests.length + transfersOf f) t.ram root (UInt32.ofNat f) := by
  obtain ⟨a, b, hra, hstep⟩ := hr.earlier hf
  have hprog := enumRounds hra (by omega)
  rw [← enumProgress_fetchFails hprog hf']
  exact (enumerateStep_continues hprog (by omega) hstep).1

theorem listsPastMap_of_reached {ram buf : Bytes} (hroot : RootAccepted io s)
    (hr : BoundedLoop.Reaches (enumerateStep io (onDiskInode io s.gSb owfsRootInode) m)
      ⟨0, [], afterInode io owfsRootInode (withRam s ram buf)⟩ k st)
    (hk : k < (Inode.blockCount (onDiskInode io s.gSb owfsRootInode)).toNat)
    (hcap : mapCapacity ≤ k)
    (hread : readFails io (s.requests.length + 1 + transfersOf mapCapacity)
      (Inode.indirectBlock (onDiskInode io s.gSb owfsRootInode)) = false) :
    ListsPastMap io m s := by
  have hval : mapCapacity = 1034 := rfl
  refine ⟨hroot, Nat.lt_of_le_of_lt hcap hk, fun f hf => ?_, ?_, hread⟩
  · rw [fetchFails_ram hf s.ram ram]
    exact enumRounds_fetched hr hk.le (by omega) (by omega)
  · obtain ⟨a, hra⟩ := hr.upTo hcap
    have hroom := (enumRounds hra (by omega)).room
    rwa [listedRounds hra (by omega) le_rfl] at hroom

theorem listingDecided_of_within (h : ListsWithin io m s) : ListingDecided io m s := by
  intro ram buf ram' buf'
  have hsame : SameButRam (withRam s ram buf) (withRam s ram' buf') := ⟨rfl, rfl, rfl⟩
  have hread := owfsReadInode_related hsame io owfsRootInode
  rw [owfsEnumerate, owfsEnumerate]
  rcases hino : owfsReadInode io owfsRootInode (withRam s ram buf) with ⟨e | root, u⟩ <;>
    rcases hino' : owfsReadInode io owfsRootInode (withRam s ram' buf') with ⟨e' | root', u'⟩ <;>
    rw [hino, hino'] at hread
  · exact ⟨rfl, rfl⟩
  · cases hread.1
  · cases hread.1
  · obtain ⟨hb, hu⟩ := hread
    obtain rfl := Except.ok.inj hb
    obtain ⟨hacc, rfl, rfl⟩ := owfsReadInode_ok hino
    dsimp only
    split_ifs with hcat
    · exact ⟨rfl, rfl⟩
    have hroot : RootAccepted io s :=
      ⟨⟨hacc.inTable, hacc.read, hacc.used, hacc.checked⟩, hcat⟩
    have hval : mapCapacity = 1034 := rfl
    refine enumLoop_related hu.requests (fun k st hk hr => ?_) fun k st hk hcap hr hf hroom
      hvalid => ?_
    · by_contra hnot
      rw [not_or, not_lt, not_and, Bool.not_eq_true] at hnot
      obtain ⟨hfar, hreads⟩ := hnot
      refine h.1 (listsPastMap_of_reached hroot hr hk hfar ?_)
      rcases Nat.lt_or_eq_of_le hfar with hlt | rfl
      · have hcapacity := enumRounds_fetched hr hk.le hlt (by omega)
        rw [FetchFails, LookupFails, not_or, not_or, not_and, not_or] at hcapacity
        have hindirect := mt (direct_ofNat (k := mapCapacity) (by omega)).mp (by omega)
        exact Bool.not_eq_true _ ▸ (hcapacity.1.1 hindirect).2
      · have hread := hreads rfl
        rwa [(enumRounds hr hk.le).requests] at hread
    · by_contra hpast
      rw [listedRounds hr hk.le hcap.le] at hroom
      refine h.2 k ⟨hroot, ⟨hk, hcap⟩, fun f hfk => ?_, hroom, hvalid, not_le.mp hpast⟩
      rw [fetchFails_ram (by omega) s.ram ram]
      rcases Nat.lt_or_eq_of_le hfk with hlt | rfl
      · exact enumRounds_fetched hr hk.le hlt (by omega)
      · rwa [enumProgress_fetchFails (enumRounds hr hk.le) (by omega)] at hf

end Listings

section Formatted
variable {vol : Mkfs.Volume} {content : Bytes} {D : Mkfs.Volume.Store} {roots : List Nat}
variable {files : Mkfs.FileList} {s : Machine} {k : Nat} (h : vol.OnMedium content D k)
variable (hm : Mounted content s) (hvol : vol.VolumeAt D k roots files)
include h hm hvol

theorem onMedium_loadsWithin (num : UInt32) : ¬ ReadsPastMap (some (diskOf content)) num s := by
  intro hpast
  obtain ⟨i, f, start, -, hfile, hino⟩ := h.accepted_file hm hvol hpast.accepted
  have hcap := hfile.blocks.capacity
  have hcount := hino.count
  have hlonger := hpast.longer
  have hmap : mapCapacity = 1034 := rfl
  dsimp only [Mkfs.Volume.fileFields] at hcount
  omega

theorem onMedium_listsWithin (hnames : ∀ f ∈ files, f.1.length ≤ 178) (m : Nat) :
    ListsWithin (some (diskOf content)) m s := by
  obtain ⟨-, hroot⟩ := h.root hm hvol
  have hcount := Mkfs.Volume.rootCount hroot hvol.catalog.few
  have hfew := hvol.catalog.few
  have hcap : mapCapacity = 1034 := rfl
  constructor
  · intro hpast
    have hlonger := hpast.longer
    omega
  · intro j hpast
    have hj := hpast.inMap
    rcases Nat.lt_or_ge j 10 with hten | hfar
    · have hinside := h.rootNames hroot hvol hnames (n := j + 1) (by omega) (by omega) j
        (Nat.lt_succ_self j) hpast.valid
      exact absurd hpast.past (not_lt.mpr hinside)
    · -- The root has no indirect block, so the lookup fails there.
      have hfetched := hpast.fetched j le_rfl
      have hindirect : Inode.indirectBlock
          (onDiskInode (some (diskOf content)) s.gSb owfsRootInode) = 0 := by
        rw [← UInt32.toNat_inj, hroot.indirect]
        rfl
      have hdirect := mt (direct_ofNat (show j < 2 ^ 32 by omega)).mp (by omega)
      exact absurd (.inl (.inl ⟨hdirect, .inl hindirect⟩)) hfetched

end Formatted

/-- What the driver returns is decided by the disk for every load that does not
get past the indirect block, and for no other; and for every listing that stays
within the blocks it staged. -/
theorem owfsDriver_decided (io : Option BlockIo) (num sizeOut : UInt32) (m : Nat) (s : Machine) :
    (LoadDecided io num sizeOut s ↔ ¬ ReadsPastMap io num s) ∧
      (ListsWithin io m s → ListingDecided io m s) :=
  ⟨loadDecided_iff, listingDecided_of_within⟩

theorem twentyFiles_decided : ∃ d,
    Mkfs.formatOwfs Mkfs.twentyDisk 21000 "MBL" Mkfs.twentyFiles true volumeBase = .ok d ∧
    LoadDecided (Mkfs.diskWith d.image) 12 0
      (owfsProbe (Mkfs.diskWith d.image) 0 (.boot fun _ => 0)).2 ∧
    ListingDecided (Mkfs.diskWith d.image) mblMenuMax
      (owfsProbe (Mkfs.diskWith d.image) 0 (.boot fun _ => 0)).2 := by
  obtain ⟨d, hd⟩ := Mkfs.twentyDisk_formats
  have hshort : ∀ f ∈ Mkfs.twentyFiles, f.1.length ≤ 178 :=
    fun f hf => (Mkfs.twentyFiles_plain f hf).short.trans (by omega)
  obtain ⟨D, hmedium, hvol⟩ := Mkfs.formatOwfs_onMedium Mkfs.twentyDisk_blank (by decide) hshort hd
  obtain ⟨-, hmounted⟩ := owfsProbe_mounts 0 (.boot fun _ => 0) hmedium.accepted
  obtain ⟨hload, hlisting⟩ := owfsDriver_decided (Mkfs.diskWith d.image) 12 0 mblMenuMax
    (owfsProbe (Mkfs.diskWith d.image) 0 (.boot fun _ => 0)).2
  exact ⟨d, hd, hload.mpr (onMedium_loadsWithin hmedium hmounted hvol 12),
    hlisting (onMedium_listsWithin hmedium hmounted hvol hshort mblMenuMax)⟩

def longFile : List (Nat × UInt32) :=
  (0x04, 1) :: (0x0A, 16) :: (0x0E, 1035) :: (0x46, 274) ::
    (List.range 10).map fun k => (0x1E + 4 * k, 274)

theorem longFile_dependsOnRam :
    owfsProbe (some (oneFileVolume longFile)) 0 (.boot fun _ => 0) =
      (mblComVolumeProbeOk, oneFileProbed longFile fun _ => 0) ∧
    ¬ LoadDecided (some (oneFileVolume longFile)) 1 0 (oneFileProbed longFile fun _ => 0) := by
  have hcap : mapCapacity = 1034 := rfl
  have hsize : Inode.sizeBytes (onDiskInode (some (oneFileVolume longFile))
      (oneFileProbed longFile fun _ => 0).gSb 1) = 16 :=
    (oneFileProbed_inodeField _ _ (by omega)).trans (by decide)
  have hcount : Inode.blockCount (onDiskInode (some (oneFileVolume longFile))
      (oneFileProbed longFile fun _ => 0).gSb 1) = 1035 :=
    (oneFileProbed_inodeField _ _ (by omega)).trans (by decide)
  have hindirect : Inode.indirectBlock (onDiskInode (some (oneFileVolume longFile))
      (oneFileProbed longFile fun _ => 0).gSb 1) = 274 :=
    (oneFileProbed_inodeField _ _ (by omega)).trans (by decide)
  have hdirect : ∀ k : Fin 10, load32 (words longFile) (0x1E + 4 * k) ≠ 0 := by decide
  refine ⟨oneFileVolume_probe _ _, ReadsPastMap.not_decided ⟨⟨?_, ?_, ?_, ?_⟩, ?_, ?_, ?_⟩⟩
  · exact oneFileProbed_accepted _ _ (by decide)
  · rw [oneFileProbed_entryType]
    decide
  · rw [hsize]
    decide
  · rw [hsize]
    decide
  · rw [hcount]
    decide
  · intro f hf
    have hnz : 10 ≤ f → Inode.indirectBlock (onDiskInode (some (oneFileVolume longFile))
        (oneFileProbed longFile fun _ => 0).gSb 1) ≠ 0 := by
      intro _
      rw [hindirect]
      decide
    by_cases hd : f < 10
    · refine diskOf_fetches (mapEntry_direct hd) ?_ hnz _ _
      rw [oneFileProbed_inodeField _ _ (by omega)]
      exact hdirect ⟨f, hd⟩
    · have hones : load32 (diskBlock (some (oneFileVolume longFile)) 274) (4 * (f - 10)) =
          load32 (fun _ => 1) 0 := by
        refine load32_congr fun i hi => ?_
        rw [oneFileVolume, volumeDisk_block (by decide) (by omega)]
        rfl
      refine diskOf_fetches (mapEntry_indirect (by omega) hf) ?_ hnz _ _
      rw [hindirect]
      exact ne_of_eq_of_ne hones (by decide)
  · exact diskOf_reads _ _ _

end ModularBootloader
