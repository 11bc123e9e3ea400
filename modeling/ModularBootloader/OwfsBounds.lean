import ModularBootloader.OwfsDeterminism

/-!
# Where the driver reads

Nothing in the driver compares a block number with the geometry of the volume:
every transfer goes where the superblock, the inode or its map points. The
reads of a call stay inside the volume exactly as far as those numbers do.
-/

namespace ModularBootloader
open ByteStore

def Requested (P : Request → Prop) (s t : Machine) : Prop :=
  ∃ new, t.requests = new ++ s.requests ∧ ∀ r ∈ new, P r

section Requested
variable {P : Request → Prop} {s t u : Machine} {first new : List Request}

theorem requested_iff (h : t.requests = new ++ s.requests) :
    Requested P s t ↔ ∀ r ∈ new, P r := by
  constructor
  · rintro ⟨new', h', hall⟩
    rw [h] at h'
    rwa [List.append_cancel_right h']
  · intro hall
    exact ⟨new, h, hall⟩

theorem requested_both (h : t.requests = first ++ s.requests)
    (h' : u.requests = new ++ t.requests) :
    Requested P s u ↔ (∀ r ∈ first, P r) ∧ ∀ r ∈ new, P r := by
  rw [h, ← List.append_assoc] at h'
  rw [requested_iff h']
  rw [List.forall_mem_append, and_comm]

end Requested

instance (io : Option BlockIo) (nth : Nat) (ram ino : Bytes) (idx : UInt32) :
    Decidable (LookupFails io nth ram ino idx) :=
  inferInstanceAs (Decidable (_ ∨ _))

def lookupRequests (ino : Bytes) (idx : UInt32) : List Request :=
  if idx < owfsDirectBlocks ∨ Inode.indirectBlock ino = 0 then []
  else [⟨Inode.indirectBlock ino, .linear mblFsBuf⟩]

def roundRequests (io : Option BlockIo) (ino : Bytes) (idx : UInt32) (s : Machine) :
    List Request :=
  (if LookupFails io s.requests.length s.ram ino idx then []
    else [⟨mapWord io s.ram ino idx, .linear mblFsBuf⟩]) ++ lookupRequests ino idx

section Rounds
variable {io : Option BlockIo} {ino : Bytes} {idx : UInt32} {s t : Machine}

theorem diskReadBlock_requests (io : Option BlockIo) (block : UInt32) (target : Target)
    (s : Machine) :
    (diskReadBlock io block target s).2.requests = ⟨block, target⟩ :: s.requests := by
  cases h : readFails io s.requests.length block with
  | true => rw [diskReadBlock_fails h, Machine.request_requests]
  | false => rw [diskReadBlock_reads h, fetched_requests]

theorem owfsBlockmapGet_requests (io : Option BlockIo) (hidx : idx < Inode.blockCount ino)
    (s : Machine) :
    (owfsBlockmapGet io ino idx s).2.requests = lookupRequests ino idx ++ s.requests := by
  have hread := diskReadBlock_requests io (Inode.indirectBlock ino) (.linear mblFsBuf) s
  rw [owfsBlockmapGet, if_neg (UInt32.not_le.mpr hidx)]
  by_cases hd : idx < owfsDirectBlocks
  · have hnone : lookupRequests ino idx = [] := if_pos (.inl hd)
    rw [hnone, if_pos hd]
    split <;> rfl
  · by_cases hzero : Inode.indirectBlock ino = 0
    · have hnone : lookupRequests ino idx = [] := if_pos (.inr hzero)
      rw [hnone, if_neg hd, if_pos hzero]
      rfl
    · have hone : lookupRequests ino idx = [⟨Inode.indirectBlock ino, .linear mblFsBuf⟩] :=
        if_neg (not_or.mpr ⟨hd, hzero⟩)
      rw [hone, if_neg hd, if_neg hzero]
      dsimp only
      split_ifs <;> exact hread

theorem loadStep_requests (io : Option BlockIo) (sizeOut : UInt32) {st : LoadState}
    (hidx : st.idx < Inode.blockCount ino) :
    (Sum.elim Loaded.machine LoadState.machine (loadStep io ino sizeOut st)).requests =
      roundRequests io ino st.idx st.machine ++ st.machine.requests := by
  have hlook := owfsBlockmapGet_requests io hidx st.machine
  rw [loadStep, roundRequests]
  by_cases hl : LookupFails io st.machine.requests.length st.machine.ram ino st.idx
  · obtain ⟨e, t, code, heq, -⟩ := owfsBlockmapGet_fails hl
    rw [heq] at hlook ⊢
    rw [if_pos hl]
    exact hlook
  · rw [owfsBlockmapGet_ok hidx hl] at hlook ⊢
    have hread := diskReadBlock_requests io (mapWord io st.machine.ram ino st.idx)
      (.linear mblFsBuf) (lookedUp io ino st.idx st.machine)
    rw [hlook] at hread
    rw [if_neg hl]
    dsimp only
    split_ifs <;> exact hread

theorem enumerateStep_requests (io : Option BlockIo) {m : Nat} {st : EnumState}
    (hroom : st.entries.length ≤ m) (hidx : st.idx < Inode.blockCount ino) :
    (Sum.elim Listing.machine EnumState.machine (enumerateStep io ino m st)).requests =
      roundRequests io ino st.idx st.machine ++ st.machine.requests := by
  have hlook := owfsBlockmapGet_requests io hidx st.machine
  rw [enumerateStep, roundRequests]
  by_cases hl : LookupFails io st.machine.requests.length st.machine.ram ino st.idx
  · obtain ⟨e, t, code, heq, -⟩ := owfsBlockmapGet_fails hl
    rw [heq] at hlook ⊢
    rw [if_pos hl]
    exact hlook
  · rw [owfsBlockmapGet_ok hidx hl] at hlook ⊢
    have hread := diskReadBlock_requests io (mapWord io st.machine.ram ino st.idx)
      (.linear mblFsBuf) (lookedUp io ino st.idx st.machine)
    obtain ⟨-, -, honly⟩ := scanSlots_spec m (List.range owfsEntriesPerBlock) st.entries
      (diskReadBlock io (mapWord io st.machine.ram ino st.idx) (.linear mblFsBuf)
        (lookedUp io ino st.idx st.machine)).2 hroom
    rw [hlook] at hread
    rw [if_neg hl]
    dsimp only
    split_ifs
    · exact hread
    · exact honly.requests.trans hread
    · exact honly.requests.trans hread

theorem copyLoop_requests (io : Option BlockIo) (ino : Bytes) (sizeOut dest : UInt32)
    (t : Machine) :
    ∃ all, (BoundedLoop.run (loadStep io ino sizeOut) (loadFinish ino)
        (Inode.blockCount ino).toNat ⟨0, dest, t⟩).machine.requests = all ++ t.requests ∧
      ∀ r, r ∈ all ↔ ∃ k st, k < (Inode.blockCount ino).toNat ∧
        BoundedLoop.Reaches (loadStep io ino sizeOut) ⟨0, dest, t⟩ k st ∧
        r ∈ roundRequests io ino st.idx st.machine := by
  refine BoundedLoop.run_log (fun st : LoadState => st.machine.requests)
    (fun l : Loaded => l.machine.requests) ?_ ?_ ?_
  · intro k a b hk ha hstep
    have hround := loadStep_requests io sizeOut ((copyRounds ha hk.le).idx_lt hk)
    rwa [hstep] at hround
  · intro k a r hk ha hstep
    have hround := loadStep_requests io sizeOut ((copyRounds ha hk.le).idx_lt hk)
    rwa [hstep] at hround
  · intro a
    rfl

theorem enumLoop_requests (io : Option BlockIo) (root : Bytes) (m : Nat) (t : Machine) :
    ∃ all, (BoundedLoop.run (enumerateStep io root m) enumerateFinish
        (Inode.blockCount root).toNat ⟨0, [], t⟩).machine.requests = all ++ t.requests ∧
      ∀ r, r ∈ all ↔ ∃ k st, k < (Inode.blockCount root).toNat ∧
        BoundedLoop.Reaches (enumerateStep io root m) ⟨0, [], t⟩ k st ∧
        r ∈ roundRequests io root st.idx st.machine := by
  refine BoundedLoop.run_log (fun st : EnumState => st.machine.requests)
    (fun l : Listing => l.machine.requests) ?_ ?_ ?_
  · intro k a b hk ha hstep
    have hprog := enumRounds ha hk.le
    have hround := enumerateStep_requests io hprog.room (hprog.idx_lt hk)
    rwa [hstep] at hround
  · intro k a r hk ha hstep
    have hprog := enumRounds ha hk.le
    have hround := enumerateStep_requests io hprog.room (hprog.idx_lt hk)
    rwa [hstep] at hround
  · intro a
    rw [enumerateFinish]
    split <;> rfl

end Rounds

section Calls
variable {io : Option BlockIo} {P : Request → Prop} {num : UInt32} {s : Machine}

theorem owfsReadInode_requests (io : Option BlockIo) (num : UInt32) (s : Machine) :
    (owfsReadInode io num s).2.requests =
      (if num < Superblock.totalInodes s.gSb then [⟨inodeBlock s.gSb num, .blockBuf⟩] else []) ++
        s.requests := by
  have hread := diskReadBlock_requests io (inodeBlock s.gSb num) .blockBuf s
  rw [owfsReadInode]
  by_cases hnum : num < Superblock.totalInodes s.gSb
  · rw [if_neg (UInt32.not_le.mpr hnum), if_pos hnum]
    dsimp only
    split_ifs <;> exact hread
  · rw [if_pos (UInt32.not_lt.mp hnum), if_neg hnum]
    rfl

/-- A call that reads one inode and, if it accepts it, goes through the rounds of a loop. -/
theorem inodeCall_requested {State : Type} {accepted : Prop} {n : Nat}
    {reaches : Nat → State → Prop} {made : State → List Request} {u : Machine}
    (hstop : ¬ accepted → u.requests = (owfsReadInode io num s).2.requests)
    (hrun : accepted → ∃ all, u.requests = all ++ (owfsReadInode io num s).2.requests ∧
      ∀ r, r ∈ all ↔ ∃ k st, k < n ∧ reaches k st ∧ r ∈ made st) :
    Requested P s u ↔
      (num < Superblock.totalInodes s.gSb → P ⟨inodeBlock s.gSb num, .blockBuf⟩) ∧
      (accepted → ∀ k st, k < n → reaches k st → ∀ r ∈ made st, P r) := by
  have hinode := owfsReadInode_requests io num s
  have hfirst : (∀ r ∈ (if num < Superblock.totalInodes s.gSb then
        [(⟨inodeBlock s.gSb num, .blockBuf⟩ : Request)] else []), P r) ↔
      (num < Superblock.totalInodes s.gSb → P ⟨inodeBlock s.gSb num, .blockBuf⟩) := by
    split_ifs with hnum <;> simp [hnum]
  by_cases hacc : accepted
  · obtain ⟨all, hall, hmem⟩ := hrun hacc
    rw [requested_both hinode hall, hfirst]
    simp only [hacc, hmem, forall_exists_index, and_imp, true_imp_iff]
    constructor
    · rintro ⟨hone, hrest⟩
      exact ⟨hone, fun k st hk hr r hin => hrest r k st hk hr hin⟩
    · rintro ⟨hone, hrest⟩
      exact ⟨hone, fun r k st hk hr hin => hrest k st hk hr r hin⟩
  · rw [requested_iff ((hstop hacc).trans hinode), hfirst]
    simp only [hacc, false_imp_iff, and_true]

theorem owfsLoadFile_requested (io : Option BlockIo) (num dest sizeOut : UInt32) (s : Machine) :
    Requested P s (owfsLoadFile io num dest sizeOut s).machine ↔
      (num < Superblock.totalInodes s.gSb → P ⟨inodeBlock s.gSb num, .blockBuf⟩) ∧
      (LoadAccepted io num s → ∀ k st,
        k < (Inode.blockCount (onDiskInode io s.gSb num)).toNat →
        BoundedLoop.Reaches (loadStep io (onDiskInode io s.gSb num) sizeOut)
          ⟨0, dest, afterInode io num s⟩ k st →
        ∀ r ∈ roundRequests io (onDiskInode io s.gSb num) st.idx st.machine, P r) := by
  apply inodeCall_requested
  · intro hacc
    rw [owfsLoadFile]
    rcases hread : owfsReadInode io num s with ⟨e | ino, t⟩
    · rfl
    · obtain ⟨hino, rfl, rfl⟩ := owfsReadInode_ok hread
      dsimp only
      split_ifs with hfile hmin hmax
      · rfl
      · rfl
      · rfl
      · rw [UInt32.lt_iff_toNat_lt, not_lt] at hmin
        rw [gt_iff_lt, UInt32.lt_iff_toNat_lt, not_lt] at hmax
        exact absurd ⟨hino, hfile, hmin, hmax⟩ hacc
  · intro hacc
    rw [owfsReadInode_accepted hacc.inode, owfsLoadFile_accepted hacc]
    exact copyLoop_requests io (onDiskInode io s.gSb num) sizeOut dest (afterInode io num s)

theorem owfsEnumerate_requested (io : Option BlockIo) (m : Nat) (s : Machine) :
    Requested P s (owfsEnumerate io m s).machine ↔
      (owfsRootInode < Superblock.totalInodes s.gSb →
        P ⟨inodeBlock s.gSb owfsRootInode, .blockBuf⟩) ∧
      (RootAccepted io s → ∀ k st,
        k < (Inode.blockCount (onDiskInode io s.gSb owfsRootInode)).toNat →
        BoundedLoop.Reaches (enumerateStep io (onDiskInode io s.gSb owfsRootInode) m)
          ⟨0, [], afterInode io owfsRootInode s⟩ k st →
        ∀ r ∈ roundRequests io (onDiskInode io s.gSb owfsRootInode) st.idx st.machine, P r) := by
  apply inodeCall_requested
  · intro hacc
    rw [owfsEnumerate]
    rcases hread : owfsReadInode io owfsRootInode s with ⟨e | ino, t⟩
    · rfl
    · obtain ⟨hino, rfl, rfl⟩ := owfsReadInode_ok hread
      dsimp only
      split_ifs with hcat
      · rfl
      · exact absurd ⟨hino, hcat⟩ hacc
  · intro hacc
    have hcall : owfsEnumerate io m s = BoundedLoop.run
        (enumerateStep io (onDiskInode io s.gSb owfsRootInode) m) enumerateFinish
        (Inode.blockCount (onDiskInode io s.gSb owfsRootInode)).toNat
        ⟨0, [], afterInode io owfsRootInode s⟩ := by
      rw [owfsEnumerate, owfsReadInode_accepted hacc.inode]
      exact if_neg hacc.catalog
    rw [owfsReadInode_accepted hacc.inode, hcall]
    exact enumLoop_requests io (onDiskInode io s.gSb owfsRootInode) m
      (afterInode io owfsRootInode s)

end Calls

def InDataRegion (sb : Bytes) (block : UInt32) : Prop :=
  (Superblock.dataRegionStart sb).toNat ≤ block.toNat ∧
    block.toNat < (Superblock.totalBlocks sb).toNat

/-- A transfer of a call made after the probe: inode blocks from the inode table,
staged blocks from the data region, at a sector address that fits 32 bits. -/
structure InVolume (sb : Bytes) (r : Request) : Prop where
  sector : owfsPartitionLba.toNat + 8 * r.block.toNat < 2 ^ 32
  region : match r.target with
    | .sb => False
    | .blockBuf => (Superblock.inodeTableStart sb).toNat ≤ r.block.toNat ∧
        r.block.toNat < (Superblock.inodeTableStart sb).toNat +
          (Superblock.inodeTableBlocks sb).toNat
    | .linear _ => InDataRegion sb r.block

/-- Where round `k` reads, `nth` transfers having been issued: the indirect block from index ten
on, and the block the map gives. Past the map the word comes from RAM, so the lookup must fail. -/
structure RoundInside (io : Option BlockIo) (sb ino : Bytes) (nth k : Nat) : Prop where
  indirect : 10 ≤ k → Inode.indirectBlock ino ≠ 0 →
    InVolume sb ⟨Inode.indirectBlock ino, .linear mblFsBuf⟩
  mapped : (10 ≤ k → Inode.indirectBlock ino ≠ 0 ∧
      readFails io nth (Inode.indirectBlock ino) = false) →
    mapBlock io ino k ≠ 0 → InVolume sb ⟨mapBlock io ino k, .linear mblFsBuf⟩
  past : k = mapCapacity → Inode.indirectBlock ino = 0 ∨
    readFails io nth (Inode.indirectBlock ino) = true

section Inside
variable {io : Option BlockIo} {sb ino : Bytes} {nth k : Nat} {w : UInt32} {t : Machine}
variable {P : Request → Prop}

theorem roundRequests_iff (hlen : t.requests.length = nth) (hk : k < 2 ^ 32)
    (hword : mapWord io t.ram ino (UInt32.ofNat k) = w) :
    (∀ r ∈ roundRequests io ino (UInt32.ofNat k) t, P r) ↔
      (10 ≤ k → Inode.indirectBlock ino ≠ 0 →
        P ⟨Inode.indirectBlock ino, .linear mblFsBuf⟩) ∧
      ((10 ≤ k → Inode.indirectBlock ino ≠ 0 ∧
          readFails io nth (Inode.indirectBlock ino) = false) →
        w ≠ 0 → P ⟨w, .linear mblFsBuf⟩) := by
  have hdirect := direct_ofNat hk
  have hfails : LookupFails io t.requests.length t.ram ino (UInt32.ofNat k) ↔
      ¬ ((10 ≤ k → Inode.indirectBlock ino ≠ 0 ∧
        readFails io nth (Inode.indirectBlock ino) = false) ∧ w ≠ 0) := by
    rw [LookupFails, hword, hlen, hdirect, ← Bool.not_eq_true, not_lt]
    tauto
  rw [roundRequests, lookupRequests, List.forall_mem_append, and_comm]
  simp only [hword, hdirect]
  apply and_congr
  · by_cases hnone : k < 10 ∨ Inode.indirectBlock ino = 0
    · rw [if_pos hnone]
      refine iff_of_true (by simp) ?_
      intro hten hnz
      rcases hnone with hlow | hzero
      · omega
      · exact absurd hzero hnz
    · rw [if_neg hnone]
      rw [not_or, not_lt] at hnone
      simp [hnone]
  · by_cases hnone : LookupFails io t.requests.length t.ram ino (UInt32.ofNat k)
    · rw [if_pos hnone]
      refine iff_of_true (by simp) ?_
      intro hind hnz
      exact absurd ⟨hind, hnz⟩ (hfails.mp hnone)
    · rw [if_neg hnone]
      obtain ⟨hind, hnz⟩ := not_not.mp (mt hfails.mpr hnone)
      simp only [List.mem_singleton, forall_eq]
      exact ⟨fun h _ _ => h, fun h => h hind hnz⟩

theorem roundInside_iff (hk : k < mapCapacity) (hlen : t.requests.length = nth) :
    (∀ r ∈ roundRequests io ino (UInt32.ofNat k) t, InVolume sb r) ↔
      RoundInside io sb ino nth k := by
  have hcap : mapCapacity = 1034 := rfl
  rw [roundRequests_iff hlen (by omega) (mapWord_mapBlock io ino t.ram hk)]
  constructor
  · rintro ⟨hindirect, hmapped⟩
    exact ⟨hindirect, hmapped, fun hend => absurd hend (by omega)⟩
  · intro h
    exact ⟨h.indirect, h.mapped⟩

theorem RoundInside.requests_past (h : RoundInside io sb ino nth mapCapacity)
    (hlen : t.requests.length = nth) :
    ∀ r ∈ roundRequests io ino (UInt32.ofNat mapCapacity) t, InVolume sb r := by
  have hcap : mapCapacity = 1034 := rfl
  refine (roundRequests_iff hlen (by omega) rfl).mpr ⟨h.indirect, ?_⟩
  intro hind
  obtain ⟨hnz, hread⟩ := hind (by omega)
  rcases h.past rfl with hzero | hfails
  · exact absurd hzero hnz
  · rw [hread] at hfails
    cases hfails

theorem roundInside_of_ones (hlen : t.requests.length = nth)
    (hword : mapWord io t.ram ino (UInt32.ofNat mapCapacity) = 0xFFFFFFFF)
    (h : ∀ r ∈ roundRequests io ino (UInt32.ofNat mapCapacity) t, InVolume sb r) :
    RoundInside io sb ino nth mapCapacity := by
  have hcap : mapCapacity = 1034 := rfl
  obtain ⟨hindirect, hmapped⟩ := (roundRequests_iff hlen (by omega) hword).mp h
  have hnone : mapBlock io ino mapCapacity = 0 := by
    rw [mapBlock, mapEntry, if_neg (by omega), if_neg (by omega), Option.getD_none]
  refine ⟨hindirect, fun _ hnz => absurd hnone hnz, fun _ => ?_⟩
  by_contra hlooks
  rw [not_or, Bool.not_eq_true] at hlooks
  have hsector := (hmapped (fun _ => hlooks) (by decide)).sector
  exact absurd hsector (by decide)

theorem round_requests_inside {base : Nat} (hlen : t.requests.length = base + transfersOf k)
    (hinside : ∀ j ≤ k, j ≤ mapCapacity → RoundInside io sb ino (base + transfersOf j) j)
    (hpast : mapCapacity < k → Inode.indirectBlock ino ≠ 0 ∧
      readFails io (base + transfersOf mapCapacity) (Inode.indirectBlock ino) = false) :
    ∀ r ∈ roundRequests io ino (UInt32.ofNat k) t, InVolume sb r := by
  rcases lt_trichotomy k mapCapacity with hlt | rfl | hgt
  · exact (roundInside_iff hlt hlen).mpr (hinside k le_rfl hlt.le)
  · exact (hinside _ le_rfl le_rfl).requests_past hlen
  · obtain ⟨hnz, hread⟩ := hpast hgt
    rcases (hinside mapCapacity hgt.le le_rfl).past rfl with hzero | hfails
    · exact absurd hzero hnz
    · rw [hread] at hfails
      cases hfails

theorem fetched_looks (hk : 10 ≤ k) (hk' : k < 2 ^ 32) {ram : Bytes}
    (h : ¬ FetchFails io nth ram ino (UInt32.ofNat k)) :
    Inode.indirectBlock ino ≠ 0 ∧ readFails io nth (Inode.indirectBlock ino) = false := by
  have hindirect := mt (direct_ofNat hk').mp (by omega)
  rw [FetchFails, LookupFails, not_or, not_or, not_and, not_or, Bool.not_eq_true] at h
  exact h.1.1 hindirect

end Inside

/-- Whatever RAM holds and wherever the file goes, the load reads inside the volume. -/
def LoadInside (io : Option BlockIo) (num : UInt32) (s : Machine) : Prop :=
  ∀ dest sizeOut ram buf, Requested (InVolume s.gSb) (withRam s ram buf)
    (owfsLoadFile io num dest sizeOut (withRam s ram buf)).machine

def ListingInside (io : Option BlockIo) (max : Int) (s : Machine) : Prop :=
  ∀ ram buf, Requested (InVolume s.gSb) (withRam s ram buf)
    (owfsEnumerate io max (withRam s ram buf)).machine

/-- The inode's block and what each round of the load reads, as far as the fetches before it
succeed. -/
structure LoadStays (io : Option BlockIo) (num : UInt32) (s : Machine) : Prop where
  inode : num < Superblock.totalInodes s.gSb → InVolume s.gSb ⟨inodeBlock s.gSb num, .blockBuf⟩
  rounds : LoadAccepted io num s → ∀ k ≤ mapCapacity,
    k < (Inode.blockCount (onDiskInode io s.gSb num)).toNat →
    (∀ f < k, ¬ FetchFails io (s.requests.length + 1 + transfersOf f) s.ram
      (onDiskInode io s.gSb num) (UInt32.ofNat f)) →
    RoundInside io s.gSb (onDiskInode io s.gSb num) (s.requests.length + 1 + transfersOf k) k

structure ListingStays (io : Option BlockIo) (m : Nat) (s : Machine) : Prop where
  inode : owfsRootInode < Superblock.totalInodes s.gSb →
    InVolume s.gSb ⟨inodeBlock s.gSb owfsRootInode, .blockBuf⟩
  rounds : RootAccepted io s → ∀ k ≤ mapCapacity,
    k < (Inode.blockCount (onDiskInode io s.gSb owfsRootInode)).toNat →
    (∀ f < k, ¬ FetchFails io (s.requests.length + 1 + transfersOf f) s.ram
      (onDiskInode io s.gSb owfsRootInode) (UInt32.ofNat f)) →
    slotsListed io (onDiskInode io s.gSb owfsRootInode) k ≤ m →
    RoundInside io s.gSb (onDiskInode io s.gSb owfsRootInode)
      (s.requests.length + 1 + transfersOf k) k

section Volume
variable {io : Option BlockIo} {num : UInt32} {s t : Machine} {sb ino : Bytes} {k f m : Nat}

theorem copyRounds_fetchedSome {sizeOut dest : UInt32} {st : LoadState}
    (hr : BoundedLoop.Reaches (loadStep io ino sizeOut) ⟨0, dest, t⟩ k st)
    (hk : k ≤ (Inode.blockCount ino).toNat) (hf : f < k) :
    ∃ ram, ¬ FetchFails io (t.requests.length + transfersOf f) ram ino (UInt32.ofNat f) := by
  obtain ⟨a, b, hra, hstep⟩ := hr.earlier hf
  have hprog := copyRounds hra (by omega)
  have hfetched := (copyProgress_step hprog (by omega) hstep).1
  rw [hprog.idx, hprog.requests] at hfetched
  exact ⟨_, hfetched⟩

theorem loadInside_iff : LoadInside io num s ↔ LoadStays io num s := by
  have hcap : mapCapacity = 1034 := rfl
  constructor
  · intro h
    constructor
    · exact ((owfsLoadFile_requested ..).mp (h mblKernelAddr 0 s.ram s.gBlockBuf)).1
    · intro hacc k hle hk hfetched
      obtain ⟨st, hr, hprog⟩ := copyRounds_reach io 0
        (t := afterInode io num (withRam s (fun _ => 0xFF) s.gBlockBuf)) hk.le (by omega)
        fun f hf => (fetchFails_ram (by omega) s.ram _).not.mp (hfetched f hf)
      have hround := ((owfsLoadFile_requested ..).mp
        (h mblKernelAddr 0 (fun _ => 0xFF) s.gBlockBuf)).2 (hacc.withRam _ _) k st hk hr
      rw [hprog.idx] at hround
      rcases Nat.lt_or_eq_of_le hle with hlt | rfl
      · exact (roundInside_iff hlt hprog.requests).mp hround
      · refine roundInside_of_ones hprog.requests ?_ hround
        have hones : mapWord io st.machine.ram (onDiskInode io s.gSb num)
            (UInt32.ofNat mapCapacity) = load32 (fun _ => 0xFF) 0 := by
          refine mapWord_past io _ fun a hlo hhi => ?_
          have hstaging : staging = 0x30000 := rfl
          exact copyProgress_behind hprog (by decide) hlo (by omega)
        exact hones
  · intro h dest sizeOut ram buf
    refine (owfsLoadFile_requested ..).mpr ⟨h.inode, ?_⟩
    intro hacc k st hk hr
    have hon : LoadAccepted io num s := hacc.withRam s.ram s.gBlockBuf
    have hcount : k < (Inode.blockCount (onDiskInode io s.gSb num)).toNat := hk
    have hprog := copyRounds hr hk.le
    rw [hprog.idx]
    apply round_requests_inside hprog.requests
    · intro j hj hjcap
      refine h.rounds hon j hjcap (by omega) ?_
      intro f hf
      obtain ⟨ram', hfetched⟩ := copyRounds_fetchedSome hr hk.le (show f < k by omega)
      exact mt (fetchFails_ram (by omega) _ _).mp hfetched
    · intro hlt
      obtain ⟨ram', hfetched⟩ := copyRounds_fetchedSome hr hk.le hlt
      exact fetched_looks (by omega) (by omega) hfetched

theorem listingInside_iff : ListingInside io m s ↔ ListingStays io m s := by
  have hcap : mapCapacity = 1034 := rfl
  constructor
  · intro h
    constructor
    · exact ((owfsEnumerate_requested ..).mp (h s.ram s.gBlockBuf)).1
    · intro hacc k hle hk hfetched hroom
      obtain ⟨st, hr, hprog⟩ := enumRounds_reach
        (afterInode io owfsRootInode (withRam s (fun _ => 0xFF) s.gBlockBuf)) hk.le hle
        (fun f hf => (fetchFails_ram (by omega) s.ram _).not.mp (hfetched f hf)) hroom
      have hround := ((owfsEnumerate_requested ..).mp (h (fun _ => 0xFF) s.gBlockBuf)).2
        ⟨hacc.inode.withRam _ _, hacc.catalog⟩ k st hk hr
      rw [hprog.idx] at hround
      rcases Nat.lt_or_eq_of_le hle with hlt | rfl
      · exact (roundInside_iff hlt hprog.requests).mp hround
      · refine roundInside_of_ones hprog.requests ?_ hround
        have hones : mapWord io st.machine.ram (onDiskInode io s.gSb owfsRootInode)
            (UInt32.ofNat mapCapacity) = load32 (fun _ => 0xFF) 0 := by
          refine mapWord_past io _ fun a hlo hhi => ?_
          exact hprog.frame a fun hin => absurd hin.2 (by omega)
        exact hones
  · intro h ram buf
    refine (owfsEnumerate_requested ..).mpr ⟨h.inode, ?_⟩
    intro hacc k st hk hr
    have hon : RootAccepted io s :=
      ⟨hacc.inode.withRam s.ram s.gBlockBuf, hacc.catalog⟩
    have hcount : k < (Inode.blockCount (onDiskInode io s.gSb owfsRootInode)).toNat := hk
    have hprog := enumRounds hr hk.le
    rw [hprog.idx]
    apply round_requests_inside hprog.requests
    · intro j hj hjcap
      obtain ⟨a, hra⟩ := hr.upTo hj
      have hlisted := listedRounds hra (by omega) hjcap
      refine h.rounds hon j hjcap (by omega) ?_ (hlisted ▸ (enumRounds hra (by omega)).room)
      intro f hf
      have hfetched := enumRounds_fetched hra (by omega) hf (by omega)
      exact mt (fetchFails_ram (by omega) _ _).mp hfetched
    · intro hlt
      exact fetched_looks (by omega) (by omega) (enumRounds_fetched hr hk.le hlt (by omega))

theorem listingInside_toNat (max : Int) :
    ListingInside io max s ↔ ListingInside io max.toNat s := by
  rw [ListingInside, ListingInside]
  simp only [owfsEnumerate_toNat io max]

theorem InVolume.inodeBlock_toNat (h : InVolume sb ⟨inodeBlock sb num, .blockBuf⟩) :
    (inodeBlock sb num).toNat = (Superblock.inodeTableStart sb).toNat + num.toNat / 16 := by
  have hfour : (4 : UInt32).toNat = 4 := rfl
  have hnum := num.toNat_lt
  have hlow : (Superblock.inodeTableStart sb).toNat ≤ (inodeBlock sb num).toNat := h.region.1
  rw [inodeBlock, UInt32.toNat_add, UInt32.toNat_shiftRight, hfour,
    Nat.shiftRight_eq_div_pow] at hlow ⊢
  simp only [Nat.reduceMod, Nat.reducePow] at hlow ⊢
  omega

/-- Exactly when a load, and exactly when a listing, reads inside the volume. An inode block
inside its table is the one of its number, without a wrap. -/
theorem owfsReads_inside_iff (io : Option BlockIo) (num : UInt32) (max : Int) (s : Machine) :
    (LoadInside io num s ↔ LoadStays io num s) ∧
      (ListingInside io max s ↔ ListingStays io max.toNat s) ∧
      ∀ n, InVolume s.gSb ⟨inodeBlock s.gSb n, .blockBuf⟩ → (inodeBlock s.gSb n).toNat =
        (Superblock.inodeTableStart s.gSb).toNat + n.toNat / 16 := by
  refine ⟨loadInside_iff, ?_, fun n h => h.inodeBlock_toNat⟩
  rw [listingInside_toNat, listingInside_iff]

def strayFile : List (Nat × UInt32) := [(0x04, 1), (0x0A, 16), (0x0E, 1), (0x1E, 0x20000000)]

theorem strayFile_readsOutside :
    owfsProbe (some (oneFileVolume strayFile)) 0 (.boot fun _ => 0) =
      (mblComVolumeProbeOk, oneFileProbed strayFile fun _ => 0) ∧
    ¬ Requested (InVolume (oneFileProbed strayFile fun _ => 0).gSb)
      (oneFileProbed strayFile fun _ => 0)
      (owfsLoadFile (some (oneFileVolume strayFile)) 1 mblKernelAddr 0
        (oneFileProbed strayFile fun _ => 0)).machine := by
  have hsize : Inode.sizeBytes (onDiskInode (some (oneFileVolume strayFile))
      (oneFileProbed strayFile fun _ => 0).gSb 1) = 16 :=
    (oneFileProbed_inodeField _ _ (by omega)).trans (by decide)
  have hcount : Inode.blockCount (onDiskInode (some (oneFileVolume strayFile))
      (oneFileProbed strayFile fun _ => 0).gSb 1) = 1 :=
    (oneFileProbed_inodeField _ _ (by omega)).trans (by decide)
  have hword : load32 (onDiskInode (some (oneFileVolume strayFile))
      (oneFileProbed strayFile fun _ => 0).gSb 1) (0x1E + 4 * 0) = 0x20000000 :=
    (oneFileProbed_inodeField _ _ (by omega)).trans (by decide)
  have hacc : LoadAccepted (some (oneFileVolume strayFile)) 1
      (oneFileProbed strayFile fun _ => 0) := by
    refine ⟨oneFileProbed_accepted _ _ (by decide), ?_, ?_, ?_⟩
    · rw [oneFileProbed_entryType]
      decide
    · rw [hsize]
      decide
    · rw [hsize]
      decide
  refine ⟨oneFileVolume_probe _ _, ?_⟩
  rintro ⟨new, heq, hnew⟩
  have hround := @loadStep_next (some (oneFileVolume strayFile)) (onDiskInode
      (some (oneFileVolume strayFile)) (oneFileProbed strayFile fun _ => 0).gSb 1) 0
    ⟨0, mblKernelAddr,
      afterInode (some (oneFileVolume strayFile)) 1 (oneFileProbed strayFile fun _ => 0)⟩
    (by rw [hcount]; decide)
    (diskOf_fetches (k := 0) (mapEntry_direct (by omega)) (by rw [hword]; decide) (by omega) _ _)
  have hentry := mapWord_entry (some (oneFileVolume strayFile)) (onDiskInode
    (some (oneFileVolume strayFile)) (oneFileProbed strayFile fun _ => 0).gSb 1)
    (show 0 < mapCapacity by decide) (oneFileProbed strayFile fun _ => 0).ram
  rw [mapEntry, if_pos (by omega), hword, Option.some.injEq] at hentry
  have hone : (1 : UInt32).toNat = 0 + 1 := rfl
  rw [owfsLoadFile_accepted hacc, hcount, hone, BoundedLoop.run_next hround] at heq
  have hrequests : [⟨0x20000000, .linear mblFsBuf⟩, ⟨inodeBlock
      (oneFileProbed strayFile fun _ => 0).gSb 1, .blockBuf⟩] ++
      (oneFileProbed strayFile fun _ => 0).requests =
      new ++ (oneFileProbed strayFile fun _ => 0).requests := by
    rw [← heq, hentry]
    rfl
  rw [← List.append_cancel_right hrequests] at hnew
  have hsector := (hnew _ List.mem_cons_self).sector
  exact absurd hsector (by decide)

end Volume

end ModularBootloader
