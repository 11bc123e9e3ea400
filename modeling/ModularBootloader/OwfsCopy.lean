import ModularBootloader.OwfsMap

/-!
# The copy loop of a load

What `k` completed rounds of the copy loop have done: the requests they issued,
the exact list of RAM intervals they stored to, and the RAM they left. The run
of the whole loop is then read off the round it stopped in.
-/

namespace ModularBootloader
open ByteStore

def Covers (w : Nat × Nat) (a : Nat) : Prop := w.1 ≤ a ∧ a < w.1 + w.2

def InStaging (a : Nat) : Prop := staging ≤ a ∧ a < staging + 4096

/-- From `before` to `after` the intervals `new` were stored to, newest first,
nothing else of RAM changed, and the statics other than the inode scratch block
and the diagnostics are as before. -/
structure Stored (before after : Machine) (new : List (Nat × Nat)) : Prop where
  stores : after.stores = new ++ before.stores
  frame : ∀ a, (∀ w ∈ new, ¬ Covers w a) → after.ram a = before.ram a
  gSb : after.gSb = before.gSb
  gDrive : after.gDrive = before.gDrive

section Stored
variable {s t u : Machine} {new new' : List (Nat × Nat)}

theorem Stored.refl (s : Machine) : Stored s s [] :=
  ⟨rfl, fun _ _ => rfl, rfl, rfl⟩

theorem Stored.trans (h : Stored s t new) (h' : Stored t u new') : Stored s u (new' ++ new) := by
  refine ⟨?_, ?_, h'.gSb.trans h.gSb, h'.gDrive.trans h.gDrive⟩
  · rw [h'.stores, h.stores, List.append_assoc]
  · intro a ha
    have hlate : u.ram a = t.ram a := h'.frame a fun w hw => ha w (List.mem_append_left _ hw)
    have hearly : t.ram a = s.ram a := h.frame a fun w hw => ha w (List.mem_append_right _ hw)
    rw [hlate, hearly]

theorem Stored.raise (h : Stored s t new) (code : Bancode) : Stored s (t.raise code) new :=
  ⟨h.stores, h.frame, h.gSb, h.gDrive⟩

theorem Stored.request (h : Stored s t new) (block : UInt32) (target : Target) :
    Stored s (t.request block target) new :=
  ⟨h.stores, h.frame, h.gSb, h.gDrive⟩

theorem stored_fetched_buf (io : Option BlockIo) (block : UInt32) (s : Machine) :
    Stored s (fetched io block .blockBuf s) [] := ⟨rfl, fun _ _ => rfl, rfl, rfl⟩

theorem stored_fetched_staging (io : Option BlockIo) (block : UInt32) (s : Machine) :
    Stored s (fetched io block (.linear mblFsBuf) s) [(staging, 4096)] := by
  refine ⟨rfl, ?_, rfl, rfl⟩
  intro a ha
  have hout := ha _ (List.mem_singleton_self _)
  rw [Covers, not_and_or] at hout
  rw [fetched_linear_ram]
  exact blit_outside (by simp only [staging] at hout; omega)

theorem stored_copyBytes (dst src : Nat) (n : UInt32) (s : Machine) :
    Stored s (s.copyBytes dst src n) [(dst, n.toNat)] := by
  refine ⟨rfl, ?_, rfl, rfl⟩
  intro a ha
  have hout := ha _ (List.mem_singleton_self _)
  rw [Covers, not_and_or] at hout
  exact copyUp_outside (by omega)

def Wrote (before after : Machine) (a : Nat) : Prop :=
  ∃ new, after.stores = new ++ before.stores ∧ ∃ w ∈ new, Covers w a

theorem Stored.wrote_iff (h : Stored s t new) (a : Nat) :
    Wrote s t a ↔ ∃ w ∈ new, Covers w a := by
  constructor
  · rintro ⟨new', hnew', hcov⟩
    rw [h.stores] at hnew'
    rwa [List.append_cancel_right hnew']
  · intro hcov
    exact ⟨new, h.stores, hcov⟩

end Stored

def dstAt (dest : UInt32) (k : Nat) : Nat := (dest.toNat + 4096 * k) % 2 ^ 32

def lookupStores (idx : UInt32) : List (Nat × Nat) :=
  if idx < owfsDirectBlocks then [] else [(staging, 4096)]

def copyStores (ino : Bytes) (dest : UInt32) : Nat → List (Nat × Nat)
  | 0 => []
  | k + 1 =>
    (dstAt dest k, (copyLength ino (UInt32.ofNat k)).toNat) :: (staging, 4096) ::
      (lookupStores (UInt32.ofNat k) ++ copyStores ino dest k)

def transfersOf (k : Nat) : Nat := k + (k - 10)

theorem fetchedAt_requests_length (io : Option BlockIo) (ino : Bytes) (s : Machine) {k : Nat}
    (hk : k < 2 ^ 32) : (fetchedAt io ino (UInt32.ofNat k) s).requests.length =
      s.requests.length + (transfersOf (k + 1) - transfersOf k) := by
  have hlook : lookupTransfers (UInt32.ofNat k) = if k < 10 then 0 else 1 := by
    simp only [lookupTransfers, direct_ofNat hk]
  rw [fetchedAt, fetched_requests, List.length_cons, lookedUp_requests_length, hlook, transfersOf,
    transfersOf]
  split <;> omega

structure CopyProgress (ino : Bytes) (dest : UInt32) (t : Machine) (k : Nat) (st : LoadState) :
    Prop where
  idx : st.idx = UInt32.ofNat k
  dst : k < (Inode.blockCount ino).toNat → st.dst.toNat = dstAt dest k
  requests : st.machine.requests.length = t.requests.length + transfersOf k
  raises : st.machine.raises = t.raises
  diag : st.machine.diag = t.diag
  stored : Stored t st.machine (copyStores ino dest k)

theorem copyLength_le (ino : Bytes) (idx : UInt32) : (copyLength ino idx).toNat ≤ 4096 := by
  unfold copyLength
  dsimp only
  split_ifs with hlast hrem
  · exact le_of_lt (UInt32.lt_iff_toNat_lt.mp hrem)
  · exact le_rfl
  · exact le_rfl

theorem copyLength_full {ino : Bytes} {k : Nat} (hk : k + 1 < (Inode.blockCount ino).toNat) :
    copyLength ino (UInt32.ofNat k) = owfsBlockSize := by
  have hmax := (Inode.blockCount ino).toNat_lt
  have hone : (1 : UInt32).toNat = 1 := rfl
  refine if_neg fun hlast => ?_
  have hval := congrArg UInt32.toNat hlast
  rw [UInt32.toNat_add, UInt32.toNat_ofNat', hone] at hval
  omega

theorem stored_lookedUp (io : Option BlockIo) (ino : Bytes) (idx : UInt32) (s : Machine) :
    Stored s (lookedUp io ino idx s) (lookupStores idx) := by
  unfold lookedUp lookupStores
  split
  · exact Stored.refl s
  · exact stored_fetched_staging io _ s

theorem copyProgress_next {io : Option BlockIo} {ino : Bytes} {dest : UInt32} {t : Machine}
    {k : Nat} {st : LoadState} (h : CopyProgress ino dest t k st)
    (hk : k < (Inode.blockCount ino).toNat) :
    CopyProgress ino dest t (k + 1) (loadNext io ino st) := by
  have hmax := (Inode.blockCount ino).toNat_lt
  have hone : (1 : UInt32).toNat = 1 := rfl
  refine ⟨?_, ?_, ?_, ?_, ?_, ?_⟩
  · rw [loadNext, h.idx, ← UInt32.toNat_inj, UInt32.toNat_add, UInt32.toNat_ofNat',
      UInt32.toNat_ofNat', hone]
    omega
  · intro hnext
    rw [loadNext, UInt32.toNat_add, h.dst hk, h.idx, copyLength_full hnext, owfsBlockSize_toNat,
      dstAt, dstAt]
    omega
  · have hfetch := fetchedAt_requests_length io ino st.machine (show k < 2 ^ 32 by omega)
    rw [← h.idx] at hfetch
    have hreq : (loadNext io ino st).machine.requests.length =
        st.machine.requests.length + (transfersOf (k + 1) - transfersOf k) := hfetch
    rw [hreq, h.requests, transfersOf, transfersOf]
    omega
  · simpa [loadNext, Machine.copyBytes] using h.raises
  · simpa [loadNext, Machine.copyBytes] using h.diag
  · have hround := ((stored_lookedUp io ino st.idx st.machine).trans
      (stored_fetched_staging io (mapWord io st.machine.ram ino st.idx) _)).trans
      (stored_copyBytes st.dst.toNat mblFsBuf.toNat (copyLength ino st.idx) _)
    have hall := h.stored.trans hround
    rw [h.dst hk, h.idx] at hall
    simpa [copyStores, loadNext, fetchedAt, h.dst hk, h.idx] using hall

section Run
variable {io : Option BlockIo} {ino : Bytes} {sizeOut dest : UInt32} {t : Machine}
variable {k : Nat} {st : LoadState}

theorem CopyProgress.idx_lt (h : CopyProgress ino dest t k st)
    (hk : k < (Inode.blockCount ino).toNat) : st.idx < Inode.blockCount ino := by
  have hmax := (Inode.blockCount ino).toNat_lt
  rw [h.idx, UInt32.lt_iff_toNat_lt, UInt32.toNat_ofNat', Nat.mod_eq_of_lt (by omega)]
  exact hk

theorem copyProgress_step (h : CopyProgress ino dest t k st)
    (hk : k < (Inode.blockCount ino).toNat) {st' : LoadState}
    (hstep : loadStep io ino sizeOut st = .inr st') :
    ¬ FetchFails io st.machine.requests.length st.machine.ram ino st.idx ∧
      st' = loadNext io ino st := by
  by_cases hf : FetchFails io st.machine.requests.length st.machine.ram ino st.idx
  · obtain ⟨u, code, heq, -⟩ := loadStep_fails sizeOut (h.idx_lt hk) hf
    rw [heq] at hstep
    cases hstep
  · rw [loadStep_next io sizeOut (h.idx_lt hk) hf] at hstep
    exact ⟨hf, (Sum.inr.inj hstep).symm⟩

theorem copyProgress_start (ino : Bytes) (dest : UInt32) (t : Machine) :
    CopyProgress ino dest t 0 ⟨0, dest, t⟩ := by
  refine ⟨rfl, ?_, rfl, rfl, rfl, Stored.refl t⟩
  intro _
  show dest.toNat = (dest.toNat + 4096 * 0) % 2 ^ 32
  rw [Nat.mul_zero, Nat.add_zero, Nat.mod_eq_of_lt dest.toNat_lt]

theorem copyRounds (h : BoundedLoop.Reaches (loadStep io ino sizeOut) ⟨0, dest, t⟩ k st)
    (hk : k ≤ (Inode.blockCount ino).toNat) : CopyProgress ino dest t k st := by
  refine h.invariant (I := CopyProgress ino dest t) (copyProgress_start ino dest t) ?_
  intro j a b hj ha hstep
  have hnext := (copyProgress_step ha (by omega) hstep).2
  rw [hnext]
  exact copyProgress_next ha (by omega)

theorem copyRun_cases (io : Option BlockIo) (ino : Bytes) (sizeOut dest : UInt32) (t : Machine) :
    let r := BoundedLoop.run (loadStep io ino sizeOut) (loadFinish ino)
      (Inode.blockCount ino).toNat ⟨0, dest, t⟩
    (∃ k st u code, k < (Inode.blockCount ino).toNat ∧
      BoundedLoop.Reaches (loadStep io ino sizeOut) ⟨0, dest, t⟩ k st ∧
      FetchFails io st.machine.requests.length st.machine.ram ino st.idx ∧
      r = ⟨code, sizeOut, u.raise code⟩ ∧ IsMapFault code ∧
      StoppedAt io ino st.idx st.machine u) ∨
    ∃ st, BoundedLoop.Reaches (loadStep io ino sizeOut) ⟨0, dest, t⟩
      (Inode.blockCount ino).toNat st ∧ r = loadFinish ino st := by
  intro r
  rcases BoundedLoop.run_cases (loadStep io ino sizeOut) (loadFinish ino)
    (Inode.blockCount ino).toNat ⟨0, dest, t⟩ with ⟨k, st, hk, hr, hexit⟩ | ⟨st, hr, hfin⟩
  · left
    have hlt := (copyRounds hr hk.le).idx_lt hk
    by_cases hf : FetchFails io st.machine.requests.length st.machine.ram ino st.idx
    · obtain ⟨u, code, heq, hcode, hu⟩ := loadStep_fails sizeOut hlt hf
      rw [heq] at hexit
      exact ⟨k, st, u, code, hk, hr, hf, (Sum.inl.inj hexit).symm, hcode, hu⟩
    · rw [loadStep_next io sizeOut hlt hf] at hexit
      cases hexit
  · exact .inr ⟨st, hr, hfin⟩

theorem StoppedAt.stored {idx : UInt32} {s u : Machine} (h : StoppedAt io ino idx s u) :
    ∃ new, Stored s u new ∧ ∀ w ∈ new, w = (staging, 4096) := by
  have hlook : ∀ w ∈ lookupStores idx, w = (staging, 4096) := by
    intro w hw
    unfold lookupStores at hw
    split at hw
    · cases hw
    · exact List.mem_singleton.mp hw
  rcases h with ⟨-, rfl | ⟨-, -, rfl | rfl⟩⟩ | ⟨-, rfl⟩
  · exact ⟨[], Stored.refl _, by simp⟩
  · exact ⟨[], (Stored.refl _).request _ _, by simp⟩
  · exact ⟨_, stored_lookedUp io ino idx s, hlook⟩
  · exact ⟨_, (stored_lookedUp io ino idx s).request _ _, hlook⟩

end Run

end ModularBootloader
