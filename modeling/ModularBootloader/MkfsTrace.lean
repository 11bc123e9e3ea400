import ModularBootloader.Mkfs
import ModularBootloader.Lib.CallLog

/-!
# The allocator calls of the formatter

`alloc_block` on the object it changes, and the operations of `owfs_mkfs.py`
with a record of the calls they make of it and of the files they complete.
Without the record they are the operations themselves.
-/

namespace ModularBootloader.Mkfs
open SliceAssign RaisingLoop CallLog

namespace Volume

def allocBitOn (vol : Volume) (b byteIdx : Nat) (s : VolumeState) :
    Except PyError (Option Nat) × VolumeState :=
  let base := vol.blockOff (bitmapStartBlock + b)
  match getByte s.image (base + byteIdx) with
  | .error e => (.error e, s)
  | .ok val =>
    if val = 0xFF then (.ok none, s)
    else
      match freeBit val with
      | none => (.ok none, s)
      | some bit =>
        let rel := (b * block + byteIdx) * 8 + bit
        if rel ≥ vol.dataBlocks then (.error (.runtimeError "OWFS volume is full"), s)
        else
          match setByte s.image (base + byteIdx) (val.toNat ||| (1 <<< bit)) with
          | .error e => (.error e, s)
          | .ok image =>
            (.ok (some (vol.dataRegionStart + rel)),
              { s with image := image, freeBlocks := s.freeBlocks - 1 })

def allocBlockOn (vol : Volume) (s : VolumeState) : Except PyError Nat × VolumeState :=
  match firstSomeOn (fun b => firstSomeOn (vol.allocBitOn b) (List.range block))
      (List.range vol.bitmapBlocks) s with
  | (.error e, t) => (.error e, t)
  | (.ok (some b), t) => (.ok b, t)
  | (.ok none, t) => (.error (.runtimeError "OWFS volume is full"), t)

theorem allocBitOn_eq (vol : Volume) (b byteIdx : Nat) (s : VolumeState) :
    vol.allocBitOn b byteIdx s = settle s (vol.allocBit s b byteIdx) := by
  rw [allocBitOn, allocBit]
  cases getByte s.image (vol.blockOff (bitmapStartBlock + b) + byteIdx) with
  | error e => rfl
  | ok val =>
    show _ = settle s (if val = 0xFF then _ else _)
    dsimp only
    by_cases hfull : val = 0xFF
    · rw [if_pos hfull, if_pos hfull]
      rfl
    rw [if_neg hfull, if_neg hfull]
    cases freeBit val with
    | none => rfl
    | some bit =>
      dsimp only
      by_cases hrel : (b * block + byteIdx) * 8 + bit ≥ vol.dataBlocks
      · rw [if_pos hrel, if_pos hrel]
        rfl
      rw [if_neg hrel, if_neg hrel]
      cases setByte s.image (vol.blockOff (bitmapStartBlock + b) + byteIdx)
          (val.toNat ||| (1 <<< bit)) with
      | error e => rfl
      | ok image => rfl

/-- What `alloc_block` leaves: the state of the call when it raises. -/
def leaves (s : VolumeState) : Except PyError (Nat × VolumeState) →
    Except PyError Nat × VolumeState
  | .error e => (.error e, s)
  | .ok (b, t) => (.ok b, t)

theorem allocBlockOn_eq (vol : Volume) (s : VolumeState) :
    vol.allocBlockOn s = leaves s (vol.allocBlock s) := by
  have hrow : ∀ b t, firstSomeOn (vol.allocBitOn b) (List.range block) t =
      settle t (firstSome (vol.allocBit t b) (List.range block)) :=
    fun b t => firstSomeOn_settle (fun i u => allocBitOn_eq vol b i u) (List.range block) t
  have hall := firstSomeOn_settle (g := fun t b => firstSome (vol.allocBit t b) (List.range block))
    hrow (List.range vol.bitmapBlocks) s
  rw [allocBlockOn, hall, allocBlock]
  cases firstSome (fun b => firstSome (vol.allocBit s b) (List.range block))
      (List.range vol.bitmapBlocks) with
  | error e => rfl
  | ok found =>
    cases found with
    | none => rfl
    | some r => rfl

end Volume

inductive VolumeCall
  | allocBlock (before : VolumeState) (answer : Except PyError Nat) (after : VolumeState)
  | addFile (after : VolumeState)

abbrev Traced (α : Type) := Recorded VolumeCall PyError α

namespace Traced
open Volume

def allocBlock (vol : Volume) (s : VolumeState) : Traced (Nat × VolumeState) :=
  let (answer, after) := vol.allocBlockOn s
  .call (.allocBlock s answer after) (answer.map fun b => (b, after))

def catalogGrow (vol : Volume) (name : Bytearray) (targetInode entryType : Nat)
    (s : VolumeState) : Traced VolumeState := do
  let (bnum, s) ← allocBlock vol s
  let s := { s with rootBlocks := s.rootBlocks ++ [bnum] }
  let s ← .silent (writeCatalogEntry (vol.blockOff bnum) 0 targetInode entryType name s)
  .silent (vol.writeRootInode s)

def catalogInsert (vol : Volume) (name : Bytearray) (targetInode entryType : Nat)
    (s : VolumeState) : Traced VolumeState := do
  let found ← .silent (firstSome (fun bnum =>
    firstSome (vol.insertSlot name targetInode entryType s bnum) (List.range entriesPerBlock))
    s.rootBlocks)
  match found with
  | some s => .silent (.ok s)
  | none => catalogGrow vol name targetInode entryType s

def indirectFor (vol : Volume) (i : Nat) (st : AddState) : Traced (Nat × VolumeState) :=
  if i ≥ 10 ∧ st.indirect = 0 then allocBlock vol st.state
  else .silent (.ok (st.indirect, st.state))

def addBlock (vol : Volume) (data : Bytearray) (i : Nat) (st : AddState) : Traced AddState := do
  let (indirect, s) ← indirectFor vol i st
  let (b, s) ← allocBlock vol s
  let off := vol.blockOff b
  .silent (.ok ⟨{ s with image := sliceAssign s.image off (off + block) (chunk data i) },
    st.direct ++ [b], indirect⟩)

def addFile (vol : Volume) (name data : Bytearray) (s : VolumeState) :
    Traced (Nat × VolumeState) := do
  let (inodeNum, s) ← .silent (vol.allocInode s)
  let st ← Recorded.pass (addBlock vol data) (blocksOf data) ⟨s, [], 0⟩
  let (direct, s) ← .silent (vol.writeIndirect st)
  let s ← .silent (vol.writeInode inodeNum (fileFields inodeNum name data direct st.indirect) s)
  let s ← catalogInsert vol name inodeNum entryFile s
  .call (.addFile s) (.ok (inodeNum, s))

def addFiles (vol : Volume) : FileList → VolumeState → Traced VolumeState
  | [], s => .silent (.ok s)
  | (name, data) :: rest, s => do
    let (_, s) ← addFile vol name data s
    addFiles vol rest s

def formatOwfs (image : Bytearray) (totalBlocks : Nat) (label : String) (files : FileList)
    (allocSuper : Bool) (blockStart : Nat) : Traced VolumeState := do
  if totalBlocks < superBlock + 1 + 1 + inodeTableBlocks + 1 then
    .silent (.error (.valueError "total_blocks too small for OWFS"))
  else
    let vol : Volume := ⟨totalBlocks, blockStart, label⟩
    let (rootBlock, s) ← allocBlock vol (vol.init image)
    let s ← .silent (vol.writeRootInode { s with rootBlocks := s.rootBlocks ++ [rootBlock] })
    let s ← addFiles vol files s
    .silent (if allocSuper then vol.writeSuperblock s else .ok s)

section Result
variable (vol : Volume)

theorem allocBlock_result (s : VolumeState) : (allocBlock vol s).result = vol.allocBlock s := by
  have hrun : (allocBlock vol s).result =
      (vol.allocBlockOn s).1.map fun b => (b, (vol.allocBlockOn s).2) := rfl
  rw [hrun, allocBlockOn_eq]
  cases vol.allocBlock s with
  | error e => rfl
  | ok r => rfl

theorem catalogGrow_result (name : Bytearray) (targetInode entryType : Nat) (s : VolumeState) :
    (catalogGrow vol name targetInode entryType s).result =
      vol.catalogGrow name targetInode entryType s := by
  rw [catalogGrow, Volume.catalogGrow]
  apply Recorded.result_bind (allocBlock_result vol s)
  rintro ⟨bnum, t⟩
  apply Recorded.result_bind (Recorded.result_silent _)
  intro u
  exact Recorded.result_silent _

theorem catalogInsert_result (name : Bytearray) (targetInode entryType : Nat) (s : VolumeState) :
    (catalogInsert vol name targetInode entryType s).result =
      vol.catalogInsert name targetInode entryType s := by
  rw [catalogInsert, Volume.catalogInsert]
  apply Recorded.result_bind (Recorded.result_silent _)
  intro found
  cases found with
  | some t => exact Recorded.result_silent _
  | none => exact catalogGrow_result vol name targetInode entryType s

theorem indirectFor_result (i : Nat) (st : AddState) :
    (indirectFor vol i st).result = vol.indirectFor i st := by
  rw [indirectFor, Volume.indirectFor]
  split_ifs
  · exact allocBlock_result vol st.state
  · rfl

theorem addBlock_result (data : Bytearray) (i : Nat) (st : AddState) :
    (addBlock vol data i st).result = vol.addBlock data i st := by
  rw [addBlock, Volume.addBlock]
  apply Recorded.result_bind (indirectFor_result vol i st)
  rintro ⟨indirect, s⟩
  apply Recorded.result_bind (allocBlock_result vol s)
  rintro ⟨b, t⟩
  exact Recorded.result_silent _

theorem addFile_result (name data : Bytearray) (s : VolumeState) :
    (addFile vol name data s).result = vol.addFile name data s := by
  rw [addFile, Volume.addFile]
  apply Recorded.result_bind (Recorded.result_silent _)
  rintro ⟨inodeNum, t⟩
  apply Recorded.result_bind (Recorded.result_pass (addBlock_result vol data) (blocksOf data)
    ⟨t, [], 0⟩)
  intro st
  apply Recorded.result_bind (Recorded.result_silent _)
  rintro ⟨direct, u⟩
  apply Recorded.result_bind (Recorded.result_silent _)
  intro v
  apply Recorded.result_bind (catalogInsert_result vol name inodeNum entryFile v)
  intro w
  rfl

theorem addFiles_result (files : FileList) (s : VolumeState) :
    (addFiles vol files s).result = Mkfs.addFiles vol files s := by
  induction files generalizing s with
  | nil => rfl
  | cons f rest ih =>
    obtain ⟨name, data⟩ := f
    rw [addFiles, Mkfs.addFiles]
    apply Recorded.result_bind (addFile_result vol name data s)
    rintro ⟨num, t⟩
    exact ih t

theorem formatOwfs_result (image : Bytearray) (totalBlocks : Nat) (label : String)
    (files : FileList) (allocSuper : Bool) (blockStart : Nat) :
    (formatOwfs image totalBlocks label files allocSuper blockStart).result =
      Mkfs.formatOwfs image totalBlocks label files allocSuper blockStart := by
  rw [formatOwfs, Mkfs.formatOwfs]
  by_cases hsmall : totalBlocks < superBlock + 1 + 1 + inodeTableBlocks + 1
  · rw [if_pos hsmall, if_pos hsmall]
    rfl
  · rw [if_neg hsmall, if_neg hsmall]
    generalize (⟨totalBlocks, blockStart, label⟩ : Volume) = vol
    apply Recorded.result_bind (allocBlock_result vol (vol.init image))
    rintro ⟨rootBlock, s⟩
    apply Recorded.result_bind (Recorded.result_silent _)
    intro t
    apply Recorded.result_bind (addFiles_result vol files t)
    intro u
    exact Recorded.result_silent _

end Result

end Traced

end ModularBootloader.Mkfs
