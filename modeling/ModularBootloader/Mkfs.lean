import ModularBootloader.Crc32c
import ModularBootloader.Lib.SliceAssign
import ModularBootloader.Lib.RaisingLoop

/-!
# The volume formatter

`owfs_mkfs.py`: block and inode allocation, the packed structures, catalog
insertion, and the formatting of a whole image. The image is a `bytearray`
whose slices are assigned, so a value of another length than its slice moves
what lies behind it. What Python raises is an `Except.error`.
-/

namespace ModularBootloader.Mkfs
open ByteStore SliceAssign RaisingLoop

inductive PyError
  | valueError (msg : String)
  | runtimeError (msg : String)
  | structError
  | indexError
  deriving DecidableEq, Repr

abbrev Bytearray := List UInt8

def block : Nat := 0x1000
def superBlock : Nat := 16
def inodeTableBlocks : Nat := 256
def entriesPerBlock : Nat := 16
def magic : Nat := 0x4F574653
def totalInodes : Nat := 0x1000
def rootInode : Nat := 0
def entryFile : Nat := 0x01
def entryCatalog : Nat := 0x02
def entryDeleted : UInt8 := 0x80
def modeDefaultFile : Nat := 0x1A4
def modeDefaultDir : Nat := 0x1FF

-- The register never leaves 32 bits.
def crcStep (crc : UInt32) : UInt32 := (crc >>> 1) ^^^ (crcPoly &&& (0 - (crc &&& 1)))

def crc32c (data : Bytearray) (initial : UInt32) : UInt32 :=
  data.foldl (fun crc b => crcStep^[8] (crc ^^^ b.toUInt32)) initial

def crc32cStruct (buf : Bytearray) (ckOff : Nat) : UInt32 :=
  crc32c (sliceAssign buf ckOff (ckOff + 4) (List.replicate 4 0)) 0xFFFFFFFF ^^^ 0xFFFFFFFF

def fromBytes (bytes : Bytearray) : Nat := bytes.foldr (fun b n => b.toNat + 256 * n) 0

def fletcherWord (sums : Nat × Nat) (word : Nat) : Nat × Nat :=
  let sum1 := (sums.1 + word) % 0xFFFFFFFF
  (sum1, (sums.2 + sum1) % 0xFFFFFFFF)

def fletcher64 (blocks : List Bytearray) : Nat :=
  let sums := blocks.foldl (fun sums b => (List.range (block / 4)).foldl
    (fun sums i => fletcherWord sums (fromBytes ((b.drop (4 * i)).take 4))) sums) (0, 0)
  (sums.2 <<< 32) ||| sums.1

def leBytes (n v : Nat) : Bytearray := (List.range n).map (byteOf v)

def packInto (buf : Bytearray) (off : Nat) (bytes : Bytearray) : Except PyError Bytearray :=
  if off + bytes.length ≤ buf.length then .ok (sliceAssign buf off (off + bytes.length) bytes)
  else .error .structError

def put32 (buf : Bytearray) (off : Nat) (val : Int) : Except PyError Bytearray :=
  packInto buf off (leBytes 4 (val % 2 ^ 32).toNat)

def put16 (buf : Bytearray) (off : Nat) (val : Int) : Except PyError Bytearray :=
  packInto buf off (leBytes 2 (val % 2 ^ 16).toNat)

def put64 (buf : Bytearray) (off : Nat) (val : Int) : Except PyError Bytearray :=
  packInto buf off (leBytes 8 (val % 2 ^ 64).toNat)

def setByte (buf : Bytearray) (i val : Nat) : Except PyError Bytearray :=
  if 255 < val then .error (.valueError "byte must be in range(0, 256)")
  else if i < buf.length then .ok (sliceAssign buf i (i + 1) [UInt8.ofNat val])
  else .error .indexError

def getByte (buf : Bytearray) (i : Nat) : Except PyError UInt8 :=
  match buf[i]? with
  | some b => .ok b
  | none => .error .indexError

def putEach (buf : Bytearray) (off : Nat) : List Nat → Except PyError Bytearray
  | [] => .ok buf
  | v :: vs => do
    let buf ← put32 buf off v
    putEach buf (off + 4) vs

/-- What a volume is created with; the constant entries of `sb` follow from it. -/
structure Volume where
  totalBlocks : Nat
  blockStart : Nat
  label : String

/-- What its operations change. -/
structure VolumeState where
  image : Bytearray
  freeBlocks : Int
  freeInodes : Int
  rootBlocks : List Nat
  rootBlockCount : Nat

namespace Volume

def bitmapBlocks (vol : Volume) : Nat :=
  (vol.totalBlocks - (superBlock + 1 + inodeTableBlocks) + 32768) / 32769

def bitmapStartBlock : Nat := superBlock + 1
def inodeTableStart (vol : Volume) : Nat := superBlock + 1 + vol.bitmapBlocks
def dataRegionStart (vol : Volume) : Nat := superBlock + 1 + vol.bitmapBlocks + inodeTableBlocks
def dataBlocks (vol : Volume) : Nat := vol.totalBlocks - vol.dataRegionStart

def init (vol : Volume) (image : Bytearray) : VolumeState where
  image := image
  freeBlocks := (vol.totalBlocks : Int) - vol.dataRegionStart
  freeInodes := totalInodes - 1
  rootBlocks := []
  rootBlockCount := 0

def blockOff (vol : Volume) (b : Nat) : Nat := vol.blockStart + b * block

def inodeOff (vol : Volume) (num : Nat) : Nat :=
  vol.blockOff (vol.inodeTableStart + (num >>> 4)) + (num &&& 0x0F) * 0x100

def freeBit (val : UInt8) : Option Nat :=
  (List.range 8).find? fun bit => val.toNat &&& (1 <<< bit) == 0

/-- What `alloc_block` does at one byte of the bitmap. -/
def allocBit (vol : Volume) (s : VolumeState) (b byteIdx : Nat) :
    Except PyError (Option (Nat × VolumeState)) := do
  let base := vol.blockOff (bitmapStartBlock + b)
  let val ← getByte s.image (base + byteIdx)
  if val = 0xFF then .ok none
  else
    match freeBit val with
    | none => .ok none
    | some bit =>
      let rel := (b * block + byteIdx) * 8 + bit
      if rel ≥ vol.dataBlocks then .error (.runtimeError "OWFS volume is full")
      else
        let image ← setByte s.image (base + byteIdx) (val.toNat ||| (1 <<< bit))
        .ok (some (vol.dataRegionStart + rel,
          { s with image := image, freeBlocks := s.freeBlocks - 1 }))

def allocBlock (vol : Volume) (s : VolumeState) : Except PyError (Nat × VolumeState) := do
  let found ← firstSome (fun b => firstSome (vol.allocBit s b) (List.range block))
    (List.range vol.bitmapBlocks)
  match found with
  | some r => .ok r
  | none => .error (.runtimeError "OWFS volume is full")

def allocInode (vol : Volume) (s : VolumeState) : Except PyError (Nat × VolumeState) := do
  let found ← firstSome (fun num => do
    let t ← getByte s.image (vol.inodeOff num + 4)
    .ok (if t = 0 then some num else none)) (List.range totalInodes)
  match found with
  | some num => .ok (num, { s with freeInodes := s.freeInodes - 1 })
  | none => .error (.runtimeError "no free inodes")

/-- The dictionary `write_inode` is given; a missing entry has its default. -/
structure InodeFields where
  inodeNumber : Nat
  entryType : Nat
  nameLength : Nat
  permissions : Nat
  flags : Nat
  sizeBytes : Nat
  blockCount : Nat
  parentInode : Nat
  directBlocks : List Nat
  indirectBlock : Nat
  name : Bytearray

def inodeBytes (f : InodeFields) : Except PyError Bytearray := do
  let ino ← put32 (List.replicate 0x100 0) 0x00 f.inodeNumber
  let ino ← setByte ino 4 f.entryType
  let ino ← setByte ino 5 f.nameLength
  let ino ← put16 ino 6 f.permissions
  let ino ← put16 ino 8 f.flags
  let ino ← put32 ino 0x0A f.sizeBytes
  let ino ← put32 ino 0x0E f.blockCount
  let ino ← put32 ino 0x1A f.parentInode
  let ino ← putEach ino 0x1E f.directBlocks
  let ino ← put32 ino 0x46 f.indirectBlock
  let ino := sliceAssign ino 0x4A (0x4A + f.name.length) f.name
  put32 ino 0xFC (crc32cStruct ino 0xFC).toNat

def writeInode (vol : Volume) (num : Nat) (f : InodeFields) (s : VolumeState) :
    Except PyError VolumeState := do
  let ino ← inodeBytes f
  let off := vol.inodeOff num
  .ok { s with image := sliceAssign s.image off (off + 0x100) ino }

def rootFields (blocks : List Nat) : InodeFields where
  inodeNumber := rootInode
  entryType := entryCatalog
  nameLength := 1
  permissions := modeDefaultDir
  flags := 0
  sizeBytes := 0
  blockCount := blocks.length
  parentInode := 0
  directBlocks := blocks
  indirectBlock := 0
  name := [0x2F]

def writeRootInode (vol : Volume) (s : VolumeState) : Except PyError VolumeState :=
  vol.writeInode rootInode (rootFields s.rootBlocks)
    { s with rootBlockCount := s.rootBlocks.length }

def entryBytes (targetInode entryType : Nat) (name : Bytearray) : Except PyError Bytearray := do
  let ent ← put32 (List.replicate 0x100 0) 0x00 targetInode
  let ent ← setByte ent 4 entryType
  let ent ← setByte ent 5 name.length
  let ent := sliceAssign ent 0x06 (0x06 + name.length) name
  put32 ent 0xFC (crc32cStruct ent 0xFC).toNat

def writeCatalogEntry (base e targetInode entryType : Nat) (name : Bytearray) (s : VolumeState) :
    Except PyError VolumeState := do
  let ent ← entryBytes targetInode entryType name
  let off := base + e * 0x100
  .ok { s with image := sliceAssign s.image off (off + 0x100) ent }

/-- What `catalog_insert` does at one slot of a catalog block. -/
def insertSlot (vol : Volume) (name : Bytearray) (targetInode entryType : Nat) (s : VolumeState)
    (bnum e : Nat) : Except PyError (Option VolumeState) := do
  let base := vol.blockOff bnum
  let t ← getByte s.image (base + e * 0x100 + 4)
  if t = 0 ∨ t &&& entryDeleted ≠ 0 then do
    let s ← writeCatalogEntry base e targetInode entryType name s
    .ok (some s)
  else .ok none

def catalogGrow (vol : Volume) (name : Bytearray) (targetInode entryType : Nat)
    (s : VolumeState) : Except PyError VolumeState := do
  let (bnum, s) ← vol.allocBlock s
  let s := { s with rootBlocks := s.rootBlocks ++ [bnum] }
  let s ← writeCatalogEntry (vol.blockOff bnum) 0 targetInode entryType name s
  vol.writeRootInode s

def catalogInsert (vol : Volume) (name : Bytearray) (targetInode entryType : Nat)
    (s : VolumeState) : Except PyError VolumeState := do
  let found ← firstSome (fun bnum =>
    firstSome (vol.insertSlot name targetInode entryType s bnum) (List.range entriesPerBlock))
    s.rootBlocks
  match found with
  | some s => .ok s
  | none => vol.catalogGrow name targetInode entryType s

/-- The locals of the block loop of `add_file`. -/
structure AddState where
  state : VolumeState
  direct : List Nat
  indirect : Nat

def chunk (data : Bytearray) (i : Nat) : Bytearray := (data.drop (i * block)).take block

def indirectFor (vol : Volume) (i : Nat) (st : AddState) : Except PyError (Nat × VolumeState) :=
  if i ≥ 10 ∧ st.indirect = 0 then vol.allocBlock st.state else .ok (st.indirect, st.state)

def addBlock (vol : Volume) (data : Bytearray) (i : Nat) (st : AddState) :
    Except PyError AddState := do
  let (indirect, s) ← vol.indirectFor i st
  let (b, s) ← vol.allocBlock s
  let off := vol.blockOff b
  .ok ⟨{ s with image := sliceAssign s.image off (off + block) (chunk data i) },
    st.direct ++ [b], indirect⟩

def writeIndirect (vol : Volume) (st : AddState) : Except PyError (List Nat × VolumeState) := do
  if st.indirect ≠ 0 then
    let ibuf ← putEach (List.replicate block 0) 0 (st.direct.drop 10)
    let off := vol.blockOff st.indirect
    .ok (st.direct.take 10,
      { st.state with image := sliceAssign st.state.image off (off + block) ibuf })
  else .ok (st.direct, st.state)

def blocksOf (data : Bytearray) : Nat := (data.length + block - 1) / block

def fileFields (inodeNum : Nat) (name data : Bytearray) (direct : List Nat) (indirect : Nat) :
    InodeFields where
  inodeNumber := inodeNum
  entryType := entryFile
  nameLength := name.length
  permissions := modeDefaultFile
  flags := 0
  sizeBytes := data.length
  blockCount := blocksOf data
  parentInode := rootInode
  directBlocks := direct
  indirectBlock := indirect
  name := name

def addFile (vol : Volume) (name data : Bytearray) (s : VolumeState) :
    Except PyError (Nat × VolumeState) := do
  let (inodeNum, s) ← vol.allocInode s
  let st ← pass (vol.addBlock data) (blocksOf data) ⟨s, [], 0⟩
  let (direct, s) ← vol.writeIndirect st
  let s ← vol.writeInode inodeNum (fileFields inodeNum name data direct st.indirect) s
  let s ← vol.catalogInsert name inodeNum entryFile s
  .ok (inodeNum, s)

def bitmapImage (vol : Volume) (image : Bytearray) : List Bytearray :=
  (List.range vol.bitmapBlocks).map fun b =>
    (image.drop (vol.blockOff (bitmapStartBlock + b))).take block

def superblockBytes (vol : Volume) (s : VolumeState) : Except PyError Bytearray := do
  let label := vol.label.toUTF8.toList.take 64
  let sb ← put32 (List.replicate block 0) 0x00 magic
  let sb ← put16 sb 0x04 1
  let sb ← put16 sb 0x06 2
  let sb ← put32 sb 0x08 block
  let sb ← put32 sb 0x0C vol.totalBlocks
  let sb ← put32 sb 0x10 s.freeBlocks
  let sb ← put32 sb 0x14 totalInodes
  let sb ← put32 sb 0x18 s.freeInodes
  let sb ← put32 sb 0x1C bitmapStartBlock
  let sb ← put32 sb 0x20 vol.bitmapBlocks
  let sb ← put32 sb 0x24 vol.inodeTableStart
  let sb ← put32 sb 0x28 inodeTableBlocks
  let sb ← put32 sb 0x2C vol.dataRegionStart
  let sb ← put32 sb 0x30 rootInode
  let sb ← put32 sb 0x34 0
  let sb ← put32 sb 0x38 0
  let sb := sliceAssign sb 0x44 (0x44 + label.length) label
  let sb ← put32 sb 0x88 0
  let sb ← put64 sb 0x3C (fletcher64 (vol.bitmapImage s.image))
  put32 sb 0x84 (crc32cStruct sb 0x84).toNat

def writeSuperblock (vol : Volume) (s : VolumeState) : Except PyError VolumeState := do
  let sb ← vol.superblockBytes s
  let off := vol.blockOff superBlock
  .ok { s with image := sliceAssign s.image off (off + block) sb }

end Volume

abbrev FileList := List (Bytearray × Bytearray)

def addFiles (vol : Volume) : FileList → VolumeState → Except PyError VolumeState
  | [], s => .ok s
  | (name, data) :: rest, s => do
    let (_, s) ← vol.addFile name data s
    addFiles vol rest s

def formatOwfs (image : Bytearray) (totalBlocks : Nat) (label : String) (files : FileList)
    (allocSuper : Bool) (blockStart : Nat) : Except PyError VolumeState := do
  if totalBlocks < superBlock + 1 + 1 + inodeTableBlocks + 1 then
    .error (.valueError "total_blocks too small for OWFS")
  else
    let vol : Volume := ⟨totalBlocks, blockStart, label⟩
    let (rootBlock, s) ← vol.allocBlock (vol.init image)
    let s ← vol.writeRootInode { s with rootBlocks := s.rootBlocks ++ [rootBlock] }
    let s ← addFiles vol files s
    if allocSuper then vol.writeSuperblock s else .ok s

end ModularBootloader.Mkfs
