import Zaytos.Ext2.Types

set_option autoImplicit false

/-! The writer: the functions that rewrite an image in place.

An index or a slice outside the image, an integer operation that leaves its type and a loop
that does not end are all a `fault`. `None` of a private helper is `.err ()`. Positions are
`usize`, which is 64 bits wide; the sums of a checked position and a small constant are
written plainly, since a block number has 32 bits and a block at most 2^16 bytes.

The loops carry the number of rounds they have left. Where the source has a `while`, that
number is one the loop cannot use up, and using it up is a fault. -/
namespace Zaytos.Fs

abbrev Writer (α : Type) := Exec Bytes AllocError α

namespace Writer

def imageLen : Writer Nat := fun image => .ok image.len image

def readU8 (pos : Nat) : Writer UInt8 := Exec.read fun image => liftM (image.readU8 pos)

def readU16 (pos : Nat) : Writer Nat := Exec.read fun image => liftM (image.readU16 pos)

def readU32 (pos : Nat) : Writer Nat := Exec.read fun image => liftM (image.readU32 pos)

/-- `image[pos..pos + n].copy_from_slice(..)`. -/
def store (pos n : Nat) (f : Nat → UInt8) : Writer Unit := fun image =>
  if pos + n ≤ image.len then .ok () (image.put pos n f) else .fault

def storeU8 (pos : Nat) (v : UInt8) : Writer Unit := store pos 1 fun _ => v

def storeU16 (pos v : Nat) : Writer Unit := store pos 2 (leByte v)

def storeU32 (pos v : Nat) : Writer Unit := store pos 4 (leByte v)

def storeList (pos : Nat) (bytes : List UInt8) : Writer Unit :=
  store pos bytes.length fun k => bytes.getD k 0

/-- `image[pos..pos + n].fill(0)`. -/
def fill (pos n : Nat) : Writer Unit := store pos n fun _ => 0

end Writer

open Writer

namespace Layout

/-- `locate`: the group of a block, and its index there. -/
def locate (L : Layout) (block : Nat) : Result Unit (Nat × Nat) := do
  Result.rejectIf (L.blocksCount ≤ block) ()
  Result.rejectIf (block < L.firstDataBlock) ()
  let index := block - L.firstDataBlock
  let group ← div index L.blocksPerGroup
  let within ← rem index L.blocksPerGroup
  pure (group, within)

def descriptorAt (L : Layout) (group : Nat) : Result Unit Nat := do
  Result.rejectIf (L.groupCount ≤ group) ()
  let tableBlock ← add32 L.firstDataBlock 1
  let table ← mul64 tableBlock L.blockSize
  let skipped ← mul64 group groupDescriptorSize
  add64 table skipped

/-- `inode_at`: like `Ext2::inode`, but the whole slot must be inside the image. -/
def inodeAt (L : Layout) (image : Bytes) (ino : Nat) : Result Unit Nat := do
  Result.rejectIf (ino = 0 ∨ L.inodesCount < ino) ()
  let group ← div (ino - 1) L.inodesPerGroup
  let index ← rem (ino - 1) L.inodesPerGroup
  let descriptor ← L.descriptorAt group
  Result.rejectIf (image.len < descriptor + groupDescriptorSize) ()
  let table ← image.readU32 (descriptor + 8)
  let tableStart ← mul64 table L.blockSize
  let skipped ← mul64 index L.inodeSize
  let offset ← add64 tableStart skipped
  let stop ← add64 offset L.inodeSize
  Result.rejectIf (image.len < stop) ()
  pure offset

def sectorsPerBlock (L : Layout) : Nat := L.blockSize / 512

/-- `block_at`. A `u64` is a `usize` here, so the conversion never fails. -/
def blockAt (L : Layout) (block : Nat) : Result AllocError Nat := mul64 block L.blockSize

end Layout

/-- The byte half of `bitmap_slot`; the mask is `bitMask (index % 8)`. -/
def bitmapByte (bitmap index : Nat) : Nat := bitmap + index / 8

def iBlockSlot (inodeAt index : Nat) : Nat := inodeAt + 40 + index * 4

section Blocks

variable (L : Layout)

/-- The inner loop of `allocate_block`: the first clear bit of one group. -/
def allocateBlockIn (descriptor bitmap first : Nat) : Nat → Nat → Writer (Option Nat)
  | _, 0 => pure none
  | index, remaining + 1 => do
      let byte := bitmapByte bitmap index
      let len ← imageLen
      Exec.rejectIf (len ≤ byte) .imageTooSmall
      let bits ← readU8 byte
      if bits &&& bitMask (index % 8) ≠ 0 then
        allocateBlockIn descriptor bitmap first (index + 1) remaining
      else do
        let free ← readU16 (descriptor + groupDescriptorFreeBlocksCount)
        Exec.rejectIf (free = 0) .freeCountInconsistent
        let total ← readU32 (superblockOffset + superblockFreeBlocksCount)
        Exec.rejectIf (total = 0) .freeCountInconsistent
        storeU8 byte (bits ||| bitMask (index % 8))
        storeU16 (descriptor + groupDescriptorFreeBlocksCount) (free - 1)
        storeU32 (superblockOffset + superblockFreeBlocksCount) (total - 1)
        let block ← add32 first index
        pure (some block)

/-- The outer loop of `allocate_block`. -/
def allocateBlockFrom : Nat → Nat → Writer Nat
  | _, 0 => Exec.fail .full
  | group, remaining + 1 => do
      let descriptor ← Exec.read fun _ => (L.descriptorAt group).okOr .imageTooSmall
      let len ← imageLen
      Exec.rejectIf (len < descriptor + groupDescriptorSize) .imageTooSmall
      let bitmapBlock ← readU32 descriptor
      let bitmap ← Exec.read fun _ => L.blockAt bitmapBlock
      let skipped ← mul32 group L.blocksPerGroup
      let first ← add32 L.firstDataBlock skipped
      let left ← sub L.blocksCount first
      match ← allocateBlockIn descriptor bitmap first 0 (min L.blocksPerGroup left) with
      | some block => pure block
      | none => allocateBlockFrom (group + 1) remaining

def allocateBlock : Writer Nat := allocateBlockFrom L 0 L.groupCount

def freeBlock (block : Nat) : Writer Unit := do
  let place ← Exec.read fun _ => (L.locate block).okOr (.blockOutOfRange block)
  let descriptor ← Exec.read fun _ => (L.descriptorAt place.1).okOr (.blockOutOfRange block)
  let len ← imageLen
  Exec.rejectIf (len < descriptor + groupDescriptorSize) .imageTooSmall
  let bitmapBlock ← readU32 descriptor
  let bitmap ← Exec.read fun _ => L.blockAt bitmapBlock
  let byte := bitmapByte bitmap place.2
  Exec.rejectIf (len ≤ byte) .imageTooSmall
  let bits ← readU8 byte
  Exec.rejectIf (bits &&& bitMask (place.2 % 8) = 0) (.notAllocated block)
  let free ← readU16 (descriptor + groupDescriptorFreeBlocksCount)
  Exec.rejectIf (2 ^ 16 ≤ free + 1) .freeCountInconsistent
  let total ← readU32 (superblockOffset + superblockFreeBlocksCount)
  Exec.rejectIf (2 ^ 32 ≤ total + 1) .freeCountInconsistent
  storeU8 byte (bits &&& ~~~bitMask (place.2 % 8))
  storeU16 (descriptor + groupDescriptorFreeBlocksCount) (free + 1)
  storeU32 (superblockOffset + superblockFreeBlocksCount) (total + 1)

/-- The inner loop of `allocate_inode`. Unlike the block side, the bit is set before the
counts are looked at. -/
def allocateInodeIn (descriptor bitmap first : Nat) : Nat → Nat → Writer (Option Nat)
  | _, 0 => pure none
  | index, remaining + 1 => do
      let ino ← add32 first index
      if ino < L.firstInode then
        allocateInodeIn descriptor bitmap first (index + 1) remaining
      else do
        let byte := bitmapByte bitmap index
        let len ← imageLen
        Exec.rejectIf (len ≤ byte) .imageTooSmall
        let bits ← readU8 byte
        if bits &&& bitMask (index % 8) ≠ 0 then
          allocateInodeIn descriptor bitmap first (index + 1) remaining
        else do
          storeU8 byte (bits ||| bitMask (index % 8))
          let free ← readU16 (descriptor + groupDescriptorFreeInodesCount)
          Exec.rejectIf (free = 0) .freeCountInconsistent
          let total ← readU32 (superblockOffset + superblockFreeInodesCount)
          Exec.rejectIf (total = 0) .freeCountInconsistent
          storeU16 (descriptor + groupDescriptorFreeInodesCount) (free - 1)
          storeU32 (superblockOffset + superblockFreeInodesCount) (total - 1)
          pure (some ino)

/-- The outer loop of `allocate_inode`. -/
def allocateInodeFrom : Nat → Nat → Writer Nat
  | _, 0 => Exec.fail .full
  | group, remaining + 1 => do
      let descriptor ← Exec.read fun _ => (L.descriptorAt group).okOr .imageTooSmall
      let len ← imageLen
      Exec.rejectIf (len < descriptor + groupDescriptorSize) .imageTooSmall
      let bitmapBlock ← readU32 (descriptor + 4)
      let bitmap ← Exec.read fun _ => L.blockAt bitmapBlock
      let skipped ← mul32 group L.inodesPerGroup
      let first ← add32 skipped 1
      let last ← add32 L.inodesCount 1
      match ← allocateInodeIn L descriptor bitmap first 0 (min L.inodesPerGroup (last - first)) with
      | some ino => pure ino
      | none => allocateInodeFrom (group + 1) remaining

def allocateInode : Writer Nat := allocateInodeFrom L 0 L.groupCount

def freeInode (ino : Nat) : Writer Unit := do
  Exec.rejectIf (ino = 0 ∨ L.inodesCount < ino) (.inodeOutOfRange ino)
  let group ← div (ino - 1) L.inodesPerGroup
  let index ← rem (ino - 1) L.inodesPerGroup
  let descriptor ← Exec.read fun _ => (L.descriptorAt group).okOr (.inodeOutOfRange ino)
  let len ← imageLen
  Exec.rejectIf (len < descriptor + groupDescriptorSize) .imageTooSmall
  let bitmapBlock ← readU32 (descriptor + 4)
  let bitmap ← Exec.read fun _ => L.blockAt bitmapBlock
  let byte := bitmapByte bitmap index
  Exec.rejectIf (len ≤ byte) .imageTooSmall
  let bits ← readU8 byte
  Exec.rejectIf (bits &&& bitMask (index % 8) = 0) (.notAllocated ino)
  let free ← readU16 (descriptor + groupDescriptorFreeInodesCount)
  Exec.rejectIf (2 ^ 16 ≤ free + 1) .freeCountInconsistent
  let total ← readU32 (superblockOffset + superblockFreeInodesCount)
  Exec.rejectIf (2 ^ 32 ≤ total + 1) .freeCountInconsistent
  storeU8 byte (bits &&& ~~~bitMask (index % 8))
  storeU16 (descriptor + groupDescriptorFreeInodesCount) (free + 1)
  storeU32 (superblockOffset + superblockFreeInodesCount) (total + 1)

end Blocks

section Files

variable (L : Layout)

/-- `inode_at(image, ino).ok_or(error)?`. -/
def inodeAtOr (ino : Nat) (error : AllocError) : Writer Nat :=
  Exec.read fun image => (L.inodeAt image ino).okOr error

/-- The block that the next byte of the file goes to: a fresh one, linked into its slot, at
a block boundary, and the last one otherwise. -/
def blockForAppend (slot offsetInBlock : Nat) : Writer Nat :=
  if offsetInBlock = 0 then do
    let block ← allocateBlock L
    storeU32 slot block
    pure block
  else readU32 slot

/-- The loop of `append_to_file`, from `written` bytes of the data and size `size`. It
returns the new size. -/
def appendFrom (inode : Nat) (data : List UInt8) : Nat → Nat → Nat → Writer Nat
  | 0, written, size => if written < data.length then fun _ => .fault else pure size
  | fuel + 1, written, size =>
      if written < data.length then do
        let offsetInBlock ← rem size L.blockSize
        let index ← div size L.blockSize
        Exec.rejectIf (directBlockCount ≤ index) .full
        let block ← blockForAppend L (iBlockSlot inode index) offsetInBlock
        let room ← sub L.blockSize offsetInBlock
        let take := min room (data.length - written)
        let start ← Exec.read fun _ => L.blockAt block
        let pos := start + offsetInBlock
        let len ← imageLen
        Exec.rejectIf (len < pos + take) .imageTooSmall
        storeList pos ((data.drop written).take take)
        let size ← add32 size take
        appendFrom inode data fuel (written + take) size
      else pure size

def appendToFile (ino : Nat) (data : List UInt8) : Writer Unit := do
  let inode ← inodeAtOr L ino (.blockOutOfRange ino)
  let old ← readU32 (inode + 4)
  let size ← appendFrom L inode data data.length 0 old
  storeU32 (inode + 4) size
  let sectors ← mul32 (divCeil size L.blockSize) L.sectorsPerBlock
  storeU32 (inode + 28) sectors

/-- One round of the loop of `truncate_to`: give back what slot `index` points to. -/
def releaseSlot (inode index : Nat) : Writer Unit := do
  let slot := iBlockSlot inode index
  let block ← readU32 slot
  if block = 0 then pure ()
  else do
    let pos ← Exec.read fun _ => L.blockAt block
    let len ← imageLen
    if pos + L.blockSize ≤ len then fill pos L.blockSize else pure ()
    storeU32 slot 0
    freeBlock L block

/-- The loop of `truncate_to`: the slots `keep .. keep + count`, from the last one down. -/
def releaseSlots (inode keep : Nat) : Nat → Writer Unit
  | 0 => pure ()
  | count + 1 => do
      releaseSlot L inode (keep + count)
      releaseSlots inode keep count

/-- The end of `truncate_to`: what is behind the new size in its last block becomes zero. -/
def clearTail (inode keep target : Nat) : Writer Unit :=
  if 0 < keep then do
    let last ← readU32 (iBlockSlot inode (keep - 1))
    let tail ← rem target L.blockSize
    if last ≠ 0 ∧ tail ≠ 0 then do
      let start ← Exec.read fun _ => L.blockAt last
      let len ← imageLen
      if start + tail + (L.blockSize - tail) ≤ len then
        fill (start + tail) (L.blockSize - tail)
      else pure ()
    else pure ()
  else pure ()

def truncateTo (ino target : Nat) : Writer Unit := do
  let inode ← inodeAtOr L ino (.blockOutOfRange ino)
  let size ← readU32 (inode + 4)
  Exec.rejectIf (size < target) (.notAllocated ino)
  let keep := divCeil target L.blockSize
  let count := divCeil size L.blockSize - keep
  releaseSlots L inode keep count
  clearTail L inode keep target
  storeU32 (inode + 4) target
  let sectors ← mul32 keep L.sectorsPerBlock
  storeU32 (inode + 28) sectors

end Files

/-- `dirent_span`: header and name, rounded up to a multiple of four. -/
def direntSpan (nameLen : Nat) : Nat := (direntHeaderLen + nameLen + 3) / 4 * 4

abbrev DirectorySlot := Nat × Option Nat

/-- What `scan_directory` has seen: the record of the name, and one with room behind it. -/
structure Scan where
  found : Option DirectorySlot
  room : Option DirectorySlot
  deriving DecidableEq, Repr

section Directories

variable (L : Layout) (image : Bytes)

/-- The inner loop of `scan_directory`, on the block that ends at `stop`. A later record of
the name replaces an earlier one; the first record with room stays. -/
def scanBlock (name : List UInt8) (want stop : Nat) :
    Nat → Nat → Option Nat → Scan → Result AllocError Scan
  | 0, pos, _, scan => if pos + direntHeaderLen ≤ stop then .fault else .ok scan
  | fuel + 1, pos, previous, scan =>
      if pos + direntHeaderLen ≤ stop then do
        let entry ← image.readU32 pos
        let recLen ← image.readU16 (pos + 4)
        let nameLen ← image.readU8 (pos + 6)
        Result.rejectIf (¬ direntAlignment ∣ recLen ∨ recLen < direntHeaderLen + nameLen.toNat ∨
          stop < pos + recLen) .directoryCorrupt
        let found ←
          if entry ≠ 0 then do
            let bytes ← image.slice (pos + direntHeaderLen) (pos + direntHeaderLen + nameLen.toNat)
            pure (if bytes.toList = name then some (pos, previous) else scan.found)
          else pure scan.found
        let room ←
          if scan.room = none ∧ entry ≠ 0 then do
            let gap ← sub recLen (direntSpan nameLen.toNat)
            pure (if want ≤ gap then some (pos, previous) else none)
          else pure scan.room
        scanBlock name want stop fuel (pos + recLen) (some pos) ⟨found, room⟩
      else .ok scan

/-- The outer loop of `scan_directory`, over the direct slots. -/
def scanSlots (dirAt : Nat) (name : List UInt8) (want : Nat) :
    Nat → Nat → Scan → Result AllocError Scan
  | _, 0, scan => .ok scan
  | index, remaining + 1, scan => do
      let block ← image.readU32 (iBlockSlot dirAt index)
      if block = 0 then scanSlots dirAt name want (index + 1) remaining scan
      else do
        let base ← L.blockAt block
        Result.rejectIf (image.len < base + L.blockSize) .imageTooSmall
        let scan ← scanBlock image name want (base + L.blockSize) L.blockSize base none scan
        scanSlots dirAt name want (index + 1) remaining scan

def scanDirectory (dir : Nat) (name : List UInt8) (want : Nat) : Result AllocError Scan := do
  let dirAt ← (L.inodeAt image dir).okOr (.inodeOutOfRange dir)
  let mode ← image.readU16 dirAt
  Result.rejectIf (formatOf mode ≠ modeDirectory) (.notADirectory dir)
  let size ← image.readU32 (dirAt + 4)
  let blocks ← div size L.blockSize
  scanSlots L image dirAt name want 0 (min blocks directBlockCount) ⟨none, none⟩

/-- The loop of `directory_is_empty` on the block at `body`. -/
def emptyFrom (blockSize body : Nat) : Nat → Nat → Result AllocError Bool
  | 0, offset => if offset + direntHeaderLen ≤ blockSize then .fault else .ok true
  | fuel + 1, offset =>
      if offset + direntHeaderLen ≤ blockSize then do
        let entry := body + offset
        let recLen ← image.readU16 (entry + 4)
        Result.rejectIf (recLen < direntHeaderLen ∨ blockSize < offset + recLen) .directoryCorrupt
        let inode ← image.readU32 entry
        let nameLen ← image.readU8 (entry + 6)
        if inode ≠ 0 then do
          let name ← image.slice (entry + direntHeaderLen) (entry + direntHeaderLen + nameLen.toNat)
          if name.toList ≠ [46] ∧ name.toList ≠ [46, 46] then pure false
          else emptyFrom blockSize body fuel (offset + recLen)
        else emptyFrom blockSize body fuel (offset + recLen)
      else .ok true

/-- `directory_is_empty`: it looks at the first block only. -/
def directoryIsEmpty (ino : Nat) : Result AllocError Bool := do
  let pos ← (L.inodeAt image ino).okOr (.inodeOutOfRange ino)
  let block ← image.readU32 (pos + 40)
  if block = 0 then pure true
  else do
    let body ← L.blockAt block
    emptyFrom image L.blockSize body L.blockSize 0

end Directories

/-- `checked_add_signed` on a `u16`. -/
def addSigned16 (value : Nat) (delta : Int) : Option Nat :=
  if 0 ≤ value + delta ∧ value + delta < 2 ^ 16 then some (value + delta).toNat else none

/-- The names that `create_file` and `create_directory` refuse. -/
def badName (name : List UInt8) : Bool :=
  name.isEmpty || decide (maxNameLen < name.length) || name.contains pathSeparator ||
    name == [46] || name == [46, 46]

section Namespace

variable (L : Layout)

def bumpLinks (ino : Nat) (delta : Int) : Writer Unit := do
  let pos ← inodeAtOr L ino (.inodeOutOfRange ino)
  let links ← readU16 (pos + 26)
  match addSigned16 links delta with
  | none => Exec.fail .directoryCorrupt
  | some next => storeU16 (pos + 26) next

def bumpUsedDirs (ino : Nat) (delta : Int) : Writer Unit := do
  let zeroBased ← sub ino 1
  let group ← div zeroBased L.inodesPerGroup
  let descriptor ← Exec.read fun _ => (L.descriptorAt group).okOr .imageTooSmall
  let dirs ← readU16 (descriptor + groupDescriptorUsedDirsCount)
  match addSigned16 dirs delta with
  | none => Exec.fail .freeCountInconsistent
  | some next => storeU16 (descriptor + groupDescriptorUsedDirsCount) next

/-- `insert_dirent`: split the record at `previous`. -/
def insertDirent (previous ino : Nat) (name : List UInt8) (fileType : UInt8) : Writer Unit := do
  let previousName ← readU8 (previous + 6)
  let previousLen := direntSpan previousName.toNat
  let recLen ← readU16 (previous + 4)
  let entryLen ← sub recLen previousLen
  storeU16 (previous + 4) previousLen
  let entry := previous + previousLen
  storeU32 entry ino
  storeU16 (entry + 4) entryLen
  storeU8 (entry + 6) (UInt8.ofNat name.length)
  storeU8 (entry + 7) fileType
  storeList (entry + direntHeaderLen) name

/-- `remove_dirent`: the record before takes the room. -/
def removeDirent (entry previous : Nat) : Writer Unit := do
  let entryLen ← readU16 (entry + 4)
  let previousLen ← readU16 (previous + 4)
  Exec.rejectIf (2 ^ 16 ≤ previousLen + entryLen) .directoryCorrupt
  storeU16 (previous + 4) (previousLen + entryLen)
  fill entry entryLen

/-- The start that `create_file` and `create_directory` share: the name is legal and new,
and some record has room for it. -/
def roomFor (dir : Nat) (name : List UInt8) : Writer Nat := do
  Exec.rejectIf (badName name) .badName
  let scan ← Exec.read fun image => scanDirectory L image dir name (direntSpan name.length)
  Exec.rejectIf (scan.found.isSome) .nameTaken
  match scan.room with
  | none => Exec.fail .noRoomInDirectory
  | some (previous, _) => pure previous

/-- The store of `i_extra_isize` that `create_file` and `create_directory` share. -/
def storeExtraIsize (pos : Nat) : Writer Unit :=
  if L.wantExtraIsize ≠ 0 then storeU16 (pos + inodeExtraIsize) L.wantExtraIsize else pure ()

/-- The slot of a new file at `pos`: it is cleared before its fields are written. -/
def writeFileInode (pos : Nat) : Writer Unit := do
  fill pos L.inodeSize
  storeU16 pos (modeRegular ||| 0o644)
  storeExtraIsize L pos
  storeU16 (pos + 26) 1

def createFile (dir : Nat) (name : List UInt8) : Writer Nat := do
  let previous ← roomFor L dir name
  let ino ← allocateInode L
  let pos ← inodeAtOr L ino (.inodeOutOfRange ino)
  writeFileInode L pos
  insertDirent previous ino name direntTypeRegular
  pure ino

/-- The start that `unlink_file` and `remove_directory` share: the record of the name, the
one before it in its block, and the inode it names. -/
def entryOf (dir : Nat) (name : List UInt8) : Writer (Nat × Nat × Nat) := do
  Exec.rejectIf (name = [] ∨ maxNameLen < name.length) .badName
  let scan ← Exec.read fun image => scanDirectory L image dir name (2 ^ 64 - 1)
  match scan.found with
  | none => Exec.fail .noSuchEntry
  | some (_, none) => Exec.fail .noPreviousEntry
  | some (entry, some previous) => do
      let ino ← readU32 entry
      pure (entry, previous, ino)

/-- The end of an inode, which `unlink_file` and `remove_directory` share: its blocks go
first, then its slot, then its number. -/
def eraseInode (ino pos : Nat) : Writer Unit := do
  truncateTo L ino 0
  fill pos L.inodeSize
  freeInode L ino

def unlinkFile (dir : Nat) (name : List UInt8) : Writer Unit := do
  let (entry, previous, ino) ← entryOf L dir name
  let pos ← inodeAtOr L ino (.inodeOutOfRange ino)
  let mode ← readU16 pos
  Exec.rejectIf (formatOf mode ≠ modeRegular) (.notARegularFile ino)
  eraseInode L ino pos
  removeDirent entry previous

/-- The contents of a new directory: `.` and `..` in the block at `body`. -/
def writeDots (body ino parent : Nat) : Writer Unit := do
  fill body L.blockSize
  storeU32 body ino
  storeU16 (body + 4) (direntSpan 1)
  storeU8 (body + 6) 1
  storeU8 (body + 7) direntTypeDirectory
  storeU8 (body + direntHeaderLen) 46
  let dotdot := body + direntSpan 1
  let dotdotLen ← sub L.blockSize (direntSpan 1)
  storeU32 dotdot parent
  storeU16 (dotdot + 4) dotdotLen
  storeU8 (dotdot + 6) 2
  storeU8 (dotdot + 7) direntTypeDirectory
  storeU8 (dotdot + direntHeaderLen) 46
  storeU8 (dotdot + direntHeaderLen + 1) 46

/-- The slot of a new directory at `pos`. -/
def writeDirectoryInode (pos block : Nat) : Writer Unit := do
  fill pos L.inodeSize
  storeU16 pos (modeDirectory ||| 0o755)
  storeU32 (pos + 4) L.blockSize
  storeU16 (pos + 26) 2
  storeU32 (pos + 28) L.sectorsPerBlock
  storeU32 (pos + 40) block
  storeExtraIsize L pos

def createDirectory (parent : Nat) (name : List UInt8) : Writer Nat := do
  let previous ← roomFor L parent name
  let ino ← allocateInode L
  let block ← allocateBlock L
  let pos ← inodeAtOr L ino (.inodeOutOfRange ino)
  writeDirectoryInode L pos block
  let body ← Exec.read fun _ => L.blockAt block
  writeDots L body ino parent
  insertDirent previous ino name direntTypeDirectory
  bumpLinks L parent 1
  bumpUsedDirs L ino 1
  pure ino

def removeDirectory (parent : Nat) (name : List UInt8) : Writer Unit := do
  let (entry, previous, ino) ← entryOf L parent name
  let pos ← inodeAtOr L ino (.inodeOutOfRange ino)
  let mode ← readU16 pos
  Exec.rejectIf (formatOf mode ≠ modeDirectory) (.notADirectory ino)
  let empty ← Exec.read fun image => directoryIsEmpty L image ino
  Exec.rejectIf (!empty) (.directoryNotEmpty ino)
  eraseInode L ino pos
  bumpUsedDirs L ino (-1)
  bumpLinks L parent (-1)
  removeDirent entry previous

end Namespace

end Zaytos.Fs
