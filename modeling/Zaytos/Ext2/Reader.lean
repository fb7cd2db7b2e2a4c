import Zaytos.Ext2.Types

set_option autoImplicit false

/-! The reader: `Ext2::parse` and what it offers over an accepted image. Every sum, product
and slice of the source is a checked one here, so a panic of the source is a `fault` of the
model. Positions in an image are `usize`, which is 64 bits wide. -/
namespace Zaytos.Fs

/-- `is_power_of_two` on a `u16`. -/
def isPowerOfTwo16 (n : Nat) : Bool := (List.range 16).any fun k => n == 2 ^ k

/-- The bits of a `u32` that `INCOMPAT_SUPPORTED` does not have. -/
def unsupportedIncompat (features : Nat) : Nat := features &&& (2 ^ 32 - 1 - incompatSupported)

/-- `s_want_extra_isize`, or 0 when the image does not reach that far or the inode has no
room for it. -/
def wantExtraIsizeOf (image : Bytes) (inodeSize : Nat) : Result Ext2Error Nat := do
  let pos ← add64 superblockOffset superblockWantExtraIsize
  let declared ←
    if pos + 2 ≤ image.len then (liftM (image.readU16 pos) : Result Ext2Error Nat) else pure 0
  if declared ≠ 0 ∧ inodeCoreLen + declared ≤ inodeSize then pure declared else pure 0

def Ext2.parse (image : Bytes) : Result Ext2Error Ext2 := do
  let sbEnd := superblockOffset + superblockMinLen
  Result.rejectIf (image.len < sbEnd) .tooShort
  let sb ← image.slice superblockOffset sbEnd
  let magic ← sb.readU16 56
  Result.rejectIf (magic ≠ ext2Magic) .badMagic
  let rev ← sb.readU32 76
  Result.rejectIf (rev ≠ ext2DynamicRev) (.unsupportedRevision rev)
  let shift ← sb.readU32 24
  Result.rejectIf (6 < shift) (.badBlockSizeShift shift)
  let blockSize ← mul32 1024 (2 ^ shift)
  let inodeSize ← sb.readU16 88
  Result.rejectIf (inodeSize < 128 ∨ !isPowerOfTwo16 inodeSize ∨ blockSize < inodeSize)
    (.badInodeSize inodeSize)
  let featureIncompat ← sb.readU32 96
  let unsupported := unsupportedIncompat featureIncompat
  Result.rejectIf (unsupported ≠ 0) (.unsupportedIncompatFeatures unsupported)
  let blocksCount ← sb.readU32 4
  let inodesCount ← sb.readU32 0
  let freeBlocksCount ← sb.readU32 12
  let freeInodesCount ← sb.readU32 16
  let blocksPerGroup ← sb.readU32 32
  let inodesPerGroup ← sb.readU32 40
  Result.rejectIf (blocksPerGroup = 0 ∨ inodesPerGroup = 0) .zeroPerGroup
  let wantExtraIsize ← wantExtraIsizeOf image inodeSize
  let needed ← mul64 blocksCount blockSize
  Result.rejectIf (image.len < needed) (.imageTooSmall needed image.len)
  let firstDataBlock ← sb.readU32 20
  Result.rejectIf (blocksCount ≤ firstDataBlock) (.blockOutOfRange firstDataBlock)
  let groupCount := divCeil (blocksCount - firstDataBlock) blocksPerGroup
  let firstInode ← sb.readU32 84
  let featureCompat ← sb.readU32 92
  let featureRoCompat ← sb.readU32 100
  let tableBlock ← add32 firstDataBlock 1
  let tableStart ← mul64 tableBlock blockSize
  let tableLen ← mul64 groupCount groupDescriptorSize
  -- `checked_add`: an overflow here is an error, not a panic.
  Result.rejectIf (2 ^ 64 ≤ tableStart + tableLen) .groupDescriptorsOutOfRange
  Result.rejectIf (image.len < tableStart + tableLen) .groupDescriptorsOutOfRange
  pure {
    image, blockSize, blocksCount, inodesCount, firstDataBlock, blocksPerGroup, inodesPerGroup,
    inodeSize, firstInode, featureCompat, featureIncompat, featureRoCompat, groupCount,
    freeBlocksCount, freeInodesCount, wantExtraIsize }

namespace Ext2

/-- `block_bytes`: one block, borrowed from the image. -/
def blockBytes (fs : Ext2) (block : Nat) : Result Ext2Error Bytes := do
  Result.rejectIf (fs.blocksCount ≤ block) (.blockOutOfRange block)
  let start ← mul64 block fs.blockSize
  let stop ← add64 start fs.blockSize
  Result.rejectIf (fs.image.len < stop) (.blockOutOfRange block)
  fs.image.slice start stop

def checkBlocks (fs : Ext2) : List Nat → Result Ext2Error Unit
  | [] => pure ()
  | block :: rest => do
      Result.rejectIf (fs.blocksCount ≤ block) (.blockOutOfRange block)
      checkBlocks fs rest

def groupDescriptor (fs : Ext2) (group : Nat) : Result Ext2Error BlockGroupDescriptor := do
  Result.rejectIf (fs.groupCount ≤ group) .groupDescriptorsOutOfRange
  let tableBlock ← add32 fs.firstDataBlock 1
  let tableStart ← mul64 tableBlock fs.blockSize
  let skipped ← mul64 group groupDescriptorSize
  let offset ← add64 tableStart skipped
  let stop ← add64 offset groupDescriptorSize
  Result.rejectIf (fs.image.len < stop) .groupDescriptorsOutOfRange
  let raw ← fs.image.slice offset stop
  let blockBitmap ← raw.readU32 0
  let inodeBitmap ← raw.readU32 4
  let inodeTable ← raw.readU32 8
  let freeBlocksCount ← raw.readU16 12
  let freeInodesCount ← raw.readU16 14
  let usedDirsCount ← raw.readU16 16
  checkBlocks fs [blockBitmap, inodeBitmap, inodeTable]
  pure { blockBitmap, inodeBitmap, inodeTable, freeBlocksCount, freeInodesCount, usedDirsCount }

/-- The `i_block` entries from `slot` on; a nonzero one must be inside the image. -/
def readSlots (fs : Ext2) (raw : Bytes) : Nat → Nat → Result Ext2Error (List Nat)
  | _, 0 => pure []
  | slot, remaining + 1 => do
      let block ← raw.readU32 (40 + slot * 4)
      Result.rejectIf (block ≠ 0 ∧ fs.blocksCount ≤ block) (.blockOutOfRange block)
      let rest ← readSlots fs raw (slot + 1) remaining
      pure (block :: rest)

def inode (fs : Ext2) (ino : Nat) : Result Ext2Error Inode := do
  Result.rejectIf (ino = 0 ∨ fs.inodesCount < ino) (.inodeOutOfRange ino)
  let zeroBased ← sub ino 1
  let group ← div zeroBased fs.inodesPerGroup
  let index ← rem zeroBased fs.inodesPerGroup
  let descriptor ← fs.groupDescriptor group
  let tableStart ← mul64 descriptor.inodeTable fs.blockSize
  let skipped ← mul64 index fs.inodeSize
  let start ← add64 tableStart skipped
  -- `saturating_add`.
  let stop := min (start + inodeCoreLen) (2 ^ 64 - 1)
  Result.rejectIf (fs.image.len < stop) (.inodeTableOutOfRange ino stop)
  let raw ← fs.image.slice start stop
  let mode ← raw.readU16 0
  let blocks ← readSlots fs raw 0 inodeBlockCount
  let sizeLow ← raw.readU32 4
  let size ←
    if formatOf mode = modeRegular then do
      let sizeHigh ← raw.readU32 108
      pure (joinSize sizeLow sizeHigh)
    else pure sizeLow
  let linksCount ← raw.readU16 26
  let blocks512 ← raw.readU32 28
  pure { number := ino, mode, size, linksCount, blocks512, blocks }

/-- `block_number_of`: the image's number of block `index` of a file; 0 is a hole. -/
def blockNumberOf (fs : Ext2) (inode : Inode) (index : Nat) : Result Ext2Error Nat := do
  if index < directBlockCount then
    liftM (inode.blocks[index]?)
  else do
    let within ← sub index directBlockCount
    let entriesPerBlock := fs.blockSize / indirectEntrySize
    Result.rejectIf (entriesPerBlock ≤ within) (.indirectBlockUnsupported index)
    let tableBlock ← inode.blocks[singleIndirectSlot]?
    if tableBlock = 0 then pure 0
    else do
      let table ← fs.blockBytes tableBlock
      let pos ← mul32 within indirectEntrySize
      -- `get(at..at + 4)`: a miss is an error, not a panic.
      Result.rejectIf (table.len < pos + indirectEntrySize) (.fileBlockOutOfRange index)
      table.readU32 pos

/-- The block that every hole reads as: `&ZERO_BLOCK[..block_size]`. -/
def zeroBlock (blockSize : Nat) : Option Bytes := (⟨65536, fun _ => 0⟩ : Bytes).slice 0 blockSize

/-- `file_block`: the valid bytes of block `index` of a file. -/
def fileBlock (fs : Ext2) (inode : Inode) (index : Nat) : Result Ext2Error Bytes := do
  let offset ← mul64 index fs.blockSize
  Result.rejectIf (inode.size ≤ offset) (.fileBlockOutOfRange index)
  Result.rejectIf (inode.usesUnsupportedIndirection) (.indirectBlockUnsupported index)
  let block ← fs.blockNumberOf inode index
  let bytes ← if block = 0 then liftM (zeroBlock fs.blockSize) else fs.blockBytes block
  let remaining ← sub inode.size offset
  bytes.slice 0 (min remaining fs.blockSize)

def blockSpan (fs : Ext2) (inode : Inode) : Nat := divCeil inode.size fs.blockSize

end Ext2

structure DirEntries where
  inode : Inode
  blockCount : Nat
  blockIndex : Nat
  block : Option Bytes
  offset : Nat
  finished : Bool

/-- What `next` hands out: nothing more, an entry, or the error the walk ends with. -/
abbrev DirItem := Option (Except Ext2Error DirEntry)

/-- How one round of the loop in `next` ends. -/
inductive DirStep where
  | item (item : DirItem) (walk : DirEntries)
  | again (walk : DirEntries)

namespace DirEntries

/-- Report `e` and stop the walk. -/
def stopWith (walk : DirEntries) (e : Ext2Error) : DirStep :=
  .item (some (.error e)) { walk with finished := true }

/-- The record at `offset` of the loaded block. -/
def stepRecord (fs : Ext2) (walk : DirEntries) (bytes : Bytes) : Option DirStep := do
  let remaining := bytes.len - walk.offset
  if remaining < direntHeaderLen then
    return walk.stopWith (.dirEntryTruncated walk.blockIndex remaining)
  else
    let header ← bytes.slice walk.offset (walk.offset + direntHeaderLen)
    let inode ← header.readU32 0
    let recLen ← header.readU16 4
    let nameLen ← header.readU8 6
    let fileType ← header.readU8 7
    if ¬ direntAlignment ∣ recLen then
      return walk.stopWith (.dirEntryMisaligned recLen)
    else if recLen < direntHeaderLen + nameLen.toNat then
      return walk.stopWith (.dirEntryRecordTooSmall recLen nameLen.toNat)
    else if remaining < recLen then
      return walk.stopWith (.dirEntryRecordPastBlock recLen remaining)
    else if inode ≠ 0 ∧ fs.inodesCount < inode then
      return walk.stopWith (.inodeOutOfRange inode)
    else
      let nameStart := walk.offset + direntHeaderLen
      let name ← bytes.slice nameStart (nameStart + nameLen.toNat)
      let offset := walk.offset + recLen
      let walk := { walk with offset }
      if inode = 0 then
        return .again walk
      else
        let passed ← mul64 walk.blockIndex fs.blockSize
        let nextOffset ← add64 passed offset
        return .item (some (.ok { inode, fileType, name := name.toList, nextOffset })) walk

/-- One round of the loop in `next`. -/
def step (fs : Ext2) (walk : DirEntries) : Option DirStep :=
  if walk.finished then some (.item none walk)
  else
    match walk.block with
    | none =>
        if walk.blockCount ≤ walk.blockIndex then
          some (.item none { walk with finished := true })
        else
          match fs.fileBlock walk.inode walk.blockIndex with
          | .fault => none
          | .err e => some (walk.stopWith e)
          | .ok bytes => stepBlock { walk with block := some bytes } bytes
    | some bytes => stepBlock walk bytes
where
  stepBlock (walk : DirEntries) (bytes : Bytes) : Option DirStep :=
    if bytes.len ≤ walk.offset then
      (add32 walk.blockIndex 1).map fun blockIndex =>
        .again { walk with block := none, offset := 0, blockIndex }
    else walk.stepRecord fs bytes

/-- `next`, with a bound on the rounds it may take. Running out of rounds is a fault: it
stands for a loop that does not end. -/
def nextWithin (fs : Ext2) : Nat → DirEntries → Option (DirItem × DirEntries)
  | 0, _ => none
  | rounds + 1, walk =>
      match step fs walk with
      | none => none
      | some (.item item walk) => some (item, walk)
      | some (.again walk) => nextWithin fs rounds walk

/-- More rounds than a walk from here can take: one for every byte still to be passed and
one for every block boundary. -/
def rounds (fs : Ext2) (walk : DirEntries) : Nat :=
  (walk.blockCount - walk.blockIndex + 1) * (fs.blockSize + 2) + 2

def next (fs : Ext2) (walk : DirEntries) : Option (DirItem × DirEntries) :=
  nextWithin fs (walk.rounds fs) walk

/-- The items of the whole walk, in at most `fuel` calls of `next`; `none` when some call
faults or the walk has not ended by then. -/
def collectWithin (fs : Ext2) : Nat → DirEntries → Option (List (Except Ext2Error DirEntry))
  | 0, _ => none
  | fuel + 1, walk =>
      match walk.next fs with
      | none => none
      | some (none, _) => some []
      | some (some item, walk) => (collectWithin fs fuel walk).map (item :: ·)

def collect (fs : Ext2) (walk : DirEntries) : Option (List (Except Ext2Error DirEntry)) :=
  collectWithin fs (walk.rounds fs) walk

end DirEntries

namespace Ext2

def directoryEntriesFrom (fs : Ext2) (inode : Inode) (start : Nat) :
    Result Ext2Error DirEntries := do
  Result.rejectIf (!inode.isDirectory) (.notADirectory inode.number)
  let index ← div start fs.blockSize
  let offset ← rem start fs.blockSize
  pure {
    inode, offset, blockCount := fs.blockSpan inode, block := none, finished := false
    blockIndex := min index (2 ^ 32 - 1) }

def directoryEntries (fs : Ext2) (inode : Inode) : Result Ext2Error DirEntries :=
  fs.directoryEntriesFrom inode 0

/-- The loop of `lookup_in` over the entries that are left. -/
def lookupAmong (fs : Ext2) (name : List UInt8) : Nat → DirEntries → Result Ext2Error Inode
  | 0, _ => .fault
  | fuel + 1, walk =>
      match walk.next fs with
      | none => .fault
      | some (none, _) => .err .notFound
      | some (some (.error e), _) => .err e
      | some (some (.ok entry), walk) =>
          if entry.name = name then fs.inode entry.inode
          else lookupAmong fs name fuel walk

def lookupIn (fs : Ext2) (dir : Inode) (name : List UInt8) : Result Ext2Error Inode := do
  let walk ← fs.directoryEntries dir
  lookupAmong fs name (walk.rounds fs) walk

/-- `path.split(|b| b == '/')`: always at least one piece. -/
def splitPath (path : List UInt8) : List (List UInt8) := path.splitOn pathSeparator

/-- The loop of `lookup` over the pieces of the path. -/
def resolve (fs : Ext2) : Inode → Nat → List (List UInt8) → Result Ext2Error Inode
  | current, _, [] => pure current
  | current, components, piece :: rest =>
      if piece = [] then resolve fs current components rest
      else do
        let components ← add64 components 1
        Result.rejectIf (maxPathComponents < components) (.pathTooManyComponents maxPathComponents)
        let current ← fs.lookupIn current piece
        resolve fs current components rest

def lookup (fs : Ext2) (path : List UInt8) : Result Ext2Error Inode := do
  Result.rejectIf (path.head? ≠ some pathSeparator) .pathNotAbsolute
  let root ← fs.inode rootInode
  let current ← resolve fs root 0 (splitPath path)
  Result.rejectIf (path.getLast? = some pathSeparator ∧ !current.isDirectory)
    (.notADirectory current.number)
  pure current

end Ext2

end Zaytos.Fs
