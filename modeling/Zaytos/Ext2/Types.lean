import Zaytos.Lib.Bytes
import Zaytos.Lib.Checked
import Zaytos.Lib.Exec

set_option autoImplicit false

/-! The data of the ext2 module: on-disk constants, the errors of the reader and of the
writer, and the records both sides pass around. Numbers are naturals; the width a number
has in the source is enforced where the source computes with it. -/
namespace Zaytos.Fs

abbrev ext2Magic : Nat := 0xEF53
abbrev superblockOffset : Nat := 1024
/-- The part of the superblock that `parse` requires. -/
abbrev superblockMinLen : Nat := 104
abbrev superblockWantExtraIsize : Nat := 350
abbrev superblockFreeBlocksCount : Nat := 12
abbrev superblockFreeInodesCount : Nat := 16
abbrev groupDescriptorFreeBlocksCount : Nat := 12
abbrev groupDescriptorFreeInodesCount : Nat := 14
abbrev groupDescriptorUsedDirsCount : Nat := 16
abbrev groupDescriptorSize : Nat := 32
abbrev ext2DynamicRev : Nat := 1
abbrev incompatFiletype : Nat := 2
abbrev incompatSupported : Nat := incompatFiletype
abbrev inodeCoreLen : Nat := 128
abbrev inodeExtraIsize : Nat := inodeCoreLen
abbrev inodeBlockCount : Nat := 15
abbrev directBlockCount : Nat := 12
abbrev singleIndirectSlot : Nat := 12
abbrev doubleIndirectSlot : Nat := 13
abbrev tripleIndirectSlot : Nat := 14
abbrev indirectEntrySize : Nat := 4
abbrev direntHeaderLen : Nat := 8
abbrev direntAlignment : Nat := 4
abbrev direntTypeRegular : UInt8 := 1
abbrev direntTypeDirectory : UInt8 := 2
abbrev rootInode : Nat := 2
abbrev pathSeparator : UInt8 := 47
abbrev maxPathComponents : Nat := 64
abbrev maxNameLen : Nat := 255
abbrev modeFormatMask : Nat := 0xF000
abbrev modeRegular : Nat := 0x8000
abbrev modeDirectory : Nat := 0x4000

inductive Ext2Error where
  | tooShort
  | badMagic
  | unsupportedRevision (rev : Nat)
  | badBlockSizeShift (shift : Nat)
  | badInodeSize (size : Nat)
  | zeroPerGroup
  | unsupportedIncompatFeatures (bits : Nat)
  | imageTooSmall (needed actual : Nat)
  | blockOutOfRange (block : Nat)
  | groupDescriptorsOutOfRange
  | inodeOutOfRange (inode : Nat)
  | inodeTableOutOfRange (inode needed : Nat)
  | fileBlockOutOfRange (index : Nat)
  | indirectBlockUnsupported (index : Nat)
  | notADirectory (inode : Nat)
  | dirEntryTruncated (block remaining : Nat)
  | dirEntryMisaligned (recLen : Nat)
  | dirEntryRecordTooSmall (recLen nameLen : Nat)
  | dirEntryRecordPastBlock (recLen remaining : Nat)
  | pathNotAbsolute
  | pathTooManyComponents (limit : Nat)
  | notFound
  deriving DecidableEq, Repr

inductive AllocError where
  | full
  | blockOutOfRange (number : Nat)
  | notAllocated (number : Nat)
  | imageTooSmall
  | freeCountInconsistent
  | inodeOutOfRange (inode : Nat)
  | badName
  | nameTaken
  | noRoomInDirectory
  | notADirectory (inode : Nat)
  | notARegularFile (inode : Nat)
  | noSuchEntry
  | noPreviousEntry
  | directoryNotEmpty (inode : Nat)
  | directoryCorrupt
  deriving DecidableEq, Repr

/-- Where things are in an image: what the writer copies out of a parsed superblock. -/
structure Layout where
  blockSize : Nat
  blocksCount : Nat
  firstDataBlock : Nat
  blocksPerGroup : Nat
  groupCount : Nat
  inodesPerGroup : Nat
  inodeSize : Nat
  inodesCount : Nat
  wantExtraIsize : Nat
  firstInode : Nat
  deriving DecidableEq, Repr

structure Ext2 where
  image : Bytes
  blockSize : Nat
  blocksCount : Nat
  inodesCount : Nat
  firstDataBlock : Nat
  blocksPerGroup : Nat
  inodesPerGroup : Nat
  inodeSize : Nat
  firstInode : Nat
  featureCompat : Nat
  featureIncompat : Nat
  featureRoCompat : Nat
  groupCount : Nat
  freeBlocksCount : Nat
  freeInodesCount : Nat
  wantExtraIsize : Nat

structure BlockGroupDescriptor where
  blockBitmap : Nat
  inodeBitmap : Nat
  inodeTable : Nat
  freeBlocksCount : Nat
  freeInodesCount : Nat
  usedDirsCount : Nat
  deriving DecidableEq, Repr

/-- The fields of an inode that reading needs. `blocks` is the array `i_block`: entries
0 to 11 are direct, 12 is the single-indirect table, 13 and 14 are not followed. -/
structure Inode where
  number : Nat
  mode : Nat
  size : Nat
  linksCount : Nat
  blocks512 : Nat
  blocks : List Nat
  deriving DecidableEq, Repr

/-- One used record of a directory. `nextOffset` is the byte position just after it. -/
structure DirEntry where
  inode : Nat
  fileType : UInt8
  name : List UInt8
  nextOffset : Nat
  deriving DecidableEq, Repr

/-- `size_low | (size_high << 32)`. The constant stands first so that the product never
unfolds through four thousand million steps. -/
def joinSize (low high : Nat) : Nat := 4294967296 * high + low

/-- The `i_mode` file type bits. -/
def formatOf (mode : Nat) : Nat := mode &&& modeFormatMask

namespace Inode

def isDirectory (i : Inode) : Bool := formatOf i.mode == modeDirectory

def isRegularFile (i : Inode) : Bool := formatOf i.mode == modeRegular

def block (i : Inode) (slot : Nat) : Nat := i.blocks.getD slot 0

def usesUnsupportedIndirection (i : Inode) : Bool :=
  i.block doubleIndirectSlot != 0 || i.block tripleIndirectSlot != 0

end Inode

/-- `layout()`. -/
def Ext2.layout (fs : Ext2) : Layout where
  blockSize := fs.blockSize
  blocksCount := fs.blocksCount
  firstDataBlock := fs.firstDataBlock
  blocksPerGroup := fs.blocksPerGroup
  groupCount := fs.groupCount
  inodesPerGroup := fs.inodesPerGroup
  inodeSize := fs.inodeSize
  inodesCount := fs.inodesCount
  wantExtraIsize := fs.wantExtraIsize
  firstInode := fs.firstInode

/-- What `parse` checks about the numbers of a superblock. -/
structure Layout.Wf (L : Layout) : Prop where
  blockSize_pow : ∃ shift ≤ 6, L.blockSize = 1024 * 2 ^ shift
  inodeSize_ge : inodeCoreLen ≤ L.inodeSize
  inodeSize_pow : ∃ k, L.inodeSize = 2 ^ k
  inodeSize_le : L.inodeSize ≤ L.blockSize
  blocksPerGroup_pos : 0 < L.blocksPerGroup
  inodesPerGroup_pos : 0 < L.inodesPerGroup
  firstDataBlock_lt : L.firstDataBlock < L.blocksCount
  blocksCount_lt : L.blocksCount < 2 ^ 32
  inodesCount_lt : L.inodesCount < 2 ^ 32
  inodesPerGroup_lt : L.inodesPerGroup < 2 ^ 32
  blocksPerGroup_lt : L.blocksPerGroup < 2 ^ 32
  groupCount_eq : L.groupCount = divCeil (L.blocksCount - L.firstDataBlock) L.blocksPerGroup
  wantExtraIsize_fits : L.wantExtraIsize ≠ 0 → inodeCoreLen + L.wantExtraIsize ≤ L.inodeSize

namespace Layout.Wf

variable {L : Layout}

theorem blockSize_ge (wf : L.Wf) : 1024 ≤ L.blockSize := by
  obtain ⟨shift, -, eq⟩ := wf.blockSize_pow
  have := Nat.one_le_two_pow (n := shift)
  omega

theorem blockSize_le (wf : L.Wf) : L.blockSize ≤ 65536 := by
  obtain ⟨shift, bound, eq⟩ := wf.blockSize_pow
  have : 2 ^ shift ≤ 2 ^ 6 := Nat.pow_le_pow_right (by omega) bound
  omega

theorem blockSize_pos (wf : L.Wf) : 0 < L.blockSize := by
  have := wf.blockSize_ge
  omega

theorem blockSize_dvd (wf : L.Wf) : 1024 ∣ L.blockSize := by
  obtain ⟨shift, -, eq⟩ := wf.blockSize_pow
  exact ⟨2 ^ shift, eq⟩

theorem inodeSize_ge_128 (wf : L.Wf) : 128 ≤ L.inodeSize := wf.inodeSize_ge

theorem groupCount_pos (wf : L.Wf) : 0 < L.groupCount := by
  rw [wf.groupCount_eq, lt_divCeil_iff wf.blocksPerGroup_pos, zero_mul]
  have := wf.firstDataBlock_lt
  omega

theorem group_start_lt (wf : L.Wf) {g : Nat} (h : g < L.groupCount) :
    L.firstDataBlock + g * L.blocksPerGroup < L.blocksCount := by
  rw [wf.groupCount_eq, lt_divCeil_iff wf.blocksPerGroup_pos] at h
  omega

theorem groupCount_lt (wf : L.Wf) : L.groupCount < 2 ^ 32 := by
  have bound : L.groupCount ≤ L.blocksCount - L.firstDataBlock := by
    rw [wf.groupCount_eq, divCeil_le_iff wf.blocksPerGroup_pos]
    exact Nat.le_mul_of_pos_right _ wf.blocksPerGroup_pos
  have := wf.blocksCount_lt
  omega

theorem group_of_block_lt (wf : L.Wf) {b : Nat} (upper : b < L.blocksCount)
    (lower : L.firstDataBlock ≤ b) :
    (b - L.firstDataBlock) / L.blocksPerGroup < L.groupCount := by
  rw [wf.groupCount_eq, lt_divCeil_iff wf.blocksPerGroup_pos]
  have := Nat.div_mul_le_self (b - L.firstDataBlock) L.blocksPerGroup
  omega

end Layout.Wf

end Zaytos.Fs
