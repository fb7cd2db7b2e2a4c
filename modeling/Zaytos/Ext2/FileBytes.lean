import Zaytos.Ext2.FileSpec

set_option autoImplicit false

/-! The bytes of a file: read block by block with `file_block`, and as the slots of its inode
and the data blocks give them. -/
namespace Zaytos.Fs

/-- The blocks of a file from `index` on, each read with `file_block`. -/
def Ext2.readBlocks (fs : Ext2) (inode : Inode) : Nat → Nat → Result Ext2Error (List UInt8)
  | _, 0 => pure []
  | index, remaining + 1 => do
      let bytes ← fs.fileBlock inode index
      let rest ← readBlocks fs inode (index + 1) remaining
      pure (bytes.toList ++ rest)

def contentsOf (image : Bytes) (ino : Nat) : Result Ext2Error (List UInt8) := do
  let fs ← Ext2.parse image
  let inode ← fs.inode ino
  fs.readBlocks inode 0 (fs.blockSpan inode)

/-- Byte `p` of a file. A slot that names no block is a hole. -/
def Disk.fileByte (L : Layout) (m : Disk) (ino p : Nat) : UInt8 :=
  if m.slot ino (p / L.blockSize) = 0 then 0
  else (m.block ino (p / L.blockSize)).get (p % L.blockSize)

/-- A regular file that the direct slots are enough for: its slots name data blocks, holes
are allowed, and past its size there is nothing. -/
structure PlainFile (G : Geometry) (m : Disk) (ino : Nat) : Prop where
  has : G.layout.HasInode ino
  regular : m.IsRegular ino
  size_le : 2 ^ 32 * m.sizeHigh ino + m.size ino ≤ directBlockCount * G.layout.blockSize
  data : ∀ k < inodeBlockCount, m.slot ino k ≠ 0 → G.DataBlock (m.slot ino k)
  past : ∀ k < inodeBlockCount, m.fileBlocks G.layout ino ≤ k → m.slot ino k = 0

namespace PlainFile

variable {G : Geometry} {m : Disk} {ino : Nat} (file : PlainFile G m ino)
include file

theorem few : m.fileBlocks G.layout ino ≤ directBlockCount := by
  have size := file.size_le
  unfold Disk.fileBlocks
  rw [divCeil_le_iff G.wf.blockSize_pos]
  omega

theorem sizeHigh : m.sizeHigh ino = 0 := by
  have size := file.size_le
  have blockSize := G.wf.blockSize_le
  have most : directBlockCount * G.layout.blockSize ≤ 12 * 65536 := Nat.mul_le_mul_left _ blockSize
  omega

end PlainFile

section Read

variable {G : Geometry} {base image : Bytes} {m : Disk} {ino : Nat} (shows : G.Shows base image m)
include shows

theorem Geometry.Shows.descriptor_inside {g : Nat} (group : g < G.layout.groupCount)
    (inodes : 0 < G.layout.inodeSpan g) :
    (descriptorOf image (G.layout.descriptorPos g)).Inside G.layout.blocksCount := by
  have sizePos := G.wf.blockSize_pos
  have below : ∀ {b len : Nat}, 0 < len →
      b * G.layout.blockSize + len ≤ G.layout.blocksCount * G.layout.blockSize →
      b < G.layout.blocksCount := by
    intro b len pos le
    by_contra above
    have := Nat.mul_le_mul_right G.layout.blockSize (Nat.le_of_not_lt above)
    omega
  have start := G.wf.group_start_lt group
  have blocks : 0 < G.layout.blockSpan g := by
    have := G.wf.blocksPerGroup_pos
    unfold Layout.blockSpan
    omega
  have ceil : ∀ {n : Nat}, 0 < n → 0 < divCeil n 8 := by
    intro n pos
    rw [lt_divCeil_iff (by decide)]
    omega
  have tableLen : 0 < G.layout.inodeSpan g * G.layout.inodeSize :=
    Nat.mul_pos inodes (lt_of_lt_of_le (by decide) G.wf.inodeSize_ge_128)
  unfold descriptorOf BlockGroupDescriptor.Inside
  dsimp only
  rw [shows.blockBitmap group, shows.inodeBitmap group, shows.inodeTable group]
  exact ⟨below (ceil blocks) (G.inside (.blockBitmap g) group),
    below (ceil inodes) (G.inside (.inodeBitmap g) group),
    below tableLen (G.inside (.inodeTable g) group)⟩

theorem Geometry.Shows.inodePos (has : G.layout.HasInode ino) :
    G.layout.inodePos image ino = G.areaPos (.inode ino) := by
  have table := shows.inodeTable has.group_lt
  unfold Layout.inodeGroup at table
  unfold Layout.inodePos
  rw [table]
  rfl

theorem Geometry.Shows.inode {fs : Ext2} (parsed : Ext2.parse image = .ok fs)
    (layout : fs.layout = G.layout) (has : G.layout.HasInode ino)
    (data : ∀ k < inodeBlockCount, m.slot ino k ≠ 0 → G.DataBlock (m.slot ino k)) :
    fs.inode ino = .ok (inodeOf image (G.areaPos (.inode ino)) ino) := by
  obtain ⟨valid, same⟩ := parse_valid parsed
  have place := shows.inodePos has
  have span := lt_of_le_of_lt (Nat.zero_le _) (Layout.inodeIndex_lt G.wf has)
  rw [← place, ← layout, ← same]
  rw [← layout, ← same] at place
  apply inode_of_readable valid
  have count : fs.blocksCount = G.layout.blocksCount := congrArg Layout.blocksCount layout
  refine ⟨has.pos, ?_, ?_, ?_, ?_, ?_⟩
  · have := has.le
    rwa [← layout] at this
  · have := has.group_lt
    rwa [← layout] at this
  · have inside := shows.descriptor_inside has.group_lt span
    rw [← layout, ← same] at inside
    exact inside
  · rw [place, same]
    exact inode_end_le shows has
  · intro k small b named nonzero
    rw [place, same, ← add_assoc] at named
    have slot := slot_eq shows has small
    unfold iBlockSlot at slot
    rw [slot] at named
    subst named
    rw [count]
    exact (data k small nonzero).1.2

theorem PlainFile.inodeOf (file : PlainFile G m ino) :
    (inodeOf image (G.areaPos (.inode ino)) ino).size = m.size ino ∧
      (Fs.inodeOf image (G.areaPos (.inode ino)) ino).usesUnsupportedIndirection = false ∧
      ∀ k < inodeBlockCount,
        (Fs.inodeOf image (G.areaPos (.inode ino)) ino).block k = m.slot ino k := by
  have has := file.has
  have sizeGe := G.wf.inodeSize_ge_128
  have slots : ∀ k < inodeBlockCount,
      (Fs.inodeOf image (G.areaPos (.inode ino)) ino).block k = m.slot ino k := by
    intro k small
    rw [inodeOf_block _ _ _ small, ← add_assoc]
    exact slot_eq shows has small
  have high : image.u32 (G.areaPos (.inode ino) + 108) = m.sizeHigh ino :=
    shows.u32 (a := .inode ino) (k := 108) has (by simp only [Geometry.areaLen]; omega)
  refine ⟨?_, ?_, slots⟩
  · have regular := file.regular
    unfold Disk.IsRegular at regular
    unfold Fs.inodeOf
    dsimp only
    rw [mode_eq shows has, if_pos regular, size_eq shows has, high, file.sizeHigh]
    unfold joinSize
    omega
  · have few := file.few
    unfold Inode.usesUnsupportedIndirection
    rw [slots _ (by decide), slots _ (by decide), file.past _ (by decide) (le_trans few (by decide)),
      file.past _ (by decide) (le_trans few (by decide))]
    rfl

theorem PlainFile.fileBlock {fs : Ext2} (file : PlainFile G m ino)
    (parsed : Ext2.parse image = .ok fs) (layout : fs.layout = G.layout) {k : Nat}
    (small : k < m.fileBlocks G.layout ino) :
    ∃ bytes, fs.fileBlock (Fs.inodeOf image (G.areaPos (.inode ino)) ino) k = .ok bytes ∧
      bytes.toList = (List.range (min (m.size ino - k * G.layout.blockSize) G.layout.blockSize)).map
        fun j => m.fileByte G.layout ino (k * G.layout.blockSize + j) := by
  obtain ⟨valid, same⟩ := parse_valid parsed
  obtain ⟨size, direct, slots⟩ := file.inodeOf shows
  have few := file.few
  have bound : k < directBlockCount := lt_of_lt_of_le small few
  have sizePos := G.wf.blockSize_pos
  have blockSize : fs.blockSize = G.layout.blockSize := congrArg Layout.blockSize layout
  have blocksCount : fs.blocksCount = G.layout.blocksCount := congrArg Layout.blocksCount layout
  have slot := slots k (lt_trans bound (by decide))
  have before : k * fs.blockSize < (Fs.inodeOf image (G.areaPos (.inode ino)) ino).size := by
    unfold Disk.fileBlocks at small
    rwa [lt_divCeil_iff sizePos, ← size, ← blockSize] at small
  refine ⟨_, fileBlock_of_number valid (lt_trans bound (by decide)) before direct
    (blockNumberOf_direct (length_inodeOf_blocks _ _ _) bound) ?_, ?_⟩
  · intro nonzero
    rw [slot] at nonzero ⊢
    rw [blocksCount]
    exact (file.data k (lt_trans bound (by decide)) nonzero).1.2
  · rw [slot, size, same, blockSize]
    unfold Bytes.toList Bytes.view
    dsimp only
    apply List.map_congr_left
    intro j mem
    have inside : j < G.layout.blockSize := by
      have := List.mem_range.mp mem
      omega
    unfold blockData Disk.fileByte
    rw [zero_add, mul_comm k, Nat.mul_add_div sizePos, Nat.div_eq_of_lt inside, add_zero,
      Nat.mul_add_mod, Nat.mod_eq_of_lt inside]
    by_cases hole : m.slot ino k = 0
    · rw [if_pos hole, if_pos hole]
    · rw [if_neg hole, if_neg hole]
      exact shows.get (a := .data (m.slot ino k))
        (file.data k (lt_trans bound (by decide)) hole) inside

theorem PlainFile.readBlocks {fs : Ext2} (file : PlainFile G m ino)
    (parsed : Ext2.parse image = .ok fs) (layout : fs.layout = G.layout) (count k : Nat)
    (whole : k + count = m.fileBlocks G.layout ino) :
    fs.readBlocks (Fs.inodeOf image (G.areaPos (.inode ino)) ino) k count =
      .ok ((List.range (m.size ino - k * G.layout.blockSize)).map fun j =>
        m.fileByte G.layout ino (k * G.layout.blockSize + j)) := by
  have sizePos := G.wf.blockSize_pos
  induction count generalizing k with
  | zero =>
    have most : m.size ino ≤ k * G.layout.blockSize := by
      rw [← divCeil_le_iff sizePos]
      exact le_of_eq whole.symm
    unfold Ext2.readBlocks
    rw [Nat.sub_eq_zero_of_le most]
    rfl
  | succ count ih =>
    obtain ⟨bytes, read, list⟩ := file.fileBlock shows parsed layout (k := k) (by omega)
    unfold Ext2.readBlocks
    rw [read, Result.ok_bind, ih (k + 1) (by omega), Result.ok_bind, Result.pure_eq, list]
    have inside : k * G.layout.blockSize < m.size ino := by
      have small : k < m.fileBlocks G.layout ino := by omega
      unfold Disk.fileBlocks at small
      rwa [lt_divCeil_iff sizePos] at small
    have next : (k + 1) * G.layout.blockSize = k * G.layout.blockSize + G.layout.blockSize :=
      Nat.succ_mul _ _
    by_cases last : m.size ino - k * G.layout.blockSize ≤ G.layout.blockSize
    · rw [min_eq_left last, next, show m.size ino -
        (k * G.layout.blockSize + G.layout.blockSize) = 0 by omega]
      simp
    · rw [min_eq_right (by omega), next, show m.size ino - k * G.layout.blockSize =
        G.layout.blockSize + (m.size ino - (k * G.layout.blockSize + G.layout.blockSize)) by omega,
        List.range_add, List.map_append, List.map_map]
      simp only [add_assoc]
      rfl

theorem PlainFile.contents (file : PlainFile G m ino) :
    contentsOf image ino = .ok ((List.range (m.size ino)).map (m.fileByte G.layout ino)) := by
  obtain ⟨fs, parsed, layout, -⟩ := shows.parsed
  have blockSize : fs.blockSize = G.layout.blockSize := congrArg Layout.blockSize layout
  unfold contentsOf Ext2.blockSpan
  rw [parsed, Result.ok_bind, shows.inode parsed layout file.has file.data, Result.ok_bind,
    (file.inodeOf shows).1, blockSize,
    file.readBlocks shows parsed layout (divCeil (m.size ino) G.layout.blockSize) 0 (zero_add _)]
  simp

end Read

end Zaytos.Fs
