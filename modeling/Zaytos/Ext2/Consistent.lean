import Zaytos.Ext2.Scan

set_option autoImplicit false

/-! When an image is consistent, and what `scan_directory` finds in a directory of a
consistent image. -/
namespace Zaytos.Fs

open Finset

namespace Disk

variable (L : Layout) (m : Disk)

def Live (ino : Nat) : Prop := L.HasInode ino ∧ m.inodeUsed L ino = true

instance (ino : Nat) : Decidable (m.Live L ino) := by
  unfold Live
  infer_instance

def fileBlocks (ino : Nat) : Nat := divCeil (m.size ino) L.blockSize

/-- The block that slot `k` of `ino` names. -/
def block (ino k : Nat) : Bytes := m (.data (m.slot ino k))

/-- The records of block `k` of directory `dir`. -/
def recordsOf (dir k : Nat) : List Nat := positions (m.block dir k) L.blockSize

/-- How many records of block `k` of `dir` name `ino`, if `dir` is a directory and has that
block. -/
def refsAt (ino dir k : Nat) : Nat :=
  if m.Live L dir ∧ m.IsDir dir ∧ m.slot dir k ≠ 0 then refsIn (m.block dir k) L.blockSize ino else 0

/-- How many records of directory `dir` name `ino`. -/
def refsFrom (ino dir : Nat) : Nat := ∑ k ∈ range directBlockCount, m.refsAt L ino dir k

/-- How many directory records name `ino`. -/
def refs (ino : Nat) : Nat := ∑ dir ∈ range (L.inodesCount + 1), m.refsFrom L ino dir

/-- The blocks of a regular file or a directory: no holes, only direct slots, and `i_blocks`
counts them. -/
structure FileShape (ino : Nat) : Prop where
  blocks_le : m.fileBlocks L ino ≤ directBlockCount
  slot_iff : ∀ k < inodeBlockCount, m.slot ino k ≠ 0 ↔ k < m.fileBlocks L ino
  sectors : m.sectors ino = m.fileBlocks L ino * L.sectorsPerBlock

/-- A block of a directory: a chain of records, and those in use name allocated inodes. -/
structure DirBlock (d : Bytes) : Prop where
  chain : Chain d L.blockSize 0 (positions d L.blockSize)
  live : ∀ p ∈ positions d L.blockSize, (recordAt d p).inode ≠ 0 → m.Live L (recordAt d p).inode

end Disk

structure Consistent (G : Geometry) (m : Disk) : Prop where
  blockCounts : m.BlockCounts G.layout
  inodeCounts : m.InodeCounts G.layout
  dirCounts : ∀ g < G.layout.groupCount, m.usedDirs g =
    Nat.count (fun j => m.IsDir (g * G.layout.inodesPerGroup + j + 1)) (G.layout.inodeSpan g)
  dirLive : ∀ ino, G.layout.HasInode ino → m.IsDir ino → m.Live G.layout ino
  metaUsed : ∀ b, G.layout.HasBlock b → G.Meta b → m.blockUsed G.layout b = true
  slotUsed : ∀ ino, m.Live G.layout ino → ∀ k < inodeBlockCount, m.slot ino k ≠ 0 →
    G.DataBlock (m.slot ino k) ∧ m.blockUsed G.layout (m.slot ino k) = true
  slotUnique : ∀ i j k l, m.Live G.layout i → m.Live G.layout j → k < inodeBlockCount →
    l < inodeBlockCount → m.slot i k ≠ 0 → m.slot i k = m.slot j l → i = j ∧ k = l
  owned : ∀ b, G.DataBlock b → m.blockUsed G.layout b = true →
    ∃ ino k, m.Live G.layout ino ∧ k < inodeBlockCount ∧ m.slot ino k = b
  shape : ∀ ino, m.Live G.layout ino → m.IsRegular ino ∨ m.IsDir ino → m.FileShape G.layout ino
  sizeHigh : ∀ ino, m.Live G.layout ino → m.IsRegular ino → m.sizeHigh ino = 0
  dirSize : ∀ ino, G.layout.HasInode ino → m.IsDir ino → G.layout.blockSize ∣ m.size ino
  dirBlock : ∀ ino, G.layout.HasInode ino → m.IsDir ino → ∀ k < m.fileBlocks G.layout ino,
    m.DirBlock G.layout (m.block ino k)
  links : ∀ ino, m.Live G.layout ino → m.links ino = m.refs G.layout ino

/-- An image is consistent when `parse` accepts it, its group descriptors describe a
geometry without overlaps, and its contents are consistent. -/
def ConsistentImage (image : Bytes) : Prop :=
  ∃ G : Geometry, G.Describes image ∧ Consistent G (G.carving.view image)

variable {b p dir k want ino : Nat} {name : List UInt8} {scan : Scan}

namespace Geometry.Shows

variable {G : Geometry} {base image : Bytes} {m : Disk} (shows : G.Shows base image m)
include shows

theorem describes_image : G.Describes image where
  parsed := by
    obtain ⟨fs, parsed, layout, -⟩ := shows.parsed
    exact ⟨fs, parsed, layout⟩
  blockBitmap _ group := shows.blockBitmap group
  inodeBitmap _ group := shows.inodeBitmap group
  inodeTable _ group := shows.inodeTable group

theorem consistentImage (con : Consistent G m) : ConsistentImage image :=
  ⟨G, shows.describes_image, by rwa [shows.holds.view]⟩

theorem recordAt_data (data : G.DataBlock b)
    (inside : p + 8 + (recordAt (m (.data b)) p).nameLen ≤ G.layout.blockSize) :
    recordAt image (b * G.layout.blockSize + p) = recordAt (m (.data b)) p := by
  have valid : G.areaValid (.data b) := data
  have byte : ∀ k, k < G.layout.blockSize →
      image.get (b * G.layout.blockSize + k) = (m (.data b)).get k :=
    fun k small => shows.get valid small
  have word : ∀ k, k + 2 ≤ G.layout.blockSize →
      image.u16 (b * G.layout.blockSize + k) = (m (.data b)).u16 k :=
    fun k small => shows.u16 valid small
  have long : ∀ k, k + 4 ≤ G.layout.blockSize →
      image.u32 (b * G.layout.blockSize + k) = (m (.data b)).u32 k :=
    fun k small => shows.u32 valid small
  have nameLen := byte (p + 6) (by omega)
  have nameBytes : image.view (b * G.layout.blockSize + (p + 8)) ((m (.data b)).get (p + 6)).toNat =
      (m (.data b)).view (p + 8) ((m (.data b)).get (p + 6)).toNat := by
    refine shows.listView valid ?_
    simp only [recordAt] at inside
    exact inside
  unfold recordAt
  simp only [add_assoc] at *
  rw [long p (by omega), word (p + 4) (by omega), nameLen, byte (p + 7) (by omega), nameBytes]

theorem chain_data {pos : Nat} {ps : List Nat} (data : G.DataBlock b)
    (chain : Chain (m (.data b)) G.layout.blockSize pos ps) :
    Chain image (b * G.layout.blockSize + G.layout.blockSize) (b * G.layout.blockSize + pos)
      (ps.map (b * G.layout.blockSize + ·)) := by
  induction ps generalizing pos with
  | nil => exact congrArg (b * G.layout.blockSize + ·) chain
  | cons p rest ih =>
    have bounds := chain.mem_bounds List.mem_cons_self
    obtain ⟨rfl, aligned, long, tail⟩ := chain
    have same := shows.recordAt_data (p := p) data (by omega)
    rw [List.map_cons]
    unfold Chain
    rw [same]
    refine ⟨rfl, aligned, long, ?_⟩
    have rest' := ih tail
    rwa [← add_assoc] at rest'

end Geometry.Shows

namespace Consistent

variable {G : Geometry} {m : Disk} (con : Consistent G m)
include con

theorem dirData (has : G.layout.HasInode dir) (isDir : m.IsDir dir)
    (small : k < m.fileBlocks G.layout dir) : m.slot dir k ≠ 0 ∧ G.DataBlock (m.slot dir k) ∧
      m.blockUsed G.layout (m.slot dir k) = true := by
  have live := con.dirLive dir has isDir
  have shape := con.shape dir live (.inr isDir)
  have slots : k < inodeBlockCount := by
    have := shape.blocks_le
    simp only [directBlockCount, inodeBlockCount] at *
    omega
  have nonzero := (shape.slot_iff k slots).mpr small
  exact ⟨nonzero, con.slotUsed dir live k slots nonzero⟩

theorem dirFloor (has : G.layout.HasInode dir) (isDir : m.IsDir dir) :
    min (m.size dir / G.layout.blockSize) directBlockCount = m.fileBlocks G.layout dir := by
  have shape := con.shape dir (con.dirLive dir has isDir) (.inr isDir)
  obtain ⟨n, size⟩ := con.dirSize dir has isDir
  have pos := G.wf.blockSize_pos
  have blocks : m.fileBlocks G.layout dir = n := by
    unfold Disk.fileBlocks
    rw [size, mul_comm, divCeil_mul n pos]
  have few := shape.blocks_le
  rw [size, Nat.mul_div_cancel_left _ pos, ← blocks]
  omega

end Consistent

section Scan

variable {G : Geometry} {base image : Bytes} {m : Disk} (shows : G.Shows base image m)
  (con : Consistent G m)
include shows

omit shows in
theorem scanDirectory_of_not_has (not : ¬ G.layout.HasInode dir) :
    scanDirectory G.layout image dir name want = .err (.inodeOutOfRange dir) := by
  unfold scanDirectory
  rw [Geometry.Shows.inodeAt_of_not_has G.wf not]
  rfl

theorem inode_end_le (has : G.layout.HasInode ino) : G.areaPos (.inode ino) + 128 ≤ image.len := by
  have slot := shows.area_le (a := .inode ino) has
  have size := G.wf.inodeSize_ge_128
  simp only [Geometry.areaLen] at slot
  omega

theorem mode_eq (has : G.layout.HasInode ino) :
    image.u16 (G.areaPos (.inode ino)) = m.mode ino := by
  have size := G.wf.inodeSize_ge_128
  exact shows.u16 (a := .inode ino) (k := 0) has (by simp only [Geometry.areaLen]; omega)

theorem size_eq (has : G.layout.HasInode ino) :
    image.u32 (G.areaPos (.inode ino) + 4) = m.size ino := by
  have size := G.wf.inodeSize_ge_128
  exact shows.u32 (a := .inode ino) (k := 4) has (by simp only [Geometry.areaLen]; omega)

theorem slot_eq (has : G.layout.HasInode ino) (small : k < 15) :
    image.u32 (iBlockSlot (G.areaPos (.inode ino)) k) = m.slot ino k := by
  have size := G.wf.inodeSize_ge_128
  unfold iBlockSlot
  rw [add_assoc]
  exact shows.u32 (a := .inode ino) has (by simp only [Geometry.areaLen]; omega)

theorem scanDirectory_of_not_dir (has : G.layout.HasInode dir) (not : ¬ m.IsDir dir) :
    scanDirectory G.layout image dir name want = .err (.notADirectory dir) := by
  have slotEnd := inode_end_le shows has
  unfold scanDirectory
  rw [shows.inodeAt_of_has has, Result.okOr_ok, Result.ok_bind, Bytes.readU16_of_le (by omega),
    Result.lift_some, Result.ok_bind, mode_eq shows has, Result.rejectIf_bind,
    if_pos (show formatOf (m.mode dir) ≠ modeDirectory from not)]

def scanPositions (L : Layout) (m : Disk) (dir k : Nat) : List Nat :=
  (m.recordsOf L dir k).map (m.slot dir k * L.blockSize + ·)

include con in
theorem scanDirectory_eq (has : G.layout.HasInode dir) (isDir : m.IsDir dir) :
    scanDirectory G.layout image dir name want = .ok (scanChains image name want
      ((List.range (m.fileBlocks G.layout dir)).map (scanPositions G.layout m dir))
      ⟨none, none⟩) := by
  have slotEnd := inode_end_le shows has
  have pos := G.wf.blockSize_pos
  have shape := con.shape dir (con.dirLive dir has isDir) (.inr isDir)
  have few := shape.blocks_le
  unfold scanDirectory
  rw [shows.inodeAt_of_has has, Result.okOr_ok, Result.ok_bind, Bytes.readU16_of_le (by omega),
    Result.lift_some, Result.ok_bind, mode_eq shows has, Result.rejectIf_bind,
    if_neg
    (show ¬ formatOf (m.mode dir) ≠ modeDirectory from not_not.mpr isDir), Bytes.readU32_of_le
    (by omega), Result.lift_some, Result.ok_bind,
    size_eq shows has, div_of_ne (by omega), Result.lift_some, Result.ok_bind,
    con.dirFloor has isDir, scanSlots_eq G.wf (scanPositions G.layout m dir) _ ?_,
    List.range_eq_range']
  intro k _ upper
  have small : k < m.fileBlocks G.layout dir := by omega
  have slots : k < 15 := by
    simp only [directBlockCount] at few
    omega
  obtain ⟨nonzero, data, -⟩ := con.dirData has isDir small
  have blockEnd := shows.area_le (a := .data (m.slot dir k)) data
  have chain := shows.chain_data data (con.dirBlock dir has isDir k small).chain
  rw [slot_eq shows has slots]
  refine ⟨?_, nonzero, blockEnd, chain⟩
  unfold iBlockSlot
  omega

/-- A record in use in block `k` of a directory. -/
structure RecordIn (G : Geometry) (m : Disk) (dir k p : Nat) : Prop where
  block_lt : k < m.fileBlocks G.layout dir
  mem : p ∈ m.recordsOf G.layout dir k

include con in
theorem recordAt_of_recordIn (has : G.layout.HasInode dir) (isDir : m.IsDir dir)
    (record : RecordIn G m dir k p) :
    recordAt image (m.slot dir k * G.layout.blockSize + p) = recordAt (m.block dir k) p := by
  obtain ⟨-, data, -⟩ := con.dirData has isDir record.block_lt
  have bounds := (con.dirBlock dir has isDir k record.block_lt).chain.mem_bounds record.mem
  exact shows.recordAt_data data (by simp only [Disk.block] at bounds; omega)

include con in
theorem named_iff (has : G.layout.HasInode dir)
    (isDir : m.IsDir dir) (record : RecordIn G m dir k p) :
    Named image name (m.slot dir k * G.layout.blockSize + p) ↔ Named (m.block dir k) name p := by
  unfold Named
  rw [recordAt_of_recordIn shows con has isDir record]

include con in
theorem roomy_iff (has : G.layout.HasInode dir)
    (isDir : m.IsDir dir) (record : RecordIn G m dir k p) :
    Roomy image want (m.slot dir k * G.layout.blockSize + p) ↔ Roomy (m.block dir k) want p := by
  unfold Roomy
  rw [recordAt_of_recordIn shows con has isDir record]

include con in
/-- What `scan_directory` says about a name: no record in use has it, or this is the last
record that does, with the one before it in its block. -/
theorem scan_found (has : G.layout.HasInode dir) (isDir : m.IsDir dir)
    (run : scanDirectory G.layout image dir name want = .ok scan) :
    (scan.found = none ∧ ∀ k p, RecordIn G m dir k p → ¬ Named (m.block dir k) name p) ∨
    ∃ k l p r, k < m.fileBlocks G.layout dir ∧ m.recordsOf G.layout dir k = l ++ p :: r ∧
      Named (m.block dir k) name p ∧ (∀ x ∈ r, ¬ Named (m.block dir k) name x) ∧
      (∀ j x, k < j → RecordIn G m dir j x → ¬ Named (m.block dir j) name x) ∧
      scan.found = some (m.slot dir k * G.layout.blockSize + p,
        l.getLast?.map (m.slot dir k * G.layout.blockSize + ·)) := by
  rw [scanDirectory_eq shows con has isDir] at run
  obtain rfl := Result.ok.inj run
  rcases scanChains_found
    ((List.range (m.fileBlocks G.layout dir)).map (scanPositions G.layout m dir)) with ⟨none, found⟩ | ⟨before, l, p, r, after, split, named, last, later, found⟩
  · refine .inl ⟨found, fun k p record => ?_⟩
    rw [← named_iff shows con has isDir record]
    refine none _ (List.mem_map.mpr ⟨k, List.mem_range.mpr record.block_lt, rfl⟩) _ ?_
    exact List.mem_map.mpr ⟨p, record.mem, rfl⟩
  · -- The block of the list that has the name is block `before.length` of the directory.
    obtain ⟨rangeL, rangeR, rangeEq, beforeEq, afterEq⟩ := List.map_eq_append_iff.mp split
    obtain ⟨k, rangeR', rfl, chainEq, afterEq'⟩ := List.map_eq_cons_iff.mp afterEq
    have order := List.pairwise_lt_range (n := m.fileBlocks G.layout dir)
    rw [rangeEq] at order
    have kLt : k < m.fileBlocks G.layout dir := by
      have : k ∈ List.range (m.fileBlocks G.layout dir) := by
        rw [rangeEq]
        simp
      exact List.mem_range.mp this
    obtain ⟨l', r', recordsEq, lEq, rEq⟩ := List.map_eq_append_iff.mp chainEq
    obtain ⟨p', r'', rfl, pEq, rEq'⟩ := List.map_eq_cons_iff.mp rEq
    have recordOf : ∀ x ∈ l' ++ p' :: r'', RecordIn G m dir k x := by
      intro x mem
      exact ⟨kLt, by rwa [recordsEq]⟩
    refine .inr ⟨k, l', p', r'', kLt, recordsEq, ?_, ?_, ?_, ?_⟩
    · rw [← named_iff shows con has isDir (recordOf p' (by simp)), pEq]
      exact named
    · intro x mem
      rw [← named_iff shows con has isDir (recordOf x (by simp [mem]))]
      refine last _ ?_
      rw [← rEq']
      exact List.mem_map.mpr ⟨x, mem, rfl⟩
    · intro j x above record
      rw [← named_iff shows con has isDir record]
      refine later (scanPositions G.layout m dir j) ?_ _ (List.mem_map.mpr ⟨x, record.mem, rfl⟩)
      have inRange : j ∈ rangeL ++ k :: rangeR' := by
        rw [← rangeEq]
        exact List.mem_range.mpr record.block_lt
      have notBefore : j ∉ rangeL := by
        intro mem
        have := (List.pairwise_append.mp order).2.2 j mem k List.mem_cons_self
        omega
      have inAfter : j ∈ rangeR' := by
        rcases List.mem_append.mp inRange with mem | mem
        · exact absurd mem notBefore
        · rcases List.mem_cons.mp mem with rfl | mem
          · omega
          · exact mem
      rw [← afterEq']
      exact List.mem_map.mpr ⟨j, inAfter, rfl⟩
    · rw [found, ← pEq, ← lEq, List.getLast?_map]

include con in
theorem scan_room (has : G.layout.HasInode dir) (isDir : m.IsDir dir)
    (run : scanDirectory G.layout image dir name want = .ok scan) :
    (scan.room = none ∧ ∀ k p, RecordIn G m dir k p → ¬ Roomy (m.block dir k) want p) ∨
    ∃ k p before, RecordIn G m dir k p ∧ Roomy (m.block dir k) want p ∧
      scan.room = some (m.slot dir k * G.layout.blockSize + p, before) := by
  rw [scanDirectory_eq shows con has isDir] at run
  obtain rfl := Result.ok.inj run
  rcases scanChains_room
    ((List.range (m.fileBlocks G.layout dir)).map (scanPositions G.layout m dir)) with ⟨none, room⟩ | ⟨ps, memPs, p, mem, roomy, before, room⟩
  · refine .inl ⟨room, fun k p record => ?_⟩
    rw [← roomy_iff shows con has isDir record]
    refine none.resolve_left (fun ne => ne rfl) (scanPositions G.layout m dir k) ?_ _ ?_
    · exact List.mem_map.mpr ⟨k, List.mem_range.mpr record.block_lt, rfl⟩
    · exact List.mem_map.mpr ⟨p, record.mem, rfl⟩
  · obtain ⟨k, kMem, rfl⟩ := List.mem_map.mp memPs
    obtain ⟨p', mem', rfl⟩ := List.mem_map.mp mem
    have record : RecordIn G m dir k p' := ⟨List.mem_range.mp kMem, mem'⟩
    exact .inr ⟨k, p', before, record, (roomy_iff shows con has isDir record).mp roomy, room⟩

end Scan

end Zaytos.Fs

/-! Consistency can be checked: every quantifier in it is bounded by the layout. -/
namespace Zaytos.Fs

section Decide

variable (G : Geometry) [DecidablePred G.reserved]

instance (b : Nat) : Decidable (G.Meta b) :=
  decidable_of_iff (G.reserved b ∨
      ¬ Apart (b * G.layout.blockSize) G.layout.blockSize (G.regionPos .super) (G.regionLen .super) ∨
      ¬ Apart (b * G.layout.blockSize) G.layout.blockSize (G.regionPos .descriptors)
        (G.regionLen .descriptors) ∨
      ∃ g < G.layout.groupCount,
        ¬ Apart (b * G.layout.blockSize) G.layout.blockSize (G.regionPos (.blockBitmap g))
          (G.regionLen (.blockBitmap g)) ∨
        ¬ Apart (b * G.layout.blockSize) G.layout.blockSize (G.regionPos (.inodeBitmap g))
          (G.regionLen (.inodeBitmap g)) ∨
        ¬ Apart (b * G.layout.blockSize) G.layout.blockSize (G.regionPos (.inodeTable g))
          (G.regionLen (.inodeTable g))) <| by
    constructor
    · rintro (reserved | super | descriptors | ⟨g, group, blocks | inodes | table⟩)
      · exact .inl reserved
      · exact .inr ⟨.super, trivial, super⟩
      · exact .inr ⟨.descriptors, trivial, descriptors⟩
      · exact .inr ⟨.blockBitmap g, group, blocks⟩
      · exact .inr ⟨.inodeBitmap g, group, inodes⟩
      · exact .inr ⟨.inodeTable g, group, table⟩
    · rintro (reserved | ⟨region, valid, meets⟩)
      · exact .inl reserved
      · cases region with
        | super => exact .inr (.inl meets)
        | descriptors => exact .inr (.inr (.inl meets))
        | blockBitmap g => exact .inr (.inr (.inr ⟨g, valid, .inl meets⟩))
        | inodeBitmap g => exact .inr (.inr (.inr ⟨g, valid, .inr (.inl meets)⟩))
        | inodeTable g => exact .inr (.inr (.inr ⟨g, valid, .inr (.inr meets)⟩))

instance (b : Nat) : Decidable (G.DataBlock b) :=
  inferInstanceAs (Decidable (G.layout.HasBlock b ∧ ¬ G.Meta b))

instance (a : Area) : Decidable (G.areaValid a) :=
  match a with
  | .freeBlocks | .freeInodes => inferInstanceAs (Decidable True)
  | .groupFreeBlocks g | .groupFreeInodes g | .usedDirs g | .blockBitmap g | .inodeBitmap g =>
    inferInstanceAs (Decidable (g < G.layout.groupCount))
  | .inode ino => inferInstanceAs (Decidable (G.layout.HasInode ino))
  | .data b => inferInstanceAs (Decidable (G.DataBlock b))

def readDisk (image : Bytes) : Disk := fun a =>
  if G.areaValid a then ⟨G.areaLen a, fun k => if k < G.areaLen a then image.get (G.areaPos a + k) else 0⟩
  else ⟨0, fun _ => 0⟩

theorem view_eq_readDisk (image : Bytes) : G.carving.view image = readDisk G image := by
  funext a
  unfold Carving.view readDisk
  by_cases valid : G.areaValid a
  · rw [if_pos valid, if_pos (show G.carving.valid a from valid)]
    rfl
  · rw [if_neg valid, if_neg (show ¬ G.carving.valid a from valid)]

variable (m : Disk)

instance (ino : Nat) : Decidable (m.FileShape G.layout ino) :=
  decidable_of_iff (m.fileBlocks G.layout ino ≤ directBlockCount ∧
      (∀ k < inodeBlockCount, m.slot ino k ≠ 0 ↔ k < m.fileBlocks G.layout ino) ∧
      m.sectors ino = m.fileBlocks G.layout ino * G.layout.sectorsPerBlock)
    ⟨fun h => ⟨h.1, h.2.1, h.2.2⟩, fun h => ⟨h.blocks_le, h.slot_iff, h.sectors⟩⟩

instance (d : Bytes) : Decidable (m.DirBlock G.layout d) :=
  decidable_of_iff (Chain d G.layout.blockSize 0 (positions d G.layout.blockSize) ∧
      ∀ p ∈ positions d G.layout.blockSize, (recordAt d p).inode ≠ 0 →
        m.Live G.layout (recordAt d p).inode)
    ⟨fun h => ⟨h.1, h.2⟩, fun h => ⟨h.chain, h.live⟩⟩

def GroupCheck (g : Nat) : Prop :=
  m.groupFreeBlocks g = Nat.count (fun j => m.blockUsed G.layout
    (G.layout.firstDataBlock + g * G.layout.blocksPerGroup + j) = false) (G.layout.blockSpan g) ∧
  m.groupFreeInodes g = Nat.count (fun j => m.inodeUsed G.layout
    (g * G.layout.inodesPerGroup + j + 1) = false) (G.layout.inodeSpan g) ∧
  m.usedDirs g =
    Nat.count (fun j => m.IsDir (g * G.layout.inodesPerGroup + j + 1)) (G.layout.inodeSpan g)

def SlotCheck (ino k : Nat) : Prop :=
  G.DataBlock (m.slot ino k) ∧ m.blockUsed G.layout (m.slot ino k) = true ∧
    ∀ j < G.layout.inodesCount + 1, m.Live G.layout j → ∀ l < inodeBlockCount,
      m.slot ino k = m.slot j l → ino = j ∧ k = l

/-- An allocated inode has its own blocks, the right shape and the right number of links. -/
def InodeCheck (ino : Nat) : Prop :=
  (∀ k < inodeBlockCount, m.slot ino k ≠ 0 → SlotCheck G m ino k) ∧
  (m.IsRegular ino ∨ m.IsDir ino → m.FileShape G.layout ino) ∧
  (m.IsRegular ino → m.sizeHigh ino = 0) ∧ m.links ino = m.refs G.layout ino

def DirCheck (ino : Nat) : Prop :=
  m.Live G.layout ino ∧ G.layout.blockSize ∣ m.size ino ∧
    ∀ k < m.fileBlocks G.layout ino, m.DirBlock G.layout (m.block ino k)

def BlockCheck (b : Nat) : Prop :=
  (G.Meta b → m.blockUsed G.layout b = true) ∧
  (¬ G.Meta b → m.blockUsed G.layout b = true →
    ∃ ino < G.layout.inodesCount + 1, m.Live G.layout ino ∧ ∃ k < inodeBlockCount, m.slot ino k = b)

def Checks : Prop :=
  (∀ g < G.layout.groupCount, GroupCheck G m g) ∧
  m.freeBlocks = Nat.count (fun j => m.blockUsed G.layout (G.layout.firstDataBlock + j) = false)
    (G.layout.blocksCount - G.layout.firstDataBlock) ∧
  m.freeInodes = Nat.count (fun j => G.layout.HasInode (j + 1) ∧
    m.inodeUsed G.layout (j + 1) = false) G.layout.inodesCount ∧
  (∀ ino < G.layout.inodesCount + 1, m.Live G.layout ino → InodeCheck G m ino) ∧
  (∀ ino < G.layout.inodesCount + 1, G.layout.HasInode ino → m.IsDir ino → DirCheck G m ino) ∧
  ∀ b < G.layout.blocksCount, G.layout.HasBlock b → BlockCheck G m b

instance (g : Nat) : Decidable (GroupCheck G m g) := by
  unfold GroupCheck
  infer_instance

instance (ino k : Nat) : Decidable (SlotCheck G m ino k) := by
  unfold SlotCheck
  infer_instance

instance (ino : Nat) : Decidable (InodeCheck G m ino) := by
  unfold InodeCheck
  infer_instance

instance (ino : Nat) : Decidable (DirCheck G m ino) := by
  unfold DirCheck
  infer_instance

instance (b : Nat) : Decidable (BlockCheck G m b) := by
  unfold BlockCheck
  infer_instance

instance : Decidable (Checks G m) := by
  unfold Checks
  infer_instance

variable {G m}

omit [DecidablePred G.reserved] in
theorem Checks.consistent (checks : Checks G m) : Consistent G m := by
  obtain ⟨groups, freeBlocks, freeInodes, inodes, dirs, blocks⟩ := checks
  have inodeCheck : ∀ ino, m.Live G.layout ino → InodeCheck G m ino := fun ino live =>
    inodes ino (Nat.lt_succ_of_le live.1.le) live
  have dirCheck : ∀ ino, G.layout.HasInode ino → m.IsDir ino → DirCheck G m ino :=
    fun ino has isDir => dirs ino (Nat.lt_succ_of_le has.le) has isDir
  refine ⟨⟨fun g group => (groups g group).1, freeBlocks⟩,
    ⟨fun g group => (groups g group).2.1, freeInodes⟩, fun g group => (groups g group).2.2,
    fun ino has isDir => (dirCheck ino has isDir).1, ?_, ?_, ?_, ?_,
    fun ino live => (inodeCheck ino live).2.1, fun ino live => (inodeCheck ino live).2.2.1,
    fun ino has isDir => (dirCheck ino has isDir).2.1,
    fun ino has isDir => (dirCheck ino has isDir).2.2, fun ino live => (inodeCheck ino live).2.2.2⟩
  · intro b has isMeta
    exact (blocks b has.2 has).1 isMeta
  · intro ino live k small nonzero
    obtain ⟨data, used, -⟩ := (inodeCheck ino live).1 k small nonzero
    exact ⟨data, used⟩
  · intro i j k l liveI liveJ small small' nonzero same
    exact ((inodeCheck i liveI).1 k small nonzero).2.2 j (Nat.lt_succ_of_le liveJ.1.le) liveJ l small'
      same
  · intro b data used
    obtain ⟨ino, -, live, k, small, slot⟩ := (blocks b data.1.2 data.1).2 data.2 used
    exact ⟨ino, k, live, small, slot⟩

end Decide

/-- `parse` accepts the image and finds the layout. -/
def parsesTo (image : Bytes) (L : Layout) : Bool :=
  match Ext2.parse image with
  | .ok fs => fs.layout = L
  | _ => false

theorem exists_of_parsesTo {image : Bytes} {L : Layout} (parses : parsesTo image L = true) :
    ∃ fs, Ext2.parse image = .ok fs ∧ fs.layout = L := by
  unfold parsesTo at parses
  split at parses
  · rename_i fs parsed
    exact ⟨fs, parsed, of_decide_eq_true parses⟩
  · cases parses

/-- The geometry of a small image: one group with twelve inodes and seven blocks, and perhaps
one block more, which is free. -/
def smallGeometry (free : Fin 2) : Geometry where
  layout := ⟨1024, 8 + free, 1, 8192, 1, 12, 128, 12, 0, 11⟩
  blockBitmap _ := 3
  inodeBitmap _ := 4
  inodeTable _ := 5
  reserved _ := False
  wf := ⟨⟨0, by decide +revert⟩, by decide +revert, ⟨7, by decide +revert⟩, by decide +revert,
    by decide +revert, by decide +revert, by decide +revert, by decide +revert, by decide +revert,
    by decide +revert, by decide +revert, by decide +revert, by decide +revert⟩
  inside r valid := by
    rcases r with _ | _ | g | g | g <;>
      (try obtain rfl : g = 0 := Nat.lt_one_iff.mp valid) <;> clear valid <;> decide +revert
  apart r r' valid valid' ne := by
    rcases r with _ | _ | g | g | g <;> rcases r' with _ | _ | g' | g' | g' <;>
      (try obtain rfl : g = 0 := Nat.lt_one_iff.mp valid) <;>
      (try obtain rfl : g' = 0 := Nat.lt_one_iff.mp valid') <;>
      first | exact absurd rfl ne | (clear valid valid' ne; decide +revert)

instance (free : Fin 2) : DecidablePred (smallGeometry free).reserved :=
  fun _ => inferInstanceAs (Decidable False)

/-- A freshly made image of that geometry: an empty root directory, and all other blocks
free. -/
def smallImage (free : Fin 2) : Bytes := .ofRuns ((8 + free) * 1024) [
  (1024, leBytes 4 12 ++ leBytes 4 (8 + free) ++ leBytes 4 0 ++ leBytes 4 free ++ leBytes 4 2 ++
    leBytes 4 1 ++ leBytes 4 0 ++ leBytes 4 0 ++ leBytes 4 8192 ++ leBytes 4 0 ++ leBytes 4 12),
  (1024 + 56, leBytes 2 0xEF53), (1024 + 76, leBytes 4 1), (1024 + 84, leBytes 4 11 ++ leBytes 2 128),
  (1024 + 96, leBytes 4 2),
  (2048, leBytes 4 3 ++ leBytes 4 4 ++ leBytes 4 5 ++ leBytes 2 free ++ leBytes 2 2 ++ leBytes 2 1),
  (3072, [0x7F]), (4096, [0xFF, 0x03]),
  (5248, leBytes 2 0x41ED ++ leBytes 2 0 ++ leBytes 4 1024), (5274, leBytes 2 2 ++ leBytes 4 2),
  (5288, leBytes 4 7), (7168, leBytes 4 2 ++ leBytes 2 12 ++ [1, 2, 46]),
  (7180, leBytes 4 2 ++ leBytes 2 1012 ++ [2, 2, 46, 46])]

theorem smallImage_describes (free : Fin 2) : (smallGeometry free).Describes (smallImage free) := by
  have first : ∀ {g}, g < (smallGeometry free).layout.groupCount → g = 0 :=
    fun small => Nat.lt_one_iff.mp small
  refine ⟨exists_of_parsesTo (by revert free; decide), fun g group => ?_, fun g group => ?_,
    fun g group => ?_⟩ <;> obtain rfl := first group <;> clear first group <;> revert free <;>
    decide

theorem smallImage_view (free : Fin 2) :
    Consistent (smallGeometry free) ((smallGeometry free).carving.view (smallImage free)) := by
  rw [view_eq_readDisk, smallImage, Bytes.ofRuns_eq]
  simp only [List.foldr_cons, List.foldr_nil]
  refine Checks.consistent ?_
  revert free
  decide +kernel

theorem smallImage_consistent (free : Fin 2) : ConsistentImage (smallImage free) :=
  ⟨_, smallImage_describes free, smallImage_view free⟩

end Zaytos.Fs
