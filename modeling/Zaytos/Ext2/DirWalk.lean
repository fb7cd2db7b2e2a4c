import Zaytos.Ext2.FileBytes
import Zaytos.Ext2.Resume

set_option autoImplicit false

/-! In a consistent image the walk of a directory hands out its records in use, block after
block, and a lookup finds the first of them that has the name. -/
namespace Zaytos.Fs

namespace DirEntries

/-- The walk hands out `items` and ends. -/
def Collects (fs : Ext2) (walk : DirEntries) (items : List (Except Ext2Error DirEntry)) : Prop :=
  ∃ fuel, collectWithin fs fuel walk = some items

section Collects

variable {fs : Ext2} {walk after : DirEntries} {items : List (Except Ext2Error DirEntry)}

theorem next_of_step {item : DirItem} (run : step fs walk = some (.item item after)) :
    walk.next fs = some (item, after) := by
  unfold next rounds nextWithin
  rw [run]

theorem Collects.ends (run : step fs walk = some (.item none after)) : walk.Collects fs [] := by
  refine ⟨1, ?_⟩
  unfold collectWithin
  rw [next_of_step run]

theorem Collects.item {item : Except Ext2Error DirEntry}
    (run : step fs walk = some (.item (some item) after)) (rest : after.Collects fs items) :
    walk.Collects fs (item :: items) := by
  obtain ⟨fuel, rest⟩ := rest
  refine ⟨fuel + 1, ?_⟩
  unfold collectWithin
  rw [next_of_step run]
  dsimp only
  rw [rest, Option.map_some]

theorem Collects.again (valid : fs.Valid) (ok : walk.Ok fs)
    (run : step fs walk = some (.again after)) (okAfter : after.Ok fs)
    (rest : after.Collects fs items) : walk.Collects fs items := by
  obtain ⟨fuel, rest⟩ := rest
  cases fuel with
  | zero => cases rest
  | succ fuel =>
    refine ⟨fuel + 1, ?_⟩
    unfold collectWithin at rest ⊢
    rwa [next_eq_of_again valid ok run okAfter]

theorem Collects.collect (valid : fs.Valid) (ok : walk.Ok fs) (collects : walk.Collects fs items) :
    walk.collect fs = some items := by
  obtain ⟨items', run, -⟩ := collect_ok valid ok
  obtain ⟨fuel, run'⟩ := collects
  rw [run, collectWithin_unique run run']

end Collects

end DirEntries

namespace Disk

variable (L : Layout) (m : Disk)

/-- The entry of the record at `p` of block `k` of a directory. -/
def entryAt (dir k p : Nat) : DirEntry where
  inode := (recordAt (m.block dir k) p).inode
  fileType := (recordAt (m.block dir k) p).fileType
  name := (recordAt (m.block dir k) p).name
  nextOffset := k * L.blockSize + (p + (recordAt (m.block dir k) p).recLen)

def entriesAt (dir k : Nat) (ps : List Nat) : List DirEntry :=
  (ps.filter fun p => (recordAt (m.block dir k) p).inode ≠ 0).map (m.entryAt L dir k)

def entries (dir : Nat) : List DirEntry :=
  (List.range (m.fileBlocks L dir)).flatMap fun k => m.entriesAt L dir k (m.recordsOf L dir k)

variable {L m}

theorem mem_entries {dir : Nat} {e : DirEntry} : e ∈ m.entries L dir ↔
    ∃ k p, k < m.fileBlocks L dir ∧ p ∈ m.recordsOf L dir k ∧
      (recordAt (m.block dir k) p).inode ≠ 0 ∧ m.entryAt L dir k p = e := by
  simp only [entries, entriesAt, List.mem_flatMap, List.mem_range, List.mem_map, List.mem_filter,
    decide_eq_true_eq, and_assoc]
  constructor
  · rintro ⟨k, small, p, mem, used, rfl⟩
    exact ⟨k, p, small, mem, used, rfl⟩
  · rintro ⟨k, p, small, mem, used, rfl⟩
    exact ⟨k, small, p, mem, used, rfl⟩

end Disk

section Walk

variable {G : Geometry} {base image : Bytes} {m : Disk} {fs : Ext2} {dir : Nat}
  (shows : G.Shows base image m) (con : Consistent G m) (parsed : Ext2.parse image = .ok fs)
  (layout : fs.layout = G.layout)

abbrev Geometry.inodeIn (G : Geometry) (image : Bytes) (ino : Nat) : Inode :=
  inodeOf image (G.areaPos (.inode ino)) ino

include shows con parsed layout in
theorem Consistent.inode {ino : Nat} (live : m.Live G.layout ino) :
    fs.inode ino = .ok (G.inodeIn image ino) :=
  shows.inode parsed layout live.1 fun k small nonzero => (con.slotUsed ino live k small nonzero).1

include shows in
theorem isDirectory_iff {ino : Nat} (has : G.layout.HasInode ino) :
    (G.inodeIn image ino).isDirectory = true ↔ m.IsDir ino := by
  unfold Inode.isDirectory Geometry.inodeIn inodeOf Disk.IsDir
  rw [beq_iff_eq, mode_eq shows has]

include shows in
theorem isRegularFile_iff {ino : Nat} (has : G.layout.HasInode ino) :
    (G.inodeIn image ino).isRegularFile = true ↔ m.IsRegular ino := by
  unfold Inode.isRegularFile Geometry.inodeIn inodeOf Disk.IsRegular
  rw [beq_iff_eq, mode_eq shows has]

include shows in
theorem inodeIn_block {ino k : Nat} (has : G.layout.HasInode ino) (small : k < inodeBlockCount) :
    (G.inodeIn image ino).block k = m.slot ino k := by
  rw [inodeOf_block _ _ _ small, ← add_assoc]
  exact slot_eq shows has small

include shows in
theorem inodeIn_size {ino : Nat} (has : G.layout.HasInode ino) (isDir : m.IsDir ino) :
    (G.inodeIn image ino).size = m.size ino := by
  have notRegular : ¬ formatOf (m.mode ino) = modeRegular := by
    rw [show formatOf (m.mode ino) = modeDirectory from isDir]
    decide
  unfold Geometry.inodeIn inodeOf
  dsimp only
  rw [mode_eq shows has, if_neg notRegular, size_eq shows has]

include shows con parsed layout in
theorem Consistent.dirFileBlock {k : Nat} (has : G.layout.HasInode dir) (isDir : m.IsDir dir)
    (small : k < m.fileBlocks G.layout dir) :
    ∃ bytes, fs.fileBlock (G.inodeIn image dir) k = .ok bytes ∧
      bytes.len = G.layout.blockSize ∧ Bytes.SameOn (m.block dir k) bytes 0 G.layout.blockSize := by
  obtain ⟨valid, same⟩ := parse_valid parsed
  have shape := con.shape dir (con.dirLive dir has isDir) (.inr isDir)
  have few := shape.blocks_le
  have bound : k < directBlockCount := lt_of_lt_of_le small few
  have slots : k < inodeBlockCount := lt_trans bound (by decide)
  obtain ⟨nonzero, data, -⟩ := con.dirData has isDir small
  have sizePos := G.wf.blockSize_pos
  have blockSize : fs.blockSize = G.layout.blockSize := congrArg Layout.blockSize layout
  have blocksCount : fs.blocksCount = G.layout.blocksCount := congrArg Layout.blocksCount layout
  have size := inodeIn_size shows has isDir
  have slot := inodeIn_block shows has slots
  obtain ⟨n, whole⟩ := con.dirSize dir has isDir
  have count : m.fileBlocks G.layout dir = n := by
    unfold Disk.fileBlocks
    rw [whole, mul_comm, divCeil_mul n sizePos]
  have room : k * G.layout.blockSize + G.layout.blockSize ≤ m.size dir := by
    rw [whole, mul_comm G.layout.blockSize, ← Nat.succ_mul]
    exact Nat.mul_le_mul_right _ (count ▸ small)
  have direct : (G.inodeIn image dir).usesUnsupportedIndirection = false := by
    have past : ∀ j, 12 ≤ j → j < inodeBlockCount → m.slot dir j = 0 := by
      intro j above inside
      by_contra used
      have := (shape.slot_iff j inside).mp used
      simp only [directBlockCount] at few
      omega
    unfold Inode.usesUnsupportedIndirection
    rw [inodeIn_block shows has (by decide), inodeIn_block shows has (by decide), past _ (by decide)
      (by decide), past _ (by decide) (by decide)]
    rfl
  refine ⟨_, fileBlock_of_number valid (lt_trans bound (by decide)) ?_ direct
    (blockNumberOf_direct (length_inodeOf_blocks _ _ _) bound) ?_, ?_, ?_⟩
  · rw [size, blockSize]
    omega
  · intro _
    rw [slot, blocksCount]
    exact data.1.2
  · rw [size, blockSize]
    show min _ _ = _
    omega
  · intro j _ inside
    rw [slot, same, blockSize]
    unfold blockData
    dsimp only
    rw [if_neg nonzero]
    exact shows.get (a := .data (m.slot dir k)) data (by rwa [zero_add] at inside)

namespace DirEntries

/-- A walk of a directory that has loaded block `k` and stands at `pos`. -/
structure InBlock (G : Geometry) (m : Disk) (dir k pos : Nat) (walk : DirEntries) : Prop where
  running : walk.finished = false
  index : walk.blockIndex = k
  place : walk.offset = pos
  loaded : ∃ bytes, walk.block = some bytes ∧ bytes.len = G.layout.blockSize ∧
    Bytes.SameOn (m.block dir k) bytes 0 G.layout.blockSize

/-- A walk of a directory that stands in front of block `k`. -/
structure AtBlock (k : Nat) (walk : DirEntries) : Prop where
  running : walk.finished = false
  index : walk.blockIndex = k
  place : walk.offset = 0
  unloaded : walk.block = none

variable {walk : DirEntries} {k pos : Nat} {items : List (Except Ext2Error DirEntry)}

theorem InBlock.step_past (valid : fs.Valid) {i : Inode} (of : walk.Of fs i)
    (here : walk.InBlock G m dir k G.layout.blockSize) :
    ∃ after, step fs walk = some (.again after) ∧ after.AtBlock (k + 1) := by
  obtain ⟨bytes, loaded, len, -⟩ := here.loaded
  obtain ⟨r, run, -⟩ := stepBlock_ok valid of.toOk here.running loaded
  rw [step_of_loaded here.running loaded, run]
  unfold step.stepBlock at run
  rw [if_pos (by rw [len, here.place])] at run
  obtain ⟨index, next, rfl⟩ := Option.map_eq_some_iff.mp run
  refine ⟨_, rfl, here.running, ?_, rfl, rfl⟩
  rw [here.index] at next
  exact (add32_eq_some.mp next).2

theorem InBlock.step_record (valid : fs.Valid) {i : Inode} (of : walk.Of fs i)
    (here : walk.InBlock G m dir k pos) (layout : fs.layout = G.layout)
    (aligned : 4 ∣ (recordAt (m.block dir k) pos).recLen)
    (long : 8 + (recordAt (m.block dir k) pos).nameLen ≤ (recordAt (m.block dir k) pos).recLen)
    (fits : pos + (recordAt (m.block dir k) pos).recLen ≤ G.layout.blockSize)
    (known : (recordAt (m.block dir k) pos).inode ≤ G.layout.inodesCount) :
    ∃ after, after.InBlock G m dir k (pos + (recordAt (m.block dir k) pos).recLen) ∧
      step fs walk = some (if (recordAt (m.block dir k) pos).inode = 0 then .again after
        else .item (some (.ok (m.entryAt G.layout dir k pos))) after) := by
  have blockSize : fs.blockSize = G.layout.blockSize := congrArg Layout.blockSize layout
  have inodesCount : fs.inodesCount = G.layout.inodesCount := congrArg Layout.inodesCount layout
  obtain ⟨bytes, loaded, len, same⟩ := here.loaded
  have record : recordAt bytes pos = recordAt (m.block dir k) pos :=
    recordAt_congr (same.mono (Nat.zero_le _) (by omega))
  refine ⟨{ walk with offset := pos + (recordAt (m.block dir k) pos).recLen },
    ⟨here.running, here.index, rfl, bytes, loaded, len, same⟩, ?_⟩
  rw [step_of_loaded here.running loaded]
  unfold step.stepBlock
  rw [here.place, if_neg (by omega), stepRecord_eq valid of.toOk loaded]
  unfold recordStep
  rw [here.place, record, if_neg (by simp only [direntHeaderLen]; omega),
    Record.refusal_eq_none.mpr ⟨aligned, long, by omega, by omega⟩]
  dsimp only
  split
  · rfl
  · rw [here.index, blockSize]
    rfl

include con layout in
theorem InBlock.collects (valid : fs.Valid) {i : Inode} (has : G.layout.HasInode dir)
    (isDir : m.IsDir dir) (small : k < m.fileBlocks G.layout dir) {ps : List Nat} (of : walk.Of fs i)
    (here : walk.InBlock G m dir k pos) (chain : Chain (m.block dir k) G.layout.blockSize pos ps)
    (within : ∀ p ∈ ps, p ∈ m.recordsOf G.layout dir k)
    (rest : ∀ after : DirEntries, after.Of fs i → after.AtBlock (k + 1) → after.Collects fs items) :
    walk.Collects fs ((m.entriesAt G.layout dir k ps).map .ok ++ items) := by
  induction ps generalizing walk pos with
  | nil =>
    obtain rfl : pos = G.layout.blockSize := chain
    obtain ⟨after, run, next⟩ := here.step_past valid of
    have kept := step_keeps valid of run
    exact .again valid of.toOk run kept.toOk (rest after kept next)
  | cons p ps ih =>
    have bounds := chain.mem_bounds List.mem_cons_self
    obtain ⟨rfl, -, -, tail⟩ := chain
    have known : (recordAt (m.block dir k) p).inode ≤ G.layout.inodesCount := by
      by_cases used : (recordAt (m.block dir k) p).inode = 0
      · omega
      · exact ((con.dirBlock dir has isDir k small).live p (within p List.mem_cons_self) used).1.le
    obtain ⟨after, next, run⟩ := here.step_record valid of layout bounds.2.1 bounds.2.2.1
      bounds.2.2.2 known
    have kept := step_keeps valid of run
    have later := fun of => ih of next tail fun q mem => within q (List.mem_cons_of_mem _ mem)
    by_cases unused : (recordAt (m.block dir k) p).inode = 0
    · rw [if_pos unused] at run kept
      have skipped : m.entriesAt G.layout dir k (p :: ps) = m.entriesAt G.layout dir k ps := by
        simp [Disk.entriesAt, unused]
      rw [skipped]
      exact .again valid of.toOk run kept.toOk (later kept)
    · rw [if_neg unused] at run kept
      have handed : m.entriesAt G.layout dir k (p :: ps) =
          m.entryAt G.layout dir k p :: m.entriesAt G.layout dir k ps := by
        simp [Disk.entriesAt, unused]
      rw [handed]
      exact .item run (later kept.1)

include shows con parsed layout in
theorem AtBlock.collects (has : G.layout.HasInode dir) (isDir : m.IsDir dir) (count : Nat)
    (of : walk.Of fs (G.inodeIn image dir)) (here : walk.AtBlock k)
    (whole : k + count = m.fileBlocks G.layout dir) :
    walk.Collects fs (((List.range' k count).flatMap fun k =>
      m.entriesAt G.layout dir k (m.recordsOf G.layout dir k)).map .ok) := by
  obtain ⟨valid, -⟩ := parse_valid parsed
  have blockSize : fs.blockSize = G.layout.blockSize := congrArg Layout.blockSize layout
  have blocks : walk.blockCount = m.fileBlocks G.layout dir := by
    rw [of.count, of.inode_eq, inodeIn_size shows has isDir, blockSize]
    rfl
  induction count generalizing walk k with
  | zero =>
    apply Collects.ends
    unfold step
    rw [if_neg (by simp [here.running]), here.unloaded]
    dsimp only
    rw [if_pos (by rw [blocks, here.index]; omega)]
  | succ count ih =>
    have small : k < m.fileBlocks G.layout dir := by omega
    obtain ⟨bytes, read, len, same⟩ := con.dirFileBlock shows parsed layout has isDir small
    have loaded : ({ walk with block := some bytes } : DirEntries).InBlock G m dir k 0 :=
      ⟨here.running, here.index, here.place, bytes, rfl, len, same⟩
    have ofLoaded := of.load valid (by rw [here.index]; exact read)
    have first := loaded.collects con layout valid has isDir small ofLoaded
      (con.dirBlock dir has isDir k small).chain (fun p mem => mem)
      fun after ofAfter next => ih ofAfter next (by omega)
        (by rw [ofAfter.count, ofAfter.inode_eq, inodeIn_size shows has isDir, blockSize]; rfl)
    rw [List.range'_succ, List.flatMap_cons, List.map_append]
    obtain ⟨fuel, run⟩ := first
    cases fuel with
    | zero => cases run
    | succ fuel =>
      refine ⟨fuel + 1, ?_⟩
      unfold collectWithin at run ⊢
      rwa [next_eq_of_step valid of.toOk ofLoaded.toOk]
      rw [step_of_loaded loaded.running rfl]
      unfold step
      rw [if_neg (by simp [here.running]), here.unloaded]
      dsimp only
      rw [if_neg (by rw [blocks, here.index]; omega), of.inode_eq, here.index, read]

end DirEntries

include shows con parsed layout in
theorem Consistent.walk (has : G.layout.HasInode dir) (isDir : m.IsDir dir) :
    fs.WalksFrom (G.inodeIn image dir) 0 ((m.entries G.layout dir).map .ok) := by
  obtain ⟨valid, -⟩ := parse_valid parsed
  have read := con.inode shows parsed layout (con.dirLive dir has isDir)
  obtain ⟨walk, fresh, of⟩ := Ext2.directoryEntriesFrom_of valid (inode_walkable valid read)
    ((isDirectory_iff shows has).mpr isDir) 0
  have start : walk.AtBlock 0 := by
    have sizePos : fs.blockSize ≠ 0 := ne_of_gt valid.wf.blockSize_pos
    unfold Ext2.directoryEntriesFrom at fresh
    rw [Result.rejectIf_bind, if_neg (by simp [(isDirectory_iff shows has).mpr isDir]),
      div_of_ne sizePos, rem_of_ne sizePos, Nat.zero_div, Nat.zero_mod] at fresh
    obtain rfl := Result.ok.inj fresh
    exact ⟨rfl, rfl, rfl, rfl⟩
  have collects := start.collects shows con parsed layout has isDir _ of (zero_add _)
  rw [← List.range_eq_range'] at collects
  exact ⟨walk, fresh, of, collects.collect valid of.toOk⟩

end Walk

end Zaytos.Fs
