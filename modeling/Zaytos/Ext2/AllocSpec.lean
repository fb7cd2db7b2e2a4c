import Zaytos.Ext2.Disk
import Zaytos.Ext2.Writer

set_option autoImplicit false

/-! What the four allocation functions do to the areas of an image whose free counts agree
with its bitmaps. -/
namespace Zaytos.Fs

open Writer
open Exec (Wp Wlp)

variable {pos g b ino : Nat} {used : Bool}

section Primitives

variable {image : Bytes} {Q : Nat → Bytes → Prop} {E : AllocError → Bytes → Prop}

@[simp] theorem wp_imageLen : Wp imageLen image Q E ↔ Q image.len image := Iff.rfl

@[simp] theorem wp_readU8 {Q : UInt8 → Bytes → Prop} :
    Wp (readU8 pos) image Q E ↔ pos < image.len ∧ Q (image.get pos) image := by
  unfold readU8 Bytes.readU8
  by_cases h : pos < image.len <;> simp [h]

@[simp] theorem wp_readU16 :
    Wp (readU16 pos) image Q E ↔ pos + 2 ≤ image.len ∧ Q (image.u16 pos) image := by
  unfold readU16 Bytes.readU16
  by_cases h : pos + 2 ≤ image.len <;> simp [h]

@[simp] theorem wp_readU32 :
    Wp (readU32 pos) image Q E ↔ pos + 4 ≤ image.len ∧ Q (image.u32 pos) image := by
  unfold readU32 Bytes.readU32
  by_cases h : pos + 4 ≤ image.len <;> simp [h]

@[simp] theorem wp_store {n : Nat} {f : Nat → UInt8} {Q : Unit → Bytes → Prop} :
    Wp (store pos n f) image Q E ↔ pos + n ≤ image.len ∧ Q () (image.put pos n f) := by
  unfold Wp store
  by_cases h : pos + n ≤ image.len <;> simp [h]

end Primitives

namespace Layout

variable {L : Layout} (wf : L.Wf)
include wf

theorem descriptorAt_of_lt (group : g < L.groupCount) :
    L.descriptorAt g = .ok (L.descriptorPos g) := by
  have first := wf.firstDataBlock_lt
  have count := wf.blocksCount_lt
  have groups := wf.groupCount_lt
  have table := block_mul_lt (a := L.firstDataBlock + 1) (by omega) wf.blockSize_le
  unfold descriptorAt
  rw [Result.rejectIf_bind, if_neg (by omega), add32_of_lt (by omega), Result.lift_some,
    Result.ok_bind, mul64_of_lt (by omega), Result.lift_some, Result.ok_bind,
    mul64_of_lt (by simp only [groupDescriptorSize]; omega), Result.lift_some, Result.ok_bind,
    add64_of_lt (by simp only [groupDescriptorSize]; omega)]
  rfl

omit wf in
theorem descriptorAt_of_ge (beyond : L.groupCount ≤ g) : L.descriptorAt g = .err () := by
  unfold descriptorAt
  rw [Result.rejectIf_bind, if_pos beyond]

theorem blockAt_of_lt (small : b < 2 ^ 32) : L.blockAt b = .ok (b * L.blockSize) := by
  have := block_mul_lt small wf.blockSize_le
  unfold blockAt
  rw [mul64_of_lt (by omega)]
  rfl

theorem locate_of_has (has : L.HasBlock b) : L.locate b = .ok (L.blockGroup b, L.blockIndex b) := by
  obtain ⟨lower, upper⟩ := has
  have pos := wf.blocksPerGroup_pos
  unfold locate
  rw [Result.rejectIf_bind, if_neg (by omega), Result.rejectIf_bind, if_neg (by omega)]
  dsimp only
  rw [div_of_ne (by omega), Result.lift_some, Result.ok_bind, rem_of_ne (by omega),
    Result.lift_some, Result.ok_bind]
  rfl

end Layout

namespace Geometry.Shows

variable {G : Geometry} {base image : Bytes} {m : Disk} (shows : G.Shows base image m)
include shows

theorem inodeAt_of_has (has : G.layout.HasInode ino) :
    G.layout.inodeAt image ino = .ok (G.areaPos (.inode ino)) := by
  have wf := G.wf
  have perGroup := wf.inodesPerGroup_pos
  have group := has.group_lt
  have pos := has.pos
  have le := has.le
  have descriptor := shows.descriptor_le group
  have table := shows.inodeTable group
  have slotEnd := shows.area_le (a := .inode ino) has
  have tableLt : G.inodeTable (G.layout.inodeGroup ino) < 2 ^ 32 := by
    rw [← table]
    exact image.u32_lt _
  have tableStart := block_mul_lt tableLt wf.blockSize_le
  have indexLt : G.layout.inodeIndex ino < 2 ^ 32 := by
    have := Nat.mod_lt (ino - 1) perGroup
    have := wf.inodesPerGroup_lt
    unfold Layout.inodeIndex
    omega
  have sizeLe : G.layout.inodeSize ≤ 65536 := le_trans wf.inodeSize_le wf.blockSize_le
  have skipped := block_mul_lt indexLt sizeLe
  unfold Layout.inodeAt
  rw [Result.rejectIf_bind, if_neg (by omega), div_of_ne (by omega), Result.lift_some,
    Result.ok_bind, rem_of_ne (by omega), Result.lift_some, Result.ok_bind]
  change (G.layout.descriptorAt (G.layout.inodeGroup ino) >>= _) = _
  rw [Layout.descriptorAt_of_lt wf group, Result.ok_bind, Result.rejectIf_bind,
    if_neg (by simp only [groupDescriptorSize]; omega), Bytes.readU32_of_le (by omega),
    Result.lift_some, Result.ok_bind, table, mul64_of_lt (by omega), Result.lift_some,
    Result.ok_bind]
  change (liftM (mul64 (G.layout.inodeIndex ino) G.layout.inodeSize) >>= _) = _
  rw [mul64_of_lt (by omega), Result.lift_some, Result.ok_bind, add64_of_lt (by omega),
    Result.lift_some, Result.ok_bind, add64_of_lt (by omega), Result.lift_some, Result.ok_bind,
    Result.rejectIf_bind, if_neg]
  · rfl
  · simp only [areaPos, areaLen] at slotEnd
    omega

omit shows in
theorem inodeAt_of_not_has (wf : G.layout.Wf) (not : ¬ G.layout.HasInode ino) :
    G.layout.inodeAt image ino = .err () := by
  have perGroup := wf.inodesPerGroup_pos
  unfold Layout.inodeAt
  rw [Result.rejectIf_bind]
  split
  · rfl
  rename_i inRange
  rw [div_of_ne (by omega), Result.lift_some, Result.ok_bind, rem_of_ne (by omega),
    Result.lift_some, Result.ok_bind]
  change (G.layout.descriptorAt (G.layout.inodeGroup ino) >>= _) = _
  have beyond : G.layout.groupCount ≤ G.layout.inodeGroup ino := by
    by_contra inside
    exact not ⟨by omega, by omega, by omega⟩
  rw [Layout.descriptorAt_of_ge beyond, Result.err_bind]

theorem mark {bitmap : Area} (count total : Area) {index : Nat} (used : Bool) (neCount : bitmap ≠ count)
    (neTotal : bitmap ≠ total) (ne : count ≠ total) (validBitmap : G.areaValid bitmap)
    (validCount : G.areaValid count) (validTotal : G.areaValid total)
    (inside : index / 8 < G.areaLen bitmap) (countLen : G.areaLen count = 2)
    (totalLen : G.areaLen total = 4) :
    G.Shows base (((image.put (G.areaPos bitmap + index / 8) 1 fun _ =>
        if used then (m bitmap).get (index / 8) ||| bitMask (index % 8)
        else (m bitmap).get (index / 8) &&& ~~~bitMask (index % 8)).put
        (G.areaPos count) 2 (leByte (moved used ((m count).u16 0)))).put
        (G.areaPos total) 4 (leByte (moved used ((m total).u32 0))))
      (m.mark bitmap count total index used) := by
  have first := shows.put (o := index / 8) (n := 1) (fun _ =>
    if used then (m bitmap).get (index / 8) ||| bitMask (index % 8)
    else (m bitmap).get (index / 8) &&& ~~~bitMask (index % 8)) validBitmap (by omega)
  have second := first.put (o := 0) (n := 2) (leByte (moved used ((m count).u16 0)))
    validCount (by omega)
  have third := second.put (o := 0) (n := 4) (leByte (moved used ((m total).u32 0)))
    validTotal (by omega)
  rw [Function.update_of_ne ne.symm, Function.update_of_ne neTotal.symm,
    Function.update_of_ne neCount.symm] at third
  exact third

end Geometry.Shows

structure Disk.BlockCounts (L : Layout) (m : Disk) : Prop where
  group : ∀ g < L.groupCount, m.groupFreeBlocks g =
    Nat.count (fun j => m.blockUsed L (L.firstDataBlock + g * L.blocksPerGroup + j) = false)
      (L.blockSpan g)
  total : m.freeBlocks =
    Nat.count (fun j => m.blockUsed L (L.firstDataBlock + j) = false)
      (L.blocksCount - L.firstDataBlock)

structure Disk.InodeCounts (L : Layout) (m : Disk) : Prop where
  group : ∀ g < L.groupCount, m.groupFreeInodes g =
    Nat.count (fun j => m.inodeUsed L (g * L.inodesPerGroup + j + 1) = false) (L.inodeSpan g)
  total : m.freeInodes =
    Nat.count (fun j => L.HasInode (j + 1) ∧ m.inodeUsed L (j + 1) = false) L.inodesCount

theorem Disk.BlockCounts.congr {L : Layout} {m m' : Disk} (counts : m.BlockCounts L)
    (bitmap : ∀ g, m' (.blockBitmap g) = m (.blockBitmap g))
    (count : ∀ g, m' (.groupFreeBlocks g) = m (.groupFreeBlocks g))
    (total : m' .freeBlocks = m .freeBlocks) : m'.BlockCounts L := by
  have bits : ∀ b, m'.blockUsed L b = m.blockUsed L b := by
    intro b
    unfold blockUsed bitOf
    rw [bitmap]
  constructor
  · intro g group
    simp only [bits]
    rw [← counts.group g group]
    unfold groupFreeBlocks
    rw [count]
  · simp only [bits]
    rw [← counts.total]
    unfold freeBlocks
    rw [total]

theorem Disk.InodeCounts.congr {L : Layout} {m m' : Disk} (counts : m.InodeCounts L)
    (bitmap : ∀ g, m' (.inodeBitmap g) = m (.inodeBitmap g))
    (count : ∀ g, m' (.groupFreeInodes g) = m (.groupFreeInodes g))
    (total : m' .freeInodes = m .freeInodes) : m'.InodeCounts L := by
  have bits : ∀ ino, m'.inodeUsed L ino = m.inodeUsed L ino := by
    intro ino
    unfold inodeUsed bitOf
    rw [bitmap]
  constructor
  · intro g group
    simp only [bits]
    rw [← counts.group g group]
    unfold groupFreeInodes
    rw [count]
  · simp only [bits]
    rw [← counts.total]
    unfold freeInodes
    rw [total]

namespace Disk.BlockCounts

variable {L : Layout} {m : Disk} (counts : m.BlockCounts L) (wf : L.Wf)
include counts wf

theorem group_pos (has : L.HasBlock b) (clear : m.blockUsed L b = false) :
    0 < m.groupFreeBlocks (L.blockGroup b) := by
  rw [counts.group _ (Layout.blockGroup_lt wf has)]
  refine count_pos (Layout.blockIndex_lt wf has) ?_
  rwa [← Layout.block_eq has]

omit wf in
theorem total_pos (has : L.HasBlock b) (clear : m.blockUsed L b = false) : 0 < m.freeBlocks := by
  obtain ⟨lower, upper⟩ := has
  rw [counts.total]
  refine count_pos (x := b - L.firstDataBlock) (by omega) ?_
  rwa [show L.firstDataBlock + (b - L.firstDataBlock) = b by omega]

theorem count_group (has : L.HasBlock b) (group : g < L.groupCount)
    (old : m.blockUsed L b = !used) : Nat.count (fun j => (markBlock L m b used).blockUsed L
      (L.firstDataBlock + g * L.blocksPerGroup + j) = false) (L.blockSpan g) =
    if g = L.blockGroup b then moved used (m.groupFreeBlocks g) else m.groupFreeBlocks g := by
  have bits : ∀ j < L.blockSpan g, (markBlock L m b used).blockUsed L
      (L.firstDataBlock + g * L.blocksPerGroup + j) =
      if L.firstDataBlock + g * L.blocksPerGroup + j = b then used
      else m.blockUsed L (L.firstDataBlock + g * L.blocksPerGroup + j) := fun j small =>
    blockUsed_markBlock has (Layout.hasBlock_of wf group small).1
  rw [counts.group g group]
  split
  · rename_i same
    have place := Layout.block_eq has
    have small := Layout.blockIndex_lt wf has
    rw [← same] at place small
    refine count_moved small ?_ ?_ fun j hj ne => ?_
    · rw [← place, old, Bool.not_eq_false']
    · rw [bits _ small, if_pos place.symm]
    · rw [bits j hj, if_neg (by omega)]
  · rename_i other
    apply count_congr
    intro j hj
    rw [bits j hj, if_neg]
    rintro rfl
    exact other (Layout.hasBlock_of wf group hj).2.1.symm

omit wf in
theorem count_total (used : Bool) (has : L.HasBlock b) (old : m.blockUsed L b = !used) :
    Nat.count (fun j => (markBlock L m b used).blockUsed L (L.firstDataBlock + j) = false)
      (L.blocksCount - L.firstDataBlock) = moved used m.freeBlocks := by
  obtain ⟨lower, upper⟩ := has
  have place : L.firstDataBlock + (b - L.firstDataBlock) = b := by omega
  have small : b - L.firstDataBlock < L.blocksCount - L.firstDataBlock := by omega
  have bits : ∀ j < L.blocksCount - L.firstDataBlock,
      (markBlock L m b used).blockUsed L (L.firstDataBlock + j) =
      if L.firstDataBlock + j = b then used else m.blockUsed L (L.firstDataBlock + j) :=
    fun j hj => blockUsed_markBlock ⟨lower, upper⟩ ⟨by omega, by omega⟩
  rw [counts.total]
  refine count_moved small ?_ ?_ fun j hj ne => ?_
  · rw [place, old, Bool.not_eq_false']
  · rw [bits _ small, if_pos place]
  · rw [bits j hj, if_neg (by omega)]

theorem mark (used : Bool) (has : L.HasBlock b) (old : m.blockUsed L b = !used)
    (groupLt : moved used (m.groupFreeBlocks (L.blockGroup b)) < 2 ^ 16)
    (totalLt : moved used m.freeBlocks < 2 ^ 32) : (markBlock L m b used).BlockCounts L where
  group g group := by
    rw [groupFreeBlocks_markBlock groupLt, counts.count_group wf has group old]
  total := by
    rw [freeBlocks_markBlock totalLt, counts.count_total _ has old]

omit wf in
theorem total_lt (wf : L.Wf) (has : L.HasBlock b) (used : m.blockUsed L b = true) :
    m.freeBlocks + 1 < 2 ^ 32 := by
  have total := counts.count_total false has used
  have bound := Nat.count_le (p := fun j =>
    (markBlock L m b false).blockUsed L (L.firstDataBlock + j) = false)
    (n := L.blocksCount - L.firstDataBlock)
  have limit := wf.blocksCount_lt
  rw [total] at bound
  simp only [moved, Bool.false_eq_true, ↓reduceIte] at bound
  omega

end Disk.BlockCounts

namespace Disk.InodeCounts

variable {L : Layout} {m : Disk} (counts : m.InodeCounts L) (wf : L.Wf)
include counts wf

theorem group_pos (has : L.HasInode ino) (clear : m.inodeUsed L ino = false) :
    0 < m.groupFreeInodes (L.inodeGroup ino) := by
  rw [counts.group _ has.group_lt]
  refine count_pos (Layout.inodeIndex_lt wf has) ?_
  rwa [← Layout.inode_eq has]

omit wf in
theorem total_pos (has : L.HasInode ino) (clear : m.inodeUsed L ino = false) :
    0 < m.freeInodes := by
  have pos := has.pos
  have le := has.le
  rw [counts.total]
  refine count_pos (x := ino - 1) (by omega) ?_
  rw [show ino - 1 + 1 = ino by omega]
  exact ⟨has, clear⟩

theorem count_group (has : L.HasInode ino) (group : g < L.groupCount)
    (old : m.inodeUsed L ino = !used) : Nat.count (fun j => (markInode L m ino used).inodeUsed L
      (g * L.inodesPerGroup + j + 1) = false) (L.inodeSpan g) =
    if g = L.inodeGroup ino then moved used (m.groupFreeInodes g) else m.groupFreeInodes g := by
  have bits : ∀ j < L.inodeSpan g, (markInode L m ino used).inodeUsed L
      (g * L.inodesPerGroup + j + 1) =
      if g * L.inodesPerGroup + j + 1 = ino then used
      else m.inodeUsed L (g * L.inodesPerGroup + j + 1) := fun j small =>
    inodeUsed_markInode has (Layout.hasInode_of wf group small).1
  rw [counts.group g group]
  split
  · rename_i same
    have place := Layout.inode_eq has
    have small := Layout.inodeIndex_lt wf has
    rw [← same] at place small
    refine count_moved small ?_ ?_ fun j hj ne => ?_
    · rw [← place, old, Bool.not_eq_false']
    · rw [bits _ small, if_pos place.symm]
    · rw [bits j hj, if_neg (by omega)]
  · rename_i other
    apply count_congr
    intro j hj
    rw [bits j hj, if_neg]
    rintro rfl
    exact other (Layout.hasInode_of wf group hj).2.1.symm

omit wf in
theorem count_total (used : Bool) (has : L.HasInode ino) (old : m.inodeUsed L ino = !used) :
    Nat.count (fun j => L.HasInode (j + 1) ∧ (markInode L m ino used).inodeUsed L (j + 1) = false)
      L.inodesCount = moved used m.freeInodes := by
  have pos := has.pos
  have le := has.le
  have place : ino - 1 + 1 = ino := by omega
  have small : ino - 1 < L.inodesCount := by omega
  have bits : ∀ j, L.HasInode (j + 1) → (markInode L m ino used).inodeUsed L (j + 1) =
      if j + 1 = ino then used else m.inodeUsed L (j + 1) :=
    fun j hasJ => inodeUsed_markInode has hasJ
  have others : ∀ j < L.inodesCount, j ≠ ino - 1 →
      (L.HasInode (j + 1) ∧ (markInode L m ino used).inodeUsed L (j + 1) = false ↔
        L.HasInode (j + 1) ∧ m.inodeUsed L (j + 1) = false) := by
    intro j _ ne
    apply and_congr_right
    intro hasJ
    rw [bits j hasJ, if_neg (by omega)]
  rw [counts.total]
  refine count_moved small ?_ ?_ others
  · rw [place, old, Bool.not_eq_false']
    exact and_iff_right has
  · have hasPlace : L.HasInode (ino - 1 + 1) := by rwa [place]
    rw [bits _ hasPlace, if_pos place]
    exact and_iff_right hasPlace

theorem mark (used : Bool) (has : L.HasInode ino) (old : m.inodeUsed L ino = !used)
    (groupLt : moved used (m.groupFreeInodes (L.inodeGroup ino)) < 2 ^ 16)
    (totalLt : moved used m.freeInodes < 2 ^ 32) : (markInode L m ino used).InodeCounts L where
  group g group := by
    rw [groupFreeInodes_markInode groupLt, counts.count_group wf has group old]
  total := by
    rw [freeInodes_markInode totalLt, counts.count_total _ has old]

omit wf in
theorem total_lt (wf : L.Wf) (has : L.HasInode ino) (used : m.inodeUsed L ino = true) :
    m.freeInodes + 1 < 2 ^ 32 := by
  have total := counts.count_total false has used
  have bound := Nat.count_le (p := fun j =>
    L.HasInode (j + 1) ∧ (markInode L m ino false).inodeUsed L (j + 1) = false)
    (n := L.inodesCount)
  have limit := wf.inodesCount_lt
  rw [total] at bound
  simp only [moved, Bool.false_eq_true, ↓reduceIte] at bound
  omega

end Disk.InodeCounts

/-- An inode that `allocate_inode` may hand out: free, and not one of the reserved ones. -/
structure Disk.Open (L : Layout) (m : Disk) (ino : Nat) : Prop where
  has : L.HasInode ino
  clear : m.inodeUsed L ino = false
  notReserved : L.firstInode ≤ ino

/-- The one that `allocate_inode` hands out. -/
def Disk.FirstOpen (L : Layout) (m : Disk) (ino : Nat) : Prop :=
  m.Open L ino ∧ ∀ i, m.Open L i → ino ≤ i

section Blocks

variable {G : Geometry} {base image : Bytes} {m : Disk} (shows : G.Shows base image m)
include shows

theorem allocateBlockIn_wp (counts : m.BlockCounts G.layout) {g : Nat}
    (group : g < G.layout.groupCount) (remaining : Nat) {index : Nat}
    (ends : index + remaining = G.layout.blockSpan g) :
    Wp (allocateBlockIn (G.layout.descriptorPos g) (G.blockBitmap g * G.layout.blockSize)
        (G.layout.firstDataBlock + g * G.layout.blocksPerGroup) index remaining) image
      (fun found after => match found with
        | none => after = image ∧ ∀ j, index ≤ j → j < G.layout.blockSpan g →
            m.blockUsed G.layout (G.layout.firstDataBlock + g * G.layout.blocksPerGroup + j) = true
        | some b => G.layout.HasBlock b ∧ m.blockUsed G.layout b = false ∧
            G.Shows base after (m.markBlock G.layout b true))
      (fun _ _ => False) := by
  induction remaining generalizing index with
  | zero => exact ⟨rfl, fun j lower upper => by omega⟩
  | succ remaining ih =>
    obtain ⟨has, groupEq, indexEq⟩ := Layout.hasBlock_of G.wf group (j := index) (by omega)
    have valid : G.areaValid (.blockBitmap g) := group
    have byteLt : index / 8 < G.areaLen (.blockBitmap g) := by
      simp only [Geometry.areaLen, divCeil]
      omega
    have bitmapEnd := shows.area_le valid
    have pos : bitmapByte (G.blockBitmap g * G.layout.blockSize) index =
        G.areaPos (.blockBitmap g) + index / 8 := rfl
    have byte := shows.get valid byteLt
    have bit : m.blockUsed G.layout
        (G.layout.firstDataBlock + g * G.layout.blocksPerGroup + index) =
        ((m (.blockBitmap g)).get (index / 8)).toNat.testBit (index % 8) := by
      unfold Disk.blockUsed Disk.bitOf
      rw [groupEq, indexEq]
      rfl
    unfold allocateBlockIn
    simp only [Exec.wp_bind, wp_imageLen, pos, Exec.wp_rejectIf, wp_readU8, byte]
    refine ⟨fun short => by omega, fun _ => ⟨by omega, ?_⟩⟩
    by_cases clear : (m (.blockBitmap g)).get (index / 8) &&& bitMask (index % 8) = 0
    · rw [if_neg (not_not.mpr clear)]
      rw [and_bitMask_eq_zero _ (Nat.mod_lt _ (by omega)), ← bit] at clear
      have groupFree : image.u16 (G.areaPos (.groupFreeBlocks g)) = m.groupFreeBlocks g :=
        shows.u16 (a := .groupFreeBlocks g) (k := 0) group (le_refl 2)
      have totalFree : image.u32 (G.areaPos .freeBlocks) = m.freeBlocks :=
        shows.u32 (a := .freeBlocks) (k := 0) trivial (le_refl 4)
      have groupPos := counts.group_pos G.wf has clear
      have totalPos := counts.total_pos has clear
      rw [groupEq] at groupPos
      have groupEnd : G.areaPos (.groupFreeBlocks g) + 2 ≤ image.len :=
        shows.area_le (a := .groupFreeBlocks g) group
      have totalEnd : G.areaPos .freeBlocks + 4 ≤ image.len :=
        shows.area_le (a := .freeBlocks) trivial
      have groupAt : G.layout.descriptorPos g + groupDescriptorFreeBlocksCount =
          G.areaPos (.groupFreeBlocks g) := rfl
      have totalAt : superblockOffset + superblockFreeBlocksCount = G.areaPos .freeBlocks := rfl
      have blockLt : G.layout.firstDataBlock + g * G.layout.blocksPerGroup + index < 2 ^ 32 :=
        lt_trans has.2 G.wf.blocksCount_lt
      simp only [Exec.wp_bind, wp_readU16, wp_readU32, groupAt, totalAt, Exec.wp_rejectIf,
        storeU8, storeU16, storeU32, wp_store, Exec.wp_lift, Exec.wp_pure, Bytes.len_put,
        groupFree, totalFree, add32_of_lt blockLt]
      refine ⟨groupEnd, fun none => by omega, fun _ => ⟨totalEnd, fun none => by omega, fun _ =>
        ⟨by omega, groupEnd, totalEnd, _, rfl, has, clear, ?_⟩⟩⟩
      have marked := shows.mark (.groupFreeBlocks g) .freeBlocks true (by simp) (by simp) (by simp)
        valid group trivial byteLt rfl rfl
      unfold Disk.markBlock
      rw [groupEq, indexEq]
      exact marked
    · rw [if_pos clear]
      refine (ih (by omega)).mono ?_ (fun _ _ _ h => h)
      intro found after _ spec
      cases found with
      | some b => exact spec
      | none =>
        refine ⟨spec.1, fun j lower upper => ?_⟩
        by_cases first : j = index
        · subst first
          rw [and_bitMask_eq_zero _ (Nat.mod_lt _ (by omega)), ← bit, Bool.not_eq_false] at clear
          exact clear
        · exact spec.2 j (by omega) upper

theorem allocateBlockFrom_wp (counts : m.BlockCounts G.layout) (remaining : Nat)
    (ends : g + remaining = G.layout.groupCount) : Wp (allocateBlockFrom G.layout g remaining) image
      (fun b after => G.layout.HasBlock b ∧ m.blockUsed G.layout b = false ∧
        G.Shows base after (m.markBlock G.layout b true))
      (fun e after => e = .full ∧ after = image ∧
        ∀ b, G.layout.HasBlock b → g ≤ G.layout.blockGroup b → m.blockUsed G.layout b = true) := by
  induction remaining generalizing g with
  | zero =>
    refine ⟨rfl, rfl, fun b has above => ?_⟩
    have := Layout.blockGroup_lt G.wf has
    omega
  | succ remaining ih =>
    have group : g < G.layout.groupCount := by omega
    have start := G.wf.group_start_lt group
    have count := G.wf.blocksCount_lt
    have bitmapLt : G.blockBitmap g < 2 ^ 32 := by
      rw [← shows.blockBitmap group]
      exact image.u32_lt _
    have descriptorEnd := shows.descriptor_le group
    unfold allocateBlockFrom
    simp only [Exec.wp_bind, Exec.wp_read, Layout.descriptorAt_of_lt G.wf group, Result.okOr_ok,
      Result.sat_ok, wp_imageLen, Exec.wp_rejectIf, wp_readU32, shows.blockBitmap group,
      Layout.blockAt_of_lt G.wf bitmapLt, Exec.wp_lift, mul32_of_lt
    (show g * G.layout.blocksPerGroup < 2 ^ 32 by omega)]
    refine ⟨fun short => ?_, fun _ => ⟨by omega, _, rfl, _, add32_of_lt (by omega), _,
      sub_of_le (by omega), ?_⟩⟩
    · simp only [groupDescriptorSize] at short
      omega
    refine (allocateBlockIn_wp shows counts group _ (zero_add _)).mono ?_
      (fun _ _ _ h => h.elim)
    intro found after _ spec
    cases found with
    | some b => exact spec
    | none =>
      obtain ⟨rfl, full⟩ := spec
      refine (ih (g := g + 1) (by omega)).mono (fun _ _ _ h => h) ?_
      rintro e after _ ⟨rfl, rfl, later⟩
      refine ⟨rfl, rfl, fun b has above => ?_⟩
      by_cases here : G.layout.blockGroup b = g
      · have index := Layout.blockIndex_lt G.wf has
        rw [here] at index
        have used := full _ (Nat.zero_le _) index
        have place := Layout.block_eq has
        rw [here] at place
        rwa [← place] at used
      · exact later b has (by omega)

theorem allocateBlock_wp (counts : m.BlockCounts G.layout) :
    Wp (allocateBlock G.layout) image
      (fun b after => G.layout.HasBlock b ∧ m.blockUsed G.layout b = false ∧
        G.Shows base after (m.markBlock G.layout b true))
      (fun e after => e = .full ∧ after = image ∧
        ∀ b, G.layout.HasBlock b → m.blockUsed G.layout b = true) := by
  refine (allocateBlockFrom_wp shows counts _ (g := 0) (zero_add _)).mono (fun _ _ _ h => h) ?_
  rintro e after _ ⟨rfl, rfl, full⟩
  exact ⟨rfl, rfl, fun b has => full b has (Nat.zero_le _)⟩

theorem freeBlock_wp (has : G.layout.HasBlock b) (used : m.blockUsed G.layout b = true)
    (totalLt : m.freeBlocks + 1 < 2 ^ 32) : Wp (freeBlock G.layout b) image
      (fun _ after => m.groupFreeBlocks (G.layout.blockGroup b) + 1 < 2 ^ 16 ∧
        G.Shows base after (m.markBlock G.layout b false))
      (fun e after => 2 ^ 16 ≤ m.groupFreeBlocks (G.layout.blockGroup b) + 1 ∧
        e = .freeCountInconsistent ∧ after = image) := by
  have group := Layout.blockGroup_lt G.wf has
  have index := Layout.blockIndex_lt G.wf has
  have valid : G.areaValid (.blockBitmap (G.layout.blockGroup b)) := group
  have bitmapLt : G.blockBitmap (G.layout.blockGroup b) < 2 ^ 32 := by
    rw [← shows.blockBitmap group]
    exact image.u32_lt _
  have descriptorEnd := shows.descriptor_le group
  have byteLt : G.layout.blockIndex b / 8 < G.areaLen (.blockBitmap (G.layout.blockGroup b)) := by
    simp only [Geometry.areaLen, divCeil]
    omega
  have bitmapEnd := shows.area_le valid
  have pos : bitmapByte (G.blockBitmap (G.layout.blockGroup b) * G.layout.blockSize)
      (G.layout.blockIndex b) =
      G.areaPos (.blockBitmap (G.layout.blockGroup b)) + G.layout.blockIndex b / 8 := rfl
  have byte := shows.get valid byteLt
  have groupFree : image.u16 (G.areaPos (.groupFreeBlocks (G.layout.blockGroup b))) =
      m.groupFreeBlocks (G.layout.blockGroup b) :=
    shows.u16 (a := .groupFreeBlocks (G.layout.blockGroup b)) (k := 0) group (le_refl 2)
  have totalFree : image.u32 (G.areaPos .freeBlocks) = m.freeBlocks :=
    shows.u32 (a := .freeBlocks) (k := 0) trivial (le_refl 4)
  have groupEnd : G.areaPos (.groupFreeBlocks (G.layout.blockGroup b)) + 2 ≤ image.len :=
    shows.area_le (a := .groupFreeBlocks (G.layout.blockGroup b)) group
  have totalEnd : G.areaPos .freeBlocks + 4 ≤ image.len := shows.area_le (a := .freeBlocks) trivial
  have groupAt : G.layout.descriptorPos (G.layout.blockGroup b) + groupDescriptorFreeBlocksCount =
      G.areaPos (.groupFreeBlocks (G.layout.blockGroup b)) := rfl
  have totalAt : superblockOffset + superblockFreeBlocksCount = G.areaPos .freeBlocks := rfl
  have set : ¬ (m (.blockBitmap (G.layout.blockGroup b))).get (G.layout.blockIndex b / 8) &&&
      bitMask (G.layout.blockIndex b % 8) = 0 := by
    rw [and_bitMask_eq_zero _ (Nat.mod_lt _ (by omega))]
    intro clear
    exact Bool.noConfusion (used.symm.trans clear)
  unfold freeBlock
  simp only [Exec.wp_bind, Exec.wp_read, Layout.locate_of_has G.wf has, Result.okOr_ok,
    Result.sat_ok, Layout.descriptorAt_of_lt G.wf group, wp_imageLen, Exec.wp_rejectIf, wp_readU32,
    shows.blockBitmap group, Layout.blockAt_of_lt G.wf bitmapLt, pos, wp_readU8, byte, wp_readU16,
    groupAt, totalAt, groupFree, totalFree, storeU8, storeU16, storeU32, wp_store, Bytes.len_put]
  refine ⟨fun short => ?_, fun _ => ⟨by omega, fun short => ?_, fun _ => ⟨by omega,
    fun clear => absurd clear set, fun _ => ⟨groupEnd, fun large => ⟨large, by trivial, by trivial⟩, fun small =>
    ⟨totalEnd, fun large => by omega, fun _ => ⟨by omega, groupEnd, totalEnd, by omega, ?_⟩⟩⟩⟩⟩⟩
  · simp only [groupDescriptorSize] at short
    omega
  · omega
  · exact shows.mark _ _ false (by simp)
      (by simp) (by simp) valid group trivial byteLt rfl rfl

end Blocks

section Inodes

variable {G : Geometry} {base image : Bytes} {m : Disk} (shows : G.Shows base image m)
include shows

/-- The inner loop of `allocate_inode` from bit `index` on: it takes a free inode of the
group that is not reserved, or there is none left. -/
theorem allocateInodeIn_wp (counts : m.InodeCounts G.layout) {g : Nat}
    (group : g < G.layout.groupCount) (remaining : Nat) {index : Nat}
    (ends : index + remaining = G.layout.inodeSpan g) :
    Wp (allocateInodeIn G.layout (G.layout.descriptorPos g)
        (G.inodeBitmap g * G.layout.blockSize) (g * G.layout.inodesPerGroup + 1) index remaining)
      image
      (fun found after => match found with
        | none => after = image ∧ ∀ j, index ≤ j → j < G.layout.inodeSpan g →
            ¬ m.Open G.layout (g * G.layout.inodesPerGroup + j + 1)
        | some ino => m.Open G.layout ino ∧ G.layout.inodeGroup ino = g ∧
            (∀ j, index ≤ j → g * G.layout.inodesPerGroup + j + 1 < ino →
              ¬ m.Open G.layout (g * G.layout.inodesPerGroup + j + 1)) ∧
            G.Shows base after (m.markInode G.layout ino true))
      (fun _ _ => False) := by
  induction remaining generalizing index with
  | zero => exact ⟨rfl, fun j lower upper => by omega⟩
  | succ remaining ih =>
    obtain ⟨has, groupEq, indexEq⟩ := Layout.hasInode_of G.wf group (j := index) (by omega)
    have valid : G.areaValid (.inodeBitmap g) := group
    have byteLt : index / 8 < G.areaLen (.inodeBitmap g) := by
      simp only [Geometry.areaLen, divCeil]
      omega
    have bitmapEnd := shows.area_le valid
    have pos : bitmapByte (G.inodeBitmap g * G.layout.blockSize) index =
        G.areaPos (.inodeBitmap g) + index / 8 := rfl
    have byte := shows.get valid byteLt
    have bit : m.inodeUsed G.layout (g * G.layout.inodesPerGroup + index + 1) =
        ((m (.inodeBitmap g)).get (index / 8)).toNat.testBit (index % 8) := by
      unfold Disk.inodeUsed Disk.bitOf
      rw [groupEq, indexEq]
      rfl
    have inoLt : g * G.layout.inodesPerGroup + 1 + index < 2 ^ 32 := by
      have := has.le
      have := G.wf.inodesCount_lt
      omega
    have inoEq : g * G.layout.inodesPerGroup + 1 + index =
        g * G.layout.inodesPerGroup + index + 1 := by omega
    -- The loop moves on when the inode is reserved or in use.
    have skip : ¬ m.Open G.layout (g * G.layout.inodesPerGroup + index + 1) →
        Wp (allocateInodeIn G.layout (G.layout.descriptorPos g)
          (G.inodeBitmap g * G.layout.blockSize) (g * G.layout.inodesPerGroup + 1) (index + 1)
          remaining) image
        (fun found after => match found with
          | none => after = image ∧ ∀ j, index ≤ j → j < G.layout.inodeSpan g →
              ¬ m.Open G.layout (g * G.layout.inodesPerGroup + j + 1)
          | some ino => m.Open G.layout ino ∧ G.layout.inodeGroup ino = g ∧
              (∀ j, index ≤ j → g * G.layout.inodesPerGroup + j + 1 < ino →
                ¬ m.Open G.layout (g * G.layout.inodesPerGroup + j + 1)) ∧
              G.Shows base after (m.markInode G.layout ino true))
        (fun _ _ => False) := by
      intro here
      refine (ih (by omega)).mono ?_ (fun _ _ _ h => h)
      intro found after _ spec
      cases found with
      | some ino =>
        refine ⟨spec.1, spec.2.1, fun j lower below => ?_, spec.2.2.2⟩
        by_cases first : j = index
        · subst first
          exact here
        · exact spec.2.2.1 j (by omega) below
      | none =>
        refine ⟨spec.1, fun j lower upper => ?_⟩
        by_cases first : j = index
        · subst first
          exact here
        · exact spec.2 j (by omega) upper
    unfold allocateInodeIn
    simp only [Exec.wp_bind, Exec.wp_lift, add32_of_lt inoLt]
    refine ⟨_, rfl, ?_⟩
    rw [inoEq]
    by_cases reserved : g * G.layout.inodesPerGroup + index + 1 < G.layout.firstInode
    · rw [if_pos reserved]
      exact skip fun free => Nat.not_le_of_lt reserved free.notReserved
    rw [if_neg reserved]
    simp only [Exec.wp_bind, wp_imageLen, pos, Exec.wp_rejectIf, wp_readU8, byte]
    refine ⟨fun short => by omega, fun _ => ⟨by omega, ?_⟩⟩
    by_cases clear : (m (.inodeBitmap g)).get (index / 8) &&& bitMask (index % 8) = 0
    · rw [if_neg (not_not.mpr clear)]
      rw [and_bitMask_eq_zero _ (Nat.mod_lt _ (by omega)), ← bit] at clear
      have groupPos := counts.group_pos G.wf has clear
      have totalPos := counts.total_pos has clear
      rw [groupEq] at groupPos
      have groupEnd : G.areaPos (.groupFreeInodes g) + 2 ≤ image.len :=
        shows.area_le (a := .groupFreeInodes g) group
      have totalEnd : G.areaPos .freeInodes + 4 ≤ image.len :=
        shows.area_le (a := .freeInodes) trivial
      have groupAt : G.layout.descriptorPos g + groupDescriptorFreeInodesCount =
          G.areaPos (.groupFreeInodes g) := rfl
      have totalAt : superblockOffset + superblockFreeInodesCount = G.areaPos .freeInodes := rfl
      -- The bit is set first; the counts are read from the image that already has it.
      have first := shows.put (a := .inodeBitmap g) (o := index / 8) (n := 1)
        (fun _ => (m (.inodeBitmap g)).get (index / 8) ||| bitMask (index % 8)) valid (by omega)
      have groupFree : (image.put (G.areaPos (.inodeBitmap g) + index / 8) 1 fun _ =>
          (m (.inodeBitmap g)).get (index / 8) ||| bitMask (index % 8)).u16
          (G.areaPos (.groupFreeInodes g)) = m.groupFreeInodes g :=
        first.u16 (a := .groupFreeInodes g) (k := 0) group (le_refl 2)
      have totalFree : (image.put (G.areaPos (.inodeBitmap g) + index / 8) 1 fun _ =>
          (m (.inodeBitmap g)).get (index / 8) ||| bitMask (index % 8)).u32
          (G.areaPos .freeInodes) = m.freeInodes :=
        first.u32 (a := .freeInodes) (k := 0) trivial (le_refl 4)
      simp only [Exec.wp_bind, wp_readU16, wp_readU32, groupAt, totalAt, Exec.wp_rejectIf,
        storeU8, storeU16, storeU32, wp_store, Exec.wp_pure, Bytes.len_put, groupFree, totalFree]
      refine ⟨by omega, groupEnd, fun none => by omega, fun _ => ⟨totalEnd, fun none => by omega,
        fun _ => ⟨groupEnd, totalEnd, ⟨has, clear, by omega⟩, groupEq, fun j lower below => by omega,
        ?_⟩⟩⟩
      have marked := shows.mark (.groupFreeInodes g) .freeInodes true (by simp) (by simp) (by simp)
        valid group trivial byteLt rfl rfl
      unfold Disk.markInode
      rw [groupEq, indexEq]
      exact marked
    · rw [if_pos clear]
      rw [and_bitMask_eq_zero _ (Nat.mod_lt _ (by omega)), ← bit, Bool.not_eq_false] at clear
      exact skip fun free => Bool.noConfusion (free.clear.symm.trans clear)

omit shows in
theorem inodeSpan_eq (L : Layout) (g : Nat) :
    min L.inodesPerGroup (L.inodesCount + 1 - (g * L.inodesPerGroup + 1)) = L.inodeSpan g := by
  unfold Layout.inodeSpan
  omega

omit shows in
theorem inodeGroup_mono {L : Layout} {i j : Nat} (le : i ≤ j) : L.inodeGroup i ≤ L.inodeGroup j :=
  Nat.div_le_div_right (Nat.sub_le_sub_right le 1)

/-- The outer loop of `allocate_inode`. The number of the first inode of a group may leave
its type, which is where the loop can fault. -/
theorem allocateInodeFrom_wlp (counts : m.InodeCounts G.layout) (remaining : Nat)
    (ends : g + remaining = G.layout.groupCount) :
    Wlp (allocateInodeFrom G.layout g remaining) image (fun ino after => m.Open G.layout ino ∧
        (∀ i, m.Open G.layout i → g ≤ G.layout.inodeGroup i → ino ≤ i) ∧
        G.Shows base after (m.markInode G.layout ino true))
      (fun e after => e = .full ∧ after = image ∧
        ∀ ino, g ≤ G.layout.inodeGroup ino → ¬ m.Open G.layout ino) := by
  induction remaining generalizing g with
  | zero =>
    refine ⟨rfl, rfl, fun ino above free => ?_⟩
    have := free.has.group_lt
    omega
  | succ remaining ih =>
    have group : g < G.layout.groupCount := by omega
    have bitmapLt : G.inodeBitmap g < 2 ^ 32 := by
      rw [← shows.inodeBitmap group]
      exact image.u32_lt _
    have descriptorEnd := shows.descriptor_le group
    have long : ¬ image.len < G.layout.descriptorPos g + groupDescriptorSize := by
      simp only [groupDescriptorSize]
      omega
    unfold allocateInodeFrom
    rw [Exec.wlp_bind]
    refine Wp.wlp ?_
    simp only [Exec.wp_read, Layout.descriptorAt_of_lt G.wf group, Result.okOr_ok, Result.sat_ok]
    rw [Exec.wlp_bind]
    refine Wp.wlp ?_
    rw [wp_imageLen, Exec.wlp_bind]
    refine Wp.wlp ?_
    rw [Exec.wp_rejectIf]
    refine ⟨fun short => absurd short long, fun _ => ?_⟩
    rw [Exec.wlp_bind]
    refine Wp.wlp ?_
    rw [wp_readU32, shows.inodeBitmap group]
    refine ⟨by omega, ?_⟩
    rw [Exec.wlp_bind]
    refine Wp.wlp ?_
    simp only [Exec.wp_read, Layout.blockAt_of_lt G.wf bitmapLt, Result.sat_ok, Exec.wlp_bind,
      Exec.wlp_lift, mul32_eq_some, add32_eq_some]
    rintro _ ⟨-, rfl⟩ _ ⟨-, rfl⟩ _ ⟨-, rfl⟩
    rw [inodeSpan_eq]
    refine (allocateInodeIn_wp shows counts group _ (zero_add _)).wlp.mono ?_
      (fun _ _ _ h => h.elim)
    intro found after _ spec
    cases found with
    | some ino =>
      obtain ⟨free, groupEq, below, shown⟩ := spec
      refine ⟨free, fun i free' above => ?_, shown⟩
      by_contra less
      have place := Layout.inode_eq free'.has
      by_cases here : G.layout.inodeGroup i = g
      · rw [here] at place
        refine below (G.layout.inodeIndex i) (Nat.zero_le _) (by omega) ?_
        rwa [← place]
      · have mono := inodeGroup_mono (L := G.layout) (le_of_lt (Nat.lt_of_not_le less))
        omega
    | none =>
      obtain ⟨rfl, full⟩ := spec
      have notHere : ∀ i, m.Open G.layout i → G.layout.inodeGroup i ≠ g := by
        intro i free here
        have index := Layout.inodeIndex_lt G.wf free.has
        have place := Layout.inode_eq free.has
        rw [here] at index place
        refine full _ (Nat.zero_le _) index ?_
        rwa [← place]
      refine (ih (g := g + 1) (by omega)).mono ?_ ?_
      · rintro ino after - ⟨free, least, shown⟩
        refine ⟨free, fun i free' above => least i free' ?_, shown⟩
        have := notHere i free'
        omega
      · rintro e after - ⟨rfl, rfl, later⟩
        refine ⟨rfl, rfl, fun ino above free => later ino ?_ free⟩
        have := notHere ino free
        omega

theorem allocateInode_wlp (counts : m.InodeCounts G.layout) :
    Wlp (allocateInode G.layout) image
      (fun ino after => m.FirstOpen G.layout ino ∧
        G.Shows base after (m.markInode G.layout ino true))
      (fun e after => e = .full ∧ after = image ∧ ∀ ino, ¬ m.Open G.layout ino) := by
  refine (allocateInodeFrom_wlp shows counts _ (g := 0) (zero_add _)).mono ?_ ?_
  · rintro ino after - ⟨free, least, shown⟩
    exact ⟨⟨free, fun i free' => least i free' (Nat.zero_le _)⟩, shown⟩
  · rintro e after - ⟨rfl, rfl, full⟩
    exact ⟨rfl, rfl, fun ino => full ino (Nat.zero_le _)⟩

theorem allocateInodeFrom_total (counts : m.InodeCounts G.layout)
    (small : G.layout.inodesCount + 1 < 2 ^ 32) (remaining : Nat)
    (ends : g + remaining = G.layout.groupCount) (free : m.Open G.layout ino)
    (above : g ≤ G.layout.inodeGroup ino) :
    Exec.Total (allocateInodeFrom G.layout g remaining) image := by
  induction remaining generalizing g with
  | zero =>
    have := free.has.group_lt
    omega
  | succ remaining ih =>
    have group : g < G.layout.groupCount := by omega
    have bitmapLt : G.inodeBitmap g < 2 ^ 32 := by
      rw [← shows.inodeBitmap group]
      exact image.u32_lt _
    have descriptorEnd := shows.descriptor_le group
    have firstLe : g * G.layout.inodesPerGroup + 1 ≤ G.layout.inodesCount := by
      have place := Layout.inode_eq free.has
      have le := free.has.le
      have := Nat.mul_le_mul_right G.layout.inodesPerGroup above
      omega
    unfold allocateInodeFrom Exec.Total
    simp only [Exec.wp_bind, Exec.wp_read, Layout.descriptorAt_of_lt G.wf group, Result.okOr_ok,
      Result.sat_ok, wp_imageLen, Exec.wp_rejectIf, wp_readU32, shows.inodeBitmap group,
      Layout.blockAt_of_lt G.wf bitmapLt, Exec.wp_lift]
    refine ⟨fun _ => trivial, fun _ => ⟨by omega, _, mul32_of_lt (by omega), _, add32_of_lt (by omega),
      _, add32_of_lt small, ?_⟩⟩
    rw [inodeSpan_eq]
    refine (allocateInodeIn_wp shows counts group _ (zero_add _)).mono ?_
      (fun _ _ _ h => h.elim)
    intro found after _ spec
    cases found with
    | some ino => trivial
    | none =>
      obtain ⟨rfl, full⟩ := spec
      refine ih (by omega) ?_
      by_contra below
      have here : G.layout.inodeGroup ino = g := by omega
      have index := Layout.inodeIndex_lt G.wf free.has
      have place := Layout.inode_eq free.has
      rw [here] at index place
      refine full _ (Nat.zero_le _) index ?_
      rwa [← place]

theorem allocateInode_total (counts : m.InodeCounts G.layout)
    (small : G.layout.inodesCount + 1 < 2 ^ 32) (free : m.Open G.layout ino) :
    Exec.Total (allocateInode G.layout) image :=
  allocateInodeFrom_total shows counts small _ (zero_add _) free (Nat.zero_le _)

omit shows in
theorem allocateInode_small (shows : G.Shows base image m)
    (total : Exec.Total (allocateInode G.layout) image) : G.layout.inodesCount + 1 < 2 ^ 32 := by
  have group : 0 < G.layout.groupCount := G.wf.groupCount_pos
  obtain ⟨n, groups⟩ := Nat.exists_eq_succ_of_ne_zero (Nat.pos_iff_ne_zero.mp group)
  have bitmapLt : G.inodeBitmap 0 < 2 ^ 32 := by
    rw [← shows.inodeBitmap group]
    exact image.u32_lt _
  have descriptorEnd := shows.descriptor_le group
  unfold allocateInode at total
  rw [groups] at total
  unfold allocateInodeFrom Exec.Total at total
  simp only [Exec.wp_bind, Exec.wp_read, Layout.descriptorAt_of_lt G.wf group, Result.okOr_ok,
    Result.sat_ok, wp_imageLen, Exec.wp_rejectIf, wp_readU32, shows.inodeBitmap group,
    Layout.blockAt_of_lt G.wf bitmapLt, Exec.wp_lift] at total
  obtain ⟨-, _, -, _, -, _, last, -⟩ := total.2 (by simp only [groupDescriptorSize]; omega)
  exact (add32_eq_some.mp last).1

theorem freeInode_wp (has : G.layout.HasInode ino)
    (used : m.inodeUsed G.layout ino = true) (totalLt : m.freeInodes + 1 < 2 ^ 32) :
    Wp (freeInode G.layout ino) image
      (fun _ after => m.groupFreeInodes (G.layout.inodeGroup ino) + 1 < 2 ^ 16 ∧
        G.Shows base after (m.markInode G.layout ino false))
      (fun e after => 2 ^ 16 ≤ m.groupFreeInodes (G.layout.inodeGroup ino) + 1 ∧
        e = .freeCountInconsistent ∧ after = image) := by
  have inoPos := has.pos
  have le := has.le
  have perGroup := G.wf.inodesPerGroup_pos
  have group := has.group_lt
  have index := Layout.inodeIndex_lt G.wf has
  have valid : G.areaValid (.inodeBitmap (G.layout.inodeGroup ino)) := group
  have bitmapLt : G.inodeBitmap (G.layout.inodeGroup ino) < 2 ^ 32 := by
    rw [← shows.inodeBitmap group]
    exact image.u32_lt _
  have descriptorEnd := shows.descriptor_le group
  have byteLt : G.layout.inodeIndex ino / 8 <
      G.areaLen (.inodeBitmap (G.layout.inodeGroup ino)) := by
    simp only [Geometry.areaLen, divCeil]
    omega
  have bitmapEnd := shows.area_le valid
  have pos : bitmapByte (G.inodeBitmap (G.layout.inodeGroup ino) * G.layout.blockSize)
      (G.layout.inodeIndex ino) =
      G.areaPos (.inodeBitmap (G.layout.inodeGroup ino)) + G.layout.inodeIndex ino / 8 := rfl
  have byte := shows.get valid byteLt
  have groupFree : image.u16 (G.areaPos (.groupFreeInodes (G.layout.inodeGroup ino))) =
      m.groupFreeInodes (G.layout.inodeGroup ino) :=
    shows.u16 (a := .groupFreeInodes (G.layout.inodeGroup ino)) (k := 0) group (le_refl 2)
  have totalFree : image.u32 (G.areaPos .freeInodes) = m.freeInodes :=
    shows.u32 (a := .freeInodes) (k := 0) trivial (le_refl 4)
  have groupEnd : G.areaPos (.groupFreeInodes (G.layout.inodeGroup ino)) + 2 ≤ image.len :=
    shows.area_le (a := .groupFreeInodes (G.layout.inodeGroup ino)) group
  have totalEnd : G.areaPos .freeInodes + 4 ≤ image.len := shows.area_le (a := .freeInodes) trivial
  have groupAt : G.layout.descriptorPos (G.layout.inodeGroup ino) +
      groupDescriptorFreeInodesCount = G.areaPos (.groupFreeInodes (G.layout.inodeGroup ino)) := rfl
  have totalAt : superblockOffset + superblockFreeInodesCount = G.areaPos .freeInodes := rfl
  have groupDiv : div (ino - 1) G.layout.inodesPerGroup = some (G.layout.inodeGroup ino) :=
    div_of_ne (by omega)
  have indexRem : rem (ino - 1) G.layout.inodesPerGroup = some (G.layout.inodeIndex ino) :=
    rem_of_ne (by omega)
  have set : ¬ (m (.inodeBitmap (G.layout.inodeGroup ino))).get (G.layout.inodeIndex ino / 8) &&&
      bitMask (G.layout.inodeIndex ino % 8) = 0 := by
    rw [and_bitMask_eq_zero _ (Nat.mod_lt _ (by omega))]
    intro clear
    exact Bool.noConfusion (used.symm.trans clear)
  unfold freeInode
  simp only [Exec.wp_bind, Exec.wp_rejectIf, Exec.wp_lift, groupDiv, indexRem, Option.some.injEq,
    exists_eq_left', Exec.wp_read, Layout.descriptorAt_of_lt G.wf group, Result.okOr_ok,
    Result.sat_ok, wp_imageLen, wp_readU32, shows.inodeBitmap group,
    Layout.blockAt_of_lt G.wf bitmapLt, pos, wp_readU8, byte, wp_readU16, groupAt, totalAt,
    groupFree, totalFree, storeU8, storeU16, storeU32, wp_store, Bytes.len_put]
  refine ⟨fun outside => by omega, fun _ => ⟨fun short => ?_, fun _ => ⟨by omega, fun short => ?_,
    fun _ => ⟨by omega, fun clear => absurd clear set, fun _ => ⟨groupEnd, fun large =>
    ⟨large, by trivial, by trivial⟩, fun small => ⟨totalEnd, fun large => by omega, fun _ =>
    ⟨by omega, groupEnd, totalEnd, by omega, ?_⟩⟩⟩⟩⟩⟩⟩
  · simp only [groupDescriptorSize] at short
    omega
  · omega
  · exact shows.mark _ _ false (by simp)
      (by simp) (by simp) valid group trivial byteLt rfl rfl

end Inodes

end Zaytos.Fs
