import Zaytos.Ext2.Consistent

set_option autoImplicit false

/-! `truncate_to` and `append_to_file` on the areas of an image. -/
namespace Zaytos.Fs

open Writer
open Exec (Wp Wlp)

variable {b j i o : Nat} {d : Bytes}

namespace Geometry

variable (G : Geometry)

theorem dataBlock_ne_zero (data : G.DataBlock b) : b ≠ 0 := by
  rintro rfl
  obtain ⟨⟨lower, -⟩, notMeta⟩ := data
  have first : G.layout.firstDataBlock = 0 := by omega
  have sizeGe := G.wf.blockSize_ge
  by_cases small : G.layout.blockSize = 1024
  · have apart := G.apart .super .descriptors trivial trivial (by simp)
    have groups := G.wf.groupCount_pos
    simp only [Plan.regionPos, Plan.regionLen, superblockOffset, groupDescriptorSize, first,
      small, Apart] at apart
    omega
  · refine notMeta (.inr ⟨.super, trivial, ?_⟩)
    have large : 2048 ≤ G.layout.blockSize := by
      obtain ⟨k, size⟩ := G.wf.blockSize_dvd
      rw [size] at sizeGe small ⊢
      omega
    simp only [Plan.regionPos, Plan.regionLen, superblockOffset, Apart]
    omega

end Geometry

namespace Disk

variable (L : Layout)

/-- What one round of the loop of `truncate_to` does with slot `k`. -/
def release (m : Disk) (ino k : Nat) : Disk :=
  if m.slot ino k = 0 then m
  else ((m.set (.data (m.slot ino k))
    ((m (.data (m.slot ino k))).put 0 L.blockSize fun _ => 0)).set
    (.inode ino) ((m (.inode ino)).putU32 (40 + k * 4) 0)).markBlock L (m.slot ino k) false

/-- The slots `keep .. keep + count`, from the last one down. -/
def releaseFrom (m : Disk) (ino keep : Nat) : Nat → Disk
  | 0 => m
  | count + 1 => releaseFrom (m.release L ino (keep + count)) ino keep count

/-- Zero what is behind `target` in the last block that is kept. -/
def clearTail (m : Disk) (ino keep target : Nat) : Disk :=
  if 0 < keep ∧ m.slot ino (keep - 1) ≠ 0 ∧ target % L.blockSize ≠ 0 then
    m.set (.data (m.slot ino (keep - 1))) ((m (.data (m.slot ino (keep - 1)))).put
      (target % L.blockSize) (L.blockSize - target % L.blockSize) fun _ => 0)
  else m

def resize (m : Disk) (ino size sectors : Nat) : Disk :=
  m.set (.inode ino) (((m (.inode ino)).putU32 4 size).putU32 28 sectors)

/-- What `truncate_to` does. -/
def truncate (m : Disk) (ino target : Nat) : Disk :=
  let keep := divCeil target L.blockSize
  (((m.releaseFrom L ino keep (m.fileBlocks L ino - keep)).clearTail L ino keep target).resize ino
    target (keep * L.sectorsPerBlock))

/-- How many of the blocks that the loop of `truncate_to` gives back lie in group `g`. -/
def releasedIn (m : Disk) (ino keep count g : Nat) : Nat :=
  Nat.count (fun j => m.slot ino (keep + j) ≠ 0 ∧ L.blockGroup (m.slot ino (keep + j)) = g) count

def Spare (m : Disk) (ino keep count : Nat) : Prop :=
  ∀ g < L.groupCount, m.groupFreeBlocks g + m.releasedIn L ino keep count g < 2 ^ 16

section Release

variable {L} {m : Disk} {ino k : Nat}

theorem slot_putU32 {l : Nat} {v : Nat} (ne : j ≠ l) :
    (d.putU32 (40 + l * 4) v).u32 (40 + j * 4) = d.u32 (40 + j * 4) :=
  Bytes.u32_put_outside _ (by omega)

theorem release_inode_ne (ne : i ≠ ino) : m.release L ino k (.inode i) = m (.inode i) := by
  unfold release
  split
  · rfl
  · rw [markBlock_inode, set_of_ne _ (by simpa using ne), set_of_ne _ (by simp)]

theorem slot_release :
    (m.release L ino k).slot i j = if i = ino ∧ j = k then 0 else m.slot i j := by
  by_cases same : i = ino
  · subst same
    unfold release
    split
    · rename_i hole
      split
      · rename_i here
        rw [here.2, hole]
      · rfl
    · unfold slot
      rw [markBlock_inode, set_self]
      by_cases here : j = k
      · subst here
        rw [if_pos ⟨rfl, rfl⟩, Bytes.u32_putU32, Nat.zero_mod]
      · rw [if_neg (by tauto), slot_putU32 here]
  · unfold slot
    rw [release_inode_ne same, if_neg (by tauto)]

theorem blockUsed_release (has : L.HasBlock b)
    (slotHas : m.slot ino k ≠ 0 → L.HasBlock (m.slot ino k)) : (m.release L ino k).blockUsed L b =
      if m.slot ino k ≠ 0 ∧ b = m.slot ino k then false else m.blockUsed L b := by
  unfold release
  by_cases hole : m.slot ino k = 0
  · rw [if_pos hole, if_neg (by tauto)]
  · rw [if_neg hole, blockUsed_markBlock (slotHas hole) has]
    by_cases here : b = m.slot ino k
    · rw [if_pos here, if_pos ⟨hole, here⟩]
    · rw [if_neg here, if_neg (by tauto)]
      unfold blockUsed bitOf
      rw [set_of_ne _ (by simp), set_of_ne _ (by simp)]

theorem get_release_inode (outside : o < 40 + k * 4 ∨ 40 + k * 4 + 4 ≤ o) :
    (m.release L ino k (.inode ino)).get o = (m (.inode ino)).get o := by
  unfold release
  split
  · rfl
  · rw [markBlock_inode, set_self]
    exact Bytes.get_put_outside _ outside

theorem blockCounts_set {a : Area} (counts : m.BlockCounts L)
    (notBitmap : ∀ g, a ≠ .blockBitmap g) (notCount : ∀ g, a ≠ .groupFreeBlocks g)
    (notTotal : a ≠ .freeBlocks) : (m.set a d).BlockCounts L :=
  counts.congr (fun g => set_of_ne _ (notBitmap g).symm) (fun g => set_of_ne _ (notCount g).symm)
    (set_of_ne _ notTotal.symm)

theorem groupFreeBlocks_release {g : Nat}
    (small : m.slot ino k ≠ 0 → m.groupFreeBlocks (L.blockGroup (m.slot ino k)) + 1 < 2 ^ 16) :
    (m.release L ino k).groupFreeBlocks g = m.groupFreeBlocks g +
      if m.slot ino k ≠ 0 ∧ L.blockGroup (m.slot ino k) = g then 1 else 0 := by
  unfold release
  by_cases hole : m.slot ino k = 0
  · rw [if_pos hole, if_neg (by tauto), add_zero]
  · have free : ∀ g, ((m.set (.data (m.slot ino k))
        ((m (.data (m.slot ino k))).put 0 L.blockSize fun _ => 0)).set (.inode ino)
        ((m (.inode ino)).putU32 (40 + k * 4) 0)).groupFreeBlocks g = m.groupFreeBlocks g := by
      intro g
      unfold groupFreeBlocks
      rw [set_of_ne _ (by simp), set_of_ne _ (by simp)]
    rw [if_neg hole, groupFreeBlocks_markBlock (by rw [free]; exact small hole), free]
    by_cases here : g = L.blockGroup (m.slot ino k)
    · rw [if_pos here, if_pos ⟨hole, here.symm⟩]
      rfl
    · rw [if_neg here, if_neg (by tauto), add_zero]

theorem blockCounts_release (wf : L.Wf) (counts : m.BlockCounts L)
    (slotUsed : m.slot ino k ≠ 0 →
      L.HasBlock (m.slot ino k) ∧ m.blockUsed L (m.slot ino k) = true)
    (small : m.slot ino k ≠ 0 → m.groupFreeBlocks (L.blockGroup (m.slot ino k)) + 1 < 2 ^ 16) :
    (m.release L ino k).BlockCounts L := by
  unfold release
  by_cases hole : m.slot ino k = 0
  · rwa [if_pos hole]
  · obtain ⟨has, used⟩ := slotUsed hole
    have totalLt := counts.total_lt wf has used
    rw [if_neg hole]
    refine ((blockCounts_set (blockCounts_set counts (by simp) (by simp) (by simp)) (by simp)
      (by simp) (by simp)).mark wf false has ?_ ?_ ?_)
    · unfold blockUsed bitOf
      rw [set_of_ne _ (by simp), set_of_ne _ (by simp)]
      exact used
    · unfold groupFreeBlocks
      rw [set_of_ne _ (by simp), set_of_ne _ (by simp)]
      exact small hole
    · unfold freeBlocks
      rw [set_of_ne _ (by simp), set_of_ne _ (by simp)]
      exact totalLt

end Release

section Frame

variable {L} {m : Disk} {ino : Nat} {a : Area}

/-- An area that giving back blocks of `ino` does not touch. -/
structure Untouched (m : Disk) (ino bound : Nat) (a : Area) : Prop where
  notInode : a ≠ .inode ino
  notData : ∀ k < bound, a ≠ .data (m.slot ino k)
  notBitmap : ∀ g, a ≠ .blockBitmap g
  notCount : ∀ g, a ≠ .groupFreeBlocks g
  notTotal : a ≠ .freeBlocks

theorem release_untouched {k bound : Nat} (un : m.Untouched ino bound a) (small : k < bound) :
    m.release L ino k a = m a := by
  unfold release
  split
  · rfl
  · unfold markBlock
    rw [mark_of_ne (un.notBitmap _) (un.notCount _) un.notTotal, set_of_ne _ un.notInode,
      set_of_ne _ (un.notData k small)]

theorem releaseFrom_untouched {keep : Nat} (count : Nat) (un : m.Untouched ino (keep + count) a) :
    m.releaseFrom L ino keep count a = m a := by
  induction count generalizing m with
  | zero => rfl
  | succ count ih =>
    have here := release_untouched (L := L) (k := keep + count) un (by omega)
    unfold releaseFrom
    rw [ih, here]
    refine ⟨un.notInode, fun k small => ?_, un.notBitmap, un.notCount, un.notTotal⟩
    rw [slot_release, if_neg (by omega)]
    exact un.notData k (by omega)

end Frame

/-- The slots of `ino` below `bound` name data blocks in use, each a different one. -/
structure SlotsUsed (G : Geometry) (m : Disk) (ino bound : Nat) : Prop where
  bound_le : bound ≤ inodeBlockCount
  used : ∀ k < bound, m.slot ino k ≠ 0 →
    G.DataBlock (m.slot ino k) ∧ m.blockUsed G.layout (m.slot ino k) = true
  unique : ∀ k < bound, ∀ l < bound, m.slot ino k ≠ 0 → m.slot ino k = m.slot ino l → k = l

theorem spare_release {L : Layout} {m : Disk} {ino keep count : Nat}
    (small : m.slot ino (keep + count) ≠ 0 →
      m.groupFreeBlocks (L.blockGroup (m.slot ino (keep + count))) + 1 < 2 ^ 16) :
    (m.release L ino (keep + count)).Spare L ino keep count ↔ m.Spare L ino keep (count + 1) := by
  unfold Spare
  refine forall₂_congr fun g _ => ?_
  rw [groupFreeBlocks_release small]
  have lower : (m.release L ino (keep + count)).releasedIn L ino keep count g =
      m.releasedIn L ino keep count g := by
    unfold releasedIn
    apply count_congr
    intro j hj
    rw [slot_release, if_neg (by omega)]
  rw [lower]
  unfold releasedIn
  rw [Nat.count_succ]
  split <;> omega

theorem Spare.last {G : Geometry} {m : Disk} {ino keep count : Nat}
    (spare : m.Spare G.layout ino keep (count + 1))
    (has : m.slot ino (keep + count) ≠ 0 → G.layout.HasBlock (m.slot ino (keep + count))) :
    m.slot ino (keep + count) ≠ 0 →
      m.groupFreeBlocks (G.layout.blockGroup (m.slot ino (keep + count))) + 1 < 2 ^ 16 := by
  intro nonzero
  have bound := spare _ (Layout.blockGroup_lt G.wf (has nonzero))
  unfold releasedIn at bound
  rw [Nat.count_succ, if_pos ⟨nonzero, rfl⟩] at bound
  omega

theorem SlotsUsed.release {G : Geometry} {m : Disk} {ino n : Nat} (slots : SlotsUsed G m ino (n + 1)) :
    SlotsUsed G (m.release G.layout ino n) ino n where
  bound_le := Nat.le_of_succ_le slots.bound_le
  used k small nonzero := by
    have here : (m.release G.layout ino n).slot ino k = m.slot ino k := by
      rw [slot_release, if_neg (by omega)]
    rw [here] at nonzero ⊢
    obtain ⟨data, used⟩ := slots.used k (by omega) nonzero
    refine ⟨data, ?_⟩
    rw [blockUsed_release data.1 fun ne => (slots.used n (by omega) ne).1.1, if_neg, used]
    rintro ⟨-, same⟩
    have := slots.unique k (by omega) n (by omega) nonzero same
    omega
  unique k small l small' nonzero same := by
    rw [slot_release, if_neg (by omega)] at nonzero same
    rw [slot_release, if_neg (by omega)] at same
    exact slots.unique k (by omega) l (by omega) nonzero same

section ReleaseFrom

variable {G : Geometry} {m : Disk} {ino keep : Nat}

theorem blockCounts_releaseFrom (count : Nat) (counts : m.BlockCounts G.layout)
    (slots : SlotsUsed G m ino (keep + count)) (spare : m.Spare G.layout ino keep count) :
    (m.releaseFrom G.layout ino keep count).BlockCounts G.layout := by
  induction count generalizing m with
  | zero => exact counts
  | succ count ih =>
    have here := slots.used (keep + count) (by omega)
    have small := spare.last fun ne => (here ne).1.1
    exact ih (blockCounts_release G.wf counts (fun ne => ⟨(here ne).1.1, (here ne).2⟩) small)
      slots.release ((spare_release small).mpr spare)

theorem blockUsed_releaseFrom (count : Nat) (has : G.layout.HasBlock b)
    (slots : SlotsUsed G m ino (keep + count)) :
    (m.releaseFrom G.layout ino keep count).blockUsed G.layout b = true ↔
      m.blockUsed G.layout b = true ∧
      ∀ k, keep ≤ k → k < keep + count → m.slot ino k ≠ 0 → m.slot ino k ≠ b := by
  induction count generalizing m with
  | zero =>
    constructor
    · intro used
      exact ⟨used, fun k lower upper => by omega⟩
    · exact And.left
  | succ count ih =>
    have here := slots.used (keep + count) (by omega)
    have rest : SlotsUsed G (m.release G.layout ino (keep + count)) ino (keep + count) := slots.release
    unfold releaseFrom
    rw [ih rest, blockUsed_release has fun ne => (here ne).1.1]
    constructor
    · rintro ⟨used, lower⟩
      split at used
      · cases used
      · rename_i kept
        refine ⟨used, fun k above below nonzero => ?_⟩
        by_cases last : k = keep + count
        · rintro rfl
          rw [last] at nonzero kept
          exact kept ⟨nonzero, rfl⟩
        · have := lower k above (by omega)
          rw [slot_release, if_neg (by omega)] at this
          exact this nonzero
    · rintro ⟨used, all⟩
      rw [if_neg fun gone => all _ (by omega) (by omega) gone.1 gone.2.symm]
      refine ⟨used, fun k above below => ?_⟩
      rw [slot_release, if_neg (by omega)]
      exact all k above (by omega)

theorem get_releaseFrom_inode (count : Nat)
    (outside : o < 40 + keep * 4 ∨ 40 + (keep + count) * 4 ≤ o) :
    (m.releaseFrom G.layout ino keep count (.inode ino)).get o = (m (.inode ino)).get o := by
  induction count generalizing m with
  | zero => rfl
  | succ count ih =>
    unfold releaseFrom
    rw [ih (by omega), get_release_inode (by omega)]

end ReleaseFrom

end Disk

section Truncate

variable {G : Geometry} {base image : Bytes} {m : Disk} (shows : G.Shows base image m)
include shows

theorem releaseSlot_wp {ino k : Nat} (has : G.layout.HasInode ino) (small : k < inodeBlockCount)
    (counts : m.BlockCounts G.layout) (used : m.slot ino k ≠ 0 →
      G.DataBlock (m.slot ino k) ∧ m.blockUsed G.layout (m.slot ino k) = true) :
    Wp (releaseSlot G.layout (G.areaPos (.inode ino)) k) image
      (fun _ after => (m.slot ino k ≠ 0 →
          m.groupFreeBlocks (G.layout.blockGroup (m.slot ino k)) + 1 < 2 ^ 16) ∧
        G.Shows base after (m.release G.layout ino k))
      (fun e after => m.slot ino k ≠ 0 ∧
        2 ^ 16 ≤ m.groupFreeBlocks (G.layout.blockGroup (m.slot ino k)) + 1 ∧
        e = .freeCountInconsistent ∧ ∃ m', G.Shows base after m' ∧ m'.slot ino k = 0) := by
  have slotEnd := inode_end_le shows has
  have sizeGe := G.wf.inodeSize_ge_128
  have slotLe : iBlockSlot (G.areaPos (.inode ino)) k + 4 ≤ image.len := by
    simp only [iBlockSlot, inodeBlockCount] at *
    omega
  unfold releaseSlot
  simp only [Exec.wp_bind, wp_readU32, slot_eq shows has small]
  refine ⟨slotLe, ?_⟩
  by_cases hole : m.slot ino k = 0
  · rw [if_pos hole]
    refine ⟨fun ne => absurd hole ne, ?_⟩
    unfold Disk.release
    rwa [if_pos hole]
  rw [if_neg hole]
  obtain ⟨data, isUsed⟩ := used hole
  have blockEnd : m.slot ino k * G.layout.blockSize + G.layout.blockSize ≤ image.len :=
    shows.area_le (a := .data (m.slot ino k)) data
  have blockLt : m.slot ino k < 2 ^ 32 := lt_trans data.1.2 G.wf.blocksCount_lt
  have totalLt := counts.total_lt G.wf data.1 isUsed
  simp only [Exec.wp_bind, Exec.wp_read, Layout.blockAt_of_lt G.wf blockLt, Result.sat_ok,
    wp_imageLen]
  rw [if_pos blockEnd]
  unfold fill storeU32
  rw [Exec.wp_bind, wp_store]
  refine ⟨blockEnd, ?_⟩
  rw [Exec.wp_bind, wp_store]
  refine ⟨slotLe, ?_⟩
  have first := shows.put (a := .data (m.slot ino k)) (o := 0) (n := G.layout.blockSize)
    (fun _ => 0) data (by simp [Geometry.areaLen])
  have second := first.put (a := .inode ino) (o := 40 + k * 4) (n := 4) (leByte 0) has (by
    simp only [Geometry.areaLen, inodeBlockCount] at *
    omega)
  rw [Function.update_of_ne (by simp)] at second
  have cleared : G.Shows base _ ((m.set (.data (m.slot ino k))
    ((m (.data (m.slot ino k))).put 0 G.layout.blockSize fun _ => 0)).set (.inode ino)
    ((m (.inode ino)).putU32 (40 + k * 4) 0)) := second
  have place : G.areaPos (.inode ino) + (40 + k * 4) = iBlockSlot (G.areaPos (.inode ino)) k := by
    unfold iBlockSlot
    omega
  have start : G.areaPos (.data (m.slot ino k)) + 0 = m.slot ino k * G.layout.blockSize := rfl
  rw [place, start] at cleared
  have groupFree : ((m.set (.data (m.slot ino k))
      ((m (.data (m.slot ino k))).put 0 G.layout.blockSize fun _ => 0)).set (.inode ino)
      ((m (.inode ino)).putU32 (40 + k * 4) 0)).groupFreeBlocks
      (G.layout.blockGroup (m.slot ino k)) =
      m.groupFreeBlocks (G.layout.blockGroup (m.slot ino k)) := by
    unfold Disk.groupFreeBlocks
    rw [Disk.set_of_ne _ (by simp), Disk.set_of_ne _ (by simp)]
  refine (freeBlock_wp cleared data.1 ?_ ?_).mono ?_ ?_
  · unfold Disk.blockUsed Disk.bitOf
    rw [Disk.set_of_ne _ (by simp), Disk.set_of_ne _ (by simp)]
    exact isUsed
  · unfold Disk.freeBlocks
    rw [Disk.set_of_ne _ (by simp), Disk.set_of_ne _ (by simp)]
    exact totalLt
  · rintro _ after - ⟨groupLt, freed⟩
    rw [groupFree] at groupLt
    refine ⟨fun _ => groupLt, ?_⟩
    unfold Disk.release
    rwa [if_neg hole]
  · rintro e after - ⟨groupGe, rfl, rfl⟩
    rw [groupFree] at groupGe
    refine ⟨hole, groupGe, rfl, _, cleared, ?_⟩
    unfold Disk.slot
    rw [Disk.set_self, Bytes.u32_putU32, Nat.zero_mod]

theorem releaseSlots_wp {ino keep : Nat} (has : G.layout.HasInode ino) (count : Nat)
    (counts : m.BlockCounts G.layout) (slots : Disk.SlotsUsed G m ino (keep + count)) :
    Wp (releaseSlots G.layout (G.areaPos (.inode ino)) keep count) image
      (fun _ after => m.Spare G.layout ino keep count ∧
        G.Shows base after (m.releaseFrom G.layout ino keep count))
      (fun e after => ¬ m.Spare G.layout ino keep count ∧ e = .freeCountInconsistent ∧
        ∃ m' k, G.Shows base after m' ∧ m.slot ino k ≠ 0 ∧ m'.slot ino k = 0) := by
  induction count generalizing image m with
  | zero =>
    refine ⟨fun g _ => ?_, shows⟩
    unfold Disk.releasedIn
    rw [Nat.count_zero, add_zero]
    exact (m _).u16_lt _
  | succ count ih =>
    have here := slots.used (keep + count) (by omega)
    unfold releaseSlots
    rw [Exec.wp_bind]
    refine (releaseSlot_wp shows has (lt_of_lt_of_le (by omega) slots.bound_le) counts
      here).mono ?_ ?_
    · rintro _ middle - ⟨small, shows'⟩
      have counts' := Disk.blockCounts_release G.wf counts
        (fun ne => ⟨(here ne).1.1, (here ne).2⟩) small
      have spare := Disk.spare_release (L := G.layout) small
      refine (ih shows' counts' slots.release).mono ?_ ?_
      · rintro _ after - ⟨enough, shown⟩
        exact ⟨spare.mp enough, shown⟩
      · rintro e after - ⟨overflow, rfl, m', k, shown, nonzero, zero⟩
        refine ⟨fun enough => overflow (spare.mpr enough), rfl, m', k, shown, ?_, zero⟩
        rw [Disk.slot_release] at nonzero
        split at nonzero
        · exact absurd rfl nonzero
        · exact nonzero
    · rintro e after - ⟨nonzero, large, rfl, m', shown, zero⟩
      refine ⟨fun enough => ?_, rfl, m', keep + count, shown, nonzero, zero⟩
      have := enough.last (fun ne => (here ne).1.1) nonzero
      omega

omit shows in
theorem slot_releaseFrom {ino keep i j : Nat} (count : Nat) :
    (m.releaseFrom G.layout ino keep count).slot i j =
      if i = ino ∧ keep ≤ j ∧ j < keep + count then 0 else m.slot i j := by
  induction count generalizing m with
  | zero =>
    rw [if_neg (by omega)]
    rfl
  | succ count ih =>
    unfold Disk.releaseFrom
    rw [ih, Disk.slot_release]
    by_cases same : i = ino
    · by_cases below : keep ≤ j ∧ j < keep + count
      · rw [if_pos ⟨same, below⟩, if_pos ⟨same, by omega⟩]
      · rw [if_neg (by tauto)]
        by_cases here : j = keep + count
        · rw [if_pos ⟨same, here⟩, if_pos ⟨same, by omega⟩]
        · rw [if_neg (by tauto), if_neg (by omega)]
    · rw [if_neg (by tauto), if_neg (by tauto), if_neg (by tauto)]

theorem clearTail_wp {ino keep target : Nat} (has : G.layout.HasInode ino)
    (few : keep ≤ inodeBlockCount)
    (data : ∀ k < keep, m.slot ino k ≠ 0 → G.DataBlock (m.slot ino k)) :
    Wp (clearTail G.layout (G.areaPos (.inode ino)) keep target) image
      (fun _ after => G.Shows base after (m.clearTail G.layout ino keep target))
      (fun _ _ => False) := by
  have slotEnd := inode_end_le shows has
  have sizePos := G.wf.blockSize_pos
  have tailLt := Nat.mod_lt target sizePos
  unfold clearTail Disk.clearTail
  by_cases empty : 0 < keep
  · rw [if_pos empty]
    have slotLe : iBlockSlot (G.areaPos (.inode ino)) (keep - 1) + 4 ≤ image.len := by
      simp only [iBlockSlot, inodeBlockCount] at *
      omega
    have small : keep - 1 < 15 := by
      simp only [inodeBlockCount] at few
      omega
    simp only [Exec.wp_bind, wp_readU32, slot_eq shows has small, Exec.wp_lift,
      rem_of_ne (ne_of_gt sizePos)]
    refine ⟨slotLe, _, rfl, ?_⟩
    by_cases tail : m.slot ino (keep - 1) ≠ 0 ∧ target % G.layout.blockSize ≠ 0
    · rw [if_pos tail, if_pos ⟨empty, tail⟩]
      have isData := data (keep - 1) (by omega) tail.1
      have blockEnd : m.slot ino (keep - 1) * G.layout.blockSize + G.layout.blockSize ≤ image.len :=
        shows.area_le (a := .data (m.slot ino (keep - 1))) isData
      have blockLt : m.slot ino (keep - 1) < 2 ^ 32 :=
        lt_trans isData.1.2 G.wf.blocksCount_lt
      simp only [Exec.wp_bind, Exec.wp_read, Layout.blockAt_of_lt G.wf blockLt, Result.sat_ok,
        wp_imageLen]
      rw [if_pos (by omega)]
      unfold fill
      rw [wp_store]
      refine ⟨by omega, ?_⟩
      exact shows.put (a := .data (m.slot ino (keep - 1))) (fun _ => 0) isData
        (by simp only [Geometry.areaLen]; omega)
    · rw [if_neg tail, if_neg (by tauto)]
      exact shows
  · rw [if_neg empty, if_neg (by tauto)]
    exact shows

theorem resize_wp {ino : Nat} (size sectors : Nat) (has : G.layout.HasInode ino) :
    Wp (do storeU32 (G.areaPos (.inode ino) + 4) size
           storeU32 (G.areaPos (.inode ino) + 28) sectors) image
      (fun _ after => G.Shows base after (m.resize ino size sectors)) (fun _ _ => False) := by
  have slotEnd := inode_end_le shows has
  have sizeGe := G.wf.inodeSize_ge_128
  unfold storeU32
  rw [Exec.wp_bind, wp_store]
  refine ⟨by omega, ?_⟩
  rw [wp_store, Bytes.len_put]
  refine ⟨by omega, ?_⟩
  have first := shows.put (a := .inode ino) (o := 4) (n := 4) (leByte size) has
    (by simp only [Geometry.areaLen]; omega)
  have second := first.put (a := .inode ino) (o := 28) (n := 4) (leByte sectors) has
    (by simp only [Geometry.areaLen]; omega)
  rw [Function.update_self, Function.update_idem] at second
  exact second

theorem truncateTo_wp {ino target : Nat} (has : G.layout.HasInode ino)
    (counts : m.BlockCounts G.layout)
    (slots : Disk.SlotsUsed G m ino (m.fileBlocks G.layout ino)) (within : target ≤ m.size ino) :
    let keep := divCeil target G.layout.blockSize
    let count := m.fileBlocks G.layout ino - keep
    Wp (truncateTo G.layout ino target) image
      (fun _ after => m.Spare G.layout ino keep count ∧
        G.Shows base after (m.truncate G.layout ino target))
      (fun e after => ¬ m.Spare G.layout ino keep count ∧ e = .freeCountInconsistent ∧
        ∃ m' k, G.Shows base after m' ∧ m.slot ino k ≠ 0 ∧ m'.slot ino k = 0) := by
  intro keep count
  have slotEnd := inode_end_le shows has
  have sizePos := G.wf.blockSize_pos
  have keepLe : keep ≤ m.fileBlocks G.layout ino := divCeil_le_of_le sizePos within
  have total : keep + count = m.fileBlocks G.layout ino := by omega
  have few := slots.bound_le
  have sectorsLt : keep * G.layout.sectorsPerBlock < 2 ^ 32 := by
    have perBlock : G.layout.sectorsPerBlock ≤ 128 := by
      have := G.wf.blockSize_le
      unfold Layout.sectorsPerBlock
      omega
    have : keep * G.layout.sectorsPerBlock ≤ 15 * 128 := by
      refine Nat.mul_le_mul ?_ perBlock
      simp only [inodeBlockCount] at few
      omega
    omega
  unfold truncateTo inodeAtOr
  simp only [Exec.wp_bind, Exec.wp_read, shows.inodeAt_of_has has, Result.okOr_ok, Result.sat_ok,
    wp_readU32, size_eq shows has, Exec.wp_rejectIf]
  refine ⟨by omega, fun beyond => by omega, fun _ => ?_⟩
  refine (releaseSlots_wp shows has count counts (by rwa [total])).mono ?_ (fun _ _ _ h => h)
  rintro _ middle - ⟨spare, shows'⟩
  refine (clearTail_wp shows' has (by omega) ?_).mono ?_ (fun _ _ _ h => h.elim)
  · intro k small nonzero
    rw [slot_releaseFrom, if_neg (by omega)] at nonzero ⊢
    exact (slots.used k (by omega) nonzero).1
  intro _ last _ shows''
  have stores := resize_wp shows'' target (keep * G.layout.sectorsPerBlock) has
  simp only [Exec.wp_bind] at stores
  refine stores.mono ?_ (fun _ _ _ h => h.elim)
  intro _ after _ stored
  rw [Exec.wp_lift]
  refine ⟨_, mul32_of_lt sectorsLt, ?_⟩
  exact stored.mono (fun _ _ _ h => ⟨spare, h⟩) (fun _ _ _ h => h.elim)

omit shows in
theorem truncate_untouched {ino target : Nat} {a : Area} (within : target ≤ m.size ino)
    (un : m.Untouched ino (m.fileBlocks G.layout ino) a) :
    m.truncate G.layout ino target a = m a := by
  have keepLe : divCeil target G.layout.blockSize ≤ m.fileBlocks G.layout ino :=
    divCeil_le_of_le G.wf.blockSize_pos within
  have total : divCeil target G.layout.blockSize +
      (m.fileBlocks G.layout ino - divCeil target G.layout.blockSize) =
      m.fileBlocks G.layout ino := by omega
  have released : m.releaseFrom G.layout ino (divCeil target G.layout.blockSize)
      (m.fileBlocks G.layout ino - divCeil target G.layout.blockSize) a = m a :=
    Disk.releaseFrom_untouched _ (by rwa [total])
  unfold Disk.truncate Disk.resize Disk.clearTail
  rw [Disk.set_of_ne _ un.notInode]
  split
  · rename_i tail
    rw [Disk.set_of_ne, released]
    rw [slot_releaseFrom, if_neg (by omega)]
    exact un.notData _ (by omega)
  · exact released

theorem truncateTo_beyond {ino target : Nat} (has : G.layout.HasInode ino)
    (beyond : m.size ino < target) :
    truncateTo G.layout ino target image = .err (.notAllocated ino) image := by
  have slotEnd := inode_end_le shows has
  unfold truncateTo inodeAtOr
  rw [Exec.bind_of_ok (Exec.read_of_ok (by rw [shows.inodeAt_of_has has]; rfl)),
    Exec.bind_of_ok (show readU32 (G.areaPos (.inode ino) + 4) image = .ok (m.size ino) image from
      Exec.read_of_ok (by
        rw [Bytes.readU32_of_le (by omega), size_eq shows has, Result.lift_some])),
    Exec.bind_of_err (Exec.rejectIf_of beyond)]

end Truncate

end Zaytos.Fs
