import Zaytos.Ext2.FileSpec

set_option autoImplicit false

/-! `append_to_file` on the areas of an image. The loop is described by what it has done so
far: the file has grown from `n₀` to `n` blocks, all the new ones taken from the free ones. -/
namespace Zaytos.Fs

open Writer
open Exec (Wp Wlp)

variable {a : Area} {k o len : Nat} {f : Nat → UInt8} {P : Disk → Nat → Prop}

namespace Disk

def FreeZero (G : Geometry) (m : Disk) : Prop :=
  ∀ b, G.DataBlock b → m.blockUsed G.layout b = false →
    ((m (.data b)).put 0 G.layout.blockSize fun _ => 0) = m (.data b)

variable {L : Layout} {m m' : Disk} {ino : Nat}

/-- What a round of the loop of `truncate_to` does to an area other than the inode depends on
the slot and on that area. -/
theorem release_congr (ne : a ≠ .inode ino) (same : m' a = m a)
    (slot : m'.slot ino k = m.slot ino k) : m'.release L ino k a = m.release L ino k a := by
  unfold release
  rw [slot]
  split
  · exact same
  · refine mark_congr ?_
    rw [set_of_ne _ ne, set_of_ne _ ne, set_apply, set_apply]
    split
    · rename_i isData
      rw [isData] at same
      rw [same]
    · exact same

theorem releaseFrom_congr {keep : Nat} (count : Nat) (ne : a ≠ .inode ino)
    (same : m' a = m a) (slots : ∀ k, k < keep + count → m'.slot ino k = m.slot ino k) :
    m'.releaseFrom L ino keep count a = m.releaseFrom L ino keep count a := by
  induction count generalizing m m' with
  | zero => exact same
  | succ count ih =>
    unfold releaseFrom
    refine ih (release_congr ne same (slots _ (by omega))) fun k small => ?_
    rw [slot_release, slot_release, slots k (by omega)]

/-- A file grows by block `b`, which becomes slot `n`. -/
def link (L : Layout) (m : Disk) (ino n b : Nat) : Disk :=
  (m.markBlock L b true).set (.inode ino) ((m (.inode ino)).putU32 (40 + n * 4) b)

theorem slot_link {n b k : Nat} (small : b < 2 ^ 32) :
    (m.link L ino n b).slot ino k = if k = n then b else m.slot ino k := by
  unfold slot link
  rw [set_self]
  by_cases here : k = n
  · rw [if_pos here, here, Bytes.u32_putU32, Nat.mod_eq_of_lt small]
  · rw [if_neg here, slot_putU32 here]

theorem blockUsed_link {n b x : Nat} (has : L.HasBlock b) (hasX : L.HasBlock x) :
    (m.link L ino n b).blockUsed L x = if x = b then true else m.blockUsed L x := by
  rw [← blockUsed_markBlock has hasX]
  unfold blockUsed bitOf link
  rw [set_of_ne _ (by simp)]

theorem release_link {n b : Nat} (counts : m.BlockCounts L) (wf : L.Wf) (has : L.HasBlock b)
    (nonzero : b ≠ 0) (clear : m.blockUsed L b = false)
    (zero : ((m (.data b)).put 0 L.blockSize fun _ => 0) = m (.data b)) :
    ∀ a, a ≠ .inode ino → (m.link L ino n b).release L ino n a = m a := by
  intro a ne
  have blockLt : b < 2 ^ 32 := Nat.lt_trans has.2 wf.blocksCount_lt
  have slot : (m.link L ino n b).slot ino n = b := by
    rw [slot_link blockLt, if_pos rfl]
  have restored : (m.markBlock L b true).markBlock L b false = m := by
    have groupLt : m.groupFreeBlocks (L.blockGroup b) < 2 ^ 16 := (m _).u16_lt _
    have totalLt : m.freeBlocks < 2 ^ 32 := (m _).u32_lt _
    refine mark_mark (by simp) (by simp) (by simp) clear
      (fun _ => counts.group_pos wf has clear) ?_ (fun _ => counts.total_pos has clear) ?_
    · exact Nat.lt_of_le_of_lt (Nat.sub_le _ 1) groupLt
    · exact Nat.lt_of_le_of_lt (Nat.sub_le _ 1) totalLt
  unfold release
  rw [slot, if_neg nonzero]
  refine (mark_congr ?_).trans (congrFun restored a)
  unfold link
  rw [set_of_ne _ ne, set_apply, set_of_ne _ (by simp), markBlock_data, zero, set_of_ne _ ne]
  split
  · rename_i isData
    rw [isData, markBlock_data]
  · rfl

theorem release_write (nonzero : m.slot ino k ≠ 0) (inside : o + len ≤ L.blockSize) :
    (m.set (.data (m.slot ino k)) ((m (.data (m.slot ino k))).put o len f)).release L ino k =
      m.release L ino k := by
  have slot : (m.set (.data (m.slot ino k)) ((m (.data (m.slot ino k))).put o len f)).slot ino k =
      m.slot ino k := by
    unfold Disk.slot
    rw [set_of_ne _ (by simp)]
  have covered : (((m (.data (m.slot ino k))).put o len f).put 0 L.blockSize fun _ => 0) =
      (m (.data (m.slot ino k))).put 0 L.blockSize fun _ => 0 := by
    refine Bytes.ext_get rfl fun i => ?_
    by_cases small : i < L.blockSize
    · rw [Bytes.get_put_inside _ (by omega) (by omega), Bytes.get_put_inside _ (by omega) (by omega)]
    · rw [Bytes.get_put_outside _ (by omega), Bytes.get_put_outside _ (by omega),
        Bytes.get_put_outside _ (by omega)]
  unfold release
  rw [slot, if_neg nonzero, if_neg nonzero, set_self, set_set, covered, set_of_ne _ (by simp)]

end Disk

/-- From `m₀` to `m`, the file `ino` has grown from `n₀` to `n` blocks, and its last old
block may have been written to. -/
structure Grown (G : Geometry) (m₀ m : Disk) (ino n₀ n : Nat) : Prop where
  le : n₀ ≤ n
  few : n ≤ directBlockCount
  other : ∀ a, a ≠ .inode ino → (∀ b, a ≠ .data b) → (∀ g, a ≠ .blockBitmap g) →
    (∀ g, a ≠ .groupFreeBlocks g) → a ≠ .freeBlocks → m a = m₀ a
  inode : ∀ o, o < 40 + n₀ * 4 ∨ 40 + n * 4 ≤ o →
    (m (.inode ino)).get o = (m₀ (.inode ino)).get o
  fresh : ∀ k, n₀ ≤ k → k < n →
    G.DataBlock (m.slot ino k) ∧ m₀.blockUsed G.layout (m.slot ino k) = false
  distinct : ∀ k l, n₀ ≤ k → k < n → n₀ ≤ l → l < n → m.slot ino k = m.slot ino l → k = l
  used : ∀ b, G.layout.HasBlock b → (m.blockUsed G.layout b = true ↔
    m₀.blockUsed G.layout b = true ∨ ∃ k, n₀ ≤ k ∧ k < n ∧ m.slot ino k = b)
  data : ∀ b, (∀ k, n₀ ≤ k + 1 → k < n → m.slot ino k ≠ b) → m (.data b) = m₀ (.data b)
  counts : m.BlockCounts G.layout
  free : m.freeBlocks + (n - n₀) = m₀.freeBlocks
  undo : m₀.FreeZero G → ∀ a, a ≠ .inode ino → (∀ k < n₀, a ≠ .data (m₀.slot ino k)) →
    m.releaseFrom G.layout ino n₀ (n - n₀) a = m₀ a

namespace Grown

variable {G : Geometry} {m₀ m : Disk} {ino n₀ n : Nat}

theorem refl (counts : m.BlockCounts G.layout) (few : n ≤ directBlockCount) :
    Grown G m m ino n n where
  le := Nat.le_refl _
  few := few
  other _ _ _ _ _ _ := rfl
  inode _ _ := rfl
  fresh k lower upper := by omega
  distinct k l lower upper := by omega
  used b _ := by
    constructor
    · exact .inl
    · rintro (used | ⟨k, lower, upper, -⟩)
      · exact used
      · omega
  data _ _ := rfl
  counts := counts
  free := by omega
  undo _ a _ _ := by
    rw [Nat.sub_self]
    rfl

variable (grown : Grown G m₀ m ino n₀ n)
include grown

theorem slot_lower (small : k < n₀) : m.slot ino k = m₀.slot ino k := by
  have same : Bytes.SameOn (m₀ (.inode ino)) (m (.inode ino)) (40 + k * 4) 4 :=
    fun o lower upper => grown.inode o (.inl (by omega))
  exact same.u32 (Nat.le_refl _) (Nat.le_refl _)

theorem link {b : Nat} (room : n < directBlockCount) (data : G.DataBlock b)
    (clear : m.blockUsed G.layout b = false)
    (old : ∀ k < n₀, m₀.slot ino k ≠ 0 → m₀.blockUsed G.layout (m₀.slot ino k) = true) :
    Grown G m₀ (m.link G.layout ino n b) ino n₀ (n + 1) := by
  have le := grown.le
  have totalPos := grown.counts.total_pos data.1 clear
  have free := grown.free
  have blockLt : b < 2 ^ 32 := Nat.lt_trans data.1.2 G.wf.blocksCount_lt
  have totalLt : m.freeBlocks < 2 ^ 32 := (m _).u32_lt _
  have groupLt : m.groupFreeBlocks (G.layout.blockGroup b) < 2 ^ 16 := (m _).u16_lt _
  have slotNew : (m.link G.layout ino n b).slot ino n = b := by
    rw [Disk.slot_link blockLt, if_pos rfl]
  have slotOld : ∀ k, k ≠ n → (m.link G.layout ino n b).slot ino k = m.slot ino k := by
    intro k ne
    rw [Disk.slot_link blockLt, if_neg ne]
  have taken : ∀ k, n₀ ≤ k → k < n → m.slot ino k ≠ b := by
    rintro k lower upper rfl
    have used := (grown.used _ data.1).mpr (.inr ⟨k, lower, upper, rfl⟩)
    exact Bool.noConfusion (used.symm.trans clear)
  have clear₀ : m₀.blockUsed G.layout b = false := by
    cases used : m₀.blockUsed G.layout b with
    | false => rfl
    | true => exact ((grown.used b data.1).mpr (.inl used)).symm.trans clear
  refine ⟨by omega, room, ?_, ?_, ?_, ?_, ?_, ?_, ?_, ?_, ?_⟩
  · intro a notInode notData notBitmap notCount notTotal
    unfold Disk.link Disk.markBlock
    rw [Disk.set_of_ne _ notInode]
    rw [Disk.mark_of_ne (notBitmap _) (notCount _) notTotal]
    exact grown.other a notInode notData notBitmap notCount notTotal
  · intro o outside
    unfold Disk.link Bytes.putU32
    rw [Disk.set_self]
    rw [Bytes.get_put_outside _ (by omega)]
    exact grown.inode o (by omega)
  · intro k lower upper
    by_cases here : k = n
    · subst here
      rw [slotNew]
      exact ⟨data, clear₀⟩
    · rw [slotOld k here]
      exact grown.fresh k lower (by omega)
  · intro k l lower upper lower' upper' same
    by_cases here : k = n
    · by_cases there : l = n
      · rw [here, there]
      · rw [here, slotNew, slotOld l there] at same
        exact absurd same.symm (taken l lower' (by omega))
    · by_cases there : l = n
      · rw [there, slotNew, slotOld k here] at same
        exact absurd same (taken k lower (by omega))
      · rw [slotOld k here, slotOld l there] at same
        exact grown.distinct k l lower (by omega) lower' (by omega) same
  · intro x has
    rw [Disk.blockUsed_link data.1 has]
    constructor
    · intro used
      by_cases new : x = b
      · exact .inr ⟨n, by omega, by omega, by rw [slotNew, new]⟩
      · rw [if_neg new, grown.used x has] at used
        rcases used with used | ⟨k, lower, upper, slot⟩
        · exact .inl used
        · exact .inr ⟨k, lower, by omega, by rw [slotOld k (by omega), slot]⟩
    · rintro (used | ⟨k, lower, upper, slot⟩)
      · rw [(grown.used x has).mpr (.inl used)]
        exact ite_self true
      · by_cases here : k = n
        · rw [here, slotNew] at slot
          rw [if_pos slot.symm]
        · rw [slotOld k here] at slot
          rw [(grown.used x has).mpr (.inr ⟨k, lower, by omega, slot⟩)]
          exact ite_self true
  · intro x notSlot
    unfold Disk.link
    rw [Disk.set_of_ne _ (by simp), Disk.markBlock_data]
    refine grown.data x fun k lower upper => ?_
    rw [← slotOld k (by omega)]
    exact notSlot k lower (by omega)
  · refine Disk.blockCounts_set (grown.counts.mark G.wf true data.1 clear ?_ ?_) (by simp) (by simp)
      (by simp)
    · simp only [moved, ↓reduceIte]
      omega
    · simp only [moved, ↓reduceIte]
      omega
  · have : (m.link G.layout ino n b).freeBlocks = m.freeBlocks - 1 := by
      have moved' := Disk.freeBlocks_markBlock (L := G.layout) (m := m) (b := b)
        (show moved true m.freeBlocks < 2 ^ 32 by simp only [moved, ↓reduceIte]; omega)
      simp only [moved, ↓reduceIte] at moved'
      rw [← moved']
      unfold Disk.freeBlocks Disk.link
      rw [Disk.set_of_ne _ (by simp)]
    rw [this]
    omega
  · intro zero a notInode notOld
    rw [show n + 1 - n₀ = (n - n₀) + 1 by omega]
    unfold Disk.releaseFrom
    rw [show n₀ + (n - n₀) = n by omega, ← grown.undo zero a notInode notOld]
    refine Disk.releaseFrom_congr _ notInode ?_ ?_
    · refine Disk.release_link grown.counts G.wf data.1 (G.dataBlock_ne_zero data) clear ?_ a notInode
      rw [grown.data b fun k lower upper => ?_]
      · exact zero b data clear₀
      · by_cases new : n₀ ≤ k
        · exact taken k new upper
        · rw [grown.slot_lower (by omega)]
          rintro rfl
          have used := old k (by omega) (G.dataBlock_ne_zero data)
          exact Bool.noConfusion (used.symm.trans clear₀)
    · intro k small
      rw [Disk.slot_release, if_neg (by omega), slotOld k (by omega)]

theorem write (pos : 0 < n) (inside : o + len ≤ G.layout.blockSize) :
    Grown G m₀ (m.set (.data (m.slot ino (n - 1)))
      ((m (.data (m.slot ino (n - 1)))).put o len f)) ino n₀ n := by
  have slots : ∀ k, (m.set (.data (m.slot ino (n - 1)))
      ((m (.data (m.slot ino (n - 1)))).put o len f)).slot ino k = m.slot ino k := by
    intro k
    unfold Disk.slot
    rw [Disk.set_of_ne _ (by simp)]
  have bits : ∀ x, (m.set (.data (m.slot ino (n - 1)))
      ((m (.data (m.slot ino (n - 1)))).put o len f)).blockUsed G.layout x =
      m.blockUsed G.layout x := by
    intro x
    unfold Disk.blockUsed Disk.bitOf
    rw [Disk.set_of_ne _ (by simp)]
  refine ⟨grown.le, grown.few, ?_, ?_, ?_, ?_, ?_, ?_, ?_, ?_, ?_⟩
  · intro a notInode notData notBitmap notCount notTotal
    rw [Disk.set_of_ne _ (notData _)]
    exact grown.other a notInode notData notBitmap notCount notTotal
  · intro o outside
    rw [Disk.set_of_ne _ (by simp)]
    exact grown.inode o outside
  · intro k lower upper
    rw [slots]
    exact grown.fresh k lower upper
  · intro k l lower upper lower' upper'
    rw [slots, slots]
    exact grown.distinct k l lower upper lower' upper'
  · intro x has
    simp only [bits, slots]
    exact grown.used x has
  · intro x notSlot
    have le := grown.le
    have other : x ≠ m.slot ino (n - 1) := by
      rintro rfl
      exact notSlot (n - 1) (by omega) (by omega) (slots _)
    rw [Disk.set_of_ne _ (by simpa using other)]
    refine grown.data x fun k lower upper => ?_
    rw [← slots k]
    exact notSlot k lower upper
  · exact Disk.blockCounts_set grown.counts (by simp) (by simp) (by simp)
  · have : (m.set (.data (m.slot ino (n - 1)))
      ((m (.data (m.slot ino (n - 1)))).put o len f)).freeBlocks = m.freeBlocks := by
      unfold Disk.freeBlocks
      rw [Disk.set_of_ne _ (by simp)]
    rw [this]
    exact grown.free
  · intro zero a notInode notOld
    rw [← grown.undo zero a notInode notOld]
    by_cases new : n = n₀
    · subst new
      rw [Nat.sub_self]
      refine Disk.set_of_ne _ ?_
      rw [grown.slot_lower (by omega)]
      exact notOld _ (by omega)
    have le := grown.le
    obtain ⟨c, count⟩ : ∃ c, n - n₀ = c + 1 := ⟨n - n₀ - 1, by omega⟩
    rw [count]
    unfold Disk.releaseFrom
    rw [show n₀ + c = n - 1 by omega]
    have nonzero := G.dataBlock_ne_zero (grown.fresh (n - 1) (by omega) (by omega)).1
    rw [Disk.release_write nonzero inside]

end Grown

section Append

variable {G : Geometry} {base image : Bytes} {m₀ m : Disk} {ino n₀ n : Nat}

/-- What growing a file needs of the image before: the blocks it has are data blocks in use,
and so is every block of the metadata. -/
structure Growable (G : Geometry) (m₀ : Disk) (ino n₀ : Nat) : Prop where
  has : G.layout.HasInode ino
  data : ∀ k < n₀, m₀.slot ino k ≠ 0 → G.DataBlock (m₀.slot ino k)
  used : ∀ k < n₀, m₀.slot ino k ≠ 0 → m₀.blockUsed G.layout (m₀.slot ino k) = true
  metaUsed : ∀ b, G.layout.HasBlock b → G.Meta b → m₀.blockUsed G.layout b = true

theorem Disk.BlockCounts.none_free (counts : m.BlockCounts G.layout)
    (full : ∀ b, G.layout.HasBlock b → m.blockUsed G.layout b = true) : m.freeBlocks = 0 := by
  rw [counts.total, Nat.count_eq_card_filter_range, Finset.card_eq_zero, Finset.filter_eq_empty_iff]
  intro j inside
  have := Finset.mem_range.mp inside
  rw [full _ ⟨by omega, by omega⟩]
  simp

/-- What a round of `append_to_file` needs when the file has `size` bytes: the last block is
there unless it is full. -/
structure Appendable (G : Geometry) (m : Disk) (ino size : Nat) : Prop where
  has : G.layout.HasInode ino
  counts : m.BlockCounts G.layout
  metaUsed : ∀ b, G.layout.HasBlock b → G.Meta b → m.blockUsed G.layout b = true
  tail : size % G.layout.blockSize ≠ 0 → G.DataBlock (m.slot ino (size / G.layout.blockSize))

/-- Block `b` takes the next byte of the file: a free one at a block boundary, and the last
one of the file otherwise. -/
structure Takes (G : Geometry) (m : Disk) (ino size b : Nat) : Prop where
  room : size / G.layout.blockSize < directBlockCount
  data : G.DataBlock b
  fresh : size % G.layout.blockSize = 0 → m.blockUsed G.layout b = false
  tail : size % G.layout.blockSize ≠ 0 → m.slot ino (size / G.layout.blockSize) = b

/-- There is no block for the next byte of a file of `size` bytes. -/
def NoBlock (G : Geometry) (m : Disk) (size : Nat) : Prop :=
  directBlockCount ≤ size / G.layout.blockSize ∨
    size % G.layout.blockSize = 0 ∧ m.freeBlocks = 0

/-- At a block boundary block `b` is linked. -/
def Disk.nextBlock (L : Layout) (m : Disk) (ino size b : Nat) : Disk :=
  if size % L.blockSize = 0 then m.link L ino (size / L.blockSize) b else m

/-- A round of the loop of `append_to_file`: `part` goes behind the first `size` bytes. -/
def Disk.appendRound (L : Layout) (m : Disk) (ino size b : Nat) (part : List UInt8) : Disk :=
  (m.nextBlock L ino size b).set (.data b) (((m.nextBlock L ino size b) (.data b)).put
    (size % L.blockSize) part.length fun k => part.getD k 0)

theorem divCeil_of_block {size take bs : Nat} (pos : 0 < take) (inside : size % bs + take ≤ bs) :
    divCeil (size + take) bs = size / bs + 1 := by
  have sizePos : 0 < bs := by omega
  have split := Nat.div_add_mod size bs
  apply Nat.le_antisymm
  · rw [divCeil_le_iff sizePos, Nat.add_mul, Nat.mul_comm]
    omega
  · rw [Nat.succ_le_iff, lt_divCeil_iff sizePos, Nat.mul_comm]
    omega

theorem divCeil_of_tail {size bs : Nat} (pos : 0 < bs) (inside : size % bs ≠ 0) :
    divCeil size bs = size / bs + 1 := by
  have split := Nat.div_add_mod size bs
  have tail := Nat.mod_lt size pos
  apply Nat.le_antisymm
  · rw [divCeil_le_iff pos, Nat.add_mul, Nat.mul_comm]
    omega
  · rw [Nat.succ_le_iff, lt_divCeil_iff pos, Nat.mul_comm]
    omega

theorem div_of_block {size take bs : Nat} (inside : size % bs + take < bs) :
    (size + take) / bs = size / bs := by
  have split := Nat.div_add_mod size bs
  apply Nat.div_eq_of_lt_le
  · rw [Nat.mul_comm]
    omega
  · rw [Nat.add_mul, Nat.mul_comm (size / bs)]
    omega

section Round

variable {size b : Nat} {part : List UInt8}

theorem Disk.slot_appendRound (small : b < 2 ^ 32) :
    (m.appendRound G.layout ino size b part).slot ino k =
      if size % G.layout.blockSize = 0 ∧ k = size / G.layout.blockSize then b
      else m.slot ino k := by
  have data : (m.appendRound G.layout ino size b part).slot ino k =
      (m.nextBlock G.layout ino size b).slot ino k := by
    unfold Disk.slot Disk.appendRound
    rw [Disk.set_of_ne _ (by simp)]
  rw [data]
  unfold Disk.nextBlock
  by_cases boundary : size % G.layout.blockSize = 0
  · rw [if_pos boundary, Disk.slot_link small]
    simp [boundary]
  · simp [boundary]

theorem Disk.blockUsed_appendRound (has : G.layout.HasBlock b) {x : Nat}
    (hasX : G.layout.HasBlock x) :
    (m.appendRound G.layout ino size b part).blockUsed G.layout x =
      if size % G.layout.blockSize = 0 ∧ x = b then true else m.blockUsed G.layout x := by
  have data : (m.appendRound G.layout ino size b part).blockUsed G.layout x =
      (m.nextBlock G.layout ino size b).blockUsed G.layout x := by
    unfold Disk.blockUsed Disk.bitOf Disk.appendRound
    rw [Disk.set_of_ne _ (by simp)]
  rw [data]
  unfold Disk.nextBlock
  by_cases boundary : size % G.layout.blockSize = 0
  · rw [if_pos boundary, Disk.blockUsed_link has hasX]
    simp [boundary]
  · simp [boundary]

theorem Takes.slot (takes : Takes G m ino size b) :
    (m.appendRound G.layout ino size b part).slot ino (size / G.layout.blockSize) = b := by
  have small : b < 2 ^ 32 := Nat.lt_trans takes.data.1.2 G.wf.blocksCount_lt
  rw [Disk.slot_appendRound small]
  by_cases boundary : size % G.layout.blockSize = 0
  · rw [if_pos ⟨boundary, rfl⟩]
  · rw [if_neg (by simp [boundary]), takes.tail boundary]

theorem Disk.BlockCounts.nextBlock (counts : m.BlockCounts G.layout)
    (takes : Takes G m ino size b) :
    (m.nextBlock G.layout ino size b).BlockCounts G.layout := by
  unfold Disk.nextBlock
  by_cases boundary : size % G.layout.blockSize = 0
  · have totalPos := counts.total_pos takes.data.1 (takes.fresh boundary)
    have totalLt : m.freeBlocks < 2 ^ 32 := (m _).u32_lt _
    have groupLt : m.groupFreeBlocks (G.layout.blockGroup b) < 2 ^ 16 := (m _).u16_lt _
    rw [if_pos boundary]
    refine Disk.blockCounts_set (counts.mark G.wf true takes.data.1 (takes.fresh boundary) ?_ ?_)
      (by simp) (by simp) (by simp)
    · simp only [moved, ↓reduceIte]
      omega
    · simp only [moved, ↓reduceIte]
      omega
  · rw [if_neg boundary]
    exact counts

theorem Appendable.next (ready : Appendable G m ino size) (part : List UInt8) (takes : Takes G m ino size b)
    (inside : size % G.layout.blockSize + part.length ≤ G.layout.blockSize) :
    Appendable G (m.appendRound G.layout ino size b part) ino (size + part.length) where
  has := ready.has
  counts := by
    unfold Disk.appendRound
    exact Disk.blockCounts_set (ready.counts.nextBlock takes) (by simp) (by simp) (by simp)
  metaUsed x has isMeta := by
    rw [Disk.blockUsed_appendRound takes.data.1 has, ready.metaUsed x has isMeta]
    exact ite_self true
  tail open' := by
    have sizePos := G.wf.blockSize_pos
    by_cases full : size % G.layout.blockSize + part.length = G.layout.blockSize
    · rw [Nat.add_mod] at open'
      have tailLt := Nat.mod_lt size sizePos
      by_cases whole : part.length = G.layout.blockSize
      · have zero : size % G.layout.blockSize = 0 := by omega
        rw [zero, whole, Nat.mod_self] at open'
        simp at open'
      · rw [Nat.mod_eq_of_lt (show part.length < G.layout.blockSize by omega), full,
          Nat.mod_self] at open'
        exact absurd rfl open'
    · rw [div_of_block (by omega), takes.slot]
      exact takes.data

end Round

theorem blockForAppend_wp (shows : G.Shows base image m) {size : Nat}
    (ready : Appendable G m ino size) (room : size / G.layout.blockSize < directBlockCount) :
    Wp (blockForAppend G.layout
        (iBlockSlot (G.areaPos (.inode ino)) (size / G.layout.blockSize))
        (size % G.layout.blockSize)) image
      (fun b after => Takes G m ino size b ∧ G.Shows base after (m.nextBlock G.layout ino size b))
      (fun e after => e = .full ∧ after = image ∧ NoBlock G m size) := by
  have has := ready.has
  have slotEnd := inode_end_le shows has
  have sizeGe := G.wf.inodeSize_ge_128
  have small : size / G.layout.blockSize < 15 := Nat.lt_trans room (by decide)
  have slotLe : iBlockSlot (G.areaPos (.inode ino)) (size / G.layout.blockSize) + 4 ≤ image.len := by
    unfold iBlockSlot
    omega
  unfold blockForAppend Disk.nextBlock
  by_cases boundary : size % G.layout.blockSize = 0
  · simp only [if_pos boundary]
    rw [Exec.wp_bind]
    refine (allocateBlock_wp shows ready.counts).mono ?_ ?_
    · rintro b middle - ⟨hasBlock, clear, shows'⟩
      have notMeta : ¬ G.Meta b := by
        intro isMeta
        exact Bool.noConfusion ((ready.metaUsed b hasBlock isMeta).symm.trans clear)
      have data : G.DataBlock b := ⟨hasBlock, notMeta⟩
      unfold storeU32
      rw [Exec.wp_bind, wp_store, Exec.wp_pure]
      have len : middle.len = image.len := shows'.holds.len.trans shows.holds.len.symm
      refine ⟨by omega, ⟨room, data, fun _ => clear, fun inside => absurd boundary inside⟩, ?_⟩
      have stored := shows'.put (a := .inode ino) (o := 40 + size / G.layout.blockSize * 4) (n := 4)
        (leByte b) has (by simp only [Geometry.areaLen]; omega)
      rw [Disk.markBlock_inode] at stored
      unfold iBlockSlot
      rw [Nat.add_assoc]
      exact stored
    · rintro e after - ⟨rfl, rfl, full⟩
      exact ⟨rfl, rfl, .inr ⟨boundary, ready.counts.none_free full⟩⟩
  · simp only [if_neg boundary]
    rw [wp_readU32, slot_eq shows has small]
    refine ⟨slotLe, ⟨room, ready.tail boundary, fun here => absurd here boundary, fun _ => rfl⟩, ?_⟩
    exact shows

/-- What the rounds of the loop of `append_to_file` preserve holds when it stops: all bytes
are written, or there is no block for the next one. `old` is the size at the beginning and
`P` speaks of the bytes written so far. -/
theorem appendFrom_induct (old : Nat) {bytes : List UInt8}
    (round : ∀ m written b take, Takes G m ino (old + written) b → 0 < take →
      written + take ≤ bytes.length →
      (old + written) % G.layout.blockSize + take ≤ G.layout.blockSize → P m written →
      P (m.appendRound G.layout ino (old + written) b ((bytes.drop written).take take))
        (written + take)) (fuel : Nat) {written : Nat} (shows : G.Shows base image m)
    (ready : written < bytes.length → Appendable G m ino (old + written)) (start : P m written)
    (within : written ≤ bytes.length) (enough : bytes.length ≤ written + fuel) :
    Wp (appendFrom G.layout (G.areaPos (.inode ino)) bytes fuel written (old + written)) image
      (fun size after => size = old + bytes.length ∧ ∃ m', G.Shows base after m' ∧
        P m' bytes.length)
      (fun e after => e = .full ∧ ∃ m' written', G.Shows base after m' ∧ P m' written' ∧
        written' < bytes.length ∧ NoBlock G m' (old + written')) := by
  have sizePos := G.wf.blockSize_pos
  have sizeLe := G.wf.blockSize_le
  induction fuel generalizing image m written with
  | zero =>
    have done : ¬ written < bytes.length := by omega
    obtain rfl : written = bytes.length := by omega
    rw [show appendFrom G.layout (G.areaPos (.inode ino)) bytes 0 bytes.length
      (old + bytes.length) = pure (old + bytes.length) from if_neg done, Exec.wp_pure]
    exact ⟨rfl, m, shows, start⟩
  | succ fuel ih =>
    unfold appendFrom
    by_cases more : written < bytes.length
    · rw [if_pos more]
      have tailLt := Nat.mod_lt (old + written) sizePos
      have split := Nat.div_add_mod (old + written) G.layout.blockSize
      simp only [Exec.wp_bind, Exec.wp_lift, rem_of_ne (Nat.ne_of_gt sizePos),
        div_of_ne (Nat.ne_of_gt sizePos), Exec.wp_rejectIf]
      refine ⟨_, rfl, _, rfl, fun full => ?_, fun open' => ?_⟩
      · exact ⟨trivial, m, written, shows, start, more, .inl full⟩
      rw [Nat.not_le] at open'
      refine (blockForAppend_wp shows (ready more) open').mono ?_ ?_
      · rintro block middle - ⟨takes, shows'⟩
        have blockEnd : block * G.layout.blockSize + G.layout.blockSize ≤ middle.len :=
          shows'.area_le (a := .data block) takes.data
        have blockLt : block < 2 ^ 32 := Nat.lt_trans takes.data.1.2 G.wf.blocksCount_lt
        simp only [sub_of_le (Nat.le_of_lt tailLt), Exec.wp_read, Layout.blockAt_of_lt G.wf blockLt,
          Result.sat_ok, wp_imageLen]
        refine ⟨_, rfl, fun short => by omega, fun _ => ?_⟩
        -- The bytes of this round stay inside the block.
        generalize takeEq : min (G.layout.blockSize - (old + written) % G.layout.blockSize)
          (bytes.length - written) = take
        have takePos : 0 < take := by omega
        have inside : (old + written) % G.layout.blockSize + take ≤ G.layout.blockSize := by omega
        have takeLen : (List.take take (List.drop written bytes)).length = take := by
          rw [List.length_take, List.length_drop]
          omega
        have sizeLt : old + written + take < 2 ^ 32 := by
          have few : divCeil (old + written + take) G.layout.blockSize ≤ directBlockCount := by
            rw [divCeil_of_block takePos inside]
            omega
          rw [divCeil_le_iff sizePos] at few
          have : directBlockCount * G.layout.blockSize ≤ 12 * 65536 := Nat.mul_le_mul_left _ sizeLe
          omega
        unfold storeList
        rw [wp_store, takeLen]
        refine ⟨by omega, _, add32_of_lt sizeLt, ?_⟩
        have stored := shows'.put (a := .data block) (o := (old + written) % G.layout.blockSize)
          (n := take) (fun k => (List.take take (List.drop written bytes)).getD k 0) takes.data inside
        have next := (ready more).next (List.take take (List.drop written bytes)) takes
          (by omega)
        have kept := round m written block take takes takePos (by omega) inside start
        unfold Disk.appendRound at next kept
        rw [takeLen] at next kept
        rw [Nat.add_assoc] at next ⊢
        exact ih stored (fun _ => next) kept (by omega) (by omega)
      · rintro e after - ⟨rfl, rfl, full⟩
        exact ⟨rfl, m, written, shows, start, more, full⟩
    · obtain rfl : written = bytes.length := by omega
      rw [if_neg more, Exec.wp_pure]
      exact ⟨rfl, m, shows, start⟩

/-- How the loop of `append_to_file` can be stopped: `n` blocks are too few for `size` bytes,
and there is no slot or no block for one more. -/
def Stopped (G : Geometry) (m : Disk) (n size : Nat) : Prop :=
  n < divCeil size G.layout.blockSize ∧ (n = directBlockCount ∨ m.freeBlocks = 0)

theorem Grown.round {size b : Nat} (part : List UInt8) (growable : Growable G m₀ ino n₀)
    (grown : Grown G m₀ m ino n₀ (divCeil size G.layout.blockSize)) (takes : Takes G m ino size b)
    (pos : 0 < part.length)
    (inside : size % G.layout.blockSize + part.length ≤ G.layout.blockSize) :
    Grown G m₀ (m.appendRound G.layout ino size b part) ino n₀
      (divCeil (size + part.length) G.layout.blockSize) := by
  have sizePos := G.wf.blockSize_pos
  have linked : Grown G m₀ (m.nextBlock G.layout ino size b) ino n₀
      (size / G.layout.blockSize + 1) ∧
      (m.nextBlock G.layout ino size b).slot ino (size / G.layout.blockSize) = b := by
    unfold Disk.nextBlock
    by_cases boundary : size % G.layout.blockSize = 0
    · rw [divCeil_eq_div sizePos (Nat.dvd_of_mod_eq_zero boundary)] at grown
      rw [if_pos boundary]
      refine ⟨grown.link takes.room takes.data (takes.fresh boundary) growable.used, ?_⟩
      rw [Disk.slot_link (Nat.lt_trans takes.data.1.2 G.wf.blocksCount_lt), if_pos rfl]
    · rw [divCeil_of_tail sizePos boundary] at grown
      rw [if_neg boundary]
      exact ⟨grown, takes.tail boundary⟩
  have next := linked.1.write (Nat.succ_pos _) (f := fun k => part.getD k 0) inside
  rw [Nat.add_sub_cancel, linked.2] at next
  rw [divCeil_of_block pos inside]
  exact next

theorem NoBlock.stopped {size : Nat} (more : Nat) (stop : NoBlock G m size) (pos : 0 < more)
    (few : divCeil size G.layout.blockSize ≤ directBlockCount) :
    Stopped G m (divCeil size G.layout.blockSize) (size + more) := by
  have sizePos := G.wf.blockSize_pos
  have split := Nat.div_add_mod size G.layout.blockSize
  have le := (divCeil_le_iff sizePos).mp few
  rcases stop with full | ⟨boundary, free⟩
  · -- All the direct slots are in use: the size is exactly theirs.
    have whole := Nat.mul_le_mul_right G.layout.blockSize full
    rw [Nat.mul_comm (size / _)] at whole
    have blocks : divCeil size G.layout.blockSize = directBlockCount := by
      rw [show size = directBlockCount * G.layout.blockSize by omega, divCeil_mul _ sizePos]
    rw [blocks]
    refine ⟨?_, .inl rfl⟩
    rw [lt_divCeil_iff sizePos]
    omega
  · rw [divCeil_eq_div sizePos (Nat.dvd_of_mod_eq_zero boundary)]
    refine ⟨?_, .inr free⟩
    rw [lt_divCeil_iff sizePos, Nat.mul_comm]
    omega

/-- `append_to_file`, whatever the rounds of its loop preserve: all bytes are written and the
size says so, or there is no block for the next one and the size is still the old one. -/
theorem appendToFile_induct (bytes : List UInt8) (shows : G.Shows base image m)
    (has : G.layout.HasInode ino) (ready : 0 < bytes.length → Appendable G m ino (m.size ino))
    (few : divCeil (m.size ino) G.layout.blockSize ≤ directBlockCount) (start : P m 0)
    (round : ∀ m' written b take, Takes G m' ino (m.size ino + written) b → 0 < take →
      written + take ≤ bytes.length →
      (m.size ino + written) % G.layout.blockSize + take ≤ G.layout.blockSize → P m' written →
      P (m'.appendRound G.layout ino (m.size ino + written) b ((bytes.drop written).take take))
        (written + take)) : let size := m.size ino + bytes.length
    Wp (appendToFile G.layout ino bytes) image
      (fun _ after => ∃ m', P m' bytes.length ∧ G.Shows base after
        (m'.resize ino size (divCeil size G.layout.blockSize * G.layout.sectorsPerBlock)))
      (fun e after => e = .full ∧ ∃ m' written, G.Shows base after m' ∧ P m' written ∧
        written < bytes.length ∧ NoBlock G m' (m.size ino + written)) := by
  intro size
  have slotEnd := inode_end_le shows has
  unfold appendToFile inodeAtOr
  simp only [Exec.wp_bind, Exec.wp_read, shows.inodeAt_of_has has, Result.okOr_ok, Result.sat_ok,
    wp_readU32, size_eq shows has]
  refine ⟨by omega, ?_⟩
  have loop := appendFrom_induct (m.size ino)
    (P := fun m' written => P m' written ∧
      divCeil (m.size ino + written) G.layout.blockSize ≤ directBlockCount)
    (fun m' written b take takes pos within inside kept => by
      refine ⟨round m' written b take takes pos within inside kept.1, ?_⟩
      rw [← Nat.add_assoc, divCeil_of_block pos inside]
      exact takes.room)
    bytes.length shows ready ⟨start, few⟩ (Nat.zero_le _) (by omega)
  refine loop.mono ?_ ?_
  · rintro _ middle - ⟨rfl, m', shows', kept, few'⟩
    have sectorsLt : divCeil size G.layout.blockSize * G.layout.sectorsPerBlock < 2 ^ 32 := by
      have perBlock : G.layout.sectorsPerBlock ≤ 128 := by
        have := G.wf.blockSize_le
        unfold Layout.sectorsPerBlock
        omega
      have : divCeil size G.layout.blockSize * G.layout.sectorsPerBlock ≤ 12 * 128 :=
        Nat.mul_le_mul few' perBlock
      omega
    have stores := resize_wp shows' size (divCeil size G.layout.blockSize * G.layout.sectorsPerBlock)
      has
    simp only [Exec.wp_bind] at stores
    refine stores.mono ?_ (fun _ _ _ h => h.elim)
    intro _ after _ stored
    rw [Exec.wp_lift]
    refine ⟨_, mul32_of_lt sectorsLt, ?_⟩
    exact stored.mono (fun _ _ _ h => ⟨m', kept, h⟩) (fun _ _ _ h => h.elim)
  · rintro e after - ⟨rfl, m', written, shows', kept, more, stop⟩
    exact ⟨rfl, m', written, shows', kept.1, more, stop⟩

theorem Growable.appendable (growable : Growable G m ino (m.fileBlocks G.layout ino))
    (counts : m.BlockCounts G.layout)
    (tail : m.size ino % G.layout.blockSize ≠ 0 →
      m.slot ino (m.size ino / G.layout.blockSize) ≠ 0) : Appendable G m ino (m.size ino) where
  has := growable.has
  counts := counts
  metaUsed := growable.metaUsed
  tail open' := by
    apply growable.data _ _ (tail open')
    unfold Disk.fileBlocks
    rw [divCeil_of_tail G.wf.blockSize_pos open']
    exact Nat.lt_succ_self _

theorem appendToFile_wp (shows : G.Shows base image m)
    (growable : Growable G m ino (m.fileBlocks G.layout ino)) (counts : m.BlockCounts G.layout)
    (few : m.fileBlocks G.layout ino ≤ directBlockCount)
    (tail : m.size ino % G.layout.blockSize ≠ 0 →
      m.slot ino (m.size ino / G.layout.blockSize) ≠ 0) (bytes : List UInt8) :
    let size := m.size ino + bytes.length
    let blocks := divCeil size G.layout.blockSize
    Wp (appendToFile G.layout ino bytes) image
      (fun _ after => ∃ m', Grown G m m' ino (m.fileBlocks G.layout ino) blocks ∧
        G.Shows base after (m'.resize ino size (blocks * G.layout.sectorsPerBlock)))
      (fun e after => e = .full ∧ ∃ m' n, G.Shows base after m' ∧
        Grown G m m' ino (m.fileBlocks G.layout ino) n ∧ Stopped G m' n size) := by
  intro size blocks
  refine (appendToFile_induct _ shows growable.has (fun _ => growable.appendable counts tail) few
    (P := fun m' written => Grown G m m' ino (m.fileBlocks G.layout ino)
      (divCeil (m.size ino + written) G.layout.blockSize))
    (Grown.refl counts few) ?_).mono (fun _ _ _ h => h) ?_
  · intro m' written b take takes pos within inside grown
    have length : (List.take take (List.drop written bytes)).length = take := by
      rw [List.length_take, List.length_drop]
      omega
    have next := grown.round (List.take take (List.drop written bytes)) growable takes
      (by omega) (by omega)
    rwa [length, Nat.add_assoc] at next
  · rintro e after - ⟨rfl, m', written, shows', grown, more, stop⟩
    refine ⟨rfl, m', _, shows', grown, ?_⟩
    have stopped := stop.stopped (bytes.length - written) (by omega) grown.few
    rwa [show m.size ino + written + (bytes.length - written) = size by omega] at stopped

end Append

end Zaytos.Fs
