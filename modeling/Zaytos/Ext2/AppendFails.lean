import Zaytos.Ext2.AppendReads

set_option autoImplicit false

/-! What `append_to_file` leaves behind when it gives up. The blocks it has taken by then stay
taken and linked, so the image is as before only where it could take none and had nothing
new to put into the last block. -/
namespace Zaytos.Fs

open Writer
open Exec (Wp Wlp)

/-- The slots and the free blocks are enough for all of `bytes`. -/
def AppendFits (G : Geometry) (m : Disk) (ino : Nat) (bytes : List UInt8) : Prop :=
  divCeil (m.size ino + bytes.length) G.layout.blockSize ≤
    min directBlockCount (m.fileBlocks G.layout ino + m.freeBlocks)

def NoMore (G : Geometry) (m : Disk) (ino : Nat) : Prop :=
  m.fileBlocks G.layout ino = directBlockCount ∨ m.freeBlocks = 0

/-- What is left of the last block already holds the beginning of `bytes`. -/
def TailHolds (G : Geometry) (m : Disk) (ino : Nat) (bytes : List UInt8) : Prop :=
  ∀ k < bytes.length, m.size ino + k < m.fileBlocks G.layout ino * G.layout.blockSize →
    m.fileByte G.layout ino (m.size ino + k) = bytes.getD k 0

section Fails

variable {G : Geometry} {base image : Bytes} {m m' : Disk} {ino n : Nat} {bytes : List UInt8}

theorem Grown.none_of_self (grown : Grown G m m ino (m.fileBlocks G.layout ino) n) :
    n = m.fileBlocks G.layout ino := by
  by_contra more
  have le := grown.le
  have fresh := grown.fresh (m.fileBlocks G.layout ino) (le_rfl) (by omega)
  have used := (grown.used _ fresh.1.1).mpr (.inr ⟨_, le_rfl, by omega, rfl⟩)
  exact Bool.noConfusion (used.symm.trans fresh.2)

theorem appendRound_byte {written take b : Nat} (takes : Takes G m ino (m.size ino + written) b)
    (inside : (m.size ino + written) % G.layout.blockSize ≠ 0)
    (fits : (m.size ino + written) % G.layout.blockSize + take ≤ G.layout.blockSize)
    (holds : ∀ k < take, m.fileByte G.layout ino (m.size ino + written + k) =
      bytes.getD (written + k) 0) (i : Nat) :
    ((m (.data b)).put ((m.size ino + written) % G.layout.blockSize) take
      fun k => ((bytes.drop written).take take).getD k 0).get i = (m (.data b)).get i := by
  have sizePos := G.wf.blockSize_pos
  have nonzero := G.dataBlock_ne_zero takes.data
  have slot := takes.tail inside
  by_cases touched : (m.size ino + written) % G.layout.blockSize ≤ i ∧
      i < (m.size ino + written) % G.layout.blockSize + take
  · rw [Bytes.get_put_inside _ touched.1 touched.2]
    have byte := holds (i - (m.size ino + written) % G.layout.blockSize) (by omega)
    have split := Nat.div_add_mod (m.size ino + written) G.layout.blockSize
    have place : m.size ino + written + (i - (m.size ino + written) % G.layout.blockSize) =
        G.layout.blockSize * ((m.size ino + written) / G.layout.blockSize) + i := by omega
    have small : i < G.layout.blockSize := by omega
    unfold Disk.fileByte Disk.block at byte
    rw [place, Nat.mul_add_div sizePos, Nat.div_eq_of_lt small, add_zero, Nat.mul_add_mod,
      Nat.mod_eq_of_lt small, slot, if_neg nonzero] at byte
    rw [byte]
    simp only [List.getD_eq_getElem?_getD]
    rw [List.getElem?_take_of_lt (by omega), List.getElem?_drop]
  · rw [Bytes.get_put_outside _ (by omega)]

theorem Disk.appendRound_self {written take b : Nat}
    (takes : Takes G m ino (m.size ino + written) b)
    (inside : (m.size ino + written) % G.layout.blockSize ≠ 0)
    (fits : (m.size ino + written) % G.layout.blockSize + take ≤ G.layout.blockSize)
    (holds : ∀ k < take, m.fileByte G.layout ino (m.size ino + written + k) =
      bytes.getD (written + k) 0) (within : written + take ≤ bytes.length) :
    m.appendRound G.layout ino (m.size ino + written) b ((bytes.drop written).take take) = m := by
  have length : (List.take take (List.drop written bytes)).length = take := by
    rw [List.length_take, List.length_drop]
    omega
  have same : ((m (.data b)).put ((m.size ino + written) % G.layout.blockSize) take
      fun k => ((bytes.drop written).take take).getD k 0) = m (.data b) := by
    refine Bytes.ext_get rfl fun i => ?_
    exact appendRound_byte takes inside fits holds i
  unfold Disk.appendRound Disk.nextBlock
  rw [if_neg inside, length, same, Disk.set_eq_self]

variable (shows : G.Shows base image m) (con : Consistent G m) (live : m.Live G.layout ino)
  (regular : m.IsRegular ino)
include shows con live regular

theorem appendToFile_fits (fits : AppendFits G m ino bytes) :
    RefusesCleanly (appendToFile G.layout ino bytes) image := by
  intro e after run
  have few := (con.shape ino live (.inl regular)).blocks_le
  have spec := appendToFile_wp shows (con.growable live (.inl regular)) con.blockCounts few
    (con.tail_slot live (.inl regular)) bytes
  obtain ⟨-, m', n, -, grown, short, full⟩ := spec.wlp.of_err run
  have le := grown.le
  have free := grown.free
  unfold AppendFits at fits
  rcases full with full | full <;> omega

theorem appendToFile_holds (noMore : NoMore G m ino) (holds : TailHolds G m ino bytes) :
    RefusesCleanly (appendToFile G.layout ino bytes) image := by
  have sizePos := G.wf.blockSize_pos
  have few := (con.shape ino live (.inl regular)).blocks_le
  have growable := con.growable live (.inl regular)
  have tail := con.tail_slot live (.inl regular)
  have most : m.size ino ≤ m.fileBlocks G.layout ino * G.layout.blockSize :=
    (divCeil_le_iff sizePos).mp (le_rfl)
  have spec := appendToFile_induct bytes shows growable.has
    (fun _ => growable.appendable con.blockCounts tail) few
    (P := fun m' written => m' = m ∧
      m.size ino + written ≤ m.fileBlocks G.layout ino * G.layout.blockSize) ⟨rfl, most⟩ ?_
  · intro e after run
    obtain ⟨-, m', written, shows', kept, -⟩ := spec.wlp.of_err run
    obtain ⟨rfl, -⟩ := kept
    exact shows'.holds.unique shows.holds
  · intro m' written b take takes pos within inside kept
    obtain ⟨rfl, before⟩ := kept
    have split := Nat.div_add_mod (m'.size ino + written) G.layout.blockSize
    have room := takes.room
    by_cases boundary : (m'.size ino + written) % G.layout.blockSize = 0
    · -- A block boundary asks for a new block, and there is none.
      exfalso
      rcases noMore with full | none
      · have above : m'.fileBlocks G.layout ino ≤ (m'.size ino + written) / G.layout.blockSize := by
          unfold Disk.fileBlocks
          rw [divCeil_le_iff sizePos, mul_comm]
          omega
        omega
      · have some := con.blockCounts.total_pos takes.data.1 (takes.fresh boundary)
        omega
    · have last : (m'.size ino + written) / G.layout.blockSize + 1 ≤
          m'.fileBlocks G.layout ino := by
        by_contra above
        have whole := Nat.mul_le_mul_right G.layout.blockSize (Nat.le_of_lt_succ (not_le.mp above))
        rw [mul_comm (_ / _)] at whole
        omega
      have blockEnd := Nat.mul_le_mul_right G.layout.blockSize last
      rw [Nat.succ_mul, mul_comm (_ / _)] at blockEnd
      refine ⟨Disk.appendRound_self takes boundary inside (fun k small => ?_) within, by omega⟩
      rw [add_assoc]
      exact holds (written + k) (by omega) (by omega)

theorem appendToFile_dirty (short : ¬ AppendFits G m ino bytes)
    (clean : RefusesCleanly (appendToFile G.layout ino bytes) image) :
    NoMore G m ino ∧ TailHolds G m ino bytes := by
  have sizePos := G.wf.blockSize_pos
  have few := (con.shape ino live (.inl regular)).blocks_le
  have own := con.soundBlocks.ownSlots live few
  have tail := con.tail_slot live (.inl regular)
  have whole : WholeTail G m ino bytes := by
    by_cases boundary : m.size ino % G.layout.blockSize = 0
    · exact .inr (.inl boundary)
    · exact .inr (.inr (tail boundary))
  have spec := appendToFile_filled shows own con.blockCounts few whole
  unfold Wp at spec
  cases run : appendToFile G.layout ino bytes image with
  | fault => rw [run] at spec; exact spec.elim
  | ok u after =>
    rw [run] at spec
    obtain ⟨m', grown, -⟩ := spec
    refine absurd ?_ short
    have most := grown.few
    have free := grown.free
    have le := grown.le
    unfold AppendFits
    omega
  | err e after =>
    rw [run] at spec
    obtain ⟨-, m', written, shows', grown, filled, more, stop⟩ := spec
    obtain rfl := clean e after run
    obtain rfl : m = m' := shows.holds.view.symm.trans shows'.holds.view
    have blocks := grown.none_of_self
    have stopped := stop.stopped 1 Nat.one_pos grown.few
    refine ⟨?_, fun k small below => filled.added k ?_⟩
    · unfold NoMore
      rw [← blocks]
      exact stopped.2
    · -- The loop has stopped at the end of the last block.
      have above := (lt_divCeil_iff sizePos).mp stopped.1
      rw [blocks] at above
      omega

end Fails

/-- On a consistent image an append that is refused leaves the image as it was exactly when
all the bytes have room, so that it is not refused, or when no block can be taken and the
last block holds the bytes already. -/
theorem append_refuses_cleanly_iff {G : Geometry} {image : Bytes} {m : Disk}
    (describes : G.Describes image) (contents : G.carving.view image = m) (con : Consistent G m)
    {ino : Nat} (live : m.Live G.layout ino) (regular : m.IsRegular ino) (bytes : List UInt8) :
    RefusesCleanly (appendToFile G.layout ino bytes) image ↔
      AppendFits G m ino bytes ∨ NoMore G m ino ∧ TailHolds G m ino bytes := by
  have shows := describes.shows
  rw [contents] at shows
  constructor
  · intro clean
    by_cases fits : AppendFits G m ino bytes
    · exact .inl fits
    · exact .inr (appendToFile_dirty shows con live regular fits clean)
  · intro fine
    rcases fine with fits | holds
    · exact appendToFile_fits shows con live regular fits
    · exact appendToFile_holds shows con live regular holds.1 holds.2

theorem sparseImage_view :
    Consistent (smallGeometry 1) ((smallGeometry 1).carving.view (sparseImage 0)) := by
  rw [view_eq_readDisk, sparseImage, Bytes.ofRuns_eq]
  simp only [List.foldr_cons, List.foldr_nil]
  exact Checks.consistent (by decide)

theorem append_refuses_cleanly_byte :
    RefusesCleanly (appendToFile (smallGeometry 1).layout 11 [65]) (sparseImage 0) := by
  obtain ⟨-, live, regular, -, -⟩ := sparseImage_sound 0
  apply (append_refuses_cleanly_iff (sparseImage_describes 0) rfl sparseImage_view live regular
    [65]).mpr
  rw [view_eq_readDisk]
  exact .inl (by unfold AppendFits; decide)

/-- Of the two blocks that 1025 bytes need only one is there: it is taken, filled and linked,
and the call refuses. -/
theorem appendToFile_keeps_block :
    let m : Disk := (smallGeometry 1).carving.view (sparseImage 0)
    ConsistentImage (sparseImage 0) ∧ m.Live (smallGeometry 1).layout 11 ∧ m.IsRegular 11 ∧
    ¬ RefusesCleanly (appendToFile (smallGeometry 1).layout 11 (List.replicate 1025 65))
      (sparseImage 0) := by
  intro m
  obtain ⟨-, live, regular, -, -⟩ := sparseImage_sound 0
  refine ⟨⟨_, sparseImage_describes 0, sparseImage_view⟩, live, regular, fun clean => ?_⟩
  have linked : (match appendToFile (smallGeometry 1).layout 11 (List.replicate 1025 65)
      (sparseImage 0) with
    | .err _ after => decide (after.u32 6440 ≠ (sparseImage 0).u32 6440)
    | _ => false) = true := by decide +kernel
  split at linked
  · rename_i e after run
    exact of_decide_eq_true linked (congrArg (Bytes.u32 · 6440) (clean e after run))
  · cases linked

end Zaytos.Fs
