import Zaytos.Ext2.DirKeeps

set_option autoImplicit false

/-! `unlink_file` and `remove_directory` keep an image consistent. A directory that goes is a
file first: what it names is no longer counted, then its blocks go, then its name. -/
namespace Zaytos.Fs

open Finset

theorem refs_pos {L : Layout} {m : Disk} {dir k x : Nat} (live : m.Live L dir) (isDir : m.IsDir dir)
    (small : k < directBlockCount) (nonzero : m.slot dir k ≠ 0) (mem : x ∈ m.recordsOf L dir k) :
    0 < m.refs L (recordAt (m.block dir k) x).inode := by
  have here : 0 < m.refsAt L (recordAt (m.block dir k) x).inode dir k := by
    unfold Disk.refsAt refsIn
    rw [if_pos ⟨live, isDir, nonzero⟩, List.countP_pos_iff]
    exact ⟨x, mem, beq_self_eq_true _⟩
  have row : 0 < m.refsFrom L (recordAt (m.block dir k) x).inode dir := by
    have := le_sum_of_mem (f := m.refsAt L (recordAt (m.block dir k) x).inode dir)
      (mem_range.mpr small)
    exact lt_of_lt_of_le here this
  have := le_sum_of_mem (f := m.refsFrom L (recordAt (m.block dir k) x).inode)
    (mem_range.mpr (Nat.lt_succ_of_le live.1.le))
  exact lt_of_lt_of_le row this

/-- From `m` to `m'` the empty file `ino` has gone, and with it its only name, the record at
`q` of block `k` of `dir`. -/
structure Dropped (G : Geometry) (m m' : Disk) (ino dir k : Nat) (l : List Nat) (p q : Nat)
    (r : List Nat) : Prop where
  live : m.Live G.layout ino
  regular : m.IsRegular ino
  empty : m.size ino = 0
  oneLink : m.links ino = 1
  hasDir : G.layout.HasInode dir
  isDir : m.IsDir dir
  block_lt : k < m.fileBlocks G.layout dir
  split : m.recordsOf G.layout dir k = l ++ p :: q :: r
  names : (recordAt (m.block dir k) q).inode = ino
  fits : (recordAt (m.block dir k) p).recLen + (recordAt (m.block dir k) q).recLen < 2 ^ 16
  count_lt : m.groupFreeInodes (G.layout.inodeGroup ino) + 1 < 2 ^ 16
  inodeBitmap : ∀ g, m' (.inodeBitmap g) = m.markInode G.layout ino false (.inodeBitmap g)
  groupFreeInodes : ∀ g,
    m' (.groupFreeInodes g) = m.markInode G.layout ino false (.groupFreeInodes g)
  freeInodes : m' .freeInodes = m.markInode G.layout ino false .freeInodes
  blockBitmap : ∀ g, m' (.blockBitmap g) = m (.blockBitmap g)
  groupFreeBlocks : ∀ g, m' (.groupFreeBlocks g) = m (.groupFreeBlocks g)
  freeBlocks : m' .freeBlocks = m .freeBlocks
  usedDirs : ∀ g, m' (.usedDirs g) = m (.usedDirs g)
  other : ∀ i, i ≠ ino → m' (.inode i) = m (.inode i)
  gone : ¬ m'.IsDir ino
  data : ∀ b, b ≠ m.slot dir k → m' (.data b) = m (.data b)
  merged : m' (.data (m.slot dir k)) = removeAt (m.block dir k) p q

namespace Dropped

variable {G : Geometry} {m m' : Disk} {ino dir k p q : Nat} {l r : List Nat} (con : Consistent G m)
  (down : Dropped G m m' ino dir k l p q r)
include down

theorem live_iff (i : Nat) : m'.Live G.layout i ↔ i ≠ ino ∧ m.Live G.layout i := by
  have bits : G.layout.HasInode i →
      m'.inodeUsed G.layout i = if i = ino then false else m.inodeUsed G.layout i := by
    intro has
    rw [← Disk.inodeUsed_markInode down.live.1 has]
    unfold Disk.inodeUsed Disk.bitOf
    rw [down.inodeBitmap]
  unfold Disk.Live
  constructor
  · rintro ⟨has, used⟩
    rw [bits has] at used
    split at used
    · cases used
    · rename_i ne
      exact ⟨ne, has, used⟩
  · rintro ⟨ne, has, used⟩
    exact ⟨has, by rwa [bits has, if_neg ne]⟩

theorem not_isDir : ¬ m.IsDir ino := by
  intro isDir
  have := isDir.symm.trans down.regular
  exact absurd this (by decide)

theorem dir_ne : dir ≠ ino := by
  rintro rfl
  exact down.not_isDir down.isDir

theorem isDir_iff (i : Nat) : m'.IsDir i ↔ m.IsDir i := by
  by_cases old : i = ino
  · rw [old]
    exact iff_of_false down.gone down.not_isDir
  · unfold Disk.IsDir Disk.mode
    rw [down.other i old]

include con

theorem small : k < directBlockCount :=
  lt_of_lt_of_le down.block_lt
    (con.shape dir (con.dirLive dir down.hasDir down.isDir) (.inr down.isDir)).blocks_le

theorem chain : Chain (m.block dir k) G.layout.blockSize 0 (l ++ p :: q :: r) := by
  have chain := (con.dirBlock dir down.hasDir down.isDir k down.block_lt).chain
  rwa [show positions (m.block dir k) G.layout.blockSize = l ++ p :: q :: r from down.split] at chain

theorem block_eq {i x : Nat} (live : m.Live G.layout i) (ne : i ≠ ino) (within : x < inodeBlockCount)
    (nonzero : m.slot i x ≠ 0) (other : (i, x) ≠ (dir, k)) : m'.block i x = m.block i x := by
  have slot : m'.slot i x = m.slot i x := congrArg (Bytes.u32 · (40 + x * 4)) (down.other i ne)
  unfold Disk.block
  rw [slot, down.data]
  intro same
  have both := con.slotUnique i dir x k live (con.dirLive dir down.hasDir down.isDir) within
    (lt_trans (down.small con) (by decide)) nonzero same
  exact other (by rw [both.1, both.2])

omit con in
theorem block_dir : m'.block dir k = removeAt (m.block dir k) p q := by
  have slot : m'.slot dir k = m.slot dir k :=
    congrArg (Bytes.u32 · (40 + k * 4)) (down.other dir down.dir_ne)
  unfold Disk.block
  rw [slot]
  exact down.merged

theorem refs_eq (i : Nat) : m.refs G.layout i = m'.refs G.layout i + if i = ino then 1 else 0 := by
  have dirLive := con.dirLive dir down.hasDir down.isDir
  have nonzero := (con.dirData down.hasDir down.isDir down.block_lt).1
  have slot : m'.slot dir k = m.slot dir k :=
    congrArg (Bytes.u32 · (40 + k * 4)) (down.other dir down.dir_ne)
  have flip : m'.refs G.layout i + _ = m.refs G.layout i + _ :=
    refs_flip down.hasDir.le (down.small con) ?_
  · have before : m.refsAt G.layout i dir k = refsIn (m.block dir k) G.layout.blockSize i :=
      if_pos ⟨dirLive, down.isDir, nonzero⟩
    have after : m'.refsAt G.layout i dir k =
        refsIn (removeAt (m.block dir k) p q) G.layout.blockSize i := by
      rw [← down.block_dir]
      exact if_pos ⟨(down.live_iff dir).mpr ⟨down.dir_ne, dirLive⟩, (down.isDir_iff dir).mpr down.isDir,
        by rwa [slot]⟩
    have merged := refsIn_removeAt (i := i) (down.chain con) down.fits
    rw [down.names] at merged
    rw [before, after] at flip
    omega
  · intro d x inside ne
    by_cases old : d = ino
    · subst old
      unfold Disk.refsAt
      rw [if_neg fun cond => down.gone cond.2.1, if_neg fun cond => down.not_isDir cond.2.1]
    refine Disk.refsAt_congr ?_ (fun _ => down.isDir_iff d)
      (fun _ _ => congrArg (Bytes.u32 · (40 + x * 4)) (down.other d old)) ?_
    · exact (down.live_iff d).trans (and_iff_right old)
    · intro live isDir nonzero'
      exact down.block_eq con live old (lt_trans inside (by decide)) nonzero' ne

theorem consistent : Consistent G m' := by
  have dirLive := con.dirLive dir down.hasDir down.isDir
  have shape := con.shape ino down.live (.inl down.regular)
  have noBlocks : m.fileBlocks G.layout ino = 0 := by
    unfold Disk.fileBlocks
    rw [down.empty, divCeil_zero G.wf.blockSize_pos]
  have used : ∀ b, m'.blockUsed G.layout b = m.blockUsed G.layout b := by
    intro b
    unfold Disk.blockUsed Disk.bitOf
    rw [down.blockBitmap]
  have owns : Owns G.DataBlock (fun b => m'.blockUsed G.layout b = true) (m'.points G.layout) := by
    refine con.owns.congr ?_ fun b _ => by rw [used]
    rintro ⟨i, x⟩
    by_cases old : i = ino
    · subst old
      have before : m.points G.layout (i, x) = none := by
        refine if_neg fun cond => ?_
        have := (shape.slot_iff x cond.2.1).mp cond.2.2
        omega
      rw [before]
      exact Disk.points_eq_none fun live => absurd rfl ((down.live_iff i).mp live).1
    · exact Disk.points_congr ((down.live_iff i).trans (and_iff_right old)) fun _ _ =>
        congrArg (Bytes.u32 · (40 + x * 4)) (down.other i old)
  -- No record names the file any more.
  have noRefs : m'.refs G.layout ino = 0 := by
    have := down.refs_eq con ino
    have links := con.links ino down.live
    rw [down.oneLink] at links
    rw [if_pos rfl] at this
    omega
  have kept : ∀ i x y, m.Live G.layout i → m.IsDir i → i ≠ ino → x < directBlockCount →
      m.slot i x ≠ 0 → y ∈ m'.recordsOf G.layout i x →
      (recordAt (m'.block i x) y).inode ≠ ino := by
    intro i x y live isDir ne inside nonzero mem names
    have slot : m'.slot i x = m.slot i x := congrArg (Bytes.u32 · (40 + x * 4)) (down.other i ne)
    have pos := refs_pos ((down.live_iff i).mpr ⟨ne, live⟩) ((down.isDir_iff i).mpr isDir) inside
      (by rwa [slot]) mem
    rw [names, noRefs] at pos
    exact absurd pos (lt_irrefl _)
  have totalLt := con.inodeCounts.total_lt G.wf down.live.1 down.live.2
  refine ⟨?_, ?_, ?_, ?_, ?_, slotUsed_of_owns owns, slotUnique_of_owns owns, owned_of_owns owns,
    ?_, ?_, ?_, ?_, ?_⟩
  · exact con.blockCounts.congr down.blockBitmap down.groupFreeBlocks down.freeBlocks
  · exact (con.inodeCounts.mark G.wf false down.live.1 down.live.2 down.count_lt
      totalLt).congr down.inodeBitmap down.groupFreeInodes down.freeInodes
  · intro g inRange
    have dirs : m'.usedDirs g = m.usedDirs g := congrArg (Bytes.u16 · 0) (down.usedDirs g)
    rw [dirs, con.dirCounts g inRange]
    exact count_congr fun j _ => (down.isDir_iff _).symm
  · intro i has isDir
    refine (down.live_iff i).mpr ⟨?_, con.dirLive i has ((down.isDir_iff i).mp isDir)⟩
    rintro rfl
    exact down.gone isDir
  · intro b has isMeta
    rw [used]
    exact con.metaUsed b has isMeta
  · intro i live kind
    obtain ⟨ne, live'⟩ := (down.live_iff i).mp live
    refine Disk.shape_congr (down.other i ne) (con.shape i live' ?_)
    unfold Disk.IsRegular Disk.IsDir Disk.mode at kind ⊢
    rwa [down.other i ne] at kind
  · intro i live regular
    obtain ⟨ne, live'⟩ := (down.live_iff i).mp live
    unfold Disk.IsRegular Disk.mode at regular
    rw [down.other i ne] at regular
    have high := con.sizeHigh i live' regular
    unfold Disk.sizeHigh at high ⊢
    rwa [down.other i ne]
  · intro i has isDir
    have ne : i ≠ ino := by
      rintro rfl
      exact down.gone isDir
    have size := con.dirSize i has ((down.isDir_iff i).mp isDir)
    unfold Disk.size at size ⊢
    rwa [down.other i ne]
  · intro i has isDir x within
    have ne : i ≠ ino := by
      rintro rfl
      exact down.gone isDir
    have isDir' := (down.isDir_iff i).mp isDir
    have within' : x < m.fileBlocks G.layout i := by
      unfold Disk.fileBlocks Disk.size at within ⊢
      rwa [down.other i ne] at within
    have live := con.dirLive i has isDir'
    have inside : x < directBlockCount :=
      lt_of_lt_of_le within' (con.shape i live (.inr isDir')).blocks_le
    have nonzero := (con.dirData has isDir' within').1
    have old := con.dirBlock i has isDir' x within'
    have notGone := kept i x
    by_cases here : (i, x) = (dir, k)
    · obtain ⟨rfl, rfl⟩ := Prod.mk.inj here
      obtain ⟨chain, merged, others⟩ := (down.chain con).remove down.fits
      have block := down.block_dir
      rw [block]
      refine ⟨by rwa [chain.positions_eq], fun y mem named => (down.live_iff _).mpr ⟨?_, ?_⟩⟩
      · have records : y ∈ m'.recordsOf G.layout i x := by
          unfold Disk.recordsOf
          rwa [block]
        have := notGone y live isDir' ne inside nonzero records
        rwa [block] at this
      · rw [chain.positions_eq] at mem
        have oldLive : ∀ y ∈ l ++ p :: q :: r, (recordAt (m.block i x) y).inode ≠ 0 →
            m.Live G.layout (recordAt (m.block i x) y).inode := by
          intro y mem named
          refine old.live y ?_ named
          rwa [show positions (m.block i x) G.layout.blockSize = l ++ p :: q :: r from down.split]
        simp only [List.mem_append, List.mem_cons] at mem
        rcases mem with inLeft | rfl | inRight
        · rw [others y (.inl inLeft)] at named ⊢
          exact oldLive y (by simp [inLeft]) named
        · rw [merged] at named ⊢
          exact oldLive y (by simp) named
        · rw [others y (.inr inRight)] at named ⊢
          exact oldLive y (by simp [inRight]) named
    · have block := down.block_eq con live ne (lt_trans inside (by decide)) nonzero here
      rw [block]
      refine ⟨old.chain, fun y mem named => (down.live_iff _).mpr ⟨?_, old.live y mem named⟩⟩
      have records : y ∈ m'.recordsOf G.layout i x := by
        unfold Disk.recordsOf
        rwa [block]
      have := notGone y live isDir' ne inside nonzero records
      rwa [block] at this
  · intro i live
    obtain ⟨ne, live'⟩ := (down.live_iff i).mp live
    have refs := down.refs_eq con i
    rw [if_neg ne, add_zero] at refs
    rw [← refs, ← con.links i live']
    unfold Disk.links
    rw [down.other i ne]

end Dropped

/-- From `m` to `m'` the directory `ino`, which names its parent once and otherwise at most
itself, has become a file with the same blocks and one name. -/
structure Demoted (G : Geometry) (m m' : Disk) (ino parent : Nat) : Prop
    extends Relinked m m' ino parent (m.links parent - 1) where
  live : m.Live G.layout ino
  isDir : m.IsDir ino
  ne : parent ≠ ino
  links_pos : 0 < m.links ino
  own : ∀ i, m.refsFrom G.layout i ino =
    (if i = parent then 1 else 0) + if i = ino then m.links ino - 1 else 0
  inodeBitmap : ∀ g, m' (.inodeBitmap g) = m (.inodeBitmap g)
  groupFreeInodes : ∀ g, m' (.groupFreeInodes g) = m (.groupFreeInodes g)
  freeInodes : m' .freeInodes = m .freeInodes
  blockBitmap : ∀ g, m' (.blockBitmap g) = m (.blockBitmap g)
  groupFreeBlocks : ∀ g, m' (.groupFreeBlocks g) = m (.groupFreeBlocks g)
  freeBlocks : m' .freeBlocks = m .freeBlocks
  usedDirs : ∀ g, m'.usedDirs g + (if g = G.layout.inodeGroup ino then 1 else 0) = m.usedDirs g
  data : ∀ b, m' (.data b) = m (.data b)
  regular : m'.IsRegular ino
  size : m'.size ino = m.size ino
  sizeHigh : m'.sizeHigh ino = 0
  links : m'.links ino = 1
  sectors : m'.sectors ino = m.sectors ino
  slots : ∀ k < inodeBlockCount, m'.slot ino k = m.slot ino k

namespace Demoted

variable {G : Geometry} {m m' : Disk} {ino parent : Nat} (con : Consistent G m)
  (down : Demoted G m m' ino parent)
include down

theorem live_iff (i : Nat) : m'.Live G.layout i ↔ m.Live G.layout i :=
  Disk.live_congr down.inodeBitmap

theorem slot_all {i k : Nat} (small : k < inodeBlockCount) : m'.slot i k = m.slot i k := by
  by_cases gone : i = ino
  · rw [gone, down.slots k small]
  · exact down.slot_eq gone

theorem block_all {i k : Nat} (small : k < inodeBlockCount) : m'.block i k = m.block i k := by
  unfold Disk.block
  rw [down.slot_all small, down.data]

theorem isDir_iff (i : Nat) : m'.IsDir i ↔ i ≠ ino ∧ m.IsDir i := by
  by_cases gone : i = ino
  · rw [gone]
    refine iff_of_false (fun isDir => ?_) fun both => both.1 rfl
    have := isDir.symm.trans down.regular
    exact absurd this (by decide)
  · unfold Disk.IsDir
    rw [down.mode_eq gone]
    exact (and_iff_right gone).symm

theorem refs_eq (i : Nat) : m'.refs G.layout i + m.refsFrom G.layout i ino = m.refs G.layout i := by
  have flip : m'.refs G.layout i + _ = m.refs G.layout i + _ := refs_flip_row down.live.1.le ?_
  · have after : m'.refsFrom G.layout i ino = 0 :=
      refsFrom_of_not fun both => ((down.isDir_iff ino).mp both.2).1 rfl
    rw [after] at flip
    omega
  · intro dir ne
    refine Disk.refsFrom_congr fun k inside => ?_
    have small : k < inodeBlockCount := lt_trans inside (by decide)
    exact Disk.refsAt_congr (down.live_iff dir)
      (fun _ => (down.isDir_iff dir).trans (and_iff_right ne)) (fun _ _ => down.slot_all small)
      fun _ _ _ => down.block_all small

include con

theorem consistent : Consistent G m' := by
  have used : ∀ b, m'.blockUsed G.layout b = m.blockUsed G.layout b := by
    intro b
    unfold Disk.blockUsed Disk.bitOf
    rw [down.blockBitmap]
  have owns : Owns G.DataBlock (fun b => m'.blockUsed G.layout b = true) (m'.points G.layout) := by
    refine con.owns.congr ?_ fun b _ => by rw [used]
    rintro ⟨i, k⟩
    exact Disk.points_congr (down.live_iff i) fun _ small => down.slot_all small
  refine ⟨?_, ?_, ?_, ?_, ?_, slotUsed_of_owns owns, slotUnique_of_owns owns, owned_of_owns owns,
    ?_, ?_, ?_, ?_, ?_⟩
  · exact con.blockCounts.congr down.blockBitmap down.groupFreeBlocks down.freeBlocks
  · exact con.inodeCounts.congr down.inodeBitmap down.groupFreeInodes down.freeInodes
  · intro g inRange
    have dirs := down.usedDirs g
    rw [con.dirCounts g inRange] at dirs
    have others : ∀ j < G.layout.inodeSpan g, g * G.layout.inodesPerGroup + j + 1 ≠ ino →
        (m'.IsDir (g * G.layout.inodesPerGroup + j + 1) ↔
          m.IsDir (g * G.layout.inodesPerGroup + j + 1)) := by
      intro j _ ne
      exact (down.isDir_iff _).trans (and_iff_right ne)
    split at dirs
    · rename_i same
      have place := Layout.inode_eq down.live.1
      have index := Layout.inodeIndex_lt G.wf down.live.1
      rw [← same] at place index
      have flip := count_flip (p := fun j => m.IsDir (g * G.layout.inodesPerGroup + j + 1))
        (q := fun j => m'.IsDir (g * G.layout.inodesPerGroup + j + 1)) index ?_ ?_
        fun j small ne => (others j small (by omega)).symm
      · omega
      · rw [← place]
        exact down.isDir
      · rw [← place]
        exact fun isDir => ((down.isDir_iff ino).mp isDir).1 rfl
    · rename_i different
      rw [add_zero] at dirs
      rw [dirs]
      refine count_congr fun j small => (others j small ?_).symm
      rintro rfl
      exact different (Layout.hasInode_of G.wf inRange small).2.1.symm
  · intro i has isDir
    exact (down.live_iff i).mpr (con.dirLive i has ((down.isDir_iff i).mp isDir).2)
  · intro b has isMeta
    rw [used]
    exact con.metaUsed b has isMeta
  · intro i live kind
    have live' := (down.live_iff i).mp live
    by_cases gone : i = ino
    · subst gone
      have shape := con.shape i live' (.inr down.isDir)
      have blocks : m'.fileBlocks G.layout i = m.fileBlocks G.layout i := by
        unfold Disk.fileBlocks
        rw [down.size]
      refine ⟨by rw [blocks]; exact shape.blocks_le, fun k small => ?_, ?_⟩
      · rw [down.slots k small, blocks]
        exact shape.slot_iff k small
      · rw [down.sectors, blocks]
        exact shape.sectors
    · refine down.shape_eq gone (con.shape i live' ?_)
      unfold Disk.IsRegular Disk.IsDir at kind ⊢
      rwa [down.mode_eq gone] at kind
  · intro i live regular
    by_cases gone : i = ino
    · rw [gone, down.sizeHigh]
    · rw [down.sizeHigh_eq gone]
      refine con.sizeHigh i ((down.live_iff i).mp live) ?_
      unfold Disk.IsRegular at regular ⊢
      rwa [down.mode_eq gone] at regular
  · intro i has isDir
    obtain ⟨kept, isDir'⟩ := (down.isDir_iff i).mp isDir
    rw [down.size_eq kept]
    exact con.dirSize i has isDir'
  · intro i has isDir k within
    obtain ⟨kept, isDir'⟩ := (down.isDir_iff i).mp isDir
    rw [down.fileBlocks_eq kept] at within
    have old := con.dirBlock i has isDir' k within
    have few := (con.shape i (con.dirLive i has isDir') (.inr isDir')).blocks_le
    rw [down.block_all (lt_of_lt_of_le within (le_trans few (by decide)))]
    exact ⟨old.chain, fun x mem named => (down.live_iff _).mpr (old.live x mem named)⟩
  · intro i live
    have refs := down.refs_eq i
    have old := con.links i ((down.live_iff i).mp live)
    have linksLt : m.links parent < 2 ^ 16 := (m _).u16_lt _
    have parentNe := down.ne
    have pos := down.links_pos
    rw [down.own i] at refs
    by_cases gone : i = ino
    · subst gone
      rw [if_neg parentNe.symm, if_pos rfl] at refs
      rw [down.links]
      omega
    · rw [down.links_eq (by omega) gone]
      rw [if_neg gone] at refs
      split
      · rename_i isParent
        rw [if_pos isParent] at refs
        rw [← isParent]
        omega
      · rename_i notParent
        rw [if_neg notParent] at refs
        omega

end Demoted

section Remove

variable {G : Geometry} {m : Disk} {ino : Nat}

theorem truncate_zero {a : Area} (ne : a ≠ .inode ino) :
    m.truncate G.layout ino 0 a =
      m.releaseFrom G.layout ino 0 (m.fileBlocks G.layout ino) a := by
  unfold Disk.truncate Disk.clearTail
  rw [resize_of_ne ne, divCeil_zero G.wf.blockSize_pos, if_neg fun cond => absurd cond.1 (by omega)]
  rfl

theorem consistent_of_erase {m' : Disk} {dir k p q : Nat} {l r : List Nat} (con : Consistent G m)
    (live : m.Live G.layout ino) (regular : m.IsRegular ino) (oneLink : m.links ino = 1)
    (erasable : m.Erasable G.layout ino) (hasDir : G.layout.HasInode dir) (isDir : m.IsDir dir)
    (block_lt : k < m.fileBlocks G.layout dir)
    (split : m.recordsOf G.layout dir k = l ++ p :: q :: r)
    (names : (recordAt (m.block dir k) q).inode = ino)
    (fits : (recordAt (m.block dir k) p).recLen + (recordAt (m.block dir k) q).recLen < 2 ^ 16)
    (areas : ∀ a, a ≠ .inode ino → m' a = ((m.truncate G.layout ino 0).markInode G.layout ino
      false).removeRecord (m.slot dir k) p q a)
    (gone : ¬ m'.IsDir ino) : Consistent G m' := by
  have zero : divCeil 0 G.layout.blockSize = 0 := divCeil_zero G.wf.blockSize_pos
  have change := truncate_fileChange con live (Nat.zero_le _) regular
    (by rw [zero]; exact erasable.spare)
  have dirNe := change.ne_of_isDir isDir
  have dirInode := change.other dir dirNe
  have slot : (m.truncate G.layout ino 0).slot dir k = m.slot dir k :=
    congrArg (Bytes.u32 · (40 + k * 4)) dirInode
  have blocks : (m.truncate G.layout ino 0).fileBlocks G.layout dir =
      m.fileBlocks G.layout dir := by
    unfold Disk.fileBlocks Disk.size
    rw [dirInode]
  have dirLive := con.dirLive dir hasDir isDir
  have small : k < inodeBlockCount :=
    lt_of_lt_of_le block_lt (le_trans (con.shape dir dirLive (.inr isDir)).blocks_le (by decide))
  have block : (m.truncate G.layout ino 0).block dir k = m.block dir k := by
    unfold Disk.block
    rw [slot, change.data dir k dirLive isDir small (con.dirData hasDir isDir block_lt).1]
  have notData : ∀ a, a ≠ .inode ino → (∀ b, a ≠ .data b) →
      m' a = (m.truncate G.layout ino 0).markInode G.layout ino false a := by
    intro a notInode notData
    rw [areas a notInode]
    exact Disk.set_of_ne _ (notData _)
  have inData : ∀ b, m' (.data b) = if b = m.slot dir k then removeAt (m.block dir k) p q
      else m.truncate G.layout ino 0 (.data b) := by
    intro b
    rw [areas _ (by simp)]
    unfold Disk.removeRecord
    rw [Disk.set_apply, Disk.markInode_data, Disk.markInode_data]
    have same : m.truncate G.layout ino 0 (.data (m.slot dir k)) = m.block dir k := by
      rw [← block, ← slot]
      rfl
    rw [same]
    simp only [Area.data.injEq]
  refine Dropped.consistent (k := k) (l := l) (p := p) (q := q) (r := r)
    (change.consistent con) ⟨(change.live_iff ino).mpr live, ?_, ?_, by rw [change.links, oneLink],
    hasDir, (change.isDir_iff dir).mpr isDir, by rwa [blocks], ?_, by rwa [block], by rwa [block],
    ?_, ?_, ?_, ?_, ?_, ?_, ?_, ?_, ?_, gone, ?_, ?_⟩
  · unfold Disk.IsRegular
    rw [change.mode]
    exact regular
  · unfold Disk.truncate
    exact size_resize (by decide)
  · unfold Disk.recordsOf
    rw [block]
    exact split
  · unfold Disk.groupFreeInodes
    rw [change.groupFreeInodes]
    exact erasable.count_lt
  · exact fun g => notData _ (by simp) (by simp)
  · exact fun g => notData _ (by simp) (by simp)
  · exact notData _ (by simp) (by simp)
  · intro g
    rw [notData _ (by simp) (by simp), Disk.markInode_blockBitmap]
  · intro g
    rw [notData _ (by simp) (by simp), Disk.markInode_groupFreeBlocks]
  · rw [notData _ (by simp) (by simp), Disk.markInode_freeBlocks]
  · intro g
    rw [notData _ (by simp) (by simp), Disk.markInode_usedDirs]
  · intro i ne
    rw [notData _ (by simpa using ne) (by simp), Disk.markInode_inode]
  · intro b ne
    rw [inData, if_neg (by rwa [slot] at ne)]
  · rw [inData, slot, if_pos rfl, block]

theorem erase_of_ne {a : Area} (ne : a ≠ .inode ino) :
    m.erase G.layout ino a = (m.truncate G.layout ino 0).markInode G.layout ino false a :=
  Disk.mark_congr (Disk.set_of_ne _ ne)

theorem not_isDir_of_erase {m' : Disk}
    (same : m' (.inode ino) = m.erase G.layout ino (.inode ino)) : ¬ m'.IsDir ino := by
  have mode : m'.mode ino = 0 := by
    unfold Disk.mode
    rw [same, erase_inode]
    exact u16_clear (le_trans (by omega) G.wf.inodeSize_ge_128)
  unfold Disk.IsDir
  rw [mode]
  decide

theorem unlinkFile_consistent {dir k p q : Nat} {l r : List Nat} {name : List UInt8}
    (con : Consistent G m) (found : Found G m dir name k l p q r)
    (named : ino = (recordAt (m.block dir k) q).inode) (regular : m.IsRegular ino)
    (oneLink : m.links ino = 1) (erasable : m.Erasable G.layout ino)
    (fits : (recordAt (m.block dir k) p).recLen + (recordAt (m.block dir k) q).recLen < 2 ^ 16) :
    Consistent G (m.unlinkFile G.layout ino (m.slot dir k) p q) := by
  have live : m.Live G.layout ino := by
    rw [named]
    exact con.found_live found
  have inode : m.unlinkFile G.layout ino (m.slot dir k) p q (.inode ino) =
      m.erase G.layout ino (.inode ino) := by
    unfold Disk.unlinkFile Disk.removeRecord
    rw [Disk.set_of_ne _ (by simp)]
  refine consistent_of_erase con live regular oneLink erasable found.has found.isDir found.block_lt
    found.split named.symm fits ?_ (not_isDir_of_erase inode)
  intro a notInode
  unfold Disk.unlinkFile Disk.removeRecord
  rw [Disk.set_apply, Disk.set_apply, erase_of_ne notInode, erase_of_ne (by simp)]

/-- The image in which directory `ino` has become a file with one name. -/
def Disk.demote (L : Layout) (m : Disk) (ino parent : Nat) : Disk :=
  ((m.set (.inode ino)
    ((((m (.inode ino)).putU16 0 modeRegular).putU16 26 1).putU32 108 0)).setLinks parent
    (m.links parent - 1)).setUsedDirs (L.inodeGroup ino) (m.usedDirs (L.inodeGroup ino) - 1)

theorem demote_of_ne {parent : Nat} {a : Area} (notInode : ∀ i, a ≠ .inode i)
    (notDirs : ∀ g, a ≠ .usedDirs g) : m.demote G.layout ino parent a = m a := by
  unfold Disk.demote Disk.setUsedDirs Disk.setLinks
  rw [Disk.set_of_ne _ (notDirs _), Disk.set_of_ne _ (notInode _), Disk.set_of_ne _ (notInode _)]

theorem demote_inode {parent : Nat} (ne : parent ≠ ino) :
    m.demote G.layout ino parent (.inode ino) =
      (((m (.inode ino)).putU16 0 modeRegular).putU16 26 1).putU32 108 0 := by
  unfold Disk.demote Disk.setUsedDirs Disk.setLinks
  rw [Disk.set_of_ne _ (by simp), Disk.set_of_ne _ (by simpa using ne.symm), Disk.set_self]

theorem demote_usedDirs {parent g : Nat} : m.demote G.layout ino parent (.usedDirs g) =
    if g = G.layout.inodeGroup ino then (m (.usedDirs g)).putU16 0 (m.usedDirs g - 1)
    else m (.usedDirs g) := by
  unfold Disk.demote Disk.setUsedDirs Disk.setLinks
  rw [Disk.set_apply, Disk.set_of_ne _ (by simp), Disk.set_of_ne _ (by simp),
    Disk.set_of_ne _ (by simp), Disk.set_of_ne _ (by simp)]
  simp only [Area.usedDirs.injEq]
  split
  · rename_i same
    rw [same]
  · rfl

theorem demote_relinked {parent : Nat} (ne : parent ≠ ino) :
    Relinked m (m.demote G.layout ino parent) ino parent (m.links parent - 1) where
  other i notIno notParent := by
    unfold Disk.demote Disk.setUsedDirs Disk.setLinks
    rw [Disk.set_of_ne _ (by simp), Disk.set_of_ne _ (by simpa using notParent),
      Disk.set_of_ne _ (by simpa using notIno)]
  parentInode := by
    unfold Disk.demote Disk.setUsedDirs Disk.setLinks
    rw [Disk.set_of_ne _ (by simp), Disk.set_self, Disk.set_of_ne _ (by simpa using ne)]

theorem u32_demote {parent pos : Nat} (ne : parent ≠ ino)
    (outside : 2 ≤ pos ∧ pos + 4 ≤ 26 ∨ 28 ≤ pos ∧ pos + 4 ≤ 108) :
    (m.demote G.layout ino parent (.inode ino)).u32 pos = (m (.inode ino)).u32 pos := by
  rw [demote_inode ne]
  simp (disch := omega) only [Bytes.putU16, Bytes.putU32, Bytes.u32_put_outside]

theorem slot_demote {parent k : Nat} (ne : parent ≠ ino) (small : k < inodeBlockCount) :
    (m.demote G.layout ino parent).slot ino k = m.slot ino k := by
  simp only [inodeBlockCount] at small
  exact u32_demote ne (by omega)

theorem demote_regular {parent : Nat} (ne : parent ≠ ino) :
    (m.demote G.layout ino parent).IsRegular ino := by
  have mode : (m.demote G.layout ino parent).mode ino = modeRegular := by
    unfold Disk.mode
    rw [demote_inode ne]
    simp (disch := omega) only [Bytes.putU16, Bytes.putU32, Bytes.u16_put_outside,
      Bytes.u16_put_leByte]
    rfl
  unfold Disk.IsRegular
  rw [mode]
  rfl

theorem demote_links {parent : Nat} (ne : parent ≠ ino) :
    (m.demote G.layout ino parent).links ino = 1 := by
  unfold Disk.links
  rw [demote_inode ne]
  simp (disch := omega) only [Bytes.putU16, Bytes.putU32, Bytes.u16_put_outside,
    Bytes.u16_put_leByte]
  rfl

/-- `remove_directory` of a directory that names its parent once and otherwise at most itself
keeps the image consistent. -/
theorem removeDirectory_consistent {parent k p q : Nat} {l r : List Nat} {name : List UInt8}
    (con : Consistent G m) (found : Found G m parent name k l p q r)
    (named : ino = (recordAt (m.block parent k) q).inode) (isDir : m.IsDir ino)
    (own : ∀ i, m.refsFrom G.layout i ino =
      (if i = parent then 1 else 0) + if i = ino then m.links ino - 1 else 0)
    (ready : Removable G m ino parent k p q) :
    Consistent G (m.removeDirectory G.layout ino parent (m.slot parent k) p q) := by
  have live : m.Live G.layout ino := by
    rw [named]
    exact con.found_live found
  have ne := ready.ne
  have parentLive := con.dirLive parent found.has found.isDir
  have few := (con.shape parent parentLive (.inr found.isDir)).blocks_le
  have re : Relinked m (m.demote G.layout ino parent) ino parent _ := demote_relinked ne
  have linksPos : 0 < m.links ino := by
    rw [con.links ino live, named]
    refine refs_pos parentLive found.isDir (lt_of_lt_of_le found.block_lt few)
      (con.dirData found.has found.isDir found.block_lt).1 ?_
    rw [found.split]
    simp
  have dirsPos := con.usedDirs_pos live.1 isDir
  have down : Demoted G m (m.demote G.layout ino parent) ino parent := by
    refine ⟨re, live, isDir, ne, linksPos, own, fun g => demote_of_ne (by simp) (by simp),
      fun g => demote_of_ne (by simp) (by simp), demote_of_ne (by simp) (by simp),
      fun g => demote_of_ne (by simp) (by simp), fun g => demote_of_ne (by simp) (by simp),
      demote_of_ne (by simp) (by simp), ?_, fun b => demote_of_ne (by simp) (by simp),
      demote_regular ne, u32_demote ne (by omega), ?_, demote_links ne, u32_demote ne (by omega),
      fun k small => slot_demote ne small⟩
    · intro g
      unfold Disk.usedDirs
      rw [demote_usedDirs]
      split
      · rename_i same
        have lt : m.usedDirs g < 2 ^ 16 := (m _).u16_lt _
        rw [← same] at dirsPos
        rw [Bytes.u16_putU16, Nat.mod_eq_of_lt (by omega)]
        exact Nat.sub_add_cancel dirsPos
      · rfl
    · unfold Disk.sizeHigh
      rw [demote_inode ne, Bytes.u32_putU32]
      rfl
  have slot : (m.demote G.layout ino parent).slot parent k = m.slot parent k := re.slot_eq ne
  have block : (m.demote G.layout ino parent).block parent k = m.block parent k :=
    down.block_all (lt_of_lt_of_le found.block_lt (le_trans few (by decide)))
  have blocks : (m.demote G.layout ino parent).fileBlocks G.layout ino =
      m.fileBlocks G.layout ino := by
    unfold Disk.fileBlocks
    rw [down.size]
  have blocksLe := (con.shape ino live (.inr isDir)).blocks_le
  have bound : ∀ x, x < 0 + m.fileBlocks G.layout ino → x < inodeBlockCount := fun x small =>
    lt_of_lt_of_le small (by rw [zero_add]; exact le_trans blocksLe (by decide))
  -- The blocks of the directory go in the same way as those of the file.
  have same : ∀ a, (∀ i, a ≠ .inode i) → (∀ g, a ≠ .usedDirs g) →
      m.truncate G.layout ino 0 a = (m.demote G.layout ino parent).truncate G.layout ino 0 a := by
    intro a notInode notDirs
    rw [truncate_zero (notInode _), truncate_zero (notInode _), blocks]
    exact (Disk.releaseFrom_congr _ (notInode _) (demote_of_ne notInode notDirs) fun x small =>
      slot_demote ne (bound x small)).symm
  have erasable : (m.demote G.layout ino parent).Erasable G.layout ino := by
    have old := ready.erasable
    refine ⟨fun g small => ?_, ?_⟩
    · have spare := old.spare g small
      have released : (m.demote G.layout ino parent).releasedIn G.layout ino 0
          (m.fileBlocks G.layout ino) g = m.releasedIn G.layout ino 0 (m.fileBlocks G.layout ino) g := by
        unfold Disk.releasedIn
        refine count_congr fun j inside => ?_
        rw [slot_demote ne (bound _ (by omega))]
      unfold Disk.groupFreeBlocks at spare ⊢
      rwa [blocks, released, demote_of_ne (by simp) (by simp)]
    · have := old.count_lt
      unfold Disk.groupFreeInodes at this ⊢
      rwa [demote_of_ne (by simp) (by simp)]
  have inode : m.removeDirectory G.layout ino parent (m.slot parent k) p q (.inode ino) =
      m.erase G.layout ino (.inode ino) := by
    unfold Disk.removeDirectory Disk.removeRecord Disk.setLinks Disk.setUsedDirs
    rw [Disk.set_of_ne _ (by simp), Disk.set_of_ne _ (by simpa using ne.symm),
      Disk.set_of_ne _ (by simp)]
  have split : (m.demote G.layout ino parent).recordsOf G.layout parent k = l ++ p :: q :: r := by
    unfold Disk.recordsOf
    rw [block]
    exact found.split
  have kept : ∀ {a : Area}, a ≠ .inode ino → (∀ b, a ≠ .data b) → (∀ g, a ≠ .blockBitmap g) →
      (∀ g, a ≠ .groupFreeBlocks g) → a ≠ .freeBlocks →
      (m.demote G.layout ino parent).truncate G.layout ino 0 a = m.demote G.layout ino parent a :=
    fun notInode notData notBitmap notCount notTotal =>
      truncate_untouched (Nat.zero_le _) ⟨notInode, fun _ _ => notData _, notBitmap, notCount, notTotal⟩
  have areas : ∀ a, a ≠ .inode ino →
      (((m.erase G.layout ino).setUsedDirs (G.layout.inodeGroup ino)
        (m.usedDirs (G.layout.inodeGroup ino) - 1)).setLinks parent (m.links parent - 1)) a =
      ((m.demote G.layout ino parent).truncate G.layout ino 0).markInode G.layout ino false a := by
    intro a notInode
    unfold Disk.setLinks Disk.setUsedDirs
    by_cases isInode : ∃ i, a = .inode i
    · obtain ⟨i, rfl⟩ := isInode
      have other : i ≠ ino := by simpa using notInode
      rw [Disk.markInode_inode, kept notInode (by simp) (by simp) (by simp) (by simp), Disk.set_apply,
        Disk.set_of_ne _ (by simp), Disk.set_of_ne _ (by simp), erase_inode_ne ne,
        erase_inode_ne other]
      split
      · rename_i isParent
        obtain rfl : i = parent := by simpa using isParent
        exact re.parentInode.symm
      · rename_i notParent
        exact (re.other i other (by simpa using notParent)).symm
    by_cases isDirs : ∃ g, a = .usedDirs g
    · obtain ⟨g, rfl⟩ := isDirs
      rw [Disk.markInode_usedDirs, kept (by simp) (by simp) (by simp) (by simp) (by simp),
        Disk.set_of_ne _ (by simp), Disk.set_apply, erase_usedDirs, erase_usedDirs, demote_usedDirs]
      simp only [Area.usedDirs.injEq]
      split
      · rename_i here
        rw [here]
      · rfl
    · have notInodes : ∀ i, a ≠ .inode i := fun i eq => isInode ⟨i, eq⟩
      have notDirs : ∀ g, a ≠ .usedDirs g := fun g eq => isDirs ⟨g, eq⟩
      rw [Disk.set_of_ne _ (notInodes _), Disk.set_of_ne _ (notDirs _), erase_of_ne notInode]
      exact Disk.mark_congr (same a notInodes notDirs)
  refine consistent_of_erase (down.consistent con) ((down.live_iff ino).mpr live) down.regular
    down.links erasable found.has ((down.isDir_iff parent).mpr ⟨ne, found.isDir⟩)
    (by rw [re.fileBlocks_eq ne]; exact found.block_lt) split (by rw [block]; exact named.symm)
    (by rw [block]; exact ready.fits) ?_ (not_isDir_of_erase inode)
  intro a notInode
  unfold Disk.removeDirectory Disk.removeRecord
  rw [slot, Disk.set_apply, Disk.set_apply, areas a notInode, areas _ (by simp)]

end Remove

end Zaytos.Fs
