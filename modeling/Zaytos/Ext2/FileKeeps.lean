import Zaytos.Ext2.RemoveSpec
import Zaytos.Lib.Ownership

set_option autoImplicit false

/-! `append_to_file` and `truncate_to` keep an image consistent. -/
namespace Zaytos.Fs

open Finset

variable {i k b dir o : Nat} {a : Area}

namespace Disk

variable (L : Layout) (m : Disk)

/-- What slot `x.2` of inode `x.1` points to. -/
def points (x : Nat × Nat) : Option Nat :=
  if m.Live L x.1 ∧ x.2 < inodeBlockCount ∧ m.slot x.1 x.2 ≠ 0 then some (m.slot x.1 x.2) else none

variable {L m} {m' : Disk}

theorem points_eq_some : m.points L (i, k) = some b ↔
    m.Live L i ∧ k < inodeBlockCount ∧ m.slot i k ≠ 0 ∧ m.slot i k = b := by
  unfold points
  constructor
  · intro point
    split at point
    · rename_i cond
      exact ⟨cond.1, cond.2.1, cond.2.2, Option.some.inj point⟩
    · cases point
  · rintro ⟨live, small, nonzero, rfl⟩
    exact if_pos ⟨live, small, nonzero⟩

theorem points_eq_none (zero : m.Live L i → m.slot i k = 0) : m.points L (i, k) = none :=
  if_neg fun cond => cond.2.2 (zero cond.1)

theorem points_congr (live : m'.Live L i ↔ m.Live L i)
    (slot : m.Live L i → k < inodeBlockCount → m'.slot i k = m.slot i k) :
    m'.points L (i, k) = m.points L (i, k) := by
  unfold points
  by_cases alive : m.Live L i ∧ k < inodeBlockCount
  · simp only [live, slot alive.1 alive.2]
  · rw [if_neg (by tauto), if_neg (by tauto)]

theorem live_congr {ino : Nat} (bitmap : ∀ g, m' (.inodeBitmap g) = m (.inodeBitmap g)) :
    m'.Live L ino ↔ m.Live L ino := by
  unfold Live inodeUsed bitOf
  rw [bitmap]

theorem shape_congr {ino : Nat} (same : m' (.inode ino) = m (.inode ino))
    (shape : m.FileShape L ino) : m'.FileShape L ino := by
  obtain ⟨few, slots, sectors⟩ := shape
  constructor
  · unfold fileBlocks size at few ⊢
    rwa [same]
  · unfold slot fileBlocks size at slots ⊢
    rwa [same]
  · unfold Disk.sectors fileBlocks size at sectors ⊢
    rwa [same]

theorem refsAt_congr (live : m'.Live L dir ↔ m.Live L dir)
    (kind : m.Live L dir → (m'.IsDir dir ↔ m.IsDir dir))
    (slot : m.Live L dir → m.IsDir dir → m'.slot dir k = m.slot dir k)
    (data : m.Live L dir → m.IsDir dir → m.slot dir k ≠ 0 → m'.block dir k = m.block dir k) :
    m'.refsAt L i dir k = m.refsAt L i dir k := by
  unfold refsAt
  by_cases alive : m.Live L dir
  · by_cases isDir : m.IsDir dir
    · rw [slot alive isDir]
      by_cases zero : m.slot dir k = 0
      · rw [if_neg (by tauto), if_neg (by tauto)]
      · rw [if_pos ⟨live.mpr alive, (kind alive).mpr isDir, zero⟩, if_pos ⟨alive, isDir, zero⟩,
          data alive isDir zero]
    · rw [if_neg fun cond => isDir ((kind alive).mp cond.2.1), if_neg fun cond => isDir cond.2.1]
  · rw [if_neg fun cond => alive (live.mp cond.1), if_neg fun cond => alive cond.1]

theorem refsFrom_congr (same : ∀ k < directBlockCount, m'.refsAt L i dir k = m.refsAt L i dir k) :
    m'.refsFrom L i dir = m.refsFrom L i dir :=
  sum_congr rfl fun k small => same k (mem_range.mp small)

theorem refs_congr (same : ∀ dir, m'.refsFrom L i dir = m.refsFrom L i dir) :
    m'.refs L i = m.refs L i :=
  sum_congr rfl fun dir _ => same dir

end Disk

namespace Consistent

variable {G : Geometry} {m : Disk}

theorem owns (con : Consistent G m) :
    Owns G.DataBlock (fun b => m.blockUsed G.layout b = true) (m.points G.layout) where
  hits x b point := by
    obtain ⟨live, small, nonzero, rfl⟩ := Disk.points_eq_some.mp point
    exact con.slotUsed x.1 live x.2 small nonzero
  inj x y b pointX pointY := by
    obtain ⟨live, small, nonzero, rfl⟩ := Disk.points_eq_some.mp pointX
    obtain ⟨live', small', nonzero', same⟩ := Disk.points_eq_some.mp pointY
    have both := con.slotUnique x.1 y.1 x.2 y.2 live live' small small' nonzero same.symm
    exact Prod.ext both.1 both.2
  onto b data used := by
    obtain ⟨ino, k, live, small, rfl⟩ := con.owned b data used
    exact ⟨(ino, k), Disk.points_eq_some.mpr ⟨live, small, G.dataBlock_ne_zero data, rfl⟩⟩

end Consistent

section Owned

variable {G : Geometry} {m : Disk}
  (owns : Owns G.DataBlock (fun b => m.blockUsed G.layout b = true) (m.points G.layout))
include owns

theorem slotUsed_of_owns : ∀ ino, m.Live G.layout ino → ∀ k < inodeBlockCount, m.slot ino k ≠ 0 →
    G.DataBlock (m.slot ino k) ∧ m.blockUsed G.layout (m.slot ino k) = true :=
  fun ino live k small nonzero =>
    owns.hits (ino, k) _ (Disk.points_eq_some.mpr ⟨live, small, nonzero, rfl⟩)

theorem slotUnique_of_owns : ∀ i j k l, m.Live G.layout i → m.Live G.layout j →
    k < inodeBlockCount → l < inodeBlockCount → m.slot i k ≠ 0 → m.slot i k = m.slot j l →
    i = j ∧ k = l := by
  intro i j k l liveI liveJ smallK smallL nonzero same
  have both := owns.inj (i, k) (j, l) _ (Disk.points_eq_some.mpr ⟨liveI, smallK, nonzero, rfl⟩)
    (Disk.points_eq_some.mpr ⟨liveJ, smallL, same ▸ nonzero, same.symm⟩)
  exact Prod.mk.inj both

theorem owned_of_owns : ∀ b, G.DataBlock b → m.blockUsed G.layout b = true →
    ∃ ino k, m.Live G.layout ino ∧ k < inodeBlockCount ∧ m.slot ino k = b := by
  intro b data used
  obtain ⟨⟨ino, k⟩, point⟩ := owns.onto b data used
  obtain ⟨live, small, -, eq⟩ := Disk.points_eq_some.mp point
  exact ⟨ino, k, live, small, eq⟩

end Owned

/-- From `m` to `m'` one regular file has changed its blocks and its size. -/
structure FileChange (G : Geometry) (m m' : Disk) (ino : Nat) : Prop where
  live : m.Live G.layout ino
  regular : m.IsRegular ino
  inodeBitmap : ∀ g, m' (.inodeBitmap g) = m (.inodeBitmap g)
  groupFreeInodes : ∀ g, m' (.groupFreeInodes g) = m (.groupFreeInodes g)
  freeInodes : m' .freeInodes = m .freeInodes
  usedDirs : ∀ g, m' (.usedDirs g) = m (.usedDirs g)
  other : ∀ i, i ≠ ino → m' (.inode i) = m (.inode i)
  mode : m'.mode ino = m.mode ino
  links : m'.links ino = m.links ino
  sizeHigh : m'.sizeHigh ino = m.sizeHigh ino
  data : ∀ dir k, m.Live G.layout dir → m.IsDir dir → k < inodeBlockCount → m.slot dir k ≠ 0 →
    m' (.data (m.slot dir k)) = m (.data (m.slot dir k))
  counts : m'.BlockCounts G.layout
  metaUsed : ∀ b, G.layout.HasBlock b → G.Meta b → m'.blockUsed G.layout b = true
  owns : Owns G.DataBlock (fun b => m'.blockUsed G.layout b = true) (m'.points G.layout)
  shape : m'.FileShape G.layout ino

namespace FileChange

variable {G : Geometry} {m m' : Disk} {ino : Nat} (change : FileChange G m m' ino)
include change

theorem live_iff (i : Nat) : m'.Live G.layout i ↔ m.Live G.layout i :=
  Disk.live_congr change.inodeBitmap

theorem mode_eq (i : Nat) : m'.mode i = m.mode i := by
  by_cases same : i = ino
  · rw [same, change.mode]
  · unfold Disk.mode
    rw [change.other i same]

theorem isDir_iff (i : Nat) : m'.IsDir i ↔ m.IsDir i := by
  unfold Disk.IsDir
  rw [change.mode_eq]

theorem ne_of_isDir (isDir : m.IsDir dir) : dir ≠ ino := by
  rintro rfl
  have := isDir.symm.trans change.regular
  exact absurd this (by decide)

theorem refs_eq (i : Nat) : m'.refs G.layout i = m.refs G.layout i := by
  refine Disk.refs_congr fun dir => Disk.refsFrom_congr fun k small => ?_
  have slot : m.IsDir dir → m'.slot dir k = m.slot dir k := by
    intro isDir
    unfold Disk.slot
    rw [change.other dir (change.ne_of_isDir isDir)]
  refine Disk.refsAt_congr (change.live_iff dir) (fun _ => change.isDir_iff dir) (fun _ => slot) ?_
  intro live isDir nonzero
  unfold Disk.block
  rw [slot isDir, change.data dir k live isDir (lt_trans small (by decide)) nonzero]

theorem consistent (con : Consistent G m) : Consistent G m' where
  blockCounts := change.counts
  inodeCounts := con.inodeCounts.congr change.inodeBitmap change.groupFreeInodes change.freeInodes
  dirCounts g group := by
    have dirs : m'.usedDirs g = m.usedDirs g := congrArg (Bytes.u16 · 0) (change.usedDirs g)
    rw [dirs, con.dirCounts g group]
    exact count_congr fun j _ => (change.isDir_iff _).symm
  dirLive i has isDir := (change.live_iff i).mpr (con.dirLive i has ((change.isDir_iff i).mp isDir))
  metaUsed := change.metaUsed
  slotUsed := slotUsed_of_owns change.owns
  slotUnique := slotUnique_of_owns change.owns
  owned := owned_of_owns change.owns
  shape i live kind := by
    by_cases same : i = ino
    · rw [same]
      exact change.shape
    · refine Disk.shape_congr (change.other i same) (con.shape i ((change.live_iff i).mp live) ?_)
      unfold Disk.IsRegular Disk.IsDir at kind ⊢
      rwa [change.mode_eq] at kind
  sizeHigh i live regular := by
    by_cases same : i = ino
    · rw [same, change.sizeHigh]
      exact con.sizeHigh ino change.live change.regular
    · unfold Disk.IsRegular at regular
      rw [change.mode_eq] at regular
      have high := con.sizeHigh i ((change.live_iff i).mp live) regular
      unfold Disk.sizeHigh at high ⊢
      rwa [change.other i same]
  dirSize i has isDir := by
    have isDir' := (change.isDir_iff i).mp isDir
    have size := con.dirSize i has isDir'
    unfold Disk.size at size ⊢
    rwa [change.other i (change.ne_of_isDir isDir')]
  dirBlock i has isDir k small := by
    have isDir' := (change.isDir_iff i).mp isDir
    have same := change.other i (change.ne_of_isDir isDir')
    have small' : k < m.fileBlocks G.layout i := by
      unfold Disk.fileBlocks Disk.size at small ⊢
      rwa [same] at small
    have live := con.dirLive i has isDir'
    have few := (con.shape i live (.inr isDir')).blocks_le
    have bound : k < inodeBlockCount := lt_of_lt_of_le small' (le_trans few (by decide))
    obtain ⟨nonzero, -, -⟩ := con.dirData has isDir' small'
    have block : m'.block i k = m.block i k := by
      unfold Disk.block Disk.slot
      rw [same]
      exact change.data i k live isDir' bound nonzero
    have dirBlock := con.dirBlock i has isDir' k small'
    rw [block]
    exact ⟨dirBlock.chain, fun p mem used => (change.live_iff _).mpr (dirBlock.live p mem used)⟩
  links i live := by
    rw [change.refs_eq, ← con.links i ((change.live_iff i).mp live)]
    by_cases same : i = ino
    · rw [same, change.links]
    · unfold Disk.links
      rw [change.other i same]

end FileChange

section Resize

variable {m : Disk} {ino size sectors : Nat}

theorem resize_of_ne (ne : a ≠ .inode ino) : m.resize ino size sectors a = m a :=
  Disk.set_of_ne _ ne

theorem get_resize (outside : o < 4 ∨ 8 ≤ o ∧ o < 28 ∨ 32 ≤ o) :
    (m.resize ino size sectors (.inode ino)).get o = (m (.inode ino)).get o := by
  unfold Disk.resize Bytes.putU32
  rw [Disk.set_self, Bytes.get_put_outside _ (by omega), Bytes.get_put_outside _ (by omega)]

theorem size_resize (small : size < 2 ^ 32) : (m.resize ino size sectors).size ino = size := by
  unfold Disk.size Disk.resize
  rw [Disk.set_self, Bytes.putU32, Bytes.u32_put_outside _ (by omega), Bytes.u32_putU32,
    Nat.mod_eq_of_lt small]

theorem sectors_resize (small : sectors < 2 ^ 32) :
    (m.resize ino size sectors).sectors ino = sectors := by
  unfold Disk.sectors Disk.resize
  rw [Disk.set_self, Bytes.u32_putU32, Nat.mod_eq_of_lt small]

theorem slot_resize : (m.resize ino size sectors).slot i k = m.slot i k := by
  unfold Disk.slot
  by_cases same : i = ino
  · subst same
    have bytes : Bytes.SameOn (m (.inode i)) (m.resize i size sectors (.inode i)) (40 + k * 4) 4 :=
      fun o lower upper => get_resize (by omega)
    exact bytes.u32 (le_rfl) (le_rfl)
  · rw [resize_of_ne (by simpa using same)]

theorem resize_self : m.resize ino (m.size ino) (m.sectors ino) = m := by
  have restored : ((m (.inode ino)).putU32 4 (m.size ino)).putU32 28 (m.sectors ino) = m (.inode ino) := by
    refine Bytes.ext_get rfl fun i => ?_
    unfold Bytes.putU32
    by_cases sectors : 28 ≤ i ∧ i < 32
    · rw [Bytes.get_put_inside _ sectors.1 sectors.2]
      unfold Disk.sectors
      rw [Bytes.leByte_u32 _ _ _ (by omega), show 28 + (i - 28) = i by omega]
    · rw [Bytes.get_put_outside _ (by omega)]
      by_cases size : 4 ≤ i ∧ i < 8
      · rw [Bytes.get_put_inside _ size.1 size.2]
        unfold Disk.size
        rw [Bytes.leByte_u32 _ _ _ (by omega), show 4 + (i - 4) = i by omega]
      · rw [Bytes.get_put_outside _ (by omega)]
  unfold Disk.resize
  rw [restored, Disk.set_eq_self]

end Resize

section Append

variable {G : Geometry} {m m' : Disk} {ino n : Nat}

theorem Consistent.growable (con : Consistent G m) (live : m.Live G.layout ino)
    (kind : m.IsRegular ino ∨ m.IsDir ino) : Growable G m ino (m.fileBlocks G.layout ino) where
  has := live.1
  data k small nonzero := by
    have bound : k < inodeBlockCount :=
      lt_of_lt_of_le small (le_trans (con.shape ino live kind).blocks_le (by decide))
    exact (con.slotUsed ino live k bound nonzero).1
  used k small nonzero := by
    have bound : k < inodeBlockCount :=
      lt_of_lt_of_le small (le_trans (con.shape ino live kind).blocks_le (by decide))
    exact (con.slotUsed ino live k bound nonzero).2
  metaUsed := con.metaUsed

theorem Consistent.tail_slot (con : Consistent G m) (live : m.Live G.layout ino)
    (kind : m.IsRegular ino ∨ m.IsDir ino) (inside : m.size ino % G.layout.blockSize ≠ 0) :
    m.slot ino (m.size ino / G.layout.blockSize) ≠ 0 := by
  have shape := con.shape ino live kind
  have small : m.size ino / G.layout.blockSize < m.fileBlocks G.layout ino := by
    unfold Disk.fileBlocks
    rw [divCeil_of_tail G.wf.blockSize_pos inside]
    exact Nat.lt_succ_self _
  apply (shape.slot_iff _ _).mpr small
  exact lt_of_lt_of_le small (le_trans shape.blocks_le (by decide))

namespace Grown

variable (con : Consistent G m) (live : m.Live G.layout ino) (regular : m.IsRegular ino)
  (grown : Grown G m m' ino (m.fileBlocks G.layout ino) n)
include con live regular grown

theorem slot_ne_zero_iff (small : k < inodeBlockCount) : m'.slot ino k ≠ 0 ↔ k < n := by
  have shape := con.shape ino live (.inl regular)
  have le := grown.le
  by_cases old : k < m.fileBlocks G.layout ino
  · rw [grown.slot_lower old]
    exact iff_of_true ((shape.slot_iff k small).mpr old) (by omega)
  by_cases new : k < n
  · exact iff_of_true (G.dataBlock_ne_zero (grown.fresh k (by omega) new).1) new
  · have same : Bytes.SameOn (m (.inode ino)) (m' (.inode ino)) (40 + k * 4) 4 :=
      fun o lower upper => grown.inode o (.inr (by omega))
    have slot : m'.slot ino k = m.slot ino k := same.u32 (le_rfl) (le_rfl)
    rw [slot, shape.slot_iff k small]
    exact iff_of_false old new

theorem owns : Owns G.DataBlock (fun b => m'.blockUsed G.layout b = true) (m'.points G.layout) := by
  have shape := con.shape ino live (.inl regular)
  have few := grown.few
  have bitmap : ∀ g, m' (.inodeBitmap g) = m (.inodeBitmap g) :=
    fun g => grown.other _ (by simp) (by simp) (by simp) (by simp) (by simp)
  have alive : ∀ i, m'.Live G.layout i ↔ m.Live G.layout i := fun i => Disk.live_congr bitmap
  have live' := (alive ino).mpr live
  have point : ∀ k, m.fileBlocks G.layout ino ≤ k → k < n →
      m'.points G.layout (ino, k) = some (m'.slot ino k) := by
    intro k lower upper
    have bound : k < inodeBlockCount := lt_of_lt_of_le upper (le_trans few (by decide))
    exact Disk.points_eq_some.mpr
      ⟨live', bound, (grown.slot_ne_zero_iff con live regular bound).mpr upper, rfl⟩
  refine con.owns.extend (fun x => x.1 = ino ∧ m.fileBlocks G.layout ino ≤ x.2 ∧ x.2 < n)
    ?_ ?_ ?_ ?_ ?_
  · rintro ⟨i, k⟩ old
    refine Disk.points_congr (alive i) fun _ _ => ?_
    by_cases same : i = ino
    · subst same
      by_cases lower : k < m.fileBlocks G.layout i
      · exact grown.slot_lower lower
      · have bytes : Bytes.SameOn (m (.inode i)) (m' (.inode i)) (40 + k * 4) 4 :=
          fun o above below => grown.inode o (.inr (by omega))
        exact bytes.u32 (le_rfl) (le_rfl)
    · unfold Disk.slot
      rw [grown.other _ (by simpa using same) (by simp) (by simp) (by simp) (by simp)]
  · rintro ⟨i, k⟩ ⟨rfl, lower, upper⟩
    have bound : k < inodeBlockCount := lt_of_lt_of_le upper (le_trans few (by decide))
    refine Disk.points_eq_none fun _ => ?_
    by_contra nonzero
    have := (shape.slot_iff k bound).mp nonzero
    omega
  · rintro ⟨i, k⟩ b ⟨rfl, lower, upper⟩ pointed
    obtain rfl := Option.some.inj ((point k lower upper).symm.trans pointed)
    obtain ⟨data, clear⟩ := grown.fresh k lower upper
    exact ⟨data, by simp [clear]⟩
  · rintro ⟨i, k⟩ ⟨j, l⟩ b ⟨rfl, lower, upper⟩ ⟨rfl, lower', upper'⟩ pointed pointed'
    obtain rfl := Option.some.inj ((point k lower upper).symm.trans pointed)
    have same := Option.some.inj ((point l lower' upper').symm.trans pointed')
    rw [grown.distinct k l lower upper lower' upper' same.symm]
  · intro b data
    rw [grown.used b data.1]
    refine or_congr Iff.rfl ⟨?_, ?_⟩
    · rintro ⟨k, lower, upper, rfl⟩
      exact ⟨(ino, k), ⟨rfl, lower, upper⟩, point k lower upper⟩
    · rintro ⟨⟨i, k⟩, ⟨rfl, lower, upper⟩, pointed⟩
      exact ⟨k, lower, upper, Option.some.inj ((point k lower upper).symm.trans pointed)⟩

theorem fileChange {size : Nat} (blocks : divCeil size G.layout.blockSize = n) :
    FileChange G m (m'.resize ino size (n * G.layout.sectorsPerBlock)) ino := by
  have few := grown.few
  have sizePos := G.wf.blockSize_pos
  have sizeLe := G.wf.blockSize_le
  have sizeLt : size < 2 ^ 32 := by
    have le := (divCeil_le_iff sizePos).mp (le_of_eq blocks)
    have : n * G.layout.blockSize ≤ 12 * 65536 := Nat.mul_le_mul few sizeLe
    omega
  have sectorsLt : n * G.layout.sectorsPerBlock < 2 ^ 32 := by
    have perBlock : G.layout.sectorsPerBlock ≤ 128 := by
      unfold Layout.sectorsPerBlock
      omega
    have : n * G.layout.sectorsPerBlock ≤ 12 * 128 := Nat.mul_le_mul few perBlock
    omega
  have frame : ∀ a, a ≠ .inode ino → (∀ b, a ≠ .data b) → (∀ g, a ≠ .blockBitmap g) →
      (∀ g, a ≠ .groupFreeBlocks g) → a ≠ .freeBlocks →
      m'.resize ino size (n * G.layout.sectorsPerBlock) a = m a :=
    fun a notInode notData notBitmap notCount notTotal =>
      (resize_of_ne notInode).trans (grown.other a notInode notData notBitmap notCount notTotal)
  have bytes : ∀ o, o < 4 ∨ 8 ≤ o ∧ o < 28 ∨ 88 ≤ o →
      (m'.resize ino size (n * G.layout.sectorsPerBlock) (.inode ino)).get o =
        (m (.inode ino)).get o := by
    intro o outside
    rw [get_resize (by omega)]
    simp only [directBlockCount] at few
    exact grown.inode o (by omega)
  have used : ∀ b, (m'.resize ino size (n * G.layout.sectorsPerBlock)).blockUsed G.layout b =
      m'.blockUsed G.layout b := by
    intro b
    unfold Disk.blockUsed Disk.bitOf
    rw [resize_of_ne (by simp)]
  have fileBlocks : (m'.resize ino size (n * G.layout.sectorsPerBlock)).fileBlocks G.layout ino = n := by
    unfold Disk.fileBlocks
    rw [size_resize sizeLt, blocks]
  refine ⟨live, regular, fun g => frame _ (by simp) (by simp) (by simp) (by simp) (by simp),
    fun g => frame _ (by simp) (by simp) (by simp) (by simp) (by simp),
    frame _ (by simp) (by simp) (by simp) (by simp) (by simp),
    fun g => frame _ (by simp) (by simp) (by simp) (by simp) (by simp),
    fun i ne => frame _ (by simpa using ne) (by simp) (by simp) (by simp) (by simp),
    ?_, ?_, ?_, ?_, ?_, ?_, ?_, ?_⟩
  · have same : Bytes.SameOn (m (.inode ino)) _ 0 2 := fun o lower upper => bytes o (by omega)
    exact same.u16 (le_rfl) (le_rfl)
  · have same : Bytes.SameOn (m (.inode ino)) _ 26 2 := fun o lower upper => bytes o (by omega)
    exact same.u16 (le_rfl) (le_rfl)
  · have same : Bytes.SameOn (m (.inode ino)) _ 108 4 := fun o lower upper => bytes o (by omega)
    exact same.u32 (le_rfl) (le_rfl)
  · intro dir k liveDir isDir small nonzero
    have dirNe : dir ≠ ino := by
      rintro rfl
      have := isDir.symm.trans regular
      exact absurd this (by decide)
    obtain ⟨data, isUsed⟩ := con.slotUsed dir liveDir k small nonzero
    rw [resize_of_ne (by simp), grown.data]
    intro l lower upper same
    by_cases new : m.fileBlocks G.layout ino ≤ l
    · have clear := (grown.fresh l new upper).2
      rw [same] at clear
      exact Bool.noConfusion (isUsed.symm.trans clear)
    · rw [grown.slot_lower (by omega)] at same
      exact con.slot_ne liveDir live dirNe small
        (lt_of_lt_of_le upper (le_trans few (by decide))) nonzero same.symm
  · exact grown.counts.congr (fun _ => resize_of_ne (by simp)) (fun _ => resize_of_ne (by simp))
      (resize_of_ne (by simp))
  · intro b has isMeta
    rw [used]
    exact (grown.used b has).mpr (.inl (con.metaUsed b has isMeta))
  · refine (grown.owns con live regular).congr ?_ fun b _ => by rw [used]
    rintro ⟨i, k⟩
    exact Disk.points_congr (Disk.live_congr fun g => resize_of_ne (by simp)) fun _ _ =>
      slot_resize
  · refine ⟨by rw [fileBlocks]; exact few, fun k small => ?_, ?_⟩
    · rw [slot_resize, fileBlocks]
      exact grown.slot_ne_zero_iff con live regular small
    · rw [sectors_resize sectorsLt, fileBlocks]

theorem fileChange_of_none (none : n = m.fileBlocks G.layout ino) : FileChange G m m' ino := by
  have change := grown.fileChange con live regular none.symm
  have size : m'.size ino = m.size ino := by
    have same : Bytes.SameOn (m (.inode ino)) (m' (.inode ino)) 4 4 :=
      fun o lower upper => grown.inode o (by omega)
    exact same.u32 (le_rfl) (le_rfl)
  have sectors : m'.sectors ino = n * G.layout.sectorsPerBlock := by
    have same : Bytes.SameOn (m (.inode ino)) (m' (.inode ino)) 28 4 :=
      fun o lower upper => grown.inode o (by omega)
    have old : m'.sectors ino = m.sectors ino := same.u32 (le_rfl) (le_rfl)
    rw [old, (con.shape ino live (.inl regular)).sectors, none]
  rwa [← size, ← sectors, resize_self] at change

end Grown

end Append

section Truncate

variable {G : Geometry} {m : Disk} {ino target : Nat}

theorem clearTail_of_ne {keep : Nat} (notData : ∀ b, a ≠ .data b) :
    m.clearTail G.layout ino keep target a = m a := by
  unfold Disk.clearTail
  split
  · exact Disk.set_of_ne _ (notData _)
  · rfl

variable (con : Consistent G m) (live : m.Live G.layout ino)
  (kind : m.IsRegular ino ∨ m.IsDir ino) (within : target ≤ m.size ino)

omit con live kind in
include within in
theorem keep_add : divCeil target G.layout.blockSize +
    (m.fileBlocks G.layout ino - divCeil target G.layout.blockSize) =
    m.fileBlocks G.layout ino := by
  have : divCeil target G.layout.blockSize ≤ m.fileBlocks G.layout ino :=
    divCeil_le_of_le G.wf.blockSize_pos within
  omega

omit con live kind in
theorem truncate_of_ne (notInode : a ≠ .inode ino) (notData : ∀ b, a ≠ .data b) :
    m.truncate G.layout ino target a = m.releaseFrom G.layout ino (divCeil target G.layout.blockSize)
      (m.fileBlocks G.layout ino - divCeil target G.layout.blockSize) a := by
  unfold Disk.truncate
  rw [resize_of_ne notInode, clearTail_of_ne notData]

omit con live kind in
include within in
theorem slot_truncate : (m.truncate G.layout ino target).slot i k =
    if i = ino ∧ divCeil target G.layout.blockSize ≤ k ∧ k < m.fileBlocks G.layout ino then 0
    else m.slot i k := by
  unfold Disk.truncate
  have same : ∀ d : Disk, ∀ keep, (d.clearTail G.layout ino keep target).slot i k = d.slot i k := by
    intro d keep
    unfold Disk.slot
    rw [clearTail_of_ne (by simp)]
  rw [slot_resize, same, slot_releaseFrom, keep_add within]

omit con live kind in
include within in
theorem get_truncate_inode (outside : o < 4 ∨ 8 ≤ o ∧ o < 28 ∨ 32 ≤ o ∧ o < 40 ∨
    40 + m.fileBlocks G.layout ino * 4 ≤ o) :
    (m.truncate G.layout ino target (.inode ino)).get o = (m (.inode ino)).get o := by
  have total := keep_add (G := G) within
  unfold Disk.truncate
  rw [get_resize (by omega), clearTail_of_ne (by simp), Disk.get_releaseFrom_inode _ (by omega)]

include con live kind within in
theorem blockUsed_truncate (has : G.layout.HasBlock b) :
    (m.truncate G.layout ino target).blockUsed G.layout b = true ↔
      m.blockUsed G.layout b = true ∧ ∀ k, divCeil target G.layout.blockSize ≤ k →
        k < m.fileBlocks G.layout ino → m.slot ino k ≠ 0 → m.slot ino k ≠ b := by
  have slots := con.slotsUsed live kind
  have total := keep_add (G := G) within
  rw [← total] at slots
  have released := Disk.blockUsed_releaseFrom _ has slots
  rw [total] at released
  rw [← released]
  unfold Disk.blockUsed Disk.bitOf
  rw [truncate_of_ne (by simp) (by simp)]

include con live within in
theorem truncate_fileChange (regular : m.IsRegular ino)
    (spare : m.Spare G.layout ino (divCeil target G.layout.blockSize)
      (m.fileBlocks G.layout ino - divCeil target G.layout.blockSize)) :
    FileChange G m (m.truncate G.layout ino target) ino := by
  have shape := con.shape ino live (.inl regular)
  have few := shape.blocks_le
  have total := keep_add (G := G) within
  have targetLt : target < 2 ^ 32 := lt_of_le_of_lt within ((m _).u32_lt _)
  have keepLe : divCeil target G.layout.blockSize ≤ m.fileBlocks G.layout ino := by omega
  have sectorsLt : divCeil target G.layout.blockSize * G.layout.sectorsPerBlock < 2 ^ 32 := by
    have perBlock : G.layout.sectorsPerBlock ≤ 128 := by
      have := G.wf.blockSize_le
      unfold Layout.sectorsPerBlock
      omega
    have : divCeil target G.layout.blockSize * G.layout.sectorsPerBlock ≤ 12 * 128 :=
      Nat.mul_le_mul (le_trans keepLe few) perBlock
    omega
  have untouched : ∀ a, a ≠ .inode ino → (∀ b, a ≠ .data b) → (∀ g, a ≠ .blockBitmap g) →
      (∀ g, a ≠ .groupFreeBlocks g) → a ≠ .freeBlocks → m.truncate G.layout ino target a = m a :=
    fun a notInode notData notBitmap notCount notTotal =>
      truncate_untouched within ⟨notInode, fun k _ => notData _, notBitmap, notCount, notTotal⟩
  have alive : ∀ i, (m.truncate G.layout ino target).Live G.layout i ↔ m.Live G.layout i :=
    fun i => Disk.live_congr fun g => untouched _ (by simp) (by simp) (by simp) (by simp) (by simp)
  have bytes : ∀ o, o < 4 ∨ 8 ≤ o ∧ o < 28 ∨ 88 ≤ o →
      (m.truncate G.layout ino target (.inode ino)).get o = (m (.inode ino)).get o := by
    intro o outside
    simp only [directBlockCount] at few
    exact get_truncate_inode within (by omega)
  have fileBlocks : (m.truncate G.layout ino target).fileBlocks G.layout ino =
      divCeil target G.layout.blockSize := by
    unfold Disk.fileBlocks Disk.truncate
    rw [size_resize targetLt]
  refine ⟨live, regular, fun g => untouched _ (by simp) (by simp) (by simp) (by simp) (by simp),
    fun g => untouched _ (by simp) (by simp) (by simp) (by simp) (by simp),
    untouched _ (by simp) (by simp) (by simp) (by simp) (by simp),
    fun g => untouched _ (by simp) (by simp) (by simp) (by simp) (by simp),
    fun i ne => untouched _ (by simpa using ne) (by simp) (by simp) (by simp) (by simp),
    ?_, ?_, ?_, ?_, ?_, ?_, ?_, ?_⟩
  · have same : Bytes.SameOn (m (.inode ino)) _ 0 2 := fun o lower upper => bytes o (by omega)
    exact same.u16 (le_rfl) (le_rfl)
  · have same : Bytes.SameOn (m (.inode ino)) _ 26 2 := fun o lower upper => bytes o (by omega)
    exact same.u16 (le_rfl) (le_rfl)
  · have same : Bytes.SameOn (m (.inode ino)) _ 108 4 := fun o lower upper => bytes o (by omega)
    exact same.u32 (le_rfl) (le_rfl)
  · intro dir k liveDir isDir small nonzero
    have dirNe : dir ≠ ino := by
      rintro rfl
      have := isDir.symm.trans regular
      exact absurd this (by decide)
    refine truncate_untouched within ⟨by simp, fun l lt => ?_, by simp, by simp, by simp⟩
    have different := con.slot_ne liveDir live dirNe small
      (lt_of_lt_of_le lt (le_trans few (by decide))) nonzero
    simpa using different
  · have slots := con.slotsUsed live (.inl regular)
    rw [← total] at slots
    refine (Disk.blockCounts_releaseFrom _ con.blockCounts slots spare).congr ?_ ?_ ?_
    · exact fun g => truncate_of_ne (by simp) (by simp)
    · exact fun g => truncate_of_ne (by simp) (by simp)
    · exact truncate_of_ne (by simp) (by simp)
  · intro b has isMeta
    rw [blockUsed_truncate con live (.inl regular) within has]
    refine ⟨con.metaUsed b has isMeta, fun k lower upper nonzero same => ?_⟩
    have data := (con.slotsUsed live (.inl regular)).used k upper nonzero
    rw [same] at data
    exact data.1.2 isMeta
  · refine con.owns.shrink (fun x => x.1 = ino ∧ divCeil target G.layout.blockSize ≤ x.2 ∧
      x.2 < m.fileBlocks G.layout ino) ?_ ?_ ?_
    · rintro ⟨i, k⟩ kept
      refine Disk.points_congr (alive i) fun _ _ => ?_
      rw [slot_truncate within, if_neg kept]
    · rintro ⟨i, k⟩ gone
      refine Disk.points_eq_none fun _ => ?_
      rw [slot_truncate within, if_pos gone]
    · intro b data
      rw [blockUsed_truncate con live (.inl regular) within data.1]
      refine and_congr_right fun _ => ⟨?_, ?_⟩
      · rintro kept ⟨i, k⟩ ⟨rfl, lower, upper⟩ pointed
        obtain ⟨-, -, nonzero, same⟩ := Disk.points_eq_some.mp pointed
        exact kept k lower upper nonzero same
      · intro kept k lower upper nonzero same
        refine kept (ino, k) ⟨rfl, lower, upper⟩ (Disk.points_eq_some.mpr ⟨live, ?_, nonzero, same⟩)
        exact lt_of_lt_of_le upper (le_trans few (by decide))
  · refine ⟨by rw [fileBlocks]; omega, fun k small => ?_, ?_⟩
    · rw [fileBlocks, slot_truncate within]
      have old := shape.slot_iff k small
      by_cases gone : divCeil target G.layout.blockSize ≤ k ∧ k < m.fileBlocks G.layout ino
      · rw [if_pos ⟨rfl, gone⟩]
        exact iff_of_false (by simp) (by omega)
      · rw [if_neg (by tauto), old]
        omega
    · rw [fileBlocks]
      unfold Disk.truncate
      rw [sectors_resize sectorsLt]

end Truncate

end Zaytos.Fs
