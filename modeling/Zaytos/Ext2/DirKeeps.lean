import Zaytos.Ext2.NameKeeps

set_option autoImplicit false

/-! `create_directory` keeps an image consistent: a new file becomes a directory. -/
namespace Zaytos.Fs

open Finset

section Dots

variable {L : Layout} {d : Bytes} {ino parent : Nat}

theorem recordAt_dot (inoLt : ino < 2 ^ 32) :
    recordAt (dots L d ino parent) 0 = ⟨ino, 12, 1, direntTypeDirectory, [46]⟩ := by
  have inode : (dots L d ino parent).u32 0 = ino := by
    unfold dots
    simp (disch := omega) only [Bytes.putU16, Bytes.putU32, Bytes.u32_put_outside,
      Bytes.u32_put_leByte]
    exact Nat.mod_eq_of_lt inoLt
  have recLen : (dots L d ino parent).u16 (0 + 4) = 12 := by
    unfold dots
    simp (disch := omega) only [Bytes.putU16, Bytes.putU32, Bytes.u16_put_outside, zero_add,
      Bytes.u16_put_leByte]
    rfl
  have nameLen : (dots L d ino parent).get (0 + 6) = 1 := by
    unfold dots
    simp (disch := omega) only [Bytes.putU16, Bytes.putU32, Bytes.get_put_outside, zero_add,
      Bytes.get_put_inside]
  have fileType : (dots L d ino parent).get (0 + 7) = direntTypeDirectory := by
    unfold dots
    simp (disch := omega) only [Bytes.putU16, Bytes.putU32, Bytes.get_put_outside, zero_add,
      Bytes.get_put_inside]
  have name : (dots L d ino parent).get 8 = 46 := by
    unfold dots
    simp (disch := omega) only [Bytes.putU16, Bytes.putU32, Bytes.get_put_outside,
      Bytes.get_put_inside]
  unfold recordAt Bytes.view
  rw [inode, recLen, nameLen, fileType]
  simp [List.range_succ, name]

theorem recordAt_dotdot (wf : L.Wf) (parentLt : parent < 2 ^ 32) :
    recordAt (dots L d ino parent) 12 =
      ⟨parent, L.blockSize - 12, 2, direntTypeDirectory, [46, 46]⟩ := by
  have sizeLe := wf.blockSize_le
  have inode : (dots L d ino parent).u32 12 = parent := by
    unfold dots
    simp (disch := omega) only [Bytes.putU16, Bytes.putU32, Bytes.u32_put_outside,
      Bytes.u32_put_leByte]
    exact Nat.mod_eq_of_lt parentLt
  have recLen : (dots L d ino parent).u16 (12 + 4) = L.blockSize - 12 := by
    unfold dots
    simp (disch := omega) only [Bytes.putU16, Bytes.putU32, Bytes.u16_put_outside, Nat.reduceAdd,
      Bytes.u16_put_leByte]
    exact Nat.mod_eq_of_lt (by omega)
  have nameLen : (dots L d ino parent).get (12 + 6) = 2 := by
    unfold dots
    simp (disch := omega) only [Bytes.putU16, Bytes.putU32, Bytes.get_put_outside, Nat.reduceAdd,
      Bytes.get_put_inside]
  have fileType : (dots L d ino parent).get (12 + 7) = direntTypeDirectory := by
    unfold dots
    simp (disch := omega) only [Bytes.putU16, Bytes.putU32, Bytes.get_put_outside, Nat.reduceAdd,
      Bytes.get_put_inside]
  have first : (dots L d ino parent).get 20 = 46 := by
    unfold dots
    simp (disch := omega) only [Bytes.putU16, Bytes.putU32, Bytes.get_put_outside,
      Bytes.get_put_inside]
  have second : (dots L d ino parent).get 21 = 46 := by
    unfold dots
    exact Bytes.get_put_inside _ (by omega) (by omega)
  unfold recordAt Bytes.view
  rw [inode, recLen, nameLen, fileType]
  simp [List.range_succ, first, second]

theorem chain_dots (wf : L.Wf) (inoLt : ino < 2 ^ 32) (parentLt : parent < 2 ^ 32) :
    Chain (dots L d ino parent) L.blockSize 0 [0, 12] := by
  have sizeGe := wf.blockSize_ge
  obtain ⟨c, size⟩ := wf.blockSize_dvd
  unfold Chain
  rw [recordAt_dot inoLt]
  refine ⟨rfl, show 4 ∣ 12 by decide, show 8 + 1 ≤ 12 by decide, rfl, ?_⟩
  rw [recordAt_dotdot wf parentLt]
  refine ⟨?_, ?_, ?_⟩
  · show 4 ∣ L.blockSize - 12
    omega
  · show 8 + 2 ≤ L.blockSize - 12
    omega
  · show 0 + 12 + (L.blockSize - 12) = L.blockSize
    omega

theorem refsIn_dots (wf : L.Wf) (inoLt : ino < 2 ^ 32) (parentLt : parent < 2 ^ 32) (i : Nat) :
    refsIn (dots L d ino parent) L.blockSize i =
      (if i = ino then 1 else 0) + if i = parent then 1 else 0 := by
  unfold refsIn
  rw [(chain_dots wf inoLt parentLt).positions_eq]
  simp only [List.countP_cons, List.countP_nil, recordAt_dot inoLt, recordAt_dotdot wf parentLt,
    beq_iff_eq, eq_comm (a := i)]
  omega

end Dots

/-- From `m` to `m'` the inodes other than `ino` stay, but for the links of `parent`. -/
structure Relinked (m m' : Disk) (ino parent links : Nat) : Prop where
  other : ∀ i, i ≠ ino → i ≠ parent → m' (.inode i) = m (.inode i)
  parentInode : m' (.inode parent) = (m (.inode parent)).putU16 26 links

variable {i : Nat}

namespace Relinked

variable {m m' : Disk} {ino parent links : Nat} (re : Relinked m m' ino parent links)
include re

theorem get_parent {o : Nat} (outside : o < 26 ∨ 28 ≤ o) :
    (m' (.inode parent)).get o = (m (.inode parent)).get o := by
  rw [re.parentInode]
  exact Bytes.get_put_outside _ outside

theorem u32_inode {pos : Nat} (ne : i ≠ ino) (outside : pos + 4 ≤ 26 ∨ 28 ≤ pos) :
    (m' (.inode i)).u32 pos = (m (.inode i)).u32 pos := by
  by_cases isParent : i = parent
  · subst isParent
    have same : Bytes.SameOn (m (.inode i)) (m' (.inode i)) pos 4 :=
      fun o lower upper => re.get_parent (by omega)
    exact same.u32 (le_rfl) (le_rfl)
  · rw [re.other i ne isParent]

theorem mode_eq (ne : i ≠ ino) : m'.mode i = m.mode i := by
  unfold Disk.mode
  by_cases isParent : i = parent
  · subst isParent
    have same : Bytes.SameOn (m (.inode i)) (m' (.inode i)) 0 2 :=
      fun o lower upper => re.get_parent (by omega)
    exact same.u16 (le_rfl) (le_rfl)
  · rw [re.other i ne isParent]

theorem slot_eq {i k : Nat} (ne : i ≠ ino) : m'.slot i k = m.slot i k := re.u32_inode ne (by omega)

theorem size_eq (ne : i ≠ ino) : m'.size i = m.size i := re.u32_inode ne (by omega)

theorem sectors_eq (ne : i ≠ ino) : m'.sectors i = m.sectors i :=
  re.u32_inode ne (by omega)

theorem sizeHigh_eq (ne : i ≠ ino) : m'.sizeHigh i = m.sizeHigh i :=
  re.u32_inode ne (by omega)

theorem fileBlocks_eq {L : Layout} (ne : i ≠ ino) : m'.fileBlocks L i = m.fileBlocks L i := by
  unfold Disk.fileBlocks
  rw [re.size_eq ne]

theorem links_eq (small : links < 2 ^ 16) (ne : i ≠ ino) :
    m'.links i = if i = parent then links else m.links i := by
  unfold Disk.links
  by_cases isParent : i = parent
  · subst isParent
    rw [re.parentInode, Bytes.u16_putU16, Nat.mod_eq_of_lt small, if_pos rfl]
  · rw [re.other i ne isParent, if_neg isParent]

theorem shape_eq {L : Layout} (ne : i ≠ ino) (shape : m.FileShape L i) : m'.FileShape L i := by
  refine ⟨by rw [re.fileBlocks_eq ne]; exact shape.blocks_le, fun k small => ?_, ?_⟩
  · rw [re.slot_eq ne, re.fileBlocks_eq ne]
    exact shape.slot_iff k small
  · rw [re.sectors_eq ne, re.fileBlocks_eq ne]
    exact shape.sectors

end Relinked

/-- From `m` to `m'` the empty file `ino` has become a directory of one block, below
`parent`. -/
structure Promoted (G : Geometry) (m m' : Disk) (ino parent block : Nat) : Prop
    extends Relinked m m' ino parent (m.links parent + 1) where
  live : m.Live G.layout ino
  regular : m.IsRegular ino
  empty : m.size ino = 0
  oneLink : m.links ino = 1
  hasParent : G.layout.HasInode parent
  parentDir : m.IsDir parent
  hasBlock : G.layout.HasBlock block
  clear : m.blockUsed G.layout block = false
  links_lt : m.links parent + 1 < 2 ^ 16
  inodeBitmap : ∀ g, m' (.inodeBitmap g) = m (.inodeBitmap g)
  groupFreeInodes : ∀ g, m' (.groupFreeInodes g) = m (.groupFreeInodes g)
  freeInodes : m' .freeInodes = m .freeInodes
  blockBitmap : ∀ g, m' (.blockBitmap g) = m.markBlock G.layout block true (.blockBitmap g)
  groupFreeBlocks : ∀ g,
    m' (.groupFreeBlocks g) = m.markBlock G.layout block true (.groupFreeBlocks g)
  freeBlocks : m' .freeBlocks = m.markBlock G.layout block true .freeBlocks
  usedDirs : ∀ g, m'.usedDirs g = m.usedDirs g + if g = G.layout.inodeGroup ino then 1 else 0
  data : ∀ b, b ≠ block → m' (.data b) = m (.data b)
  dots : ∃ d, m' (.data block) = dots G.layout d ino parent
  isDir : m'.IsDir ino
  size : m'.size ino = G.layout.blockSize
  links : m'.links ino = 2
  sectors : m'.sectors ino = G.layout.sectorsPerBlock
  slots : ∀ k < inodeBlockCount, m'.slot ino k = if k = 0 then block else 0

namespace Promoted

variable {G : Geometry} {m m' : Disk} {ino parent block : Nat} (con : Consistent G m)
  (up : Promoted G m m' ino parent block)
include up

theorem live_iff (i : Nat) : m'.Live G.layout i ↔ m.Live G.layout i := Disk.live_congr up.inodeBitmap

theorem parent_ne : parent ≠ ino := by
  rintro rfl
  have := up.parentDir.symm.trans up.regular
  exact absurd this (by decide)

theorem fileBlocks_new : m'.fileBlocks G.layout ino = 1 := by
  have one := divCeil_mul 1 G.wf.blockSize_pos
  unfold Disk.fileBlocks
  rw [up.size]
  rwa [one_mul] at one

theorem isDir_iff (i : Nat) : m'.IsDir i ↔ i = ino ∨ m.IsDir i := by
  by_cases new : i = ino
  · rw [new]
    exact iff_of_true up.isDir (.inl rfl)
  · unfold Disk.IsDir
    rw [up.mode_eq new]
    exact ⟨.inr, fun h => h.resolve_left new⟩

theorem blockUsed_eq {b : Nat} (has : G.layout.HasBlock b) :
    m'.blockUsed G.layout b = if b = block then true else m.blockUsed G.layout b := by
  rw [← Disk.blockUsed_markBlock up.hasBlock has]
  unfold Disk.blockUsed Disk.bitOf
  rw [up.blockBitmap]

include con

theorem slot_ne {i k : Nat} (live : m.Live G.layout i) (small : k < inodeBlockCount)
    (nonzero : m.slot i k ≠ 0) : m.slot i k ≠ block := by
  rintro rfl
  exact Bool.noConfusion ((con.slotUsed i live k small nonzero).2.symm.trans up.clear)

theorem refs_eq (i : Nat) : m'.refs G.layout i =
    m.refs G.layout i + (if i = ino then 1 else 0) + if i = parent then 1 else 0 := by
  have inoLt : ino < 2 ^ 32 := lt_of_le_of_lt up.live.1.le G.wf.inodesCount_lt
  have parentLt : parent < 2 ^ 32 := lt_of_le_of_lt up.hasParent.le G.wf.inodesCount_lt
  have notDir : ¬ m.IsDir ino := by
    intro isDir
    have := isDir.symm.trans up.regular
    exact absurd this (by decide)
  have row : m'.refsFrom G.layout i ino =
      (if i = ino then 1 else 0) + if i = parent then 1 else 0 := by
    have first : m'.refsAt G.layout i ino 0 =
        (if i = ino then 1 else 0) + if i = parent then 1 else 0 := by
      obtain ⟨d, contents⟩ := up.dots
      have slot : m'.slot ino 0 = block := by
        rw [up.slots 0 (by decide), if_pos rfl]
      have nonzero := G.dataBlock_ne_zero (con.dataBlock_of_clear up.hasBlock up.clear)
      refine (if_pos ⟨(up.live_iff ino).mpr up.live, up.isDir, by rwa [slot]⟩).trans ?_
      unfold Disk.block
      rw [slot, contents]
      exact refsIn_dots G.wf inoLt parentLt i
    rw [← first]
    unfold Disk.refsFrom
    apply sum_eq_single 0
    · intro k mem ne
      have slot : m'.slot ino k = 0 := by
        rw [up.slots k (lt_trans (mem_range.mp mem) (by decide)), if_neg ne]
      exact if_neg fun cond => cond.2.2 slot
    · intro not
      exact absurd (mem_range.mpr (by decide)) not
  have before : m.refsFrom G.layout i ino = 0 := refsFrom_of_not fun both => notDir both.2
  have flip : m'.refs G.layout i + _ = m.refs G.layout i + _ := refs_flip_row up.live.1.le ?_
  · rw [before, row] at flip
    omega
  · intro dir ne
    refine Disk.refsFrom_congr fun k small => ?_
    refine Disk.refsAt_congr (up.live_iff dir) (fun _ => (up.isDir_iff dir).trans (or_iff_right ne))
      (fun _ _ => up.slot_eq ne) ?_
    · intro live isDir nonzero
      unfold Disk.block
      rw [up.slot_eq ne, up.data _ (up.slot_ne con live (lt_trans small (by decide)) nonzero)]

theorem consistent : Consistent G m' := by
  have newData := con.dataBlock_of_clear up.hasBlock up.clear
  have newNonzero := G.dataBlock_ne_zero newData
  have inoLt : ino < 2 ^ 32 := lt_of_le_of_lt up.live.1.le G.wf.inodesCount_lt
  have parentLt : parent < 2 ^ 32 := lt_of_le_of_lt up.hasParent.le G.wf.inodesCount_lt
  have oldShape := con.shape ino up.live (.inl up.regular)
  have oldBlocks : m.fileBlocks G.layout ino = 0 := by
    unfold Disk.fileBlocks
    rw [up.empty, divCeil_zero G.wf.blockSize_pos]
  have owns : Owns G.DataBlock (fun b => m'.blockUsed G.layout b = true) (m'.points G.layout) := by
    refine con.owns.extend (fun x => x = (ino, 0)) ?_ ?_ ?_ ?_ ?_
    · rintro ⟨i, k⟩ ne
      by_cases new : i = ino
      · subst new
        have empty : m.points G.layout (i, k) = none := by
          refine if_neg fun cond => ?_
          have := (oldShape.slot_iff k cond.2.1).mp cond.2.2
          omega
        rw [empty]
        refine if_neg fun cond => cond.2.2 ?_
        rw [up.slots k cond.2.1, if_neg fun zero => ne (by rw [zero])]
      · exact Disk.points_congr (up.live_iff i) fun _ _ => up.slot_eq new
    · rintro _ rfl
      refine if_neg fun cond => ?_
      have := (oldShape.slot_iff 0 cond.2.1).mp cond.2.2
      omega
    · rintro _ b rfl point
      obtain ⟨-, -, -, rfl⟩ := Disk.points_eq_some.mp point
      rw [up.slots 0 (by decide), if_pos rfl]
      exact ⟨newData, by simp [up.clear]⟩
    · rintro _ _ b rfl rfl _ _
      rfl
    · intro b data
      rw [up.blockUsed_eq data.1]
      constructor
      · intro used
        split at used
        · rename_i same
          refine .inr ⟨_, rfl, Disk.points_eq_some.mpr ⟨(up.live_iff ino).mpr up.live, by decide, ?_, ?_⟩⟩
          · rwa [up.slots 0 (by decide), if_pos rfl]
          · rw [up.slots 0 (by decide), if_pos rfl, same]
        · exact .inl used
      · rintro (used | ⟨_, rfl, point⟩)
        · rw [used]
          exact ite_self true
        · obtain ⟨-, -, -, same⟩ := Disk.points_eq_some.mp point
          rw [up.slots 0 (by decide), if_pos rfl] at same
          rw [if_pos same.symm]
  have groupLt : m.groupFreeBlocks (G.layout.blockGroup block) < 2 ^ 16 := (m _).u16_lt _
  have totalLt : m.freeBlocks < 2 ^ 32 := (m _).u32_lt _
  refine ⟨?_, ?_, ?_, ?_, ?_, slotUsed_of_owns owns, slotUnique_of_owns owns, owned_of_owns owns,
    ?_, ?_, ?_, ?_, ?_⟩
  · refine (con.blockCounts.mark G.wf true up.hasBlock up.clear ?_ ?_).congr up.blockBitmap
      up.groupFreeBlocks up.freeBlocks
    · exact lt_of_le_of_lt (Nat.sub_le _ 1) groupLt
    · exact lt_of_le_of_lt (Nat.sub_le _ 1) totalLt
  · exact con.inodeCounts.congr up.inodeBitmap up.groupFreeInodes up.freeInodes
  · intro g inRange
    rw [up.usedDirs, con.dirCounts g inRange]
    have others : ∀ j < G.layout.inodeSpan g, g * G.layout.inodesPerGroup + j + 1 ≠ ino →
        (m'.IsDir (g * G.layout.inodesPerGroup + j + 1) ↔
          m.IsDir (g * G.layout.inodesPerGroup + j + 1)) := by
      intro j _ ne
      exact (up.isDir_iff _).trans (or_iff_right ne)
    split
    · rename_i same
      have place := Layout.inode_eq up.live.1
      have index := Layout.inodeIndex_lt G.wf up.live.1
      rw [← same] at place index
      refine (count_flip index ?_ ?_ fun j small ne => others j small ?_).symm
      · rw [← place]
        exact up.isDir
      · rw [← place]
        intro isDir
        have := isDir.symm.trans up.regular
        exact absurd this (by decide)
      · omega
    · rename_i different
      refine count_congr fun j small => (others j small ?_).symm
      rintro rfl
      exact different (Layout.hasInode_of G.wf inRange small).2.1.symm
  · intro i has isDir
    rw [up.live_iff]
    rcases (up.isDir_iff i).mp isDir with rfl | old
    · exact up.live
    · exact con.dirLive i has old
  · intro b has isMeta
    rw [up.blockUsed_eq has, con.metaUsed b has isMeta]
    exact ite_self true
  · intro i live kind
    by_cases new : i = ino
    · subst new
      refine ⟨by rw [up.fileBlocks_new]; decide, fun k small => ?_, ?_⟩
      · rw [up.slots k small, up.fileBlocks_new]
        split
        · rename_i first
          exact iff_of_true newNonzero (by omega)
        · exact iff_of_false (by simp) (by omega)
      · rw [up.sectors, up.fileBlocks_new, one_mul]
    · have kind' : m.IsRegular i ∨ m.IsDir i := by
        unfold Disk.IsRegular Disk.IsDir at kind ⊢
        rwa [up.mode_eq new] at kind
      exact up.shape_eq new (con.shape i ((up.live_iff i).mp live) kind')
  · intro i live regular
    by_cases new : i = ino
    · subst new
      have := up.isDir.symm.trans regular
      exact absurd this (by decide)
    · rw [up.sizeHigh_eq new]
      refine con.sizeHigh i ((up.live_iff i).mp live) ?_
      unfold Disk.IsRegular at regular ⊢
      rwa [up.mode_eq new] at regular
  · intro i has isDir
    by_cases new : i = ino
    · rw [new, up.size]
    · rw [up.size_eq new]
      exact con.dirSize i has (((up.isDir_iff i).mp isDir).resolve_left new)
  · intro i has isDir k within
    by_cases new : i = ino
    · subst new
      rw [up.fileBlocks_new] at within
      obtain rfl : k = 0 := by omega
      obtain ⟨d, contents⟩ := up.dots
      have chain := chain_dots (d := d) G.wf inoLt parentLt
      unfold Disk.block
      rw [up.slots 0 (by decide), if_pos rfl, contents]
      refine ⟨by rwa [chain.positions_eq], fun x mem named => ?_⟩
      rw [chain.positions_eq] at mem
      simp only [List.mem_cons, List.not_mem_nil, or_false] at mem
      rcases mem with rfl | rfl
      · rw [recordAt_dot inoLt]
        exact (up.live_iff i).mpr up.live
      · rw [recordAt_dotdot G.wf parentLt]
        exact (up.live_iff parent).mpr (con.dirLive parent up.hasParent up.parentDir)
    · have isDir' := ((up.isDir_iff i).mp isDir).resolve_left new
      rw [up.fileBlocks_eq new] at within
      have live := con.dirLive i has isDir'
      have few := (con.shape i live (.inr isDir')).blocks_le
      have small : k < inodeBlockCount := lt_of_lt_of_le within (le_trans few (by decide))
      have old := con.dirBlock i has isDir' k within
      have block : m'.block i k = m.block i k := by
        unfold Disk.block
        rw [up.slot_eq new, up.data _ (up.slot_ne con live small (con.dirData has isDir' within).1)]
      rw [block]
      exact ⟨old.chain, fun x mem named => (up.live_iff _).mpr (old.live x mem named)⟩
  · intro i live
    rw [up.refs_eq con]
    have old := con.links i ((up.live_iff i).mp live)
    by_cases new : i = ino
    · subst new
      rw [up.links, if_pos rfl, if_neg up.parent_ne.symm, ← old, up.oneLink]
    · rw [up.links_eq up.links_lt new, if_neg new, ← old, add_zero]
      split
      · rename_i isParent
        rw [isParent]
      · rfl

end Promoted

section CreateDirectory

variable {G : Geometry} {m : Disk} {ino block parent b p k : Nat} {name : List UInt8}

theorem createDirectory_inode (parentNe : parent ≠ ino) :
    m.createDirectory G.layout ino block parent b p name (.inode i) =
      if i = parent then (m (.inode parent)).putU16 26 (m.links parent + 1)
      else if i = ino then dirInode G.layout (m (.inode ino)) block else m (.inode i) := by
  unfold Disk.createDirectory Disk.setUsedDirs Disk.setLinks
  rw [Disk.set_of_ne _ (by simp), Disk.set_apply]
  by_cases isParent : i = parent
  · rw [if_pos (by rw [isParent]), if_pos isParent, Disk.newDirectory_inode_ne parentNe]
  · rw [if_neg (by simpa using isParent), if_neg isParent]
    by_cases new : i = ino
    · subst new
      unfold Disk.newDirectory Disk.insertRecord
      rw [if_pos rfl, Disk.set_of_ne _ (by simp), Disk.set_of_ne _ (by simp), Disk.set_self]
    · rw [if_neg new, Disk.newDirectory_inode_ne new]

theorem createDirectory_data {x : Nat} (ne : b ≠ block) :
    m.createDirectory G.layout ino block parent b p name (.data x) =
      if x = b then insertAt (m (.data b)) p (direntSpan (recordAt (m (.data b)) p).nameLen) ino name
        direntTypeDirectory
      else if x = block then dots G.layout (m (.data block)) ino parent else m (.data x) := by
  have old : ∀ x, x ≠ block → (((m.markInode G.layout ino true).markBlock G.layout block true).set
      (.inode ino) (dirInode G.layout (m (.inode ino)) block)).set (.data block)
      (dots G.layout (m (.data block)) ino parent) (.data x) = m (.data x) := by
    intro x other
    rw [Disk.set_of_ne _ (by simpa using other), Disk.set_of_ne _ (by simp), Disk.markBlock_data,
      Disk.markInode_data]
  unfold Disk.createDirectory Disk.setUsedDirs Disk.setLinks Disk.newDirectory Disk.insertRecord
  rw [Disk.set_of_ne _ (by simp), Disk.set_of_ne _ (by simp), Disk.set_apply, old b ne]
  by_cases here : x = b
  · rw [if_pos (by rw [here]), if_pos here]
  · rw [if_neg (by simpa using here), if_neg here]
    by_cases new : x = block
    · rw [if_pos new, new, Disk.set_self]
    · rw [if_neg new, old x new]

theorem createDirectory_other {a : Area} (notInode : ∀ i, a ≠ .inode i) (notData : ∀ b, a ≠ .data b)
    (notDirs : ∀ g, a ≠ .usedDirs g) :
    m.createDirectory G.layout ino block parent b p name a =
      (m.markInode G.layout ino true).markBlock G.layout block true a := by
  unfold Disk.createDirectory Disk.setUsedDirs Disk.setLinks Disk.newDirectory Disk.insertRecord
  rw [Disk.set_of_ne _ (notDirs _), Disk.set_of_ne _ (notInode _), Disk.set_of_ne _ (notData _),
    Disk.set_of_ne _ (notData _), Disk.set_of_ne _ (notInode _)]

theorem createDirectory_usedDirs {g : Nat}
    (small : m.usedDirs (G.layout.inodeGroup ino) + 1 < 2 ^ 16) :
    (m.createDirectory G.layout ino block parent b p name).usedDirs g =
      m.usedDirs g + if g = G.layout.inodeGroup ino then 1 else 0 := by
  have before : (m.newDirectory G.layout ino block parent b p name).setLinks parent
      (m.links parent + 1) (.usedDirs g) = m (.usedDirs g) := by
    unfold Disk.setLinks
    rw [Disk.set_of_ne _ (by simp), Disk.newDirectory_usedDirs]
  unfold Disk.createDirectory Disk.setUsedDirs Disk.usedDirs
  by_cases here : g = G.layout.inodeGroup ino
  · subst here
    rw [Disk.set_self, Bytes.u16_putU16, if_pos rfl]
    exact Nat.mod_eq_of_lt small
  · rw [Disk.set_of_ne _ (by simpa using here), before, if_neg here, add_zero]

theorem createDirectory_consistent (con : Consistent G m)
    (ready : Buildable G m parent ino block k p name) :
    Consistent G (m.createDirectory G.layout ino block parent (m.slot parent k) p name) := by
  obtain ⟨⟨free, -⟩, admits, hasBlock, clear, room, linksLt, dirsLt⟩ := ready
  have parentNe := con.ne_of_open admits.has admits.isDir free
  have added := addFile_consistent direntTypeDirectory con free admits room
  have blockLt : block < 2 ^ 32 := lt_trans hasBlock.2 G.wf.blocksCount_lt
  have slotNe : m.slot parent k ≠ block := by
    intro same
    have used := (con.dirData admits.has admits.isDir room.record.block_lt).2.2
    rw [same] at used
    exact Bool.noConfusion (used.symm.trans clear)
  have addedParent : m.addFile G.layout ino (m.slot parent k) p name direntTypeDirectory
      (.inode parent) = m (.inode parent) := by
    rw [addFile_inode, if_neg parentNe]
  have links : (m.addFile G.layout ino (m.slot parent k) p name direntTypeDirectory).links parent =
      m.links parent := congrArg (Bytes.u16 · 26) addedParent
  have dirs : ∀ g, (m.addFile G.layout ino (m.slot parent k) p name direntTypeDirectory).usedDirs g =
      m.usedDirs g := by
    intro g
    unfold Disk.usedDirs
    rw [addFile_other (by simp) (by simp), Disk.markInode_usedDirs]
  have newInode : m.createDirectory G.layout ino block parent (m.slot parent k) p name (.inode ino) =
      dirInode G.layout (m (.inode ino)) block := by
    rw [createDirectory_inode parentNe, if_neg parentNe.symm, if_pos rfl]
  refine Promoted.consistent added (show Promoted G _ _ ino parent block from ?_)
  refine ⟨⟨?_, ?_⟩, (addFile_live free.has).mpr (.inl rfl), addFile_regular, addFile_size,
    addFile_links, admits.has, ?_, hasBlock, ?_, by rwa [links], ?_, ?_, ?_, ?_, ?_, ?_, ?_, ?_, ?_,
    ?_, ?_, ?_, ?_, ?_⟩
  · intro i ne ne'
    rw [createDirectory_inode parentNe, if_neg ne', if_neg ne, addFile_inode, if_neg ne]
  · rw [createDirectory_inode parentNe, if_pos rfl, links, addedParent]
  · unfold Disk.IsDir
    rw [addFile_mode parentNe]
    exact admits.isDir
  · unfold Disk.blockUsed Disk.bitOf
    rw [addFile_other (by simp) (by simp), Disk.markInode_blockBitmap]
    exact clear
  · intro g
    rw [createDirectory_other (by simp) (by simp) (by simp), addFile_other (by simp) (by simp),
      Disk.markBlock_inodeBitmap]
  · intro g
    rw [createDirectory_other (by simp) (by simp) (by simp), addFile_other (by simp) (by simp),
      Disk.markBlock_groupFreeInodes]
  · rw [createDirectory_other (by simp) (by simp) (by simp), addFile_other (by simp) (by simp),
      Disk.markBlock_freeInodes]
  · intro g
    rw [createDirectory_other (by simp) (by simp) (by simp)]
    exact Disk.mark_congr (addFile_other (by simp) (by simp)).symm
  · intro g
    rw [createDirectory_other (by simp) (by simp) (by simp)]
    exact Disk.mark_congr (addFile_other (by simp) (by simp)).symm
  · rw [createDirectory_other (by simp) (by simp) (by simp)]
    exact Disk.mark_congr (addFile_other (by simp) (by simp)).symm
  · intro g
    rw [createDirectory_usedDirs dirsLt, dirs]
  · intro x ne
    rw [createDirectory_data slotNe, addFile_data, if_neg ne]
  · exact ⟨_, by rw [createDirectory_data slotNe, if_neg slotNe.symm, if_pos rfl]⟩
  · unfold Disk.IsDir Disk.mode
    rw [newInode, mode_dirInode]
    decide
  · unfold Disk.size
    rw [newInode, size_dirInode G.wf]
  · unfold Disk.links
    rw [newInode, links_dirInode]
  · unfold Disk.sectors
    rw [newInode, sectors_dirInode G.wf]
  · intro l small
    show ((m.createDirectory G.layout ino block parent (m.slot parent k) p name) (.inode ino)).u32
      (40 + l * 4) = _
    rw [newInode, slot_dirInode G.wf blockLt small]

end CreateDirectory

end Zaytos.Fs
