import Zaytos.Ext2.FileKeeps

set_option autoImplicit false

/-! `create_file` and `create_directory` keep an image consistent. A new directory is a new
file that then becomes a directory. -/
namespace Zaytos.Fs

open Finset

variable {l r : List Nat} {pos o block : Nat}

section Refs

variable {L : Layout} {m m' : Disk} {i : Nat}

theorem refs_flip {dir k : Nat} (le : dir ≤ L.inodesCount) (small : k < directBlockCount)
    (same : ∀ d, ∀ l < directBlockCount, (d, l) ≠ (dir, k) →
      m'.refsAt L i d l = m.refsAt L i d l) :
    m'.refs L i + m.refsAt L i dir k = m.refs L i + m'.refsAt L i dir k := by
  have row : m'.refsFrom L i dir + m.refsAt L i dir k =
      m.refsFrom L i dir + m'.refsAt L i dir k :=
    sum_flip (mem_range.mpr small) fun l mem ne => same dir l (mem_range.mp mem) (by simpa using ne)
  have rows : m'.refs L i + m.refsFrom L i dir = m.refs L i + m'.refsFrom L i dir :=
    sum_flip (mem_range.mpr (by omega)) fun d _ ne =>
      Disk.refsFrom_congr fun l within => same d l within (by simp [ne])
  omega

theorem refs_flip_row {dir : Nat} (le : dir ≤ L.inodesCount)
    (same : ∀ d, d ≠ dir → m'.refsFrom L i d = m.refsFrom L i d) :
    m'.refs L i + m.refsFrom L i dir = m.refs L i + m'.refsFrom L i dir :=
  sum_flip (mem_range.mpr (by omega)) fun d _ ne => same d ne

theorem refsFrom_of_not {dir : Nat} (not : ¬ (m.Live L dir ∧ m.IsDir dir)) :
    m.refsFrom L i dir = 0 :=
  sum_eq_zero fun _ _ => if_neg fun cond => not ⟨cond.1, cond.2.1⟩

theorem refsIn_insertAt {d : Bytes} {stop p ino : Nat} {name : List UInt8} {fileType : UInt8}
    (chain : Chain d stop 0 (l ++ p :: r)) (inoLt : ino < 2 ^ 32)
    (short : name.length ≤ 255)
    (room : direntSpan name.length ≤ (recordAt d p).recLen - direntSpan (recordAt d p).nameLen) :
    refsIn (insertAt d p (direntSpan (recordAt d p).nameLen) ino name fileType) stop i =
      refsIn d stop i + if i = ino then 1 else 0 := by
  obtain ⟨chain', old, new, others⟩ := chain.insert inoLt short room
  unfold refsIn
  rw [chain.positions_eq, chain'.positions_eq, List.countP_append, List.countP_append,
    List.countP_cons, List.countP_cons, List.countP_cons, old, new,
    List.countP_congr fun x mem => by rw [others x (.inl mem)],
    List.countP_congr (l := r) fun x mem => by rw [others x (.inr mem)]]
  by_cases same : i = ino
  · rw [same]
    simp only [beq_self_eq_true, ↓reduceIte]
    omega
  · have other : (ino == i) = false := by simpa using Ne.symm same
    simp only [other, same, Bool.false_eq_true, ↓reduceIte]
    omega

theorem refsIn_removeAt {d : Bytes} {stop p q : Nat} (chain : Chain d stop 0 (l ++ p :: q :: r))
    (fits : (recordAt d p).recLen + (recordAt d q).recLen < 2 ^ 16) :
    refsIn d stop i = refsIn (removeAt d p q) stop i + if i = (recordAt d q).inode then 1 else 0 := by
  obtain ⟨chain', merged, others⟩ := chain.remove fits
  unfold refsIn
  rw [chain.positions_eq, chain'.positions_eq, List.countP_append, List.countP_append,
    List.countP_cons, List.countP_cons, List.countP_cons, merged,
    List.countP_congr (p := fun x => (recordAt (removeAt d p q) x).inode == i)
      fun x mem => by rw [others x (.inl mem)],
    List.countP_congr (p := fun x => (recordAt (removeAt d p q) x).inode == i) (l := r)
      fun x mem => by rw [others x (.inr mem)]]
  by_cases same : i = (recordAt d q).inode
  · rw [← same]
    simp only [beq_self_eq_true, ↓reduceIte]
    omega
  · have other : ((recordAt d q).inode == i) = false := by simpa using Ne.symm same
    simp only [other, same, Bool.false_eq_true, ↓reduceIte]
    omega

theorem refs_of_free {G : Geometry} (con : Consistent G m) (has : G.layout.HasInode i)
    (clear : m.inodeUsed G.layout i = false) : m.refs G.layout i = 0 := by
  refine sum_eq_zero fun dir _ => sum_eq_zero fun k small => ?_
  unfold Disk.refsAt
  split
  · rename_i cond
    obtain ⟨live, isDir, nonzero⟩ := cond
    have shape := con.shape dir live (.inr isDir)
    have within : k < m.fileBlocks G.layout dir :=
      (shape.slot_iff k (lt_trans (mem_range.mp small) (by decide))).mp nonzero
    unfold refsIn
    rw [List.countP_eq_zero]
    intro p mem
    simp only [beq_iff_eq]
    intro names
    have alive := (con.dirBlock dir live.1 isDir k within).live p mem (by
      rw [names]
      exact ne_of_gt has.pos)
    rw [names] at alive
    exact Bool.noConfusion (alive.2.symm.trans clear)
  · rfl

end Refs

section NewInode

variable {L : Layout} {d : Bytes}

theorem u16_zero (zero : ∀ o, pos ≤ o → o < pos + 2 → d.get o = 0) : d.u16 pos = 0 := by
  unfold Bytes.u16
  rw [zero pos (by omega) (by omega), zero (pos + 1) (by omega) (by omega)]
  rfl

theorem u32_zero (zero : ∀ o, pos ≤ o → o < pos + 4 → d.get o = 0) : d.u32 pos = 0 := by
  unfold Bytes.u32
  rw [u16_zero fun o lower upper => zero o lower (by omega),
    u16_zero fun o lower upper => zero o (by omega) (by omega)]

theorem get_withExtra (small : o < 128) : (withExtra L d).get o = d.get o := by
  unfold withExtra
  split
  · exact Bytes.get_put_outside _ (by simp only [inodeExtraIsize, inodeCoreLen]; omega)
  · rfl

theorem withExtra_sameOn {n : Nat} (small : pos + n ≤ 128) :
    Bytes.SameOn d (withExtra L d) pos n := fun _ _ upper => get_withExtra (by omega)

theorem get_fileInode (wf : L.Wf) (small : o < 128) (notMode : 2 ≤ o)
    (notLinks : o < 26 ∨ 28 ≤ o) : (fileInode L d).get o = 0 := by
  have sizeGe := wf.inodeSize_ge_128
  unfold fileInode Bytes.putU16
  rw [Bytes.get_put_outside _ (by omega), get_withExtra small, Bytes.get_put_outside _ (by omega),
    Bytes.get_put_inside _ (by omega) (by omega)]

theorem mode_fileInode : (fileInode L d).u16 0 = modeRegular ||| 0o644 := by
  unfold fileInode
  rw [Bytes.putU16, Bytes.u16_put_outside _ (by omega),
    (withExtra_sameOn (n := 2) (by omega)).u16 (le_rfl) (le_rfl),
    Bytes.u16_putU16]
  rfl

theorem links_fileInode : (fileInode L d).u16 26 = 1 := by
  unfold fileInode
  rw [Bytes.u16_putU16]
  rfl

theorem get_dirInode (wf : L.Wf) (small : o < 128) (outside : 2 ≤ o ∧ o < 4 ∨
    8 ≤ o ∧ o < 26 ∨ 32 ≤ o ∧ o < 40 ∨ 44 ≤ o) : (dirInode L d block).get o = 0 := by
  have sizeGe := wf.inodeSize_ge_128
  unfold dirInode Bytes.putU16 Bytes.putU32
  rw [get_withExtra small, Bytes.get_put_outside _ (by omega), Bytes.get_put_outside _ (by omega),
    Bytes.get_put_outside _ (by omega), Bytes.get_put_outside _ (by omega),
    Bytes.get_put_outside _ (by omega), Bytes.get_put_inside _ (by omega) (by omega)]

theorem mode_dirInode : (dirInode L d block).u16 0 = modeDirectory ||| 0o755 := by
  unfold dirInode
  rw [(withExtra_sameOn (n := 2) (by omega)).u16 (le_rfl) (le_rfl),
    Bytes.putU32, Bytes.u16_put_outside _ (by omega), Bytes.putU32, Bytes.u16_put_outside _ (by omega),
    Bytes.putU16, Bytes.u16_put_outside _ (by omega), Bytes.putU32,
    Bytes.u16_put_outside _ (by omega), Bytes.u16_putU16]
  rfl

theorem size_dirInode (wf : L.Wf) : (dirInode L d block).u32 4 = L.blockSize := by
  have := wf.blockSize_le
  unfold dirInode
  rw [(withExtra_sameOn (n := 4) (by omega)).u32 (le_rfl) (le_rfl),
    Bytes.putU32, Bytes.u32_put_outside _ (by omega), Bytes.putU32,
    Bytes.u32_put_outside _ (by omega), Bytes.putU16, Bytes.u32_put_outside _ (by omega),
    Bytes.u32_putU32, Nat.mod_eq_of_lt (by omega)]

theorem links_dirInode : (dirInode L d block).u16 26 = 2 := by
  unfold dirInode
  rw [(withExtra_sameOn (n := 2) (by omega)).u16 (le_rfl) (le_rfl),
    Bytes.putU32, Bytes.u16_put_outside _ (by omega), Bytes.putU32,
    Bytes.u16_put_outside _ (by omega), Bytes.u16_putU16]
  rfl

theorem sectors_dirInode (wf : L.Wf) : (dirInode L d block).u32 28 = L.sectorsPerBlock := by
  have perBlock : L.sectorsPerBlock < 2 ^ 32 := by
    have := wf.blockSize_le
    unfold Layout.sectorsPerBlock
    omega
  unfold dirInode
  rw [(withExtra_sameOn (n := 4) (by omega)).u32 (le_rfl) (le_rfl),
    Bytes.putU32, Bytes.u32_put_outside _ (by omega), Bytes.u32_putU32, Nat.mod_eq_of_lt perBlock]

theorem slot_dirInode {block k : Nat} (wf : L.Wf) (blockLt : block < 2 ^ 32) (small : k < 15) :
    (dirInode L d block).u32 (40 + k * 4) = if k = 0 then block else 0 := by
  by_cases first : k = 0
  · subst first
    rw [if_pos rfl]
    unfold dirInode
    rw [(withExtra_sameOn (n := 4) (by omega)).u32 (le_rfl) (le_rfl),
      Bytes.u32_putU32, Nat.mod_eq_of_lt blockLt]
  · rw [if_neg first]
    exact u32_zero fun o lower upper => get_dirInode wf (by omega) (by omega)

end NewInode

section AddFile

variable {G : Geometry} {m : Disk} {dir ino k p : Nat} {name : List UInt8} {fileType : UInt8}

theorem legal_length (legal : badName name = false) : name ≠ [] ∧ name.length ≤ 255 := by
  unfold badName at legal
  simp only [Bool.or_eq_false_iff, List.isEmpty_eq_false_iff, decide_eq_false_iff_not, maxNameLen] at legal
  exact ⟨legal.1.1.1.1, by omega⟩

section Frame

variable {b : Nat}

theorem addFile_inode {i : Nat} : m.addFile G.layout ino b p name fileType (.inode i) =
    if i = ino then fileInode G.layout (m (.inode ino)) else m (.inode i) := by
  unfold Disk.addFile Disk.insertRecord
  rw [Disk.set_of_ne _ (by simp), Disk.set_apply]
  by_cases same : i = ino
  · rw [if_pos (by rw [same]), if_pos same]
  · rw [if_neg (by simpa using same), if_neg same, Disk.markInode_inode]

theorem addFile_data {x : Nat} : m.addFile G.layout ino b p name fileType (.data x) =
    if x = b then insertAt (m (.data b)) p (direntSpan (recordAt (m (.data b)) p).nameLen) ino name
      fileType
    else m (.data x) := by
  unfold Disk.addFile Disk.insertRecord
  rw [Disk.set_apply, Disk.set_of_ne _ (by simp), Disk.markInode_data]
  by_cases same : x = b
  · rw [if_pos (by rw [same]), if_pos same]
  · rw [if_neg (by simpa using same), if_neg same, Disk.set_of_ne _ (by simp), Disk.markInode_data]

theorem addFile_other {a : Area} (notInode : ∀ i, a ≠ .inode i) (notData : ∀ b, a ≠ .data b) :
    m.addFile G.layout ino b p name fileType a = m.markInode G.layout ino true a := by
  unfold Disk.addFile Disk.insertRecord
  rw [Disk.set_of_ne _ (notData _), Disk.set_of_ne _ (notInode _)]

theorem addFile_mode {i : Nat} (ne : i ≠ ino) :
    (m.addFile G.layout ino b p name fileType).mode i = m.mode i := by
  unfold Disk.mode
  rw [addFile_inode, if_neg ne]

theorem addFile_slot {i l : Nat} (small : l < inodeBlockCount) :
    (m.addFile G.layout ino b p name fileType).slot i l = if i = ino then 0 else m.slot i l := by
  unfold Disk.slot
  rw [addFile_inode]
  simp only [inodeBlockCount] at small
  split
  · exact u32_zero fun o lower upper => get_fileInode G.wf (by omega) (by omega) (by omega)
  · rfl

theorem addFile_regular : (m.addFile G.layout ino b p name fileType).IsRegular ino := by
  unfold Disk.IsRegular Disk.mode
  rw [addFile_inode, if_pos rfl, mode_fileInode]
  decide

theorem addFile_size : (m.addFile G.layout ino b p name fileType).size ino = 0 := by
  unfold Disk.size
  rw [addFile_inode, if_pos rfl]
  exact u32_zero fun o lower upper => get_fileInode G.wf (by omega) (by omega) (by omega)

theorem addFile_links : (m.addFile G.layout ino b p name fileType).links ino = 1 := by
  unfold Disk.links
  rw [addFile_inode, if_pos rfl, links_fileInode]

theorem addFile_live {i : Nat} (has : G.layout.HasInode ino) :
    (m.addFile G.layout ino b p name fileType).Live G.layout i ↔
      i = ino ∨ m.Live G.layout i := by
  have bits : G.layout.HasInode i →
      (m.addFile G.layout ino b p name fileType).inodeUsed G.layout i =
        if i = ino then true else m.inodeUsed G.layout i := by
    intro hasI
    rw [← Disk.inodeUsed_markInode has hasI]
    unfold Disk.inodeUsed Disk.bitOf
    rw [addFile_other (by simp) (by simp)]
  unfold Disk.Live
  constructor
  · rintro ⟨hasI, used⟩
    rw [bits hasI] at used
    split at used
    · rename_i same
      exact .inl same
    · exact .inr ⟨hasI, used⟩
  · rintro (rfl | ⟨hasI, used⟩)
    · exact ⟨has, by rw [bits has, if_pos rfl]⟩
    · refine ⟨hasI, ?_⟩
      rw [bits hasI, used]
      exact ite_self true

end Frame

variable (con : Consistent G m) (free : m.Open G.layout ino) (admits : Admits G m dir name)
  (room : Room G m dir name k p)

include con free in
theorem not_isDir_of_open : ¬ m.IsDir ino := fun isDir =>
  con.ne_of_open free.has isDir free rfl

variable (fileType) in
include con admits room in
theorem insert_chain (inoLt : ino < 2 ^ 32) :
    ∃ l r, Chain (m.block dir k) G.layout.blockSize 0 (l ++ p :: r) ∧
      m.recordsOf G.layout dir k = l ++ p :: r ∧
      Chain (insertAt (m.block dir k) p (direntSpan (recordAt (m.block dir k) p).nameLen) ino name
        fileType) G.layout.blockSize 0
        (l ++ p :: (p + direntSpan (recordAt (m.block dir k) p).nameLen) :: r) ∧
      recordAt (insertAt (m.block dir k) p (direntSpan (recordAt (m.block dir k) p).nameLen) ino name
        fileType) p = { recordAt (m.block dir k) p with
          recLen := direntSpan (recordAt (m.block dir k) p).nameLen } ∧
      recordAt (insertAt (m.block dir k) p (direntSpan (recordAt (m.block dir k) p).nameLen) ino name
        fileType) (p + direntSpan (recordAt (m.block dir k) p).nameLen) =
          ⟨ino, (recordAt (m.block dir k) p).recLen -
            direntSpan (recordAt (m.block dir k) p).nameLen, name.length, fileType, name⟩ ∧
      ∀ x, x ∈ l ∨ x ∈ r → recordAt (insertAt (m.block dir k) p
        (direntSpan (recordAt (m.block dir k) p).nameLen) ino name fileType) x =
          recordAt (m.block dir k) x := by
  have chain := (con.dirBlock dir admits.has admits.isDir k room.record.block_lt).chain
  obtain ⟨l, r, split⟩ := List.mem_iff_append.mp room.record.mem
  rw [show positions (m.block dir k) G.layout.blockSize = l ++ p :: r from split] at chain
  obtain ⟨chain', old, new, others⟩ := chain.insert inoLt
    (legal_length admits.legal).2 room.roomy.2
  exact ⟨l, r, chain, split, chain', old, new, others⟩

include con admits room in
theorem addFile_block {i l : Nat} (live : m.Live G.layout i) (small : l < inodeBlockCount)
    (nonzero : m.slot i l ≠ 0) (ne : (i, l) ≠ (dir, k)) :
    m.addFile G.layout ino (m.slot dir k) p name fileType (.data (m.slot i l)) = m.block i l := by
  rw [addFile_data, if_neg]
  · rfl
  · intro same
    have few := (con.shape dir (con.dirLive dir admits.has admits.isDir) (.inr admits.isDir)).blocks_le
    have both := con.slotUnique i dir l k live (con.dirLive dir admits.has admits.isDir) small
      (lt_of_lt_of_le room.record.block_lt (le_trans few (by decide))) nonzero same
    exact ne (by rw [both.1, both.2])

include con free admits room in
theorem addFile_refs (i : Nat) :
    (m.addFile G.layout ino (m.slot dir k) p name fileType).refs G.layout i =
      m.refs G.layout i + if i = ino then 1 else 0 := by
  have dirLive := con.dirLive dir admits.has admits.isDir
  have dirNe := con.ne_of_open admits.has admits.isDir free
  have few := (con.shape dir dirLive (.inr admits.isDir)).blocks_le
  have small : k < directBlockCount := lt_of_lt_of_le room.record.block_lt few
  have inoLt : ino < 2 ^ 32 := lt_of_le_of_lt free.has.le G.wf.inodesCount_lt
  have nonzero := (con.dirData admits.has admits.isDir room.record.block_lt).1
  obtain ⟨l, r, chain, -, -⟩ := insert_chain fileType con admits room inoLt
  have notDir : ¬ (m.addFile G.layout ino (m.slot dir k) p name fileType).IsDir ino := by
    intro isDir
    have := isDir.symm.trans addFile_regular
    exact absurd this (by decide)
  have flip : (m.addFile G.layout ino (m.slot dir k) p name fileType).refs G.layout i + _ =
      m.refs G.layout i + _ :=
    refs_flip admits.has.le small ?_
  · have before : m.refsAt G.layout i dir k = refsIn (m.block dir k) G.layout.blockSize i :=
      if_pos ⟨dirLive, admits.isDir, nonzero⟩
    have after : (m.addFile G.layout ino (m.slot dir k) p name fileType).refsAt G.layout i dir k =
        refsIn (m.block dir k) G.layout.blockSize i + if i = ino then 1 else 0 := by
      have slot : (m.addFile G.layout ino (m.slot dir k) p name fileType).slot dir k =
          m.slot dir k := by
        rw [addFile_slot (lt_trans small (by decide)), if_neg dirNe]
      have isDir : (m.addFile G.layout ino (m.slot dir k) p name fileType).IsDir dir := by
        unfold Disk.IsDir
        rw [addFile_mode dirNe]
        exact admits.isDir
      refine (if_pos ⟨(addFile_live free.has).mpr (.inr dirLive), isDir, by rwa [slot]⟩).trans ?_
      unfold Disk.block
      rw [slot, addFile_data, if_pos rfl]
      exact refsIn_insertAt chain inoLt (legal_length admits.legal).2 room.roomy.2
    rw [before, after] at flip
    omega
  · intro d x inside ne
    have within : x < inodeBlockCount := lt_trans inside (by decide)
    by_cases new : d = ino
    · subst new
      unfold Disk.refsAt
      rw [if_neg fun cond => notDir cond.2.1,
        if_neg fun cond => not_isDir_of_open con free cond.2.1]
    have slot : (m.addFile G.layout ino (m.slot dir k) p name fileType).slot d x = m.slot d x := by
      rw [addFile_slot within, if_neg new]
    refine Disk.refsAt_congr ?_ ?_ (fun _ _ => slot) ?_
    · rw [addFile_live free.has]
      tauto
    · intro _
      unfold Disk.IsDir
      rw [addFile_mode new]
    · intro live isDir nonzero'
      unfold Disk.block
      rw [slot]
      exact addFile_block con admits room live within nonzero' ne

variable (fileType) in
include con free admits room in
theorem addFile_consistent :
    Consistent G (m.addFile G.layout ino (m.slot dir k) p name fileType) := by
  have dirLive := con.dirLive dir admits.has admits.isDir
  have dirNe := con.ne_of_open admits.has admits.isDir free
  have inoLt : ino < 2 ^ 32 := lt_of_le_of_lt free.has.le G.wf.inodesCount_lt
  have notDir : ¬ (m.addFile G.layout ino (m.slot dir k) p name fileType).IsDir ino := by
    intro isDir
    have := isDir.symm.trans addFile_regular
    exact absurd this (by decide)
  have isDirIff : ∀ i, (m.addFile G.layout ino (m.slot dir k) p name fileType).IsDir i ↔ m.IsDir i := by
    intro i
    by_cases new : i = ino
    · rw [new]
      exact iff_of_false notDir (not_isDir_of_open con free)
    · unfold Disk.IsDir
      rw [addFile_mode new]
  have ne_of_isDir : ∀ {i}, (m.addFile G.layout ino (m.slot dir k) p name fileType).IsDir i →
      i ≠ ino := by
    rintro i isDir rfl
    exact notDir isDir
  have sameInode : ∀ {i}, i ≠ ino →
      m.addFile G.layout ino (m.slot dir k) p name fileType (.inode i) = m (.inode i) := by
    intro i ne
    rw [addFile_inode, if_neg ne]
  have used : ∀ b, (m.addFile G.layout ino (m.slot dir k) p name fileType).blockUsed G.layout b =
      m.blockUsed G.layout b := by
    intro b
    unfold Disk.blockUsed Disk.bitOf
    rw [addFile_other (by simp) (by simp), Disk.markInode_blockBitmap]
  have owns : Owns G.DataBlock (fun b => (m.addFile G.layout ino (m.slot dir k) p name
      fileType).blockUsed G.layout b = true)
      ((m.addFile G.layout ino (m.slot dir k) p name fileType).points G.layout) := by
    refine con.owns.congr ?_ fun b _ => by rw [used]
    rintro ⟨i, l⟩
    by_cases new : i = ino
    · subst new
      have before : m.points G.layout (i, l) = none :=
        Disk.points_eq_none fun live => Bool.noConfusion (live.2.symm.trans free.clear)
      rw [before]
      exact if_neg fun cond => cond.2.2 (by rw [addFile_slot cond.2.1, if_pos rfl])
    · refine Disk.points_congr ?_ fun _ _ => congrArg (Bytes.u32 · (40 + l * 4)) (sameInode new)
      rw [addFile_live free.has]
      tauto
  have group := con.inodeCounts.group_pos G.wf free.has free.clear
  have total := con.inodeCounts.total_pos free.has free.clear
  have groupLt : m.groupFreeInodes (G.layout.inodeGroup ino) < 2 ^ 16 := (m _).u16_lt _
  have totalLt : m.freeInodes < 2 ^ 32 := (m _).u32_lt _
  refine ⟨?_, ?_, ?_, ?_, ?_, slotUsed_of_owns owns, slotUnique_of_owns owns, owned_of_owns owns,
    ?_, ?_, ?_, ?_, ?_⟩
  · refine con.blockCounts.congr (fun g => ?_) (fun g => ?_) ?_
    · rw [addFile_other (by simp) (by simp), Disk.markInode_blockBitmap]
    · rw [addFile_other (by simp) (by simp), Disk.markInode_groupFreeBlocks]
    · rw [addFile_other (by simp) (by simp), Disk.markInode_freeBlocks]
  · refine (con.inodeCounts.mark G.wf true free.has free.clear ?_ ?_).congr
      (fun g => addFile_other (by simp) (by simp)) (fun g => addFile_other (by simp) (by simp))
      (addFile_other (by simp) (by simp))
    · exact lt_of_le_of_lt (Nat.sub_le _ 1) groupLt
    · exact lt_of_le_of_lt (Nat.sub_le _ 1) totalLt
  · intro g inRange
    have dirs : (m.addFile G.layout ino (m.slot dir k) p name fileType).usedDirs g = m.usedDirs g := by
      unfold Disk.usedDirs
      rw [addFile_other (by simp) (by simp), Disk.markInode_usedDirs]
    rw [dirs, con.dirCounts g inRange]
    exact count_congr fun j _ => (isDirIff _).symm
  · intro i has isDir
    exact (addFile_live free.has).mpr (.inr (con.dirLive i has ((isDirIff i).mp isDir)))
  · intro b has isMeta
    rw [used]
    exact con.metaUsed b has isMeta
  · intro i live kind
    by_cases new : i = ino
    · subst new
      have blocks : (m.addFile G.layout i (m.slot dir k) p name fileType).fileBlocks G.layout i = 0 := by
        unfold Disk.fileBlocks
        rw [addFile_size, divCeil_zero G.wf.blockSize_pos]
      refine ⟨by rw [blocks]; decide, fun l small => ?_, ?_⟩
      · rw [addFile_slot small, if_pos rfl, blocks]
        simp
      · rw [blocks, zero_mul]
        unfold Disk.sectors
        rw [addFile_inode, if_pos rfl]
        exact u32_zero fun o lower upper => get_fileInode G.wf (by omega) (by omega) (by omega)
    · refine Disk.shape_congr (sameInode new) (con.shape i ?_ ?_)
      · exact ((addFile_live free.has).mp live).resolve_left new
      · unfold Disk.IsRegular Disk.IsDir at kind ⊢
        rwa [addFile_mode new] at kind
  · intro i live regular
    by_cases new : i = ino
    · subst new
      unfold Disk.sizeHigh
      rw [addFile_inode, if_pos rfl]
      exact u32_zero fun o lower upper => get_fileInode G.wf (by omega) (by omega) (by omega)
    · unfold Disk.IsRegular at regular
      rw [addFile_mode new] at regular
      have high := con.sizeHigh i (((addFile_live free.has).mp live).resolve_left new) regular
      unfold Disk.sizeHigh at high ⊢
      rwa [sameInode new]
  · intro i has isDir
    have size := con.dirSize i has ((isDirIff i).mp isDir)
    unfold Disk.size at size ⊢
    rwa [sameInode (ne_of_isDir isDir)]
  · intro i has isDir l within
    have same := sameInode (ne_of_isDir isDir)
    have isDir' := (isDirIff i).mp isDir
    have within' : l < m.fileBlocks G.layout i := by
      unfold Disk.fileBlocks Disk.size at within ⊢
      rwa [same] at within
    have live := con.dirLive i has isDir'
    have few := (con.shape i live (.inr isDir')).blocks_le
    have small : l < inodeBlockCount := lt_of_lt_of_le within' (le_trans few (by decide))
    have old := con.dirBlock i has isDir' l within'
    have slot : (m.addFile G.layout ino (m.slot dir k) p name fileType).slot i l = m.slot i l :=
      congrArg (Bytes.u32 · (40 + l * 4)) same
    unfold Disk.block
    rw [slot]
    by_cases here : (i, l) = (dir, k)
    · obtain ⟨rfl, rfl⟩ := Prod.mk.inj here
      obtain ⟨left, right, -, split, chain, first, second, others⟩ :=
        insert_chain _ con admits room inoLt
      rw [addFile_data, if_pos rfl]
      change Disk.DirBlock G.layout _ (insertAt (m.block i l) p
        (direntSpan (recordAt (m.block i l) p).nameLen) ino name fileType)
      refine ⟨by rwa [chain.positions_eq], fun x mem named => ?_⟩
      rw [chain.positions_eq] at mem
      have oldLive : ∀ x, x ∈ left ++ p :: right → (recordAt (m.block i l) x).inode ≠ 0 →
          (m.addFile G.layout ino (m.slot i l) p name fileType).Live G.layout
            (recordAt (m.block i l) x).inode := by
        intro x inside nonzero
        rw [addFile_live free.has]
        refine .inr (old.live x ?_ nonzero)
        rwa [show positions (m.block i l) G.layout.blockSize = left ++ p :: right from split]
      simp only [List.mem_append, List.mem_cons] at mem
      rcases mem with inLeft | rfl | rfl | inRight
      · rw [others x (.inl inLeft)] at named ⊢
        exact oldLive x (by simp [inLeft]) named
      · rw [first] at named ⊢
        exact oldLive x (by simp) named
      · rw [second]
        exact (addFile_live free.has).mpr (.inl rfl)
      · rw [others x (.inr inRight)] at named ⊢
        exact oldLive x (by simp [inRight]) named
    · rw [addFile_block con admits room live small (con.dirData has isDir' within').1 here]
      exact ⟨old.chain, fun x mem named =>
        (addFile_live free.has).mpr (.inr (old.live x mem named))⟩
  · intro i live
    rw [addFile_refs con free admits room]
    by_cases new : i = ino
    · subst new
      rw [if_pos rfl, refs_of_free con free.has free.clear]
      exact addFile_links
    · rw [if_neg new, add_zero, ← con.links i (((addFile_live free.has).mp live).resolve_left new)]
      unfold Disk.links
      rw [sameInode new]

end AddFile

end Zaytos.Fs
