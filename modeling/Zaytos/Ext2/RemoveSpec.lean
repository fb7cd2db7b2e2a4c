import Zaytos.Ext2.CreateSpec

set_option autoImplicit false

/-! `unlink_file` and `remove_directory` on the areas of a consistent image. -/
namespace Zaytos.Fs

open Writer
open Exec (Wp Wlp)

namespace Disk

variable (L : Layout) (m : Disk)

/-- What is left when inode `ino` goes: its blocks are given back and cleared, and so is its
slot. -/
def erase (ino : Nat) : Disk := ((m.truncate L ino 0).clearInode L ino).markInode L ino false

/-- The counts can hold what inode `ino` gives back. -/
structure Erasable (ino : Nat) : Prop where
  spare : m.Spare L ino 0 (m.fileBlocks L ino)
  count_lt : m.groupFreeInodes (L.inodeGroup ino) + 1 < 2 ^ 16

/-- What `unlink_file` does to the file `ino`, whose record is `q` of block `b`. -/
def unlinkFile (ino b p q : Nat) : Disk := (m.erase L ino).removeRecord b p q

/-- What `remove_directory` does to the directory `ino`, whose record is `q` of block `b`. -/
def removeDirectory (ino parent b p q : Nat) : Disk :=
  (((m.erase L ino).setUsedDirs (L.inodeGroup ino) (m.usedDirs (L.inodeGroup ino) - 1)).setLinks
    parent (m.links parent - 1)).removeRecord b p q

/-- The records in use are `.` and `..`. -/
def OnlyDots (d : Bytes) (ps : List Nat) : Prop :=
  ∀ p ∈ ps, (recordAt d p).inode ≠ 0 → (recordAt d p).name = [46] ∨ (recordAt d p).name = [46, 46]

instance (d : Bytes) (ps : List Nat) : Decidable (OnlyDots d ps) := by
  unfold OnlyDots
  infer_instance

/-- What `directory_is_empty` says of a directory. -/
def Empty (ino : Nat) : Prop := m.slot ino 0 = 0 ∨ OnlyDots (m.block ino 0) (m.recordsOf L ino 0)

end Disk

variable {ino dir k p q i : Nat} {l r : List Nat} {name : List UInt8}

namespace Consistent

variable {G : Geometry} {m : Disk} (con : Consistent G m)
include con

theorem slotsUsed (live : m.Live G.layout ino) (kind : m.IsRegular ino ∨ m.IsDir ino) :
    Disk.SlotsUsed G m ino (m.fileBlocks G.layout ino) where
  bound_le := le_trans (con.shape ino live kind).blocks_le (by decide)
  used k small nonzero := by
    have few := (con.shape ino live kind).blocks_le
    exact con.slotUsed ino live k (lt_of_lt_of_le small (le_trans few (by decide))) nonzero
  unique k small l small' nonzero same := by
    have few := (con.shape ino live kind).blocks_le
    have bound : ∀ {x}, x < m.fileBlocks G.layout ino → x < inodeBlockCount :=
      fun h => lt_of_lt_of_le h (le_trans few (by decide))
    exact (con.slotUnique ino ino k l live live (bound small) (bound small') nonzero same).2

theorem found_live
    (found : Found G m dir name k l p q r) : m.Live G.layout (recordAt (m.block dir k) q).inode := by
  refine (con.dirBlock dir found.has found.isDir k found.block_lt).live q ?_ found.named.1
  have split := found.split
  unfold Disk.recordsOf at split
  rw [split]
  simp

theorem found_bounds (found : Found G m dir name k l p q r) :
    p + 8 ≤ q ∧ 8 ≤ (recordAt (m.block dir k) q).recLen ∧
      q + (recordAt (m.block dir k) q).recLen ≤ G.layout.blockSize := by
  have chain := (con.dirBlock dir found.has found.isDir k found.block_lt).chain
  have split := found.split
  unfold Disk.recordsOf at split
  rw [split] at chain
  obtain ⟨-, -, long, rfl, -, long', tail⟩ := Chain.split_iff.mp chain
  have := tail.le
  omega

theorem slot_ne {j l : Nat} (liveI : m.Live G.layout i) (liveJ : m.Live G.layout j)
    (ne : i ≠ j) (small : k < inodeBlockCount) (small' : l < inodeBlockCount)
    (nonzero : m.slot i k ≠ 0) : m.slot i k ≠ m.slot j l := fun same =>
  ne (con.slotUnique i j k l liveI liveJ small small' nonzero same).1

theorem untouched_data (has : G.layout.HasInode dir) (isDir : m.IsDir dir)
    (small : k < m.fileBlocks G.layout dir) (live : m.Live G.layout ino)
    (kind : m.IsRegular ino ∨ m.IsDir ino) (ne : dir ≠ ino) :
    m.Untouched ino (m.fileBlocks G.layout ino) (.data (m.slot dir k)) where
  notInode := by simp
  notData l lt := by
    have few := (con.shape ino live kind).blocks_le
    have few' := (con.shape dir (con.dirLive dir has isDir) (.inr isDir)).blocks_le
    have different := con.slot_ne (con.dirLive dir has isDir) live ne
      (lt_of_lt_of_le small (le_trans few' (by decide)))
      (lt_of_lt_of_le lt (le_trans few (by decide))) (con.dirData has isDir small).1
    simpa using different
  notBitmap := by simp
  notCount := by simp
  notTotal := by simp

theorem erase_block (has : G.layout.HasInode dir) (isDir : m.IsDir dir)
    (small : k < m.fileBlocks G.layout dir) (live : m.Live G.layout ino)
    (kind : m.IsRegular ino ∨ m.IsDir ino) (ne : dir ≠ ino) :
    m.erase G.layout ino (.data (m.slot dir k)) = m.block dir k := by
  unfold Disk.erase Disk.clearInode
  rw [Disk.markInode_data, Disk.set_of_ne _ (by simp), truncate_untouched (Nat.zero_le _)
    (con.untouched_data has isDir small live kind ne)]
  rfl

end Consistent

section Erase

variable {G : Geometry} {base image : Bytes} {m : Disk} (shows : G.Shows base image m)

theorem erase_inode_ne (ne : i ≠ ino) : m.erase G.layout ino (.inode i) = m (.inode i) := by
  unfold Disk.erase Disk.clearInode
  rw [Disk.markInode_inode, Disk.set_of_ne _ (by simpa using ne),
    truncate_untouched (Nat.zero_le _) ⟨by simpa using ne, by simp, by simp, by simp, by simp⟩]

theorem erase_usedDirs {g : Nat} : m.erase G.layout ino (.usedDirs g) = m (.usedDirs g) := by
  unfold Disk.erase Disk.clearInode
  rw [Disk.markInode_usedDirs, Disk.set_of_ne _ (by simp),
    truncate_untouched (Nat.zero_le _) ⟨by simp, by simp, by simp, by simp, by simp⟩]

theorem Geometry.Shows.ne_image {after : Bytes} {m' : Disk} (shows : G.Shows base image m)
    (shows' : G.Shows base after m') (ne : m' ≠ m) : after ≠ image := by
  rintro rfl
  exact ne (shows'.holds.view.symm.trans shows.holds.view)

theorem u16_clear {d : Bytes} {n : Nat} (inside : k + 2 ≤ n) :
    (d.put 0 n fun _ => 0).u16 k = 0 := by
  unfold Bytes.u16
  rw [Bytes.get_put_inside _ (by omega) (by omega), Bytes.get_put_inside _ (by omega) (by omega)]
  rfl

theorem erase_inode : m.erase G.layout ino (.inode ino) =
    ((m.truncate G.layout ino 0) (.inode ino)).put 0 G.layout.inodeSize fun _ => 0 := by
  unfold Disk.erase Disk.clearInode
  rw [Disk.markInode_inode, Disk.set_self]

theorem erase_links : (m.erase G.layout ino (.inode ino)).u16 26 = 0 := by
  rw [erase_inode]
  exact u16_clear (le_trans (by omega) G.wf.inodeSize_ge_128)

theorem erase_inode_self_ne (kind : m.IsRegular ino ∨ m.IsDir ino) :
    m.erase G.layout ino (.inode ino) ≠ m (.inode ino) := by
  intro same
  have mode : m.mode ino = 0 := by
    unfold Disk.mode
    rw [← same, erase_inode]
    exact u16_clear (le_trans (by omega) G.wf.inodeSize_ge_128)
  unfold Disk.IsRegular Disk.IsDir at kind
  rw [mode] at kind
  exact absurd kind (by decide)

variable (con : Consistent G m)
include shows con

theorem eraseInode_wp (live : m.Live G.layout ino) (kind : m.IsRegular ino ∨ m.IsDir ino) :
    Wp (eraseInode G.layout ino (G.areaPos (.inode ino))) image
      (fun _ after => m.Erasable G.layout ino ∧ G.Shows base after (m.erase G.layout ino))
      (fun _ after => ¬ m.Erasable G.layout ino ∧ ∃ m', G.Shows base after m' ∧ m' ≠ m) := by
  obtain ⟨has, used⟩ := live
  have sizeGe := G.wf.inodeSize_ge_128
  have slots := con.slotsUsed ⟨has, used⟩ kind
  have keep : divCeil 0 G.layout.blockSize = 0 := divCeil_zero G.wf.blockSize_pos
  have truncated := truncateTo_wp shows has con.blockCounts slots (Nat.zero_le _)
  simp only [keep, Nat.sub_zero] at truncated
  unfold eraseInode
  rw [Exec.wp_bind]
  refine truncated.mono ?_ ?_
  · rintro _ middle - ⟨spare, shows⟩
    refine shows.wp_store_bind (a := .inode ino) 0 G.layout.inodeSize has
      (le_of_eq (zero_add _)) fun middle shows => ?_
    change G.Shows base middle ((m.truncate G.layout ino 0).clearInode G.layout ino) at shows
    have frame : ∀ a, (∀ i, a ≠ .inode i) → (∀ b, a ≠ .data b) → (∀ g, a ≠ .blockBitmap g) →
        (∀ g, a ≠ .groupFreeBlocks g) → a ≠ .freeBlocks →
        (m.truncate G.layout ino 0).clearInode G.layout ino a = m a := by
      intro a notInode notData notBitmap notCount notTotal
      unfold Disk.clearInode
      rw [Disk.set_of_ne _ (notInode _), truncate_untouched (Nat.zero_le _)
        ⟨notInode _, fun k _ => notData _, notBitmap, notCount, notTotal⟩]
    have group : ((m.truncate G.layout ino 0).clearInode G.layout ino).groupFreeInodes
        (G.layout.inodeGroup ino) = m.groupFreeInodes (G.layout.inodeGroup ino) := by
      unfold Disk.groupFreeInodes
      rw [frame _ (by simp) (by simp) (by simp) (by simp) (by simp)]
    refine (freeInode_wp shows has ?_ ?_).mono ?_ ?_
    · unfold Disk.inodeUsed Disk.bitOf
      rw [frame _ (by simp) (by simp) (by simp) (by simp) (by simp)]
      exact used
    · unfold Disk.freeInodes
      rw [frame _ (by simp) (by simp) (by simp) (by simp) (by simp)]
      exact con.inodeCounts.total_lt G.wf has used
    · rintro _ after - ⟨countLt, shows⟩
      rw [group] at countLt
      exact ⟨⟨spare, countLt⟩, shows⟩
    · rintro e after - ⟨countGe, -, rfl⟩
      rw [group] at countGe
      refine ⟨fun erasable => ?_, _, shows, fun same => ?_⟩
      · have := erasable.count_lt
        omega
      · have mode : m.mode ino = 0 := by
          rw [← same]
          unfold Disk.mode Disk.clearInode
          rw [Disk.set_self]
          exact u16_clear (le_trans (by omega) sizeGe)
        unfold Disk.IsRegular Disk.IsDir at kind
        rw [mode] at kind
        exact absurd kind (by decide)
  · rintro e after - ⟨notSpare, -, m', k, shows, nonzero, zero⟩
    refine ⟨fun erasable => notSpare erasable.spare, m', shows, ?_⟩
    rintro rfl
    exact nonzero zero

/-- `unlink_file` removes a file and its name, or leaves the image as it was, or gives up half
way because a count or a length would overflow. -/
theorem unlinkFile_wp (dir : Nat) (name : List UInt8) :
    Wp (unlinkFile G.layout dir name) image
      (fun _ after => ∃ k l p q r ino, Found G m dir name k l p q r ∧
        ino = (recordAt (m.block dir k) q).inode ∧ m.IsRegular ino ∧ m.Erasable G.layout ino ∧
        (recordAt (m.block dir k) p).recLen + (recordAt (m.block dir k) q).recLen < 2 ^ 16 ∧
        G.Shows base after (m.unlinkFile G.layout ino (m.slot dir k) p q))
      (fun _ after => (after = image ∧ ∀ k l p q r, Found G m dir name k l p q r →
          ¬ m.IsRegular (recordAt (m.block dir k) q).inode) ∨
        ∃ k l p q r m', Found G m dir name k l p q r ∧
          m.IsRegular (recordAt (m.block dir k) q).inode ∧
          ¬ (m.Erasable G.layout (recordAt (m.block dir k) q).inode ∧
            (recordAt (m.block dir k) p).recLen + (recordAt (m.block dir k) q).recLen < 2 ^ 16) ∧
          G.Shows base after m' ∧ m' ≠ m) := by
  unfold unlinkFile
  rw [Exec.wp_bind]
  refine (entryOf_wp shows con).mono ?_
    (fun _ _ _ h => .inl ⟨h.1, fun k l p q r found => absurd found (h.2 k l p q r)⟩)
  rintro _ _ - ⟨rfl, k, l, p, q, r, found, rfl⟩
  have live := con.found_live found
  obtain ⟨order, header, inside⟩ := con.found_bounds found
  have data := (con.dirData found.has found.isDir found.block_lt).2.1
  generalize inoEq : (recordAt (m.block dir k) q).inode = ino at live ⊢
  have slotEnd := inode_end_le shows live.1
  unfold inodeAtOr
  simp only [Exec.wp_bind, Exec.wp_read, shows.inodeAt_of_has live.1, Result.okOr_ok, Result.sat_ok,
    wp_readU16, mode_eq shows live.1, Exec.wp_rejectIf]
  refine ⟨by omega, fun other => .inl ⟨trivial, fun k' l' p' q' r' found' regular => ?_⟩,
    fun regular => ?_⟩
  · obtain ⟨rfl, -, -, rfl, -⟩ := found.unique found'
    rw [inoEq] at regular
    exact other regular
  · have isRegular : m.IsRegular ino := not_not.mp regular
    have dirNe : dir ≠ ino := by
      rintro rfl
      have := found.isDir.symm.trans isRegular
      exact absurd this (by decide)
    have dataEq := con.erase_block found.has found.isDir found.block_lt live (.inl isRegular) dirNe
    refine (eraseInode_wp shows con live (.inl isRegular)).mono ?_ ?_
    · rintro _ middle - ⟨erasable, shows⟩
      refine (removeDirent_wp shows data order (by rwa [dataEq]) (by rwa [dataEq])).mono ?_ ?_
      · rintro _ after - ⟨fits, shows⟩
        rw [dataEq] at fits
        exact ⟨k, l, p, q, r, ino, found, inoEq.symm, isRegular, erasable, fits, shows⟩
      · rintro e after - ⟨large, rfl⟩
        rw [dataEq] at large
        refine .inr ⟨k, l, p, q, r, _, found, by rwa [inoEq], fun both => by omega, shows, ?_⟩
        exact fun same => erase_inode_self_ne (.inl isRegular) (congrFun same _)
    · rintro e after - ⟨notErasable, m', shows, ne⟩
      refine .inr ⟨k, l, p, q, r, m', found, by rwa [inoEq], fun both => ?_, shows, ne⟩
      rw [inoEq] at both
      exact notErasable both.1

omit con in
theorem emptyFrom_eq {b : Nat} (data : G.DataBlock b) (ps : List Nat) {pos fuel : Nat}
    (chain : Chain (m (.data b)) G.layout.blockSize pos ps) (enough : ps.length ≤ fuel) :
    emptyFrom image G.layout.blockSize (b * G.layout.blockSize) fuel pos =
      .ok (decide (Disk.OnlyDots (m (.data b)) ps)) := by
  have blockEnd : b * G.layout.blockSize + G.layout.blockSize ≤ image.len :=
    shows.area_le (a := .data b) data
  induction ps generalizing pos fuel with
  | nil =>
    have atEnd : pos = G.layout.blockSize := chain
    have past : ¬ pos + direntHeaderLen ≤ G.layout.blockSize := by
      simp only [direntHeaderLen]
      omega
    have trivially : decide (Disk.OnlyDots (m (.data b)) []) = true := by simp [Disk.OnlyDots]
    rw [trivially]
    cases fuel <;> exact if_neg past
  | cons p rest ih =>
    have bounds := chain.mem_bounds List.mem_cons_self
    obtain ⟨rfl, aligned, long, tail⟩ := chain
    have record := shows.recordAt_data (p := p) data (by omega)
    cases fuel with
    | zero => simp at enough
    | succ fuel =>
      have next := ih tail (by simpa using enough)
      have header : p + direntHeaderLen ≤ G.layout.blockSize := by
        simp only [direntHeaderLen]
        omega
      have recLen : image.u16 (b * G.layout.blockSize + p + 4) = (recordAt (m (.data b)) p).recLen := by
        rw [← record]
        rfl
      have inode : image.u32 (b * G.layout.blockSize + p) = (recordAt (m (.data b)) p).inode := by
        rw [← record]
        rfl
      have nameLen : (image.get (b * G.layout.blockSize + p + 6)).toNat =
          (recordAt (m (.data b)) p).nameLen := by
        rw [← record]
        rfl
      have name : image.view (b * G.layout.blockSize + p + 8) (recordAt (m (.data b)) p).nameLen =
          (recordAt (m (.data b)) p).name := by
        rw [← record]
        rfl
      have accepted : ¬ ((recordAt (m (.data b)) p).recLen < direntHeaderLen ∨
          G.layout.blockSize < p + (recordAt (m (.data b)) p).recLen) := by
        simp only [direntHeaderLen]
        omega
      have split : Disk.OnlyDots (m (.data b)) (p :: rest) ↔
          ((recordAt (m (.data b)) p).inode ≠ 0 → (recordAt (m (.data b)) p).name = [46] ∨
            (recordAt (m (.data b)) p).name = [46, 46]) ∧ Disk.OnlyDots (m (.data b)) rest := by
        simp only [Disk.OnlyDots, List.forall_mem_cons]
      unfold emptyFrom
      rw [if_pos header]
      dsimp only
      rw [Bytes.readU16_of_le (by omega), Result.lift_some, Result.ok_bind, recLen,
        Result.rejectIf_bind, if_neg accepted, Bytes.readU32_of_le (by omega), Result.lift_some,
        Result.ok_bind, inode, Bytes.readU8_of_lt (by omega), Result.lift_some, Result.ok_bind,
        nameLen]
      by_cases unused : (recordAt (m (.data b)) p).inode = 0
      · rw [if_neg (not_not.mpr unused), next]
        congr 1
        refine decide_eq_decide.mpr (split.trans ?_).symm
        exact and_iff_right fun used => absurd unused used
      rw [if_pos unused, Bytes.slice_of_le (by omega) (by simp only [direntHeaderLen]; omega),
        Result.lift_some, Result.ok_bind, Nat.add_sub_cancel_left, Bytes.toList_shift, name]
      by_cases dots : (recordAt (m (.data b)) p).name ≠ [46] ∧
          (recordAt (m (.data b)) p).name ≠ [46, 46]
      · rw [if_pos dots, Result.pure_eq]
        congr 1
        exact (decide_eq_false (by rw [split]; tauto)).symm
      · rw [if_neg dots, next]
        congr 1
        refine decide_eq_decide.mpr (split.trans ?_).symm
        exact and_iff_right fun _ => or_iff_not_imp_left.mpr fun notDot => by tauto

theorem directoryIsEmpty_eq (has : G.layout.HasInode ino) (isDir : m.IsDir ino) :
    ∃ empty, directoryIsEmpty G.layout image ino = .ok empty ∧
      (empty = true ↔ m.Empty G.layout ino) := by
  have slotEnd := inode_end_le shows has
  have first : image.u32 (G.areaPos (.inode ino) + 40) = m.slot ino 0 :=
    slot_eq shows has (k := 0) (by omega)
  unfold directoryIsEmpty
  rw [shows.inodeAt_of_has has, Result.okOr_ok, Result.ok_bind, Bytes.readU32_of_le (by omega),
    Result.lift_some, Result.ok_bind, first]
  by_cases none : m.slot ino 0 = 0
  · rw [if_pos none]
    exact ⟨true, rfl, iff_of_true rfl (.inl none)⟩
  · rw [if_neg none]
    have shape := con.shape ino (con.dirLive ino has isDir) (.inr isDir)
    have small : 0 < m.fileBlocks G.layout ino := (shape.slot_iff 0 (by decide)).mp none
    obtain ⟨-, data, -⟩ := con.dirData has isDir small
    have blockLt : m.slot ino 0 < 2 ^ 32 := lt_trans data.1.2 G.wf.blocksCount_lt
    have chain := (con.dirBlock ino has isDir 0 small).chain
    have length := chain.length_le
    rw [Layout.blockAt_of_lt G.wf blockLt, Result.ok_bind,
      emptyFrom_eq shows data _ chain (by omega)]
    refine ⟨_, rfl, ?_⟩
    rw [decide_eq_true_iff]
    exact ⟨.inr, fun h => h.resolve_left none⟩

/-- What `remove_directory` needs of the directory it is to remove. -/
structure Removable (G : Geometry) (m : Disk) (ino parent k p q : Nat) : Prop where
  erasable : m.Erasable G.layout ino
  ne : parent ≠ ino
  links_pos : 0 < m.links parent
  fits : (recordAt (m.block parent k) p).recLen + (recordAt (m.block parent k) q).recLen < 2 ^ 16

omit shows con in
theorem addSigned16_neg_one {v : Nat} (small : v < 2 ^ 16) :
    addSigned16 v (-1) = if 0 < v then some (v - 1) else none := by
  unfold addSigned16
  split
  · rw [if_pos (by omega)]
    congr 1
    omega
  · rw [if_neg (by omega)]

omit shows in
theorem Consistent.usedDirs_pos (has : G.layout.HasInode ino) (isDir : m.IsDir ino) :
    0 < m.usedDirs (G.layout.inodeGroup ino) := by
  rw [con.dirCounts _ has.group_lt]
  refine count_pos (Layout.inodeIndex_lt G.wf has) ?_
  rwa [← Layout.inode_eq has]

theorem removeDirectory_wp (parent : Nat) (name : List UInt8) :
    Wp (removeDirectory G.layout parent name) image
      (fun _ after => ∃ k l p q r ino, Found G m parent name k l p q r ∧
        ino = (recordAt (m.block parent k) q).inode ∧ m.IsDir ino ∧ m.Empty G.layout ino ∧
        Removable G m ino parent k p q ∧
        G.Shows base after (m.removeDirectory G.layout ino parent (m.slot parent k) p q))
      (fun _ after => (after = image ∧ ∀ k l p q r, Found G m parent name k l p q r →
          ¬ (m.IsDir (recordAt (m.block parent k) q).inode ∧
            m.Empty G.layout (recordAt (m.block parent k) q).inode)) ∨
        ∃ k l p q r m', Found G m parent name k l p q r ∧
          m.IsDir (recordAt (m.block parent k) q).inode ∧
          m.Empty G.layout (recordAt (m.block parent k) q).inode ∧
          ¬ Removable G m (recordAt (m.block parent k) q).inode parent k p q ∧
          G.Shows base after m' ∧ m' ≠ m) := by
  unfold removeDirectory
  rw [Exec.wp_bind]
  refine (entryOf_wp shows con).mono ?_
    (fun _ _ _ h => .inl ⟨h.1, fun k l p q r found => absurd found (h.2 k l p q r)⟩)
  rintro _ _ - ⟨rfl, k, l, p, q, r, found, rfl⟩
  have live := con.found_live found
  obtain ⟨order, header, inside⟩ := con.found_bounds found
  have data := (con.dirData found.has found.isDir found.block_lt).2.1
  generalize inoEq : (recordAt (m.block parent k) q).inode = ino at live ⊢
  have slotEnd := inode_end_le shows live.1
  unfold inodeAtOr
  simp only [Exec.wp_bind, Exec.wp_read, shows.inodeAt_of_has live.1, Result.okOr_ok, Result.sat_ok,
    wp_readU16, mode_eq shows live.1, Exec.wp_rejectIf]
  refine ⟨by omega, fun other => .inl ⟨trivial, fun k' l' p' q' r' found' both => ?_⟩,
    fun notOther => ?_⟩
  · obtain ⟨rfl, -, -, rfl, -⟩ := found.unique found'
    rw [inoEq] at both
    exact other both.1
  have isDir : m.IsDir ino := not_not.mp notOther
  obtain ⟨empty, run, emptyIff⟩ := directoryIsEmpty_eq shows con live.1 isDir
  rw [run, Result.sat_ok]
  refine ⟨fun full => .inl ⟨trivial, fun k' l' p' q' r' found' both => ?_⟩, fun notFull => ?_⟩
  · obtain ⟨rfl, -, -, rfl, -⟩ := found.unique found'
    rw [inoEq, ← emptyIff] at both
    simp [both.2] at full
  have isEmpty : m.Empty G.layout ino := emptyIff.mp (by simpa using notFull)
  -- What is left to show in every branch that gives up.
  have giveUp : ∀ after m', G.Shows base after m' → m' ≠ m → ¬ Removable G m ino parent k p q →
      ∃ k l p q r m', Found G m parent name k l p q r ∧
        m.IsDir (recordAt (m.block parent k) q).inode ∧
        m.Empty G.layout (recordAt (m.block parent k) q).inode ∧
        ¬ Removable G m (recordAt (m.block parent k) q).inode parent k p q ∧
        G.Shows base after m' ∧ m' ≠ m := by
    intro after m' shows ne not
    exact ⟨k, l, p, q, r, m', found, by rwa [inoEq], by rwa [inoEq], by rwa [inoEq], shows, ne⟩
  refine (eraseInode_wp shows con live (.inr isDir)).mono ?_ ?_
  · rintro _ middle - ⟨erasable, shows⟩
    have erased : m.erase G.layout ino (.inode ino) ≠ m (.inode ino) :=
      erase_inode_self_ne (.inr isDir)
    have dirs : (m.erase G.layout ino).usedDirs (G.layout.inodeGroup ino) =
        m.usedDirs (G.layout.inodeGroup ino) := congrArg (Bytes.u16 · 0) erase_usedDirs
    have dirsPos := con.usedDirs_pos live.1 isDir
    have dirsLt : m.usedDirs (G.layout.inodeGroup ino) < 2 ^ 16 := (m _).u16_lt _
    have linksLt : m.links parent < 2 ^ 16 := (m _).u16_lt _
    refine (bumpUsedDirs_wp shows live.1).mono ?_ ?_
    · rintro _ middle - ⟨v, dirsEq, shows⟩
      rw [dirs, addSigned16_neg_one dirsLt, if_pos dirsPos] at dirsEq
      obtain rfl := Option.some.inj dirsEq
      have inodes : ∀ i, (m.erase G.layout ino).setUsedDirs (G.layout.inodeGroup ino)
          (m.usedDirs (G.layout.inodeGroup ino) - 1) (.inode i) = m.erase G.layout ino (.inode i) :=
        fun i => Disk.set_of_ne _ (by simp)
      refine (bumpLinks_wp shows found.has).mono ?_ ?_
      · rintro _ middle - ⟨v, linksEq, shows⟩
        have ne : parent ≠ ino := by
          rintro rfl
          rw [Disk.links, inodes, erase_links, addSigned16_neg_one (by decide)] at linksEq
          cases linksEq
        rw [Disk.links, inodes, erase_inode_ne ne, ← Disk.links, addSigned16_neg_one linksLt] at linksEq
        split at linksEq
        · rename_i linksPos
          obtain rfl := Option.some.inj linksEq
          have dataEq : (((m.erase G.layout ino).setUsedDirs (G.layout.inodeGroup ino)
              (m.usedDirs (G.layout.inodeGroup ino) - 1)).setLinks parent (m.links parent - 1))
              (.data (m.slot parent k)) = m.block parent k := by
            rw [← con.erase_block found.has found.isDir found.block_lt live (.inr isDir) ne]
            unfold Disk.setLinks Disk.setUsedDirs
            rw [Disk.set_of_ne _ (by simp), Disk.set_of_ne _ (by simp)]
          refine (removeDirent_wp shows data order (by rwa [dataEq]) (by rwa [dataEq])).mono ?_ ?_
          · rintro _ after - ⟨fits, shows⟩
            rw [dataEq] at fits
            exact ⟨k, l, p, q, r, ino, found, inoEq.symm, isDir, isEmpty,
              ⟨erasable, ne, linksPos, fits⟩, shows⟩
          · rintro e after - ⟨large, rfl⟩
            rw [dataEq] at large
            refine .inr (giveUp _ _ shows (fun same => erased ?_) fun removable => ?_)
            · rw [← inodes]
              exact (Disk.set_of_ne _ (by simpa using ne.symm)).symm.trans (congrFun same _)
            · have := removable.fits
              omega
        · cases linksEq
      · rintro e after - ⟨none, rfl⟩
        refine .inr (giveUp _ _ shows (fun same => erased ?_) fun removable => ?_)
        · rw [← inodes]
          exact congrFun same _
        · rw [Disk.links, inodes, erase_inode_ne removable.ne, ← Disk.links,
            addSigned16_neg_one linksLt, if_pos removable.links_pos] at none
          cases none
    · rintro e after - ⟨none, rfl⟩
      rw [dirs, addSigned16_neg_one dirsLt, if_pos dirsPos] at none
      cases none
  · rintro e after - ⟨notErasable, m', shows, ne⟩
    exact .inr (giveUp after m' shows ne fun removable => notErasable removable.erasable)

end Erase

end Zaytos.Fs
