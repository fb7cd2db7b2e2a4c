import Zaytos.Ext2.NameSpec

set_option autoImplicit false

/-! `create_file` and `create_directory` on the areas of a consistent image. -/
namespace Zaytos.Fs

open Writer
open Exec (Wp Wlp)

namespace Disk

variable (L : Layout) (m : Disk)

/-- Inode `ino` becomes an empty file, and the record at `p` of block `b` makes room for its
name. -/
def addFile (ino b p : Nat) (name : List UInt8) (fileType : UInt8) : Disk :=
  ((m.markInode L ino true).set (.inode ino) (fileInode L (m (.inode ino)))).insertRecord b p ino
    name fileType

/-- What `create_file` does. -/
def createFile (ino b p : Nat) (name : List UInt8) : Disk :=
  m.addFile L ino b p name direntTypeRegular

/-- What `create_directory` does before it counts: inode `ino` becomes a directory with the
one block `block`. -/
def newDirectory (ino block parent b p : Nat) (name : List UInt8) : Disk :=
  ((((m.markInode L ino true).markBlock L block true).set (.inode ino)
    (dirInode L (m (.inode ino)) block)).set (.data block)
    (dots L (m (.data block)) ino parent)).insertRecord b p ino name direntTypeDirectory

/-- What `create_directory` does. -/
def createDirectory (ino block parent b p : Nat) (name : List UInt8) : Disk :=
  ((m.newDirectory L ino block parent b p name).setLinks parent (m.links parent + 1)).setUsedDirs
    (L.inodeGroup ino) (m.usedDirs (L.inodeGroup ino) + 1)

end Disk

namespace Disk

variable {L : Layout} {m : Disk} {ino block parent b p : Nat} {name : List UInt8}

theorem newDirectory_inode_ne {i : Nat} (ne : i ≠ ino) :
    m.newDirectory L ino block parent b p name (.inode i) = m (.inode i) := by
  unfold newDirectory insertRecord
  rw [set_of_ne _ (by simp), set_of_ne _ (by simp), set_of_ne _ (by simpa using ne),
    markBlock_inode, markInode_inode]

theorem newDirectory_inodeBitmap {g : Nat} :
    m.newDirectory L ino block parent b p name (.inodeBitmap g) =
      m.markInode L ino true (.inodeBitmap g) := by
  unfold newDirectory insertRecord
  rw [set_of_ne _ (by simp), set_of_ne _ (by simp), set_of_ne _ (by simp), markBlock_inodeBitmap]

theorem newDirectory_usedDirs {g : Nat} :
    m.newDirectory L ino block parent b p name (.usedDirs g) = m (.usedDirs g) := by
  unfold newDirectory insertRecord
  rw [set_of_ne _ (by simp), set_of_ne _ (by simp), set_of_ne _ (by simp), markBlock_usedDirs,
    markInode_usedDirs]

end Disk

/-- The record at `p` of block `k` of a directory can be split to make room for a name. -/
structure Room (G : Geometry) (m : Disk) (dir : Nat) (name : List UInt8) (k p : Nat) : Prop where
  record : RecordIn G m dir k p
  roomy : Roomy (m.block dir k) (direntSpan name.length) p

theorem addSigned16_one {v : Nat} : addSigned16 v 1 = if v + 1 < 2 ^ 16 then some (v + 1) else none := by
  unfold addSigned16
  split
  · rw [if_pos (by omega)]
    congr 1
  · rw [if_neg (by omega)]

theorem Layout.Wf.extra_le {L : Layout} (wf : L.Wf) (extra : L.wantExtraIsize ≠ 0) :
    inodeExtraIsize + 2 ≤ L.inodeSize := by
  have fits := wf.wantExtraIsize_fits extra
  obtain ⟨k, size⟩ := wf.inodeSize_pow
  rw [size] at fits ⊢
  have large : 7 < k := by
    by_contra small
    have : 2 ^ k ≤ 2 ^ 7 := Nat.pow_le_pow_right (by omega) (by omega)
    simp only [inodeCoreLen] at fits
    omega
  have : 2 ^ 8 ≤ 2 ^ k := Nat.pow_le_pow_right (by omega) large
  simp only [inodeExtraIsize, inodeCoreLen]
  omega

namespace Consistent

variable {G : Geometry} {m : Disk} (con : Consistent G m)
include con

theorem room_bounds {dir k p : Nat} {name : List UInt8} (admits : Admits G m dir name)
    (room : Room G m dir name k p) :
    direntSpan (recordAt (m.block dir k) p).nameLen + direntSpan name.length ≤
        (recordAt (m.block dir k) p).recLen ∧
      p + (recordAt (m.block dir k) p).recLen ≤ G.layout.blockSize := by
  have bounds := (con.dirBlock dir admits.has admits.isDir k room.record.block_lt).chain.mem_bounds
    room.record.mem
  have span := direntSpan_le bounds.2.1 bounds.2.2.1
  have want := room.roomy.2
  have nameGe := le_direntSpan name.length
  omega

theorem dataBlock_of_clear {b : Nat} (has : G.layout.HasBlock b)
    (clear : m.blockUsed G.layout b = false) : G.DataBlock b := by
  refine ⟨has, fun isMeta => ?_⟩
  exact Bool.noConfusion ((con.metaUsed b has isMeta).symm.trans clear)

theorem ne_of_open {dir ino : Nat} (has : G.layout.HasInode dir) (isDir : m.IsDir dir)
    (free : m.Open G.layout ino) : dir ≠ ino := by
  rintro rfl
  exact Bool.noConfusion ((con.dirLive dir has isDir).2.symm.trans free.clear)

end Consistent

section Create

variable {G : Geometry} {base image : Bytes} {m : Disk} (shows : G.Shows base image m)

include shows in
theorem storeExtraIsize_wp {ino : Nat} (has : G.layout.HasInode ino) :
    Wp (storeExtraIsize G.layout (G.areaPos (.inode ino))) image
      (fun _ after => G.Shows base after (m.set (.inode ino) (withExtra G.layout (m (.inode ino)))))
      (fun _ _ => False) := by
  unfold storeExtraIsize withExtra
  by_cases extra : G.layout.wantExtraIsize ≠ 0
  · rw [if_pos extra, if_pos extra]
    exact shows.wp_store (a := .inode ino) inodeExtraIsize 2 has (G.wf.extra_le extra)
  · rw [if_neg extra, if_neg extra, Disk.set_eq_self]
    exact shows

include shows in
theorem writeFileInode_wp {ino : Nat} (has : G.layout.HasInode ino) :
    Wp (writeFileInode G.layout (G.areaPos (.inode ino))) image
      (fun _ after => G.Shows base after (m.set (.inode ino) (fileInode G.layout (m (.inode ino)))))
      (fun _ _ => False) := by
  have sizeGe := G.wf.inodeSize_ge_128
  have len : G.areaLen (.inode ino) = G.layout.inodeSize := rfl
  refine shows.wp_store_bind (a := .inode ino) 0 G.layout.inodeSize has (by omega) fun _ shows => ?_
  refine shows.wp_store_bind (a := .inode ino) 0 2 has (by omega) fun _ shows => ?_
  rw [Exec.wp_bind]
  refine (storeExtraIsize_wp shows has).mono (fun _ _ _ shows => ?_) (fun _ _ _ h => h)
  refine (shows.wp_store (a := .inode ino) 26 2 has (by omega)).mono (fun _ _ _ h => ?_)
    (fun _ _ _ h => h)
  simp only [Disk.set_self, Disk.set_set] at h
  exact h

include shows in
theorem writeDirectoryInode_wp {ino block : Nat} (has : G.layout.HasInode ino) :
    Wp (writeDirectoryInode G.layout (G.areaPos (.inode ino)) block) image
      (fun _ after =>
        G.Shows base after (m.set (.inode ino) (dirInode G.layout (m (.inode ino)) block)))
      (fun _ _ => False) := by
  have sizeGe := G.wf.inodeSize_ge_128
  have len : G.areaLen (.inode ino) = G.layout.inodeSize := rfl
  refine shows.wp_store_bind (a := .inode ino) 0 G.layout.inodeSize has (by omega) fun _ shows => ?_
  refine shows.wp_store_bind (a := .inode ino) 0 2 has (by omega) fun _ shows => ?_
  refine shows.wp_store_bind (a := .inode ino) 4 4 has (by omega) fun _ shows => ?_
  refine shows.wp_store_bind (a := .inode ino) 26 2 has (by omega) fun _ shows => ?_
  refine shows.wp_store_bind (a := .inode ino) 28 4 has (by omega) fun _ shows => ?_
  refine shows.wp_store_bind (a := .inode ino) 40 4 has (by omega) fun _ shows => ?_
  refine (storeExtraIsize_wp shows has).mono (fun _ _ _ h => ?_) (fun _ _ _ h => h)
  simp only [Disk.set_self, Disk.set_set] at h
  exact h

include shows in
theorem writeDots_wp {b ino parent : Nat} (data : G.DataBlock b) :
    Wp (writeDots G.layout (b * G.layout.blockSize) ino parent) image
      (fun _ after =>
        G.Shows base after (m.set (.data b) (dots G.layout (m (.data b)) ino parent)))
      (fun _ _ => False) := by
  have sizeGe := G.wf.blockSize_ge
  have len : G.areaLen (.data b) = G.layout.blockSize := rfl
  have valid : G.areaValid (.data b) := data
  unfold writeDots
  refine shows.wp_store_bind (a := .data b) 0 G.layout.blockSize valid (by omega) fun _ shows => ?_
  refine shows.wp_store_bind (a := .data b) 0 4 valid (by omega) fun _ shows => ?_
  refine shows.wp_store_bind (a := .data b) 4 2 valid (by omega) fun _ shows => ?_
  refine shows.wp_store_bind (a := .data b) 6 1 valid (by omega) fun _ shows => ?_
  refine shows.wp_store_bind (a := .data b) 7 1 valid (by omega) fun _ shows => ?_
  refine shows.wp_store_bind (a := .data b) 8 1 valid (by omega) fun _ shows => ?_
  rw [Exec.wp_bind, Exec.wp_lift]
  refine ⟨_, sub_of_le (show direntSpan 1 ≤ G.layout.blockSize from le_trans (by decide) sizeGe), ?_⟩
  refine shows.wp_store_bind (a := .data b) 12 4 valid (by omega) fun _ shows => ?_
  refine shows.wp_store_bind (a := .data b) 16 2 valid (by omega) fun _ shows => ?_
  refine shows.wp_store_bind (a := .data b) 18 1 valid (by omega) fun _ shows => ?_
  refine shows.wp_store_bind (a := .data b) 19 1 valid (by omega) fun _ shows => ?_
  refine shows.wp_store_bind (a := .data b) 20 1 valid (by omega) fun _ shows => ?_
  refine (shows.wp_store (a := .data b) 21 1 valid (by omega)).mono (fun _ _ _ h => ?_)
    (fun _ _ _ h => h)
  simp only [Disk.set_self, Disk.set_set] at h
  exact h

variable (con : Consistent G m)
include shows con

/-- `create_file` makes an empty file with one name, or leaves the image as it was when the
directory does not take the name or there is no inode. -/
theorem createFile_wp (dir : Nat) (name : List UInt8)
    (total : Exec.Total (allocateInode G.layout) image) :
    Wp (createFile G.layout dir name) image
      (fun ino after => m.FirstOpen G.layout ino ∧ Admits G m dir name ∧ ∃ k p,
        Room G m dir name k p ∧
        G.Shows base after (m.createFile G.layout ino (m.slot dir k) p name))
      (fun _ after => after = image ∧ ¬ (Admits G m dir name ∧ ∃ ino, m.Open G.layout ino)) := by
  unfold createFile
  rw [Exec.wp_bind]
  refine (roomFor_wp shows con).mono ?_ (fun _ _ _ h => ⟨h.1, fun both => h.2 both.1⟩)
  rintro _ _ - ⟨rfl, admits, k, p, record, roomy, rfl⟩
  have room : Room G m dir name k p := ⟨record, roomy⟩
  obtain ⟨span, inside⟩ := con.room_bounds admits room
  have data := (con.dirData admits.has admits.isDir record.block_lt).2.1
  rw [Exec.wp_bind]
  refine ((allocateInode_wlp shows con.inodeCounts).wp total).mono ?_
    (fun _ _ _ h => ⟨h.2.1, fun both => both.2.elim h.2.2⟩)
  rintro ino middle - ⟨first, shows⟩
  have has := first.1.has
  unfold inodeAtOr
  rw [Exec.wp_bind, Exec.wp_read, shows.inodeAt_of_has has, Result.okOr_ok, Result.sat_ok]
  rw [Exec.wp_bind]
  refine (writeFileInode_wp shows has).mono ?_ (fun _ _ _ h => h.elim)
  intro _ after _ shows
  rw [Exec.wp_bind]
  have dataEq : ((m.markInode G.layout ino true).set (.inode ino)
      (fileInode G.layout ((m.markInode G.layout ino true) (.inode ino)))) (.data (m.slot dir k)) =
      m.block dir k := by
    rw [Disk.set_of_ne _ (by simp), Disk.markInode_data]
    rfl
  refine (insertDirent_wp shows data (by rwa [dataEq]) (by rwa [dataEq])).mono ?_
    (fun _ _ _ h => h.elim)
  intro _ after _ shows
  rw [Disk.markInode_inode] at shows
  exact ⟨first, admits, k, p, room, shows⟩

theorem createFile_of_not_total {dir : Nat} {name : List UInt8}
    (not : ¬ Exec.Total (allocateInode G.layout) image) :
    Wlp (createFile G.layout dir name) image (fun _ _ => False) (fun _ after => after = image) := by
  have faults := not_not.mp (Exec.total_iff_ne.not.mp not)
  unfold createFile
  rw [Exec.wlp_bind]
  refine (roomFor_wp shows con).wlp.mono ?_ (fun _ _ _ h => h.1)
  rintro _ _ - ⟨rfl, -⟩
  rw [Exec.wlp_bind]
  unfold Wlp
  rw [faults]
  trivial

theorem createFile_wlp {dir : Nat} {name : List UInt8} :
    Wlp (createFile G.layout dir name) image
      (fun ino after => m.FirstOpen G.layout ino ∧ Admits G m dir name ∧ ∃ k p,
        Room G m dir name k p ∧
        G.Shows base after (m.createFile G.layout ino (m.slot dir k) p name))
      (fun _ after => after = image) := by
  by_cases total : Exec.Total (allocateInode G.layout) image
  · exact (createFile_wp shows con _ _ total).wlp.mono (fun _ _ _ h => h) (fun _ _ _ h => h.1)
  · exact (createFile_of_not_total shows con total).mono (fun _ _ _ h => h.elim) (fun _ _ _ h => h)

/-- What `create_directory` can run out of once it has taken inode `ino`. -/
def Cramped (G : Geometry) (m : Disk) (parent ino : Nat) : Prop :=
  (∀ b, G.layout.HasBlock b → m.blockUsed G.layout b = true) ∨ 2 ^ 16 ≤ m.links parent + 1 ∨
    2 ^ 16 ≤ m.usedDirs (G.layout.inodeGroup ino) + 1

/-- The block, the record and the counts that `create_directory` needs. -/
structure Buildable (G : Geometry) (m : Disk) (parent ino block k p : Nat) (name : List UInt8) :
    Prop where
  first : m.FirstOpen G.layout ino
  admits : Admits G m parent name
  hasBlock : G.layout.HasBlock block
  clear : m.blockUsed G.layout block = false
  room : Room G m parent name k p
  links_lt : m.links parent + 1 < 2 ^ 16
  dirs_lt : m.usedDirs (G.layout.inodeGroup ino) + 1 < 2 ^ 16

theorem createDirectory_wp (parent : Nat) (name : List UInt8)
    (total : Exec.Total (allocateInode G.layout) image) :
    Wp (createDirectory G.layout parent name) image
      (fun ino after => ∃ block k p, Buildable G m parent ino block k p name ∧
        G.Shows base after (m.createDirectory G.layout ino block parent (m.slot parent k) p name))
      (fun _ after => (after = image ∧ ¬ (Admits G m parent name ∧ ∃ ino, m.Open G.layout ino)) ∨
        (Admits G m parent name ∧ ∃ ino m', m.FirstOpen G.layout ino ∧ Cramped G m parent ino ∧
          G.Shows base after m' ∧ m'.inodeUsed G.layout ino = true)) := by
  unfold createDirectory
  rw [Exec.wp_bind]
  refine (roomFor_wp shows con).mono ?_ (fun _ _ _ h => .inl ⟨h.1, fun both => h.2 both.1⟩)
  rintro _ _ - ⟨rfl, admits, k, p, record, roomy, rfl⟩
  have room : Room G m parent name k p := ⟨record, roomy⟩
  obtain ⟨span, inside⟩ := con.room_bounds admits room
  obtain ⟨-, data, isUsed⟩ := con.dirData admits.has admits.isDir record.block_lt
  rw [Exec.wp_bind]
  refine ((allocateInode_wlp shows con.inodeCounts).wp total).mono ?_
    (fun _ _ _ h => .inl ⟨h.2.1, fun both => both.2.elim h.2.2⟩)
  rintro ino middle - ⟨first, shows⟩
  have has := first.1.has
  have parentNe := con.ne_of_open admits.has admits.isDir first.1
  have counts : (m.markInode G.layout ino true).BlockCounts G.layout :=
    con.blockCounts.congr (fun _ => Disk.markInode_blockBitmap _)
      (fun _ => Disk.markInode_groupFreeBlocks _) Disk.markInode_freeBlocks
  have blockUsed : ∀ b, (m.markInode G.layout ino true).blockUsed G.layout b =
      m.blockUsed G.layout b := by
    intro b
    unfold Disk.blockUsed Disk.bitOf
    rw [Disk.markInode_blockBitmap]
  have taken : (m.markInode G.layout ino true).inodeUsed G.layout ino = true := by
    rw [Disk.inodeUsed_markInode has has, if_pos rfl]
  rw [Exec.wp_bind]
  refine (allocateBlock_wp shows counts).mono ?_ ?_
  · rintro block middle - ⟨hasBlock, clear, shows⟩
    rw [blockUsed] at clear
    have newData := con.dataBlock_of_clear hasBlock clear
    have blockLt : block < 2 ^ 32 := lt_trans hasBlock.2 G.wf.blocksCount_lt
    have slotNe : m.slot parent k ≠ block := by
      rintro rfl
      exact Bool.noConfusion (isUsed.symm.trans clear)
    unfold inodeAtOr
    rw [Exec.wp_bind, Exec.wp_read, shows.inodeAt_of_has has, Result.okOr_ok, Result.sat_ok,
      Exec.wp_bind]
    refine (writeDirectoryInode_wp shows has).mono ?_ (fun _ _ _ h => h.elim)
    intro _ middle _ shows
    rw [Exec.wp_bind, Exec.wp_read, Layout.blockAt_of_lt G.wf blockLt, Result.sat_ok, Exec.wp_bind]
    refine (writeDots_wp shows newData).mono ?_ (fun _ _ _ h => h.elim)
    intro _ middle _ shows
    rw [Exec.wp_bind]
    simp only [Disk.markBlock_inode, Disk.markInode_inode, Disk.set_of_ne _
      (show Area.data block ≠ Area.inode ino by simp), Disk.markBlock_data,
      Disk.markInode_data] at shows
    have dataEq : ((((m.markInode G.layout ino true).markBlock G.layout block true).set (.inode ino)
        (dirInode G.layout (m (.inode ino)) block)).set (.data block)
        (dots G.layout (m (.data block)) ino parent)) (.data (m.slot parent k)) =
        m.block parent k := by
      rw [Disk.set_of_ne _ (by simpa using slotNe), Disk.set_of_ne _ (by simp), Disk.markBlock_data,
        Disk.markInode_data]
      rfl
    refine (insertDirent_wp shows data (by rwa [dataEq]) (by rwa [dataEq])).mono ?_
      (fun _ _ _ h => h.elim)
    intro _ middle _ shows
    change G.Shows base middle
      (m.newDirectory G.layout ino block parent (m.slot parent k) p name) at shows
    have links : (m.newDirectory G.layout ino block parent (m.slot parent k) p name).links parent =
        m.links parent := by
      unfold Disk.links
      rw [Disk.newDirectory_inode_ne parentNe]
    have stillTaken : (m.newDirectory G.layout ino block parent (m.slot parent k) p name).inodeUsed
        G.layout ino = true := by
      rw [← taken]
      unfold Disk.inodeUsed Disk.bitOf
      rw [Disk.newDirectory_inodeBitmap]
    rw [Exec.wp_bind]
    refine (bumpLinks_wp shows admits.has).mono ?_ ?_
    · rintro _ middle - ⟨v, linksEq, shows⟩
      rw [links, addSigned16_one] at linksEq
      split at linksEq
      · rename_i linksLt
        obtain rfl := Option.some.inj linksEq
        have dirs : ((m.newDirectory G.layout ino block parent (m.slot parent k) p name).setLinks
            parent (m.links parent + 1)).usedDirs (G.layout.inodeGroup ino) =
            m.usedDirs (G.layout.inodeGroup ino) := by
          unfold Disk.usedDirs Disk.setLinks
          rw [Disk.set_of_ne _ (by simp), Disk.newDirectory_usedDirs]
        rw [Exec.wp_bind]
        refine (bumpUsedDirs_wp shows has).mono ?_ ?_
        · rintro _ after - ⟨v, dirsEq, shows⟩
          rw [dirs, addSigned16_one] at dirsEq
          split at dirsEq
          · rename_i dirsLt
            obtain rfl := Option.some.inj dirsEq
            exact ⟨block, k, p, ⟨first, admits, hasBlock, clear, room, linksLt, dirsLt⟩, shows⟩
          · cases dirsEq
        · rintro e after - ⟨none, rfl⟩
          rw [dirs, addSigned16_one] at none
          refine .inr ⟨admits, ino, _, first, .inr (.inr ?_), shows, ?_⟩
          · split at none
            · cases none
            · omega
          · rw [← stillTaken]
            unfold Disk.inodeUsed Disk.bitOf Disk.setLinks
            rw [Disk.set_of_ne _ (by simp)]
      · cases linksEq
    · rintro e after - ⟨none, rfl⟩
      rw [links, addSigned16_one] at none
      refine .inr ⟨admits, ino, _, first, .inr (.inl ?_), shows, stillTaken⟩
      split at none
      · cases none
      · omega
  · rintro e after - ⟨rfl, rfl, full⟩
    refine .inr ⟨admits, ino, _, first, .inl fun b hasB => ?_, shows, taken⟩
    rw [← blockUsed]
    exact full b hasB

theorem createDirectory_wlp {parent : Nat} {name : List UInt8} :
    Wlp (createDirectory G.layout parent name) image
      (fun ino after => ∃ block k p, Buildable G m parent ino block k p name ∧
        G.Shows base after (m.createDirectory G.layout ino block parent (m.slot parent k) p name))
      (fun _ after => (after = image ∧ ¬ (Admits G m parent name ∧ ∃ ino, m.Open G.layout ino)) ∨
        (G.layout.inodesCount + 1 < 2 ^ 32 ∧ Admits G m parent name ∧ ∃ ino m',
          m.FirstOpen G.layout ino ∧ Cramped G m parent ino ∧ G.Shows base after m' ∧
          m'.inodeUsed G.layout ino = true)) := by
  by_cases total : Exec.Total (allocateInode G.layout) image
  · exact (createDirectory_wp shows con parent name total).wlp.mono (fun _ _ _ h => h)
      (fun _ _ _ h => h.imp_right fun stuck => ⟨allocateInode_small shows total, stuck⟩)
  · -- Without an inode nothing comes after the search for room.
    have faults := not_not.mp (Exec.total_iff_ne.not.mp total)
    unfold createDirectory
    rw [Exec.wlp_bind]
    refine (roomFor_wp shows con).wlp.mono ?_ (fun _ _ _ h => .inl ⟨h.1, fun both => h.2 both.1⟩)
    rintro _ _ - ⟨rfl, -⟩
    rw [Exec.wlp_bind]
    unfold Wlp
    rw [faults]
    trivial

end Create

end Zaytos.Fs
