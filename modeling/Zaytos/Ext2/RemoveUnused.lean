import Zaytos.Ext2.Lookup
import Zaytos.Ext2.Runs

set_option autoImplicit false

/-! What `remove_directory` leaves of the names of an image, and when the directory that goes was
not in use any more. -/
namespace Zaytos.Fs

open Disk (OnlyDots)

def Disk.Unnamed (L : Layout) (m : Disk) (ino : Nat) : Prop :=
  ∀ dir, L.HasInode dir → m.IsDir dir → ∀ name, (name, ino) ∉ m.names L dir

theorem Chain.notMem {d : Bytes} {stop pos p : Nat} {l r : List Nat}
    (chain : Chain d stop pos (l ++ p :: r)) : p ∉ l ++ r := by
  obtain ⟨before, -, long, after⟩ := Chain.split_iff.mp chain
  intro mem
  cases List.mem_append.mp mem with
  | inl inside =>
    have bounds := before.mem_bounds inside
    omega
  | inr inside =>
    have bounds := after.mem_bounds inside
    omega

theorem Chain.remove_records {d : Bytes} {stop p q : Nat} {l r : List Nat}
    (chain : Chain d stop 0 (l ++ p :: q :: r))
    (fits : (recordAt d p).recLen + (recordAt d q).recLen < 2 ^ 16) (x : Nat) :
    (x ∈ positions (removeAt d p q) stop ↔ x ∈ positions d stop ∧ x ≠ q) ∧
      (x ≠ q → x ∈ positions d stop →
        (recordAt (removeAt d p q) x).inode = (recordAt d x).inode ∧
          (recordAt (removeAt d p q) x).name = (recordAt d x).name) := by
  obtain ⟨chain', merged, others⟩ := chain.remove fits
  have apart : q ∉ l ++ p :: r := by
    rw [List.append_cons] at chain
    simpa using chain.notMem
  have rest : x ∈ l ++ p :: r ↔ x ∈ l ++ p :: q :: r ∧ x ≠ q := by
    have ne : x ∈ l ++ p :: r → x ≠ q := fun mem same => apart (same ▸ mem)
    simp only [List.mem_append, List.mem_cons] at ne ⊢
    tauto
  rw [chain.positions_eq, chain'.positions_eq]
  apply And.intro rest
  intro ne mem
  have stays := rest.mpr ⟨mem, ne⟩
  rw [List.mem_append, List.mem_cons] at stays
  by_cases isMerged : x = p
  · rw [isMerged, merged]
    exact ⟨rfl, rfl⟩
  · rw [others x (stays.imp_right fun m => m.resolve_left isMerged)]
    exact ⟨rfl, rfl⟩

section Remove

variable {G : Geometry} {m : Disk} {ino parent k p q : Nat} {l r : List Nat} {name : List UInt8}

theorem removeDirectory_relinked (ne : parent ≠ ino) :
    Relinked m (m.removeDirectory G.layout ino parent (m.slot parent k) p q) ino parent
      (m.links parent - 1) where
  other i notIno notParent := by
    unfold Disk.removeDirectory Disk.removeRecord Disk.setLinks Disk.setUsedDirs
    rw [Disk.set_of_ne _ (by simp), Disk.set_of_ne _ (by simpa using notParent),
      Disk.set_of_ne _ (by simp), erase_inode_ne notIno]
  parentInode := by
    unfold Disk.removeDirectory Disk.removeRecord Disk.setLinks Disk.setUsedDirs
    rw [Disk.set_of_ne _ (by simp), Disk.set_self, Disk.set_of_ne _ (by simp), erase_inode_ne ne]

theorem removeDirectory_isDir (ne : parent ≠ ino) (i : Nat) :
    (m.removeDirectory G.layout ino parent (m.slot parent k) p q).IsDir i ↔ i ≠ ino ∧ m.IsDir i := by
  by_cases gone : i = ino
  · subst gone
    apply iff_of_false _ fun both => both.1 rfl
    apply not_isDir_of_erase
    unfold Disk.removeDirectory Disk.removeRecord Disk.setLinks Disk.setUsedDirs
    rw [Disk.set_of_ne _ (by simp), Disk.set_of_ne _ (by simpa using ne.symm),
      Disk.set_of_ne _ (by simp)]
  · unfold Disk.IsDir
    rw [(removeDirectory_relinked ne).mode_eq gone]
    exact (and_iff_right gone).symm

theorem removeDirectory_live (has : G.layout.HasInode ino) (i : Nat) :
    (m.removeDirectory G.layout ino parent (m.slot parent k) p q).Live G.layout i ↔
      i ≠ ino ∧ m.Live G.layout i := by
  have same : (m.removeDirectory G.layout ino parent (m.slot parent k) p q).Live G.layout i ↔
      (m.erase G.layout ino).Live G.layout i := by
    apply Disk.live_congr
    intro g
    unfold Disk.removeDirectory Disk.removeRecord Disk.setLinks Disk.setUsedDirs
    rw [Disk.set_of_ne _ (by simp), Disk.set_of_ne _ (by simp), Disk.set_of_ne _ (by simp)]
  have before : ((m.truncate G.layout ino 0).clearInode G.layout ino).inodeUsed G.layout i =
      m.inodeUsed G.layout i := by
    unfold Disk.inodeUsed Disk.bitOf Disk.clearInode
    rw [Disk.set_of_ne _ (by simp), truncate_untouched (Nat.zero_le _)
      ⟨by simp, by simp, by simp, by simp, by simp⟩]
  rw [same]
  unfold Disk.Live
  constructor
  · intro alive
    have used := alive.2
    unfold Disk.erase at used
    rw [Disk.inodeUsed_markInode has alive.1, before] at used
    by_cases gone : i = ino
    · rw [if_pos gone] at used
      cases used
    · rw [if_neg gone] at used
      exact ⟨gone, alive.1, used⟩
  · intro alive
    apply And.intro alive.2.1
    unfold Disk.erase
    rw [Disk.inodeUsed_markInode has alive.2.1, if_neg alive.1, before]
    exact alive.2.2

variable (con : Consistent G m) (found : Found G m parent name k l p q r) (isDir : m.IsDir ino)
  (live : m.Live G.layout ino) (ne : parent ≠ ino)
include con found isDir live ne

theorem removeDirectory_block {i j : Nat} (has : G.layout.HasInode i) (dir : m.IsDir i)
    (stays : i ≠ ino) (small : j < m.fileBlocks G.layout i) (other : (i, j) ≠ (parent, k)) :
    (m.removeDirectory G.layout ino parent (m.slot parent k) p q).block i j = m.block i j := by
  have alive := con.dirLive i has dir
  have parentLive := con.dirLive parent found.has found.isDir
  have bound : ∀ {d b}, m.Live G.layout d → m.IsDir d → b < m.fileBlocks G.layout d →
      b < inodeBlockCount := fun live isDir small =>
    lt_of_lt_of_le small (le_trans (con.shape _ live (.inr isDir)).blocks_le (by decide))
  have slotNe : m.slot i j ≠ m.slot parent k := by
    intro same
    have both := con.slotUnique i parent j k alive parentLive (bound alive dir small)
      (bound parentLive found.isDir found.block_lt) (con.dirData has dir small).1 same
    exact other (by rw [both.1, both.2])
  unfold Disk.block
  rw [(removeDirectory_relinked ne).slot_eq stays]
  unfold Disk.removeDirectory Disk.removeRecord Disk.setLinks Disk.setUsedDirs
  rw [Disk.set_of_ne _ (by simpa using slotNe), Disk.set_of_ne _ (by simp),
    Disk.set_of_ne _ (by simp)]
  exact con.erase_block has dir small live (.inr isDir) stays

theorem removeDirectory_block_here :
    (m.removeDirectory G.layout ino parent (m.slot parent k) p q).block parent k =
      removeAt (m.block parent k) p q := by
  unfold Disk.block
  rw [(removeDirectory_relinked ne).slot_eq ne]
  unfold Disk.removeDirectory Disk.removeRecord Disk.setLinks Disk.setUsedDirs
  rw [Disk.set_self, Disk.set_of_ne _ (by simp), Disk.set_of_ne _ (by simp),
    con.erase_block found.has found.isDir found.block_lt live (.inr isDir) ne]
  rfl

theorem removeDirectory_recordIn
    (fits : (recordAt (m.block parent k) p).recLen + (recordAt (m.block parent k) q).recLen < 2 ^ 16)
    {i j x : Nat} (has : G.layout.HasInode i) (dir : m.IsDir i) (stays : i ≠ ino) {n : List UInt8}
    {named : Nat} :
    let m' := m.removeDirectory G.layout ino parent (m.slot parent k) p q
    RecordIn G m' i j x ∧ (recordAt (m'.block i j) x).inode = named ∧
        (recordAt (m'.block i j) x).name = n ↔
      RecordIn G m i j x ∧ (recordAt (m.block i j) x).inode = named ∧
        (recordAt (m.block i j) x).name = n ∧ (i, j, x) ≠ (parent, k, q) := by
  intro m'
  have blocks : m'.fileBlocks G.layout i = m.fileBlocks G.layout i :=
    (removeDirectory_relinked ne).fileBlocks_eq stays
  by_cases here : (i, j) = (parent, k)
  · obtain ⟨rfl, rfl⟩ := Prod.mk.inj here
    have chain := (con.dirBlock i found.has found.isDir j found.block_lt).chain
    rw [show positions (m.block i j) G.layout.blockSize = l ++ p :: q :: r from found.split] at chain
    obtain ⟨mem_iff, keeps⟩ := chain.remove_records fits x
    have block : m'.block i j = removeAt (m.block i j) p q :=
      removeDirectory_block_here con found isDir live ne
    rw [block]
    constructor
    · intro record
      have mem := record.1.mem
      unfold Disk.recordsOf at mem
      rw [block] at mem
      obtain ⟨old, notQ⟩ := mem_iff.mp mem
      obtain ⟨inode, name⟩ := keeps notQ old
      rw [inode, name] at record
      exact ⟨⟨found.block_lt, old⟩, record.2.1, record.2.2, by simpa using notQ⟩
    · intro record
      have old := record.1.mem
      have notQ : x ≠ q := by simpa using record.2.2.2
      obtain ⟨inode, name⟩ := keeps notQ old
      rw [inode, name]
      refine ⟨⟨by rw [blocks]; exact found.block_lt, ?_⟩, record.2.1, record.2.2.1⟩
      unfold Disk.recordsOf
      rw [block]
      exact mem_iff.mpr ⟨old, notQ⟩
  · have same : j < m.fileBlocks G.layout i → m'.block i j = m.block i j := fun small =>
      removeDirectory_block con found isDir live ne has dir stays small here
    have other : (i, j, x) ≠ (parent, k, q) := fun all => here (by simp_all)
    constructor
    · intro record
      have small : j < m.fileBlocks G.layout i := blocks ▸ record.1.block_lt
      have mem := record.1.mem
      unfold Disk.recordsOf at mem
      rw [same small] at mem record
      exact ⟨⟨small, mem⟩, record.2.1, record.2.2, other⟩
    · intro record
      have small := record.1.block_lt
      have mem := record.1.mem
      rw [same small]
      refine ⟨⟨by rw [blocks]; exact small, ?_⟩, record.2.1, record.2.2.1⟩
      unfold Disk.recordsOf
      rw [same small]
      exact mem

/-- The directory that goes is not the root, the blocks behind its first hold nothing but `.` and
`..`, and outside of it the record that is removed is the only one that names it. -/
structure Unused (G : Geometry) (m : Disk) (ino parent k q : Nat) : Prop where
  ne_root : ino ≠ rootInode
  later : ∀ j, 0 < j → j < m.fileBlocks G.layout ino →
    OnlyDots (m.block ino j) (m.recordsOf G.layout ino j)
  only : ∀ i j x, G.layout.HasInode i → m.IsDir i → i ≠ ino → RecordIn G m i j x →
    (recordAt (m.block i j) x).inode = ino → (i, j, x) = (parent, k, q)

theorem removeDirectory_unnamed
    (fits : (recordAt (m.block parent k) p).recLen + (recordAt (m.block parent k) q).recLen < 2 ^ 16) :
    (m.removeDirectory G.layout ino parent (m.slot parent k) p q).Unnamed G.layout ino ↔
      ∀ i j x, G.layout.HasInode i → m.IsDir i → i ≠ ino → RecordIn G m i j x →
        (recordAt (m.block i j) x).inode = ino → (i, j, x) = (parent, k, q) := by
  have used : ino ≠ 0 := ne_of_gt live.1.pos
  unfold Disk.Unnamed
  constructor
  · intro unnamed i j x has dir stays record names
    by_contra other
    have later := (removeDirectory_recordIn con found isDir live ne fits has dir stays).mpr
      ⟨record, names, rfl, other⟩
    apply unnamed i has ((removeDirectory_isDir ne i).mpr ⟨stays, dir⟩) _
    apply Disk.mem_names.mpr
    exact ⟨j, x, later.1.block_lt, later.1.mem, ⟨by rw [later.2.1]; exact used, later.2.2⟩, later.2.1⟩
  · intro only i has dir n mem
    obtain ⟨stays, dir⟩ := (removeDirectory_isDir ne i).mp dir
    obtain ⟨j, x, small, record, taken, names⟩ := Disk.mem_names.mp mem
    have before := (removeDirectory_recordIn con found isDir live ne fits has dir stays).mp
      ⟨⟨small, record⟩, names, taken.2⟩
    exact before.2.2.2 (only i j x has dir stays before.1 before.2.1)

end Remove

/-- The inode that an image has lost was not in use: it was not the root, a walk of it hands out
nothing but `.` and `..`, and no entry of the image after names it. -/
structure Disposed (G : Geometry) (fs : Ext2) (after : Bytes) (ino : Nat) : Prop where
  ne_root : ino ≠ rootInode
  only_dots : ∀ i items, fs.inode ino = .ok i → fs.WalksFrom i 0 items →
    ∀ e, .ok e ∈ items → e.name = [46] ∨ e.name = [46, 46]
  unnamed : Disk.Unnamed G.layout (G.carving.view after) ino

def RemovesUnused (G : Geometry) (fs : Ext2) (image : Bytes) (parent : Nat) (name : List UInt8) :
    Prop :=
  ∀ after, removeDirectory G.layout parent name image = .ok () after → ∀ ino,
    Disk.Live G.layout (G.carving.view image) ino → ¬ Disk.Live G.layout (G.carving.view after) ino →
    Disposed G fs after ino

section Walk

variable {G : Geometry} {base image : Bytes} {m : Disk} {fs : Ext2} {ino : Nat}
  (shows : G.Shows base image m) (con : Consistent G m) (parsed : Ext2.parse image = .ok fs)
  (layout : fs.layout = G.layout) (live : m.Live G.layout ino) (isDir : m.IsDir ino)
include shows con parsed layout live isDir

theorem only_dots_iff : (∀ i items, fs.inode ino = .ok i → fs.WalksFrom i 0 items →
      ∀ e, .ok e ∈ items → e.name = [46] ∨ e.name = [46, 46]) ↔
    ∀ j < m.fileBlocks G.layout ino, OnlyDots (m.block ino j) (m.recordsOf G.layout ino j) := by
  have read := con.inode shows parsed layout live
  have walks := con.walk shows parsed layout live.1 isDir
  constructor
  · intro dots j small x mem used
    have entry := Disk.mem_entries.mpr ⟨j, x, small, mem, used, rfl⟩
    exact dots _ _ read walks _ (List.mem_map_of_mem entry)
  · intro dots i items read' walks' e mem
    rw [read] at read'
    obtain rfl := Result.ok.inj read'
    rw [walks'.unique walks, List.mem_map] at mem
    obtain ⟨e', inside, same⟩ := mem
    obtain rfl := Except.ok.inj same
    obtain ⟨j, x, small, record, used, rfl⟩ := Disk.mem_entries.mp inside
    exact dots j small x record used

end Walk

/-- The geometry of an image with three data blocks: one group with twelve inodes. -/
def wideGeometry : Geometry where
  layout := ⟨1024, 10, 1, 8192, 1, 12, 128, 12, 0, 11⟩
  blockBitmap _ := 3
  inodeBitmap _ := 4
  inodeTable _ := 5
  reserved _ := False
  wf := ⟨⟨0, by decide⟩, by decide, ⟨7, by decide⟩, by decide, by decide, by decide, by decide,
    by decide, by decide, by decide, by decide, by decide, by decide⟩
  inside r valid := by
    rcases r with _ | _ | g | g | g <;>
      (try obtain rfl : g = 0 := Nat.lt_one_iff.mp valid) <;> clear valid <;> decide
  apart r r' valid valid' ne := by
    rcases r with _ | _ | g | g | g <;> rcases r' with _ | _ | g' | g' | g' <;>
      (try obtain rfl : g = 0 := Nat.lt_one_iff.mp valid) <;>
      (try obtain rfl : g' = 0 := Nat.lt_one_iff.mp valid') <;>
      first | exact absurd rfl ne | (clear valid valid' ne; decide)

instance : DecidablePred wideGeometry.reserved := fun _ => inferInstanceAs (Decidable False)

/-- An image whose root holds the directory `d` of two blocks. The second one holds the empty
file `x`. -/
def nestedImage : Bytes := .ofRuns (10 * 1024) [
  (1024, leBytes 4 12 ++ leBytes 4 10 ++ leBytes 4 0 ++ leBytes 4 0 ++ leBytes 4 0 ++
    leBytes 4 1 ++ leBytes 4 0 ++ leBytes 4 0 ++ leBytes 4 8192 ++ leBytes 4 0 ++ leBytes 4 12),
  (1024 + 56, leBytes 2 0xEF53), (1024 + 76, leBytes 4 1), (1024 + 84, leBytes 4 11 ++ leBytes 2 128),
  (1024 + 96, leBytes 4 2),
  (2048, leBytes 4 3 ++ leBytes 4 4 ++ leBytes 4 5 ++ leBytes 2 0 ++ leBytes 2 0 ++ leBytes 2 2),
  (3072, [0xFF, 0x01]), (4096, [0xFF, 0x0F]),
  (5248, leBytes 2 0x41ED ++ leBytes 2 0 ++ leBytes 4 1024), (5274, leBytes 2 3 ++ leBytes 4 2),
  (5288, leBytes 4 7), (6400, leBytes 2 0x41ED ++ leBytes 2 0 ++ leBytes 4 2048),
  (6426, leBytes 2 2 ++ leBytes 4 4), (6440, leBytes 4 8 ++ leBytes 4 9),
  (6528, leBytes 2 0x81A4), (6554, leBytes 2 1),
  (7168, leBytes 4 2 ++ leBytes 2 12 ++ [1, 2, 46]),
  (7180, leBytes 4 2 ++ leBytes 2 12 ++ [2, 2, 46, 46]),
  (7192, leBytes 4 11 ++ leBytes 2 1000 ++ [1, 2, 100]),
  (8192, leBytes 4 11 ++ leBytes 2 12 ++ [1, 2, 46]),
  (8204, leBytes 4 2 ++ leBytes 2 1012 ++ [2, 2, 46, 46]),
  (9216, leBytes 4 12 ++ leBytes 2 1024 ++ [1, 1, 120])]

theorem nestedImage_describes : wideGeometry.Describes nestedImage := by
  have first : ∀ {g}, g < wideGeometry.layout.groupCount → g = 0 :=
    fun small => Nat.lt_one_iff.mp small
  refine ⟨exists_of_parsesTo (by decide), fun g group => ?_, fun g group => ?_,
    fun g group => ?_⟩ <;> obtain rfl := first group <;> clear first group <;> decide

theorem nestedImage_view : Consistent wideGeometry (wideGeometry.carving.view nestedImage) := by
  rw [view_eq_readDisk, nestedImage, Bytes.ofRuns_eq]
  simp only [List.foldr_cons, List.foldr_nil]
  exact Checks.consistent (by decide)

end Zaytos.Fs
