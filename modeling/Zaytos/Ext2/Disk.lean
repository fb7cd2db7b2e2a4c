import Zaytos.Ext2.Geometry
import Zaytos.Lib.Counting

set_option autoImplicit false

/-! The typed contents of the areas: bitmaps, counts, inodes and data blocks, and the one
update that moves a bit of a bitmap together with its two counts. -/
namespace Zaytos.Fs

namespace Disk

section Fields

variable (L : Layout) (m : Disk)

def freeBlocks : Nat := (m .freeBlocks).u32 0

def freeInodes : Nat := (m .freeInodes).u32 0

def groupFreeBlocks (g : Nat) : Nat := (m (.groupFreeBlocks g)).u16 0

def groupFreeInodes (g : Nat) : Nat := (m (.groupFreeInodes g)).u16 0

def usedDirs (g : Nat) : Nat := (m (.usedDirs g)).u16 0

def bitOf (a : Area) (j : Nat) : Bool := (m a).bit (j / 8) (j % 8)

def blockUsed (b : Nat) : Bool := m.bitOf (.blockBitmap (L.blockGroup b)) (L.blockIndex b)

def inodeUsed (ino : Nat) : Bool := m.bitOf (.inodeBitmap (L.inodeGroup ino)) (L.inodeIndex ino)

def mode (ino : Nat) : Nat := (m (.inode ino)).u16 0

def size (ino : Nat) : Nat := (m (.inode ino)).u32 4

def links (ino : Nat) : Nat := (m (.inode ino)).u16 26

def sectors (ino : Nat) : Nat := (m (.inode ino)).u32 28

def slot (ino k : Nat) : Nat := (m (.inode ino)).u32 (40 + k * 4)

def sizeHigh (ino : Nat) : Nat := (m (.inode ino)).u32 108

def IsDir (ino : Nat) : Prop := formatOf (m.mode ino) = modeDirectory

def IsRegular (ino : Nat) : Prop := formatOf (m.mode ino) = modeRegular

instance (ino : Nat) : Decidable (m.IsDir ino) := by
  unfold IsDir
  infer_instance

instance (ino : Nat) : Decidable (m.IsRegular ino) := by
  unfold IsRegular
  infer_instance

end Fields

def set (m : Disk) (a : Area) (d : Bytes) : Disk := Function.update m a d

@[simp] theorem set_self (m : Disk) (a : Area) (d : Bytes) : m.set a d a = d := by
  unfold set
  rw [Function.update_self]

theorem set_of_ne {m : Disk} {a b : Area} (d : Bytes) (ne : b ≠ a) : m.set a d b = m b := by
  unfold set
  rw [Function.update_of_ne ne]

theorem set_apply (m : Disk) (a b : Area) (d : Bytes) :
    m.set a d b = if b = a then d else m b := by
  by_cases same : b = a
  · rw [if_pos same, same, set_self]
  · rw [if_neg same, set_of_ne d same]

@[simp] theorem set_set (m : Disk) (a : Area) (d d' : Bytes) : (m.set a d).set a d' = m.set a d' := by
  unfold set
  rw [Function.update_idem]

@[simp] theorem set_eq_self (m : Disk) (a : Area) : m.set a (m a) = m := by
  unfold set
  rw [Function.update_eq_self]

def mark (m : Disk) (bitmap count total : Area) (index : Nat) (used : Bool) : Disk :=
  ((m.set bitmap ((m bitmap).setBit index used)).set
    count ((m count).putU16 0 (moved used ((m count).u16 0)))).set
    total ((m total).putU32 0 (moved used ((m total).u32 0)))

def markBlock (L : Layout) (m : Disk) (b : Nat) (used : Bool) : Disk :=
  m.mark (.blockBitmap (L.blockGroup b)) (.groupFreeBlocks (L.blockGroup b)) .freeBlocks
    (L.blockIndex b) used

def markInode (L : Layout) (m : Disk) (ino : Nat) (used : Bool) : Disk :=
  m.mark (.inodeBitmap (L.inodeGroup ino)) (.groupFreeInodes (L.inodeGroup ino)) .freeInodes
    (L.inodeIndex ino) used

section Mark

variable {m : Disk} {bitmap count total : Area} {index : Nat} {used : Bool}

theorem mark_of_ne {a : Area} (neBitmap : a ≠ bitmap) (neCount : a ≠ count) (neTotal : a ≠ total) :
    m.mark bitmap count total index used a = m a := by
  unfold mark
  rw [set_of_ne _ neTotal, set_of_ne _ neCount, set_of_ne _ neBitmap]

theorem mark_bitmap (neCount : bitmap ≠ count) (neTotal : bitmap ≠ total) :
    m.mark bitmap count total index used bitmap = (m bitmap).setBit index used := by
  unfold mark
  rw [set_of_ne _ neTotal, set_of_ne _ neCount, set_self]

theorem mark_count (ne : count ≠ total) :
    m.mark bitmap count total index used count =
      (m count).putU16 0 (moved used ((m count).u16 0)) := by
  unfold mark
  rw [set_of_ne _ ne, set_self]

theorem mark_total :
    m.mark bitmap count total index used total =
      (m total).putU32 0 (moved used ((m total).u32 0)) := by
  unfold mark
  rw [set_self]

theorem mark_congr {m' : Disk} {a : Area} (same : m' a = m a) :
    m'.mark bitmap count total index used a = m.mark bitmap count total index used a := by
  by_cases isTotal : a = total
  · subst isTotal
    rw [mark_total, mark_total, same]
  by_cases isCount : a = count
  · subst isCount
    rw [mark_count isTotal, mark_count isTotal, same]
  by_cases isBitmap : a = bitmap
  · subst isBitmap
    rw [mark_bitmap isCount isTotal, mark_bitmap isCount isTotal, same]
  · rw [mark_of_ne isBitmap isCount isTotal, mark_of_ne isBitmap isCount isTotal, same]

theorem mark_mark (neCount : bitmap ≠ count) (neTotal : bitmap ≠ total) (ne : count ≠ total)
    (old : m.bitOf bitmap index = !used) (countPos : used = true → 0 < (m count).u16 0)
    (countLt : moved used ((m count).u16 0) < 2 ^ 16)
    (totalPos : used = true → 0 < (m total).u32 0)
    (totalLt : moved used ((m total).u32 0) < 2 ^ 32) :
    (m.mark bitmap count total index used).mark bitmap count total index (!used) = m := by
  funext a
  by_cases isTotal : a = total
  · subst isTotal
    rw [mark_total, mark_total, Bytes.u32_putU32, Nat.mod_eq_of_lt totalLt, moved_moved totalPos,
      Bytes.putU32_putU32]
  by_cases isCount : a = count
  · subst isCount
    rw [mark_count ne, mark_count ne, Bytes.u16_putU16, Nat.mod_eq_of_lt countLt,
      moved_moved countPos, Bytes.putU16_putU16]
  by_cases isBitmap : a = bitmap
  · subst isBitmap
    rw [mark_bitmap neCount neTotal, mark_bitmap neCount neTotal, Bytes.setBit_setBit _ _ _ old]
  · rw [mark_of_ne isBitmap isCount isTotal, mark_of_ne isBitmap isCount isTotal]

end Mark

section Blocks

variable {L : Layout} {m : Disk} {b : Nat} {used : Bool}

@[simp] theorem markBlock_inode (ino : Nat) : markBlock L m b used (.inode ino) = m (.inode ino) :=
  mark_of_ne (by simp) (by simp) (by simp)

@[simp] theorem markBlock_data (x : Nat) : markBlock L m b used (.data x) = m (.data x) :=
  mark_of_ne (by simp) (by simp) (by simp)

@[simp] theorem markBlock_inodeBitmap (g : Nat) :
    markBlock L m b used (.inodeBitmap g) = m (.inodeBitmap g) :=
  mark_of_ne (by simp) (by simp) (by simp)

@[simp] theorem markBlock_groupFreeInodes (g : Nat) :
    markBlock L m b used (.groupFreeInodes g) = m (.groupFreeInodes g) :=
  mark_of_ne (by simp) (by simp) (by simp)

@[simp] theorem markBlock_usedDirs (g : Nat) :
    markBlock L m b used (.usedDirs g) = m (.usedDirs g) :=
  mark_of_ne (by simp) (by simp) (by simp)

@[simp] theorem markBlock_freeInodes : markBlock L m b used .freeInodes = m .freeInodes :=
  mark_of_ne (by simp) (by simp) (by simp)

theorem blockUsed_markBlock {x : Nat} (has : L.HasBlock b) (hasX : L.HasBlock x) :
    (markBlock L m b used).blockUsed L x = if x = b then used else m.blockUsed L x := by
  unfold blockUsed bitOf markBlock
  by_cases group : L.blockGroup x = L.blockGroup b
  · rw [group, mark_bitmap (by simp) (by simp), Bytes.bit_setBit]
    have same : L.blockIndex x = L.blockIndex b ↔ x = b := by
      constructor
      · intro index
        rw [Layout.block_eq has, Layout.block_eq hasX, group, index]
      · rintro rfl
        rfl
    simp only [same]
  · rw [mark_of_ne (by simpa using group) (by simp) (by simp), if_neg]
    rintro rfl
    exact group rfl

theorem groupFreeBlocks_markBlock {g : Nat}
    (small : moved used (m.groupFreeBlocks (L.blockGroup b)) < 2 ^ 16) :
    (markBlock L m b used).groupFreeBlocks g =
      if g = L.blockGroup b then moved used (m.groupFreeBlocks g) else m.groupFreeBlocks g := by
  unfold groupFreeBlocks markBlock
  by_cases group : g = L.blockGroup b
  · subst group
    rw [if_pos rfl, mark_count (by simp), Bytes.u16_putU16]
    exact Nat.mod_eq_of_lt small
  · rw [if_neg group, mark_of_ne (by simp) (by simpa using group) (by simp)]

theorem freeBlocks_markBlock (small : moved used m.freeBlocks < 2 ^ 32) :
    (markBlock L m b used).freeBlocks = moved used m.freeBlocks := by
  unfold freeBlocks markBlock
  rw [mark_total, Bytes.u32_putU32]
  exact Nat.mod_eq_of_lt small

end Blocks

section Inodes

variable {L : Layout} {m : Disk} {ino : Nat} {used : Bool}

@[simp] theorem markInode_inode (i : Nat) : markInode L m ino used (.inode i) = m (.inode i) :=
  mark_of_ne (by simp) (by simp) (by simp)

@[simp] theorem markInode_data (x : Nat) : markInode L m ino used (.data x) = m (.data x) :=
  mark_of_ne (by simp) (by simp) (by simp)

@[simp] theorem markInode_blockBitmap (g : Nat) :
    markInode L m ino used (.blockBitmap g) = m (.blockBitmap g) :=
  mark_of_ne (by simp) (by simp) (by simp)

@[simp] theorem markInode_groupFreeBlocks (g : Nat) :
    markInode L m ino used (.groupFreeBlocks g) = m (.groupFreeBlocks g) :=
  mark_of_ne (by simp) (by simp) (by simp)

@[simp] theorem markInode_usedDirs (g : Nat) :
    markInode L m ino used (.usedDirs g) = m (.usedDirs g) :=
  mark_of_ne (by simp) (by simp) (by simp)

@[simp] theorem markInode_freeBlocks : markInode L m ino used .freeBlocks = m .freeBlocks :=
  mark_of_ne (by simp) (by simp) (by simp)

theorem inodeUsed_markInode {x : Nat} (has : L.HasInode ino) (hasX : L.HasInode x) :
    (markInode L m ino used).inodeUsed L x = if x = ino then used else m.inodeUsed L x := by
  unfold inodeUsed bitOf markInode
  by_cases group : L.inodeGroup x = L.inodeGroup ino
  · rw [group, mark_bitmap (by simp) (by simp), Bytes.bit_setBit]
    have same : L.inodeIndex x = L.inodeIndex ino ↔ x = ino := by
      constructor
      · intro index
        rw [Layout.inode_eq has, Layout.inode_eq hasX, group, index]
      · rintro rfl
        rfl
    simp only [same]
  · rw [mark_of_ne (by simpa using group) (by simp) (by simp), if_neg]
    rintro rfl
    exact group rfl

theorem groupFreeInodes_markInode {g : Nat}
    (small : moved used (m.groupFreeInodes (L.inodeGroup ino)) < 2 ^ 16) :
    (markInode L m ino used).groupFreeInodes g =
      if g = L.inodeGroup ino then moved used (m.groupFreeInodes g) else m.groupFreeInodes g := by
  unfold groupFreeInodes markInode
  by_cases group : g = L.inodeGroup ino
  · subst group
    rw [if_pos rfl, mark_count (by simp), Bytes.u16_putU16]
    exact Nat.mod_eq_of_lt small
  · rw [if_neg group, mark_of_ne (by simp) (by simpa using group) (by simp)]

theorem freeInodes_markInode (small : moved used m.freeInodes < 2 ^ 32) :
    (markInode L m ino used).freeInodes = moved used m.freeInodes := by
  unfold freeInodes markInode
  rw [mark_total, Bytes.u32_putU32]
  exact Nat.mod_eq_of_lt small

end Inodes

end Disk

end Zaytos.Fs
