import Zaytos.Ext2.ReaderSpec
import Zaytos.Lib.Carving

set_option autoImplicit false

/-! Where the parts of a file system lie, and the areas the writer changes.

A `Geometry` is the layout of an image together with the places its group descriptors point
to, with no two metadata regions overlapping. Its `carving` names what the writer may
change: the free counts, the directory counts, the bitmaps, the inode slots and the blocks
that hold data. All else, the pointers and the numbers of the superblock in particular, is
outside of every area, so it stays as it was without being mentioned again. -/
namespace Zaytos.Fs

/-- A layout and the blocks its group descriptors name. `reserved` are blocks set aside for
something the driver does not know of, such as copies of the superblock. -/
structure Plan where
  layout : Layout
  blockBitmap : Nat → Nat
  inodeBitmap : Nat → Nat
  inodeTable : Nat → Nat
  reserved : Nat → Prop

inductive Region where
  | super
  | descriptors
  | blockBitmap (g : Nat)
  | inodeBitmap (g : Nat)
  | inodeTable (g : Nat)
  deriving DecidableEq

inductive Area where
  | freeBlocks
  | freeInodes
  | groupFreeBlocks (g : Nat)
  | groupFreeInodes (g : Nat)
  | usedDirs (g : Nat)
  | blockBitmap (g : Nat)
  | inodeBitmap (g : Nat)
  | inode (ino : Nat)
  | data (b : Nat)
  deriving DecidableEq

namespace Layout

variable (L : Layout)

/-- The blocks of group `g`. -/
def blockSpan (g : Nat) : Nat :=
  min L.blocksPerGroup (L.blocksCount - (L.firstDataBlock + g * L.blocksPerGroup))

/-- The inodes of group `g`. -/
def inodeSpan (g : Nat) : Nat := min L.inodesPerGroup (L.inodesCount - g * L.inodesPerGroup)

def blockGroup (b : Nat) : Nat := (b - L.firstDataBlock) / L.blocksPerGroup

def blockIndex (b : Nat) : Nat := (b - L.firstDataBlock) % L.blocksPerGroup

def inodeGroup (ino : Nat) : Nat := (ino - 1) / L.inodesPerGroup

def inodeIndex (ino : Nat) : Nat := (ino - 1) % L.inodesPerGroup

def HasBlock (b : Nat) : Prop := L.firstDataBlock ≤ b ∧ b < L.blocksCount

instance (b : Nat) : Decidable (L.HasBlock b) := by
  unfold HasBlock
  infer_instance

structure HasInode (ino : Nat) : Prop where
  pos : 0 < ino
  le : ino ≤ L.inodesCount
  group_lt : L.inodeGroup ino < L.groupCount

instance (ino : Nat) : Decidable (L.HasInode ino) :=
  decidable_of_iff (0 < ino ∧ ino ≤ L.inodesCount ∧ L.inodeGroup ino < L.groupCount)
    ⟨fun h => ⟨h.1, h.2.1, h.2.2⟩, fun h => ⟨h.pos, h.le, h.group_lt⟩⟩

end Layout

namespace Plan

variable (P : Plan)

def regionValid : Region → Prop
  | .super | .descriptors => True
  | .blockBitmap g | .inodeBitmap g | .inodeTable g => g < P.layout.groupCount

def regionPos : Region → Nat
  | .super => superblockOffset
  | .descriptors => (P.layout.firstDataBlock + 1) * P.layout.blockSize
  | .blockBitmap g => P.blockBitmap g * P.layout.blockSize
  | .inodeBitmap g => P.inodeBitmap g * P.layout.blockSize
  | .inodeTable g => P.inodeTable g * P.layout.blockSize

def regionLen : Region → Nat
  | .super => 1024
  | .descriptors => P.layout.groupCount * groupDescriptorSize
  | .blockBitmap g => divCeil (P.layout.blockSpan g) 8
  | .inodeBitmap g => divCeil (P.layout.inodeSpan g) 8
  | .inodeTable g => P.layout.inodeSpan g * P.layout.inodeSize

def Meta (b : Nat) : Prop :=
  P.reserved b ∨ ∃ r, P.regionValid r ∧
    ¬ Apart (b * P.layout.blockSize) P.layout.blockSize (P.regionPos r) (P.regionLen r)

def DataBlock (b : Nat) : Prop := P.layout.HasBlock b ∧ ¬ P.Meta b

end Plan

structure Geometry extends Plan where
  wf : layout.Wf
  inside : ∀ r, toPlan.regionValid r →
    toPlan.regionPos r + toPlan.regionLen r ≤ layout.blocksCount * layout.blockSize
  apart : ∀ r r', toPlan.regionValid r → toPlan.regionValid r' → r ≠ r' →
    Apart (toPlan.regionPos r) (toPlan.regionLen r) (toPlan.regionPos r') (toPlan.regionLen r')

variable {b ino g j i k : Nat} {r : Region} {a : Area}

namespace Layout

variable {L : Layout}

theorem blockIndex_lt (wf : L.Wf) (has : L.HasBlock b) :
    L.blockIndex b < L.blockSpan (L.blockGroup b) := by
  have small := Nat.mod_lt (b - L.firstDataBlock) wf.blocksPerGroup_pos
  have split := Nat.mod_add_div (b - L.firstDataBlock) L.blocksPerGroup
  rw [mul_comm] at split
  obtain ⟨lower, upper⟩ := has
  unfold blockIndex blockSpan blockGroup
  omega

theorem blockGroup_lt (wf : L.Wf) (has : L.HasBlock b) :
    L.blockGroup b < L.groupCount := wf.group_of_block_lt has.2 has.1

theorem block_eq (has : L.HasBlock b) :
    b = L.firstDataBlock + L.blockGroup b * L.blocksPerGroup + L.blockIndex b := by
  have split := Nat.mod_add_div (b - L.firstDataBlock) L.blocksPerGroup
  rw [mul_comm] at split
  have := has.1
  unfold blockIndex blockGroup
  omega

theorem inodeIndex_lt (wf : L.Wf) (has : L.HasInode ino) :
    L.inodeIndex ino < L.inodeSpan (L.inodeGroup ino) := by
  have small := Nat.mod_lt (ino - 1) wf.inodesPerGroup_pos
  have split := Nat.mod_add_div (ino - 1) L.inodesPerGroup
  rw [mul_comm] at split
  have pos := has.pos
  have le := has.le
  unfold inodeIndex inodeSpan inodeGroup
  omega

theorem inode_eq (has : L.HasInode ino) :
    ino = L.inodeGroup ino * L.inodesPerGroup + L.inodeIndex ino + 1 := by
  have split := Nat.mod_add_div (ino - 1) L.inodesPerGroup
  rw [mul_comm] at split
  have := has.pos
  unfold inodeIndex inodeGroup
  omega

theorem hasBlock_of (wf : L.Wf) (group : g < L.groupCount) (index : j < L.blockSpan g) :
    L.HasBlock (L.firstDataBlock + g * L.blocksPerGroup + j) ∧
    L.blockGroup (L.firstDataBlock + g * L.blocksPerGroup + j) = g ∧
    L.blockIndex (L.firstDataBlock + g * L.blocksPerGroup + j) = j := by
  have start := wf.group_start_lt group
  have small : j < L.blocksPerGroup := by
    unfold blockSpan at index
    omega
  have offset : L.firstDataBlock + g * L.blocksPerGroup + j - L.firstDataBlock =
      j + L.blocksPerGroup * g := by
    rw [mul_comm]
    omega
  refine ⟨⟨by omega, ?_⟩, ?_, ?_⟩
  · unfold blockSpan at index
    omega
  · unfold blockGroup
    rw [offset, Nat.add_mul_div_left _ _ wf.blocksPerGroup_pos, Nat.div_eq_of_lt small, zero_add]
  · unfold blockIndex
    rw [offset, Nat.add_mul_mod_self_left, Nat.mod_eq_of_lt small]

theorem hasInode_of (wf : L.Wf) (group : g < L.groupCount) (index : j < L.inodeSpan g) :
    L.HasInode (g * L.inodesPerGroup + j + 1) ∧ L.inodeGroup (g * L.inodesPerGroup + j + 1) = g ∧
    L.inodeIndex (g * L.inodesPerGroup + j + 1) = j := by
  have small : j < L.inodesPerGroup := by
    unfold inodeSpan at index
    omega
  have offset : g * L.inodesPerGroup + j + 1 - 1 = j + L.inodesPerGroup * g := by
    rw [mul_comm]
    omega
  have groupEq : L.inodeGroup (g * L.inodesPerGroup + j + 1) = g := by
    unfold inodeGroup
    rw [offset, Nat.add_mul_div_left _ _ wf.inodesPerGroup_pos, Nat.div_eq_of_lt small, zero_add]
  refine ⟨⟨by omega, ?_, by rwa [groupEq]⟩, groupEq, ?_⟩
  · unfold inodeSpan at index
    omega
  · unfold inodeIndex
    rw [offset, Nat.add_mul_mod_self_left, Nat.mod_eq_of_lt small]

end Layout

namespace Geometry

variable (G : Geometry)

def areaValid : Area → Prop
  | .freeBlocks | .freeInodes => True
  | .groupFreeBlocks g | .groupFreeInodes g | .usedDirs g | .blockBitmap g | .inodeBitmap g =>
      g < G.layout.groupCount
  | .inode ino => G.layout.HasInode ino
  | .data b => G.DataBlock b

def areaPos : Area → Nat
  | .freeBlocks => superblockOffset + superblockFreeBlocksCount
  | .freeInodes => superblockOffset + superblockFreeInodesCount
  | .groupFreeBlocks g => G.layout.descriptorPos g + groupDescriptorFreeBlocksCount
  | .groupFreeInodes g => G.layout.descriptorPos g + groupDescriptorFreeInodesCount
  | .usedDirs g => G.layout.descriptorPos g + groupDescriptorUsedDirsCount
  | .blockBitmap g => G.blockBitmap g * G.layout.blockSize
  | .inodeBitmap g => G.inodeBitmap g * G.layout.blockSize
  | .inode ino =>
      G.inodeTable (G.layout.inodeGroup ino) * G.layout.blockSize +
        G.layout.inodeIndex ino * G.layout.inodeSize
  | .data b => b * G.layout.blockSize

def areaLen : Area → Nat
  | .freeBlocks | .freeInodes => 4
  | .groupFreeBlocks _ | .groupFreeInodes _ | .usedDirs _ => 2
  | .blockBitmap g => divCeil (G.layout.blockSpan g) 8
  | .inodeBitmap g => divCeil (G.layout.inodeSpan g) 8
  | .inode _ => G.layout.inodeSize
  | .data _ => G.layout.blockSize

def regionOf : Area → Option Region
  | .freeBlocks | .freeInodes => some .super
  | .groupFreeBlocks _ | .groupFreeInodes _ | .usedDirs _ => some .descriptors
  | .blockBitmap g => some (.blockBitmap g)
  | .inodeBitmap g => some (.inodeBitmap g)
  | .inode ino => some (.inodeTable (G.layout.inodeGroup ino))
  | .data _ => none

theorem slot_end_le {index : Nat} (h : index < G.layout.inodeSpan g) :
    index * G.layout.inodeSize + G.layout.inodeSize ≤
      G.layout.inodeSpan g * G.layout.inodeSize := by
  have : (index + 1) * G.layout.inodeSize ≤ G.layout.inodeSpan g * G.layout.inodeSize :=
    Nat.mul_le_mul_right _ h
  rwa [add_mul, one_mul] at this

theorem area_in_region (valid : G.areaValid a) (within : G.regionOf a = some r) :
    G.regionValid r ∧ G.regionPos r ≤ G.areaPos a ∧
      G.areaPos a + G.areaLen a ≤ G.regionPos r + G.regionLen r := by
  cases a <;> simp only [regionOf, Option.some.injEq, reduceCtorEq] at within <;> subst within <;>
    simp only [areaValid, areaPos, areaLen, Plan.regionValid, Plan.regionPos, Plan.regionLen,
      Layout.descriptorPos, superblockOffset, superblockFreeBlocksCount, superblockFreeInodesCount,
      groupDescriptorFreeBlocksCount, groupDescriptorFreeInodesCount, groupDescriptorUsedDirsCount,
      groupDescriptorSize, true_and] at valid ⊢
  case inode ino =>
    have := G.slot_end_le (G.layout.inodeIndex_lt G.wf valid)
    exact ⟨valid.group_lt, by omega, by omega⟩
  all_goals omega

theorem slots_apart {s : Nat} (ne : i ≠ j) : Apart (i * s) s (j * s) s := by
  unfold Apart
  rcases Nat.lt_or_gt_of_ne ne with lt | gt
  · have : (i + 1) * s ≤ j * s := Nat.mul_le_mul_right _ lt
    rw [add_mul] at this
    omega
  · have : (j + 1) * s ≤ i * s := Nat.mul_le_mul_right _ gt
    rw [add_mul] at this
    omega

theorem apart_of_data (valid : G.areaValid a)
    (within : G.regionOf a = some r) (data : G.DataBlock b) :
    Apart (G.areaPos a) (G.areaLen a) (b * G.layout.blockSize) G.layout.blockSize := by
  obtain ⟨regionValid, lower, upper⟩ := G.area_in_region valid within
  have apart : Apart (b * G.layout.blockSize) G.layout.blockSize (G.regionPos r) (G.regionLen r) := by
    by_contra overlap
    exact data.2 (.inr ⟨r, regionValid, overlap⟩)
  exact apart.symm.mono lower upper (le_rfl) (le_rfl)

theorem apart_in_region {b : Area} (validA : G.areaValid a) (validB : G.areaValid b)
    (ne : a ≠ b) (withinA : G.regionOf a = some r) (withinB : G.regionOf b = some r) :
    Apart (G.areaPos a) (G.areaLen a) (G.areaPos b) (G.areaLen b) := by
  have same := withinA.trans withinB.symm
  clear withinA withinB
  cases a <;> cases b <;>
    simp only [regionOf, Option.some.injEq, reduceCtorEq, Region.blockBitmap.injEq,
      Region.inodeBitmap.injEq, Region.inodeTable.injEq, ne_eq, not_true_eq_false,
      Area.groupFreeBlocks.injEq, Area.groupFreeInodes.injEq, Area.usedDirs.injEq,
      Area.blockBitmap.injEq, Area.inodeBitmap.injEq, Area.inode.injEq, Area.data.injEq] at same ne
  case inode.inode i j =>
    have index : G.layout.inodeIndex i ≠ G.layout.inodeIndex j := by
      intro eq
      have left := Layout.inode_eq validA
      have right := Layout.inode_eq validB
      rw [same, eq] at left
      exact ne (left.trans right.symm)
    have apart := slots_apart (s := G.layout.inodeSize) index
    simp only [areaPos, areaLen, same]
    unfold Apart at apart ⊢
    omega
  case blockBitmap.blockBitmap => exact absurd same ne
  case inodeBitmap.inodeBitmap => exact absurd same ne
  case data.data => exact slots_apart ne
  all_goals
    simp only [areaPos, areaLen, Apart, Layout.descriptorPos, superblockOffset,
      superblockFreeBlocksCount, superblockFreeInodesCount, groupDescriptorFreeBlocksCount,
      groupDescriptorFreeInodesCount, groupDescriptorUsedDirsCount]
    omega

theorem areas_apart (a b : Area) (validA : G.areaValid a) (validB : G.areaValid b) (ne : a ≠ b) :
    Apart (G.areaPos a) (G.areaLen a) (G.areaPos b) (G.areaLen b) := by
  cases regionA : G.regionOf a with
  | none =>
    obtain ⟨x, rfl⟩ : ∃ x, a = .data x := by cases a <;> simp [regionOf] at regionA ⊢
    cases regionB : G.regionOf b with
    | none =>
      obtain ⟨y, rfl⟩ : ∃ y, b = .data y := by cases b <;> simp [regionOf] at regionB ⊢
      exact slots_apart (by simpa using ne)
    | some r => exact (G.apart_of_data validB regionB validA).symm
  | some r =>
    cases regionB : G.regionOf b with
    | none =>
      obtain ⟨y, rfl⟩ : ∃ y, b = .data y := by cases b <;> simp [regionOf] at regionB ⊢
      exact G.apart_of_data validA regionA validB
    | some r' =>
      by_cases same : r = r'
      · subst same
        exact G.apart_in_region validA validB ne regionA regionB
      obtain ⟨regionValid, lower, upper⟩ := G.area_in_region validA regionA
      obtain ⟨regionValid', lower', upper'⟩ := G.area_in_region validB regionB
      exact (G.apart r r' regionValid regionValid' same).mono lower upper lower' upper'

def carving : Carving Area where
  pos := G.areaPos
  len := G.areaLen
  valid := G.areaValid
  apart := G.areas_apart

theorem carving_fits : G.carving.Fits (G.layout.blocksCount * G.layout.blockSize) := by
  intro a valid
  cases region : G.regionOf a with
  | none =>
    obtain ⟨b, rfl⟩ : ∃ b, a = .data b := by cases a <;> simp [regionOf] at region ⊢
    have : (b + 1) * G.layout.blockSize ≤ G.layout.blocksCount * G.layout.blockSize :=
      Nat.mul_le_mul_right _ valid.1.2
    rw [add_mul, one_mul] at this
    exact this
  | some r =>
    obtain ⟨regionValid, -, upper⟩ := G.area_in_region valid region
    exact le_trans upper (G.inside r regionValid)

theorem outside_of_region (valid : G.regionValid r)
    (lower : G.regionPos r ≤ i) (upper : i < G.regionPos r + G.regionLen r)
    (own : ∀ a, G.areaValid a → G.regionOf a = some r →
      i < G.areaPos a ∨ G.areaPos a + G.areaLen a ≤ i) : G.carving.Outside i := by
  intro a validA
  show i < G.areaPos a ∨ G.areaPos a + G.areaLen a ≤ i
  cases region : G.regionOf a with
  | none =>
    obtain ⟨b, rfl⟩ : ∃ b, a = .data b := by cases a <;> simp [regionOf] at region ⊢
    have apart : Apart (b * G.layout.blockSize) G.layout.blockSize (G.regionPos r)
        (G.regionLen r) := by
      by_contra overlap
      exact validA.2 (.inr ⟨r, valid, overlap⟩)
    simp only [areaPos, areaLen]
    unfold Apart at apart
    omega
  | some r' =>
    by_cases same : r' = r
    · subst same
      exact own a validA region
    obtain ⟨regionValid, lower', upper'⟩ := G.area_in_region validA region
    have apart := G.apart r r' valid regionValid (Ne.symm same)
    unfold Apart at apart
    omega

theorem outside_super (lower : 1024 ≤ i) (upper : i < 2048)
    (apart : i < 1036 ∨ 1044 ≤ i) : G.carving.Outside i := by
  refine G.outside_of_region (r := .super) trivial lower upper ?_
  intro a _ region
  cases a <;> simp only [regionOf, Option.some.injEq, reduceCtorEq] at region <;>
    simp only [areaPos, areaLen, superblockOffset, superblockFreeBlocksCount,
      superblockFreeInodesCount] <;> omega

theorem outside_pointers (group : g < G.layout.groupCount)
    (lower : G.layout.descriptorPos g ≤ i) (upper : i < G.layout.descriptorPos g + 12) :
    G.carving.Outside i := by
  have inside : i < G.regionPos .descriptors + G.regionLen .descriptors := by
    simp only [Layout.descriptorPos] at upper
    simp only [Plan.regionPos, Plan.regionLen, groupDescriptorSize]
    omega
  have start : G.regionPos .descriptors ≤ i := by
    simp only [Layout.descriptorPos] at lower
    simp only [Plan.regionPos]
    omega
  refine G.outside_of_region (r := .descriptors) trivial start inside ?_
  intro a _ region
  simp only [Layout.descriptorPos] at lower upper
  cases a <;> simp only [regionOf, Option.some.injEq, reduceCtorEq] at region <;>
    simp only [areaPos, areaLen, Layout.descriptorPos, groupDescriptorFreeBlocksCount,
      groupDescriptorFreeInodesCount, groupDescriptorUsedDirsCount] <;> omega

/-- The geometry is that of the image `base`: its superblock gives the layout and its group
descriptors the places. -/
structure Describes (base : Bytes) : Prop where
  parsed : ∃ fs, Ext2.parse base = .ok fs ∧ fs.layout = G.layout
  blockBitmap : ∀ g < G.layout.groupCount,
    base.u32 (G.layout.descriptorPos g) = G.blockBitmap g
  inodeBitmap : ∀ g < G.layout.groupCount,
    base.u32 (G.layout.descriptorPos g + 4) = G.inodeBitmap g
  inodeTable : ∀ g < G.layout.groupCount,
    base.u32 (G.layout.descriptorPos g + 8) = G.inodeTable g

end Geometry

abbrev Disk := Area → Bytes

/-- The image `image` has the geometry `G` and the contents `m`; outside of the areas it is
as `base`. -/
structure Geometry.Shows (G : Geometry) (base image : Bytes) (m : Disk) : Prop where
  describes : G.Describes base
  holds : G.carving.Holds base image m

namespace Geometry.Shows

variable {G : Geometry} {base image : Bytes} {m : Disk} (shows : G.Shows base image m)
include shows

theorem blocks_le : G.layout.blocksCount * G.layout.blockSize ≤ image.len := by
  obtain ⟨fs, parsed, layout⟩ := shows.describes.parsed
  obtain ⟨valid, rfl⟩ := parse_valid parsed
  rw [shows.holds.len, ← layout]
  exact valid.blocks_le

theorem area_le (valid : G.areaValid a) : G.areaPos a + G.areaLen a ≤ image.len :=
  le_trans (G.carving_fits a valid) shows.blocks_le

theorem descriptor_le (group : g < G.layout.groupCount) :
    G.layout.descriptorPos g + 32 ≤ image.len := by
  have inside := G.inside .descriptors trivial
  have len := shows.blocks_le
  simp only [Plan.regionPos, Plan.regionLen, groupDescriptorSize] at inside
  simp only [Layout.descriptorPos]
  omega

theorem pointer (group : g < G.layout.groupCount) (small : k + 4 ≤ 12) :
    image.u32 (G.layout.descriptorPos g + k) = base.u32 (G.layout.descriptorPos g + k) := by
  have same : Bytes.SameOn base image (G.layout.descriptorPos g + k) 4 := by
    intro i lower upper
    exact shows.holds.rest i (G.outside_pointers group (by omega) (by omega))
  exact same.u32 (le_rfl) (le_rfl)

theorem blockBitmap {g : Nat} (group : g < G.layout.groupCount) :
    image.u32 (G.layout.descriptorPos g) = G.blockBitmap g := by
  rw [← shows.describes.blockBitmap g group]
  exact shows.pointer (k := 0) group (by omega)

theorem inodeBitmap {g : Nat} (group : g < G.layout.groupCount) :
    image.u32 (G.layout.descriptorPos g + 4) = G.inodeBitmap g := by
  rw [← shows.describes.inodeBitmap g group, shows.pointer group (by omega)]

theorem inodeTable {g : Nat} (group : g < G.layout.groupCount) :
    image.u32 (G.layout.descriptorPos g + 8) = G.inodeTable g := by
  rw [← shows.describes.inodeTable g group, shows.pointer group (by omega)]

theorem parsed : ∃ fs, Ext2.parse image = .ok fs ∧ fs.layout = G.layout ∧ fs.image = image := by
  obtain ⟨fs, parsed, layout⟩ := shows.describes.parsed
  refine ⟨_, parse_of_same parsed shows.holds.len ?_, layout, rfl⟩
  intro i lower upper apart
  exact shows.holds.rest i (G.outside_super lower upper apart)

theorem put {a : Area} {o n : Nat} (f : Nat → UInt8) (valid : G.areaValid a)
    (inside : o + n ≤ G.areaLen a) :
    G.Shows base (image.put (G.areaPos a + o) n f) (Function.update m a ((m a).put o n f)) :=
  ⟨shows.describes, shows.holds.put f valid inside⟩

theorem u16 (valid : G.areaValid a) (inside : k + 2 ≤ G.areaLen a) :
    image.u16 (G.areaPos a + k) = (m a).u16 k := shows.holds.u16 valid inside

theorem u32 (valid : G.areaValid a) (inside : k + 4 ≤ G.areaLen a) :
    image.u32 (G.areaPos a + k) = (m a).u32 k := shows.holds.u32 valid inside

theorem get (valid : G.areaValid a) (inside : k < G.areaLen a) :
    image.get (G.areaPos a + k) = (m a).get k := shows.holds.get valid inside

theorem listView {n : Nat} (valid : G.areaValid a) (inside : k + n ≤ G.areaLen a) :
    image.view (G.areaPos a + k) n = (m a).view k n := shows.holds.listView valid inside

end Geometry.Shows

end Zaytos.Fs
