import Zaytos.Kernel.Frames
import Zaytos.Kernel.PageEntry
import Zaytos.Lib.Exec
import Zaytos.Lib.Radix

set_option autoImplicit false

/-! The page tables in the frames of the physical memory: those who build them, and the walk through
them. A frame is given by its number. -/
namespace Zaytos.Kernel.Paging

abbrev Index := Fin 512

abbrev Memory := Store Index Word

structure Physical where
  memory : Memory
  allocator : FrameAllocator

namespace Physical

def write (s : Physical) (table : Nat) (i : Index) (value : Word) : Physical :=
  { s with memory := Function.update s.memory table (Function.update (s.memory table) i value) }

def fill (s : Physical) (table : Nat) (entries : Index → Word) : Physical :=
  { s with memory := Function.update s.memory table entries }

section

variable (s : Physical) (table : Nat) (i : Index) (value : Word) (entries : Index → Word)

@[simp] theorem write_allocator : (s.write table i value).allocator = s.allocator := rfl
@[simp] theorem fill_allocator : (s.fill table entries).allocator = s.allocator := rfl

@[simp] theorem write_self : (s.write table i value).memory table i = value := by
  show Function.update s.memory table (Function.update (s.memory table) i value) table i = value
  rw [Function.update_self, Function.update_self]

theorem write_other {u : Nat} {j : Index} (other : u ≠ table ∨ j ≠ i) :
    (s.write table i value).memory u j = s.memory u j := by
  show Function.update s.memory table (Function.update (s.memory table) i value) u j = _
  by_cases eq : u = table
  · subst eq
    rw [Function.update_self, Function.update_of_ne (other.resolve_left (absurd rfl))]
  · rw [Function.update_of_ne eq]

@[simp] theorem fill_self : (s.fill table entries).memory table = entries := Function.update_self ..

theorem fill_other {u : Nat} (other : u ≠ table) : (s.fill table entries).memory u = s.memory u :=
  Function.update_of_ne other ..

@[simp] theorem fill_fill (entries' : Index → Word) :
    (s.fill table entries).fill table entries' = s.fill table entries' := by
  rw [fill, fill, fill, Function.update_idem]

end

end Physical

structure VirtAddr where
  raw : Word
  canonical : isCanonical raw = true
  deriving DecidableEq

namespace VirtAddr

def new (raw : Word) : Option VirtAddr :=
  if canonical : isCanonical raw = true then some ⟨raw, canonical⟩ else none

/-- `top_index` at height 3, `upper_index` at 2, `middle_index` at 1 and `leaf_index` at 0. -/
def index (v : VirtAddr) (height : Nat) : Index :=
  ⟨((v.raw >>> (12 + 9 * height)) &&& 0x1FF).toNat, by
    rw [BitVec.toNat_and]
    exact lt_of_le_of_lt Nat.and_le_right (by decide)⟩

end VirtAddr

/-- The window to the physical memory. Where it begins makes no difference to what is read there. -/
structure DirectMap where
  length : Nat

def DirectMap.covers (d : DirectMap) (frame : Nat) : Bool := frame * 4096 < d.length

section Primitives

variable {ε : Type}

def readEntry (table : Nat) (i : Index) : Exec Physical ε Word := fun s => .ok (s.memory table i) s

def writeEntry (table : Nat) (i : Index) (value : Word) : Exec Physical ε Unit := fun s =>
  .ok () (s.write table i value)

def writeTable (table : Nat) (entries : Index → Word) : Exec Physical ε Unit := fun s =>
  .ok () (s.fill table entries)

def zeroTable (table : Nat) : Exec Physical ε Unit := writeTable table fun _ => 0

/-- `allocate_frame` with `ok_or`. -/
def allocateFrame (refused : ε) : Exec Physical ε Nat := fun s =>
  match s.allocator.allocateFrame with
  | (some frame, a) => .ok frame { s with allocator := a }
  | (none, a) => .err refused { s with allocator := a }

/-- `deallocate_frame`, whose outcome is not looked at. -/
def deallocateFrame (frame : Nat) : Exec Physical ε Unit := fun s =>
  .ok () { s with allocator := s.allocator.deallocateFrame frame }

end Primitives

/-! ## The walk of the processor -/

inductive WalkError where
  | notPresent
  | giantPage
  deriving DecidableEq, Repr

structure Resolved where
  phys : Word
  huge : Bool
  entry : Word
  deriving DecidableEq, Repr

def walkPageTable (m : Memory) (pml4 : Nat) (v : VirtAddr) : Except WalkError Resolved :=
  let pml4e := m pml4 (v.index 3)
  if isPresent pml4e = false then .error .notPresent else
  let pdpte := m (frameOf pml4e) (v.index 2)
  if isPresent pdpte = false then .error .notPresent else
  if isHuge pdpte then .error .giantPage else
  let pde := m (frameOf pdpte) (v.index 1)
  if isPresent pde = false then .error .notPresent else
  if isHuge pde then .ok ⟨pageAddress2m pde + (v.raw &&& 0x1FFFFF), true, pde⟩ else
  let pte := m (frameOf pde) (v.index 0)
  if isPresent pte = false then .error .notPresent else
  .ok ⟨pageAddress4k pte + (v.raw &&& 0xFFF), false, pte⟩

inductive TranslateError where
  | unsupportedGiantPage
  deriving DecidableEq, Repr

inductive PageSize where
  | size4KiB
  | size2MiB
  deriving DecidableEq, Repr

structure Translation where
  phys : Word
  pageSize : PageSize
  entry : Word
  deriving DecidableEq, Repr

/-- `checked_add` of physical addresses, which have 52 bits. -/
def checkedAdd (phys offset : Word) : Option Word :=
  if phys.toNat + offset.toNat < 2 ^ 52 then some (phys + offset) else none

/-- `translate` of the table in use. -/
def translate (m : Memory) (pml4 : Nat) (v : VirtAddr) : Result TranslateError (Option Translation) :=
  let pml4e := m pml4 (v.index 3)
  if isPresent pml4e = false then .ok none else
  let pdpte := m (frameOf pml4e) (v.index 2)
  if isPresent pdpte = false then .ok none else
  if isHuge pdpte then .err .unsupportedGiantPage else
  let pde := m (frameOf pdpte) (v.index 1)
  if isPresent pde = false then .ok none else
  if isHuge pde then do
    let phys ← checkedAdd (pageAddress2m pde) (v.raw &&& (0x200000 - 1))
    return some ⟨phys, .size2MiB, pde⟩
  else
  let pte := m (frameOf pde) (v.index 0)
  if isPresent pte = false then .ok none else do
    let phys ← checkedAdd (pageAddress4k pte) (v.raw &&& 0xFFF)
    return some ⟨phys, .size4KiB, pte⟩

/-! ## The half of the kernel -/

abbrev kernelPml4FirstIndex : Nat := 256

def isSharedKernelIndex (index : Nat) : Bool := kernelPml4FirstIndex ≤ index && index < 512

def kernelTopWriteIsRefused (index : Nat) (frozen : Bool) : Bool := frozen && isSharedKernelIndex index

/-- `kernel_mapping_write_is_refused`. No page is excepted. -/
def kernelMappingWriteIsRefused (pml4Index : Nat) (finished : Bool) : Bool :=
  finished && isSharedKernelIndex pml4Index

def toLeBytes (w : Word) : List Word := (List.range 8).map fun k => (w >>> (8 * k)) &&& 0xFF

/-- `kernel_top_digest`: the bits that the processor sets are left out. -/
def kernelTopDigest (entries : List (Nat × Word)) : Word :=
  let mix (hash byte : Word) : Word := (hash ^^^ byte) * 0x00000100000001B3
  entries.foldl (fun hash entry =>
    (toLeBytes (BitVec.ofNat 64 entry.1) ++
      toLeBytes (entry.2 &&& ~~~(Bits.accessed ||| Bits.dirty))).foldl mix hash)
    0xCBF29CE484222325 ||| 1

def kernelTop (m : Memory) (pml4 : Nat) : List (Nat × Word) :=
  ((List.finRange 512).filter fun i => isSharedKernelIndex i.val).map fun i => (i.val, m pml4 i)

/-! ## An address space -/

inductive AddressSpaceError where
  | outOfFrames
  | unreachable
  | notPrivate
  | unexpectedHugePage
  | alreadyMapped
  | kernelTopChanged
  | notForUser
  | writableAndExecutable
  deriving DecidableEq, Repr

structure AddressSpace where
  pml4 : Nat
  userPml4Index : Nat
  isPrivate : isSharedKernelIndex userPml4Index = false
  framesTaken : Nat

namespace AddressSpace

/-- `new`, when `current` is the table in use. Before the end of the boot `frozen` is zero. -/
def new (window : DirectMap) (current : Nat) (frozen : Word) (userWindow : Nat) :
    Exec Physical AddressSpaceError AddressSpace :=
  if isPrivate : isSharedKernelIndex userWindow = false then do
    let pml4 ← allocateFrame .outOfFrames
    if window.covers pml4 = false ∨ window.covers current = false then do
      deallocateFrame pml4
      Exec.fail .unreachable
    else do
      let m ← Exec.read fun s => .ok s.memory
      writeTable pml4 fun i => if isSharedKernelIndex i then m current i else 0
      let copied ← Exec.read fun s => .ok (kernelTopDigest (kernelTop s.memory pml4))
      if frozen ≠ 0 ∧ copied ≠ frozen then do
        deallocateFrame pml4
        Exec.fail .kernelTopChanged
      else return ⟨pml4, userWindow, isPrivate, 1⟩
  else Exec.fail .notPrivate

end AddressSpace

structure SpaceIn where
  space : AddressSpace
  physical : Physical

def physically {ε α : Type} (m : Exec Physical ε α) : Exec SpaceIn ε α :=
  Exec.within SpaceIn.physical (fun s p => { s with physical := p }) m

/-- `frames_taken += 1`. -/
def countFrame {ε : Type} : Exec SpaceIn ε Unit := fun s =>
  .ok () { s with space := { s.space with framesTaken := s.space.framesTaken + 1 } }

namespace AddressSpace

/-- A round of the loop of `map_user_4kib`: the table below, which is made when it is missing. -/
def childTable (window : DirectMap) (p : PagePermissions) (table : Nat) (i : Index) :
    Exec SpaceIn AddressSpaceError Nat := do
  let existing ← physically (readEntry table i)
  if isPresent existing then do
    Exec.rejectIf (isHuge existing) .unexpectedHugePage
    return frameOf existing
  else do
    let fresh ← physically (allocateFrame .outOfFrames)
    if window.covers fresh then do
      countFrame
      physically (zeroTable fresh)
      physically (writeEntry table i (tableEntry (frameAddress fresh) p))
      return fresh
    else do
      physically (deallocateFrame fresh)
      Exec.fail .unreachable

def mapUser4kib (window : DirectMap) (v : VirtAddr) (frame : Nat) (p : PagePermissions) :
    Exec SpaceIn AddressSpaceError Unit := do
  let space ← Exec.read fun s => .ok s.space
  Exec.rejectIf ((v.index 3).val ≠ space.userPml4Index) .notPrivate
  Exec.rejectIf (p.user = false) .notForUser
  Exec.rejectIf p.writableAndExecutable .writableAndExecutable
  Exec.rejectIf (window.covers frame = false) .unreachable
  let pdpt ← childTable window p space.pml4 (v.index 3)
  let pd ← childTable window p pdpt (v.index 2)
  let pt ← childTable window p pd (v.index 1)
  let existing ← physically (readEntry pt (v.index 0))
  Exec.rejectIf (isPresent existing) .alreadyMapped
  physically (writeEntry pt (v.index 0) (leafEntry (frameAddress frame) p .small))
  countFrame

end AddressSpace

/-! ## The table in use -/

inductive MapUpdateError where
  | notMapped
  | notSplittable
  | alreadySmall
  | globalPagePresent
  | outOfFrames
  | alreadyMapped
  | writableAndExecutable
  | kernelMappingFrozen
  deriving DecidableEq, Repr

structure UnmappedPage where
  frame : Nat
  entry : Word
  deriving DecidableEq, Repr

structure SplitOutcome where
  hugeEntry : Word
  tablePhys : Nat
  baseVirt : VirtAddr

structure ActivePageTable where
  pml4 : Nat
  finished : Bool

namespace ActivePageTable

variable (table : ActivePageTable)

def refuseKernelMappingChangeAfterBoot (v : VirtAddr) : Exec Physical MapUpdateError Unit :=
  Exec.rejectIf (kernelMappingWriteIsRefused (v.index 3) table.finished) .kernelMappingFrozen

def locatePd (v : VirtAddr) : Exec Physical MapUpdateError (Nat × Index) := do
  let pml4e ← readEntry table.pml4 (v.index 3)
  Exec.rejectIf (isPresent pml4e = false) .notMapped
  let pdpte ← readEntry (frameOf pml4e) (v.index 2)
  Exec.rejectIf (isPresent pdpte = false) .notMapped
  Exec.rejectIf (isHuge pdpte) .notSplittable
  return (frameOf pdpte, v.index 1)

def splitHugePage (v : VirtAddr) : Exec Physical MapUpdateError SplitOutcome := do
  table.refuseKernelMappingChangeAfterBoot v
  let (pd, pdIndex) ← table.locatePd v
  let pde ← readEntry pd pdIndex
  Exec.rejectIf (isPresent pde = false) .notMapped
  Exec.rejectIf (isHuge pde = false) .alreadySmall
  Exec.rejectIf (pde &&& Bits.global ≠ 0) .globalPagePresent
  let tablePhys ← allocateFrame .outOfFrames
  zeroTable tablePhys
  writeTable tablePhys fun i => splitChildEntry pde i
  writeEntry pd pdIndex (tableEntryForSplit pde (frameAddress tablePhys))
  let baseVirt ← VirtAddr.new (v.raw &&& ~~~(0x200000 - 1))
  return ⟨pde, tablePhys, baseVirt⟩

def unmap4kib (v : VirtAddr) : Exec Physical MapUpdateError UnmappedPage := do
  table.refuseKernelMappingChangeAfterBoot v
  let (pd, pdIndex) ← table.locatePd v
  let pde ← readEntry pd pdIndex
  Exec.rejectIf (isPresent pde = false) .notMapped
  Exec.rejectIf (isHuge pde) .alreadySmall
  let pt := frameOf pde
  let pte ← readEntry pt (v.index 0)
  Exec.rejectIf (isPresent pte = false) .notMapped
  writeEntry pt (v.index 0) 0
  return ⟨frameOf pte, pte⟩

/-- `ensure_child`. The kernel panics rather than let its half grow after the boot. -/
def ensureChild (p : PagePermissions) (tablePhys : Nat) (i : Index) :
    Exec Physical MapUpdateError Nat := do
  let existing ← readEntry tablePhys i
  if isPresent existing then do
    Exec.rejectIf (isHuge existing) .notSplittable
    return frameOf existing
  else do
    Exec.faultIf (tablePhys = table.pml4 ∧ kernelTopWriteIsRefused i table.finished)
    let child ← allocateFrame .outOfFrames
    zeroTable child
    writeEntry tablePhys i (tableEntry (frameAddress child) p)
    return child

def map4kib (v : VirtAddr) (phys : Nat) (p : PagePermissions) : Exec Physical MapUpdateError Unit := do
  table.refuseKernelMappingChangeAfterBoot v
  Exec.rejectIf (p.user && p.writableAndExecutable) .writableAndExecutable
  let pdpt ← table.ensureChild p table.pml4 (v.index 3)
  let pd ← table.ensureChild p pdpt (v.index 2)
  let pt ← table.ensureChild p pd (v.index 1)
  let existing ← readEntry pt (v.index 0)
  Exec.rejectIf (isPresent existing) .alreadyMapped
  writeEntry pt (v.index 0) (leafEntry (frameAddress phys) p .small)

end ActivePageTable

section Wp

variable {ε : Type} (s : Physical) (E : ε → Physical → Prop)

@[simp] theorem wp_readEntry (table : Nat) (i : Index) (Q : Word → Physical → Prop) :
    Exec.Wp (readEntry table i) s Q E ↔ Q (s.memory table i) s := Iff.rfl

@[simp] theorem wp_writeEntry (table : Nat) (i : Index) (value : Word) (Q : Unit → Physical → Prop) :
    Exec.Wp (writeEntry table i value) s Q E ↔ Q () (s.write table i value) := Iff.rfl

@[simp] theorem wp_writeTable (table : Nat) (entries : Index → Word) (Q : Unit → Physical → Prop) :
    Exec.Wp (writeTable table entries) s Q E ↔ Q () (s.fill table entries) := Iff.rfl

@[simp] theorem wp_deallocateFrame (frame : Nat) (Q : Unit → Physical → Prop) :
    Exec.Wp (deallocateFrame frame) s Q E ↔
      Q () { s with allocator := s.allocator.deallocateFrame frame } := Iff.rfl

@[simp] theorem wp_physically {α : Type} (m : Exec Physical ε α) (s : SpaceIn)
    (Q : α → SpaceIn → Prop) (E : ε → SpaceIn → Prop) :
    Exec.Wp (physically m) s Q E ↔
      Exec.Wp m s.physical (fun a t => Q a { s with physical := t }) fun e t =>
        E e { s with physical := t } :=
  Exec.wp_within ..

@[simp] theorem wp_countFrame (s : SpaceIn) (Q : Unit → SpaceIn → Prop) (E : ε → SpaceIn → Prop) :
    Exec.Wp countFrame s Q E ↔
      Q () { s with space := { s.space with framesTaken := s.space.framesTaken + 1 } } := Iff.rfl

theorem wp_ite {σ α : Type} {c : Prop} [Decidable c] {m n : Exec σ ε α} {s : σ}
    {Q : α → σ → Prop} {E : ε → σ → Prop} :
    Exec.Wp (if c then m else n) s Q E ↔ (c → Exec.Wp m s Q E) ∧ (¬c → Exec.Wp n s Q E) := by
  split <;> simp_all

end Wp

end Zaytos.Kernel.Paging
