import Zaytos.Kernel.Shm

set_option autoImplicit false

/-! The address spaces of the programs. The direct map covers every frame, and no leaf of a
program is a large page. -/
namespace Zaytos.Kernel

structure Leaf where
  frame : Nat
  /-- `PTE_SHARED`: the frame belongs to an object of shared memory. -/
  shared : Bool
  deriving DecidableEq

/-- The user half of a space. A page is an address divided by the size of a page. -/
structure AddressSpace where
  pml4 : Nat
  /-- The tables below the top, each with its level and the index that leads to it from there. -/
  tables : List ((Nat × Nat) × Nat)
  leaves : List (Nat × Leaf)

abbrev entriesPerTable : Nat := 512

abbrev lowerHalfPages : Nat := 2 ^ 35

abbrev pagesPerTopEntry : Nat := entriesPerTable ^ 3

abbrev userProgramStackTop : Nat := 0x800000

abbrev heapLimit : Nat := userProgramStackTop - pageSize

abbrev mmapBase : Nat := 0x10000000

abbrev quarantineCapacity : Nat := 256

/-- `VirtAddr::new`: addresses have 48 bits, with the last extended. -/
def isCanonical (address : Nat) : Bool := address < 2 ^ 47 || 2 ^ 64 - 2 ^ 47 ≤ address

namespace AddressSpace

def new (a : FrameAllocator) : Option AddressSpace × FrameAllocator :=
  (a.allocateFrame.1.map fun pml4 => ⟨pml4, [], []⟩, a.allocateFrame.2)

def table (space : AddressSpace) (level page : Nat) : Option Nat :=
  space.tables.lookup (level, page / entriesPerTable ^ level)

def leaf (space : AddressSpace) (page : Nat) : Option Leaf := space.leaves.lookup page

/-- `ensure_child` from level to level: tables that are missing are made. -/
def ensureTables (space : AddressSpace) (a : FrameAllocator) (page : Nat) :
    List Nat → Bool × AddressSpace × FrameAllocator
  | [] => (true, space, a)
  | level :: below =>
    match space.table level page with
    | some _ => space.ensureTables a page below
    | none =>
      match a.allocateFrame with
      | (none, a) => (false, space, a)
      | (some frame, a) =>
        ensureTables { space with
          tables := ((level, page / entriesPerTable ^ level), frame) :: space.tables } a page below

def mapPage (space : AddressSpace) (a : FrameAllocator) (page : Nat) (leaf : Leaf) :
    Bool × AddressSpace × FrameAllocator :=
  let out := space.ensureTables a page [3, 2, 1]
  if out.1 = true ∧ out.2.1.leaf page = none then
    (true, { out.2.1 with leaves := (page, leaf) :: out.2.1.leaves }, out.2.2)
  else (false, out.2)

/-- `map_user_4kib`: into the part of the space that a program is loaded to. -/
def mapUser4kib (space : AddressSpace) (a : FrameAllocator) (page frame : Nat) :
    Bool × AddressSpace × FrameAllocator :=
  if page / pagesPerTopEntry = 0 then space.mapPage a page ⟨frame, false⟩ else (false, space, a)

/-- `map_4kib` of the table in use. The half of the kernel is frozen. -/
def map4kib (space : AddressSpace) (a : FrameAllocator) (page : Nat) (leaf : Leaf) :
    Bool × AddressSpace × FrameAllocator :=
  if page < lowerHalfPages then space.mapPage a page leaf else (false, space, a)

def unmap4kib (space : AddressSpace) (page : Nat) : Option Leaf × AddressSpace :=
  (space.leaf page, { space with leaves := space.leaves.filter fun entry => entry.1 ≠ page })

/-- `detach`: the frames a space had for itself. Shared leaves are passed over. -/
def detach (space : AddressSpace) : List Nat :=
  (space.leaves.filter fun entry => !entry.2.shared).map (fun entry => entry.2.frame) ++
    space.tables.map Prod.snd ++ [space.pml4]

/-- A frame is taken and mapped. When it cannot be mapped it goes back, if it is to, but not when the
page is no address. -/
def mapFresh (space : AddressSpace) (a : FrameAllocator) (page : Nat) (goesBack : Bool) :
    Bool × AddressSpace × FrameAllocator :=
  match a.allocateFrame with
  | (none, a) => (false, space, a)
  | (some frame, a) =>
    if isCanonical (page * pageSize) = false then (false, space, a)
    else
      match space.mapUser4kib a page frame with
      | (true, space, a) => (true, space, a)
      | (false, space, a) => (false, space, if goesBack then a.deallocateFrame frame else a)

def mapSegments (space : AddressSpace) (a : FrameAllocator) :
    List Nat → Bool × AddressSpace × FrameAllocator
  | [] => (true, space, a)
  | page :: rest =>
    match space.mapFresh a page true with
    | (true, space, a) => space.mapSegments a rest
    | (false, space, a) => (false, space, a)

/-- `load_user_program_into`: the pages of the image, and then one for the stack, unless it fails
before. The frame of a stack that cannot be mapped does not go back. -/
def loadInto (space : AddressSpace) (a : FrameAllocator) (pages : List Nat) (stack : Bool) :
    Bool × AddressSpace × FrameAllocator :=
  match space.mapSegments a pages with
  | (true, space, a) =>
    if stack then space.mapFresh a (userProgramStackTop / pageSize - 1) false else (true, space, a)
  | (false, space, a) => (false, space, a)

/-- The loop of `sys_brk` that grows a heap by `count` pages. It tells before which page it stops. -/
def grow (space : AddressSpace) (a : FrameAllocator) (page : Nat) :
    Nat → Nat × AddressSpace × FrameAllocator
  | 0 => (page, space, a)
  | count + 1 =>
    match a.allocateFrame with
    | (none, a) => (page, space, a)
    | (some frame, a) =>
      match space.map4kib a page ⟨frame, false⟩ with
      | (true, space, a) => space.grow a (page + 1) count
      | (false, space, a) => (page, space, a.deallocateFrame frame)

/-- The loop of `sys_brk` that shrinks a heap by `count` pages, from the last of them down. The
frames go back at once. -/
def shrink (space : AddressSpace) (a : FrameAllocator) (page : Nat) :
    Nat → AddressSpace × FrameAllocator
  | 0 => (space, a)
  | count + 1 =>
    match space.unmap4kib (page + count) with
    | (some leaf, space) => space.shrink (a.deallocateFrame leaf.frame) page count
    | (none, space) => space.shrink a page count

end AddressSpace

/-- How the loop of `mmap` ends. -/
inductive MapOutcome where
  | mapped
  | notCanonical
  | refused
  | overflows
  deriving DecidableEq

/-- The loop of `mmap`. What is mapped stays mapped when a later page fails. -/
def AddressSpace.mapShared (space : AddressSpace) (a : FrameAllocator) (address : Nat) :
    List Nat → MapOutcome × AddressSpace × FrameAllocator
  | [] => (.mapped, space, a)
  | frame :: rest =>
    if 2 ^ 64 ≤ address then (.overflows, space, a)
    else if isCanonical address = false then (.notCanonical, space, a)
    else
      match space.map4kib a (address / pageSize) ⟨frame, true⟩ with
      | (true, space, a) => space.mapShared a (address + pageSize) rest
      | (false, space, a) => (.refused, space, a)

structure Heap where
  start : Nat
  breakAt : Nat
  deriving DecidableEq

namespace Heap

/-- `from_image_end`: the heap starts at the next page. -/
def fromImageEnd (imageEnd : Nat) : Heap :=
  ⟨pagesFor imageEnd * pageSize, pagesFor imageEnd * pageSize⟩

def isMapped (h : Heap) : Bool := h.start ≠ 0

end Heap

end Zaytos.Kernel
