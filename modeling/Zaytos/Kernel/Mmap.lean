import Zaytos.Kernel.PageEntry
import Zaytos.Kernel.Syscall

set_option autoImplicit false

/-! `mmap`: shared memory and the screen are mapped into the space of the program that asks for it,
at an address that the kernel chooses. -/
namespace Zaytos.Kernel

open Paging (PagePermissions)

abbrev protWrite : Nat := 2
abbrev protExec : Nat := 4

/-- Why `mmap` fails. -/
inductive MmapError where
  | einval
  | eperm
  | ebadf
  | enodev
  | enomem
  deriving DecidableEq, Repr

/-- The part of `GraphicsSurface` that is mapped: the back buffer. -/
structure Surface where
  phys : Nat
  sizeBytes : Nat

/-- The table in use, what its leaves permit, by page, and the allocator for its tables. -/
structure UserMap where
  space : AddressSpace
  permissions : List (Nat × PagePermissions)
  allocator : FrameAllocator

namespace UserMap

def translation (m : UserMap) (page : Nat) : Option (Nat × Option PagePermissions) :=
  (m.space.leaf page).map fun leaf => (leaf.frame, m.permissions.lookup page)

def map4kib (m : UserMap) (page frame : Nat) (p : PagePermissions) : Bool × UserMap :=
  if p.user && p.writableAndExecutable then (false, m)
  else
    let out := m.space.map4kib m.allocator page ⟨frame, p.shared⟩
    (out.1, {
      space := out.2.1
      permissions := if out.1 then (page, p) :: m.permissions else m.permissions
      allocator := out.2.2 })

/-- The loop of `mmap`, over the frames of the object. A frame whose address is not physical is
`none`. What is mapped stays mapped when a later page fails. -/
def mapPages (m : UserMap) (p : PagePermissions) (address : Nat) :
    List (Option Nat) → MapOutcome × UserMap
  | [] => (.mapped, m)
  | frame :: rest =>
    if 2 ^ 64 ≤ address then (.overflows, m)
    else
      match isCanonical address, frame with
      | true, some frame =>
        match m.map4kib (address / pageSize) frame p with
        | (true, m) => m.mapPages p (address + pageSize) rest
        | (false, m) => (.refused, m)
      | _, _ => (.notCanonical, m)

end UserMap

/-- What `mmap` returns. -/
inductive MmapReply where
  | address (base : Nat)
  | error (errno : MmapError)
  | panics
  deriving DecidableEq, Repr

/-- What `mmap` works on: the programs that run in the slots, the objects, and `MMAP_NEXT`. -/
structure MmapState where
  space : Slot → AddressSpace
  permissions : Slot → List (Nat × PagePermissions)
  files : Slot → FileTable
  memory : ShmTable
  screen : Option Surface
  /-- Somebody has the frame allocator, and `take` does not give it out. -/
  lent : Bool
  next : Slot → Nat

namespace MmapState

variable (k : MmapState) (slot : Slot)

def userMap : UserMap := ⟨k.space slot, k.permissions slot, k.memory.allocator⟩

def translation (page : Nat) : Option (Nat × Option PagePermissions) :=
  (k.userMap slot).translation page

def setUserMap (m : UserMap) : MmapState :=
  { k with
    space := Function.update k.space slot m.space
    permissions := Function.update k.permissions slot m.permissions
    memory := { k.memory with allocator := m.allocator } }

def shmOf (fd : Nat) : Except MmapError Nat :=
  match (k.files slot).get fd with
  | .ok file =>
    match file.shmIndex with
    | some shm => .ok shm
    | none => .error .ebadf
  | .error _ => .error .ebadf

def isScreenFd (fd : Nat) : Bool :=
  match (k.files slot).get fd with
  | .ok file => file = .screen
  | .error _ => false

/-- `PhysAddr::new` of an address in the surface, as the number of its frame. -/
def surfaceFrame (surface : Surface) (page : Nat) : Option Nat :=
  let address := surface.phys + page * pageSize
  if address < 2 ^ 52 then some (address / pageSize) else none

/-- `mmap_screen_from_ring3` up to the frames that are to be mapped. -/
def screenFrames (len : Nat) : Except MmapError (List (Option Nat)) :=
  match k.screen with
  | none => .error .enodev
  | some surface =>
    let limit := pagesFor surface.sizeBytes * pageSize
    if len = 0 ∨ limit < len then .error .einval
    else .ok ((List.range (pagesFor len)).map (surfaceFrame surface))

/-- `mmap_from_ring3` up to the frames that are to be mapped. -/
def mmapFrames (len prot fd offset : Nat) : Except MmapError (List (Option Nat)) :=
  if offset ≠ 0 then .error .einval
  else if prot &&& protExec ≠ 0 then .error .eperm
  else if k.isScreenFd slot fd then k.screenFrames len
  else
    match k.shmOf slot fd with
    | .error errno => .error errno
    | .ok shm =>
      match k.memory.framesOf shm with
      | none => .error .einval
      | some (frames, shmLen) =>
        if len = 0 ∨ shmLen < len ∨ frames.length < pagesFor len then .error .einval
        else .ok ((frames.take (pagesFor len)).map some)

/-- The rest of both: the address is what `MMAP_NEXT` has, which grows in any case. -/
def mapFrames (frames : List (Option Nat)) (write : Bool) : MmapReply × MmapState :=
  let base := k.next slot
  let k := { k with
    next := Function.update k.next slot ((base + frames.length * pageSize) % 2 ^ 64) }
  if k.lent then (.error .enomem, k)
  else
    let out := (k.userMap slot).mapPages (.userShared write) base frames
    ((match out.1 with
      | .mapped => .address base
      | .notCanonical => .error .einval
      | .refused => .error .enomem
      | .overflows => .panics), k.setUserMap slot out.2)

def mmapFromRing3 (len prot fd offset : Nat) : MmapReply × MmapState :=
  match k.mmapFrames slot len prot fd offset with
  | .error errno => (.error errno, k)
  | .ok frames => k.mapFrames slot frames (prot &&& protWrite ≠ 0)

end MmapState

end Zaytos.Kernel
