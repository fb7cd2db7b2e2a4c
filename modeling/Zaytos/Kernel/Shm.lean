import Zaytos.Kernel.Frames

set_option autoImplicit false

/-! Shared memory: frames that belong to whoever has a descriptor of them. -/
namespace Zaytos.Kernel

abbrev pageSize : Nat := 4096

abbrev maxShm : Nat := 2

abbrev maxShmPages : Nat := 8

structure Shm where
  inUse : Bool
  frames : List Nat
  len : Nat
  refs : Nat

namespace Shm

def empty : Shm := ⟨false, [], 0, 0⟩

def pages (m : Shm) : Nat := m.frames.length

end Shm

/-- The table `SHMS`, of which only the indices below `maxShm` are looked at, the gauge
`SHARED_FRAMES_HELD`, and the frame allocator. -/
structure ShmTable where
  shms : Nat → Shm
  framesHeld : Nat
  allocator : FrameAllocator

inductive TruncateOutcome where
  | pages (count : Nat)
  | tooLarge
  | alreadySet
  | noRoom
  | noShm
  deriving DecidableEq, Repr

def pagesFor (size : Nat) : Nat := (size + pageSize - 1) / pageSize

namespace ShmTable

def set (m : ShmTable) (index : Nat) (object : Shm) : ShmTable :=
  { m with shms := Function.update m.shms index object }

/-- `create`: the descriptor to come is the one reference. -/
def create (m : ShmTable) : Option (Nat × ShmTable) :=
  ((List.range maxShm).find? fun index => !(m.shms index).inUse).map fun index =>
    (index, m.set index { Shm.empty with inUse := true, refs := 1 })

def setSize (m : ShmTable) (index size : Nat) : TruncateOutcome × ShmTable :=
  if index < maxShm ∧ (m.shms index).inUse = true then
    if (m.shms index).pages ≠ 0 then (.alreadySet, m)
    else if maxShmPages < pagesFor size then (.tooLarge, m)
    else
      let taken := m.allocator.takeFrames (pagesFor size)
      if taken.1.length < pagesFor size then
        (.noRoom, { m with allocator := taken.2.deallocateFrames taken.1 })
      else
        (.pages (pagesFor size), { m with
          shms := Function.update m.shms index { m.shms index with frames := taken.1, len := size }
          framesHeld := m.framesHeld + pagesFor size
          allocator := taken.2 })
  else (.noShm, m)

def framesOf (m : ShmTable) (index : Nat) : Option (List Nat × Nat) :=
  if index < maxShm ∧ (m.shms index).inUse = true ∧ (m.shms index).pages ≠ 0 then
    some ((m.shms index).frames, (m.shms index).len)
  else none

def attach (m : ShmTable) (index : Nat) : ShmTable :=
  if index < maxShm ∧ (m.shms index).inUse = true then
    m.set index { m.shms index with refs := min (2 ^ 32 - 1) ((m.shms index).refs + 1) }
  else m

def detach (m : ShmTable) (index : Nat) : ShmTable :=
  if index < maxShm ∧ (m.shms index).inUse = true then
    if (m.shms index).refs - 1 ≠ 0 then
      m.set index { m.shms index with refs := (m.shms index).refs - 1 }
    else
      { shms := Function.update m.shms index .empty
        framesHeld := m.framesHeld - (m.shms index).pages
        allocator := m.allocator.deallocateFrames (m.shms index).frames }
  else m

end ShmTable

end Zaytos.Kernel
