import Mathlib.Algebra.Group.Nat.Defs
import Mathlib.Data.List.Basic

set_option autoImplicit false

/-! The frame allocator: free memory as ranges of frames in order. -/
namespace Zaytos.Kernel

structure FrameRange where
  startFrame : Nat
  frameCount : Nat
  deriving DecidableEq, Repr

namespace FrameRange

def endFrame (r : FrameRange) : Nat := r.startFrame + r.frameCount

end FrameRange

/-- The first `range_count` ranges, and the room for more. -/
structure FrameAllocator where
  capacity : Nat
  ranges : List FrameRange
  deriving DecidableEq, Repr

namespace FrameAllocator

def new (capacity : Nat) : FrameAllocator := ⟨capacity, []⟩

/-- `try_merge_forward` of a range with those behind it. -/
def tryMergeForward (r : FrameRange) : List FrameRange → List FrameRange
  | next :: rest =>
    if next.startFrame ≤ r.endFrame then
      ⟨r.startFrame, max r.endFrame next.endFrame - r.startFrame⟩ :: rest
    else r :: next :: rest
  | [] => [r]

/-- `insert_free_range`. It fails when a further range finds no room. -/
def insertFreeRange (a : FrameAllocator) (startFrame frameCount : Nat) : Option FrameAllocator :=
  if frameCount = 0 then some a
  else
    let newEnd := startFrame + frameCount
    let before := a.ranges.takeWhile fun r => decide (r.startFrame ≤ startFrame)
    let after := a.ranges.dropWhile fun r => decide (r.startFrame ≤ startFrame)
    let separate : Option FrameAllocator :=
      match after with
      | next :: rest =>
        if next.startFrame ≤ newEnd then
          let mergedStart := min startFrame next.startFrame
          some { a with ranges :=
            before ++ ⟨mergedStart, max newEnd next.endFrame - mergedStart⟩ :: rest }
        else if a.capacity ≤ a.ranges.length then none
        else some { a with ranges := before ++ ⟨startFrame, frameCount⟩ :: after }
      | [] =>
        if a.capacity ≤ a.ranges.length then none
        else some { a with ranges := before ++ [⟨startFrame, frameCount⟩] }
    match before.getLast? with
    | some prev =>
      if startFrame ≤ prev.endFrame then
        some { a with ranges := before.dropLast ++
          tryMergeForward ⟨prev.startFrame, max prev.endFrame newEnd - prev.startFrame⟩ after }
      else separate
    | none => separate

/-- `PhysAddr::from_frame_number`: physical addresses have 52 bits. -/
def frameOfNumber (frame : Nat) : Option Nat := if frame < 2 ^ 40 then some frame else none

/-- `allocate_frame`: the lowest free frame. -/
def allocateFrame (a : FrameAllocator) : Option Nat × FrameAllocator :=
  match a.ranges with
  | [] => (none, a)
  | first :: rest =>
    (frameOfNumber first.startFrame, { a with ranges :=
      if first.frameCount - 1 = 0 then rest
      else ⟨first.startFrame + 1, first.frameCount - 1⟩ :: rest })

/-- `deallocate_frame`, as its callers use it: a frame that finds no room is lost. -/
def deallocateFrame (a : FrameAllocator) (frame : Nat) : FrameAllocator :=
  (a.insertFreeRange frame 1).getD a

def nextMultipleOf (n align : Nat) : Nat := (n + align - 1) / align * align

/-- The range has `count` frames from its first boundary on. -/
def fits (count align : Nat) (r : FrameRange) : Bool :=
  nextMultipleOf r.startFrame align + count ≤ r.endFrame

/-- What is left of a range without `count` frames from `aligned` on. -/
def leftOver (r : FrameRange) (aligned count : Nat) : List FrameRange :=
  let leading := aligned - r.startFrame
  let trailing := r.endFrame - (aligned + count)
  (if leading = 0 then [] else [⟨r.startFrame, leading⟩]) ++
    (if trailing = 0 then [] else [⟨aligned + count, trailing⟩])

/-- `allocate_contiguous_aligned`: from the first range that has the room. -/
def allocateContiguousAligned (a : FrameAllocator) (count align : Nat) :
    Option Nat × FrameAllocator :=
  if count = 0 ∨ align = 0 ∨ ¬align.isPowerOfTwo then (none, a)
  else
    match a.ranges.dropWhile fun r => !fits count align r with
    | [] => (none, a)
    | r :: after =>
      let aligned := nextMultipleOf r.startFrame align
      let left := leftOver r aligned count
      -- Two ranges in the place of one need a free place.
      if left.length = 2 ∧ a.ranges.length = a.capacity then (none, a)
      else
        let before := a.ranges.takeWhile fun r => !fits count align r
        (frameOfNumber aligned, { a with ranges := before ++ left ++ after })

/-- `allocate_contiguous`: from the beginning of the first range that is large enough. -/
def allocateContiguous (a : FrameAllocator) (count : Nat) : Option Nat × FrameAllocator :=
  if count = 0 then (none, a)
  else
    match a.ranges.dropWhile fun r => decide (r.frameCount < count) with
    | [] => (none, a)
    | r :: after =>
      let before := a.ranges.takeWhile fun r => decide (r.frameCount < count)
      (frameOfNumber r.startFrame,
        { a with ranges := before ++ leftOver r r.startFrame count ++ after })

def takeFrames (a : FrameAllocator) : Nat → List Nat × FrameAllocator
  | 0 => ([], a)
  | count + 1 =>
    match a.allocateFrame with
    | (none, a) => ([], a)
    | (some frame, a) =>
      let rest := a.takeFrames count
      (frame :: rest.1, rest.2)

def deallocateFrames (a : FrameAllocator) (frames : List Nat) : FrameAllocator :=
  frames.foldl deallocateFrame a

end FrameAllocator

end Zaytos.Kernel
