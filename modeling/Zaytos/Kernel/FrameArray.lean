import Zaytos.Kernel.FrameSpec
import Zaytos.Lib.Checked

set_option autoImplicit false

/-! The frame allocator as it is in memory: an array, and how many of its places are in use. -/
namespace Zaytos.Kernel

open Extent

structure FrameArray where
  ranges : List FrameRange
  rangeCount : Nat
  deriving DecidableEq, Repr

namespace FrameArray

def new (capacity : Nat) : FrameArray := ⟨List.replicate capacity ⟨0, 0⟩, 0⟩

/-- `ranges[i] = r`. There is nothing when the index is out of bounds. -/
def write (ranges : List FrameRange) (i : Nat) (r : FrameRange) : Option (List FrameRange) :=
  if i < ranges.length then some (ranges.set i r) else none

/-- The loop that moves `n` ranges from `first` on by one place, the last one first. -/
def shiftUp (ranges : List FrameRange) (first : Nat) : Nat → Option (List FrameRange)
  | 0 => some ranges
  | n + 1 => do
    let r ← ranges[first + n]?
    let ranges ← write ranges (first + n + 1) r
    shiftUp ranges first n

/-- The loop that moves the `n` ranges behind `first` back by one place. -/
def shiftDown (ranges : List FrameRange) (first : Nat) : Nat → Option (List FrameRange)
  | 0 => some ranges
  | n + 1 => do
    let r ← ranges[first + 1]?
    let ranges ← write ranges first r
    shiftDown ranges (first + 1) n

/-- The loop that looks for the first range above `startFrame`, with `n` of `count` to go. -/
def findAbove (ranges : List FrameRange) (startFrame count : Nat) : Nat → Option Nat
  | 0 => some count
  | n + 1 => do
    let r ← ranges[count - (n + 1)]?
    if startFrame < r.startFrame then some (count - (n + 1))
    else findAbove ranges startFrame count n

/-- The ranges from `i` on make room for a further one. -/
def insert (a : FrameArray) (i : Nat) (r : FrameRange) : Option FrameArray := do
  let ranges ← shiftUp a.ranges i (a.rangeCount - i)
  let ranges ← write ranges i r
  some ⟨ranges, a.rangeCount + 1⟩

def remove (a : FrameArray) (i : Nat) : Option FrameArray := do
  let ranges ← shiftDown a.ranges i (a.rangeCount - 1 - i)
  some ⟨ranges, a.rangeCount - 1⟩

def tryMergeForward (a : FrameArray) (idx : Nat) : Option FrameArray :=
  if idx + 1 < a.rangeCount then do
    let r ← a.ranges[idx]?
    let next ← a.ranges[idx + 1]?
    if next.startFrame ≤ r.endFrame then
      let mergedEnd := max r.endFrame next.endFrame
      let ranges ← write a.ranges idx ⟨r.startFrame, mergedEnd - r.startFrame⟩
      ({ a with ranges } : FrameArray).remove (idx + 1)
    else some a
  else some a

/-- The end of `insert_free_range`: a range of its own at `insertAt`. -/
def insertNew (a : FrameArray) (insertAt startFrame frameCount : Nat) :
    Option (Bool × FrameArray) :=
  if a.ranges.length ≤ a.rangeCount then some (false, a)
  else do
    let a ← a.insert insertAt ⟨startFrame, frameCount⟩
    some (true, a)

/-- The middle of `insert_free_range`: the range at `insertAt` may be reached. -/
def insertBefore (a : FrameArray) (insertAt startFrame frameCount : Nat) :
    Option (Bool × FrameArray) :=
  let newEnd := startFrame + frameCount
  if insertAt < a.rangeCount then do
    let next ← a.ranges[insertAt]?
    if next.startFrame ≤ newEnd then
      let mergedStart := min startFrame next.startFrame
      let mergedEnd := max newEnd next.endFrame
      let ranges ← write a.ranges insertAt ⟨mergedStart, mergedEnd - mergedStart⟩
      some (true, { a with ranges })
    else a.insertNew insertAt startFrame frameCount
  else a.insertNew insertAt startFrame frameCount

/-- `insert_free_range`, and whether it is `Ok`. -/
def insertFreeRange (a : FrameArray) (startFrame frameCount : Nat) : Option (Bool × FrameArray) :=
  if frameCount = 0 then some (true, a)
  else do
    let newEnd := startFrame + frameCount
    let insertAt ← findAbove a.ranges startFrame a.rangeCount a.rangeCount
    if 0 < insertAt then
      let prev ← a.ranges[insertAt - 1]?
      if startFrame ≤ prev.endFrame then
        let mergedEnd := max prev.endFrame newEnd
        let ranges ← write a.ranges (insertAt - 1) ⟨prev.startFrame, mergedEnd - prev.startFrame⟩
        let a ← tryMergeForward { a with ranges } (insertAt - 1)
        some (true, a)
      else a.insertBefore insertAt startFrame frameCount
    else a.insertBefore insertAt startFrame frameCount

def allocateFrame (a : FrameArray) : Option (Option Nat × FrameArray) :=
  if a.rangeCount = 0 then some (none, a)
  else do
    let first ← a.ranges[0]?
    let frameCount ← sub first.frameCount 1
    let ranges ← write a.ranges 0 ⟨first.startFrame + 1, frameCount⟩
    let a : FrameArray := { a with ranges }
    if frameCount = 0 then
      let a ← a.remove 0
      some (FrameAllocator.frameOfNumber first.startFrame, a)
    else some (FrameAllocator.frameOfNumber first.startFrame, a)

def deallocateFrame (a : FrameArray) (frame : Nat) : Option (Bool × FrameArray) :=
  a.insertFreeRange frame 1

/-- What `allocate_contiguous_aligned` does with a range that has the room. -/
def carve (a : FrameArray) (i : Nat) (r : FrameRange) (aligned count : Nat) :
    Option (Option Nat × FrameArray) :=
  let leading := aligned - r.startFrame
  let trailing := r.endFrame - (aligned + count)
  if leading = 0 ∧ trailing = 0 then do
    let a ← a.remove i
    some (FrameAllocator.frameOfNumber aligned, a)
  else if leading = 0 then do
    let ranges ← write a.ranges i ⟨aligned + count, trailing⟩
    some (FrameAllocator.frameOfNumber aligned, { a with ranges })
  else if trailing = 0 then do
    let ranges ← write a.ranges i ⟨r.startFrame, leading⟩
    some (FrameAllocator.frameOfNumber aligned, { a with ranges })
  else if a.rangeCount = a.ranges.length then some (none, a)
  else do
    let ranges ← write a.ranges i ⟨r.startFrame, leading⟩
    let a ← ({ a with ranges } : FrameArray).insert (i + 1) ⟨aligned + count, trailing⟩
    some (FrameAllocator.frameOfNumber aligned, a)

/-- The loop of `allocate_contiguous_aligned`, with `n` ranges to go. -/
def alignedLoop (a : FrameArray) (count align : Nat) : Nat → Option (Option Nat × FrameArray)
  | 0 => some (none, a)
  | n + 1 => do
    let i := a.rangeCount - (n + 1)
    let r ← a.ranges[i]?
    if FrameAllocator.fits count align r then
      a.carve i r (FrameAllocator.nextMultipleOf r.startFrame align) count
    else alignedLoop a count align n

def allocateContiguousAligned (a : FrameArray) (count align : Nat) :
    Option (Option Nat × FrameArray) :=
  if count = 0 ∨ align = 0 ∨ ¬align.isPowerOfTwo then some (none, a)
  else a.alignedLoop count align a.rangeCount

/-- The loop of `allocate_contiguous`, with `n` ranges to go. -/
def contiguousLoop (a : FrameArray) (count : Nat) : Nat → Option (Option Nat × FrameArray)
  | 0 => some (none, a)
  | n + 1 => do
    let i := a.rangeCount - (n + 1)
    let r ← a.ranges[i]?
    if count ≤ r.frameCount then
      if r.frameCount = count then
        let a ← a.remove i
        some (FrameAllocator.frameOfNumber r.startFrame, a)
      else
        let ranges ← write a.ranges i ⟨r.startFrame + count, r.frameCount - count⟩
        some (FrameAllocator.frameOfNumber r.startFrame, { a with ranges })
    else contiguousLoop a count n

def allocateContiguous (a : FrameArray) (count : Nat) : Option (Option Nat × FrameArray) :=
  if count = 0 then some (none, a) else a.contiguousLoop count a.rangeCount

/-- The ranges in use: the first `range_count` ones. -/
def inUse (a : FrameArray) : List FrameRange := a.ranges.take a.rangeCount

def free (a : FrameArray) : Set Nat := covered a.inUse

/-- The ranges in use are those of an allocator with room for as many as the array. -/
structure Shows (a : FrameArray) (b : FrameAllocator) : Prop where
  inUse : ∃ unused, a.ranges = b.ranges ++ unused
  count : a.rangeCount = b.ranges.length
  capacity : a.ranges.length = b.capacity

theorem shows_new (capacity : Nat) : (new capacity).Shows (.new capacity) :=
  ⟨⟨_, rfl⟩, rfl, List.length_replicate⟩

theorem Shows.inUse_eq {c : FrameArray} {b : FrameAllocator} (shown : c.Shows b) :
    c.inUse = b.ranges := by
  obtain ⟨⟨unused, inUse⟩, count, _⟩ := shown
  rw [FrameArray.inUse, inUse, count, List.take_left]

theorem Shows.free_eq {c : FrameArray} {b : FrameAllocator} (shown : c.Shows b) :
    c.free = b.free := by
  rw [FrameArray.free, shown.inUse_eq, FrameAllocator.free]

section

variable {before moved after rest : List FrameRange} {x r : FrameRange} {n : Nat}

theorem read_middle (length : before.length = n) : (before ++ x :: after)[n]? = some x := by
  subst length
  rw [List.getElem?_append_right le_rfl, Nat.sub_self, List.getElem?_cons_zero]

theorem write_middle (length : before.length = n) :
    write (before ++ x :: after) n r = some (before ++ r :: after) := by
  subst length
  have inside : before.length < (before ++ x :: after).length := by
    rw [List.length_append, List.length_cons]
    omega
  rw [write, if_pos inside, List.set_append_right _ _ le_rfl, Nat.sub_self, List.set_cons_zero]

theorem shiftUp_eq (moved : List FrameRange) :
    ∀ x rest, ∃ y, shiftUp (before ++ (moved ++ x :: rest)) before.length moved.length =
      some (before ++ y :: (moved ++ rest)) := by
  induction moved using List.reverseRecOn with
  | nil => exact fun x rest => ⟨x, rfl⟩
  | append_singleton moved last ih =>
    intro x rest
    obtain ⟨y, shifted⟩ := ih last (last :: rest)
    refine ⟨y, ?_⟩
    have list : before ++ (moved ++ [last] ++ x :: rest) =
        (before ++ moved) ++ last :: x :: rest := by simp
    have list' : before ++ (moved ++ [last] ++ x :: rest) =
        (before ++ moved ++ [last]) ++ x :: rest := by simp
    rw [List.length_append, List.length_singleton, shiftUp]
    have read : (before ++ (moved ++ [last] ++ x :: rest))[before.length + moved.length]? =
        some last := by
      rw [list]
      exact read_middle List.length_append
    have written : write (before ++ (moved ++ [last] ++ x :: rest))
        (before.length + moved.length + 1) last =
        some (before ++ (moved ++ last :: last :: rest)) := by
      rw [list', write_middle (by simp only [List.length_append, List.length_singleton])]
      simp
    rw [read, Option.bind_eq_bind, Option.bind_some, written, Option.bind_eq_bind,
      Option.bind_some, shifted]
    simp

theorem shiftDown_eq (moved : List FrameRange) :
    ∀ before x, ∃ y, shiftDown (before ++ x :: (moved ++ rest)) before.length moved.length =
      some (before ++ (moved ++ y :: rest)) := by
  induction moved with
  | nil => exact fun before x => ⟨x, rfl⟩
  | cons first moved ih =>
    intro before x
    obtain ⟨y, shifted⟩ := ih (before ++ [first]) first
    refine ⟨y, ?_⟩
    have list : before ++ x :: (first :: moved ++ rest) =
        (before ++ [x]) ++ first :: (moved ++ rest) := by simp
    have read : (before ++ x :: (first :: moved ++ rest))[before.length + 1]? = some first := by
      rw [list]
      exact read_middle (by simp)
    rw [List.length_cons, shiftDown, read, Option.bind_eq_bind, Option.bind_some,
      write_middle rfl, Option.bind_eq_bind, Option.bind_some]
    have list' : before ++ first :: (first :: moved ++ rest) =
        (before ++ [first]) ++ first :: (moved ++ rest) := by simp
    rw [list', show before.length + 1 = (before ++ [first]).length by simp, shifted]
    simp

theorem findAbove_eq (startFrame : Nat) (l unused : List FrameRange) :
    ∀ before : List FrameRange,
      findAbove (before ++ (l ++ unused)) startFrame (before.length + l.length) l.length =
        some (before.length + (l.takeWhile fun r => decide (r.startFrame ≤ startFrame)).length) := by
  induction l with
  | nil => exact fun before => rfl
  | cons r l ih =>
    intro before
    have place : before.length + (r :: l).length - (l.length + 1) = before.length := by
      rw [List.length_cons]
      omega
    rw [List.length_cons, findAbove]
    rw [List.length_cons] at place
    rw [place, List.cons_append, read_middle rfl, Option.bind_eq_bind, Option.bind_some,
      List.takeWhile_cons]
    by_cases above : startFrame < r.startFrame
    · rw [if_pos above, if_neg (by rw [decide_eq_true_eq]; omega)]
      rfl
    · rw [if_neg above, if_pos (by rw [decide_eq_true_eq]; omega), List.length_cons]
      have rest := ih (before ++ [r])
      rw [List.length_append, List.length_singleton, List.append_assoc, List.singleton_append] at rest
      rw [show before.length + (l.length + 1) = before.length + 1 + l.length by omega, rest]
      congr 1
      omega

variable {a c : FrameArray} {b d : FrameAllocator} {startFrame frameCount : Nat}

theorem Shows.parts (shown : a.Shows b) (ranges : b.ranges = before ++ after) :
    ∃ unused, a.ranges = before ++ (after ++ unused) ∧
      a.rangeCount = before.length + after.length ∧
      before.length + after.length + unused.length = b.capacity := by
  obtain ⟨⟨unused, inUse⟩, count, capacity⟩ := shown
  rw [ranges, List.append_assoc] at inUse
  rw [ranges, List.length_append] at count
  rw [inUse, List.length_append, List.length_append] at capacity
  exact ⟨unused, inUse, count, by omega⟩

theorem Shows.inserted (shown : a.Shows b) (ranges : b.ranges = before ++ after)
    (room : b.ranges.length < b.capacity) (r : FrameRange) :
    ∃ c, a.insert before.length r = some c ∧ c.Shows { b with ranges := before ++ r :: after } := by
  obtain ⟨unused, inUse, count, capacity⟩ := shown.parts ranges
  rw [ranges, List.length_append] at room
  cases unused with
  | nil =>
    rw [List.length_nil] at capacity
    omega
  | cons u unused =>
    obtain ⟨y, shifted⟩ := shiftUp_eq after u unused
    rw [FrameArray.insert, inUse, count, Nat.add_sub_cancel_left, shifted, Option.bind_eq_bind,
      Option.bind_some, write_middle rfl, Option.bind_some]
    refine ⟨_, rfl, ⟨unused, by simp⟩, ?_, ?_⟩
    · show before.length + after.length + 1 = (before ++ r :: after).length
      rw [List.length_append, List.length_cons]
      omega
    · show (before ++ r :: (after ++ unused)).length = b.capacity
      rw [List.length_cons] at capacity
      rw [List.length_append, List.length_cons, List.length_append]
      omega

theorem Shows.insertNew (shown : a.Shows b) (ranges : b.ranges = before ++ after)
    (startFrame frameCount : Nat) :
    (b.capacity ≤ b.ranges.length →
      a.insertNew before.length startFrame frameCount = some (false, a)) ∧
    (b.ranges.length < b.capacity →
      ∃ c, a.insertNew before.length startFrame frameCount = some (true, c) ∧
        c.Shows { b with ranges := before ++ ⟨startFrame, frameCount⟩ :: after }) := by
  rw [FrameArray.insertNew, shown.capacity, shown.count]
  refine ⟨fun full => if_pos full, fun room => ?_⟩
  obtain ⟨c, inserted, shown'⟩ := shown.inserted ranges room ⟨startFrame, frameCount⟩
  rw [if_neg (by omega), inserted]
  exact ⟨c, rfl, shown'⟩

theorem Shows.written (shown : a.Shows b) (ranges : b.ranges = before ++ x :: after) :
    ∃ written, write a.ranges before.length r = some written ∧
      ({ a with ranges := written } : FrameArray).Shows { b with ranges := before ++ r :: after } := by
  obtain ⟨unused, inUse, count, capacity⟩ := shown.parts ranges
  rw [inUse, List.cons_append, write_middle rfl]
  refine ⟨_, rfl, ⟨unused, by simp⟩, ?_, ?_⟩
  · show a.rangeCount = (before ++ r :: after).length
    rw [count, List.length_append, List.length_cons, List.length_cons]
  · show (before ++ r :: (after ++ unused)).length = b.capacity
    rw [List.length_cons] at capacity
    rw [List.length_append, List.length_cons, List.length_append]
    omega

theorem Shows.removed (shown : a.Shows b) (ranges : b.ranges = before ++ x :: after) :
    ∃ c, a.remove before.length = some c ∧ c.Shows { b with ranges := before ++ after } := by
  obtain ⟨unused, inUse, count, capacity⟩ := shown.parts ranges
  obtain ⟨y, shifted⟩ := shiftDown_eq after before x
  rw [List.length_cons] at count capacity
  have moved : a.rangeCount - 1 - before.length = after.length := by omega
  rw [remove, inUse, moved, List.cons_append, shifted, Option.bind_eq_bind, Option.bind_some]
  refine ⟨_, rfl, ⟨y :: unused, by simp⟩, ?_, ?_⟩
  · show a.rangeCount - 1 = (before ++ after).length
    rw [List.length_append]
    omega
  · show (before ++ (after ++ y :: unused)).length = b.capacity
    rw [List.length_append, List.length_append, List.length_cons]
    omega

theorem Shows.read (shown : a.Shows b) (ranges : b.ranges = before ++ x :: after) :
    a.ranges[before.length]? = some x := by
  obtain ⟨unused, inUse, _, _⟩ := shown.parts ranges
  rw [inUse, List.cons_append, read_middle rfl]

theorem Shows.tryMergeForward (shown : a.Shows b) (ranges : b.ranges = before ++ x :: after) :
    ∃ c, a.tryMergeForward before.length = some c ∧
      c.Shows { b with ranges := before ++ FrameAllocator.tryMergeForward x after } := by
  obtain ⟨unused, inUse, count, capacity⟩ := shown.parts ranges
  rw [List.length_cons] at count
  rw [FrameArray.tryMergeForward]
  cases after with
  | nil =>
    rw [if_neg (by rw [count, List.length_nil]; omega)]
    exact ⟨a, rfl, ranges ▸ shown⟩
  | cons next rest =>
    have read := shown.read (show b.ranges = (before ++ [x]) ++ next :: rest by rw [ranges]; simp)
    rw [List.length_append, List.length_singleton] at read
    rw [if_pos (by rw [count, List.length_cons]; omega), shown.read ranges, Option.bind_eq_bind,
      Option.bind_some, read, Option.bind_some, FrameAllocator.tryMergeForward]
    by_cases meets : next.startFrame ≤ x.endFrame
    · rw [if_pos meets, if_pos meets]
      obtain ⟨written, write, shown'⟩ := shown.written ranges
        (r := ⟨x.startFrame, max x.endFrame next.endFrame - x.startFrame⟩)
      obtain ⟨c, removed, shows'⟩ := shown'.removed (show
        before ++ ⟨x.startFrame, max x.endFrame next.endFrame - x.startFrame⟩ :: next :: rest =
          (before ++ [⟨x.startFrame, max x.endFrame next.endFrame - x.startFrame⟩]) ++ next :: rest
        by simp)
      rw [List.length_append, List.length_singleton] at removed
      dsimp only
      rw [write]
      exact ⟨c, removed, by simpa using shows'⟩
    · rw [if_neg meets, if_neg meets]
      exact ⟨a, rfl, ranges ▸ shown⟩

theorem Shows.insertBefore (shown : a.Shows b) (ranges : b.ranges = before ++ after) :
    (b.insertSeparate before after startFrame frameCount = none →
      a.insertBefore before.length startFrame frameCount = some (false, a)) ∧
    ∀ d, b.insertSeparate before after startFrame frameCount = some d →
      ∃ c, a.insertBefore before.length startFrame frameCount = some (true, c) ∧ c.Shows d := by
  obtain ⟨unused, _, count, _⟩ := shown.parts ranges
  obtain ⟨full, room⟩ := shown.insertNew ranges startFrame frameCount
  rw [FrameArray.insertBefore]
  cases after with
  | nil =>
    have last : ¬before.length < a.rangeCount := by
      rw [count, List.length_nil]
      omega
    rw [if_neg last, FrameAllocator.insertSeparate]
    split
    · rename_i le
      exact ⟨fun _ => full le, fun _ inserted => by cases inserted⟩
    · rename_i lt
      refine ⟨fun failed => (by cases failed), fun d inserted => ?_⟩
      obtain rfl := Option.some.inj inserted
      exact room (by omega)
  | cons next rest =>
    have more : before.length < a.rangeCount := by
      rw [count, List.length_cons]
      omega
    rw [if_pos more, shown.read ranges, Option.bind_eq_bind, Option.bind_some,
      FrameAllocator.insertSeparate]
    dsimp only
    by_cases meets : next.startFrame ≤ startFrame + frameCount
    · rw [if_pos meets, if_pos meets]
      refine ⟨fun failed => (by cases failed), fun d inserted => ?_⟩
      obtain rfl := Option.some.inj inserted
      obtain ⟨written, write, shown'⟩ := shown.written ranges
        (r := ⟨min startFrame next.startFrame,
          max (startFrame + frameCount) next.endFrame - min startFrame next.startFrame⟩)
      rw [write]
      exact ⟨_, rfl, shown'⟩
    · rw [if_neg meets, if_neg meets]
      split
      · rename_i le
        exact ⟨fun _ => full le, fun _ inserted => by cases inserted⟩
      · rename_i lt
        refine ⟨fun failed => (by cases failed), fun d inserted => ?_⟩
        obtain rfl := Option.some.inj inserted
        exact room (by omega)

theorem Shows.insertFreeRange (shown : a.Shows b) :
    (b.insertFreeRange startFrame frameCount = none →
      a.insertFreeRange startFrame frameCount = some (false, a)) ∧
    ∀ d, b.insertFreeRange startFrame frameCount = some d →
      ∃ c, a.insertFreeRange startFrame frameCount = some (true, c) ∧ c.Shows d := by
  rw [FrameArray.insertFreeRange, FrameAllocator.insertFreeRange]
  by_cases empty : frameCount = 0
  · rw [if_pos empty, if_pos empty]
    refine ⟨fun failed => (by cases failed), fun d inserted => ?_⟩
    obtain rfl := Option.some.inj inserted
    exact ⟨a, rfl, shown⟩
  rw [if_neg empty, if_neg empty]
  obtain ⟨unused, inUse, count, _⟩ := shown.parts (List.nil_append b.ranges).symm
  have found := findAbove_eq startFrame b.ranges unused []
  rw [← inUse, ← count] at found
  rw [List.length_nil, Nat.zero_add] at found count
  rw [← count] at found
  have ranges := (List.takeWhile_append_dropWhile
    (p := fun r : FrameRange => decide (r.startFrame ≤ startFrame)) (l := b.ranges)).symm
  dsimp only
  rw [found, Option.bind_eq_bind, Option.bind_some]
  generalize b.ranges.takeWhile (fun r => decide (r.startFrame ≤ startFrame)) = before at *
  generalize b.ranges.dropWhile (fun r => decide (r.startFrame ≤ startFrame)) = after at *
  cases last : before.getLast? with
  | none =>
    obtain rfl := List.getLast?_eq_none_iff.mp last
    have first : ¬0 < ([] : List FrameRange).length := Nat.lt_irrefl 0
    rw [if_neg first]
    exact shown.insertBefore ranges
  | some prev =>
    obtain ⟨init, rfl⟩ := List.getLast?_eq_some_iff.mp last
    have ranges' : b.ranges = init ++ prev :: after := by rw [ranges, List.append_assoc]; rfl
    have place : (init ++ [prev]).length - 1 = init.length := by
      rw [List.length_append, List.length_singleton, Nat.add_sub_cancel]
    have later : 0 < (init ++ [prev]).length := by
      rw [List.length_append, List.length_singleton]
      omega
    rw [if_pos later, place, shown.read ranges']
    simp only [Option.bind_eq_bind, Option.bind_some]
    by_cases meets : startFrame ≤ prev.endFrame
    · rw [if_pos meets, if_pos meets, List.dropLast_concat]
      refine ⟨fun failed => (by cases failed), fun d inserted => ?_⟩
      obtain rfl := Option.some.inj inserted
      obtain ⟨written, write, shown'⟩ := shown.written ranges'
        (r := ⟨prev.startFrame, max prev.endFrame (startFrame + frameCount) - prev.startFrame⟩)
      obtain ⟨c, merged, shows'⟩ := shown'.tryMergeForward rfl
      rw [write, Option.bind_some, merged]
      exact ⟨c, rfl, shows'⟩
    · rw [if_neg meets, if_neg meets]
      exact shown.insertBefore ranges

theorem Shows.allocateFrame (shown : a.Shows b) (nonempty : ∀ r ∈ b.ranges, 0 < r.frameCount) :
    ∃ c, a.allocateFrame = some (b.allocateFrame.1, c) ∧ c.Shows b.allocateFrame.2 := by
  rw [FrameArray.allocateFrame]
  cases ranges : b.ranges with
  | nil =>
    have empty : a.rangeCount = 0 := by rw [shown.count, ranges, List.length_nil]
    rw [if_pos empty, FrameAllocator.allocateFrame, ranges]
    exact ⟨a, rfl, shown⟩
  | cons first rest =>
    have some_ : ¬a.rangeCount = 0 := by
      rw [shown.count, ranges, List.length_cons]
      omega
    have positive := nonempty first (ranges ▸ List.mem_cons_self)
    have read : a.ranges[0]? = some first := shown.read (show b.ranges = [] ++ first :: rest from ranges)
    obtain ⟨written, write, shown'⟩ := shown.written
      (show b.ranges = [] ++ first :: rest from ranges) (r := ⟨first.startFrame + 1, first.frameCount - 1⟩)
    rw [List.length_nil] at write
    rw [if_neg some_, read, Option.bind_eq_bind, Option.bind_some, sub_of_le positive,
      Option.bind_eq_bind, Option.bind_some, write, Option.bind_eq_bind, Option.bind_some,
      FrameAllocator.allocateFrame, ranges]
    dsimp only
    by_cases last : first.frameCount - 1 = 0
    · obtain ⟨c, removed, shown''⟩ := shown'.removed rfl
      rw [List.length_nil] at removed
      rw [if_pos last, if_pos last, removed]
      exact ⟨c, rfl, shown''⟩
    · rw [if_neg last, if_neg last]
      exact ⟨_, rfl, shown'⟩

theorem Shows.carve (shown : a.Shows b) (ranges : b.ranges = before ++ r :: after)
    {aligned count : Nat} :
    ∃ c, a.carve before.length r aligned count =
        some (if (FrameAllocator.leftOver r aligned count).length = 2 ∧
          b.ranges.length = b.capacity then none else FrameAllocator.frameOfNumber aligned, c) ∧
      c.Shows (if (FrameAllocator.leftOver r aligned count).length = 2 ∧
          b.ranges.length = b.capacity then b
        else { b with ranges := before ++ FrameAllocator.leftOver r aligned count ++ after }) := by
  rw [FrameArray.carve, FrameAllocator.leftOver]
  by_cases leads : aligned - r.startFrame = 0
  · have one : ∀ l : List FrameRange, l.length ≤ 1 → ¬(([] ++ l).length = 2 ∧
        b.ranges.length = b.capacity) := by
      rintro l small ⟨two, _⟩
      rw [List.nil_append] at two
      omega
    by_cases trails : r.endFrame - (aligned + count) = 0
    · rw [if_pos ⟨leads, trails⟩, if_pos leads, if_pos trails, if_neg (one [] (Nat.zero_le 1)),
        if_neg (one [] (Nat.zero_le 1))]
      obtain ⟨c, removed, shown'⟩ := shown.removed ranges
      rw [removed]
      exact ⟨c, rfl, by simpa using shown'⟩
    · have small := one [⟨aligned + count, r.endFrame - (aligned + count)⟩] le_rfl
      rw [if_neg fun both => trails both.2, if_pos leads, if_pos leads, if_neg trails,
        if_neg small, if_neg small]
      obtain ⟨written, write, shown'⟩ := shown.written ranges
        (r := ⟨aligned + count, r.endFrame - (aligned + count)⟩)
      rw [write]
      exact ⟨_, rfl, by simpa using shown'⟩
  · rw [if_neg fun both => leads both.1, if_neg leads, if_neg leads]
    by_cases trails : r.endFrame - (aligned + count) = 0
    · have one : ¬(([(⟨r.startFrame, aligned - r.startFrame⟩ : FrameRange)] ++ []).length = 2 ∧
          b.ranges.length = b.capacity) := fun both => absurd both.1 (by simp)
      rw [if_pos trails, if_pos trails, if_neg one, if_neg one]
      obtain ⟨written, write, shown'⟩ := shown.written ranges
        (r := ⟨r.startFrame, aligned - r.startFrame⟩)
      rw [write]
      exact ⟨_, rfl, by simpa using shown'⟩
    · have fullArray : a.rangeCount = a.ranges.length ↔ b.ranges.length = b.capacity := by
        rw [shown.count, shown.capacity]
      rw [if_neg trails, if_neg trails]
      by_cases full : b.ranges.length = b.capacity
      · rw [if_pos (fullArray.mpr full), if_pos ⟨rfl, full⟩, if_pos ⟨rfl, full⟩]
        exact ⟨a, rfl, shown⟩
      · rw [if_neg fun same => full (fullArray.mp same), if_neg fun both => full both.2,
          if_neg fun both => full both.2]
        obtain ⟨written, write, shown'⟩ := shown.written ranges
          (r := ⟨r.startFrame, aligned - r.startFrame⟩)
        have few : b.ranges.length ≤ b.capacity := by
          obtain ⟨unused, _, _, capacity⟩ := shown.parts (List.append_nil b.ranges).symm
          omega
        have room : (before ++ ⟨r.startFrame, aligned - r.startFrame⟩ :: after).length <
            b.capacity := by
          rw [ranges, List.length_append, List.length_cons] at full few
          rw [List.length_append, List.length_cons]
          omega
        obtain ⟨c, inserted, shown''⟩ := shown'.inserted
          (show before ++ ⟨r.startFrame, aligned - r.startFrame⟩ :: after =
            (before ++ [⟨r.startFrame, aligned - r.startFrame⟩]) ++ after by simp)
          room ⟨aligned + count, r.endFrame - (aligned + count)⟩
        rw [List.length_append, List.length_singleton] at inserted
        rw [write, Option.bind_eq_bind, Option.bind_some, inserted]
        exact ⟨c, rfl, by simpa using shown''⟩

theorem Shows.alignedLoop (shown : a.Shows b) {count align : Nat} (l : List FrameRange) :
    ∀ before, b.ranges = before ++ l → ∃ c,
      match l.dropWhile fun r => !FrameAllocator.fits count align r with
      | [] => a.alignedLoop count align l.length = some (none, c) ∧ c.Shows b
      | r :: after =>
        let aligned := FrameAllocator.nextMultipleOf r.startFrame align
        let left := FrameAllocator.leftOver r aligned count
        a.alignedLoop count align l.length = some (if left.length = 2 ∧ b.ranges.length = b.capacity
          then none else FrameAllocator.frameOfNumber aligned, c) ∧
        c.Shows (if left.length = 2 ∧ b.ranges.length = b.capacity then b else { b with ranges :=
          (before ++ l.takeWhile fun r => !FrameAllocator.fits count align r) ++ left ++ after }) := by
  induction l with
  | nil => exact fun before _ => ⟨a, rfl, shown⟩
  | cons r l ih =>
    intro before ranges
    have place : a.rangeCount - (l.length + 1) = before.length := by
      rw [shown.count, ranges, List.length_append, List.length_cons]
      omega
    rw [List.length_cons, FrameArray.alignedLoop, place, shown.read ranges, Option.bind_eq_bind,
      Option.bind_some, List.dropWhile_cons, List.takeWhile_cons]
    by_cases fit : FrameAllocator.fits count align r = true
    · rw [if_pos fit, fit]
      obtain ⟨c, carved, shown'⟩ := shown.carve ranges
      exact ⟨c, carved, by simpa using shown'⟩
    · rw [if_neg fit, Bool.eq_false_iff.mpr fit]
      obtain ⟨c, passed⟩ := ih (before ++ [r]) (by rw [ranges, List.append_assoc]; rfl)
      refine ⟨c, ?_⟩
      have yes : (!false) = true := rfl
      rw [if_pos yes, if_pos yes]
      simpa using passed

theorem Shows.allocateContiguousAligned (shown : a.Shows b) (count align : Nat) :
    ∃ c, a.allocateContiguousAligned count align =
        some ((b.allocateContiguousAligned count align).1, c) ∧
      c.Shows (b.allocateContiguousAligned count align).2 := by
  rw [FrameArray.allocateContiguousAligned, FrameAllocator.allocateContiguousAligned]
  split
  · exact ⟨a, rfl, shown⟩
  · obtain ⟨c, looped⟩ := shown.alignedLoop b.ranges [] rfl
    rw [shown.count]
    refine ⟨c, ?_⟩
    split at looped
    · rename_i dropped
      rw [dropped]
      exact looped
    · rename_i r after dropped
      rw [dropped]
      dsimp only at looped ⊢
      by_cases full : (FrameAllocator.leftOver r
          (FrameAllocator.nextMultipleOf r.startFrame align) count).length = 2 ∧
          b.ranges.length = b.capacity
      · rw [if_pos full, if_pos full] at looped
        rw [if_pos full]
        exact looped
      · rw [if_neg full, if_neg full] at looped
        rw [if_neg full]
        exact looped

theorem Shows.contiguousLoop (shown : a.Shows b) {count : Nat} (l : List FrameRange) :
    ∀ before, b.ranges = before ++ l → ∃ c,
      match l.dropWhile fun r => decide (r.frameCount < count) with
      | [] => a.contiguousLoop count l.length = some (none, c) ∧ c.Shows b
      | r :: after =>
        a.contiguousLoop count l.length =
          some (FrameAllocator.frameOfNumber r.startFrame, c) ∧
        c.Shows { b with ranges := (before ++ l.takeWhile fun r => decide (r.frameCount < count)) ++
          FrameAllocator.leftOver r r.startFrame count ++ after } := by
  induction l with
  | nil => exact fun before _ => ⟨a, rfl, shown⟩
  | cons r l ih =>
    intro before ranges
    have place : a.rangeCount - (l.length + 1) = before.length := by
      rw [shown.count, ranges, List.length_append, List.length_cons]
      omega
    rw [List.length_cons, FrameArray.contiguousLoop, place, shown.read ranges, Option.bind_eq_bind,
      Option.bind_some, List.dropWhile_cons, List.takeWhile_cons]
    by_cases large : count ≤ r.frameCount
    · have small : decide (r.frameCount < count) = false := decide_eq_false (by omega)
      have trailing : r.endFrame - (r.startFrame + count) = r.frameCount - count := by
        show r.startFrame + r.frameCount - (r.startFrame + count) = _
        omega
      rw [if_pos large, small, if_neg Bool.false_ne_true, if_neg Bool.false_ne_true]
      dsimp only
      rw [FrameAllocator.leftOver, Nat.sub_self, if_pos rfl, trailing]
      by_cases whole : r.frameCount = count
      · obtain ⟨c, removed, shown'⟩ := shown.removed ranges
        rw [if_pos whole, if_pos (by omega), removed]
        exact ⟨c, rfl, by simpa using shown'⟩
      · obtain ⟨written, write, shown'⟩ := shown.written ranges
          (r := ⟨r.startFrame + count, r.frameCount - count⟩)
        rw [if_neg whole, if_neg (by omega), write]
        exact ⟨_, rfl, by simpa using shown'⟩
    · have small : decide (r.frameCount < count) = true := decide_eq_true (by omega)
      rw [if_neg large, if_pos small, if_pos small]
      obtain ⟨c, passed⟩ := ih (before ++ [r]) (by rw [ranges, List.append_assoc]; rfl)
      exact ⟨c, by simpa using passed⟩

theorem Shows.allocateContiguous (shown : a.Shows b) (count : Nat) :
    ∃ c, a.allocateContiguous count = some ((b.allocateContiguous count).1, c) ∧
      c.Shows (b.allocateContiguous count).2 := by
  rw [FrameArray.allocateContiguous, FrameAllocator.allocateContiguous]
  split
  · exact ⟨a, rfl, shown⟩
  · obtain ⟨c, looped⟩ := shown.contiguousLoop b.ranges [] rfl
    rw [shown.count]
    refine ⟨c, ?_⟩
    split at looped
    · rename_i dropped
      rw [dropped]
      exact looped
    · rename_i r after dropped
      rw [dropped]
      exact looped

end

end FrameArray

end Zaytos.Kernel
