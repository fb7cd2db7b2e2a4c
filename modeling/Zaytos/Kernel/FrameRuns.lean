import Zaytos.Kernel.FrameArray
import Zaytos.Lib.Transition

set_option autoImplicit false

/-! Any sequence of operations on the frame allocator, against the set of the frames that are free. -/
namespace Zaytos.Kernel

open Extent

inductive FrameOp where
  | insertFreeRange (startFrame frameCount : Nat)
  | allocateFrame
  | deallocateFrame (frame : Nat)
  | allocateContiguous (count : Nat)
  | allocateContiguousAligned (count align : Nat)
  deriving DecidableEq, Repr

/-- What an operation returns: `Ok`, a physical address, or `Err` or `None`. -/
inductive FrameOutcome where
  | ok
  | taken (first : Nat)
  | failed
  deriving DecidableEq, Repr

namespace FrameArray

def apply (a : FrameArray) : FrameOp → Option (FrameOutcome × FrameArray)
  | .insertFreeRange startFrame frameCount =>
    (a.insertFreeRange startFrame frameCount).map (Prod.map ofOk id)
  | .deallocateFrame frame => (a.deallocateFrame frame).map (Prod.map ofOk id)
  | .allocateFrame => a.allocateFrame.map (Prod.map ofAddress id)
  | .allocateContiguous count => (a.allocateContiguous count).map (Prod.map ofAddress id)
  | .allocateContiguousAligned count align =>
    (a.allocateContiguousAligned count align).map (Prod.map ofAddress id)
where
  ofOk : Bool → FrameOutcome
    | true => .ok
    | false => .failed
  ofAddress : Option Nat → FrameOutcome
    | some first => .taken first
    | none => .failed

/-- The ranges in use fit in the array, none is empty, and they are in order with gaps between. -/
structure Inv (a : FrameArray) : Prop where
  tidy : Tidy a.inUse
  few : a.rangeCount ≤ a.ranges.length

def isFree (a : FrameArray) (frame : Nat) : Bool :=
  a.inUse.any fun r => decide (r.startFrame ≤ frame) && decide (frame < r.endFrame)

def Allowed (a : FrameArray) : FrameOp → Prop
  | .insertFreeRange startFrame frameCount =>
    startFrame + frameCount ≤ 2 ^ 40 ∧
      ∀ f ∈ List.range' startFrame frameCount, a.isFree f = false
  | .deallocateFrame frame => frame < 2 ^ 40 ∧ a.isFree frame = false
  | .allocateFrame | .allocateContiguous _ | .allocateContiguousAligned .. => True

instance (a : FrameArray) : (op : FrameOp) → Decidable (a.Allowed op)
  | .insertFreeRange .. => inferInstanceAs (Decidable (_ ∧ _))
  | .deallocateFrame _ => inferInstanceAs (Decidable (_ ∧ _))
  | .allocateFrame | .allocateContiguous _ | .allocateContiguousAligned .. => .isTrue trivial

end FrameArray

structure FrameRun where
  array : FrameArray
  handed : List Nat
  deriving DecidableEq, Repr

namespace FrameRun

def init (capacity : Nat) : FrameRun := ⟨.new capacity, []⟩

def handedAfter (handed : List Nat) : FrameOp → FrameOutcome → List Nat
  | .insertFreeRange startFrame frameCount, .ok =>
    handed.filter fun f => !(List.range' startFrame frameCount).contains f
  | .deallocateFrame frame, .ok => handed.filter fun f => f != frame
  | .allocateFrame, .taken first => first :: handed
  | .allocateContiguous count, .taken first => List.range' first count ++ handed
  | .allocateContiguousAligned count _, .taken first => List.range' first count ++ handed
  | _, _ => handed

def step (s : FrameRun) (op : FrameOp) : Option FrameRun :=
  if s.array.Allowed op then
    (s.array.apply op).map fun done => ⟨done.2, handedAfter s.handed op done.1⟩
  else none

/-- The frames `first` up to `first + count`. -/
def frames (first count : Nat) : Set Nat := {f | first ≤ f ∧ f < first + count}

/-- Frames are handed out that were free and are not out of hand, and no others change. -/
structure HandsOut (s : FrameRun) (after : FrameArray) (first count : Nat) : Prop where
  were : ∀ f ∈ frames first count, f ∈ s.array.free
  once : ∀ f ∈ frames first count, f ∉ s.handed
  left : after.free = s.array.free \ frames first count

def Meets (s : FrameRun) (after : FrameArray) : FrameOp → FrameOutcome → Prop
  | _, .failed => after.free = s.array.free
  | .insertFreeRange startFrame frameCount, .ok =>
    after.free = s.array.free ∪ frames startFrame frameCount
  | .deallocateFrame frame, .ok => after.free = s.array.free ∪ frames frame 1
  | .allocateFrame, .taken first => s.HandsOut after first 1 ∧ ∀ f ∈ s.array.free, first ≤ f
  | .allocateContiguous count, .taken first => s.HandsOut after first count
  | .allocateContiguousAligned count align, .taken first =>
    s.HandsOut after first count ∧ align ∣ first
  | _, _ => False

structure Ok (s : FrameRun) (b : FrameAllocator) : Prop where
  shown : s.array.Shows b
  sound : b.Sound
  apart : ∀ f ∈ s.handed, f ∉ b.free

variable {s t : FrameRun} {b d : FrameAllocator} {c : FrameArray} {op : FrameOp}

theorem inv_of_sound (shown : c.Shows b) (sound : b.Sound) : c.Inv :=
  ⟨by rw [shown.inUse_eq]; exact sound.tidy,
    by rw [shown.count, shown.capacity]; exact sound.few⟩

theorem isFree_iff (shown : c.Shows b) (f : Nat) : c.isFree f = true ↔ f ∈ b.free := by
  rw [FrameArray.isFree, shown.inUse_eq, List.any_eq_true]
  constructor
  · rintro ⟨r, mem, inside⟩
    rw [Bool.and_eq_true, decide_eq_true_eq, decide_eq_true_eq] at inside
    exact ⟨r, mem, inside⟩
  · rintro ⟨r, mem, inside⟩
    refine ⟨r, mem, ?_⟩
    rw [Bool.and_eq_true, decide_eq_true_eq, decide_eq_true_eq]
    exact inside

theorem Ok.inserted (ok : s.Ok b) {startFrame frameCount : Nat}
    (addresses : startFrame + frameCount ≤ 2 ^ 40)
    (clear : ∀ f ∈ List.range' startFrame frameCount, s.array.isFree f = false) :
    ∃ done after d, s.array.insertFreeRange startFrame frameCount = some (done, after) ∧
      (done = false ∧ after = s.array ∧ d = b ∨
        done = true ∧ after.free = s.array.free ∪ frames startFrame frameCount) ∧
      after.Shows d ∧ d.Sound ∧ d.free ⊆ b.free ∪ frames startFrame frameCount := by
  have clear' : ∀ f, startFrame ≤ f → f < startFrame + frameCount → f ∉ b.free := by
    intro f le lt mem
    have := clear f (List.mem_range'_1.mpr ⟨le, lt⟩)
    rw [(isFree_iff ok.shown f).mpr mem] at this
    cases this
  obtain ⟨fails, goes⟩ := ok.shown.insertFreeRange
  cases inserted : b.insertFreeRange startFrame frameCount with
  | none =>
    exact ⟨false, s.array, b, fails inserted, .inl ⟨rfl, rfl, rfl⟩, ok.shown, ok.sound,
      Set.subset_union_left⟩
  | some d =>
    obtain ⟨after, done, shown⟩ := goes d inserted
    have leaves := FrameAllocator.insertFreeRange_leaves ok.sound.tidy clear' inserted
    refine ⟨true, after, d, done, .inr ⟨rfl, ?_⟩, shown, leaves.sound ok.sound ?_, leaves.frames.subset⟩
    · rw [shown.free_eq, ok.shown.free_eq, leaves.frames]
      rfl
    · rintro f (mem | ⟨le, lt⟩)
      · exact ok.sound.low f mem
      · omega

theorem Ok.returned (ok : s.Ok b) {startFrame frameCount : Nat} {after : FrameArray}
    (shown : after.Shows d) (sound : d.Sound)
    (free : d.free ⊆ b.free ∪ frames startFrame frameCount) {handed : List Nat}
    (kept : ∀ f ∈ handed, f ∈ s.handed ∧ ¬(startFrame ≤ f ∧ f < startFrame + frameCount)) :
    (⟨after, handed⟩ : FrameRun).Ok d := by
  refine ⟨shown, sound, fun f mem mem' => ?_⟩
  obtain ⟨out, other⟩ := kept f mem
  rcases free mem' with still | new
  · exact ok.apart f out still
  · exact other new

theorem Ok.taken (ok : s.Ok b) {after : FrameArray} (shown : after.Shows d) {first count : Nat}
    (takes : b.Takes d first count) :
    s.HandsOut after first count ∧
    (⟨after, List.range' first count ++ s.handed⟩ : FrameRun).Ok d := by
  refine ⟨⟨fun f mem => ?_, fun f mem out => ?_, ?_⟩, shown, takes.sound ok.sound, fun f mem => ?_⟩
  · rw [ok.shown.free_eq]
    exact takes.were f mem.1 mem.2
  · exact ok.apart f out (takes.were f mem.1 mem.2)
  · rw [shown.free_eq, ok.shown.free_eq, takes.leaves.frames]
    rfl
  · rw [takes.leaves.frames]
    rintro ⟨still, other⟩
    rcases List.mem_append.mp mem with new | old
    · exact other (List.mem_range'_1.mp new)
    · exact ok.apart f old still

theorem Ok.apply (ok : s.Ok b) (allowed : s.array.Allowed op) :
    ∃ outcome after d, s.array.apply op = some (outcome, after) ∧ s.Meets after op outcome ∧
      (⟨after, handedAfter s.handed op outcome⟩ : FrameRun).Ok d := by
  cases op with
  | insertFreeRange startFrame frameCount =>
    obtain ⟨done, after, d, inserted, outcome, shown, sound, free⟩ := ok.inserted allowed.1 allowed.2
    rw [FrameArray.apply, inserted]
    rcases outcome with ⟨rfl, rfl, rfl⟩ | ⟨rfl, grows⟩
    · exact ⟨.failed, s.array, d, rfl, rfl, ok⟩
    · refine ⟨.ok, after, d, rfl, grows, ok.returned shown sound free fun f mem => ?_⟩
      rw [handedAfter, List.mem_filter, Bool.not_eq_true', ← Bool.not_eq_true,
        List.contains_iff_mem, List.mem_range'_1] at mem
      exact mem
  | deallocateFrame frame =>
    obtain ⟨done, after, d, inserted, outcome, shown, sound, free⟩ :=
      ok.inserted allowed.1 fun f mem => by
        rw [List.range'_one, List.mem_singleton] at mem
        exact mem ▸ allowed.2
    rw [FrameArray.apply, FrameArray.deallocateFrame, inserted]
    rcases outcome with ⟨rfl, rfl, rfl⟩ | ⟨rfl, grows⟩
    · exact ⟨.failed, s.array, d, rfl, rfl, ok⟩
    · refine ⟨.ok, after, d, rfl, grows, ok.returned shown sound free fun f mem => ?_⟩
      rw [handedAfter, List.mem_filter, bne_iff_ne] at mem
      exact ⟨mem.1, by omega⟩
  | allocateFrame =>
    obtain ⟨after, taken, shown⟩ := ok.shown.allocateFrame fun r mem => by
      have nonempty : r.startFrame < r.startFrame + r.frameCount := ok.sound.tidy.nonempty r mem
      omega
    rw [FrameArray.apply, taken]
    rcases result : b.allocateFrame with ⟨first, d⟩
    rw [result] at shown
    cases first with
    | none =>
      obtain ⟨rfl, _⟩ := FrameAllocator.allocateFrame_none ok.sound result
      refine ⟨.failed, after, d, rfl, ?_, ⟨shown, ok.sound, ok.apart⟩⟩
      exact (shown.free_eq).trans (ok.shown.free_eq).symm
    | some first =>
      obtain ⟨takes, least⟩ := FrameAllocator.allocateFrame_some ok.sound.tidy result
      obtain ⟨handsOut, ok'⟩ := ok.taken shown takes
      exact ⟨.taken first, after, d, rfl, ⟨handsOut, ok.shown.free_eq ▸ least⟩, ok'⟩
  | allocateContiguous count =>
    obtain ⟨after, taken, shown⟩ := ok.shown.allocateContiguous count
    rw [FrameArray.apply, taken]
    rcases result : b.allocateContiguous count with ⟨first, d⟩
    rw [result] at shown
    cases first with
    | none =>
      obtain rfl := FrameAllocator.allocateContiguous_none ok.sound result
      refine ⟨.failed, after, d, rfl, ?_, ⟨shown, ok.sound, ok.apart⟩⟩
      exact (shown.free_eq).trans (ok.shown.free_eq).symm
    | some first =>
      obtain ⟨handsOut, ok'⟩ :=
        ok.taken shown (FrameAllocator.allocateContiguous_some ok.sound.tidy result)
      exact ⟨.taken first, after, d, rfl, handsOut, ok'⟩
  | allocateContiguousAligned count align =>
    obtain ⟨after, taken, shown⟩ := ok.shown.allocateContiguousAligned count align
    rw [FrameArray.apply, taken]
    rcases result : b.allocateContiguousAligned count align with ⟨first, d⟩
    rw [result] at shown
    cases first with
    | none =>
      obtain rfl := FrameAllocator.allocateContiguousAligned_none ok.sound result
      refine ⟨.failed, after, d, rfl, ?_, ⟨shown, ok.sound, ok.apart⟩⟩
      exact (shown.free_eq).trans (ok.shown.free_eq).symm
    | some first =>
      obtain ⟨takes, aligned⟩ := FrameAllocator.allocateContiguousAligned_some ok.sound.tidy result
      obtain ⟨handsOut, ok'⟩ := ok.taken shown takes
      exact ⟨.taken first, after, d, rfl, ⟨handsOut, aligned⟩, ok'⟩

theorem ok_init (capacity : Nat) : (init capacity).Ok (.new capacity) :=
  ⟨FrameArray.shows_new capacity, FrameAllocator.sound_new capacity,
    fun _ mem => absurd mem List.not_mem_nil⟩

theorem Ok.step (ok : ∃ b, s.Ok b) (next : s.step op = some t) : ∃ d, t.Ok d := by
  obtain ⟨b, ok⟩ := ok
  rw [FrameRun.step] at next
  split at next
  · rename_i allowed
    obtain ⟨outcome, after, d, applied, _, ok'⟩ := ok.apply allowed
    rw [applied] at next
    obtain rfl := Option.some.inj next
    exact ⟨d, ok'⟩
  · cases next

end FrameRun

end Zaytos.Kernel
