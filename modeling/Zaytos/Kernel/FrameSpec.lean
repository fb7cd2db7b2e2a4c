import Zaytos.Kernel.Frames
import Zaytos.Lib.Intervals

set_option autoImplicit false

/-! What the operations of the frame allocator do to the set of the frames that are free. -/
namespace Zaytos.Kernel

open Extent

instance : Extent FrameRange := ⟨FrameRange.startFrame, FrameRange.endFrame⟩

variable {frames : Set Nat} {before after : List FrameRange} {x : FrameRange} {frame f : Nat}

namespace FrameAllocator

variable {a b : FrameAllocator} {startFrame frameCount : Nat}

def free (a : FrameAllocator) : Set Nat := covered a.ranges

instance (a : FrameAllocator) (f : Nat) : Decidable (f ∈ a.free) :=
  inferInstanceAs (Decidable (∃ r ∈ a.ranges, r.startFrame ≤ f ∧ f < r.endFrame))

/-- The ranges are in order and do not touch, they have room, and their frames have addresses. -/
structure Sound (a : FrameAllocator) : Prop where
  tidy : Tidy a.ranges
  few : a.ranges.length ≤ a.capacity
  low : ∀ f ∈ a.free, f < 2 ^ 40

theorem sound_new (capacity : Nat) : (new capacity).Sound :=
  ⟨tidy_nil, Nat.zero_le _, fun _ ⟨_, mem, _⟩ => absurd mem List.not_mem_nil⟩

theorem sound_single {capacity startFrame frameCount : Nat} (room : 0 < capacity)
    (some : 0 < frameCount) (low : startFrame + frameCount ≤ 2 ^ 40) :
    Sound ⟨capacity, [⟨startFrame, frameCount⟩]⟩ := by
  refine ⟨tidy_cons.mpr ⟨Nat.lt_add_of_pos_right some, nofun, tidy_nil⟩, room, ?_⟩
  rintro f ⟨r, mem, -, below⟩
  obtain rfl := List.mem_singleton.mp mem
  exact lt_of_lt_of_le below low

structure Leaves (a b : FrameAllocator) (free : Set Nat) : Prop where
  capacity : b.capacity = a.capacity
  tidy : Tidy b.ranges
  few : a.ranges.length ≤ a.capacity → b.ranges.length ≤ b.capacity
  frames : b.free = free

theorem endFrame_mk {past : Nat} (le : startFrame ≤ past) :
    (⟨startFrame, past - startFrame⟩ : FrameRange).endFrame = past :=
  Nat.add_sub_cancel' le

theorem Leaves.put {r : FrameRange}
    (tidy : Tidy (before ++ after)) (nonempty : r.startFrame < r.endFrame)
    (left : ∀ y ∈ before, y.endFrame < r.startFrame) (right : ∀ y ∈ after, r.endFrame < y.startFrame)
    (few : a.ranges.length ≤ a.capacity → (before ++ r :: after).length ≤ a.capacity)
    (covers : ∀ f, f ∈ covered before ∨ (r.startFrame ≤ f ∧ f < r.endFrame) ∨ f ∈ covered after ↔
      f ∈ frames) : a.Leaves { a with ranges := before ++ r :: after } frames := by
  refine ⟨rfl, tidy.put nonempty left right, few, Set.ext fun f => ?_⟩
  show f ∈ covered (before ++ r :: after) ↔ _
  rw [mem_covered_append, mem_covered_cons]
  exact covers f

theorem Leaves.joined {init : List FrameRange} {prev : FrameRange}
    (ranges : a.ranges = init ++ prev :: after) (tidy : Tidy a.ranges) (some : 0 < frameCount)
    (touches : prev.endFrame = startFrame)
    (above : ∀ y ∈ after, startFrame + frameCount ≤ y.startFrame) :
    a.Leaves { a with ranges := init ++
        tryMergeForward ⟨prev.startFrame, startFrame + frameCount - prev.startFrame⟩ after }
      (a.free ∪ {f | startFrame ≤ f ∧ f < startFrame + frameCount}) := by
  have tidy' := tidy
  rw [ranges] at tidy'
  obtain ⟨apart, nonempty, left, right⟩ := tidy'.around
  have prevEnd : hi prev = startFrame := touches
  have prevStart : lo prev = prev.startFrame := rfl
  have old : ∀ f, f ∈ a.free ↔
      f ∈ covered init ∨ (prev.startFrame ≤ f ∧ f < startFrame) ∨ f ∈ covered after := by
    intro f
    rw [free, ranges, mem_covered_append, mem_covered_cons, prevEnd]
    rfl
  have below : prev.startFrame < startFrame := by omega
  have length : a.ranges.length = init.length + (after.length + 1) := by
    rw [ranges, List.length_append, List.length_cons]
  -- The merged range ends where the new one does, or where the next one does.
  have put : ∀ {rest : List FrameRange} {past : Nat}, Tidy (init ++ rest) →
      startFrame + frameCount ≤ past → (∀ y ∈ rest, past < y.startFrame) →
      rest.length ≤ after.length →
      (∀ f, f ∈ covered after ↔ (startFrame + frameCount ≤ f ∧ f < past) ∨ f ∈ covered rest) →
      a.Leaves { a with ranges := init ++ ⟨prev.startFrame, past - prev.startFrame⟩ :: rest }
        (a.free ∪ {f | startFrame ≤ f ∧ f < startFrame + frameCount}) := by
    intro rest past tidyRest reaches right shorter covers
    have ends := endFrame_mk (show prev.startFrame ≤ past by omega)
    refine .put tidyRest ?_ left (by rw [ends]; exact right) ?_ fun f => ?_
    · rw [ends]
      show prev.startFrame < past
      omega
    · rw [length, List.length_append, List.length_cons]
      omega
    · rw [ends, Set.mem_union, old, covers]
      show _ ∨ (prev.startFrame ≤ f ∧ f < past) ∨ _ ↔ _ ∨ (startFrame ≤ f ∧ f < _)
      have parts : prev.startFrame ≤ f ∧ f < past ↔
          (prev.startFrame ≤ f ∧ f < startFrame) ∨ (startFrame ≤ f ∧ f < startFrame + frameCount) ∨
            (startFrame + frameCount ≤ f ∧ f < past) := by omega
      rw [parts]
      clear * -
      tauto
  have merged := endFrame_mk (show prev.startFrame ≤ startFrame + frameCount by omega)
  cases after with
  | nil =>
    exact put apart le_rfl (by nofun) le_rfl fun f => ⟨.inr, fun mem => mem.resolve_left (by omega)⟩
  | cons next rest =>
    obtain ⟨apart', nonempty', _, right'⟩ := Tidy.around apart
    have reaches := above next List.mem_cons_self
    have nextStart : lo next = next.startFrame := rfl
    have nextEnd : hi next = next.endFrame := rfl
    rw [tryMergeForward, merged]
    split
    · rename_i meets
      rw [max_eq_right (by omega)]
      refine put apart' (by omega) right' (Nat.le_succ _) fun f => ?_
      rw [mem_covered_cons, nextStart, nextEnd]
      have : next.startFrame = startFrame + frameCount := by omega
      rw [this]
    · rename_i gap
      have first : ∀ y ∈ next :: rest, startFrame + frameCount < y.startFrame := by
        intro y mem
        rcases List.mem_cons.mp mem with rfl | mem
        · omega
        · have beyond : hi next < y.startFrame := right' y mem
          omega
      exact put apart le_rfl first le_rfl fun f => ⟨.inr, fun mem => mem.resolve_left (by omega)⟩

/-- `insert_free_range` where the range before is not reached. -/
def insertSeparate (a : FrameAllocator) (before after : List FrameRange)
    (startFrame frameCount : Nat) : Option FrameAllocator :=
  match after with
  | next :: rest =>
    if next.startFrame ≤ startFrame + frameCount then
      let mergedStart := min startFrame next.startFrame
      some { a with ranges := before ++
        ⟨mergedStart, max (startFrame + frameCount) next.endFrame - mergedStart⟩ :: rest }
    else if a.capacity ≤ a.ranges.length then none
    else some { a with ranges := before ++ ⟨startFrame, frameCount⟩ :: after }
  | [] =>
    if a.capacity ≤ a.ranges.length then none
    else some { a with ranges := before ++ [⟨startFrame, frameCount⟩] }

theorem Leaves.separate (ranges : a.ranges = before ++ after)
    (tidy : Tidy a.ranges) (some : 0 < frameCount) (below : ∀ y ∈ before, y.endFrame < startFrame)
    (above : ∀ y ∈ after, startFrame + frameCount ≤ y.startFrame)
    (inserted : a.insertSeparate before after startFrame frameCount = Option.some b) :
    a.Leaves b (a.free ∪ {f | startFrame ≤ f ∧ f < startFrame + frameCount}) := by
  have tidy' := tidy
  rw [ranges] at tidy'
  have length := congrArg List.length ranges
  rw [List.length_append] at length
  have old : ∀ f, f ∈ a.free ↔ f ∈ covered before ∨ f ∈ covered after := by
    intro f
    rw [free, ranges, mem_covered_append]
  have new : ∀ f, f ∈ a.free ∪ {f | startFrame ≤ f ∧ f < startFrame + frameCount} ↔
      (f ∈ covered before ∨ f ∈ covered after) ∨ (startFrame ≤ f ∧ f < startFrame + frameCount) := by
    intro f
    rw [Set.mem_union, old]
    rfl
  -- A range of its own, when there is room.
  have alone : (∀ y ∈ after, startFrame + frameCount < y.startFrame) →
      ¬a.capacity ≤ a.ranges.length →
      a.Leaves { a with ranges := before ++ ⟨startFrame, frameCount⟩ :: after }
        (a.free ∪ {f | startFrame ≤ f ∧ f < startFrame + frameCount}) := by
    intro right room
    refine .put tidy' ?_ below right ?_ fun f => ?_
    · show startFrame < startFrame + frameCount
      omega
    · rw [List.length_append, List.length_cons]
      omega
    · rw [new]
      show _ ∨ (startFrame ≤ f ∧ f < startFrame + frameCount) ∨ _ ↔ _
      rw [or_comm (a := startFrame ≤ f ∧ _), or_assoc]
  cases after with
  | nil =>
    rw [insertSeparate] at inserted
    split at inserted
    · cases inserted
    · rename_i room
      obtain rfl := Option.some.inj inserted
      exact alone (by nofun) room
  | cons next rest =>
    obtain ⟨apart, nonempty, _, right⟩ := tidy'.around
    have reaches := above next List.mem_cons_self
    have nextStart : lo next = next.startFrame := rfl
    have nextEnd : hi next = next.endFrame := rfl
    rw [insertSeparate] at inserted
    dsimp only at inserted
    split at inserted
    · rename_i meets
      obtain rfl := Option.some.inj inserted
      rw [min_eq_left (by omega), max_eq_right (by omega)]
      have ends := endFrame_mk (show startFrame ≤ next.endFrame by omega)
      refine .put apart ?_ below (by rw [ends]; exact right) ?_ fun f => ?_
      · rw [ends]
        show startFrame < next.endFrame
        omega
      · rw [length, List.length_append, List.length_cons, List.length_cons]
        exact id
      · rw [ends, new, mem_covered_cons, nextStart, nextEnd]
        show _ ∨ (startFrame ≤ f ∧ f < next.endFrame) ∨ _ ↔ _
        have parts : startFrame ≤ f ∧ f < next.endFrame ↔
            (startFrame ≤ f ∧ f < startFrame + frameCount) ∨
              (next.startFrame ≤ f ∧ f < next.endFrame) := by omega
        rw [parts]
        clear * -
        tauto
    · rename_i gap
      split at inserted
      · cases inserted
      · rename_i room
        obtain rfl := Option.some.inj inserted
        refine alone (fun y mem => ?_) room
        rcases List.mem_cons.mp mem with rfl | mem
        · omega
        · have beyond : hi next < y.startFrame := right y mem
          omega

theorem insertFreeRange_leaves (tidy : Tidy a.ranges)
    (clear : ∀ f, startFrame ≤ f → f < startFrame + frameCount → f ∉ a.free)
    (inserted : a.insertFreeRange startFrame frameCount = some b) :
    a.Leaves b (a.free ∪ {f | startFrame ≤ f ∧ f < startFrame + frameCount}) := by
  rw [insertFreeRange] at inserted
  split at inserted
  · rename_i empty
    obtain rfl := Option.some.inj inserted
    refine ⟨rfl, tidy, id, Set.ext fun f => ?_⟩
    exact ⟨.inl, fun mem => mem.resolve_right fun inside => by
      have : startFrame ≤ f ∧ f < startFrame + frameCount := inside
      omega⟩
  · rename_i some
    obtain ⟨low, high⟩ := tidy.divide startFrame
    have ranges := (List.takeWhile_append_dropWhile
      (p := fun r : FrameRange => decide (r.startFrame ≤ startFrame)) (l := a.ranges)).symm
    dsimp only at inserted
    change ∀ x ∈ a.ranges.takeWhile fun r => decide (r.startFrame ≤ startFrame), _ at low
    change ∀ x ∈ a.ranges.dropWhile fun r => decide (r.startFrame ≤ startFrame), _ at high
    generalize a.ranges.takeWhile (fun r => decide (r.startFrame ≤ startFrame)) = before at *
    generalize a.ranges.dropWhile (fun r => decide (r.startFrame ≤ startFrame)) = after at *
    have beside : ∀ x ∈ a.ranges, x.endFrame ≤ startFrame ∨ startFrame + frameCount ≤ x.startFrame :=
      fun x mem => tidy.beside (by omega) clear mem
    have below : ∀ x ∈ before, x.endFrame ≤ startFrame := by
      intro x mem
      have start : x.startFrame ≤ startFrame := low x mem
      rcases beside x (ranges ▸ List.mem_append_left _ mem) with le | ge
      · exact le
      · omega
    have above : ∀ y ∈ after, startFrame + frameCount ≤ y.startFrame := by
      intro y mem
      have start : startFrame < y.startFrame := high y mem
      have nonempty : y.startFrame < y.endFrame :=
        tidy.nonempty y (ranges ▸ List.mem_append_right _ mem)
      rcases beside y (ranges ▸ List.mem_append_right _ mem) with le | ge
      · omega
      · exact ge
    cases last : before.getLast? with
    | none =>
      rw [last] at inserted
      obtain rfl := List.getLast?_eq_none_iff.mp last
      exact .separate ranges tidy (by omega) (by nofun) above inserted
    | some prev =>
      rw [last] at inserted
      obtain ⟨init, rfl⟩ := List.getLast?_eq_some_iff.mp last
      have prevBelow := below prev (List.mem_append_right _ List.mem_cons_self)
      dsimp only at inserted
      split at inserted
      · rename_i meets
        obtain rfl := Option.some.inj inserted
        rw [List.dropLast_concat, max_eq_right (by omega)]
        refine .joined (by rw [ranges, List.append_assoc]; rfl) tidy (by omega) (by omega) above
      · rename_i gap
        refine .separate ranges tidy (by omega) (fun y mem => ?_) above inserted
        rcases List.mem_append.mp mem with mem | mem
        · -- The ones before the last end before it begins.
          have across := tidy.apart
          rw [ranges, List.append_assoc, List.pairwise_append] at across
          have before' : y.endFrame < prev.startFrame :=
            across.2.2 y mem prev List.mem_cons_self
          have nonempty : prev.startFrame < prev.endFrame := tidy.nonempty prev
            (by rw [ranges]; exact List.mem_append_left _ (List.mem_append_right _ List.mem_cons_self))
          omega
        · obtain rfl := List.mem_singleton.mp mem
          omega

section leftOver

variable {r : FrameRange} {first count : Nat}

theorem mem_covered_leftOver (from' : r.startFrame ≤ first) (to' : first + count ≤ r.endFrame)
    (f : Nat) : f ∈ covered (leftOver r first count) ↔
      (r.startFrame ≤ f ∧ f < first) ∨ (first + count ≤ f ∧ f < r.endFrame) := by
  have lower : f ∈ covered (if first - r.startFrame = 0 then []
      else [(⟨r.startFrame, first - r.startFrame⟩ : FrameRange)]) ↔
      r.startFrame ≤ f ∧ f < first := by
    split
    · rw [mem_covered_nil]
      exact iff_of_false id (by omega)
    · rw [mem_covered_cons, mem_covered_nil, or_false]
      show r.startFrame ≤ f ∧ f < FrameRange.endFrame _ ↔ _
      rw [endFrame_mk from']
  have upper : f ∈ covered (if r.endFrame - (first + count) = 0 then []
      else [(⟨first + count, r.endFrame - (first + count)⟩ : FrameRange)]) ↔
      first + count ≤ f ∧ f < r.endFrame := by
    split
    · rw [mem_covered_nil]
      exact iff_of_false id (by omega)
    · rw [mem_covered_cons, mem_covered_nil, or_false]
      show first + count ≤ f ∧ f < FrameRange.endFrame _ ↔ _
      rw [endFrame_mk to']
  rw [leftOver, mem_covered_append, lower, upper]

theorem mem_leftOver (mem : x ∈ leftOver r first count) :
    first - r.startFrame ≠ 0 ∧ x = ⟨r.startFrame, first - r.startFrame⟩ ∨
    r.endFrame - (first + count) ≠ 0 ∧ x = ⟨first + count, r.endFrame - (first + count)⟩ := by
  rw [leftOver] at mem
  rcases List.mem_append.mp mem with mem | mem
  · split at mem
    · exact absurd mem List.not_mem_nil
    · exact .inl ⟨‹_›, List.mem_singleton.mp mem⟩
  · split at mem
    · exact absurd mem List.not_mem_nil
    · exact .inr ⟨‹_›, List.mem_singleton.mp mem⟩

theorem leftOver_within (from' : r.startFrame ≤ first) (to' : first + count ≤ r.endFrame)
    (mem : x ∈ leftOver r first count) :
    r.startFrame ≤ x.startFrame ∧ x.endFrame ≤ r.endFrame ∧ x.startFrame < x.endFrame := by
  rcases mem_leftOver mem with ⟨leads, rfl⟩ | ⟨trails, rfl⟩
  · rw [endFrame_mk from']
    exact ⟨le_rfl, by omega, by show r.startFrame < first; omega⟩
  · rw [endFrame_mk to']
    exact ⟨by show r.startFrame ≤ first + count; omega, le_rfl,
      by show first + count < r.endFrame; omega⟩

theorem tidy_leftOver (some : 0 < count) (from' : r.startFrame ≤ first)
    (to' : first + count ≤ r.endFrame) : Tidy (leftOver r first count) := by
  refine ⟨fun x mem => (leftOver_within from' to' mem).2.2, ?_⟩
  rw [leftOver]
  split <;> split <;> simp only [List.nil_append, List.append_nil, List.singleton_append,
    List.pairwise_cons, List.mem_singleton, List.not_mem_nil, List.Pairwise.nil, forall_eq,
    false_implies, implies_true, and_self, and_true]
  show FrameRange.endFrame _ < first + count
  rw [endFrame_mk from']
  omega

theorem length_leftOver : (leftOver r first count).length ≤ 2 := by
  rw [leftOver, List.length_append]
  split <;> split <;> simp only [List.length_nil, List.length_singleton, Nat.zero_le, Nat.le_refl,
    Nat.reduceAdd, Nat.reduceLeDiff]

end leftOver

theorem cut_iff {P Q : Prop} {s e f first past : Nat} (outside : P ∨ Q → f < s ∨ e ≤ f)
    (from' : s ≤ first) (le : first ≤ past) (to' : past ≤ e) :
    (P ∨ (s ≤ f ∧ f < first ∨ past ≤ f ∧ f < e) ∨ Q) ↔
      (P ∨ (s ≤ f ∧ f < e) ∨ Q) ∧ ¬(first ≤ f ∧ f < past) := by
  by_cases around : P ∨ Q
  · have := outside around
    exact iff_of_true (around.imp id .inr) ⟨around.imp id .inr, by omega⟩
  · rw [not_or] at around
    simp only [around.1, around.2, false_or, or_false]
    omega

theorem Leaves.carved {r : FrameRange} {first count : Nat}
    (ranges : a.ranges = before ++ r :: after) (tidy : Tidy a.ranges) (some : 0 < count)
    (from' : r.startFrame ≤ first) (to' : first + count ≤ r.endFrame)
    (room : (leftOver r first count).length = 2 → a.ranges.length ≠ a.capacity) :
    a.Leaves { a with ranges := before ++ leftOver r first count ++ after }
      (a.free \ {f | first ≤ f ∧ f < first + count}) := by
  have tidy' := tidy
  rw [ranges] at tidy'
  obtain ⟨_, _, left, right⟩ := tidy'.around
  have length : a.ranges.length = before.length + (after.length + 1) := by
    rw [ranges, List.length_append, List.length_cons]
  refine ⟨rfl, tidy'.refine (tidy_leftOver some from' to') fun x mem => ?_, fun few => ?_,
    Set.ext fun f => ?_⟩
  · have within := leftOver_within from' to' mem
    exact ⟨within.1, within.2.1⟩
  · have pieces : (leftOver r first count).length ≤ 2 := length_leftOver
    rw [length] at room few
    show (before ++ leftOver r first count ++ after).length ≤ a.capacity
    rw [List.length_append, List.length_append]
    omega
  · have outside : f ∈ covered before ∨ f ∈ covered after → f < r.startFrame ∨ r.endFrame ≤ f := by
      rintro (⟨x, mem, inside⟩ | ⟨y, mem, inside⟩)
      · have below : hi x < r.startFrame := left x mem
        omega
      · have above : r.endFrame < lo y := right y mem
        omega
    show f ∈ covered (before ++ leftOver r first count ++ after) ↔
      f ∈ covered a.ranges ∧ ¬(first ≤ f ∧ f < first + count)
    rw [ranges, mem_covered_append, mem_covered_append, mem_covered_append, mem_covered_cons,
      mem_covered_leftOver from' to', or_assoc]
    exact cut_iff outside from' (Nat.le_add_right first count) to'

theorem Leaves.sound (leaves : a.Leaves b frames) (sound : a.Sound)
    (low : ∀ f ∈ frames, f < 2 ^ 40) : b.Sound :=
  ⟨leaves.tidy, leaves.few sound.few, leaves.frames ▸ low⟩

/-- An operation hands out `count` frames from `first` on, which were free, and no others. -/
structure Takes (a b : FrameAllocator) (first count : Nat) : Prop where
  were : ∀ f, first ≤ f → f < first + count → f ∈ a.free
  leaves : a.Leaves b (a.free \ {f | first ≤ f ∧ f < first + count})

theorem Takes.sound {first count : Nat} (takes : a.Takes b first count) (sound : a.Sound) :
    b.Sound :=
  takes.leaves.sound sound fun f mem => sound.low f mem.1

theorem Takes.carved {r : FrameRange} {first count : Nat}
    (ranges : a.ranges = before ++ r :: after) (tidy : Tidy a.ranges) (some : 0 < count)
    (from' : r.startFrame ≤ first) (to' : first + count ≤ r.endFrame)
    (room : (leftOver r first count).length = 2 → a.ranges.length ≠ a.capacity) :
    a.Takes { a with ranges := before ++ leftOver r first count ++ after } first count :=
  ⟨fun _ le lt => ⟨r, ranges ▸ List.mem_append_right _ List.mem_cons_self,
    le_trans from' le, lt_of_lt_of_le lt to'⟩, .carved ranges tidy some from' to' room⟩

theorem frameOfNumber_eq (some : frameOfNumber frame = some f) : f = frame := by
  rw [frameOfNumber] at some
  split at some
  · exact (Option.some.inj some).symm
  · cases some

theorem Sound.frameOfNumber_ne_none (sound : a.Sound) (mem : frame ∈ a.free) :
    frameOfNumber frame ≠ none := by
  rw [frameOfNumber, if_pos (sound.low frame mem)]
  nofun

theorem allocateFrame_some (tidy : Tidy a.ranges) (taken : a.allocateFrame = (some f, b)) :
    a.Takes b f 1 ∧ ∀ g ∈ a.free, f ≤ g := by
  rw [allocateFrame] at taken
  split at taken
  · cases taken
  · rename_i first rest ranges
    obtain ⟨number, rfl⟩ := Prod.mk.inj taken
    obtain rfl := frameOfNumber_eq number
    have nonempty : first.startFrame < first.endFrame :=
      tidy.nonempty first (ranges ▸ List.mem_cons_self)
    have left : (if first.frameCount - 1 = 0 then rest
        else ⟨first.startFrame + 1, first.frameCount - 1⟩ :: rest) =
        [] ++ leftOver first first.startFrame 1 ++ rest := by
      have trailing : first.endFrame - (first.startFrame + 1) = first.frameCount - 1 := by
        show first.startFrame + first.frameCount - (first.startFrame + 1) = _
        omega
      rw [leftOver, Nat.sub_self, if_pos rfl, trailing]
      split <;> rfl
    rw [left]
    refine ⟨.carved ranges tidy (by decide) le_rfl nonempty fun two => ?_, fun g mem => ?_⟩
    · rw [leftOver, Nat.sub_self, if_pos rfl, List.nil_append] at two
      split at two <;> cases two
    · rw [free, ranges] at mem
      rw [ranges] at tidy
      exact tidy.le_of_mem_covered mem

theorem allocateFrame_none (sound : a.Sound) (refused : a.allocateFrame = (none, b)) :
    b = a ∧ a.free = ∅ := by
  rw [allocateFrame] at refused
  split at refused
  · rename_i ranges
    obtain ⟨-, rfl⟩ := Prod.mk.inj refused
    refine ⟨rfl, Set.eq_empty_of_forall_notMem fun f mem => ?_⟩
    rw [free, ranges] at mem
    exact mem_covered_nil.mp mem
  · rename_i first rest ranges
    refine absurd (Prod.mk.inj refused).1 (sound.frameOfNumber_ne_none ?_)
    exact sound.tidy.lo_mem_covered (x := first) (ranges ▸ List.mem_cons_self)

theorem allocateFrame_free (tidy : Tidy a.ranges) (taken : a.allocateFrame = (some f, b)) :
    f ∈ a.free ∧ ∀ g, g ∈ b.free ↔ g ∈ a.free ∧ g ≠ f := by
  obtain ⟨takes, -⟩ := allocateFrame_some tidy taken
  refine ⟨takes.were f le_rfl (Nat.lt_succ_self f), fun g => ?_⟩
  rw [takes.leaves.frames]
  refine and_congr_right fun _ => ?_
  show ¬(f ≤ g ∧ g < f + 1) ↔ _
  omega

theorem deallocateFrame_free (sound : a.Sound) (low : f < 2 ^ 40) (taken : f ∉ a.free) :
    (a.deallocateFrame f).Sound ∧ ∀ g ∈ (a.deallocateFrame f).free, g ∈ a.free ∨ g = f := by
  rw [deallocateFrame]
  cases inserted : a.insertFreeRange f 1 with
  | none => exact ⟨sound, fun g mem => .inl mem⟩
  | some b =>
    have leaves := insertFreeRange_leaves sound.tidy (fun g le lt => by
      obtain rfl : g = f := by omega
      exact taken) inserted
    have either : ∀ g ∈ b.free, g ∈ a.free ∨ g = f := by
      intro g mem
      rw [leaves.frames] at mem
      refine mem.imp_right fun inside => ?_
      have : f ≤ g ∧ g < f + 1 := inside
      omega
    refine ⟨leaves.sound sound fun g mem => ?_, either⟩
    rcases either g (leaves.frames ▸ mem) with mem | rfl
    · exact sound.low g mem
    · exact low

theorem le_nextMultipleOf {n align : Nat} (positive : 0 < align) : n ≤ nextMultipleOf n align := by
  rw [nextMultipleOf]
  have split := Nat.div_add_mod (n + align - 1) align
  have small := Nat.mod_lt (n + align - 1) positive
  rw [Nat.mul_comm] at split
  omega

theorem dvd_nextMultipleOf (n align : Nat) : align ∣ nextMultipleOf n align :=
  Nat.dvd_mul_left align _

theorem allocateContiguousAligned_some (tidy : Tidy a.ranges) {count align f : Nat}
    (taken : a.allocateContiguousAligned count align = (some f, b)) :
    a.Takes b f count ∧ align ∣ f := by
  rw [allocateContiguousAligned] at taken
  split at taken
  · cases taken
  · rename_i asked
    push Not at asked
    split at taken
    · cases taken
    · rename_i r after dropped
      obtain ⟨ranges, fit⟩ := eq_takeWhile_append dropped
      rw [Bool.not_eq_false', fits, decide_eq_true_eq] at fit
      dsimp only at taken
      split at taken
      · cases taken
      · rename_i room
        rw [not_and] at room
        obtain ⟨number, rfl⟩ := Prod.mk.inj taken
        obtain rfl := frameOfNumber_eq number
        exact ⟨.carved ranges tidy (by omega) (le_nextMultipleOf (by omega)) fit room,
          dvd_nextMultipleOf _ _⟩

theorem allocateContiguousAligned_none (sound : a.Sound) {count align : Nat}
    (refused : a.allocateContiguousAligned count align = (none, b)) : b = a := by
  rw [allocateContiguousAligned] at refused
  split at refused
  · exact (Prod.mk.inj refused).2.symm
  · rename_i asked
    push Not at asked
    split at refused
    · exact (Prod.mk.inj refused).2.symm
    · rename_i r after dropped
      obtain ⟨ranges, fit⟩ := eq_takeWhile_append dropped
      rw [Bool.not_eq_false', fits, decide_eq_true_eq] at fit
      dsimp only at refused
      split at refused
      · exact (Prod.mk.inj refused).2.symm
      · refine absurd (Prod.mk.inj refused).1 (sound.frameOfNumber_ne_none ?_)
        exact ⟨r, by rw [ranges]; exact List.mem_append_right _ List.mem_cons_self,
          le_nextMultipleOf (by omega), by show _ < r.endFrame; omega⟩

theorem allocateContiguous_some (tidy : Tidy a.ranges) {count f : Nat}
    (taken : a.allocateContiguous count = (some f, b)) : a.Takes b f count := by
  rw [allocateContiguous] at taken
  split at taken
  · cases taken
  · rename_i asked
    split at taken
    · cases taken
    · rename_i r after dropped
      obtain ⟨ranges, large⟩ := eq_takeWhile_append dropped
      rw [decide_eq_false_iff_not] at large
      obtain ⟨number, rfl⟩ := Prod.mk.inj taken
      obtain rfl := frameOfNumber_eq number
      refine .carved ranges tidy (by omega) le_rfl ?_ fun two => ?_
      · show r.startFrame + count ≤ r.startFrame + r.frameCount
        omega
      · rw [leftOver, Nat.sub_self, if_pos rfl, List.nil_append] at two
        split at two <;> cases two

theorem allocateContiguous_none (sound : a.Sound) {count : Nat}
    (refused : a.allocateContiguous count = (none, b)) : b = a := by
  rw [allocateContiguous] at refused
  split at refused
  · exact (Prod.mk.inj refused).2.symm
  · split at refused
    · exact (Prod.mk.inj refused).2.symm
    · rename_i r after dropped
      obtain ⟨ranges, _⟩ := eq_takeWhile_append dropped
      refine absurd (Prod.mk.inj refused).1 (sound.frameOfNumber_ne_none ?_)
      exact sound.tidy.lo_mem_covered (x := r)
        (by rw [ranges]; exact List.mem_append_right _ List.mem_cons_self)

end FrameAllocator

end Zaytos.Kernel
