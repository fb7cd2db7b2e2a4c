import Zaytos.Lib.Terminated
import Zaytos.Terminal.Utf8
import Zaytos.Zi.Index

set_option autoImplicit false

/-! The buffer of the editor is a list of lines: each of its operations is an edit of that list, or
it is refused and the list stays as it is. -/
namespace Zaytos.Zi

open Zaytos.Kernel (heapLimit)
open Terminated (text offset)

inductive Edit where
  | insert (row at' : Nat) (byte : UInt8)
  | splitLine (row at' : Nat)
  | joinWithNext (row : Nat)
  | remove (row at' : Nat)

namespace Edit

def row : Edit → Nat
  | insert row _ _ | splitLine row _ | joinWithNext row | remove row _ => row

def apply (lines : List (List UInt8)) : Edit → Option (List (List UInt8))
  | insert row at' byte =>
    lines[row]?.bind fun line =>
      if at' ≤ line.length then some (lines.set row (line.take at' ++ byte :: line.drop at'))
      else none
  | splitLine row at' =>
    lines[row]?.bind fun line =>
      if at' ≤ line.length then
        some (lines.take row ++ line.take at' :: line.drop at' :: lines.drop (row + 1))
      else none
  | joinWithNext row =>
    lines[row]?.bind fun first => lines[row + 1]?.map fun second =>
      lines.take row ++ (first ++ second) :: lines.drop (row + 2)
  | remove row at' =>
    lines[row]?.bind fun line => (Terminal.charAt line at').map fun (_, width) =>
      lines.set row (line.take at' ++ line.drop (at' + width))

/-- A call as the editor makes it: in a row that there is, with no newline typed. -/
def Proper (count : Nat) (e : Edit) : Prop :=
  e.row < count ∧ ∀ row at' byte, e = insert row at' byte → byte ≠ newline

end Edit

namespace Buffer

def perform (reaches : Reaches) (b : Buffer) : Edit → Option (Bool × Buffer)
  | .insert row at' byte => b.insert reaches row at' byte
  | .splitLine row at' => b.splitLine reaches row at'
  | .joinWithNext row => b.joinWithNext row
  | .remove row at' => b.remove row at'

/-- The text that is used is these lines, each with its newline, and the index has where each of
them starts and, behind the last, how much is used. -/
structure Holds (b : Buffer) (lines : List (List UInt8)) : Prop where
  shaped : b.Shaped
  count : b.count = lines.length
  nonempty : 0 < lines.length
  room : b.used ≤ b.textCap
  slots : b.count < b.indexCap
  used : b.used = (text newline lines).length
  view : b.region.view 0 b.used = text newline lines
  starts : ∀ row, row ≤ b.count → b.entry row = offset lines row
  free : ∀ line ∈ lines, newline ∉ line

variable {b b' : Buffer} {lines : List (List UInt8)} {row : Nat}

namespace Holds

variable (holds : b.Holds lines)
include holds

theorem grown (grown : Grown b b') : b'.Holds lines where
  shaped := grown.shaped
  count := grown.count.trans holds.count
  nonempty := holds.nonempty
  room := by
    rw [grown.used]
    exact holds.room.trans grown.textCap
  slots := by
    rw [grown.count]
    exact lt_of_lt_of_le holds.slots grown.indexCap
  used := grown.used.trans holds.used
  view := by
    rw [grown.used, grown.view holds.room]
    exact holds.view
  starts := by
    intro row inside
    rw [grown.count] at inside
    rw [grown.entry row (lt_of_le_of_lt inside holds.slots)]
    exact holds.starts row inside
  free := holds.free

theorem offset_le (i : Nat) (inside : i ≤ b.count) : offset lines i ≤ b.used := by
  rw [holds.used, ← Terminated.offset_length]
  apply Terminated.offset_le
  rw [← holds.count]
  exact inside

theorem used_lt : b.used + 1 < 2 ^ 64 := by
  have room := holds.room
  have cap := holds.shaped.cap_le
  have small := holds.shaped.small
  have limit : heapLimit = 0x7FF000 := rfl
  omega

theorem startOf_eq (i : Nat) (inside : i ≤ b.count) : b.startOf i = some (offset lines i) := by
  rw [holds.shaped.startOf_eq (lt_of_le_of_lt inside holds.slots), holds.starts i inside]

theorem length_eq (inside : row < lines.length) : b.length row = some lines[row].length := by
  have count := holds.count
  have next := Terminated.offset_succ lines inside
  unfold length
  rw [holds.startOf_eq (row + 1) (by omega), holds.startOf_eq row (by omega)]
  simp only [Option.bind_eq_bind, Option.bind_some]
  rw [sub_of_le (by omega), Option.bind_some, sub_of_le (by omega)]
  congr 1
  omega

theorem asBytes_eq : b.asBytes = some (text newline lines) := by
  have cap := holds.shaped.cap_le
  have room := holds.room
  unfold asBytes
  rw [if_pos (room.trans cap), holds.view]

theorem line_eq (inside : row < lines.length) : b.line row = some lines[row] := by
  have count := holds.count
  have next := Terminated.offset_succ lines inside
  have last := holds.offset_le (row + 1) (by omega)
  have room := holds.room
  unfold line
  rw [holds.startOf_eq row (by omega), holds.startOf_eq (row + 1) (by omega)]
  simp only [Option.bind_eq_bind, Option.bind_some]
  rw [sub_of_le (by omega), Option.bind_some, if_pos (by omega)]
  congr 1
  obtain ⟨before, line, after, rfl, size, here⟩ := Terminated.exists_around inside
  obtain ⟨around, length⟩ := Terminated.text_at newline before after [] line
  have start : offset (before ++ line :: after) row = (text newline before).length := by
    rw [← size, Terminated.offset_append_left _ _ (le_rfl), Terminated.offset_length]
  have view := holds.view
  rw [List.nil_append, List.append_nil] at around
  rw [around] at view
  rw [here] at next ⊢
  apply List.ext_getElem?
  intro i
  rw [getElem?_view]
  by_cases within : i < line.length
  · have point := congrArg (fun xs => xs[offset (before ++ line :: after) row + i]?) view
    rw [getElem?_view, if_pos (by omega), zero_add, start,
      List.getElem?_append_right (by omega), Nat.add_sub_cancel_left,
      List.getElem?_append_left within] at point
    rw [if_pos (by omega), start]
    exact point
  · rw [if_neg (by omega), List.getElem?_eq_none (by omega)]

end Holds

/-- The call goes through, and the lines are edited or, if it is refused, still the same. -/
def Edits (lines : List (List UInt8)) (e : Edit) (r : Option (Bool × Buffer)) : Prop :=
  ∃ ok b', r = some (ok, b') ∧
    if ok then ∃ lines', e.apply lines = some lines' ∧ b'.Holds lines' else b'.Holds lines

section Operations

variable {reaches : Reaches} {at' : Nat} {before after : List (List UInt8)}
  {first second line : List UInt8}

theorem exists_place (inside : row < lines.length) (within : at' ≤ lines[row].length) :
    ∃ before first second after, lines = before ++ (first ++ second) :: after ∧
      before.length = row ∧ first.length = at' ∧ lines[row] = first ++ second := by
  obtain ⟨before, line, after, rfl, size, here⟩ := Terminated.exists_around inside
  rw [here] at within ⊢
  refine ⟨before, line.take at', line.drop at', after, ?_, size, ?_, ?_⟩
  · rw [List.take_append_drop]
  · rw [List.length_take, min_eq_left within]
  · rw [List.take_append_drop]

theorem Holds.relined (holds : b.Holds (before ++ line :: after)) {line' : List UInt8}
    (shaped : b'.Shaped) (textCap : b'.textCap = b.textCap) (indexCap : b'.indexCap = b.indexCap)
    (count : b'.count = b.count) (room : b'.used ≤ b.textCap)
    (view : b'.region.view 0 b'.used = text newline (before ++ line' :: after))
    (starts : ∀ row, row ≤ b.count → b'.entry row = offset (before ++ line' :: after) row)
    (free : newline ∉ line') : b'.Holds (before ++ line' :: after) where
  shaped := shaped
  count := by
    rw [count, holds.count]
    simp
  nonempty := by simp
  room := textCap ▸ room
  slots := by
    rw [count, indexCap]
    exact holds.slots
  used := by
    have lengths := congrArg List.length view
    simpa [Bytes.view] using lengths
  view := view
  starts := by
    rw [count]
    exact starts
  free := by
    intro other mem
    have old := holds.free other
    simp only [List.mem_append, List.mem_cons] at mem old
    rcases mem with early | here | late
    · exact old (.inl early)
    · exact here ▸ free
    · exact old (.inr (.inr late))

theorem insert_spec (holds : b.Holds lines) (reaches : Reaches) (inside : row < lines.length)
    (at' : Nat) {byte : UInt8} (typed : byte ≠ newline) :
    Edits lines (.insert row at' byte) (b.insert reaches row at' byte) := by
  unfold insert
  rw [holds.length_eq inside]
  simp only [Option.bind_eq_bind, Option.bind_some]
  by_cases past : lines[row].length < at'
  · rw [if_pos past]
    exact ⟨false, b, rfl, holds⟩
  rw [if_neg past]
  obtain ⟨ok, b₁, ensured, grown, enough⟩ := holds.shaped.ensureText_spec reaches (b.used + 1)
  have holds₁ := holds.grown grown
  rw [ensured, Option.bind_some]
  cases ok with
  | false => exact ⟨false, b₁, rfl, holds₁⟩
  | true =>
    have enough : b.used + 1 ≤ b₁.textCap := enough rfl
    rw [← grown.used] at enough
    obtain ⟨before, first, second, after, rfl, rfl, rfl, here⟩ :=
      exists_place inside (Nat.le_of_not_lt past)
    obtain ⟨around, length⟩ := Terminated.text_at newline before after first second
    have count := holds₁.count
    rw [List.length_append, List.length_cons] at count
    have start : offset (before ++ (first ++ second) :: after) before.length =
        offset before before.length := Terminated.offset_append_left _ _ (le_rfl)
    have view := holds₁.view
    rw [around] at view
    obtain ⟨b₂, b₃, copied, set, retyped, opened⟩ :=
      holds₁.shaped.open_spec view byte enough
    rw [length] at copied set
    obtain ⟨b₄, moved, reindexed, entries⟩ := (retyped.shaped holds₁.shaped).each_spec
      (f := fun start => add64 start 1) (g := fun i => b₁.entry i + 1) (k := before.length + 1)
      (n := b₃.count - before.length) (by
        have slots := holds₁.slots
        rw [retyped.indexCap, retyped.count]
        omega) (by
        intro i _ late
        rw [retyped.count] at late
        have known := holds₁.starts i (by omega)
        have small := holds₁.offset_le i (by omega)
        have limit := holds₁.used_lt
        rw [retyped.entry, known]
        exact ⟨add64_of_lt (by omega), by omega⟩)
    have pos : ((b₁.startOf before.length).bind fun start => some (start + first.length)) =
        some (offset before before.length + first.length) := by
      rw [holds₁.startOf_eq _ (by omega), start]
      rfl
    refine ⟨true, { b₄ with used := b₄.used + 1 }, ?_, ?_⟩
    · simp only [Bool.not_true, Bool.false_eq_true, if_false]
      rw [holds₁.startOf_eq _ (by omega), start, Option.bind_some, copied, Option.bind_some, set,
        Option.bind_some]
      unfold behind
      rw [moved]
      rfl
    · rw [if_pos rfl]
      refine ⟨before ++ (first ++ byte :: second) :: after, ?_, ?_⟩
      · simp [Edit.apply]
      · have used : b₄.used = b₁.used := reindexed.used.trans retyped.used
        apply holds₁.relined
        · have shaped := reindexed.shaped (retyped.shaped holds₁.shaped)
          exact ⟨shaped.split, shaped.small⟩
        · exact reindexed.textCap.trans retyped.textCap
        · exact reindexed.indexCap.trans retyped.indexCap
        · exact reindexed.count.trans retyped.count
        · dsimp only
          rw [used]
          exact enough
        · have same : b₄.region.view 0 (b₁.used + 1) = b₃.region.view 0 (b₁.used + 1) := by
            apply reindexed.view
            rw [retyped.textCap]
            exact enough
          dsimp only
          rw [used, same, opened]
          simp
        · intro i early
          obtain ⟨same, later⟩ := Terminated.offset_changed (i := i) before after (first ++ second)
            (first ++ byte :: second)
          have known := holds₁.starts i early
          change b₄.entry i = _
          rw [entries, retyped.entry, retyped.count]
          by_cases behind' : before.length < i
          · have moved := later behind'
            simp only [List.length_append, List.length_cons] at moved
            rw [if_pos (by omega), known]
            omega
          · rw [if_neg (by omega), known, same (by omega)]
        · have old := holds₁.free (first ++ second) (by simp)
          simp only [List.mem_append, List.mem_cons, not_or] at old ⊢
          exact ⟨old.1, typed.symm, old.2⟩

theorem splitLine_spec (holds : b.Holds lines) (reaches : Reaches) (inside : row < lines.length)
    (at' : Nat) : Edits lines (.splitLine row at') (b.splitLine reaches row at') := by
  unfold splitLine
  rw [if_neg (by rw [holds.count]; omega), holds.length_eq inside]
  simp only [Option.bind_eq_bind, Option.bind_some]
  by_cases past : lines[row].length < at'
  · rw [if_pos past]
    exact ⟨false, b, rfl, holds⟩
  rw [if_neg past]
  obtain ⟨ok₁, b₁, ensured₁, grown₁, enough₁⟩ := holds.shaped.ensureText_spec reaches (b.used + 1)
  have holds₁ := holds.grown grown₁
  rw [ensured₁, Option.bind_some]
  cases ok₁ with
  | false => exact ⟨false, b₁, rfl, holds₁⟩
  | true =>
    simp only [Bool.not_true, Bool.false_eq_true, if_false]
    obtain ⟨ok₂, b₂, ensured₂, grown₂, enough₂⟩ :=
      holds₁.shaped.ensureIndex_spec reaches (b₁.count + 2)
    have holds₂ := holds₁.grown grown₂
    rw [ensured₂, Option.bind_some]
    cases ok₂ with
    | false => exact ⟨false, b₂, rfl, holds₂⟩
    | true =>
      obtain ⟨slots, textCap⟩ := enough₂ rfl
      have enough : b₂.used + 1 ≤ b₂.textCap := by
        rw [textCap, grown₂.used, grown₁.used]
        exact enough₁ rfl
      rw [← grown₂.count] at slots
      obtain ⟨before, first, second, after, rfl, rfl, rfl, here⟩ :=
        exists_place inside (Nat.le_of_not_lt past)
      obtain ⟨around, length⟩ := Terminated.text_at newline before after first second
      have count := holds₂.count
      rw [List.length_append, List.length_cons] at count
      have start : offset (before ++ (first ++ second) :: after) before.length =
          offset before before.length := Terminated.offset_append_left _ _ (le_rfl)
      have view := holds₂.view
      rw [around] at view
      obtain ⟨b₃, b₄, copied, set, retyped, opened⟩ :=
        holds₂.shaped.open_spec view newline enough
      rw [length] at copied set
      have shaped₄ := retyped.shaped holds₂.shaped
      obtain ⟨b₅, moved, reindexed, entries⟩ := shaped₄.up_spec
        (f := fun start => add64 start 1) (g := fun i => b₂.entry i + 1) (k := before.length + 1)
        (n := b₄.count - before.length) (by
          rw [retyped.indexCap, retyped.count]
          omega) (by
          intro i _ late
          rw [retyped.count] at late
          have known := holds₂.starts i (by omega)
          have small := holds₂.offset_le i (by omega)
          have limit := holds₂.used_lt
          rw [retyped.entry, known]
          exact ⟨add64_of_lt (by omega), by omega⟩)
      have place := holds₂.offset_le (before.length + 1) (by omega)
      have next := Terminated.offset_succ _ inside
      rw [here, List.length_append, start] at next
      have limit := holds₂.used_lt
      obtain ⟨b₆, added, reindexed', entries'⟩ := (reindexed.shaped shaped₄).setStart_spec
        (before.length + 1) (offset before before.length + first.length + 1) (by
          rw [reindexed.indexCap, retyped.indexCap]
          omega) (by omega)
      have whole := reindexed.trans reindexed'
      refine ⟨true, { b₆ with used := b₆.used + 1, count := b₆.count + 1 }, ?_, ?_⟩
      · simp only [Bool.not_true, Bool.false_eq_true, if_false]
        rw [holds₂.startOf_eq _ (by omega), start, Option.bind_some, copied, Option.bind_some, set,
          Option.bind_some]
        unfold behind
        rw [moved, Option.bind_some, added]
        rfl
      · rw [if_pos rfl]
        refine ⟨before ++ first :: second :: after, ?_, ?_⟩
        · simp [Edit.apply]
        · have used : b₆.used = b₂.used := whole.used.trans retyped.used
          have count' : b₆.count = b₂.count := whole.count.trans retyped.count
          have shaped₆ := whole.shaped shaped₄
          have view' : b₆.region.view 0 (b₆.used + 1) =
              text newline (before ++ first :: second :: after) := by
            have same : b₆.region.view 0 (b₂.used + 1) = b₄.region.view 0 (b₂.used + 1) := by
              apply whole.view
              rw [retyped.textCap]
              exact enough
            rw [used, same, opened]
            simp
          refine ⟨⟨shaped₆.split, shaped₆.small⟩, ?_, by simp, ?_, ?_, ?_, view', ?_, ?_⟩
          · dsimp only
            rw [count', count]
            simp
            omega
          · change b₆.used + 1 ≤ b₆.textCap
            rw [used, whole.textCap, retyped.textCap]
            exact enough
          · change b₆.count + 1 < b₆.indexCap
            rw [count', whole.indexCap, retyped.indexCap]
            omega
          · have lengths := congrArg List.length view'
            simpa [Bytes.view] using lengths
          · intro i early
            have early : i ≤ b₂.count + 1 := count' ▸ early
            obtain ⟨same, new, _⟩ := Terminated.offset_split (i := i) before after first second
            obtain ⟨_, _, later⟩ := Terminated.offset_split (i := i - 1) before after first second
            change b₆.entry i = _
            rw [entries', entries, retyped.entry, retyped.count]
            by_cases here' : i = before.length + 1
            · rw [if_pos here', here', new]
            · rw [if_neg here']
              by_cases behind' : before.length + 1 < i
              · have moved := later (by omega)
                rw [show i - 1 + 1 = i by omega] at moved
                rw [if_pos (by omega), holds₂.starts (i - 1) (by omega), moved]
              · rw [if_neg (by omega), holds₂.starts i (by omega), same (by omega)]
          · have old := holds₂.free
            intro other mem
            have joined := old (first ++ second) (by simp)
            simp only [List.mem_append, not_or] at joined
            simp only [List.mem_append, List.mem_cons] at mem
            rcases mem with early | here | here | late
            · exact old other (by simp [early])
            · exact here ▸ joined.1
            · exact here ▸ joined.2
            · exact old other (by simp [late])

theorem joinWithNext_spec (holds : b.Holds lines) (inside : row < lines.length) :
    Edits lines (.joinWithNext row) (b.joinWithNext row) := by
  unfold joinWithNext
  by_cases last : b.count ≤ row + 1
  · rw [if_pos last]
    exact ⟨false, b, rfl, holds⟩
  rw [if_neg last]
  have count := holds.count
  obtain ⟨before, first, rest, rfl, rfl, here⟩ := Terminated.exists_around inside
  cases rest with
  | nil =>
    rw [List.length_append, List.length_singleton] at count
    omega
  | cons second after =>
    simp only [List.length_append, List.length_cons] at count
    obtain ⟨_, new, _⟩ := Terminated.offset_split (i := 0) before after first second
    have view : b.region.view 0 b.used =
        (text newline before ++ first) ++
          ([newline] ++ (second ++ newline :: text newline after)) := by
      rw [holds.view]
      simp
    have length : (text newline before ++ first).length =
        offset before before.length + first.length := by
      rw [List.length_append, Terminated.offset_length]
    obtain ⟨b₁, copied, retyped, closed⟩ := holds.shaped.close_spec view holds.room
    rw [length, List.length_singleton] at copied
    rw [List.length_singleton] at closed
    obtain ⟨b₂, moved, reindexed, entries⟩ := (retyped.shaped holds.shaped).down_spec
      (f := fun start => sub start 1) (g := fun i => b.entry i - 1) (k := before.length + 1)
      (n := b₁.count - (before.length + 1)) (by
        have slots := holds.slots
        rw [retyped.indexCap, retyped.count]
        omega) (by
        intro i early late
        rw [retyped.count] at late
        have known := holds.starts i (by omega)
        have small := holds.offset_le i (by omega)
        have limit := holds.used_lt
        have positive := Terminated.offset_strictMono (before ++ first :: second :: after)
          (i := 0) (j := i) (by omega) (by simp; omega)
        rw [retyped.entry, known]
        exact ⟨sub_of_le (by omega), by omega⟩)
    have some' : 1 ≤ b.used := by
      have lengths := holds.used
      simp at lengths
      omega
    refine ⟨true, { b₂ with used := b₂.used - 1, count := b₂.count - 1 }, ?_, ?_⟩
    · rw [holds.startOf_eq _ (by omega), new]
      simp only [Option.bind_eq_bind, Option.bind_some]
      rw [sub_of_le (by omega), Option.bind_some, Nat.add_sub_cancel, copied, Option.bind_some,
        moved, Option.bind_some, sub_of_le (by rw [reindexed.used, retyped.used]; exact some')]
      rfl
    · rw [if_pos rfl]
      refine ⟨before ++ (first ++ second) :: after, ?_, ?_⟩
      · simp [Edit.apply]
      · have used : b₂.used = b.used := reindexed.used.trans retyped.used
        have count' : b₂.count = b.count := reindexed.count.trans retyped.count
        have shaped := reindexed.shaped (retyped.shaped holds.shaped)
        have view' : b₂.region.view 0 (b₂.used - 1) =
            text newline (before ++ (first ++ second) :: after) := by
          have still : b₂.region.view 0 (b.used - 1) = b₁.region.view 0 (b.used - 1) := by
            apply reindexed.view
            rw [retyped.textCap]
            exact (Nat.sub_le _ _).trans holds.room
          rw [used, still, closed]
          simp
        refine ⟨⟨shaped.split, shaped.small⟩, ?_, by simp, ?_, ?_, ?_, view', ?_, ?_⟩
        · dsimp only
          rw [count', count]
          simp
        · change b₂.used - 1 ≤ b₂.textCap
          rw [used, reindexed.textCap, retyped.textCap]
          exact (Nat.sub_le _ _).trans holds.room
        · change b₂.count - 1 < b₂.indexCap
          have slots := holds.slots
          rw [count', reindexed.indexCap, retyped.indexCap]
          omega
        · have lengths := congrArg List.length view'
          simpa [Bytes.view] using lengths
        · intro i early
          have early : i ≤ b.count - 1 := count' ▸ early
          obtain ⟨same, _, later⟩ := Terminated.offset_split (i := i) before after first second
          change b₂.entry i = _
          rw [entries, retyped.entry, retyped.count]
          by_cases behind' : before.length < i
          · have moved := later behind'
            rw [if_pos (by omega), holds.starts (i + 1) (by omega), moved, Nat.add_sub_cancel]
          · rw [if_neg (by omega), holds.starts i (by omega), same (by omega)]
        · have old := holds.free
          intro other mem
          simp only [List.mem_append, List.mem_cons] at mem
          rcases mem with early | here | late
          · exact old other (by simp [early])
          · rw [here, List.mem_append]
            intro either
            cases either with
            | inl mem => exact old first (by simp) mem
            | inr mem => exact old second (by simp) mem
          · exact old other (by simp [late])

theorem charAt_inside {line : List UInt8} {at' width : Nat} {c : Char}
    (found : Terminal.charAt line at' = some (c, width)) :
    at' < line.length ∧ at' + width ≤ line.length := by
  rw [Terminal.charAt_drop] at found
  obtain ⟨some', fits⟩ := Terminal.charAt_length found
  rw [List.length_drop] at fits
  omega

theorem remove_spec (holds : b.Holds lines) (inside : row < lines.length) (at' : Nat) :
    Edits lines (.remove row at') (b.remove row at') := by
  unfold remove
  rw [holds.length_eq inside, holds.line_eq inside]
  simp only [Option.bind_eq_bind, Option.bind_some]
  by_cases past : lines[row].length ≤ at'
  · rw [if_pos past]
    exact ⟨false, b, rfl, holds⟩
  rw [if_neg past]
  cases found : Terminal.charAt lines[row] at' with
  | none => exact ⟨false, b, rfl, holds⟩
  | some result =>
    obtain ⟨c, width⟩ := result
    obtain ⟨_, fits⟩ := charAt_inside found
    obtain ⟨before, first, rest, after, rfl, rfl, rfl, here⟩ :=
      exists_place inside (Nat.le_of_not_le past)
    rw [here, List.length_append] at fits
    have cut : rest = rest.take width ++ rest.drop width := (List.take_append_drop _ _).symm
    have few : (rest.take width).length = width := by
      rw [List.length_take]
      omega
    have count := holds.count
    rw [List.length_append, List.length_cons] at count
    have start : offset (before ++ (first ++ rest) :: after) before.length =
        offset before before.length := Terminated.offset_append_left _ _ (le_rfl)
    have view : b.region.view 0 b.used = (text newline before ++ first) ++
        (rest.take width ++ (rest.drop width ++ newline :: text newline after)) := by
      rw [holds.view, ← List.append_assoc (rest.take width), ← cut]
      simp
    have length : (text newline before ++ first).length =
        offset before before.length + first.length := by
      rw [List.length_append, Terminated.offset_length]
    obtain ⟨b₁, copied, retyped, closed⟩ := holds.shaped.close_spec view holds.room
    rw [length, few] at copied
    rw [few] at closed
    have next := Terminated.offset_succ _ inside
    rw [here, List.length_append, start] at next
    have enough : width ≤ b.used := by
      have last := holds.offset_le (before.length + 1) (by omega)
      omega
    have past' : ∀ i, before.length < i → i ≤ b.count →
        width ≤ offset (before ++ (first ++ rest) :: after) i := by
      intro i late inside'
      rcases Nat.eq_or_lt_of_le (show before.length + 1 ≤ i from late) with same | further
      · rw [← same, next]
        omega
      · have order := Terminated.offset_strictMono (before ++ (first ++ rest) :: after)
          further (by rw [← holds.count]; exact inside')
        omega
    have shaped₁ : Shaped { b₁ with used := b.used - width } :=
      ⟨(retyped.shaped holds.shaped).split, (retyped.shaped holds.shaped).small⟩
    have same₁ : ∀ i, entry { b₁ with used := b.used - width } i = b.entry i := retyped.entry
    obtain ⟨b₂, moved, reindexed, entries⟩ := shaped₁.each_spec
      (f := fun start => some (wrappingBack width start)) (g := fun i => b.entry i - width)
      (k := before.length + 1) (n := b₁.count - before.length) (by
        have slots := holds.slots
        change _ ≤ b₁.indexCap
        rw [retyped.indexCap, retyped.count]
        omega) (by
        intro i early late
        rw [retyped.count] at late
        have known := holds.starts i (by omega)
        have small := holds.offset_le i (by omega)
        have limit := holds.used_lt
        have large := past' i (by omega) (by omega)
        rw [same₁, known]
        refine ⟨?_, by omega⟩
        unfold wrappingBack
        congr 1
        omega)
    refine ⟨true, b₂, ?_, ?_⟩
    · dsimp only
      rw [holds.startOf_eq _ (by omega), start, Option.bind_some, copied, Option.bind_some,
        retyped.used, sub_of_le enough, Option.bind_some]
      unfold shiftIndex behind
      rw [moved]
      rfl
    · rw [if_pos rfl]
      refine ⟨before ++ (first ++ rest.drop width) :: after, ?_, ?_⟩
      · have now : Terminal.charAt (first ++ rest) first.length = some (c, width) := by
          rw [← here]
          exact found
        simp [Edit.apply, now, List.drop_append]
      · have used : b₂.used = b.used - width := reindexed.used
        apply holds.relined
        · exact reindexed.shaped shaped₁
        · exact reindexed.textCap.trans retyped.textCap
        · exact reindexed.indexCap.trans retyped.indexCap
        · exact reindexed.count.trans retyped.count
        · rw [used]
          exact (Nat.sub_le _ _).trans holds.room
        · have still : b₂.region.view 0 (b.used - width) = b₁.region.view 0 (b.used - width) := by
            apply reindexed.view
            change _ ≤ b₁.textCap
            rw [retyped.textCap]
            exact (Nat.sub_le _ _).trans holds.room
          rw [used, still, closed]
          simp
        · intro i early
          obtain ⟨same, later⟩ := Terminated.offset_changed (i := i) before after (first ++ rest)
            (first ++ rest.drop width)
          have known := holds.starts i early
          rw [entries, same₁, retyped.count]
          by_cases behind' : before.length < i
          · have moved := later behind'
            have large := past' i behind' early
            simp only [List.length_append, List.length_drop] at moved
            rw [if_pos (by omega), known]
            omega
          · rw [if_neg (by omega), known, same (by omega)]
        · have old := holds.free (first ++ rest) (by simp)
          intro mem
          apply old
          rw [List.mem_append] at mem ⊢
          cases mem with
          | inl mem => exact .inl mem
          | inr mem => exact .inr (List.mem_of_mem_drop mem)

end Operations

end Buffer

end Zaytos.Zi
