import Zaytos.Zi.Editor
import Zaytos.Zi.Room

set_option autoImplicit false

/-! The editor never stops short: the cursor stays in a line that there is, and each byte is either
a motion or an edit of the lines. -/
namespace Zaytos.Zi

open Terminal (prevBoundary nextBoundary lineEnd firstNonblank)

variable {line : List UInt8} {lines : List (List UInt8)} {pos col row : Nat}

section Columns

theorem prevBoundary_spec (inside : pos ≤ line.length) :
    ∃ back, prevBoundary line pos = some back ∧ back ≤ pos ∧ (0 < pos → back < pos) := by
  unfold prevBoundary
  by_cases first : pos = 0
  · rw [if_pos first]
    exact ⟨0, rfl, Nat.zero_le _, fun after => by omega⟩
  · rw [if_neg first]
    obtain ⟨stop, scanned, -, below, -, -⟩ :=
      @Terminal.scanBack_stops line (pos - 4) (pos - 1) (by omega) (by omega)
    rw [scanned]
    dsimp only
    cases Terminal.charAt line stop with
    | none => exact ⟨pos - 1, rfl, by omega, fun _ => by omega⟩
    | some found =>
      refine ⟨_, rfl, ?_, ?_⟩
      · split <;> omega
      · intro after
        split <;> omega

theorem nextBoundary_le (inside : pos ≤ line.length) : nextBoundary line pos ≤ line.length := by
  by_cases past : line.length ≤ pos
  · rw [Terminal.nextBoundary_past past]
    exact inside
  · obtain ⟨n, character⟩ := Terminal.exists_characterAt (Nat.lt_of_not_le past)
    rw [character.nextBoundary]
    exact character.inside

theorem firstNonblank_spec (line : List UInt8) :
    ∃ pos, firstNonblank line = some pos ∧ pos ≤ line.length := by
  obtain ⟨pos, found, walk⟩ := Terminal.firstNonblank_walk line
  exact ⟨pos, found, walk.le_length⟩

theorem clampColumn_spec (line : List UInt8) (col : Nat) :
    ∃ c, clampColumn line col = some c ∧ c ≤ line.length := by
  obtain ⟨limit, found, below, -⟩ := prevBoundary_spec (le_refl line.length)
  unfold clampColumn
  rw [found]
  simp only [Option.bind_eq_bind, Option.bind_some]
  by_cases past : limit < col
  · rw [if_pos past]
    exact ⟨limit, rfl, below⟩
  rw [if_neg past]
  by_cases inside : (!isBoundary line col) = true
  · rw [if_pos inside]
    obtain ⟨back, moved, before, -⟩ := prevBoundary_spec (show col ≤ line.length by omega)
    exact ⟨back, moved, by omega⟩
  · rw [if_neg inside]
    exact ⟨col, rfl, by omega⟩

end Columns

namespace Editor

structure On (e : Editor) (lines : List (List UInt8)) (line : List UInt8) : Prop where
  holds : e.buffer.Holds lines
  here : lines[e.row]? = some line
  col : e.col ≤ line.length

def Valid (e : Editor) : Prop := ∃ lines line, e.On lines line

def Moved (e : Editor) (lines : List (List UInt8)) (e' : Editor) : Prop :=
  ∃ row col mode line, e' = { e with row, col, mode } ∧ e'.On lines line

variable {e e' : Editor} {world : World}

namespace On

variable (on : e.On lines line)
include on

theorem inside : e.row < lines.length := (List.getElem?_eq_some_iff.mp on.here).1

theorem line_eq : e.buffer.line e.row = some line := by
  obtain ⟨inside, same⟩ := List.getElem?_eq_some_iff.mp on.here
  rw [on.holds.line_eq inside, same]

theorem moved_col (inside : col ≤ line.length) (mode : Mode) :
    e.Moved lines { e with col, mode } :=
  ⟨e.row, col, mode, line, rfl, on.holds, on.here, inside⟩

theorem moved_refl : e.Moved lines e := ⟨e.row, e.col, e.mode, line, rfl, on⟩

theorem moveLeft : ∃ e', e.moveLeft = some e' ∧ e.Moved lines e' := by
  unfold Editor.moveLeft
  rw [on.line_eq]
  simp only [Option.bind_eq_bind, Option.bind_some]
  by_cases first : e.col = 0
  · rw [if_pos first]
    exact ⟨e, rfl, on.moved_refl⟩
  · rw [if_neg first]
    obtain ⟨back, moved, before, -⟩ := prevBoundary_spec on.col
    rw [moved]
    exact ⟨_, rfl, on.moved_col (before.trans on.col) e.mode⟩

theorem moveRight : ∃ e', e.moveRight = some e' ∧ e.Moved lines e' := by
  obtain ⟨back, moved, -, -⟩ := prevBoundary_spec (le_refl line.length)
  have limited : ∃ limit, e.rightLimit line = some limit := by
    unfold rightLimit
    split
    · exact ⟨_, rfl⟩
    · exact ⟨back, moved⟩
  obtain ⟨limit, limited⟩ := limited
  unfold Editor.moveRight
  rw [on.line_eq]
  simp only [Option.bind_eq_bind, Option.bind_some]
  rw [limited, Option.bind_some]
  split
  · exact ⟨e, rfl, on.moved_refl⟩
  · split
    · exact ⟨e, rfl, on.moved_refl⟩
    · exact ⟨_, rfl, on.moved_col (nextBoundary_le on.col) e.mode⟩

theorem moveToRow (inside : row < lines.length) :
    ∃ e', e.moveToRow row = some e' ∧ e.Moved lines e' := by
  obtain ⟨col, clamped, fits⟩ := clampColumn_spec lines[row] e.col
  unfold Editor.moveToRow
  rw [on.holds.line_eq inside, Option.bind_eq_bind, Option.bind_some, clamped]
  exact ⟨_, rfl, row, col, e.mode, lines[row], rfl, on.holds, List.getElem?_eq_getElem inside, fits⟩

theorem moveUp : ∃ e', e.moveUp = some e' ∧ e.Moved lines e' := by
  have inside := on.inside
  unfold Editor.moveUp
  split
  · exact ⟨e, rfl, on.moved_refl⟩
  · apply on.moveToRow
    omega

theorem moveDown : ∃ e', e.moveDown = some e' ∧ e.Moved lines e' := by
  have count := on.holds.count
  unfold Editor.moveDown
  split
  · exact ⟨e, rfl, on.moved_refl⟩
  · apply on.moveToRow
    omega

theorem moveToLineEnd : ∃ e', e.moveToLineEnd = some e' ∧ e.Moved lines e' := by
  obtain ⟨back, moved, below, -⟩ := prevBoundary_spec (le_refl line.length)
  unfold Editor.moveToLineEnd lineEnd
  rw [on.line_eq, Option.bind_eq_bind, Option.bind_some, moved]
  exact ⟨_, rfl, on.moved_col below e.mode⟩

theorem moveToFirstNonblank : ∃ e', e.moveToFirstNonblank = some e' ∧ e.Moved lines e' := by
  obtain ⟨pos, found, fits⟩ := firstNonblank_spec line
  unfold Editor.moveToFirstNonblank
  rw [on.line_eq, Option.bind_eq_bind, Option.bind_some, found]
  exact ⟨_, rfl, on.moved_col fits e.mode⟩

theorem enterAppend : ∃ e', e.enterAppend = some e' ∧ e'.mode = .insert ∧ e.Moved lines e' := by
  unfold Editor.enterAppend
  rw [on.line_eq, Option.bind_eq_bind, Option.bind_some]
  refine ⟨_, rfl, rfl, on.moved_col ?_ .insert⟩
  split
  · exact nextBoundary_le on.col
  · exact on.col

end On

theorem Moved.trans {e'' : Editor} (first : e.Moved lines e') (second : e'.Moved lines e'') :
    e.Moved lines e'' := by
  obtain ⟨_, _, _, _, rfl, _⟩ := first
  obtain ⟨row, col, mode, line, rfl, on⟩ := second
  exact ⟨row, col, mode, line, rfl, on⟩

namespace On

variable (on : e.On lines line)
include on

theorem append : ∃ e', (e.moveToLineEnd.bind fun e => e.enterAppend) = some e' ∧
    e'.mode = .insert ∧ e.Moved lines e' := by
  obtain ⟨e₁, moved, first⟩ := on.moveToLineEnd
  obtain ⟨_, _, _, _, _, on₁⟩ := id first
  obtain ⟨e₂, entered, mode, second⟩ := on₁.enterAppend
  rw [moved, Option.bind_some]
  exact ⟨e₂, entered, mode, first.trans second⟩

theorem motion (byte : UInt8) : ∃ e', e.motion byte = some e' ∧ e.Moved lines e' := by
  unfold Editor.motion
  split
  · exact on.moveLeft
  split
  · exact on.moveDown
  split
  · exact on.moveUp
  split
  · exact on.moveRight
  split
  · exact ⟨_, rfl, on.moved_col on.col .insert⟩
  split
  · obtain ⟨e', entered, -, moved⟩ := on.enterAppend
    exact ⟨e', entered, moved⟩
  split
  · exact on.moveToLineEnd
  split
  · exact on.moveToFirstNonblank
  split
  · obtain ⟨e', entered, -, moved⟩ := on.append
    exact ⟨e', entered, moved⟩
  · exact ⟨e, rfl, on.moved_refl⟩

theorem arrow (direction : UInt8) : ∃ e', e.arrow direction = some e' ∧ e.Moved lines e' := by
  unfold Editor.arrow
  split
  · exact on.moveUp
  split
  · exact on.moveDown
  split
  · exact on.moveRight
  split
  · exact on.moveLeft
  · exact ⟨e, rfl, on.moved_refl⟩

end On

/-- The buffer has been edited, or nothing of it, and the cursor is where there is a line. -/
structure Edited (e : Editor) (lines : List (List UInt8)) (changed : Bool) (e' : Editor) :
    Prop where
  same : e' = { e with
    buffer := e'.buffer, row := e'.row, col := e'.col, mode := e'.mode, calls := e'.calls }
  after : ∃ lines' line', e'.On lines' line' ∧ (changed = false → lines' = lines)

theorem Moved.edited (moved : e.Moved lines e') (changed : Bool) : e.Edited lines changed e' := by
  obtain ⟨row, col, mode, line, rfl, on⟩ := moved
  exact ⟨rfl, lines, line, on, fun _ => rfl⟩

theorem Moved.then {e'' : Editor} {changed : Bool} (moved : e.Moved lines e')
    (edited : e'.Edited lines changed e'') : e.Edited lines changed e'' := by
  obtain ⟨_, _, _, _, rfl, _⟩ := moved
  exact ⟨edited.same, edited.after⟩

namespace On

variable (on : e.On lines line)
include on

theorem rebuffered {buffer : Buffer} (holds : buffer.Holds lines) (calls : Nat) :
    e.Edited lines false { e with buffer, calls } :=
  ⟨rfl, lines, line, ⟨holds, on.here, on.col⟩, fun _ => rfl⟩

theorem removeHere : ∃ e', e.removeHere = some (decide (e.col < line.length), e') ∧
    e.Edited lines (decide (e.col < line.length)) e' := by
  obtain ⟨inside, same⟩ := List.getElem?_eq_some_iff.mp on.here
  obtain ⟨ok, buffer, removed, after⟩ := Buffer.remove_spec on.holds inside e.col
  have there := Buffer.remove_ok on.holds inside removed
  rw [same] at there
  rw [← there]
  unfold Editor.removeHere
  rw [removed, Option.bind_eq_bind, Option.bind_some]
  cases ok with
  | false =>
    simp only [Bool.false_eq_true, false_and, if_false]
    exact ⟨_, rfl, on.rebuffered after e.calls⟩
  | true =>
    obtain ⟨lines', applied, holds⟩ := after
    obtain ⟨line', here, fits⟩ := Edit.apply_remove on.here applied
    have on' : On { e with buffer } lines' line' := ⟨holds, here, fits⟩
    simp only [true_and]
    split
    · rw [show buffer.line e.row = some line' from on'.line_eq, Option.bind_eq_bind,
        Option.bind_some]
      split
      · obtain ⟨back, moved, below, -⟩ := prevBoundary_spec (le_refl line'.length)
        rw [moved]
        exact ⟨_, rfl, rfl, lines', line', ⟨holds, here, below⟩, nofun⟩
      · exact ⟨_, rfl, rfl, lines', line', on', nofun⟩
    · exact ⟨_, rfl, rfl, lines', line', on', nofun⟩

theorem breakLine (world : World) :
    ∃ e', e.breakLine world = some (e.buffer.roomForLine (world.heap e.calls), e') ∧
      e.Edited lines (e.buffer.roomForLine (world.heap e.calls)) e' := by
  obtain ⟨inside, same⟩ := List.getElem?_eq_some_iff.mp on.here
  obtain ⟨ok, buffer, split', after⟩ :=
    Buffer.splitLine_spec on.holds (world.heap e.calls) inside e.col
  rw [← Buffer.splitLine_ok on.holds inside (same.symm ▸ on.col) split']
  unfold Editor.breakLine
  rw [split', Option.bind_eq_bind, Option.bind_some]
  cases ok with
  | false => exact ⟨_, rfl, on.rebuffered after _⟩
  | true =>
    obtain ⟨lines', applied, holds⟩ := after
    obtain ⟨line', here⟩ := Edit.apply_splitLine on.here applied
    exact ⟨_, rfl, rfl, lines', line', ⟨holds, here, Nat.zero_le _⟩, nofun⟩

theorem erase : ∃ changed e', e.erase = some (changed, e') ∧ e.Edited lines changed e' := by
  obtain ⟨inside, same⟩ := List.getElem?_eq_some_iff.mp on.here
  unfold Editor.erase
  split
  case isTrue behind =>
    obtain ⟨back, moved, below, -⟩ := prevBoundary_spec on.col
    obtain ⟨ok, buffer, removed, after⟩ := Buffer.remove_spec on.holds inside back
    rw [on.line_eq]
    simp only [Option.bind_eq_bind, Option.bind_some]
    rw [moved, Option.bind_some, removed, Option.bind_some]
    cases ok with
    | false => exact ⟨false, _, rfl, on.rebuffered after e.calls⟩
    | true =>
      obtain ⟨lines', applied, holds⟩ := after
      obtain ⟨line', here, fits⟩ := Edit.apply_remove on.here applied
      exact ⟨true, _, rfl, rfl, lines', line', ⟨holds, here, fits⟩, nofun⟩
  case isFalse first =>
    split
    · exact ⟨false, e, rfl, on.moved_refl.edited false⟩
    case isFalse below =>
      have above : e.row - 1 < lines.length := by omega
      obtain ⟨ok, buffer, joined, after⟩ := Buffer.joinWithNext_spec on.holds above
      rw [on.holds.length_eq above]
      simp only [Option.bind_eq_bind, Option.bind_some]
      rw [joined, Option.bind_some]
      cases ok with
      | false => exact ⟨false, _, rfl, on.rebuffered after e.calls⟩
      | true =>
        obtain ⟨lines', applied, holds⟩ := after
        obtain ⟨line', here, fits⟩ :=
          Edit.apply_joinWithNext (List.getElem?_eq_getElem above) applied
        exact ⟨true, _, rfl, rfl, lines', line', ⟨holds, here, fits⟩, nofun⟩

theorem insertHere (world : World) {byte : UInt8} (typed : byte ≠ newline) :
    ∃ changed e', e.insertHere world byte = some (changed, e') ∧ e.Edited lines changed e' := by
  obtain ⟨inside, same⟩ := List.getElem?_eq_some_iff.mp on.here
  obtain ⟨ok, buffer, inserted, after⟩ :=
    Buffer.insert_spec on.holds (world.heap e.calls) inside e.col typed
  unfold Editor.insertHere
  rw [inserted, Option.bind_eq_bind, Option.bind_some]
  cases ok with
  | false => exact ⟨false, _, rfl, on.rebuffered after _⟩
  | true =>
    obtain ⟨lines', applied, holds⟩ := after
    obtain ⟨line', here, fits⟩ := Edit.apply_insert on.here applied
    exact ⟨true, _, rfl, rfl, lines', line', ⟨holds, here, fits⟩, nofun⟩

end On

/-- A byte of normal mode that changes the buffer: an `x` where there is a character, or an `o`
where there is room for a line. -/
def Alters (world : World) (e : Editor) (line : List UInt8) (byte : UInt8) : Prop :=
  byte = 'x'.toUInt8 ∧ e.col < line.length ∨
    byte = 'o'.toUInt8 ∧ e.buffer.roomForLine (world.heap e.calls) = true

namespace On

variable (on : e.On lines line)
include on

theorem normalByte (world : World) (normal : e.mode = .normal) (byte : UInt8) :
    ∃ changed e', e.handleByte world byte = some (changed, e') ∧ e.Edited lines changed e' ∧
      (changed = true ↔ e.Alters world line byte) := by
  unfold Editor.handleByte Alters
  rw [normal]
  dsimp only
  have apart : 'o'.toUInt8 ≠ 'x'.toUInt8 := by decide
  split
  case isTrue opens =>
    obtain ⟨e₁, appended, -, moved⟩ := on.append
    obtain ⟨_, _, _, line₁, rfl, on₁⟩ := id moved
    obtain ⟨e₂, broken, edited⟩ := on₁.breakLine world
    refine ⟨_, e₂, ?_, moved.then edited, ?_⟩
    · simp only [Option.bind_eq_bind]
      rw [← Option.bind_assoc, appended, Option.bind_some, broken]
    · rw [opens]
      simp [apart]
  case isFalse other =>
    split
    case isTrue removes =>
      obtain ⟨e', removed, edited⟩ := on.removeHere
      refine ⟨_, e', removed, edited, ?_⟩
      simp [removes, apart.symm]
    case isFalse neither =>
      obtain ⟨e', done, moved⟩ := on.motion byte
      refine ⟨false, e', ?_, moved.edited false, ?_⟩
      · rw [done]
        rfl
      · simp [other, neither]

theorem insertByte (world : World) (insert : e.mode = .insert) (byte : UInt8) :
    ∃ changed e', e.handleByte world byte = some (changed, e') ∧ e.Edited lines changed e' := by
  unfold Editor.handleByte
  rw [insert]
  dsimp only
  split
  · obtain ⟨e', broken, edited⟩ := on.breakLine world
    exact ⟨_, e', broken, edited⟩
  case isFalse typed =>
    split
    · exact on.erase
    · exact on.insertHere world typed

theorem handleByte (world : World) (byte : UInt8) :
    ∃ changed e', e.handleByte world byte = some (changed, e') ∧ e.Edited lines changed e' := by
  cases mode : e.mode with
  | normal =>
    obtain ⟨changed, e', handled, edited, -⟩ := on.normalByte world mode byte
    exact ⟨changed, e', handled, edited⟩
  | insert => exact on.insertByte world mode byte
  | command =>
    refine ⟨false, e, ?_, on.moved_refl.edited false⟩
    unfold Editor.handleByte
    rw [mode]

end On

end Editor

end Zaytos.Zi
