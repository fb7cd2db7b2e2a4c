import Zaytos.Zi.Characters

set_option autoImplicit false

/-! What each key does to the place of the cursor in a valid text. -/
namespace Zaytos.Zi

open Terminal (IsUtf8 WalkPosition lineEnd nextBoundary prevBoundary)

namespace Editor

variable {e e' : Editor} {lines : List (List UInt8)} {line : List UInt8} {world : World}
  {byte : UInt8} {row col : Nat}

/-- The lines are valid, the cursor is where a character begins, and on a character unless bytes are
being inserted. -/
structure Whole (e : Editor) (lines : List (List UInt8)) (line : List UInt8) : Prop where
  holds : e.buffer.Holds lines
  valid : ∀ line ∈ lines, IsUtf8 line
  here : lines[e.row]? = some line
  walk : WalkPosition line e.col
  last : e.mode ≠ .insert → ToLast line e.col

def Intact (e : Editor) : Prop := ∃ lines line, e.Whole lines line

def rowUp (e : Editor) : Option Nat := if e.row = 0 then none else some (e.row - 1)

def rowDown (e : Editor) : Option Nat :=
  if e.buffer.count ≤ e.row + 1 then none else some (e.row + 1)

/-- The row to which a byte moves the cursor, of which one moves it up and another down. -/
def rowOf (e : Editor) (up down byte : UInt8) : Option Nat :=
  if byte = up then e.rowUp else if byte = down then e.rowDown else none

def LandsDeep (e : Editor) (row : Option Nat) (col : Nat) : Prop :=
  ∃ r line, row = some r ∧ e.buffer.line r = some line ∧ Deep line col

namespace Whole

variable (whole : e.Whole lines line)
include whole

theorem on : e.On lines line := ⟨whole.holds, whole.here, whole.walk.le_length⟩

theorem lineValid : IsUtf8 line := whole.valid line (List.mem_of_getElem? whole.here)

theorem moved (walk : WalkPosition line col) (mode : Mode)
    (last : mode ≠ .insert → ToLast line col) :
    Whole { e with col, mode } lines line :=
  ⟨whole.holds, whole.valid, whole.here, walk, last⟩

theorem atLast (mode : Mode) (walk : WalkPosition line col) (last : ToLast line col) :
    Whole { e with col, mode } lines line := whole.moved walk mode fun _ => last

theorem other {escape : Escape} {command : List UInt8} {dirty ended : Bool}
    {saved : List UInt8} {calls : Nat} :
    Whole { e with escape, command, dirty, saved, calls, ended } lines line :=
  ⟨whole.holds, whole.valid, whole.here, whole.walk, whole.last⟩

theorem prev : ∃ back, prevBoundary line e.col = some back ∧ WalkPosition line back ∧
    back ≤ e.col ∧ (0 < e.col → back < e.col) := by
  obtain ⟨back, moved, le, before⟩ := prevBoundary_spec whole.walk.le_length
  exact ⟨back, moved, whole.walk.prev moved, le, before⟩

theorem moveLeft : ∃ e', e.moveLeft = some e' ∧ e'.Whole lines line := by
  obtain ⟨back, moved, walk, le, -⟩ := whole.prev
  unfold Editor.moveLeft
  rw [whole.on.line_eq]
  simp only [Option.bind_eq_bind, Option.bind_some]
  by_cases first : e.col = 0
  · rw [if_pos first]
    exact ⟨e, rfl, whole⟩
  · rw [if_neg first, moved]
    refine ⟨_, rfl, whole.moved walk e.mode ?_⟩
    intro other
    obtain ⟨last, ends, below⟩ := whole.last other
    exact ⟨last, ends, le.trans below⟩

theorem moveRight : ∃ e', e.moveRight = some e' ∧ e'.Whole lines line := by
  obtain ⟨last, ends, character⟩ := Terminal.lineEnd_last line
  have ends' : prevBoundary line line.length = some last := ends
  have limited : ∃ limit, e.rightLimit line = some limit ∧ (e.mode ≠ .insert → limit = last) := by
    unfold rightLimit
    by_cases insert : e.mode = .insert
    · rw [if_pos insert]
      exact ⟨line.length, rfl, fun other => absurd insert other⟩
    · rw [if_neg insert]
      exact ⟨last, ends', fun _ => rfl⟩
  obtain ⟨limit, limited, normal⟩ := limited
  unfold Editor.moveRight
  rw [whole.on.line_eq]
  simp only [Option.bind_eq_bind, Option.bind_some]
  rw [limited, Option.bind_some]
  split
  · exact ⟨e, rfl, whole⟩
  split
  · exact ⟨e, rfl, whole⟩
  case isFalse within =>
    refine ⟨_, rfl, whole.moved whole.walk.next e.mode ?_⟩
    intro other
    refine ⟨last, ends, ?_⟩
    rw [← normal other]
    exact Nat.le_of_not_lt within

theorem moveToRow (inside : row < lines.length)
    (fair : ∀ line, e.buffer.line row = some line → ¬ Deep line e.col) :
    ∃ e', e.moveToRow row = some e' ∧ e'.Intact := by
  have there := whole.holds.line_eq inside
  obtain ⟨c, clamped, walk, last⟩ :=
    clampColumn_walk (whole.valid _ (List.getElem_mem inside)) (fair _ there)
  unfold Editor.moveToRow
  rw [there, Option.bind_eq_bind, Option.bind_some, clamped]
  exact ⟨_, rfl, lines, lines[row], whole.holds, whole.valid, List.getElem?_eq_getElem inside, walk,
    fun _ => last⟩

theorem intact : e.Intact := ⟨lines, line, whole⟩

theorem moveUp (fair : ¬ e.LandsDeep e.rowUp e.col) : ∃ e', e.moveUp = some e' ∧ e'.Intact := by
  have inside := whole.on.inside
  unfold Editor.moveUp
  unfold rowUp at fair
  by_cases first : e.row = 0
  · rw [if_pos first]
    exact ⟨e, rfl, whole.intact⟩
  · rw [if_neg first] at fair ⊢
    apply whole.moveToRow (by omega)
    intro other found deep
    exact fair ⟨_, other, rfl, found, deep⟩

theorem moveDown (fair : ¬ e.LandsDeep e.rowDown e.col) :
    ∃ e', e.moveDown = some e' ∧ e'.Intact := by
  have count := whole.holds.count
  unfold Editor.moveDown
  unfold rowDown at fair
  by_cases last : e.buffer.count ≤ e.row + 1
  · rw [if_pos last]
    exact ⟨e, rfl, whole.intact⟩
  · rw [if_neg last] at fair ⊢
    apply whole.moveToRow (by omega)
    intro other found deep
    exact fair ⟨_, other, rfl, found, deep⟩

theorem moveToLineEnd : ∃ e', e.moveToLineEnd = some e' ∧ e'.Whole lines line := by
  obtain ⟨last, ends, character⟩ := Terminal.lineEnd_last line
  unfold Editor.moveToLineEnd
  rw [whole.on.line_eq, Option.bind_eq_bind, Option.bind_some, ends]
  exact ⟨_, rfl, whole.atLast e.mode character.walk ⟨last, ends, le_rfl⟩⟩

theorem moveToFirstNonblank : ∃ e', e.moveToFirstNonblank = some e' ∧ e'.Whole lines line := by
  obtain ⟨p, found, walk, last⟩ := firstNonblank_last line
  unfold Editor.moveToFirstNonblank
  rw [whole.on.line_eq, Option.bind_eq_bind, Option.bind_some, found]
  exact ⟨_, rfl, whole.atLast e.mode walk last⟩

theorem enterAppend : ∃ e', e.enterAppend = some e' ∧ e'.mode = .insert ∧ e'.Whole lines line := by
  unfold Editor.enterAppend
  rw [whole.on.line_eq, Option.bind_eq_bind, Option.bind_some]
  refine ⟨_, rfl, rfl, whole.moved ?_ .insert fun other => absurd rfl other⟩
  split
  · exact whole.walk.next
  · exact whole.walk

theorem append : ∃ e', (e.moveToLineEnd.bind fun e => e.enterAppend) = some e' ∧
    e'.mode = .insert ∧ e'.Whole lines line := by
  obtain ⟨e₁, moved, whole₁⟩ := whole.moveToLineEnd
  rw [moved, Option.bind_some]
  exact whole₁.enterAppend

theorem motion (byte : UInt8) (fair : ¬ e.LandsDeep (e.rowOf 'k'.toUInt8 'j'.toUInt8 byte) e.col) :
    ∃ e', e.motion byte = some e' ∧ e'.Intact := by
  have stays : ∀ {made : Option Editor}, (∃ e', made = some e' ∧ e'.Whole lines line) →
      ∃ e', made = some e' ∧ e'.Intact := by
    intro made found
    obtain ⟨e', eq, whole'⟩ := found
    exact ⟨e', eq, whole'.intact⟩
  unfold Editor.motion
  split
  · exact stays whole.moveLeft
  split
  case isTrue down =>
    rw [rowOf, down, if_neg (by decide), if_pos rfl] at fair
    exact whole.moveDown fair
  split
  case isTrue up =>
    rw [rowOf, up, if_pos rfl] at fair
    exact whole.moveUp fair
  split
  · exact stays whole.moveRight
  split
  · exact ⟨_, rfl, (whole.moved whole.walk .insert fun other => absurd rfl other).intact⟩
  split
  · obtain ⟨e', entered, -, whole'⟩ := whole.enterAppend
    exact ⟨e', entered, whole'.intact⟩
  split
  · exact stays whole.moveToLineEnd
  split
  · exact stays whole.moveToFirstNonblank
  split
  · obtain ⟨e', entered, -, whole'⟩ := whole.append
    exact ⟨e', entered, whole'.intact⟩
  · exact ⟨e, rfl, whole.intact⟩

theorem arrow (byte : UInt8) (fair : ¬ e.LandsDeep (e.rowOf 'A'.toUInt8 'B'.toUInt8 byte) e.col) :
    ∃ e', e.arrow byte = some e' ∧ e'.Intact := by
  unfold Editor.arrow
  split
  case isTrue up =>
    rw [rowOf, up, if_pos rfl] at fair
    exact whole.moveUp fair
  split
  case isTrue down =>
    rw [rowOf, down, if_neg (by decide), if_pos rfl] at fair
    exact whole.moveDown fair
  split
  · obtain ⟨e', done, whole'⟩ := whole.moveRight
    exact ⟨e', done, whole'.intact⟩
  split
  · obtain ⟨e', done, whole'⟩ := whole.moveLeft
    exact ⟨e', done, whole'.intact⟩
  · exact ⟨e, rfl, whole.intact⟩

theorem rebuffered {buffer : Buffer} (holds : buffer.Holds lines) (calls : Nat) :
    Whole { e with buffer, calls } lines line :=
  ⟨holds, whole.valid, whole.here, whole.walk, whole.last⟩

theorem removeHere (fair : ¬ (e.mode = .command ∧ 0 < e.col ∧ e.col < line.length ∧
    nextBoundary line e.col = line.length)) :
    ∃ removed e', e.removeHere = some (removed, e') ∧ e'.Intact := by
  obtain ⟨inside, same⟩ := List.getElem?_eq_some_iff.mp whole.here
  obtain ⟨ok, buffer, removed, after⟩ := Buffer.remove_spec whole.holds inside e.col
  have there := Buffer.remove_ok whole.holds inside removed
  rw [same] at there
  unfold Editor.removeHere
  rw [removed, Option.bind_eq_bind, Option.bind_some]
  cases ok with
  | false =>
    simp only [Bool.false_eq_true, false_and, if_false]
    exact ⟨_, _, rfl, (whole.rebuffered after e.calls).intact⟩
  | true =>
    have some' : e.col < line.length := of_decide_eq_true there.symm
    obtain ⟨lines', applied, holds⟩ := after
    obtain ⟨⟨valid, line', here, walk⟩, line'', here', more⟩ :=
      remove_lands whole.valid whole.here whole.walk applied
    cases here.symm.trans here'
    have on' : On { e with buffer } lines' line' := ⟨holds, here, walk.le_length⟩
    have kept : (e.mode ≠ .insert → ToLast line' e.col) → Whole { e with buffer } lines' line' :=
      fun last => ⟨holds, valid, here, walk, last⟩
    simp only [true_and]
    by_cases normal : e.mode = .normal
    · rw [if_pos normal, show buffer.line e.row = some line' from on'.line_eq, Option.bind_eq_bind,
        Option.bind_some]
      by_cases past : line'.length ≤ e.col
      · obtain ⟨last, ends, character⟩ := Terminal.lineEnd_last line'
        have ends' : prevBoundary line' line'.length = some last := ends
        rw [if_pos past, ends']
        exact ⟨_, _, rfl, lines', line', holds, valid, here, character.walk,
          fun _ => ⟨last, ends, le_rfl⟩⟩
      · rw [if_neg past]
        exact ⟨_, _, rfl, lines', line', kept fun _ => toLast_of_lt walk (Nat.lt_of_not_le past)⟩
    · rw [if_neg normal]
      refine ⟨_, _, rfl, lines', line', kept ?_⟩
      intro other
      have command : e.mode = .command := by
        cases mode : e.mode with
        | normal => exact absurd mode normal
        | insert => exact absurd mode other
        | command => rfl
      by_cases first : e.col = 0
      · rw [first]
        exact toLast_zero line'
      · have fits := nextBoundary_le whole.walk.le_length
        apply toLast_of_lt walk
        apply more
        by_contra whole'
        exact fair ⟨command, Nat.pos_of_ne_zero first, some', by omega⟩

theorem breakLine (world : World) :
    ∃ broken e', e.breakLine world = some (broken, e') ∧ e'.Intact := by
  obtain ⟨inside, same⟩ := List.getElem?_eq_some_iff.mp whole.here
  obtain ⟨ok, buffer, split', after⟩ :=
    Buffer.splitLine_spec whole.holds (world.heap e.calls) inside e.col
  unfold Editor.breakLine
  rw [split', Option.bind_eq_bind, Option.bind_some]
  cases ok with
  | false => exact ⟨_, _, rfl, (whole.rebuffered after _).intact⟩
  | true =>
    obtain ⟨lines', applied, holds⟩ := after
    obtain ⟨valid, line', here, walk⟩ := splitLine_lands whole.valid whole.here whole.walk applied
    exact ⟨_, _, rfl, lines', line', holds, valid, here, walk, fun _ => toLast_zero line'⟩

theorem erase (insert : e.mode = .insert) :
    ∃ erased e', e.erase = some (erased, e') ∧ e'.Intact := by
  obtain ⟨inside, same⟩ := List.getElem?_eq_some_iff.mp whole.here
  have free : ∀ {line : List UInt8} {col : Nat}, e.mode ≠ .insert → ToLast line col :=
    fun other => absurd insert other
  unfold Editor.erase
  split
  case isTrue behind =>
    obtain ⟨back, moved, walk, -⟩ := whole.prev
    obtain ⟨ok, buffer, removed, after⟩ := Buffer.remove_spec whole.holds inside back
    rw [whole.on.line_eq]
    simp only [Option.bind_eq_bind, Option.bind_some]
    rw [moved, Option.bind_some, removed, Option.bind_some]
    cases ok with
    | false => exact ⟨false, _, rfl, (whole.rebuffered after e.calls).intact⟩
    | true =>
      obtain ⟨lines', applied, holds⟩ := after
      obtain ⟨⟨valid, line', here, walk'⟩, -⟩ := remove_lands whole.valid whole.here walk applied
      exact ⟨true, _, rfl, lines', line', holds, valid, here, walk', free⟩
  case isFalse first =>
    split
    · exact ⟨false, e, rfl, whole.intact⟩
    case isFalse below =>
      have above : e.row - 1 < lines.length := by omega
      obtain ⟨ok, buffer, joined, after⟩ := Buffer.joinWithNext_spec whole.holds above
      rw [whole.holds.length_eq above]
      simp only [Option.bind_eq_bind, Option.bind_some]
      rw [joined, Option.bind_some]
      cases ok with
      | false => exact ⟨false, _, rfl, (whole.rebuffered after e.calls).intact⟩
      | true =>
        obtain ⟨lines', applied, holds⟩ := after
        obtain ⟨valid, line', here, walk'⟩ :=
          joinWithNext_lands whole.valid (List.getElem?_eq_getElem above) applied
        exact ⟨true, _, rfl, lines', line', holds, valid, here, walk', free⟩

theorem insertHere (world : World) (insert : e.mode = .insert) (typed : byte ≠ newline)
    (small : byte < 0x80) :
    ∃ inserted e', e.insertHere world byte = some (inserted, e') ∧ e'.Intact := by
  obtain ⟨inside, same⟩ := List.getElem?_eq_some_iff.mp whole.here
  obtain ⟨ok, buffer, inserted, after⟩ :=
    Buffer.insert_spec whole.holds (world.heap e.calls) inside e.col typed
  unfold Editor.insertHere
  rw [inserted, Option.bind_eq_bind, Option.bind_some]
  cases ok with
  | false => exact ⟨false, _, rfl, (whole.rebuffered after _).intact⟩
  | true =>
    obtain ⟨lines', applied, holds⟩ := after
    obtain ⟨valid, line', here, walk⟩ :=
      insert_lands whole.valid whole.here whole.walk small applied
    exact ⟨true, _, rfl, lines', line', holds, valid, here, walk, fun other => absurd insert other⟩

theorem normalByte (world : World) (normal : e.mode = .normal) (byte : UInt8)
    (fair : ¬ e.LandsDeep (e.rowOf 'k'.toUInt8 'j'.toUInt8 byte) e.col) :
    ∃ changed e', e.handleByte world byte = some (changed, e') ∧ e'.Intact := by
  unfold Editor.handleByte
  rw [normal]
  dsimp only
  split
  · obtain ⟨e₁, appended, -, whole₁⟩ := whole.append
    obtain ⟨broken, e₂, done, intact⟩ := whole₁.breakLine world
    refine ⟨broken, e₂, ?_, intact⟩
    simp only [Option.bind_eq_bind]
    rw [← Option.bind_assoc, appended, Option.bind_some, done]
  split
  · apply whole.removeHere
    intro command
    cases normal.symm.trans command.1
  · obtain ⟨e', done, intact⟩ := whole.motion byte fair
    exact ⟨false, e', by rw [done]; rfl, intact⟩

theorem insertByte (world : World) (insert : e.mode = .insert) (small : byte < 0x80) :
    ∃ changed e', e.handleByte world byte = some (changed, e') ∧ e'.Intact := by
  unfold Editor.handleByte
  rw [insert]
  dsimp only
  split
  · exact whole.breakLine world
  case isFalse typed =>
    split
    · exact whole.erase insert
    · exact whole.insertHere world insert typed small

theorem handleByte (world : World) (small : byte < 0x80)
    (fair : e.mode = .normal →
      ¬ e.LandsDeep (e.rowOf 'k'.toUInt8 'j'.toUInt8 byte) e.col) :
    ∃ changed e', e.handleByte world byte = some (changed, e') ∧ e'.Intact := by
  cases mode : e.mode with
  | normal => exact whole.normalByte world mode byte (fair mode)
  | insert => exact whole.insertByte world mode small
  | command =>
    refine ⟨false, e, ?_, whole.intact⟩
    unfold Editor.handleByte
    rw [mode]

theorem resolve : ∃ col, (if e.mode = .insert then prevBoundary line e.col else some e.col) =
      some col ∧ ∃ e₁, Editor.finishPendingEscape { e with escape := .idle } = some e₁ ∧
        e₁ = { e with
          escape := .idle, mode := if e.mode = .insert then .normal else e.mode, col } ∧
        e₁.Whole lines line := by
  have idle : Whole { e with escape := .idle } lines line := whole.other
  unfold Editor.finishPendingEscape
  by_cases insert : e.mode = .insert
  · obtain ⟨back, moved, walk, le, before⟩ := whole.prev
    have line_eq : e.buffer.line e.row = some line := whole.on.line_eq
    refine ⟨back, ?_, _, ?_, rfl, ?_⟩
    · rw [if_pos insert, moved]
    · dsimp only
      rw [if_pos insert, if_pos insert, line_eq, Option.bind_eq_bind, Option.bind_some, moved]
      rfl
    · have last : ToLast line back := by
        by_cases first : e.col = 0
        · have zero : back = 0 := by omega
          rw [zero]
          exact toLast_zero line
        · have le := whole.walk.le_length
          have before := before (Nat.pos_of_ne_zero first)
          exact toLast_of_lt walk (by omega)
      exact idle.atLast _ walk last
  · refine ⟨e.col, if_neg insert, _, ?_, rfl, ?_⟩
    · dsimp only
      rw [if_neg insert, if_neg insert]
    · rw [if_neg insert]
      exact idle

theorem runCommand (world : World) : ∃ outcome e', e.runCommand world = some (outcome, e') ∧
    e'.Whole lines line ∧ e'.mode = e.mode := by
  obtain ⟨outcome, e', ran, same, -⟩ := whole.on.runCommand world
  refine ⟨outcome, e', ran, ?_, ?_⟩
  · rw [same]
    exact ⟨whole.holds, whole.valid, whole.here, whole.walk, whole.last⟩
  · rw [same]

theorem commandByte (world : World) (byte : UInt8) (command : e.mode = .command) :
    ∃ e', e.commandByte world byte = some e' ∧ e'.Intact := by
  have last : ToLast line e.col := whole.last (by rw [command]; exact nofun)
  unfold Editor.commandByte
  split
  · obtain ⟨outcome, e', ran, whole', mode⟩ := whole.runCommand world
    have last' : ToLast line e'.col := whole'.last (by rw [mode, command]; exact nofun)
    have there : ∀ dirty ended, Intact
        { e' with command := [], mode := .normal, dirty, ended } := fun dirty ended =>
      ⟨lines, line, whole'.holds, whole'.valid, whole'.here, whole'.walk, fun _ => last'⟩
    rw [ran, Option.bind_eq_bind, Option.bind_some]
    cases outcome with
    | quit => exact ⟨_, rfl, there _ true⟩
    | saved => exact ⟨_, rfl, there false _⟩
    | failed => exact ⟨_, rfl, there _ _⟩
    | refused => exact ⟨_, rfl, there _ _⟩
  · have kept : ∀ mode command, Whole { e with mode, command } lines line :=
      fun mode command => ⟨whole.holds, whole.valid, whole.here, whole.walk, fun _ => last⟩
    split
    · exact ⟨_, rfl, (kept _ _).intact⟩
    split
    · exact ⟨_, rfl, (kept _ _).intact⟩
    · exact ⟨_, rfl, whole.intact⟩

theorem typed (world : World) (small : byte < 0x80) (fair : e.mode = .normal →
      ¬ e.LandsDeep (e.rowOf 'k'.toUInt8 'j'.toUInt8 byte) e.col) :
    ∃ e', e.typed world byte = some e' ∧ e'.Intact := by
  unfold Editor.typed
  split
  case isTrue command => exact whole.commandByte world byte command
  split
  case isTrue begins =>
    have last : ToLast line e.col := whole.last (by rw [begins.1]; exact nofun)
    exact ⟨_, rfl, lines, line, whole.holds, whole.valid, whole.here, whole.walk, fun _ => last⟩
  · obtain ⟨changed, e', handled, lines', line', whole'⟩ := whole.handleByte world small fair
    rw [handled, Option.bind_eq_bind, Option.bind_some]
    exact ⟨_, rfl, lines', line', whole'.other⟩

end Whole

end Editor

end Zaytos.Zi
