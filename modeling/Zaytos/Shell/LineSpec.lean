import Mathlib.Data.List.Induction
import Zaytos.Shell.Editor

set_option autoImplicit false

/-! The loop of the shell does what the editor does: its buffer is the text, its cursor the
insertion point, no slice leaves a buffer, and what each key writes is a matter of the text around
the insertion point alone. -/
namespace Zaytos.Shell

open Slices

/-- The lines that `history_at` finds, from the latest. -/
def recalled (s : Shell) : List (List UInt8) :=
  (List.range (min s.historyCount historyMax)).map fun k =>
    ((s.historyAt (k + 1)).map fun entry => entry.line.take entry.length).getD []

structure Sized (s : Shell) : Prop where
  line : s.line.length = lineMax
  saved : s.saved.length = lineMax
  history : s.history.length = historyMax
  entries : ∀ entry ∈ s.history, entry.line.length = lineMax ∧ entry.length ≤ lineMax

structure Holds (s : Shell) (e : Editor) : Prop where
  sized : s.Sized
  line : ∃ junk, s.line = e.before ++ (e.behind ++ junk)
  length : s.length = e.text.length
  cursor : s.cursor = e.before.length
  room : e.text.length < lineMax
  back : s.historyBack = e.back
  saved : ∃ junk, s.saved = e.draft ++ junk
  savedLength : s.savedLength = e.draft.length
  draft : e.draft.length < lineMax
  history : s.recalled = e.history

def Edits (s : Shell) (turn : Option (Shell × List UInt8)) (e : Editor) (written : List UInt8) :
    Prop :=
  ∃ t, turn = some (t, written) ∧ t.Holds e ∧ t.escape = s.escape

/-- What is written to take the last bytes of what is before the insertion point, and the first
behind it, off the screen. -/
def erasure (rest : List UInt8) (last first : Nat) : List UInt8 :=
  if last + first = 0 then []
  else List.replicate last backspace ++ rest ++ List.replicate (last + first) space ++
    List.replicate (rest.length + (last + first)) backspace

variable {s : Shell} {e : Editor}

theorem Holds.text_length (_ : s.Holds e) : e.text.length = e.before.length + e.behind.length := by
  simp [Editor.text]

theorem Holds.edits_nothing (holds : s.Holds e) : s.Edits (some (s, [])) e [] :=
  ⟨s, rfl, holds, rfl⟩

theorem writeIf_eq {given : Prop} [Decidable given] {part : Option (List UInt8)}
    {written : List UInt8} (same : part = some written) (empty : ¬ given → written = []) :
    writeIf given part = some written := by
  unfold writeIf
  split
  case isTrue => exact same
  case isFalse without => rw [empty without]

variable {count k : Nat} {byte : UInt8} {turn : Option (Shell × List UInt8)} {part : List UInt8}

theorem slice_backspaces (few : count ≤ lineMax) :
    slice backspaces 0 count = some (List.replicate count backspace) :=
  slice_replicate few

theorem slice_spaces (few : count ≤ lineMax) :
    slice spaces 0 count = some (List.replicate count space) :=
  slice_replicate few

theorem Holds.moved (holds : s.Holds e) {before behind : List UInt8}
    (same : before ++ behind = e.text) :
    Holds { s with cursor := before.length } { e with before, behind } := by
  obtain ⟨junk, line⟩ := holds.line
  exact { holds with
    sized := { holds.sized with }
    line := ⟨junk, by rw [line, ← List.append_assoc, ← List.append_assoc, same]; rfl⟩
    length := by rw [holds.length, ← same]; rfl
    cursor := rfl
    room := by simpa only [Editor.text, same] using holds.room }

theorem Holds.moveLeft (holds : s.Holds e) :
    s.Edits s.moveLeft e.toLeft (List.replicate (min 1 e.before.length) backspace) := by
  have cursor := holds.cursor
  unfold Shell.moveLeft
  rcases List.eq_nil_or_concat e.before with empty | ⟨before, byte, last⟩
  · rw [if_neg (by simp [cursor, empty])]
    simpa [Editor.toLeft, empty] using holds.edits_nothing
  · rw [List.concat_eq_append] at last
    have left : e.toLeft = { e with before, behind := byte :: e.behind } := by
      simp [Editor.toLeft, last]
    have stepped : s.cursor - 1 = before.length := by simp [cursor, last]
    rw [if_pos (by simp [cursor, last]), left, stepped]
    refine ⟨_, ?_, holds.moved ?_, rfl⟩
    · simp [last]
    · simp [Editor.text, last]

theorem Holds.moveRight (holds : s.Holds e) :
    s.Edits s.moveRight e.toRight (e.behind.take 1) := by
  have cursor := holds.cursor
  have length := holds.length
  obtain ⟨junk, line⟩ := holds.line
  unfold Shell.moveRight
  cases next : e.behind with
  | nil =>
    rw [if_neg (by simp [cursor, length, Editor.text, next])]
    simpa [Editor.toRight, next] using holds.edits_nothing
  | cons byte behind =>
    have right : e.toRight = { e with before := e.before ++ [byte], behind } := by
      simp [Editor.toRight, next]
    have stepped : s.cursor + 1 = (e.before ++ [byte]).length := by simp [cursor]
    have sliced : slice s.line s.cursor (s.cursor + 1) = some [byte] := by
      rw [line, next, cursor]
      exact slice_append e.before [byte] (behind ++ junk)
    rw [if_pos (by simp [cursor, length, Editor.text, next]), sliced, right, stepped]
    refine ⟨_, rfl, holds.moved ?_, rfl⟩
    simp [Editor.text, next]

theorem Holds.moveToStart (holds : s.Holds e) :
    s.Edits s.moveToStart e.toStart (List.replicate e.before.length backspace) := by
  have cursor := holds.cursor
  have room := holds.room
  rw [holds.text_length] at room
  have moved := holds.moved (show [] ++ e.text = e.text from rfl)
  unfold Shell.moveToStart
  by_cases first : s.cursor = 0
  · have same : { s with cursor := 0 } = s := by
      rw [← first]
    rw [if_pos first, ← cursor, first]
    exact ⟨s, rfl, same ▸ moved, rfl⟩
  · rw [if_neg first, slice_backspaces (by omega), cursor]
    exact ⟨_, rfl, moved, rfl⟩

theorem Holds.moveToEnd (holds : s.Holds e) : s.Edits s.moveToEnd e.toEnd e.behind := by
  have cursor := holds.cursor
  have length := holds.length
  have total := holds.text_length
  obtain ⟨junk, line⟩ := holds.line
  have moved := holds.moved (List.append_nil _)
  unfold Shell.moveToEnd
  by_cases last : s.length ≤ s.cursor
  · have empty : e.behind = [] := List.length_eq_zero_iff.mp (by omega)
    have same : { s with cursor := e.text.length } = s := by
      have there : e.text.length = s.cursor := by omega
      rw [there]
    rw [if_pos last, empty]
    exact ⟨s, rfl, same ▸ moved, rfl⟩
  · have sliced : slice s.line s.cursor s.length = some e.behind := by
      rw [line, cursor, length, total]
      exact slice_append e.before e.behind junk
    rw [if_neg last, sliced]
    exact ⟨_, rfl, length ▸ moved, rfl⟩

theorem Holds.deleteRange (holds : s.Holds e) {last first : Nat} (had : last ≤ e.before.length)
    (has : first ≤ e.behind.length) :
    s.Edits (s.deleteRange (e.before.length - last) (e.before.length + first))
      (e.erase last first) (erasure (e.behind.drop first) last first) := by
  have cursor := holds.cursor
  have length := holds.length
  have total := holds.text_length
  have room := holds.room
  obtain ⟨junk, line⟩ := holds.line
  unfold Shell.deleteRange erasure
  by_cases none : last + first = 0
  · have zero : last = 0 ∧ first = 0 := by omega
    rw [if_pos (by omega), if_pos none]
    simpa [Editor.erase, zero] using holds.edits_nothing
  · generalize kept : e.before.take (e.before.length - last) = before
    generalize cut : e.before.drop (e.before.length - last) = passed
    generalize gone : e.behind.take first = more
    generalize stays : e.behind.drop first = rest
    have beforeSplit : e.before = before ++ passed := by
      rw [← kept, ← cut, List.take_append_drop]
    have behindSplit : e.behind = more ++ rest := by
      rw [← gone, ← stays, List.take_append_drop]
    have overLength : passed.length = last := by
      rw [← cut, List.length_drop]
      omega
    have moreLength : more.length = first := by
      rw [← gone, List.length_take]
      omega
    have beforeLength : e.before.length = before.length + last := by
      rw [beforeSplit, List.length_append, overLength]
    have behindLength : e.behind.length = first + rest.length := by
      rw [behindSplit, List.length_append, moreLength]
    have start : e.before.length - last = before.length := by omega
    have shape : s.line = before ++ ((passed ++ more) ++ (rest ++ junk)) := by
      rw [line, beforeSplit, behindSplit]
      simp
    obtain ⟨junk', copied⟩ := copyWithin_back before (passed ++ more) rest junk
    have stop : before.length + (passed ++ more).length = e.before.length + first := by
      rw [List.length_append]
      omega
    have whole : e.before.length + first + rest.length = s.length := by omega
    rw [stop, whole, ← shape] at copied
    have removed : e.before.length + first - before.length = last + first := by omega
    have left : s.length - (last + first) = before.length + rest.length := by omega
    have tail : before.length + rest.length - before.length = rest.length := by omega
    have back : writeIf (before.length < s.cursor) (slice backspaces 0 (s.cursor - before.length)) =
        some (List.replicate last backspace) := by
      apply writeIf_eq
      · rw [slice_backspaces (by omega), cursor, beforeLength, Nat.add_sub_cancel_left]
      · intro
        simp
        omega
    have text : writeIf (0 < rest.length)
        (slice (before ++ (rest ++ junk')) before.length (before.length + rest.length)) =
        some rest := by
      apply writeIf_eq
      · exact slice_append before rest junk'
      · intro empty
        exact List.length_eq_zero_iff.mp (by omega)
    rw [if_neg (by omega), start]
    dsimp only
    rw [back, removed, left, tail, copied]
    simp only [Option.bind_eq_bind, Option.bind_some]
    rw [text, slice_spaces (by omega), slice_backspaces (by omega), if_neg none]
    refine ⟨_, rfl, ?_, rfl⟩
    have erased : e.erase last first = { e with before, behind := rest } := by
      rw [Editor.erase, kept, stays]
    have size : before.length + rest.length < lineMax := by omega
    rw [erased]
    exact { holds with
      sized := { holds.sized with
        line := (length_copyWithin copied).trans holds.sized.line }
      line := ⟨junk', rfl⟩
      length := by simp [Editor.text]
      cursor := rfl
      room := by simpa [Editor.text] using size }

theorem Holds.deleteRange_past (holds : s.Holds e) (none : e.behind = []) :
    s.Edits (s.deleteRange s.cursor (s.cursor + 1)) e [] := by
  have cursor := holds.cursor
  have length := holds.length
  have total := holds.text_length
  rw [none, List.length_nil] at total
  unfold Shell.deleteRange
  rw [if_pos (by omega)]
  exact holds.edits_nothing

theorem skipBack_eq (kind : UInt8 → Bool) (before rest : List UInt8) :
    skipBack (before ++ rest) kind before.length =
      some (before.reverse.dropWhile kind).length := by
  induction before using List.reverseRecOn generalizing rest with
  | nil => rfl
  | append_singleton before byte ih =>
    have last : (before ++ [byte] ++ rest)[before.length]? = some byte := by simp
    rw [List.length_append, List.length_singleton, skipBack, last, Option.bind_eq_bind,
      Option.bind_some, List.reverse_append, List.reverse_singleton, List.singleton_append,
      List.dropWhile_cons]
    split
    case isTrue => rw [List.append_assoc, ih]
    case isFalse => simp

theorem wordStart_eq (before rest : List UInt8) :
    wordStart (before ++ rest) before.length =
      some ((before.reverse.dropWhile (· == space)).dropWhile (· != space)).length := by
  have split : before = (before.reverse.dropWhile (· == space)).reverse ++
      (before.reverse.takeWhile (· == space)).reverse := by
    rw [← List.reverse_append, List.takeWhile_append_dropWhile, List.reverse_reverse]
  have second := skipBack_eq (· != space) (before.reverse.dropWhile (· == space)).reverse
    ((before.reverse.takeWhile (· == space)).reverse ++ rest)
  rw [← List.append_assoc, ← split, List.length_reverse, List.reverse_reverse] at second
  rw [wordStart, skipBack_eq, Option.bind_eq_bind, Option.bind_some, second]

theorem Editor.word_le (e : Editor) : e.word ≤ e.before.length := by
  unfold Editor.word
  omega

theorem Holds.deleteWord (holds : s.Holds e) :
    s.Edits (do
      let start ← wordStart s.line s.cursor
      s.deleteRange start s.cursor) (e.erase e.word 0) (erasure e.behind e.word 0) := by
  obtain ⟨junk, line⟩ := holds.line
  have found : wordStart s.line s.cursor = some (e.before.length - e.word) := by
    have few : ((e.before.reverse.dropWhile (· == space)).dropWhile (· != space)).length ≤
        e.before.length := by
      have first := (List.dropWhile_sublist (· == space) (l := e.before.reverse)).length_le
      have second := (List.dropWhile_sublist (· != space)
        (l := e.before.reverse.dropWhile (· == space))).length_le
      rw [List.length_reverse] at first
      omega
    rw [line, holds.cursor, wordStart_eq, Editor.word]
    congr 1
    omega
  have deleted := holds.deleteRange e.word_le (Nat.zero_le e.behind.length)
  rw [found, Option.bind_eq_bind, Option.bind_some, holds.cursor]
  exact deleted

def insertion (byte : UInt8) (behind : List UInt8) : List UInt8 :=
  [byte] ++ redrawTailWithoutGap behind

theorem Holds.insertByte (holds : s.Holds e) (printable : ¬ byte < firstPrintable) :
    s.Edits (s.insertByte byte) (e.insert byte)
      (if e.text.length + 1 < lineMax then insertion byte e.behind else []) := by
  have cursor := holds.cursor
  have length := holds.length
  have total := holds.text_length
  have sized := holds.sized.line
  obtain ⟨junk, line⟩ := holds.line
  unfold Shell.insertByte Editor.insert
  rw [if_neg printable, sized, length]
  by_cases room : e.text.length + 1 < lineMax
  · have more : junk ≠ [] := by
      intro empty
      have size := congrArg List.length line
      rw [empty, sized] at size
      simp at size
      omega
    obtain ⟨first, junk', copied⟩ := copyWithin_on e.before e.behind junk more
    have put : write (e.before ++ (first :: (e.behind ++ junk'))) e.before.length [byte] =
        some (e.before ++ ([byte] ++ (e.behind ++ junk'))) :=
      write_append e.before [first] (e.behind ++ junk') rfl
    have tail : slice (e.before ++ ([byte] ++ (e.behind ++ junk'))) (e.before.length + 1)
        (e.text.length + 1) = some e.behind := by
      have cut := slice_append (e.before ++ [byte]) e.behind junk'
      rw [List.length_append, List.length_singleton, List.append_assoc] at cut
      rw [total, Nat.add_right_comm]
      exact cut
    rw [if_pos room, if_pos room, if_pos room, cursor, total, line, copied, Option.bind_eq_bind,
      Option.bind_some, put, Option.bind_some, ← total]
    dsimp only
    rw [tail]
    refine ⟨_, rfl, ?_, rfl⟩
    exact { holds with
      sized := { holds.sized with
        line := by
          have kept := length_copyWithin copied
          have kept' := length_write put
          rw [kept', kept, ← line, sized] }
      line := ⟨junk', by simp [Editor.retype]⟩
      length := by simp [Editor.retype, Editor.text]; omega
      cursor := by simp [Editor.retype]
      room := by simp [Editor.retype, Editor.text] at room ⊢; omega }
  · rw [if_neg room, if_neg room, if_neg room]
    refine ⟨_, rfl, ?_, rfl⟩
    exact { holds with
      sized := { holds.sized with }
      length := rfl }

def replacement (e : Editor) (new : List UInt8) : List UInt8 :=
  e.behind ++ (List.replicate e.text.length backspace ++ List.replicate e.text.length space ++
    List.replicate e.text.length backspace) ++ new

theorem Holds.replaceLine (holds : s.Holds e) {new : List UInt8} (few : new.length < lineMax) :
    s.Edits (s.replaceLine new) (e.retype new []) (replacement e new) := by
  obtain ⟨t, moved, atEnd, escape⟩ := holds.moveToEnd
  have room := holds.room
  have length : t.length = e.text.length := by
    rw [atEnd.length]
    simp [Editor.toEnd, Editor.text]
  have sized := atEnd.sized.line
  have back : writeIf (0 < t.length) (slice backspaces 0 t.length) =
      some (List.replicate e.text.length backspace) := by
    apply writeIf_eq
    · rw [length, slice_backspaces (by omega)]
    · intro empty
      have zero : e.text.length = 0 := by omega
      rw [zero]
      rfl
  have gap : writeIf (0 < t.length) (slice spaces 0 t.length) =
      some (List.replicate e.text.length space) := by
    apply writeIf_eq
    · rw [length, slice_spaces (by omega)]
    · intro empty
      have zero : e.text.length = 0 := by omega
      rw [zero]
      rfl
  have put : write t.line 0 new = some (new ++ t.line.drop new.length) := write_start (by omega)
  have shown : writeIf (0 < new.length) (slice (new ++ t.line.drop new.length) 0 new.length) =
      some new := by
    apply writeIf_eq
    · simpa using slice_append [] new (t.line.drop new.length)
    · intro empty
      exact List.length_eq_zero_iff.mp (by omega)
  rw [Shell.replaceLine, moved]
  simp only [Option.bind_eq_bind, Option.bind_some, back, gap, put, shown]
  refine ⟨_, rfl, ?_, escape⟩
  exact { atEnd with
    sized := { atEnd.sized with line := (length_write put).trans sized }
    line := ⟨_, rfl⟩
    length := by simp [Editor.retype, Editor.text]
    cursor := rfl
    room := by simpa [Editor.retype, Editor.text] using few
    back := atEnd.back
    saved := atEnd.saved
    savedLength := atEnd.savedLength
    draft := atEnd.draft
    history := atEnd.history }

theorem historyAt_none (past : s.recalled[k]? = none) : s.historyAt (k + 1) = none := by
  unfold Shell.recalled at past
  rw [List.getElem?_eq_none_iff, List.length_map, List.length_range] at past
  rw [Shell.historyAt, if_pos (by omega)]

theorem historyAt_some (sized : s.Sized) {line : List UInt8} (found : s.recalled[k]? = some line) :
    ∃ entry, s.historyAt (k + 1) = some entry ∧ slice entry.line 0 entry.length = some line := by
  obtain ⟨inside, same⟩ := List.getElem?_eq_some_iff.mp found
  have few : k < min s.historyCount historyMax := by
    simpa [Shell.recalled] using inside
  have slot : (s.historyCount - (k + 1)) % historyMax < s.history.length := by
    rw [sized.history]
    exact Nat.mod_lt _ (by decide)
  have there : s.historyAt (k + 1) = some s.history[(s.historyCount - (k + 1)) % historyMax] := by
    rw [Shell.historyAt, if_neg (by omega), List.getElem?_eq_getElem slot]
  obtain ⟨whole, bound⟩ := sized.entries _ (List.getElem_mem slot)
  refine ⟨_, there, ?_⟩
  rw [slice, if_pos ⟨Nat.zero_le _, by omega⟩, List.drop_zero, ← same]
  simp [Shell.recalled, there]

theorem Holds.goBack (holds : s.Holds e) (back : Nat) :
    Holds { s with historyBack := back } { e with back } :=
  { holds with
    sized := { holds.sized with }
    back := rfl }

theorem Holds.saveLine (holds : s.Holds e) :
    ∃ t, s.saveLine = some t ∧
      t.Holds { e with draft := if e.back = 0 then e.text else e.draft } ∧
      t.escape = s.escape := by
  have back := holds.back
  have length := holds.length
  have room := holds.room
  have sized := holds.sized.saved
  obtain ⟨junk, line⟩ := holds.line
  unfold Shell.saveLine
  by_cases typing : e.back = 0
  · have sliced : slice s.line 0 s.length = some e.text := by
      have cut := slice_append [] e.text junk
      rw [List.nil_append, List.length_nil, Nat.zero_add] at cut
      rw [line, length, ← List.append_assoc]
      exact cut
    have put : write s.saved 0 e.text = some (e.text ++ s.saved.drop e.text.length) :=
      write_start (by omega)
    rw [if_pos (back.trans typing), sliced, Option.bind_eq_bind, Option.bind_some, put,
      Option.bind_some, if_pos typing]
    refine ⟨_, rfl, ?_, rfl⟩
    exact { holds with
      sized := { holds.sized with saved := (length_write put).trans sized }
      saved := ⟨_, rfl⟩
      savedLength := length
      draft := room }
  · rw [if_neg (by omega), if_neg typing]
    exact ⟨s, rfl, holds, rfl⟩

def replayed (e : Editor) : Option (List UInt8) → List UInt8
  | none => []
  | some line => replacement e line

theorem Holds.historyPrevious (holds : s.Holds e)
    (few : ∀ line ∈ e.history[e.back]?, line.length < lineMax) :
    s.Edits s.historyPrevious e.older (replayed e e.history[e.back]?) := by
  unfold Shell.historyPrevious Editor.older
  rw [holds.back]
  cases found : e.history[e.back]? with
  | none =>
    rw [← holds.history] at found
    rw [historyAt_none found]
    exact holds.edits_nothing
  | some line =>
    rw [found] at few
    rw [← holds.history] at found
    obtain ⟨entry, there, sliced⟩ := historyAt_some holds.sized found
    obtain ⟨t, saved, holdsT, escape⟩ := holds.saveLine
    have back : t.historyBack = e.back := holdsT.back
    obtain ⟨u, replaced, holdsU, escapeU⟩ :=
      (holdsT.goBack (e.back + 1)).replaceLine (few line rfl)
    rw [there]
    dsimp only
    rw [saved, Option.bind_eq_bind, Option.bind_some, sliced, Option.bind_eq_bind,
      Option.bind_some, back, replaced]
    exact ⟨u, rfl, holdsU, escapeU.trans escape⟩

theorem Holds.historyNext (holds : s.Holds e)
    (few : 2 ≤ e.back → ∀ line ∈ e.history[e.back - 2]?, line.length < lineMax) :
    s.Edits s.historyNext e.newer
      (if e.back = 0 then []
      else if e.back = 1 then replacement e e.draft
      else replayed e e.history[e.back - 2]?) := by
  have back := holds.back
  have backed := holds.goBack (e.back - 1)
  obtain ⟨junk, saved⟩ := holds.saved
  unfold Shell.historyNext Editor.newer
  rw [back]
  by_cases typing : e.back = 0
  · rw [if_pos typing, if_pos typing, if_pos typing]
    exact holds.edits_nothing
  rw [if_neg typing, if_neg typing, if_neg typing]
  by_cases first : e.back = 1
  · have sliced : slice s.saved 0 s.savedLength = some e.draft := by
      rw [saved, holds.savedLength]
      simpa using slice_append [] e.draft junk
    have one : e.back - 1 = 0 := by omega
    rw [one] at backed
    obtain ⟨u, replaced, holdsU, escapeU⟩ := backed.replaceLine holds.draft
    dsimp only
    rw [one, if_pos rfl, sliced, if_pos first, if_pos first, Option.bind_eq_bind, Option.bind_some,
      replaced]
    exact ⟨u, rfl, holdsU, escapeU⟩
  · have step : e.back - 1 = e.back - 2 + 1 := by omega
    dsimp only
    rw [if_neg (by omega), if_neg first, if_neg first]
    cases found : e.history[e.back - 2]? with
    | none =>
      rw [← backed.history] at found
      rw [step, historyAt_none (step ▸ found), ← step]
      exact ⟨_, rfl, backed, rfl⟩
    | some line =>
      have short := few (by omega) line found
      rw [← backed.history] at found
      obtain ⟨entry, there, sliced⟩ := historyAt_some backed.sized found
      obtain ⟨u, replaced, holdsU, escapeU⟩ := backed.replaceLine short
      rw [← step] at there
      rw [there]
      dsimp only
      rw [sliced, Option.bind_eq_bind, Option.bind_some, replaced]
      exact ⟨u, rfl, holdsU, escapeU⟩

theorem Holds.redrawScreen (holds : s.Holds e) :
    s.redrawScreen = some (clearScreen ++ writePrompt s.colored ++ e.text ++
      List.replicate e.behind.length backspace) := by
  have cursor := holds.cursor
  have length := holds.length
  have total := holds.text_length
  have room := holds.room
  obtain ⟨junk, line⟩ := holds.line
  have text : writeIf (0 < s.length) (slice s.line 0 s.length) = some e.text := by
    apply writeIf_eq
    · have cut := slice_append [] e.text junk
      rw [List.nil_append, List.length_nil, Nat.zero_add] at cut
      rw [line, length, ← List.append_assoc]
      exact cut
    · intro empty
      exact List.length_eq_zero_iff.mp (by omega)
  have back : writeIf (s.cursor < s.length) (slice backspaces 0 (s.length - s.cursor)) =
      some (List.replicate e.behind.length backspace) := by
    have count : s.length - s.cursor = e.behind.length := by omega
    apply writeIf_eq
    · rw [count, slice_backspaces (by omega)]
    · intro empty
      have zero : e.behind.length = 0 := by omega
      rw [zero]
      rfl
  rw [Shell.redrawScreen, text, back]
  rfl

def keyed (s : Shell) : Key → Option (Shell × List UInt8)
  | .char byte _ => s.insertByte byte
  | .backspace => s.deleteRange (s.cursor - 1) s.cursor
  | .delete | .ctrlD => s.deleteRange s.cursor (s.cursor + 1)
  | .left | .ctrlB => s.moveLeft
  | .right | .ctrlF => s.moveRight
  | .up | .ctrlP => s.historyPrevious
  | .down | .ctrlN => s.historyNext
  | .home | .ctrlA => s.moveToStart
  | .end | .ctrlE => s.moveToEnd
  | .ctrlK => s.deleteRange s.cursor s.length
  | .ctrlU => s.deleteRange 0 s.cursor
  | .ctrlW => do
    let start ← wordStart s.line s.cursor
    s.deleteRange start s.cursor
  | .ctrlL => do
    let written ← s.redrawScreen
    some (s, written)

theorem feedAll_byte (fed : s.feed byte = edits turn) : s.feedAll [byte] = turn := by
  rw [feedAll, fed]
  cases turn with
  | none => rfl
  | some turn => simp [edits, feedAll]

theorem feedAll_quiet {t : Shell} (bytes : List UInt8)
    (fed : s.feed byte = some (.edited t [])) : s.feedAll (byte :: bytes) = t.feedAll bytes := by
  rw [feedAll, fed]
  dsimp only
  cases t.feedAll bytes <;> rfl

theorem feed_idle (idle : s.escape = .idle) (other : byte ≠ 0x1B) :
    s.feed byte = s.takeByte byte := by
  simp only [feed, idle, if_neg other]

theorem feed_escape (idle : s.escape = .idle) :
    s.feed 0x1B = some (.edited { s with escape := .esc } []) := by
  simp only [feed, idle, if_true]

theorem feed_bracket : feed { s with escape := .esc } 0x5B =
    some (.edited { s with escape := .bracket } []) := rfl

theorem feed_number (digit : byte = csiHome ∨ byte = csiEnd ∨ byte = csiDelete) :
    feed { s with escape := .bracket } byte =
      some (.edited { s with escape := .number byte } []) := by
  rcases digit with rfl | rfl | rfl <;> rfl

theorem takeByte_char (printable : ¬ byte < firstPrintable) :
    s.takeByte byte = edits (s.insertByte byte) := by
  have ne : ∀ control : UInt8, control < firstPrintable → byte ≠ control := by
    intro control small same
    rw [same] at printable
    exact printable small
  rw [takeByte, if_neg, if_neg (ne _ (by decide)), if_neg (ne _ (by decide)),
    if_neg (ne _ (by decide)), if_neg (ne _ (by decide)), if_neg (ne _ (by decide)),
    if_neg (ne _ (by decide)), if_neg (ne _ (by decide)), if_neg (ne _ (by decide)),
    if_neg (ne _ (by decide)), if_neg (ne _ (by decide)), if_neg (ne _ (by decide)),
    if_neg (ne _ (by decide))]
  rintro (same | same | same)
  all_goals exact ne _ (by decide) same

theorem not_lt_firstPrintable (printable : isPrintable byte = true) : ¬ byte < firstPrintable := by
  simp only [isPrintable, Bool.and_eq_true, decide_eq_true_eq] at printable
  exact UInt8.not_lt.mpr printable.1

theorem bytes_char (printable : isPrintable byte = true) :
    (Key.char byte printable).bytes = [byte] := by
  have few : byte.toNat < 0x7F := by
    simp only [isPrintable, Bool.and_eq_true, decide_eq_true_eq] at printable
    exact UInt8.lt_iff_toNat_lt.mp printable.2
  have value : (Char.ofNat byte.toNat).toNat = byte.toNat := by
    rw [Char.ofNat, dif_pos (.inl (by omega))]
    rfl
  rw [Key.bytes, Key.event, Kernel.bytesForEvent, value, if_pos (by omega), UInt8.ofNat_toNat]

theorem feedAll_control (idle : s.escape = .idle) (other : byte ≠ 0x1B) (taken : s.takeByte byte = edits turn) :
    s.feedAll [byte] = turn := by
  apply feedAll_byte
  rw [feed_idle idle other, taken]

theorem feedAll_arrow (idle : s.escape = .idle)
    (ends : feed { s with escape := .bracket } byte = edits turn) :
    s.feedAll [0x1B, 0x5B, byte] = turn := by
  rw [feedAll_quiet _ (feed_escape idle), feedAll_quiet _ feed_bracket]
  exact feedAll_byte ends

theorem feedAll_numbered (idle : s.escape = .idle)
    (digit : byte = csiHome ∨ byte = csiEnd ∨ byte = csiDelete)
    (ends : feed { s with escape := .number byte } 0x7E = edits turn) :
    s.feedAll [0x1B, 0x5B, byte, 0x7E] = turn := by
  rw [feedAll_quiet _ (feed_escape idle), feedAll_quiet _ feed_bracket,
    feedAll_quiet _ (feed_number digit)]
  exact feedAll_byte ends

theorem feedAll_key (idle : s.escape = .idle) (key : Key) : s.feedAll key.bytes = s.keyed key := by
  have known : { s with escape := .idle } = s := by rw [← idle]
  cases key with
  | char byte printable =>
    have other : byte ≠ 0x1B := by
      intro same
      rw [same] at printable
      exact absurd printable (by decide)
    rw [bytes_char]
    exact feedAll_control idle other (takeByte_char (not_lt_firstPrintable printable))
  | left =>
    apply feedAll_arrow idle
    exact congrArg (fun t : Shell => edits t.moveLeft) known
  | right =>
    apply feedAll_arrow idle
    exact congrArg (fun t : Shell => edits t.moveRight) known
  | up =>
    apply feedAll_arrow idle
    exact congrArg (fun t : Shell => edits t.historyPrevious) known
  | down =>
    apply feedAll_arrow idle
    exact congrArg (fun t : Shell => edits t.historyNext) known
  | home =>
    apply feedAll_numbered idle (.inl rfl)
    exact congrArg (fun t : Shell => edits t.moveToStart) known
  | «end» =>
    apply feedAll_numbered idle (.inr (.inl rfl))
    exact congrArg (fun t : Shell => edits t.moveToEnd) known
  | delete =>
    apply feedAll_numbered idle (.inr (.inr rfl))
    exact congrArg (fun t : Shell => edits (t.deleteRange t.cursor (t.cursor + 1))) known
  | _ => exact feedAll_control idle (by decide) rfl

def Notes (s : Shell) (part : List UInt8) : Prop :=
  ∃ escape, s.feedAll part = some ({ s with escape }, [])

theorem notes_nil (idle : s.escape = .idle) : s.Notes [] := by
  refine ⟨.idle, ?_⟩
  rw [← idle]
  rfl

theorem notes_control (idle : s.escape = .idle)
    (begun : part <+: [byte]) (short : part ≠ [byte]) : s.Notes part := by
  rcases List.prefix_cons_iff.mp begun with rfl | ⟨rest, same, more⟩
  · exact notes_nil idle
  · rw [List.prefix_nil.mp more] at same
    exact absurd same short

theorem notes_arrow (idle : s.escape = .idle)
    (begun : part <+: [0x1B, 0x5B, byte]) (short : part ≠ [0x1B, 0x5B, byte]) : s.Notes part := by
  have cases : part = [] ∨ part = [0x1B] ∨ part = [0x1B, 0x5B] := by
    simp only [List.prefix_cons_iff, List.prefix_nil] at begun
    grind
  rcases cases with rfl | rfl | rfl
  · exact notes_nil idle
  · refine ⟨.esc, ?_⟩
    rw [feedAll_quiet _ (feed_escape idle)]
    rfl
  · refine ⟨.bracket, ?_⟩
    rw [feedAll_quiet _ (feed_escape idle), feedAll_quiet _ feed_bracket]
    rfl

theorem notes_numbered (idle : s.escape = .idle)
    (digit : byte = csiHome ∨ byte = csiEnd ∨ byte = csiDelete)
    (begun : part <+: [0x1B, 0x5B, byte, 0x7E]) (short : part ≠ [0x1B, 0x5B, byte, 0x7E]) :
    s.Notes part := by
  have cases : part = [0x1B, 0x5B, byte] ∨
      part <+: [0x1B, 0x5B, byte] ∧ part ≠ [0x1B, 0x5B, byte] := by
    simp only [List.prefix_cons_iff, List.prefix_nil] at begun ⊢
    grind
  rcases cases with rfl | ⟨fewer, other⟩
  · refine ⟨.number byte, ?_⟩
    rw [feedAll_quiet _ (feed_escape idle), feedAll_quiet _ feed_bracket,
      feedAll_quiet _ (feed_number digit)]
    rfl
  · exact notes_arrow idle fewer other

theorem feedAll_part (idle : s.escape = .idle) {key : Key}
    (begun : part <+: key.bytes) (short : part ≠ key.bytes) : s.Notes part := by
  cases key with
  | char byte printable =>
    rw [bytes_char] at begun short
    exact notes_control idle begun short
  | left => exact notes_arrow idle begun short
  | right => exact notes_arrow idle begun short
  | up => exact notes_arrow idle begun short
  | down => exact notes_arrow idle begun short
  | home => exact notes_numbered idle (.inl rfl) begun short
  | «end» => exact notes_numbered idle (.inr (.inl rfl)) begun short
  | delete => exact notes_numbered idle (.inr (.inr rfl)) begun short
  | _ => exact notes_control idle begun short

def Editor.written (e : Editor) (colored : Bool) : Key → List UInt8
  | .char byte _ => if e.text.length + 1 < lineMax then insertion byte e.behind else []
  | .backspace => erasure e.behind (min 1 e.before.length) 0
  | .delete | .ctrlD => erasure (e.behind.drop 1) 0 (min 1 e.behind.length)
  | .left | .ctrlB => List.replicate (min 1 e.before.length) backspace
  | .right | .ctrlF => e.behind.take 1
  | .up | .ctrlP => replayed e e.history[e.back]?
  | .down | .ctrlN =>
    if e.back = 0 then []
    else if e.back = 1 then replacement e e.draft
    else replayed e e.history[e.back - 2]?
  | .home | .ctrlA => List.replicate e.before.length backspace
  | .end | .ctrlE => e.behind
  | .ctrlK => erasure [] 0 e.behind.length
  | .ctrlU => erasure e.behind e.before.length 0
  | .ctrlW => erasure e.behind e.word 0
  | .ctrlL => clearScreen ++ writePrompt colored ++ e.text ++
      List.replicate e.behind.length backspace

def Editor.recalls (e : Editor) : Key → Option (List UInt8)
  | .up | .ctrlP => e.history[e.back]?
  | .down | .ctrlN => if e.back ≤ 1 then none else e.history[e.back - 2]?
  | _ => none

theorem Holds.deleteAhead (holds : s.Holds e) :
    s.Edits (s.deleteRange s.cursor (s.cursor + 1)) (e.erase 0 1)
      (erasure (e.behind.drop 1) 0 (min 1 e.behind.length)) := by
  cases next : e.behind with
  | nil =>
    have same : e.erase 0 1 = e := by
      unfold Editor.erase
      rw [next, Nat.sub_zero, List.take_length, List.drop_nil, ← next]
    rw [same]
    exact holds.deleteRange_past next
  | cons byte behind =>
    have some : 1 ≤ e.behind.length := by simp [next]
    have deleted := holds.deleteRange (Nat.zero_le _) some
    have one : min 1 (byte :: behind).length = 1 := by simp
    rw [next, Nat.sub_zero, ← holds.cursor] at deleted
    rw [one]
    exact deleted

theorem Holds.deleteBefore (holds : s.Holds e) :
    s.Edits (s.deleteRange (s.cursor - 1) s.cursor) (e.erase 1 0)
      (erasure e.behind (min 1 e.before.length) 0) := by
  have deleted := holds.deleteRange (Nat.min_le_right 1 e.before.length)
    (Nat.zero_le e.behind.length)
  have few : e.before.length - min 1 e.before.length = e.before.length - 1 := by omega
  have same : e.erase (min 1 e.before.length) 0 = e.erase 1 0 := by
    unfold Editor.erase
    rw [few]
  rw [same, few, Nat.add_zero, ← holds.cursor, holds.cursor] at deleted
  rw [holds.cursor]
  exact deleted

theorem Holds.press (holds : s.Holds e) (idle : s.escape = .idle) (key : Key)
    (short : ∀ line ∈ e.recalls key, line.length < lineMax) :
    ∃ t, s.feedAll key.bytes = some (t, e.written s.colored key) ∧ t.Holds (e.press key) ∧
      t.escape = .idle := by
  have done : s.Edits (s.keyed key) (e.press key) (e.written s.colored key) := by
    cases key with
    | char byte printable => exact holds.insertByte (not_lt_firstPrintable printable)
    | backspace => exact holds.deleteBefore
    | delete | ctrlD => exact holds.deleteAhead
    | left | ctrlB => exact holds.moveLeft
    | right | ctrlF => exact holds.moveRight
    | up | ctrlP => exact holds.historyPrevious short
    | down | ctrlN =>
      apply holds.historyNext
      intro far line found
      apply short line
      rw [Editor.recalls, if_neg (by omega)]
      exact found
    | home | ctrlA => exact holds.moveToStart
    | «end» | ctrlE => exact holds.moveToEnd
    | ctrlK =>
      have deleted := holds.deleteRange (Nat.zero_le _) (Nat.le_refl e.behind.length)
      rw [Nat.sub_zero, ← holds.text_length, ← holds.length, ← holds.cursor,
        List.drop_length] at deleted
      exact deleted
    | ctrlU =>
      have deleted := holds.deleteRange (Nat.le_refl _) (Nat.zero_le e.behind.length)
      rw [Nat.sub_self, Nat.add_zero, ← holds.cursor, holds.cursor] at deleted
      have same := holds.cursor
      unfold keyed
      rw [same]
      exact deleted
    | ctrlW => exact holds.deleteWord
    | ctrlL =>
      have drawn := holds.redrawScreen
      refine ⟨s, ?_, holds, rfl⟩
      simp only [keyed, drawn, Option.bind_eq_bind, Option.bind_some]
      rfl
  obtain ⟨t, same, holdsT, escape⟩ := done
  exact ⟨t, (feedAll_key idle key).trans same, holdsT, escape.trans idle⟩

end Zaytos.Shell
