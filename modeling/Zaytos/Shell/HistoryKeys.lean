import Zaytos.Shell.Editing
import Zaytos.Shell.History

set_option autoImplicit false

/-! Going back and forth among the lines that the shell remembers, and the line that is being typed
meanwhile. -/
namespace Zaytos.Shell

open Slices

def held (s : Shell) : Nat := min s.historyCount historyMax

/-- The line that is being typed. While another one is shown it is the one that was put aside. -/
def typed (s : Shell) : List UInt8 :=
  if s.historyBack = 0 then s.line.take s.length else s.saved.take s.savedLength

structure Ready (s : Shell) : Prop where
  sized : s.Sized
  length : s.length ≤ lineMax
  cursor : s.cursor ≤ s.length
  saved : s.savedLength ≤ lineMax
  back : s.historyBack ≤ s.held

variable {s t : Shell} {new : List UInt8}

theorem Ready.moveToEnd (ready : s.Ready) :
    ∃ written, s.moveToEnd = some ({ s with cursor := s.length }, written) := by
  have cursor := ready.cursor
  unfold Shell.moveToEnd
  by_cases atEnd : s.length ≤ s.cursor
  · have same : { s with cursor := s.length } = s :=
      congrArg (fun cursor => { s with cursor }) (le_antisymm atEnd cursor)
    rw [if_pos atEnd, same]
    exact ⟨_, rfl⟩
  · rw [if_neg atEnd, slice, if_pos ⟨cursor, ready.sized.line.symm ▸ ready.length⟩]
    exact ⟨_, rfl⟩

theorem Ready.replaceLine (ready : s.Ready) (short : new.length ≤ lineMax) :
    ∃ line written, s.replaceLine new =
        some ({ s with line, length := new.length, cursor := new.length }, written) ∧
      line.length = lineMax ∧ line.take new.length = new := by
  obtain ⟨text, moved⟩ := ready.moveToEnd
  have width := ready.sized.line
  have back : ∃ back, writeIf (0 < s.length) (slice backspaces 0 s.length) = some back := by
    rw [slice_backspaces ready.length, writeIf]
    split <;> exact ⟨_, rfl⟩
  have gap : ∃ gap, writeIf (0 < s.length) (slice spaces 0 s.length) = some gap := by
    rw [slice_spaces ready.length, writeIf]
    split <;> exact ⟨_, rfl⟩
  obtain ⟨back, back_eq⟩ := back
  obtain ⟨gap, gap_eq⟩ := gap
  have put : write s.line 0 new = some (new ++ s.line.drop new.length) := write_start (by omega)
  have shown : ∃ shown, writeIf (0 < new.length)
      (slice (new ++ s.line.drop new.length) 0 new.length) = some shown := by
    rw [slice, if_pos ⟨Nat.zero_le _, by simp⟩, writeIf]
    split <;> exact ⟨_, rfl⟩
  obtain ⟨shown, shown_eq⟩ := shown
  refine ⟨new ++ s.line.drop new.length, text ++ (back ++ gap ++ back) ++ shown, ?_,
    (length_write put).trans width, List.take_left⟩
  unfold Shell.replaceLine
  simp only [moved, Option.bind_eq_bind, Option.bind_some, back_eq, gap_eq, put, shown_eq]

theorem Ready.replaced {line : List UInt8} (ready : s.Ready) (width : line.length = lineMax)
    (short : new.length ≤ lineMax) :
    Ready { s with line, length := new.length, cursor := new.length } where
  sized := { ready.sized with line := width }
  length := short
  cursor := le_rfl
  saved := ready.saved
  back := ready.back

theorem Ready.saveLine (ready : s.Ready) (room : s.historyBack < s.held) :
    ∃ saved savedLength, s.saveLine = some { s with saved, savedLength } ∧
      Ready { s with saved, savedLength, historyBack := s.historyBack + 1 } ∧
      saved.take savedLength = s.typed := by
  have width := ready.sized.line
  have widthSaved := ready.sized.saved
  have short := ready.length
  unfold Shell.saveLine typed
  by_cases first : s.historyBack = 0
  · have text : slice s.line 0 s.length = some (s.line.take s.length) := by
      rw [slice, if_pos ⟨Nat.zero_le _, by omega⟩, List.drop_zero]
    have length : (s.line.take s.length).length = s.length := by
      rw [List.length_take]
      omega
    have put : write s.saved 0 (s.line.take s.length) =
        some (s.line.take s.length ++ s.saved.drop s.length) := by
      rw [write_start (by omega), length]
    refine ⟨s.line.take s.length ++ s.saved.drop s.length, s.length, ?_, ?_, ?_⟩
    · simp only [if_pos first, text, put, Option.bind_eq_bind, Option.bind_some]
    · exact { ready with
        sized := { ready.sized with saved := (length_write put).trans widthSaved }
        saved := short
        back := room }
    · rw [if_pos first, List.take_left' length]
  · refine ⟨s.saved, s.savedLength, if_neg first, ?_, (if_neg first).symm⟩
    exact { ready with sized := { ready.sized with }, back := room }

theorem historyAt_of_held (sized : s.Sized) {back : Nat} (pos : 0 < back) (inside : back ≤ s.held) :
    ∃ entry, s.historyAt back = some entry ∧
      slice entry.line 0 entry.length = some entry.text ∧ entry.text.length ≤ lineMax := by
  unfold held at inside
  have slot : (s.historyCount - back) % historyMax < s.history.length := by
    rw [sized.history]
    exact Nat.mod_lt _ (by decide)
  have bounds := sized.entries _ (List.getElem_mem slot)
  refine ⟨s.history[(s.historyCount - back) % historyMax], ?_, ?_, ?_⟩
  · rw [historyAt, if_neg (by omega), List.getElem?_eq_getElem slot]
  · rw [slice, if_pos ⟨Nat.zero_le _, by omega⟩, List.drop_zero, Remembered.text]
  · rw [Remembered.text, List.length_take]
    omega

theorem Ready.historyPrevious (ready : s.Ready) :
    ∃ t written, s.historyPrevious = some (t, written) ∧ t.Ready ∧ t.typed = s.typed ∧
      t.held = s.held ∧ t.historyBack = min (s.historyBack + 1) s.held := by
  unfold Shell.historyPrevious
  by_cases room : s.historyBack < s.held
  · obtain ⟨entry, found, sliced, short⟩ :=
      historyAt_of_held ready.sized (Nat.succ_pos s.historyBack) room
    obtain ⟨saved, savedLength, aside, ready', kept⟩ := ready.saveLine room
    obtain ⟨line, written, replaced, width, -⟩ := ready'.replaceLine short
    refine ⟨_, written, ?_, ready'.replaced width short, ?_, rfl, ?_⟩
    · simp only [found, aside, Option.bind_eq_bind, Option.bind_some, sliced]
      exact replaced
    · rw [← kept]
      exact if_neg (Nat.succ_ne_zero _)
    · dsimp only
      omega
  · have last : s.historyAt (s.historyBack + 1) = none := by
      unfold held at room
      rw [historyAt, if_pos (by omega)]
    have back := ready.back
    rw [last]
    exact ⟨s, [], rfl, ready, rfl, rfl, by omega⟩

theorem Ready.historyNext (ready : s.Ready) :
    ∃ t written, s.historyNext = some (t, written) ∧ t.Ready ∧ t.typed = s.typed ∧
      t.held = s.held ∧ t.historyBack = s.historyBack - 1 := by
  have back := ready.back
  unfold Shell.historyNext
  by_cases here : s.historyBack = 0
  · rw [if_pos here]
    exact ⟨s, [], rfl, ready, rfl, rfl, by omega⟩
  · have ready' : Ready { s with historyBack := s.historyBack - 1 } :=
      { ready with sized := { ready.sized with }, back := show s.historyBack - 1 ≤ s.held by omega }
    rw [if_neg here]
    dsimp only
    by_cases last : s.historyBack - 1 = 0
    · have savedLength := ready.saved
      have width := ready.sized.saved
      have length : (s.saved.take s.savedLength).length ≤ lineMax := by
        rw [List.length_take]
        omega
      have text : slice s.saved 0 s.savedLength = some (s.saved.take s.savedLength) := by
        rw [slice, if_pos ⟨Nat.zero_le _, by omega⟩, List.drop_zero]
      obtain ⟨line, written, replaced, wide, shown⟩ := ready'.replaceLine length
      refine ⟨_, written, ?_, ready'.replaced wide length, ?_, rfl, rfl⟩
      · simp only [if_pos last, text, Option.bind_eq_bind, Option.bind_some]
        exact replaced
      · rw [typed, typed, if_neg here]
        exact (if_pos last).trans shown
    · obtain ⟨entry, found, sliced, short⟩ := historyAt_of_held ready.sized
        (Nat.pos_of_ne_zero last) (show s.historyBack - 1 ≤ s.held by omega)
      have found' : historyAt { s with historyBack := s.historyBack - 1 } (s.historyBack - 1) =
          some entry := found
      obtain ⟨line, written, replaced, wide, -⟩ := ready'.replaceLine short
      refine ⟨_, written, ?_, ready'.replaced wide short, ?_, rfl, rfl⟩
      · simp only [if_neg last, found', Option.bind_eq_bind, Option.bind_some, sliced]
        exact replaced
      · rw [typed, typed, if_neg here]
        exact if_neg last

/-! The other keys. -/

theorem Ready.moved (ready : s.Ready) {cursor : Nat} (inside : cursor ≤ s.length) :
    Ready { s with cursor } :=
  { ready with sized := { ready.sized with }, cursor := inside }

theorem Ready.escaped (ready : s.Ready) (escape : Escape) : Ready { s with escape } :=
  { ready with sized := { ready.sized with } }

theorem length_copyWithin {xs ys : List UInt8} {start stop dest : Nat}
    (copied : copyWithin xs start stop dest = some ys) : ys.length = xs.length := by
  unfold copyWithin at copied
  split at copied
  · exact length_write copied
  · cases copied

variable {written : List UInt8}

theorem Ready.moveLeft (ready : s.Ready) (made : s.moveLeft = some (t, written)) : t.Ready := by
  have cursor := ready.cursor
  unfold Shell.moveLeft at made
  split at made
  all_goals
    cases made
    exact ready.moved (by omega)

theorem Ready.moveRight (ready : s.Ready) (made : s.moveRight = some (t, written)) : t.Ready := by
  unfold Shell.moveRight at made
  split at made
  case isTrue inside =>
    simp only [Option.bind_eq_bind, Option.bind_eq_some_iff] at made
    obtain ⟨text, -, eq⟩ := made
    cases eq
    exact ready.moved inside
  case isFalse =>
    cases made
    exact ready

theorem Ready.moveToStart (ready : s.Ready) (made : s.moveToStart = some (t, written)) :
    t.Ready := by
  unfold Shell.moveToStart at made
  split at made
  case isTrue =>
    cases made
    exact ready
  case isFalse =>
    simp only [Option.bind_eq_bind, Option.bind_eq_some_iff] at made
    obtain ⟨back, -, eq⟩ := made
    cases eq
    exact ready.moved (Nat.zero_le _)

theorem Ready.deleteRange (ready : s.Ready) {start stop : Nat}
    (made : s.deleteRange start stop = some (t, written)) : t.Ready := by
  have length := ready.length
  unfold Shell.deleteRange at made
  split at made
  case isTrue =>
    cases made
    exact ready
  case isFalse bounds =>
    simp only [Option.bind_eq_bind, Option.bind_eq_some_iff] at made
    obtain ⟨back, -, line, copied, text, -, gap, -, rest, -, eq⟩ := made
    cases eq
    constructor
    · exact { ready.sized with line := (length_copyWithin copied).trans ready.sized.line }
    · dsimp only
      omega
    · dsimp only
      omega
    · exact ready.saved
    · exact ready.back

theorem Ready.insertByte (ready : s.Ready) {byte : UInt8}
    (made : s.insertByte byte = some (t, written)) : t.Ready := by
  have width := ready.sized.line
  have cursor := ready.cursor
  unfold Shell.insertByte at made
  split at made
  case isTrue =>
    cases made
    exact ready
  split at made
  case isTrue room =>
    simp only [Option.bind_eq_bind, Option.bind_eq_some_iff] at made
    obtain ⟨copy, copied, line, put, tail, -, eq⟩ := made
    cases eq
    constructor
    · exact { ready.sized with
        line := (length_write put).trans ((length_copyWithin copied).trans width) }
    · dsimp only
      omega
    · dsimp only
      omega
    · exact ready.saved
    · exact ready.back
  case isFalse =>
    cases made
    exact { ready with sized := { ready.sized with } }

theorem eq_of_edits {turn : Option (Shell × List UInt8)}
    (made : edits turn = some (.edited t written)) : turn = some (t, written) := by
  cases turn with
  | none => cases made
  | some out =>
    cases made
    rfl

theorem Ready.historyKey (ready : s.Ready) (made : s.historyPrevious = some (t, written) ∨
    s.historyNext = some (t, written)) : t.Ready := by
  rcases made with made | made
  · obtain ⟨u, shown, run, readyU, -⟩ := ready.historyPrevious
    cases run.symm.trans made
    exact readyU
  · obtain ⟨u, shown, run, readyU, -⟩ := ready.historyNext
    cases run.symm.trans made
    exact readyU

theorem of_ite {given : Prop} [Decidable given] {P : Prop} {yes no turn : Option Turn}
    (made : (if given then yes else no) = turn) (first : yes = turn → P) (others : no = turn → P) :
    P := by
  by_cases holds : given
  · rw [if_pos holds] at made
    exact first made
  · rw [if_neg holds] at made
    exact others made

theorem Ready.takeByte (ready : s.Ready) {byte : UInt8}
    (made : s.takeByte byte = some (.edited t written)) : t.Ready := by
  have word (made : (do
      let start ← wordStart s.line s.cursor
      s.deleteRange start s.cursor) = some (t, written)) : t.Ready := by
    obtain ⟨start, -, deleted⟩ := Option.bind_eq_some_iff.mp made
    exact ready.deleteRange deleted
  have redrawn (made : (do
      let shown ← s.redrawScreen
      some (s, shown)) = some (t, written)) : t.Ready := by
    obtain ⟨shown, -, eq⟩ := Option.bind_eq_some_iff.mp made
    cases eq
    exact ready
  have last (made : s.moveToEnd = some (t, written)) : t.Ready := by
    obtain ⟨text, run⟩ := ready.moveToEnd
    cases run.symm.trans made
    exact ready.moved (le_rfl)
  unfold Shell.takeByte at made
  apply of_ite made (fun made => by cases made)
  intro made
  apply of_ite made (fun made => ready.moveLeft (eq_of_edits made))
  intro made
  apply of_ite made (fun made => ready.moveRight (eq_of_edits made))
  intro made
  apply of_ite made (fun made => ready.historyKey (.inl (eq_of_edits made)))
  intro made
  apply of_ite made (fun made => ready.historyKey (.inr (eq_of_edits made)))
  intro made
  apply of_ite made (fun made => ready.moveToStart (eq_of_edits made))
  intro made
  apply of_ite made (fun made => last (eq_of_edits made))
  intro made
  apply of_ite made (fun made => ready.deleteRange (eq_of_edits made))
  intro made
  apply of_ite made (fun made => ready.deleteRange (eq_of_edits made))
  intro made
  apply of_ite made (fun made => ready.deleteRange (eq_of_edits made))
  intro made
  apply of_ite made (fun made => ready.deleteRange (eq_of_edits made))
  intro made
  apply of_ite made (fun made => word (eq_of_edits made))
  intro made
  apply of_ite made (fun made => redrawn (eq_of_edits made))
  intro made
  exact ready.insertByte (eq_of_edits made)

theorem Ready.feed (ready : s.Ready) {byte : UInt8}
    (made : s.feed byte = some (.edited t written)) : t.Ready := by
  have known := ready.escaped .idle
  unfold Shell.feed at made
  dsimp only at made
  repeat' split at made
  · cases made
    exact ready.escaped _
  · exact ready.takeByte made
  · cases made
    exact ready.escaped _
  · exact known.takeByte made
  · exact known.moveLeft (eq_of_edits made)
  · exact known.moveRight (eq_of_edits made)
  · cases made
    exact ready.escaped _
  · exact known.historyKey (.inl (eq_of_edits made))
  · exact known.historyKey (.inr (eq_of_edits made))
  · exact known.takeByte made
  · exact known.moveToStart (eq_of_edits made)
  · obtain ⟨text, run⟩ := known.moveToEnd
    cases run.symm.trans (eq_of_edits made)
    exact known.moved (le_rfl)
  · exact known.deleteRange (eq_of_edits made)
  · cases made
    exact known
  · exact known.takeByte made

theorem Ready.feedAll (ready : s.Ready) {bytes : List UInt8}
    (made : s.feedAll bytes = some (t, written)) : t.Ready := by
  induction bytes generalizing s written with
  | nil =>
    cases made
    exact ready
  | cons byte bytes ih =>
    rw [Shell.feedAll] at made
    cases fed : s.feed byte with
    | none =>
      rw [fed] at made
      cases made
    | some turn =>
      rw [fed] at made
      cases turn with
      | leaves byte => cases made
      | edited u shown =>
        obtain ⟨out, run, eq⟩ := Option.bind_eq_some_iff.mp made
        cases eq
        exact ih (ready.feed fed) run

theorem Fresh.ready (fresh : s.Fresh) : s.Ready where
  sized := fresh.sized
  length := by
    rw [fresh.length]
    exact Nat.zero_le _
  cursor := by
    rw [fresh.cursor]
    exact Nat.zero_le _
  saved := by
    rw [fresh.savedLength]
    exact Nat.zero_le _
  back := by
    rw [fresh.historyBack]
    exact Nat.zero_le _

/-! Back and forth. -/

theorem feed_ctrlP (s : Shell) :
    s.feed ctrlP = edits (Shell.historyPrevious { s with escape := .idle }) := by
  obtain ⟨line, length, cursor, overflowed, escape, rest⟩ := s
  cases escape <;> rfl

theorem feed_ctrlN (s : Shell) :
    s.feed ctrlN = edits (Shell.historyNext { s with escape := .idle }) := by
  obtain ⟨line, length, cursor, overflowed, escape, rest⟩ := s
  cases escape <;> rfl

theorem feedAll_edited {byte : UInt8} {bytes written more : List UInt8} {u : Shell}
    (fed : s.feed byte = edits (some (t, written))) (rest : t.feedAll bytes = some (u, more)) :
    s.feedAll (byte :: bytes) = some (u, written ++ more) := by
  rw [Shell.feedAll, fed]
  simp only [edits, Option.map_some, rest, Option.bind_eq_bind, Option.bind_some]

theorem Ready.back_run (ready : s.Ready) (n : Nat) :
    ∃ t written, s.feedAll (List.replicate n ctrlP) = some (t, written) ∧ t.Ready ∧
      t.typed = s.typed ∧ t.held = s.held ∧ t.historyBack = min (s.historyBack + n) s.held := by
  induction n generalizing s with
  | zero => exact ⟨s, [], rfl, ready, rfl, rfl, (min_eq_left ready.back).symm⟩
  | succ n ih =>
    obtain ⟨t, written, run, readyT, typed, held, back⟩ := (ready.escaped .idle).historyPrevious
    obtain ⟨u, more, rest, readyU, typedU, heldU, backU⟩ := ih readyT
    have same : Shell.held { s with escape := .idle } = s.held := rfl
    refine ⟨u, written ++ more, ?_, readyU, typedU.trans typed, heldU.trans held, ?_⟩
    · apply feedAll_edited
      · rw [feed_ctrlP, run]
      · exact rest
    · rw [same] at back held
      dsimp only at back
      omega

theorem Ready.forth_run (ready : s.Ready) (n : Nat) :
    ∃ t written, s.feedAll (List.replicate n ctrlN) = some (t, written) ∧ t.Ready ∧
      t.typed = s.typed ∧ t.historyBack = s.historyBack - n := by
  induction n generalizing s with
  | zero => exact ⟨s, [], rfl, ready, rfl, rfl⟩
  | succ n ih =>
    obtain ⟨t, written, run, readyT, typed, -, back⟩ := (ready.escaped .idle).historyNext
    obtain ⟨u, more, rest, readyU, typedU, backU⟩ := ih readyT
    refine ⟨u, written ++ more, ?_, readyU, typedU.trans typed, ?_⟩
    · apply feedAll_edited
      · rw [feed_ctrlN, run]
      · exact rest
    · dsimp only at back
      omega

theorem Ready.back_forth (ready : s.Ready) (back forth : Nat) :
    ∃ t written, s.feedAll (List.replicate back ctrlP ++ List.replicate forth ctrlN) =
        some (t, written) ∧
      t.historyBack = min (s.historyBack + back) s.held - forth ∧
      (t.historyBack = 0 → t.line.take t.length = s.typed) := by
  obtain ⟨t, written, run, readyT, typedT, heldT, backT⟩ := ready.back_run back
  obtain ⟨u, more, rest, -, typedU, backU⟩ := readyT.forth_run forth
  refine ⟨u, written ++ more, ?_, backT ▸ backU, ?_⟩
  · rw [Session.feedAll_append, run]
    simp only [Option.bind_some, rest]
  · intro zero
    rw [← typedT, ← typedU, typed, if_pos zero]

end Zaytos.Shell
