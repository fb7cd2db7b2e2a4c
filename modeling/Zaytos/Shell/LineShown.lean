import Zaytos.Shell.LineSpec
import Zaytos.Terminal.Reading

set_option autoImplicit false

/-! The line on the screen. The shell goes back along the line by writing backspaces, and the
terminal goes back no further than to the start of the row. -/
namespace Zaytos.Shell

open Terminal Grid

/-- From a place on, the screen has a string, and the cursor is behind a part of it. -/
structure OnScreen (t : Tty) (gone origin : Nat) (before after : List UInt8) : Prop where
  ready : t.Ready
  sound : t.term.grid.Sound
  drawnAt : t.term.drawnAt = none
  position : t.term.grid.position gone = origin + before.length
  displays : t.term.grid.Displays gone origin ((before ++ after).map Tty.charOf)

theorem ascii_of_printable {byte : UInt8} (printable : isPrintable byte = true) :
    byte < 0x80 ∧ byte ≠ 0x1B := by
  simp only [isPrintable, Bool.and_eq_true, decide_eq_true_eq] at printable
  constructor
  · exact UInt8.lt_trans printable.2 (by decide)
  · intro same
    rw [same] at printable
    exact absurd printable.1 (by decide)

theorem narrow_of_printable {byte : UInt8} (printable : isPrintable byte = true) :
    Term.Narrow (Tty.charOf byte) := by
  have value := Tty.toNat_charOf (ascii_of_printable printable).1
  simp only [isPrintable, Bool.and_eq_true, decide_eq_true_eq] at printable
  have low : 0x20 ≤ byte.toNat := UInt8.le_iff_toNat_le.mp printable.1
  have high : byte.toNat < 0x7F := UInt8.lt_iff_toNat_lt.mp printable.2
  have other : ∀ c : Char, c.toNat < 0x20 → Tty.charOf byte ≠ c := by
    intro c control same
    rw [← same, value] at control
    omega
  have narrow : isWide byte.toNat = false := by
    simp only [isWide, Bool.or_eq_false_iff, Bool.and_eq_false_iff, decide_eq_false_iff_not]
    omega
  constructor
  · constructor
    all_goals exact other _ (by decide)
  · rw [widthCells, value, narrow]
    rfl

theorem OnScreen.write {t : Tty} {gone origin : Nat} {before after new : List UInt8}
    (shown : OnScreen t gone origin before after) (printable : ∀ byte ∈ new, isPrintable byte = true) :
    ∃ u gone', t.feedBytes new = some u ∧
      OnScreen u gone' origin (before ++ new) (after.drop new.length) ∧
      u.term.grid.columns = t.term.grid.columns ∧
      u.term.grid.column =
        columnAfter t.term.grid.columns t.term.grid.column new.length := by
  have narrow : ∀ c ∈ new.map Tty.charOf, Term.Narrow c := by
    intro c mem
    obtain ⟨byte, there, rfl⟩ := List.mem_map.mp mem
    exact narrow_of_printable (printable byte there)
  obtain ⟨gone', wrote⟩ := Term.putStr_wrote gone shown.sound shown.drawnAt narrow
  have fed := Tty.feedBytes_ascii shown.ready
    fun byte mem => ascii_of_printable (printable byte mem)
  have position := wrote.position
  have column := wrote.column
  have displays := shown.displays
  rw [List.length_map] at position column
  rw [List.map_append] at displays
  have place : t.term.grid.position gone = origin + (before.map Tty.charOf).length := by
    rw [List.length_map]
    exact shown.position
  refine ⟨_, gone', fed, ?_, wrote.columns, column⟩
  constructor
  · exact ⟨shown.ready.ground, shown.ready.decoder⟩
  · exact wrote.sound
  · exact wrote.drawnAt
  · rw [position, shown.position, List.length_append, add_assoc]
  · have patched := displays.patch (place ▸ wrote.writes) (place ▸ wrote.keeps)
    rw [List.length_map, ← List.map_drop, ← List.map_append, ← List.map_append,
      ← List.append_assoc] at patched
    exact patched

theorem OnScreen.back {t : Tty} {gone origin : Nat} {before passed after : List UInt8}
    (shown : OnScreen t gone origin (before ++ passed) after)
    (stays : passed.length ≤ t.term.grid.column) :
    ∃ u, t.feedBytes (List.replicate passed.length backspace) = some u ∧
      OnScreen u gone origin before (passed ++ after) ∧
      u.term.grid.columns = t.term.grid.columns ∧
      u.term.grid.column = t.term.grid.column - passed.length := by
  have ascii : ∀ byte ∈ List.replicate passed.length backspace, byte < 0x80 ∧ byte ≠ 0x1B := by
    intro byte mem
    rw [List.eq_of_mem_replicate mem]
    decide
  have fed := Tty.feedBytes_ascii shown.ready ascii
  have written : (List.replicate passed.length backspace).map Tty.charOf =
      List.replicate passed.length '\x08' := by
    rw [List.map_replicate]
    rfl
  rw [written, Term.putStr_back shown.drawnAt] at fed
  refine ⟨_, fed, ?_, rfl, rfl⟩
  have column := shown.sound.column
  have position := shown.position
  rw [List.length_append] at position
  constructor
  · exact ⟨shown.ready.ground, shown.ready.decoder⟩
  · exact { shown.sound with column := by dsimp only; omega }
  · exact shown.drawnAt
  · unfold Grid.position at position ⊢
    dsimp only
    omega
  · have displays := shown.displays
    rw [List.append_assoc] at displays
    intro i c found
    exact (displays i c found).of_cells rfl rfl rfl

/-- To be taken off the screen: the bytes that are gone over stay in their row, and so do those
that are written anew. -/
def ErasureFits (columns column rest last first : Nat) : Prop :=
  last + first = 0 ∨
    last ≤ column ∧ rest + (last + first) ≤ columnAfter columns (column - last) (rest + (last + first))

theorem OnScreen.erase {t : Tty} {gone origin : Nat} {before cut more rest tail : List UInt8}
    (shown : OnScreen t gone origin (before ++ cut) (more ++ (rest ++ tail)))
    (printable : ∀ byte ∈ rest, isPrintable byte = true)
    (fits : ErasureFits t.term.grid.columns t.term.grid.column rest.length cut.length more.length) :
    ∃ u gone', t.feedBytes (erasure rest cut.length more.length) = some u ∧
      OnScreen u gone' origin before
        (rest ++ (List.replicate (cut.length + more.length) space ++ tail)) := by
  unfold erasure
  by_cases nothing : cut.length + more.length = 0
  · have empty : cut = [] ∧ more = [] := by
      rw [← List.length_eq_zero_iff, ← List.length_eq_zero_iff]
      omega
    rw [if_pos nothing, nothing]
    rw [empty.1, empty.2, List.append_nil] at shown
    exact ⟨t, gone, rfl, shown⟩
  obtain ⟨first, second⟩ := fits.resolve_left nothing
  rw [if_neg nothing]
  generalize gap : List.replicate (cut.length + more.length) space = blank
  have size : blank.length = cut.length + more.length := by rw [← gap, List.length_replicate]
  have text : ∀ byte ∈ rest ++ blank, isPrintable byte = true := by
    intro byte mem
    rcases List.mem_append.mp mem with there | there
    · exact printable byte there
    · rw [← gap] at there
      rw [List.eq_of_mem_replicate there]
      decide
  obtain ⟨u, backed, shownU, columnsU, columnU⟩ := shown.back first
  obtain ⟨v, goneV, wrote, shownV, columnsV, columnV⟩ := shownU.write text
  have length : (rest ++ blank).length = rest.length + (cut.length + more.length) := by
    rw [List.length_append, size]
  have left : (cut ++ (more ++ (rest ++ tail))).drop (rest ++ blank).length = tail := by
    rw [← List.append_assoc, ← List.append_assoc]
    apply List.drop_left'
    simp
    omega
  rw [left] at shownV
  obtain ⟨w, returned, shownW, -, -⟩ := shownV.back (by
    rw [columnV, columnU, columnsU, length]
    exact second)
  refine ⟨w, goneV, ?_, ?_⟩
  · rw [length] at returned
    rw [List.append_assoc (List.replicate cut.length backspace), List.append_assoc,
      Tty.feedBytes_append, backed, Option.bind_some, Tty.feedBytes_append, wrote,
      Option.bind_some, returned]
  · rw [List.append_assoc] at shownW
    exact shownW

theorem OnScreen.insert {t : Tty} {gone origin : Nat} {before behind tail : List UInt8} {byte : UInt8}
    (shown : OnScreen t gone origin before (behind ++ tail)) (printable : isPrintable byte = true)
    (others : ∀ other ∈ behind, isPrintable other = true)
    (fits : behind.length ≤
      columnAfter t.term.grid.columns t.term.grid.column (behind.length + 1)) :
    ∃ u gone', t.feedBytes (insertion byte behind) = some u ∧
      OnScreen u gone' origin (before ++ [byte]) (behind ++ tail.drop 1) := by
  have text : ∀ other ∈ byte :: behind, isPrintable other = true :=
    List.forall_mem_cons.mpr ⟨printable, others⟩
  obtain ⟨u, gone', wrote, shownU, columns, column⟩ := shown.write text
  have left : (behind ++ tail).drop (byte :: behind).length = tail.drop 1 := by
    rw [List.length_cons, ← List.drop_drop, List.drop_left]
  rw [left, List.append_cons] at shownU
  obtain ⟨v, returned, shownV, -, -⟩ := shownU.back (by
    rw [column]
    exact fits)
  refine ⟨v, gone', ?_, shownV⟩
  have whole : insertion byte behind =
      (byte :: behind) ++ List.replicate behind.length backspace := rfl
  rw [whole, Tty.feedBytes_append, wrote]
  exact returned

def ReplacementFits (columns column behind length : Nat) : Prop :=
  length ≤ columnAfter columns column behind

theorem columnAfter_le {columns column : Nat} (inside : column ≤ columns) (wide : 0 < columns)
    (count : Nat) : columnAfter columns column count ≤ columns := by
  unfold columnAfter
  split
  · exact inside
  · exact Nat.mod_lt _ wide

theorem columnAfter_return {columns column count : Nat} (inside : column ≤ columns)
    (stays : count ≤ column) : columnAfter columns (column - count) count = column := by
  unfold columnAfter
  split
  · omega
  · have there : column - count + count - 1 = column - 1 := by omega
    rw [there, Nat.mod_eq_of_lt (by omega)]
    omega

theorem OnScreen.replace {t : Tty} {gone origin : Nat} {prompt before behind tail new : List UInt8}
    (shown : OnScreen t gone origin (prompt ++ before) (behind ++ tail))
    (printable : ∀ byte ∈ behind, isPrintable byte = true)
    (others : ∀ byte ∈ new, isPrintable byte = true)
    (fits : ReplacementFits t.term.grid.columns t.term.grid.column behind.length
      (before ++ behind).length) :
    ∃ u gone', t.feedBytes (behind ++
        (List.replicate (before ++ behind).length backspace ++
          List.replicate (before ++ behind).length space ++
          List.replicate (before ++ behind).length backspace) ++ new) = some u ∧
      OnScreen u gone' origin (prompt ++ new)
        ((List.replicate (before ++ behind).length space ++ tail).drop new.length) := by
  generalize gap : List.replicate (before ++ behind).length space = blank
  have size : blank.length = (before ++ behind).length := by rw [← gap, List.length_replicate]
  have spaces : ∀ byte ∈ blank, isPrintable byte = true := by
    intro byte mem
    rw [← gap] at mem
    rw [List.eq_of_mem_replicate mem]
    decide
  have wide := shown.sound.wide
  have inside := columnAfter_le shown.sound.column (by omega) behind.length
  obtain ⟨u, goneU, wrote, shownU, columnsU, columnU⟩ := shown.write printable
  rw [List.drop_left, List.append_assoc] at shownU
  obtain ⟨v, backed, shownV, columnsV, columnV⟩ := shownU.back (by
    rw [columnU]
    exact fits)
  obtain ⟨w, goneW, blanked, shownW, columnsW, columnW⟩ := shownV.write spaces
  have left : (before ++ behind ++ tail).drop blank.length = tail := by
    rw [size]
    exact List.drop_left
  rw [left] at shownW
  obtain ⟨x, returned, shownX, -, -⟩ := shownW.back (by
    rw [columnW, columnV, columnsV, columnsU, columnU, size, columnAfter_return inside fits]
    exact fits)
  rw [size] at returned
  obtain ⟨y, goneY, drawn, shownY, -, -⟩ := shownX.write others
  refine ⟨y, goneY, ?_, shownY⟩
  simp only [List.append_assoc]
  rw [Tty.feedBytes_append, wrote, Option.bind_some, Tty.feedBytes_append, backed,
    Option.bind_some, Tty.feedBytes_append, blanked, Option.bind_some, Tty.feedBytes_append,
    returned, Option.bind_some, drawn]

structure Pens (t u : Tty) : Prop where
  ready : u.Ready
  grid : u.term.grid = t.term.grid
  drawnAt : u.term.drawnAt = t.term.drawnAt

theorem OnScreen.pens {t u : Tty} {gone origin : Nat} {before after : List UInt8}
    (shown : OnScreen t gone origin before after) (pens : Pens t u) :
    OnScreen u gone origin before after where
  ready := pens.ready
  sound := pens.grid ▸ shown.sound
  drawnAt := pens.drawnAt.trans shown.drawnAt
  position := pens.grid ▸ shown.position
  displays := pens.grid ▸ shown.displays

theorem feedBytes_promptColor {t : Tty} (ready : t.Ready) :
    ∃ u, t.feedBytes promptColor = some u ∧ Pens t u := by
  obtain ⟨term, parser, decoder, pending, active⟩ := t
  obtain ⟨state, params, index, many, hidden⟩ := parser
  obtain ⟨ground, fresh⟩ := ready
  cases ground
  cases fresh
  exact ⟨_, rfl, ⟨rfl, rfl⟩, rfl, rfl⟩

theorem feedBytes_sgrReset {t : Tty} (ready : t.Ready) :
    ∃ u, t.feedBytes sgrReset = some u ∧ Pens t u := by
  obtain ⟨term, parser, decoder, pending, active⟩ := t
  obtain ⟨state, params, index, many, hidden⟩ := parser
  obtain ⟨ground, fresh⟩ := ready
  cases ground
  cases fresh
  exact ⟨_, rfl, ⟨rfl, rfl⟩, rfl, rfl⟩

theorem feedBytes_clearScreen {t : Tty} (ready : t.Ready) :
    ∃ u, t.feedBytes clearScreen = some u ∧ u.Ready ∧ u.term.drawnAt = t.term.drawnAt ∧
      u.term.grid = ((t.term.grid.reset t.term.background).setCursor t.term.grid.column
        t.term.grid.row).setCursor 0 0 := by
  obtain ⟨term, parser, decoder, pending, active⟩ := t
  obtain ⟨state, params, index, many, hidden⟩ := parser
  obtain ⟨ground, fresh⟩ := ready
  cases ground
  cases fresh
  exact ⟨_, rfl, ⟨rfl, rfl⟩, rfl, rfl⟩

def prompt : List UInt8 := promptName ++ promptSymbol

theorem OnScreen.prompt {t : Tty} {gone origin : Nat} {before after : List UInt8}
    (shown : OnScreen t gone origin before after) (colored : Bool) :
    ∃ u gone', t.feedBytes (writePrompt colored) = some u ∧
      OnScreen u gone' origin (before ++ prompt) (after.drop prompt.length) ∧
      u.term.grid.columns = t.term.grid.columns ∧
      u.term.grid.column =
        columnAfter t.term.grid.columns t.term.grid.column prompt.length := by
  have name : ∀ byte ∈ promptName, isPrintable byte = true := by decide +kernel
  have symbol : ∀ byte ∈ promptSymbol, isPrintable byte = true := by decide +kernel
  cases colored with
  | false => exact shown.write (by decide +kernel)
  | true =>
    obtain ⟨u, colors, pensU⟩ := feedBytes_promptColor shown.ready
    obtain ⟨v, goneV, named, shownV, columnsV, columnV⟩ := (shown.pens pensU).write name
    obtain ⟨w, resets, pensW⟩ := feedBytes_sgrReset shownV.ready
    obtain ⟨x, goneX, ended, shownX, columnsX, columnX⟩ := (shownV.pens pensW).write symbol
    refine ⟨x, goneX, ?_, ?_, ?_, ?_⟩
    · rw [writePrompt, if_pos rfl, List.append_assoc, List.append_assoc, Tty.feedBytes_append,
        colors, Option.bind_some, Tty.feedBytes_append, named, Option.bind_some,
        Tty.feedBytes_append, resets, Option.bind_some, ended]
    · rw [List.drop_drop, List.append_assoc] at shownX
      exact shownX
    · rw [columnsX, pensW.grid, columnsV, pensU.grid]
    · rw [columnX, pensW.grid, columnsV, columnV, pensU.grid, columnAfter_add]
      rfl

theorem OnScreen.clear {t : Tty} {gone origin : Nat} {before after : List UInt8}
    (shown : OnScreen t gone origin before after) (count : Nat) :
    ∃ u, t.feedBytes clearScreen = some u ∧
      OnScreen u gone (gone * t.term.grid.columns) [] (List.replicate count space) ∧
      u.term.grid.columns = t.term.grid.columns ∧ u.term.grid.column = 0 := by
  obtain ⟨u, cleared, ready, drawnAt, grid⟩ := feedBytes_clearScreen shown.ready
  have sound : u.term.grid.Sound := by
    rw [grid]
    exact ((shown.sound.reset _).setCursor _ _).setCursor _ _
  have columns : u.term.grid.columns = t.term.grid.columns := by
    rw [grid]
    rfl
  have column : u.term.grid.column = 0 := by
    rw [grid]
    exact Nat.zero_min _
  have row : u.term.grid.row = 0 := by
    rw [grid]
    exact Nat.zero_min _
  have blank : u.term.grid.cell =
      t.term.grid.cell.blank (Cell.cleared t.term.background) := by
    rw [grid]
    rfl
  refine ⟨u, cleared, ?_, columns, column⟩
  constructor
  · exact ready
  · exact sound
  · exact drawnAt.trans shown.drawnAt
  · rw [Grid.position, row, column, columns, zero_add]
    rfl
  · intro i c found d read
    have isSpace : c = ' ' := by
      rw [List.nil_append, List.map_replicate] at found
      exact List.eq_of_mem_replicate (List.mem_of_getElem? found)
    rw [isSpace]
    unfold Grid.reads at read
    split_ifs at read
    · cases read
    · exact (Option.some.inj read).symm
    · rw [blank, Raster.blank] at read
      simp only [Option.map_map, Option.mem_def, Option.map_eq_some_iff] at read
      obtain ⟨cell, -, same⟩ := read
      exact same.symm

theorem OnScreen.redraw {t : Tty} {gone origin : Nat} {others more before behind : List UInt8}
    (shown : OnScreen t gone origin others more) (colored : Bool)
    (printable : ∀ byte ∈ before ++ behind, isPrintable byte = true)
    (fits : behind.length ≤ columnAfter t.term.grid.columns 0
      (Shell.prompt.length + (before ++ behind).length)) (blanks : Nat) :
    ∃ u gone' origin', t.feedBytes (clearScreen ++ writePrompt colored ++ (before ++ behind) ++
        List.replicate behind.length backspace) = some u ∧
      OnScreen u gone' origin' (Shell.prompt ++ before)
        (behind ++ List.replicate blanks space) := by
  obtain ⟨u, cleared, shownU, columnsU, columnU⟩ :=
    shown.clear (Shell.prompt.length + (before ++ behind).length + blanks)
  obtain ⟨v, goneV, prompted, shownV, columnsV, columnV⟩ := shownU.prompt colored
  obtain ⟨w, goneW, wrote, shownW, columnsW, columnW⟩ := shownV.write printable
  rw [List.drop_drop, List.drop_replicate, Nat.add_sub_cancel_left, List.nil_append,
    ← List.append_assoc] at shownW
  obtain ⟨x, returned, shownX, -, -⟩ := shownW.back (by
    rw [columnW, columnsV, columnV, columnsU, columnU, columnAfter_add]
    exact fits)
  refine ⟨x, goneW, _, ?_, shownX⟩
  rw [List.append_assoc, List.append_assoc, Tty.feedBytes_append, cleared, Option.bind_some,
    Tty.feedBytes_append, prompted, Option.bind_some, Tty.feedBytes_append, wrote,
    Option.bind_some, returned]

def Recallable (line : List UInt8) : Prop :=
  line.length < lineMax ∧ ∀ byte ∈ line, isPrintable byte = true

instance (line : List UInt8) : Decidable (Recallable line) := inferInstanceAs (Decidable (_ ∧ _))

instance (columns column rest last first : Nat) :
    Decidable (ErasureFits columns column rest last first) :=
  inferInstanceAs (Decidable (_ ∨ _))

instance (columns column behind length : Nat) :
    Decidable (ReplacementFits columns column behind length) :=
  inferInstanceAs (Decidable (_ ≤ _))

namespace Editor

/-- With the cursor in a column, a key goes back over no more than the row that it is in then. -/
def Fits (e : Editor) (columns column : Nat) : Key → Prop
  | .char _ _ => e.text.length + 1 < lineMax →
      e.behind.length ≤ columnAfter columns column (e.behind.length + 1)
  | .backspace => ErasureFits columns column e.behind.length (min 1 e.before.length) 0
  | .delete | .ctrlD =>
      ErasureFits columns column (e.behind.drop 1).length 0 (min 1 e.behind.length)
  | .left | .ctrlB => min 1 e.before.length ≤ column
  | .right | .ctrlF | .end | .ctrlE => True
  | .up | .ctrlP => ∀ line ∈ e.history[e.back]?,
      Recallable line ∧ ReplacementFits columns column e.behind.length e.text.length
  | .down | .ctrlN =>
      if e.back = 0 then True
      else if e.back = 1 then ReplacementFits columns column e.behind.length e.text.length
      else ∀ line ∈ e.history[e.back - 2]?,
        Recallable line ∧ ReplacementFits columns column e.behind.length e.text.length
  | .home | .ctrlA => e.before.length ≤ column
  | .ctrlK => ErasureFits columns column 0 0 e.behind.length
  | .ctrlU => ErasureFits columns column e.behind.length e.before.length 0
  | .ctrlW => ErasureFits columns column e.behind.length e.word 0
  | .ctrlL => e.behind.length ≤ columnAfter columns 0 (prompt.length + e.text.length)

instance (e : Editor) (columns column : Nat) (key : Key) : Decidable (e.Fits columns column key) := by
  cases key <;> dsimp only [Fits] <;> infer_instance

structure Sound (e : Editor) : Prop where
  text : ∀ byte ∈ e.text, isPrintable byte = true
  draft : ∀ byte ∈ e.draft, isPrintable byte = true
  extent : e.text.length ≤ e.extent

theorem start_sound (history : List (List UInt8)) : (start history).Sound := by
  constructor
  · intro byte mem
    cases mem
  · intro byte mem
    cases mem
  · exact le_rfl

def after (e : Editor) : List UInt8 :=
  e.behind ++ List.replicate (e.extent - e.text.length) space

end Editor

/-- The screen shows the prompt and the line, and blanks as far as the line has ever gone; the
cursor is at the insertion point. -/
def Shown (t : Tty) (e : Editor) : Prop :=
  ∃ gone origin, OnScreen t gone origin (prompt ++ e.before) e.after

namespace Editor

variable {e : Editor} {t : Tty}

theorem Sound.before (sound : e.Sound) : ∀ byte ∈ e.before, isPrintable byte = true :=
  fun byte mem => sound.text byte (List.mem_append_left _ mem)

theorem Sound.behind (sound : e.Sound) : ∀ byte ∈ e.behind, isPrintable byte = true :=
  fun byte mem => sound.text byte (List.mem_append_right _ mem)

theorem text_length (e : Editor) : e.text.length = e.before.length + e.behind.length :=
  List.length_append

theorem shown_moved {u : Tty} {gone origin : Nat} {before behind : List UInt8}
    (same : before ++ behind = e.text)
    (shown : OnScreen u gone origin (prompt ++ before)
      (behind ++ List.replicate (e.extent - e.text.length) space)) :
    Shown u { e with before, behind } := by
  refine ⟨gone, origin, ?_⟩
  have text : ({ e with before, behind } : Editor).text = e.text := same
  unfold after
  rw [text]
  exact shown

theorem shown_left (shown : Shown t e) (fits : min 1 e.before.length ≤ t.term.grid.column) :
    ∃ u, t.feedBytes (List.replicate (min 1 e.before.length) backspace) = some u ∧
      Shown u e.toLeft := by
  obtain ⟨gone, origin, shown⟩ := shown
  rcases List.eq_nil_or_concat e.before with empty | ⟨before, byte, last⟩
  · have same : e.toLeft = e := by simp [toLeft, empty]
    rw [same, empty]
    exact ⟨t, rfl, gone, origin, shown⟩
  · rw [List.concat_eq_append] at last
    have left : e.toLeft = { e with before, behind := byte :: e.behind } := by
      simp [toLeft, last]
    have one : min 1 e.before.length = [byte].length := by simp [last]
    rw [last, ← List.append_assoc] at shown
    rw [one] at fits ⊢
    obtain ⟨u, backed, shownU, -, -⟩ := shown.back fits
    rw [left]
    exact ⟨u, backed, shown_moved (by simp [text, last]) shownU⟩

theorem shown_right (shown : Shown t e) (sound : e.Sound) :
    ∃ u, t.feedBytes (e.behind.take 1) = some u ∧ Shown u e.toRight := by
  obtain ⟨gone, origin, shown⟩ := shown
  cases next : e.behind with
  | nil =>
    have same : e.toRight = e := by simp [toRight, next]
    rw [same]
    exact ⟨t, rfl, gone, origin, shown⟩
  | cons byte behind =>
    have right : e.toRight = { e with before := e.before ++ [byte], behind } := by
      simp [toRight, next]
    have printable : ∀ other ∈ [byte], isPrintable other = true := by
      intro other mem
      apply sound.behind
      rw [next, List.mem_singleton.mp mem]
      exact List.mem_cons_self
    obtain ⟨u, gone', wrote, shownU, -, -⟩ := shown.write printable
    rw [after, next, List.append_assoc] at shownU
    rw [right]
    exact ⟨u, wrote, shown_moved (by simp [text, next]) shownU⟩

theorem shown_start (shown : Shown t e) (fits : e.before.length ≤ t.term.grid.column) :
    ∃ u, t.feedBytes (List.replicate e.before.length backspace) = some u ∧ Shown u e.toStart := by
  obtain ⟨gone, origin, shown⟩ := shown
  obtain ⟨u, backed, shownU, -, -⟩ := shown.back fits
  rw [← List.append_nil prompt, after, ← List.append_assoc e.before] at shownU
  exact ⟨u, backed, shown_moved rfl shownU⟩

theorem shown_end (shown : Shown t e) (sound : e.Sound) :
    ∃ u, t.feedBytes e.behind = some u ∧ Shown u e.toEnd := by
  obtain ⟨gone, origin, shown⟩ := shown
  obtain ⟨u, gone', wrote, shownU, -, -⟩ := shown.write sound.behind
  rw [after, List.drop_left, List.append_assoc] at shownU
  exact ⟨u, wrote, shown_moved (List.append_nil _) shownU⟩

theorem shown_insert (shown : Shown t e) (sound : e.Sound) {byte : UInt8}
    (printable : isPrintable byte = true)
    (fits : e.text.length + 1 < lineMax → e.behind.length ≤
      columnAfter t.term.grid.columns t.term.grid.column (e.behind.length + 1)) :
    ∃ u, t.feedBytes (if e.text.length + 1 < lineMax then insertion byte e.behind else []) =
      some u ∧ Shown u (e.insert byte) := by
  unfold insert
  by_cases room : e.text.length + 1 < lineMax
  · obtain ⟨gone, origin, shown⟩ := shown
    obtain ⟨u, gone', wrote, shownU⟩ := shown.insert printable sound.behind (fits room)
    rw [if_pos room, if_pos room]
    refine ⟨u, wrote, gone', origin, ?_⟩
    have extent := sound.extent
    have total := e.text_length
    have blanks : (e.retype (e.before ++ [byte]) e.behind).extent -
        (e.retype (e.before ++ [byte]) e.behind).text.length = e.extent - e.text.length - 1 := by
      simp only [retype, text, List.length_append, List.length_singleton] at total extent ⊢
      omega
    rw [after, blanks, ← List.drop_replicate]
    rw [List.append_assoc] at shownU
    exact shownU
  · rw [if_neg room, if_neg room]
    exact ⟨t, rfl, shown⟩

theorem shown_erase (shown : Shown t e) (sound : e.Sound) {last first : Nat}
    (had : last ≤ e.before.length) (has : first ≤ e.behind.length)
    (fits : ErasureFits t.term.grid.columns t.term.grid.column (e.behind.drop first).length last
      first) :
    ∃ u, t.feedBytes (erasure (e.behind.drop first) last first) = some u ∧
      Shown u (e.erase last first) := by
  obtain ⟨gone, origin, shown⟩ := shown
  have cut : (e.before.drop (e.before.length - last)).length = last := by
    rw [List.length_drop]
    omega
  have more : (e.behind.take first).length = first := by
    rw [List.length_take]
    omega
  have beforeSplit : prompt ++ e.before = (prompt ++ e.before.take (e.before.length - last)) ++
      e.before.drop (e.before.length - last) := by
    rw [List.append_assoc, List.take_append_drop]
  have behindSplit : e.after = e.behind.take first ++ (e.behind.drop first ++
      List.replicate (e.extent - e.text.length) space) := by
    rw [← List.append_assoc, List.take_append_drop]
    rfl
  have printable : ∀ byte ∈ e.behind.drop first, isPrintable byte = true :=
    fun byte mem => sound.behind byte (List.mem_of_mem_drop mem)
  rw [beforeSplit, behindSplit] at shown
  obtain ⟨u, gone', wrote, shownU⟩ := shown.erase printable (by rw [cut, more]; exact fits)
  rw [cut, more] at wrote shownU
  refine ⟨u, wrote, gone', origin, ?_⟩
  have extent := sound.extent
  have blanks : (e.erase last first).extent - (e.erase last first).text.length =
      last + first + (e.extent - e.text.length) := by
    simp only [erase, text, List.length_append, List.length_take, List.length_drop] at extent ⊢
    omega
  rw [after, blanks, ← List.replicate_append_replicate]
  exact shownU

theorem shown_replace (shown : Shown t e) (sound : e.Sound) {new : List UInt8}
    (printable : ∀ byte ∈ new, isPrintable byte = true)
    (fits : ReplacementFits t.term.grid.columns t.term.grid.column e.behind.length
      e.text.length) :
    ∃ u, t.feedBytes (replacement e new) = some u ∧ Shown u (e.retype new []) := by
  obtain ⟨gone, origin, shown⟩ := shown
  obtain ⟨u, gone', wrote, shownU⟩ := shown.replace sound.behind printable fits
  refine ⟨u, wrote, gone', origin, ?_⟩
  have extent := sound.extent
  have whole : e.text.length + (e.extent - e.text.length) = e.extent := by omega
  have blanks : (e.retype new []).extent - (e.retype new []).text.length =
      e.extent - new.length := by
    simp only [retype, text, List.length_append, List.length_nil, add_zero]
    omega
  have total : (e.before ++ e.behind).length = e.text.length := rfl
  rw [total, List.replicate_append_replicate, whole, List.drop_replicate] at shownU
  rw [after, blanks]
  exact shownU

theorem shown_redraw (shown : Shown t e) (sound : e.Sound) (colored : Bool)
    (fits : e.behind.length ≤
      columnAfter t.term.grid.columns 0 (prompt.length + e.text.length)) :
    ∃ u, t.feedBytes (clearScreen ++ writePrompt colored ++ e.text ++
      List.replicate e.behind.length backspace) = some u ∧ Shown u e := by
  obtain ⟨gone, origin, shown⟩ := shown
  obtain ⟨u, gone', origin', wrote, shownU⟩ :=
    shown.redraw colored sound.text fits (e.extent - e.text.length)
  exact ⟨u, wrote, gone', origin', shownU⟩

end Editor

end Zaytos.Shell
