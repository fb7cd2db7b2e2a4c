import Zaytos.Terminal.Console

set_option autoImplicit false

/-! A terminal as its user sees it: two sides of cells, a pen, and the cell in which the cursor is
drawn. No pixels: `none` is only where a number of the terminal is too large for its pixels. -/
namespace Zaytos.Terminal

structure Term where
  grid : Grid
  other : Grid
  foreground : Rgb
  background : Rgb
  defaultForeground : Rgb
  defaultBackground : Rgb
  cursorVisible : Bool
  drawnAt : Option (Nat × Nat)
  alternate : Bool

namespace Term

def start (columns rows : Nat) (foreground background : Rgb) : Term where
  grid := .start columns rows background
  other := .start columns rows background
  foreground := foreground
  background := background
  defaultForeground := foreground
  defaultBackground := background
  cursorVisible := true
  drawnAt := none
  alternate := false

structure Sound (t : Term) : Prop where
  grid : t.grid.Sound
  other : t.other.Sound

/-- The cursor is no longer drawn. To erase it is to put it back to where it was within the row,
so it does not stay past the last column. -/
def eraseDrawn (t : Term) : Term :=
  match t.drawnAt with
  | none => t
  | some _ => { t with drawnAt := none, grid := t.grid.setCursor t.grid.column t.grid.row }

@[simp] theorem eraseDrawn_foreground (t : Term) : t.eraseDrawn.foreground = t.foreground := by
  unfold eraseDrawn
  cases t.drawnAt <;> rfl

@[simp] theorem eraseDrawn_background (t : Term) : t.eraseDrawn.background = t.background := by
  unfold eraseDrawn
  cases t.drawnAt <;> rfl

@[simp] theorem eraseDrawn_cursorVisible (t : Term) :
    t.eraseDrawn.cursorVisible = t.cursorVisible := by
  unfold eraseDrawn
  cases t.drawnAt <;> rfl

theorem eraseDrawn_grid (t : Term) : t.eraseDrawn.grid.columns = t.grid.columns ∧
    t.eraseDrawn.grid.rows = t.grid.rows ∧ t.eraseDrawn.grid.cell = t.grid.cell := by
  unfold eraseDrawn
  cases t.drawnAt <;> exact ⟨rfl, rfl, rfl⟩

def refresh (t : Term) : Term :=
  if t.cursorVisible = true ∧ t.drawnAt = some (t.grid.column, t.grid.row) then t
  else
    let t := t.eraseDrawn
    if t.cursorVisible then { t with drawnAt := some (t.grid.column, t.grid.row) } else t

def settle (t : Term) (c : Char) (step : Step) : Term :=
  let t := if step.scrolled then { t with grid := t.grid.deleteLines 0 1 t.background } else t
  let t := match step.clearRow with
    | some row => { t with grid := t.grid.clearRow row t.background }
    | none => t
  match step.drawAt with
  | some place =>
    { t with grid := t.grid.put place.column place.row c t.foreground t.background place.widthCells }
  | none => t

def putChar (t : Term) (c : Char) : Term :=
  let t := t.eraseDrawn
  let (step, grid) := t.grid.advance c (widthCells c)
  ({ t with grid } : Term).settle c step

def putStr (t : Term) (cs : List Char) : Term := cs.foldl putChar t

def cursorTo (t : Term) (column row : Nat) : Term :=
  { t with grid := t.grid.setCursor column row }

def eraseCells (t : Term) (row start stop : Nat) : Term :=
  { t with grid := t.grid.paint start row (stop - start) (Cell.cleared t.background) }

def eraseRows (t : Term) (row count : Nat) : Term :=
  { t with
    grid := { t.grid with
      cell := t.grid.cell.fill 0 row t.grid.columns count (Cell.cleared t.background) } }

/-- The cells up to the cursor, whose number is multiplied by the width of a cell. -/
def eraseBefore (t : Term) : Option Term :=
  if 8 * (t.grid.column + 1) < 2 ^ 32 then some (t.eraseCells t.grid.row 0 (t.grid.column + 1))
  else none

def eraseInLine (t : Term) : EraseScope → Option Term
  | .after => some (t.eraseCells t.grid.row t.grid.column t.grid.columns)
  | .before => t.eraseBefore
  | .all => some (t.eraseCells t.grid.row 0 t.grid.columns)

def eraseInDisplay (t : Term) : EraseScope → Option Term
  | .after =>
    let t := t.eraseCells t.grid.row t.grid.column t.grid.columns
    some (t.eraseRows (t.grid.row + 1) (t.grid.rows - (t.grid.row + 1)))
  | .before => (t.eraseRows 0 t.grid.row).eraseBefore
  | .all => some
    { t with grid := (t.grid.reset t.background).setCursor t.grid.column t.grid.row }

def deleteLines (t : Term) (count : Nat) : Option Term :=
  if 16 * count < 2 ^ 32 then
    let row := t.grid.row
    let t := t.eraseDrawn
    some { t with grid := t.grid.deleteLines row count t.background }
  else none

def insertLines (t : Term) (count : Nat) : Option Term :=
  if 16 * count < 2 ^ 32 then
    let row := t.grid.row
    let t := t.eraseDrawn
    some { t with grid := t.grid.insertLines row count t.background }
  else none

def setGraphics (t : Term) (graphics : Graphics) : Term :=
  let t :=
    if graphics.reset then
      { t with foreground := t.defaultForeground, background := t.defaultBackground }
    else t
  { t with
    foreground := graphics.foreground.getD t.foreground
    background := graphics.background.getD t.background }

def clear (t : Term) : Term := { t with grid := t.grid.reset t.background }

def setAlternateScreen (t : Term) (alternate : Bool) : Term :=
  if alternate = t.alternate then t
  else
    let t := { t with grid := t.other, other := t.grid, alternate, drawnAt := none }
    if alternate then { t with grid := t.grid.reset t.background } else t

end Term

structure Tty where
  term : Term
  parser : AnsiParser
  decoder : Utf8Decoder
  pending : List UInt8
  graphicsActive : Bool

namespace Tty

def flushPending (t : Tty) : Tty :=
  if t.pending = [] then t
  else
    let text := t.pending.map fun byte => Char.ofNat byte.toNat
    let text := if t.pending.getLast? = some 0x0A then text else text ++ ['\n']
    { t with term := t.term.putStr text, pending := [] }

def act (t : Tty) : AnsiAction → Option Tty
  | .print c => some { t with term := t.term.putChar c }
  | .cursorTo row col => some { t with term := t.term.cursorTo (col - 1) (row - 1) }
  | .eraseDisplay scope => do some { t with term := ← t.term.eraseInDisplay scope }
  | .eraseLine scope => do some { t with term := ← t.term.eraseInLine scope }
  | .insertLines count => do some { t with term := ← t.term.insertLines count }
  | .deleteLines count => do some { t with term := ← t.term.deleteLines count }
  | .setGraphics graphics => some { t with term := t.term.setGraphics graphics }
  | .showCursor visible => some { t with term := { t.term with cursorVisible := visible } }
  | .alternateScreen alternate =>
    let t := { t with term := t.term.setAlternateScreen alternate }
    some (if alternate then t else t.flushPending)

def feedChar (t : Tty) (c : Char) : Option Tty := do
  let (action, parser) ← t.parser.feed 2 c
  let t := { t with parser }
  match action with
  | none => some t
  | some action => t.act action

def feedChars (t : Tty) : List Char → Option Tty
  | [] => some t
  | c :: cs => do (← t.feedChar c).feedChars cs

def feedByte (t : Tty) (byte : UInt8) : Option Tty := do
  let (decoded, decoder) ← t.decoder.feed byte
  ({ t with decoder } : Tty).feedChars decoded

def feedBytes (t : Tty) : List UInt8 → Option Tty
  | [] => some t
  | byte :: bytes => do (← t.feedByte byte).feedBytes bytes

end Tty

end Zaytos.Terminal

/-! A terminal with the picture of the side that is shown: what each operation of the console does
to the cells and to the pixels, with no memory and no numbers that are too large. -/
namespace Zaytos.Terminal

structure Display where
  term : Term
  picture : Raster UInt32

namespace Display

variable (ink : Rgb → UInt32) (d : Display)

def start (width height : Nat) (foreground background : Rgb) : Display :=
  ⟨.start (width / 8) (height / 16) foreground background,
    Raster.plain width height (ink background)⟩

def cellImage (cell : Cell) (i j : Nat) : UInt32 :=
  Framebuffer.glyphImage (Font.glyph cell.ch) (ink cell.fg) (ink cell.bg) i j

def under (t : Term) (column row : Nat) : Rgb :=
  match t.grid.cell column row with
  | some cell => cell.bg
  | none => t.background

def line (column row : Nat) (color : Rgb) : Display :=
  { d with picture := d.picture.fill (8 * column) (16 * row + 14) 8 2 (ink color) }

def eraseDrawn : Display :=
  match d.term.drawnAt with
  | none => d
  | some (column, row) =>
    let place := d.term.grid.setCursor column row
    { d.line ink place.column place.row (under d.term place.column place.row) with
      term := d.term.eraseDrawn }

def drawCursor : Display :=
  { d.line ink d.term.grid.column d.term.grid.row Console.cursorColor with
    term := { d.term with drawnAt := some (d.term.grid.column, d.term.grid.row) } }

def refresh : Display :=
  if d.term.cursorVisible = true ∧ d.term.drawnAt = some (d.term.grid.column, d.term.grid.row) then
    d
  else if d.term.cursorVisible then (d.eraseDrawn ink).drawCursor ink
  else d.eraseDrawn ink

/-- What is at a point when the cells are drawn on a cleared screen: nothing is drawn of a right
half and of a blank cell. -/
def shown (t : Term) (i j : Nat) : UInt32 :=
  match t.grid.cell (i / 8) (j / 16) with
  | none => ink t.background
  | some cell =>
    if cell.isContinuation || !cell.needsRepaintAfterClear t.background then ink t.background
    else cellImage ink cell (i % 8) (j % 16)

def repaint : Display :=
  { d with picture := fun i j => (d.picture i j).map fun _ => shown ink d.term i j }

def clear : Display := ⟨d.term.clear, d.picture.blank (ink d.term.background)⟩

def setAlternateScreen (alternate : Bool) : Display :=
  if alternate = d.term.alternate then d
  else
    let d := { d with term := d.term.setAlternateScreen alternate }
    if alternate then { d with picture := d.picture.blank (ink d.term.background) }
    else d.repaint ink

def eraseCells (row start stop : Nat) : Display :=
  ⟨d.term.eraseCells row start stop,
    d.picture.fill (8 * start) (16 * row) (8 * (stop - start)) 16 (ink d.term.background)⟩

def eraseRows (row count : Nat) : Display :=
  ⟨d.term.eraseRows row count,
    d.picture.fill 0 (16 * row) (8 * d.term.grid.columns) (16 * count) (ink d.term.background)⟩

def eraseBefore : Option Display :=
  if 8 * (d.term.grid.column + 1) < 2 ^ 32 then
    some (d.eraseCells ink d.term.grid.row 0 (d.term.grid.column + 1))
  else none

def eraseInLine : EraseScope → Option Display
  | .after => some (d.eraseCells ink d.term.grid.row d.term.grid.column d.term.grid.columns)
  | .before => d.eraseBefore ink
  | .all => some (d.eraseCells ink d.term.grid.row 0 d.term.grid.columns)

def eraseInDisplay : EraseScope → Option Display
  | .after =>
    let d := d.eraseCells ink d.term.grid.row d.term.grid.column d.term.grid.columns
    some (d.eraseRows ink (d.term.grid.row + 1) (d.term.grid.rows - (d.term.grid.row + 1)))
  | .before => (d.eraseRows ink 0 d.term.grid.row).eraseBefore ink
  | .all =>
    let (column, row) := (d.term.grid.column, d.term.grid.row)
    let d := d.clear ink
    some { d with term := d.term.cursorTo column row }

def deleteLines (count : Nat) : Option Display := do
  let term ← d.term.deleteLines count
  let picture := (d.eraseDrawn ink).picture
  some ⟨term, picture.deleteRows (16 * d.term.grid.row) (16 * count) (ink d.term.background)⟩

def insertLines (count : Nat) : Option Display := do
  let term ← d.term.insertLines count
  let picture := (d.eraseDrawn ink).picture
  some ⟨term, picture.insertRows (16 * d.term.grid.row) (16 * count) (ink d.term.background)⟩

def scroll : Display :=
  ⟨{ d.term with grid := d.term.grid.deleteLines 0 1 d.term.background },
    d.picture.deleteRows 0 16 (ink d.term.background)⟩

def clearRow (row : Nat) : Display :=
  ⟨{ d.term with grid := d.term.grid.clearRow row d.term.background },
    d.picture.blankRows (16 * row) 16 (ink d.term.background)⟩

/-- A character at its place, with the half of a wide one that its glyph has. -/
def draw (c : Char) (place : Placement) : Display :=
  ⟨{ d.term with
      grid := d.term.grid.put place.column place.row c d.term.foreground d.term.background
        place.widthCells },
    d.picture.draw (8 * place.column) (16 * place.row) 8 16
      (Framebuffer.glyphImage (Font.glyph c) (ink d.term.foreground) (ink d.term.background))⟩

def settle (c : Char) (step : Step) : Display :=
  let d := if step.scrolled then d.scroll ink else d
  let d := match step.clearRow with
    | some row => d.clearRow ink row
    | none => d
  match step.drawAt with
  | some place => d.draw ink c place
  | none => d

def putChar (c : Char) : Display :=
  let d := d.eraseDrawn ink
  let (step, grid) := d.term.grid.advance c (widthCells c)
  ({ d with term := { d.term with grid } } : Display).settle ink c step

theorem eraseDrawn_term : (d.eraseDrawn ink).term = d.term.eraseDrawn := by
  unfold eraseDrawn Term.eraseDrawn
  cases d.term.drawnAt <;> rfl

theorem settle_term (c : Char) (step : Step) : (d.settle ink c step).term = d.term.settle c step := by
  unfold settle Term.settle
  cases step.scrolled <;> cases step.clearRow <;> cases step.drawAt <;> rfl

theorem putChar_term (c : Char) : (d.putChar ink c).term = d.term.putChar c := by
  unfold putChar Term.putChar
  rw [settle_term, eraseDrawn_term]

theorem eraseBefore_term : (d.eraseBefore ink).map Display.term = d.term.eraseBefore := by
  unfold eraseBefore Term.eraseBefore
  split <;> rfl

theorem eraseInLine_term (scope : EraseScope) :
    (d.eraseInLine ink scope).map Display.term = d.term.eraseInLine scope := by
  cases scope with
  | after => rfl
  | before => exact eraseBefore_term ink d
  | all => rfl

theorem eraseInDisplay_term (scope : EraseScope) :
    (d.eraseInDisplay ink scope).map Display.term = d.term.eraseInDisplay scope := by
  cases scope with
  | after => rfl
  | before => exact eraseBefore_term ink (d.eraseRows ink 0 d.term.grid.row)
  | all => rfl

theorem deleteLines_term (count : Nat) :
    (d.deleteLines ink count).map Display.term = d.term.deleteLines count := by
  unfold deleteLines
  cases d.term.deleteLines count <;> rfl

theorem insertLines_term (count : Nat) :
    (d.insertLines ink count).map Display.term = d.term.insertLines count := by
  unfold insertLines
  cases d.term.insertLines count <;> rfl

theorem setAlternateScreen_term (alternate : Bool) :
    (d.setAlternateScreen ink alternate).term = d.term.setAlternateScreen alternate := by
  unfold setAlternateScreen
  by_cases same : alternate = d.term.alternate
  · rw [if_pos same, Term.setAlternateScreen, if_pos same]
  · rw [if_neg same]
    cases alternate <;> rfl

theorem refresh_term : (d.refresh ink).term = d.term.refresh := by
  unfold refresh Term.refresh
  by_cases stays : d.term.cursorVisible = true ∧
      d.term.drawnAt = some (d.term.grid.column, d.term.grid.row)
  · rw [if_pos stays, if_pos stays]
  · rw [if_neg stays, if_neg stays]
    have visible : d.term.cursorVisible = (d.eraseDrawn ink).term.cursorVisible := by
      rw [eraseDrawn_term, Term.eraseDrawn_cursorVisible]
    dsimp only
    rw [← eraseDrawn_term ink d, visible]
    split <;> rfl

end Display

end Zaytos.Terminal
