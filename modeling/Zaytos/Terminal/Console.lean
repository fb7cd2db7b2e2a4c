import Zaytos.Terminal.Ansi
import Zaytos.Terminal.BackBuffer

set_option autoImplicit false

/-! The console (`console/screen.rs`): cells, pixels and what is still to be transferred. An
operation is `none` where the code would stop on an overflow or leave a slice. The counters of
what was transferred and of the cycles it took are left out. -/
namespace Zaytos.Terminal

inductive ConsoleError where
  | backBuffer (error : BackBufferError)
  | screen (error : ScreenError)
  deriving DecidableEq

structure Console where
  front : Framebuffer
  back : Framebuffer
  grid : Screen
  dirty : DirtyRegion
  foreground : Rgb
  background : Rgb
  defaultForeground : Rgb
  defaultBackground : Rgb
  cursorVisible : Bool
  cursorDrawnAt : Option (Nat × Nat)
  inactive : Screen
  alternateActive : Bool
  repaintRequested : Bool

namespace Console

def cursorColor : Rgb := ⟨0, 255, 255⟩

abbrev cursorThickness : Nat := 2

def cursorToCell (s : Console) (column row : Nat) : Console :=
  { s with grid := s.grid.setCursor column row }

def showCursor (s : Console) (visible : Bool) : Console := { s with cursorVisible := visible }

def paintCursor (s : Console) (visible : Bool) : Option Console := do
  let (column, row) := s.grid.cursor
  let x ← mul32 column Font.cellWidth
  let y ← sub (← add32 (← mul32 row Font.glyphHeight) Font.glyphHeight) cursorThickness
  let color :=
    if visible then cursorColor
    else match s.grid.cell column row with
      | some cell => cell.bg
      | none => s.background
  let back ← s.back.fillRect x y Font.cellWidth cursorThickness color
  some { s with back, dirty := s.dirty.mark x y Font.cellWidth cursorThickness }

def eraseDrawnCursor (s : Console) : Option Console :=
  match s.cursorDrawnAt with
  | none => some s
  | some (column, row) => do
    let (currentColumn, currentRow) := s.grid.cursor
    let s := { s with cursorDrawnAt := none, grid := s.grid.setCursor column row }
    let s ← s.paintCursor false
    some { s with grid := s.grid.setCursor currentColumn currentRow }

def refreshCursor (s : Console) : Option Console :=
  if s.cursorVisible = true ∧ s.cursorDrawnAt = some s.grid.cursor then some s
  else do
    let s ← s.eraseDrawnCursor
    if s.cursorVisible then
      let s ← s.paintCursor true
      some { s with cursorDrawnAt := some s.grid.cursor }
    else some s

def setGraphics (s : Console) (graphics : Graphics) : Console :=
  let s :=
    if graphics.reset then
      { s with foreground := s.defaultForeground, background := s.defaultBackground }
    else s
  { s with
    foreground := graphics.foreground.getD s.foreground
    background := graphics.background.getD s.background }

/-- The cell that `repaint_from_cells` comes to. -/
def repaintCell (s : Console) (column row : Nat) : Option Console :=
  if !s.grid.shouldDraw column row then some s
  else match s.grid.cell column row with
    | none => some s
    | some cell =>
      if !cell.needsRepaintAfterClear s.background then some s
      else do
        let x ← mul32 column Font.cellWidth
        let y ← mul32 row Font.glyphHeight
        let back ← s.back.drawGlyph x y (Font.glyph cell.ch) cell.fg cell.bg
        some { s with back }

def repaintRow (s : Console) (row : Nat) : (column count : Nat) → Option Console
  | _, 0 => some s
  | column, count + 1 => do (← s.repaintCell column row).repaintRow row (column + 1) count

def repaintRows (s : Console) : (row count : Nat) → Option Console
  | _, 0 => some s
  | row, count + 1 => do (← s.repaintRow row 0 s.grid.columns).repaintRows (row + 1) count

def repaintFromCells (s : Console) : Option Console := do
  let back ← s.back.clearAll s.background
  let s ← ({ s with back } : Console).repaintRows 0 s.grid.rows
  some { s with dirty := s.dirty.markAll }

def setAlternateScreen (s : Console) (alternate : Bool) : Option Console :=
  if alternate = s.alternateActive then some s
  else
    let s :=
      { s with
        grid := s.inactive
        inactive := s.grid
        alternateActive := alternate
        cursorDrawnAt := none }
    if alternate then do
      let back ← s.back.clearAll s.background
      let grid ← s.grid.reset s.background
      some { s with back, grid, dirty := s.dirty.markAll }
    else s.repaintFromCells

/-- The loop of `erase_cells` over the cells, from one on. -/
def eraseFrom (s : Console) (row : Nat) : (column count : Nat) → Option Console
  | _, 0 => some s
  | column, count + 1 => do
    let grid ← s.grid.put column row ' ' s.background s.background 1
    eraseFrom { s with grid } row (column + 1) count

def eraseCells (s : Console) (row start stop : Nat) : Option Console :=
  if stop ≤ start then some s
  else do
    let x ← mul32 start Font.cellWidth
    let y ← mul32 row Font.glyphHeight
    let width ← mul32 (stop - start) Font.cellWidth
    let back ← s.back.fillRect x y width Font.glyphHeight s.background
    eraseFrom { s with back, dirty := s.dirty.mark x y width Font.glyphHeight } row start
      (stop - start)

/-- `erase_cells` on whole rows, from one on. -/
def eraseRows (s : Console) : (row count : Nat) → Option Console
  | _, 0 => some s
  | row, count + 1 => do (← s.eraseCells row 0 s.grid.columns).eraseRows (row + 1) count

def deleteLines (s : Console) (count : Nat) : Option Console := do
  let (_, row) := s.grid.cursor
  let s ← s.eraseDrawnCursor
  let top ← mul32 row Font.glyphHeight
  let height := s.back.layout.height - top
  let back ← s.back.deleteRows top (← mul32 count Font.glyphHeight) s.background
  let grid ← s.grid.deleteLines row count s.background
  some { s with back, grid, dirty := s.dirty.mark 0 top back.layout.width height }

def insertLines (s : Console) (count : Nat) : Option Console := do
  let (_, row) := s.grid.cursor
  let s ← s.eraseDrawnCursor
  let top ← mul32 row Font.glyphHeight
  let height := s.back.layout.height - top
  let back ← s.back.insertRows top (← mul32 count Font.glyphHeight) s.background
  let grid ← s.grid.insertLines row count s.background
  some { s with back, grid, dirty := s.dirty.mark 0 top back.layout.width height }

def eraseInLine (s : Console) (scope : EraseScope) : Option Console := do
  let (column, row) := s.grid.cursor
  let columns := s.grid.columns
  match scope with
  | .after => s.eraseCells row column columns
  | .before => s.eraseCells row 0 (← add32 column 1)
  | .all => s.eraseCells row 0 columns

def eraseInDisplay (s : Console) (scope : EraseScope) : Option Console := do
  let (column, row) := s.grid.cursor
  let (columns, rows) := (s.grid.columns, s.grid.rows)
  match scope with
  | .after =>
    let s ← s.eraseCells row column columns
    let next ← add32 row 1
    s.eraseRows next (rows - next)
  | .before =>
    let s ← s.eraseRows 0 row
    s.eraseCells row 0 (← add32 column 1)
  | .all =>
    let back ← s.back.clearAll s.background
    let grid ← s.grid.reset s.background
    some { s with back, dirty := s.dirty.markAll, grid := grid.setCursor column row }

def clear (s : Console) : Option Console := do
  let back ← s.back.clearAll s.background
  let grid ← s.grid.reset s.background
  some { s with back, dirty := s.dirty.markAll, grid }

def transfer (s : Console) : Option Rect → Option (Except FlushRangeError Console)
  | none => some (.ok s)
  | some rect => do
    match ← s.back.flushRect s.front rect with
    | .error error => some (.error error)
    | .ok (_, front) => some (.ok { s with front })

def flush (s : Console) : Option (Except FlushRangeError Console) := do
  let s ← if s.repaintRequested then
    ({ s with repaintRequested := false } : Console).repaintFromCells else some s
  let s ← s.refreshCursor
  let (rect, dirty) := s.dirty.take
  ({ s with dirty } : Console).transfer rect

def present (s : Console) (x y width height : Nat) : Option (Except FlushRangeError Console) :=
  let region := DirtyRegion.new s.back.layout.width s.back.layout.height
  s.transfer (region.mark x y width height).bounds

def requestRepaint (s : Console) : Console :=
  { s with cursorDrawnAt := none, repaintRequested := true }

/-- What `put_char` does when the screen has scrolled. -/
def scrolled (s : Console) : Option Console := do
  let back ← s.back.scrollUp Font.glyphHeight s.background
  let dirty := s.dirty.markAll
  let grid ← s.grid.scrollUp s.background
  some { s with back, dirty, grid }

/-- What `put_char` does with a row that is to be cleared. -/
def rowCleared (s : Console) (row : Nat) : Option Console := do
  let top ← mul32 row Font.glyphHeight
  let back ← s.back.clearRows top Font.glyphHeight s.background
  let dirty := s.dirty.mark 0 top back.layout.width Font.glyphHeight
  let grid ← s.grid.clearRow row s.background
  some { s with back, dirty, grid }

/-- What `put_char` does with a character that has found its place. -/
def drawn (s : Console) (c : Char) (place : Placement) : Option Console := do
  let grid ← s.grid.put place.column place.row c s.foreground s.background place.widthCells
  let x ← mul32 place.column Font.cellWidth
  let y ← mul32 place.row Font.glyphHeight
  let glyph := Font.glyph c
  let back ← s.back.drawGlyph x y glyph s.foreground s.background
  some { s with back, grid, dirty := s.dirty.mark x y glyph.widthPixels glyph.heightPixels }

def putChar (s : Console) (c : Char) : Option Console := do
  let s ← s.eraseDrawnCursor
  let (step, grid) ← s.grid.advance c (widthCells c)
  let s := { s with grid }
  let s ← if step.scrolled then s.scrolled else some s
  let s ← match step.clearRow with
    | some row => s.rowCleared row
    | none => some s
  match step.drawAt with
  | some place => s.drawn c place
  | none => some s

def putStr (s : Console) : List Char → Option Console
  | [] => some s
  | c :: cs => do (← s.putChar c).putStr cs

/-- `new`, on memory and cells that hold what they held before. -/
def new (front : Framebuffer) (backBufferBase : Kernel.Paging.Word) (pixels : List UInt32)
    (foreground background : Rgb) (cells alternateCells : List Cell) :
    Option (Except ConsoleError (Except FlushRangeError Console)) :=
  match Framebuffer.newBackBuffer backBufferBase front.layout pixels with
  | .error error => some (.error (.backBuffer error))
  | .ok back =>
    let l := front.layout
    match Screen.fromScreen l.width l.height Font.cellWidth Font.glyphHeight cells
      l.width_lt l.height_lt with
    | .error error => some (.error (.screen error))
    | .ok grid =>
      match Screen.fromScreen l.width l.height Font.cellWidth Font.glyphHeight alternateCells
        l.width_lt l.height_lt with
      | .error error => some (.error (.screen error))
      | .ok inactive => do
        let back ← back.clearAll background
        let grid ← grid.reset background
        let inactive ← inactive.reset background
        let console : Console :=
          { front, back, grid
            dirty := (DirtyRegion.new l.width l.height).markAll
            foreground, background
            defaultForeground := foreground
            defaultBackground := background
            cursorVisible := true
            cursorDrawnAt := none
            inactive
            alternateActive := false
            repaintRequested := false }
        some (.ok (← console.flush))

end Console

def zdiagText : Nat := 252

/-- The console in the foreground with the state that its bytes go through
(`console/mod.rs`). -/
structure Foreground where
  console : Console
  parser : AnsiParser
  decoder : Utf8Decoder
  pending : List UInt8
  /-- `GRAPHICS_ACTIVE`. -/
  graphicsActive : Bool

namespace Foreground

/-- `push_pending_if_alternate`, without the count of what found no room. -/
def pushPending (f : Foreground) (bytes : List UInt8) : Foreground :=
  if f.console.alternateActive then
    { f with pending := f.pending ++ bytes.take (min bytes.length (zdiagText - f.pending.length)) }
  else f

def flushPendingToScreen (f : Foreground) : Option Foreground :=
  if f.pending = [] then some f
  else do
    let console ← f.console.putStr (f.pending.map fun byte => Char.ofNat byte.toNat)
    let console ←
      if f.pending.getLast? = some 0x0A then some console else console.putChar '\n'
    some { f with console, pending := [] }

/-- What `write_foreground_bytes` does for an action of the parser. -/
def act (f : Foreground) : AnsiAction → Option Foreground
  | .print c => do some { f with console := ← f.console.putChar c }
  | .cursorTo row col => do
    some { f with console := f.console.cursorToCell (← sub col 1) (← sub row 1) }
  | .eraseDisplay scope => do some { f with console := ← f.console.eraseInDisplay scope }
  | .eraseLine scope => do some { f with console := ← f.console.eraseInLine scope }
  | .insertLines count => do some { f with console := ← f.console.insertLines count }
  | .deleteLines count => do some { f with console := ← f.console.deleteLines count }
  | .setGraphics graphics => some { f with console := f.console.setGraphics graphics }
  | .showCursor visible => some { f with console := f.console.showCursor visible }
  | .alternateScreen alternate => do
    let f := { f with console := ← f.console.setAlternateScreen alternate }
    if alternate then some f else f.flushPendingToScreen

def feedChar (f : Foreground) (c : Char) : Option Foreground := do
  let (action, parser) ← f.parser.feed 2 c
  let f := { f with parser }
  match action with
  | none => some f
  | some action => f.act action

def feedChars (f : Foreground) : List Char → Option Foreground
  | [] => some f
  | c :: cs => do (← f.feedChar c).feedChars cs

def feedByte (f : Foreground) (byte : UInt8) : Option Foreground := do
  let (decoded, decoder) ← f.decoder.feed byte
  ({ f with decoder } : Foreground).feedChars (decoded.take 4)

def feedBytes (f : Foreground) : List UInt8 → Option Foreground
  | [] => some f
  | byte :: bytes => do (← f.feedByte byte).feedBytes bytes

def writeForegroundBytes (f : Foreground) (bytes : List UInt8) : Option Foreground :=
  if f.graphicsActive then some f else f.feedBytes bytes

def flushForeground (f : Foreground) : Option (Except FlushRangeError Foreground) :=
  if f.graphicsActive then some (.ok f)
  else do
    match ← f.console.flush with
    | .error error => some (.error error)
    | .ok console => some (.ok { f with console })

end Foreground

end Zaytos.Terminal
