import Zaytos.Lib.Raster

set_option autoImplicit false

/-! What a screen of cells is for: a rectangle of cells and a place in it where the next
character goes, which may be just past the last column. -/
namespace Zaytos.Terminal

/-- `Rgb`, and `Color` of the drawing side. -/
structure Rgb where
  red : UInt8
  green : UInt8
  blue : UInt8
  deriving DecidableEq

structure Cell where
  ch : Char
  fg : Rgb
  bg : Rgb
  attrs : UInt8
  deriving DecidableEq

namespace Cell

/-- `CONTINUATION`: the right half of a wide character. -/
def continuation : UInt8 := 1

def needsRepaintAfterClear (cell : Cell) (clearedTo : Rgb) : Bool :=
  cell.ch != ' ' || cell.bg != clearedTo

def isContinuation (cell : Cell) : Bool := cell.attrs &&& continuation != 0

def blank : Cell := ⟨' ', ⟨0, 0, 0⟩, ⟨0, 0, 0⟩, 0⟩

def cleared (bg : Rgb) : Cell := ⟨' ', bg, bg, 0⟩

/-- The right half that `put` leaves beside a wide character. -/
def rightHalf (fg bg : Rgb) : Cell := ⟨' ', fg, bg, continuation⟩

end Cell

def tabWidth : Nat := 8

def maxGlyphWidthCells : Nat := 2

structure Placement where
  column : Nat
  row : Nat
  widthCells : Nat
  deriving DecidableEq

/-- `Step`: what the drawing side has to do, in this order. -/
structure Step where
  scrolled : Bool := false
  clearRow : Option Nat := none
  drawAt : Option Placement := none
  deriving DecidableEq

structure Grid where
  columns : Nat
  rows : Nat
  column : Nat
  row : Nat
  cell : Raster Cell

namespace Grid

structure Sound (g : Grid) : Prop where
  wide : 2 ≤ g.columns
  tall : 1 ≤ g.rows
  column : g.column ≤ g.columns
  row : g.row < g.rows
  sized : g.cell.Sized g.columns g.rows

def start (columns rows : Nat) (bg : Rgb) : Grid where
  columns := columns
  rows := rows
  column := 0
  row := 0
  cell := Raster.plain columns rows (Cell.cleared bg)

def paint (g : Grid) (column row count : Nat) (cell : Cell) : Grid :=
  { g with cell := g.cell.fill column row count 1 cell }

def put (g : Grid) (column row : Nat) (ch : Char) (fg bg : Rgb) (width : Nat) : Grid :=
  (g.paint column row 1 ⟨ch, fg, bg, 0⟩).paint (column + 1) row (width - 1) (Cell.rightHalf fg bg)

def clearRow (g : Grid) (row : Nat) (bg : Rgb) : Grid := g.paint 0 row g.columns (Cell.cleared bg)

def deleteLines (g : Grid) (row count : Nat) (bg : Rgb) : Grid :=
  { g with cell := g.cell.deleteRows row count (Cell.cleared bg) }

def insertLines (g : Grid) (row count : Nat) (bg : Rgb) : Grid :=
  { g with cell := g.cell.insertRows row count (Cell.cleared bg) }

def reset (g : Grid) (bg : Rgb) : Grid :=
  { g with column := 0, row := 0, cell := g.cell.blank (Cell.cleared bg) }

def setCursor (g : Grid) (column row : Nat) : Grid :=
  { g with column := min column (g.columns - 1), row := min row (g.rows - 1) }

def breakLine (g : Grid) : Bool × Grid :=
  if g.row + 1 < g.rows then (false, { g with column := 0, row := g.row + 1 })
  else (true, { g with column := 0 })

def tab (g : Grid) : Step × Grid :=
  let next := (g.column / tabWidth + 1) * tabWidth
  if g.columns ≤ next then
    ({ scrolled := g.breakLine.1 }, g.breakLine.2)
  else ({}, { g with column := next })

def place (g : Grid) (width : Nat) : Step × Grid :=
  if g.columns < g.column + width then
    ({ scrolled := g.breakLine.1, drawAt := some ⟨0, g.breakLine.2.row, width⟩ },
      { g.breakLine.2 with column := width })
  else
    ({ drawAt := some ⟨g.column, g.row, width⟩ }, { g with column := g.column + width })

def advance (g : Grid) (c : Char) (width : Nat) : Step × Grid :=
  if c = '\n' then ({ scrolled := g.breakLine.1 }, g.breakLine.2)
  else if c = '\r' then ({ clearRow := some g.row }, { g with column := 0 })
  else if c = '\t' then g.tab
  else if c = '\x08' then ({}, { g with column := g.column - 1 })
  else g.place width

section Soundness

variable {g : Grid}

theorem start_sound {columns rows : Nat} (wide : 2 ≤ columns) (tall : 1 ≤ rows) (bg : Rgb) :
    (start columns rows bg).Sound where
  wide := wide
  tall := tall
  column := Nat.zero_le _
  row := tall
  sized := Raster.plain_sized _ _ _

theorem Sound.reset_eq (sound : g.Sound) (bg : Rgb) : g.reset bg = start g.columns g.rows bg := by
  unfold Grid.reset start
  rw [sound.sized.blank_eq]

theorem paint_zero (g : Grid) (column row : Nat) (cell : Cell) : g.paint column row 0 cell = g := by
  rw [paint, Raster.fill_empty]

theorem paint_right (g : Grid) (column row n m : Nat) (cell : Cell) :
    (g.paint column row n cell).paint (column + n) row m cell = g.paint column row (n + m) cell := by
  simp only [paint, Raster.fill_right]

theorem Sound.paint_past (sound : g.Sound) {column row : Nat}
    (past : ¬ (column < g.columns ∧ row < g.rows)) (count : Nat) (cell : Cell) :
    g.paint column row count cell = g := by
  rw [paint, sound.sized.fill_past (by omega)]

theorem Sound.paint (sound : g.Sound) (column row count : Nat) (cell : Cell) :
    (g.paint column row count cell).Sound :=
  { sound with sized := sound.sized.fill _ }

theorem Sound.deleteLines (sound : g.Sound) (row count : Nat) (bg : Rgb) :
    (g.deleteLines row count bg).Sound :=
  { sound with sized := sound.sized.deleteRows _ _ _ }

theorem Sound.reset (sound : g.Sound) (bg : Rgb) : (g.reset bg).Sound :=
  { sound with
    column := Nat.zero_le _
    row := sound.tall
    sized := sound.sized.blank _ }

theorem Sound.setCursor (sound : g.Sound) (column row : Nat) : (g.setCursor column row).Sound := by
  have wide := sound.wide
  have tall := sound.tall
  refine { sound with column := ?_, row := ?_ }
  · simp only [Grid.setCursor]
    omega
  · simp only [Grid.setCursor]
    omega

theorem Sound.breakLine (sound : g.Sound) : g.breakLine.2.Sound := by
  have row := sound.row
  unfold Grid.breakLine
  split
  case isTrue below => exact { sound with column := Nat.zero_le _, row := below }
  case isFalse => exact { sound with column := Nat.zero_le _ }

theorem breakLine_columns : g.breakLine.2.columns = g.columns := by
  unfold breakLine
  split <;> rfl

theorem breakLine_rows : g.breakLine.2.rows = g.rows := by
  unfold breakLine
  split <;> rfl

theorem breakLine_cell : g.breakLine.2.cell = g.cell := by
  unfold breakLine
  split <;> rfl

theorem Sound.tab (sound : g.Sound) : g.tab.2.Sound := by
  unfold Grid.tab
  dsimp only
  split
  case isTrue => exact sound.breakLine
  case isFalse inside =>
    refine { sound with column := ?_ }
    dsimp only
    omega

theorem Sound.place (sound : g.Sound) {width : Nat} (few : width ≤ 2) : (g.place width).2.Sound := by
  have wide := sound.wide
  unfold Grid.place
  split
  · refine { sound.breakLine with column := ?_ }
    dsimp only
    rw [breakLine_columns]
    omega
  · refine { sound with column := ?_ }
    dsimp only
    omega

theorem Sound.advance (sound : g.Sound) (c : Char) {width : Nat} (few : width ≤ 2) :
    (g.advance c width).2.Sound := by
  unfold Grid.advance
  split_ifs
  · exact sound.breakLine
  · exact { sound with column := Nat.zero_le _ }
  · exact sound.tab
  · have column := sound.column
    refine { sound with column := ?_ }
    dsimp only
    omega
  · exact sound.place few

theorem advance_cell (g : Grid) (c : Char) (width : Nat) : (g.advance c width).2.cell = g.cell := by
  unfold advance tab place
  split_ifs <;> first
    | exact breakLine_cell
    | (dsimp only; split_ifs <;> first | exact breakLine_cell | rfl)
    | rfl

theorem tab_step (g : Grid) : g.tab.1.drawAt = none ∧ g.tab.1.clearRow = none := by
  unfold tab
  dsimp only
  split <;> exact ⟨rfl, rfl⟩

theorem Sound.advance_drawAt (sound : g.Sound) {c : Char} {width : Nat} (few : width ≤ 2)
    {place : Placement} (drawn : (g.advance c width).1.drawAt = some place) :
    place.column + width ≤ g.columns ∧ place.row < g.rows ∧ place.widthCells = width := by
  have wide := sound.wide
  have row := sound.breakLine.row
  rw [breakLine_rows] at row
  unfold Grid.advance at drawn
  split_ifs at drawn
  · rw [(tab_step g).1] at drawn
    cases drawn
  · unfold Grid.place at drawn
    split at drawn
    · cases drawn
      dsimp only
      exact ⟨by omega, row, rfl⟩
    · cases drawn
      dsimp only
      exact ⟨by omega, sound.row, rfl⟩

theorem Sound.advance_clearRow (sound : g.Sound) {c : Char} {width row : Nat}
    (cleared : (g.advance c width).1.clearRow = some row) : row < g.rows := by
  unfold Grid.advance at cleared
  split_ifs at cleared
  · cases cleared
    exact sound.row
  · rw [(tab_step g).2] at cleared
    cases cleared
  · unfold Grid.place at cleared
    split at cleared <;> cases cleared

theorem advance_size (g : Grid) (c : Char) (width : Nat) :
    (g.advance c width).2.columns = g.columns ∧ (g.advance c width).2.rows = g.rows := by
  unfold advance tab place
  split_ifs <;> dsimp only <;> first
    | exact ⟨breakLine_columns, breakLine_rows⟩
    | (split_ifs <;> first | exact ⟨breakLine_columns, breakLine_rows⟩ | exact ⟨rfl, rfl⟩)
    | exact ⟨rfl, rfl⟩

end Soundness

end Grid

end Zaytos.Terminal
