import Zaytos.Lib.Checked
import Zaytos.Terminal.Grid

set_option autoImplicit false

/-! The cells of a terminal in memory (`common/src/screen.rs`); `none` where the code would stop
on an overflow or on an index out of range. -/
namespace Zaytos.Terminal

inductive ScreenError where
  | emptyGrid (columns rows : Nat)
  | zeroCellSize (cellWidth cellHeight : Nat)
  | tooNarrow (columns required : Nat)
  | cellsTooSmall (have' needed : Nat)
  deriving DecidableEq

/-- `Screen`. The size never changes once `new` has checked it. -/
structure Screen where
  columns : Nat
  rows : Nat
  cursorColumn : Nat
  cursorRow : Nat
  cells : List Cell
  wide : maxGlyphWidthCells ≤ columns
  tall : 1 ≤ rows
  columns_lt : columns < 2 ^ 32
  rows_lt : rows < 2 ^ 32

/-- `saturating_add` and `saturating_mul` end here. -/
def saturate32 (n : Nat) : Nat := min n (2 ^ 32 - 1)

variable {g' : Grid} {r : Option Screen} {width columns rows : Nat} {cells : List Cell}

namespace Screen

/-- `new`. The product of two `u32` does not saturate a `usize`. -/
def new (columns rows : Nat) (cells : List Cell) (columns_lt : columns < 2 ^ 32)
    (rows_lt : rows < 2 ^ 32) : Except ScreenError Screen :=
  if empty : columns = 0 ∨ rows = 0 then .error (.emptyGrid columns rows)
  else if narrow : columns < maxGlyphWidthCells then
    .error (.tooNarrow columns maxGlyphWidthCells)
  else if cells.length < columns * rows then
    .error (.cellsTooSmall cells.length (columns * rows))
  else .ok
    { columns, rows
      cursorColumn := 0
      cursorRow := 0
      cells := List.replicate (columns * rows) Cell.blank ++ cells.drop (columns * rows)
      wide := by omega
      tall := by omega
      columns_lt, rows_lt }

def fromScreen (screenWidth screenHeight cellWidth cellHeight : Nat) (cells : List Cell)
    (width_lt : screenWidth < 2 ^ 32) (height_lt : screenHeight < 2 ^ 32) :
    Except ScreenError Screen :=
  if cellWidth = 0 ∨ cellHeight = 0 then .error (.zeroCellSize cellWidth cellHeight)
  else new (screenWidth / cellWidth) (screenHeight / cellHeight) cells
    (Nat.lt_of_le_of_lt (Nat.div_le_self _ _) width_lt)
    (Nat.lt_of_le_of_lt (Nat.div_le_self _ _) height_lt)

def cursor (s : Screen) : Nat × Nat := (s.cursorColumn, s.cursorRow)

def setCursor (s : Screen) (column row : Nat) : Screen :=
  { s with cursorColumn := min column (s.columns - 1), cursorRow := min row (s.rows - 1) }

def index (s : Screen) (column row : Nat) : Option Nat :=
  if s.columns ≤ column ∨ s.rows ≤ row then none else some (row * s.columns + column)

def cell (s : Screen) : Raster Cell := fun column row =>
  (s.index column row).bind fun k => s.cells[k]?

def shouldDraw (s : Screen) (column row : Nat) : Bool :=
  (s.cell column row).any fun cell => !cell.isContinuation

/-- The loop of `put` over the cells on the right. -/
def putRest (s : Screen) (column row : Nat) (fg bg : Rgb) : (extra count : Nat) → Option Screen
  | _, 0 => some s
  | extra, count + 1 =>
    match (add32 column extra).map fun column => s.index column row with
    | none => none
    | some none => some s
    | some (some k) =>
      let s := { s with cells := s.cells.set k (Cell.rightHalf fg bg) }
      s.putRest column row fg bg (extra + 1) count

def put (s : Screen) (column row : Nat) (ch : Char) (fg bg : Rgb) (widthCells : Nat) :
    Option Screen :=
  match s.index column row with
  | none => some s
  | some k =>
    let s := { s with cells := s.cells.set k ⟨ch, fg, bg, 0⟩ }
    s.putRest column row fg bg 1 (widthCells - 1)

/-- The loop of `clear_row`, from a column on. -/
def clearFrom (s : Screen) (row : Nat) (bg : Rgb) : (column count : Nat) → Option Screen
  | _, 0 => some s
  | column, count + 1 => do (← s.put column row ' ' bg bg 1).clearFrom row bg (column + 1) count

def clearRow (s : Screen) (row : Nat) (bg : Rgb) : Option Screen := s.clearFrom row bg 0 s.columns

/-- `clear_row` on one row after the other. -/
def clearRows (s : Screen) (bg : Rgb) : (row count : Nat) → Option Screen
  | _, 0 => some s
  | row, count + 1 => do (← s.clearRow row bg).clearRows bg (row + 1) count

def deleteLines (s : Screen) (row count : Nat) (bg : Rgb) : Option Screen :=
  if s.rows ≤ row ∨ count = 0 then some s
  else do
    let width := s.columns
    let count := min count (s.rows - row)
    let first := row * width
    let start := (← add32 row count) * width
    let stop := s.rows * width
    let cells ← if start < stop then Slices.copyWithin s.cells start stop first else some s.cells
    ({ s with cells } : Screen).clearRows bg (s.rows - count) count

def scrollUp (s : Screen) (bg : Rgb) : Option Screen := s.deleteLines 0 1 bg

def insertLines (s : Screen) (row count : Nat) (bg : Rgb) : Option Screen :=
  if s.rows ≤ row ∨ count = 0 then some s
  else do
    let width := s.columns
    let count := min count (s.rows - row)
    let first := row * width
    let dest := (← add32 row count) * width
    let stop := s.rows * width
    let cells ← if dest < stop then
      Slices.copyWithin s.cells first (stop - (dest - first)) dest else some s.cells
    ({ s with cells } : Screen).clearRows bg row count

def reset (s : Screen) (bg : Rgb) : Option Screen :=
  ({ s with cursorColumn := 0, cursorRow := 0 } : Screen).clearRows bg 0 s.rows

def breakLine (s : Screen) : Option (Bool × Screen) := do
  if (← add32 s.cursorRow 1) < s.rows then
    some (false, { s with cursorColumn := 0, cursorRow := s.cursorRow + 1 })
  else some (true, { s with cursorColumn := 0 })

def tab (s : Screen) : Option (Step × Screen) := do
  let next := saturate32 (saturate32 (s.cursorColumn / tabWidth + 1) * tabWidth)
  if s.columns ≤ next then
    let (scrolled, s) ← s.breakLine
    some ({ scrolled }, s)
  else some ({}, { s with cursorColumn := next })

def place (s : Screen) (widthCells : Nat) : Option (Step × Screen) :=
  if widthCells = 0 then some ({}, s)
  else do
    let wraps := s.columns < (← add32 s.cursorColumn widthCells)
    let (scrolled, s) ← if wraps then s.breakLine else some (false, s)
    if wraps ∧ s.columns < widthCells then some ({ scrolled }, s)
    else
      let column ← add32 s.cursorColumn widthCells
      some ({ scrolled, drawAt := some ⟨s.cursorColumn, s.cursorRow, widthCells⟩ },
        { s with cursorColumn := column })

def advance (s : Screen) (c : Char) (widthCells : Nat) : Option (Step × Screen) :=
  if c = '\n' then do
    let (scrolled, s) ← s.breakLine
    some ({ scrolled }, s)
  else if c = '\r' then some ({ clearRow := some s.cursorRow }, { s with cursorColumn := 0 })
  else if c = '\t' then s.tab
  else if c = '\x08' then some ({}, { s with cursorColumn := s.cursorColumn - 1 })
  else s.place widthCells

def view (s : Screen) : Grid where
  columns := s.columns
  rows := s.rows
  column := s.cursorColumn
  row := s.cursorRow
  cell := s.cell

/-- The cursor is on the screen or just past the end of a row, and every cell has its place. -/
structure Sound (s : Screen) : Prop where
  column : s.cursorColumn ≤ s.columns
  row : s.cursorRow < s.rows
  room : s.rows * s.columns ≤ s.cells.length

variable {s t : Screen} {g : Grid} {column row : Nat} {fg bg : Rgb}

theorem index_eq (inside : column < s.columns ∧ row < s.rows) :
    s.index column row = some (row * s.columns + column) := if_neg (by omega)

theorem index_none (outside : ¬ (column < s.columns ∧ row < s.rows)) : s.index column row = none :=
  if_pos (by omega)

theorem cell_eq (s : Screen) : s.cell = Raster.ofRows s.cells s.columns s.rows s.columns := by
  funext column row
  unfold cell Raster.ofRows
  by_cases inside : column < s.columns ∧ row < s.rows
  · rw [index_eq inside, if_pos inside]
    rfl
  · rw [index_none inside, if_neg inside]
    rfl

theorem Sound.sized (sound : s.Sound) : s.cell.Sized s.columns s.rows := by
  rw [cell_eq]
  exact Raster.ofRows_sized le_rfl sound.room

theorem Sound.view (sound : s.Sound) : s.view.Sound :=
  ⟨s.wide, s.tall, sound.column, sound.row, sound.sized⟩

/-- The operation goes through, and does to the cells and the cursor what it is to do. -/
def Gives (r : Option Screen) (g : Grid) : Prop := ∃ t, r = some t ∧ t.Sound ∧ t.view = g

theorem Gives.bind {f : Screen → Option Screen} (first : Gives r g)
    (second : ∀ t : Screen, t.Sound → t.view = g → Gives (f t) g') : Gives (r.bind f) g' := by
  obtain ⟨t, rfl, sound, view⟩ := first
  exact second t sound view

theorem Gives.mono (gives : Gives r g) (same : g = g') : Gives r g' :=
  same ▸ gives

theorem gives_self (sound : s.Sound) : Gives (some s) s.view := ⟨s, rfl, sound, rfl⟩

theorem set_gives (sound : s.Sound) (inside : column < s.columns ∧ row < s.rows) (value : Cell) :
    Gives (some { s with cells := s.cells.set (row * s.columns + column) value })
      (s.view.paint column row 1 value) := by
  have bound := Raster.index_lt le_rfl inside.1 inside.2 sound.room
  refine ⟨_, rfl, ⟨sound.column, sound.row, by rw [List.length_set]; exact sound.room⟩, ?_⟩
  unfold view Grid.paint
  congr 1
  rw [cell_eq, cell_eq]
  apply Raster.ofRows_write [value] le_rfl
  · rw [List.length_singleton]
    exact inside.1
  · intro k k_lt
    rw [List.length_singleton] at k_lt
    simp [show k = 0 by omega]
  · exact sound.room
  · exact Slices.write_singleton bound

theorem putRest_gives (fg bg : Rgb) (sound : s.Sound) (inside : column < s.columns ∧ row < s.rows)
    {count : Nat} (few : count ≤ 1) : Gives (s.putRest column row fg bg 1 count)
      (s.view.paint (column + 1) row count (Cell.rightHalf fg bg)) := by
  have bound := s.columns_lt
  cases count with
  | zero =>
    rw [Grid.paint_zero]
    exact gives_self sound
  | succ count =>
    have single : count = 0 := by omega
    subst single
    rw [putRest, add32_of_lt (by omega), Option.map_some]
    by_cases right : column + 1 < s.columns
    · rw [index_eq ⟨right, inside.2⟩]
      exact set_gives sound ⟨right, inside.2⟩ _
    · rw [index_none (by omega), sound.view.paint_past (fun fits => right fits.1)]
      exact gives_self sound

theorem put_gives (sound : s.Sound) (column row : Nat) (ch : Char) (fg bg : Rgb) (few : width ≤ 2) :
    Gives (s.put column row ch fg bg width) (s.view.put column row ch fg bg width) := by
  unfold put
  by_cases inside : column < s.columns ∧ row < s.rows
  · rw [index_eq inside]
    obtain ⟨t, same, placed, view⟩ := set_gives sound inside ⟨ch, fg, bg, 0⟩
    rw [Option.some.injEq] at same
    subst same
    have rest := putRest_gives fg bg placed inside (show width - 1 ≤ 1 by omega)
    rw [view] at rest
    exact rest
  · rw [index_none inside]
    apply (gives_self sound).mono
    rw [Grid.put, sound.view.paint_past inside, sound.view.paint_past]
    intro right
    apply inside
    exact ⟨Nat.lt_of_succ_lt right.1, right.2⟩

theorem clearFrom_gives (sound : s.Sound) (row : Nat) (bg : Rgb) (column count : Nat) :
    Gives (s.clearFrom row bg column count)
      (s.view.paint column row count (Cell.cleared bg)) := by
  induction count generalizing s column with
  | zero =>
    rw [Grid.paint_zero]
    exact gives_self sound
  | succ count ih =>
    rw [clearFrom, Option.bind_eq_bind]
    apply (put_gives sound column row ' ' bg bg (by omega)).bind
    intro t placed view
    have rest := ih placed (column + 1)
    rw [view, Grid.put, Nat.sub_self, Grid.paint_zero] at rest
    apply rest.mono
    rw [Nat.add_comm count 1]
    apply Grid.paint_right

theorem clearRow_gives (sound : s.Sound) (row : Nat) (bg : Rgb) :
    Gives (s.clearRow row bg) (s.view.clearRow row bg) :=
  clearFrom_gives sound row bg 0 s.columns

theorem clearRows_gives (sound : s.Sound) (bg : Rgb) (row count : Nat) :
    Gives (s.clearRows bg row count)
      { s.view with cell := s.view.cell.fill 0 row s.columns count (Cell.cleared bg) } := by
  induction count generalizing s row with
  | zero =>
    rw [Raster.fill_flat]
    exact gives_self sound
  | succ count ih =>
    rw [clearRows, Option.bind_eq_bind]
    apply (clearRow_gives sound row bg).bind
    intro t placed view
    have width : t.columns = s.columns := congrArg Grid.columns view
    have rest := ih placed (row + 1)
    rw [view, width] at rest
    apply rest.mono
    rw [Nat.add_comm count 1, ← Raster.fill_below]
    rfl

theorem moved_gives (sound : s.Sound) (kept : cells.length = s.cells.length)
    (bg : Rgb) (row count : Nat) : Gives (({ s with cells } : Screen).clearRows bg row count)
      { s.view with
        cell := (Raster.ofRows cells s.columns s.rows s.columns).fill 0 row s.columns count
          (Cell.cleared bg) } := by
  have moved : ({ s with cells } : Screen).Sound := ⟨sound.column, sound.row, kept ▸ sound.room⟩
  have gives := clearRows_gives moved bg row count
  rw [view, cell_eq] at gives
  exact gives

theorem deleteLines_gives (sound : s.Sound) (row count : Nat) (bg : Rgb) :
    Gives (s.deleteLines row count bg) (s.view.deleteLines row count bg) := by
  have tall := s.rows_lt
  unfold deleteLines
  by_cases nothing : s.rows ≤ row ∨ count = 0
  · rw [if_pos nothing]
    apply (gives_self sound).mono
    unfold Grid.deleteLines
    rcases nothing with past | rfl
    · rw [sound.view.sized.deleteRows_past past]
    · rw [Raster.deleteRows_zero]
  · rw [if_neg nothing]
    dsimp only
    have fits : row + min count (s.rows - row) ≤ s.rows := by omega
    rw [add32_of_lt (by omega), Option.bind_eq_bind, Option.bind_some, Option.bind_eq_bind]
    generalize few : min count (s.rows - row) = n at fits ⊢
    have deleted : s.view.deleteLines row count bg =
        { s.view with cell := s.view.cell.deleteRows row n (Cell.cleared bg) } := by
      rw [Grid.deleteLines, sound.view.sized.deleteRows_min]
      exact few ▸ rfl
    rw [deleted]
    have shape := sound.sized
    rw [cell_eq] at shape
    by_cases copies : (row + n) * s.columns < s.rows * s.columns
    · rw [if_pos copies]
      have less := Nat.mul_le_mul_right s.columns (show row ≤ row + n by omega)
      have room := sound.room
      have moves : row * s.columns + (s.rows * s.columns - (row + n) * s.columns) ≤
          s.cells.length := by
        omega
      obtain ⟨cells, copied⟩ := Slices.copyWithin_of_le (Nat.le_of_lt copies) sound.room moves
      rw [copied, Option.bind_some]
      apply (moved_gives sound (Slices.length_copyWithin copied) bg _ _).mono
      rw [shape.fill_moved_up fits (Raster.ofRows_copy_up le_rfl fits copied), ← cell_eq]
      rfl
    · rw [if_neg copies, Option.bind_some]
      apply (moved_gives sound rfl bg _ _).mono
      have whole := Nat.le_of_mul_le_mul_right (Nat.not_lt.mp copies)
        (Nat.lt_of_lt_of_le (by decide) s.wide)
      rw [shape.fill_moved_up fits, ← cell_eq]
      · rfl
      · intro i j
        rw [if_neg (by omega)]

theorem insertLines_gives (sound : s.Sound) (row count : Nat) (bg : Rgb) :
    Gives (s.insertLines row count bg) (s.view.insertLines row count bg) := by
  have tall := s.rows_lt
  unfold insertLines
  by_cases nothing : s.rows ≤ row ∨ count = 0
  · rw [if_pos nothing]
    apply (gives_self sound).mono
    unfold Grid.insertLines
    rcases nothing with past | rfl
    · rw [sound.view.sized.insertRows_past past]
    · rw [Raster.insertRows_zero]
  · rw [if_neg nothing]
    dsimp only
    have fits : row + min count (s.rows - row) ≤ s.rows := by omega
    rw [add32_of_lt (by omega), Option.bind_eq_bind, Option.bind_some, Option.bind_eq_bind]
    generalize few : min count (s.rows - row) = n at fits ⊢
    have inserted : s.view.insertLines row count bg =
        { s.view with cell := s.view.cell.insertRows row n (Cell.cleared bg) } := by
      rw [Grid.insertLines, sound.view.sized.insertRows_min]
      exact few ▸ rfl
    rw [inserted]
    have shape := sound.sized
    rw [cell_eq] at shape
    by_cases copies : (row + n) * s.columns < s.rows * s.columns
    · rw [if_pos copies]
      have first := Nat.mul_le_mul_right s.columns (show row ≤ row + n by omega)
      have source : s.rows * s.columns - ((row + n) * s.columns - row * s.columns) =
          row * s.columns + (s.rows * s.columns - (row + n) * s.columns) := by omega
      rw [source]
      have room := sound.room
      have copy : ∃ cells, Slices.copyWithin s.cells (row * s.columns)
          (row * s.columns + (s.rows * s.columns - (row + n) * s.columns))
          ((row + n) * s.columns) = some cells :=
        Slices.copyWithin_of_le (by omega) (by omega) (by omega)
      obtain ⟨cells, copied⟩ := copy
      rw [copied, Option.bind_some]
      apply (moved_gives sound (Slices.length_copyWithin copied) bg _ _).mono
      rw [shape.fill_moved_down (Raster.ofRows_copy_down le_rfl fits copied), ← cell_eq]
      rfl
    · rw [if_neg copies, Option.bind_some]
      apply (moved_gives sound rfl bg _ _).mono
      have whole := Nat.le_of_mul_le_mul_right (Nat.not_lt.mp copies)
        (Nat.lt_of_lt_of_le (by decide) s.wide)
      rw [shape.fill_moved_down, ← cell_eq]
      · rfl
      · intro i j
        rw [if_neg (by omega)]

theorem reset_gives (sound : s.Sound) (bg : Rgb) : Gives (s.reset bg) (s.view.reset bg) := by
  have home : ({ s with cursorColumn := 0, cursorRow := 0 } : Screen).Sound :=
    ⟨Nat.zero_le _, s.tall, sound.room⟩
  apply (clearRows_gives home bg 0 s.rows).mono
  have all := sound.sized.fill_all (Cell.cleared bg)
  unfold Grid.reset
  dsimp only [view]
  rw [← all]
  rfl

theorem setCursor_sound (sound : s.Sound) (column row : Nat) : (s.setCursor column row).Sound :=
  let placed := sound.view.setCursor column row
  ⟨placed.column, placed.row, sound.room⟩

section Advance

def Steps {α : Type} (r : Option (α × Screen)) (next : α × Grid) : Prop :=
  ∃ t : Screen, r = some (next.1, t) ∧ t.Sound ∧ t.view = next.2

theorem breakLine_steps (sound : s.Sound) : Steps s.breakLine s.view.breakLine := by
  have row := sound.row
  have tall := s.rows_lt
  unfold breakLine Grid.breakLine
  rw [add32_of_lt (by omega), Option.bind_eq_bind, Option.bind_some]
  by_cases more : s.cursorRow + 1 < s.rows
  · have more' : s.view.row + 1 < s.view.rows := more
    rw [if_pos more, if_pos more']
    apply Exists.intro { s with cursorColumn := 0, cursorRow := s.cursorRow + 1 }
    exact ⟨rfl, ⟨Nat.zero_le _, more, sound.room⟩, rfl⟩
  · have more' : ¬ s.view.row + 1 < s.view.rows := more
    rw [if_neg more, if_neg more']
    apply Exists.intro { s with cursorColumn := 0 }
    exact ⟨rfl, ⟨Nat.zero_le _, row, sound.room⟩, rfl⟩

theorem tab_saturates (narrow : s.columns < 2 ^ 32) (column : Nat) :
    let next := (column / tabWidth + 1) * tabWidth
    let saturated := saturate32 (saturate32 (column / tabWidth + 1) * tabWidth)
    (s.columns ≤ saturated ↔ s.columns ≤ next) ∧ (next < s.columns → saturated = next) := by
  dsimp only [saturate32, tabWidth]
  omega

theorem tab_steps (sound : s.Sound) : Steps s.tab s.view.tab := by
  obtain ⟨past, exact⟩ := tab_saturates s.columns_lt s.cursorColumn
  unfold tab Grid.tab
  dsimp only
  by_cases breaks : s.columns ≤ (s.cursorColumn / tabWidth + 1) * tabWidth
  · have breaks' : s.view.columns ≤ (s.view.column / tabWidth + 1) * tabWidth := breaks
    rw [if_pos (past.mpr breaks), if_pos breaks']
    obtain ⟨t, broken, after, view⟩ := breakLine_steps sound
    rw [broken]
    exact ⟨t, rfl, after, view⟩
  · have breaks' : ¬ s.view.columns ≤ (s.view.column / tabWidth + 1) * tabWidth := breaks
    rw [if_neg (mt past.mp breaks), if_neg breaks', exact (by omega)]
    apply Exists.intro { s with cursorColumn := (s.cursorColumn / tabWidth + 1) * tabWidth }
    exact ⟨rfl, ⟨by dsimp only; omega, sound.row, sound.room⟩, rfl⟩

theorem place_steps (sound : s.Sound) (narrow : s.columns + 2 < 2 ^ 32)
    (pos : 0 < width) (few : width ≤ 2) : Steps (s.place width) (s.view.place width) := by
  have wide : 2 ≤ s.columns := s.wide
  have column := sound.column
  unfold place
  rw [if_neg (by omega), add32_of_lt (by omega), Option.bind_eq_bind, Option.bind_some]
  dsimp only
  by_cases wraps : s.columns < s.cursorColumn + width
  · obtain ⟨t, broken, after, view⟩ := breakLine_steps sound
    have size : t.columns = s.columns := by
      have := congrArg Grid.columns view
      rwa [Grid.breakLine_columns] at this
    have home : t.cursorColumn = 0 := by
      have := congrArg Grid.column view
      unfold Grid.breakLine at this
      split at this <;> exact this
    rw [if_pos wraps, broken, Option.bind_eq_bind, Option.bind_some]
    dsimp only
    rw [if_neg (by omega), add32_of_lt (by omega), Option.bind_some]
    have wraps' : s.view.columns < s.view.column + width := wraps
    rw [Grid.place, if_pos wraps', ← view]
    apply Exists.intro { t with cursorColumn := t.cursorColumn + width }
    refine ⟨?_, ⟨by dsimp only; omega, after.row, after.room⟩, ?_⟩
    · rw [home]
      rfl
    · rw [home, Nat.zero_add]
      rfl
  · rw [if_neg wraps, Option.bind_eq_bind, Option.bind_some]
    dsimp only
    rw [if_neg (fun both => wraps both.1), add32_of_lt (by omega), Option.bind_some]
    have wraps' : ¬ s.view.columns < s.view.column + width := wraps
    rw [Grid.place, if_neg wraps']
    apply Exists.intro { s with cursorColumn := s.cursorColumn + width }
    exact ⟨rfl, ⟨by dsimp only; omega, sound.row, sound.room⟩, rfl⟩

theorem advance_steps (sound : s.Sound) (narrow : s.columns + 2 < 2 ^ 32) (c : Char)
    (pos : 0 < width) (few : width ≤ 2) : Steps (s.advance c width) (s.view.advance c width) := by
  unfold advance Grid.advance
  by_cases newline : c = '\n'
  · rw [if_pos newline, if_pos newline]
    obtain ⟨t, broken, after, view⟩ := breakLine_steps sound
    rw [broken]
    exact ⟨t, rfl, after, view⟩
  rw [if_neg newline, if_neg newline]
  by_cases home : c = '\r'
  · rw [if_pos home, if_pos home]
    apply Exists.intro { s with cursorColumn := 0 }
    exact ⟨rfl, ⟨Nat.zero_le _, sound.row, sound.room⟩, rfl⟩
  rw [if_neg home, if_neg home]
  by_cases tab : c = '\t'
  · rw [if_pos tab, if_pos tab]
    exact tab_steps sound
  rw [if_neg tab, if_neg tab]
  by_cases back : c = '\x08'
  · rw [if_pos back, if_pos back]
    have column := sound.column
    apply Exists.intro { s with cursorColumn := s.cursorColumn - 1 }
    exact ⟨rfl, ⟨by dsimp only; omega, sound.row, sound.room⟩, rfl⟩
  · rw [if_neg back, if_neg back]
    exact place_steps sound narrow pos few

end Advance

theorem new_sound {columns_lt : columns < 2 ^ 32}
    {rows_lt : rows < 2 ^ 32} (made : new columns rows cells columns_lt rows_lt = .ok s) :
    s.Sound ∧ s.columns = columns ∧ s.rows = rows := by
  unfold new at made
  split_ifs at made with empty narrow small
  cases made
  refine ⟨⟨Nat.zero_le _, ?_, ?_⟩, rfl, rfl⟩
  · dsimp only
    omega
  · simp only [List.length_append, List.length_replicate, List.length_drop]
    rw [Nat.mul_comm rows columns]
    omega

theorem new_room {columns_lt : columns < 2 ^ 32}
    {rows_lt : rows < 2 ^ 32} (made : new columns rows cells columns_lt rows_lt = .ok s) :
    columns ≤ cells.length := by
  unfold new at made
  split_ifs at made with empty narrow small
  have := Nat.le_mul_of_pos_right columns (show 0 < rows by omega)
  omega

end Screen

end Zaytos.Terminal
