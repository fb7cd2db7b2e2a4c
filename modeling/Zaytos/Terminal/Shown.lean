import Zaytos.Terminal.Repaint

set_option autoImplicit false

/-! Which cells of a display are in its picture as they are drawn, through everything that edits
the cells. -/
namespace Zaytos.Terminal

variable {cell : Cell} {bg : Rgb} {column row count rows : Nat}

namespace Display

structure Framed (d : Display) (w h : Nat) : Prop where
  grid : d.term.grid.Sound
  picture : d.picture.Sized w h
  wide : 8 * d.term.grid.columns ≤ w
  tall : 16 * d.term.grid.rows ≤ h
  strip : h < 16 * (d.term.grid.rows + 1)

/-- These cells are in the picture as they are drawn; of a right half nothing is known. -/
def Shown (ink : Rgb → UInt32) (d : Display) (cells : Nat → Nat → Prop) : Prop :=
  ∀ x y cell, cells (x / 8) (y / 16) → d.term.grid.cell (x / 8) (y / 16) = some cell →
    cell.isContinuation = false → d.picture x y = some (cellImage ink cell (x % 8) (y % 16))

abbrev everywhere : Nat → Nat → Prop := fun _ _ => True

/-- Below the last row of cells there is only the background, from a column of points on. -/
def StripPlain (ink : Rgb → UInt32) (d : Display) (left h : Nat) : Prop :=
  ∀ x y, left ≤ x → x < 8 * d.term.grid.columns → 16 * d.term.grid.rows ≤ y → y < h →
    d.picture x y = some (ink d.term.background)

theorem within_cells {column row w h x y : Nat} :
    Raster.Within (8 * column) (16 * row) (8 * w) (16 * h) x y ↔
      Raster.Within column row w h (x / 8) (y / 16) := by
  unfold Raster.Within
  omega

theorem cleared_whole (bg : Rgb) : (Cell.cleared bg).isContinuation = false := by
  have zero : ((0 : UInt8) &&& Cell.continuation != 0) = false := by decide
  exact zero

theorem rightHalf_half (fg bg : Rgb) : (Cell.rightHalf fg bg).isContinuation = true := by
  have one : (Cell.continuation &&& Cell.continuation != 0) = true := by decide
  exact one

theorem cellImage_cleared (ink : Rgb → UInt32) (bg : Rgb) (i j : Nat) :
    cellImage ink (Cell.cleared bg) i j = ink bg := by
  unfold cellImage Framebuffer.glyphImage Cell.cleared
  split <;> rfl

theorem cellImage_blank (ink : Rgb → UInt32) (blank : cell.ch = ' ') (i j : Nat) :
    cellImage ink cell i j = ink cell.bg := by
  unfold cellImage Framebuffer.glyphImage
  rw [blank, Font.isSet_space]
  rfl

variable {ink : Rgb → UInt32} {d d' : Display} {w h : Nat} {cells : Nat → Nat → Prop}

theorem Shown.mono {fewer : Nat → Nat → Prop} (shown : d.Shown ink cells)
    (among : ∀ column row, fewer column row → cells column row) : d.Shown ink fewer := by
  intro x y cell here
  exact shown x y cell (among _ _ here)

theorem Shown.congr (shown : d.Shown ink cells) (cell : d'.term.grid.cell = d.term.grid.cell)
    (picture : d'.picture = d.picture) : d'.Shown ink cells := by
  unfold Shown
  rw [cell, picture]
  exact shown

theorem Framed.there (framed : d.Framed w h) {x y : Nat}
    (inside : d.term.grid.cell (x / 8) (y / 16) = some cell) : (d.picture x y).isSome = true := by
  obtain ⟨column, row⟩ := framed.grid.sized.of_some inside
  have wide := framed.wide
  have tall := framed.tall
  apply (framed.picture x y).mpr
  omega

theorem Shown.cleared (framed : d.Framed w h) (shown : d.Shown ink cells)
    (cell : d'.term.grid.cell = d.term.grid.cell.fill column row count rows (Cell.cleared bg))
    (picture : ∀ x y, x / 8 < d.term.grid.columns → d'.picture x y =
      if Raster.Within column row count rows (x / 8) (y / 16) then
        (d.picture x y).map fun _ => ink bg else d.picture x y) : d'.Shown ink cells := by
  intro x y cell' here there whole
  rw [cell] at there
  by_cases within : Raster.Within column row count rows (x / 8) (y / 16)
  · cases before : d.term.grid.cell (x / 8) (y / 16) with
    | none =>
      rw [Raster.fill_none before] at there
      cases there
    | some old =>
      rw [Raster.fill_inside within (by rw [before]; rfl)] at there
      cases there
      obtain ⟨pixel, point⟩ := Option.isSome_iff_exists.mp (framed.there before)
      obtain ⟨inside, -⟩ := framed.grid.sized.of_some before
      rw [picture x y inside, if_pos within, point, cellImage_cleared]
      rfl
  · rw [Raster.fill_outside within] at there
    obtain ⟨inside, -⟩ := framed.grid.sized.of_some there
    rw [picture x y inside, if_neg within]
    exact shown x y cell' here there whole

theorem Shown.filled (framed : d.Framed w h) (shown : d.Shown ink cells)
    (cell : d'.term.grid.cell = d.term.grid.cell.fill column row count rows (Cell.cleared bg))
    (picture : d'.picture =
      d.picture.fill (8 * column) (16 * row) (8 * count) (16 * rows) (ink bg)) :
    d'.Shown ink cells := by
  apply shown.cleared framed cell
  intro x y _
  rw [picture, Raster.fill, Raster.draw]
  simp only [within_cells]

/-- Cells and points that go up together. What comes into the cleared rows from below the cells is
to be the background. -/
theorem Shown.deleteRows_iff (framed : d.Framed w h) (shown : d.Shown ink everywhere)
    (inside : row < d.term.grid.rows)
    (cell : d'.term.grid.cell =
      d.term.grid.cell.deleteRows row count (Cell.cleared d.term.background))
    (picture : d'.picture = d.picture.deleteRows (16 * row) (16 * count) (ink d.term.background)) :
    d'.Shown ink cells ↔ (1 ≤ count → count ≤ d.term.grid.rows - row →
      ∀ x y, cells (x / 8) (d.term.grid.rows - count) → x < 8 * d.term.grid.columns →
        16 * d.term.grid.rows ≤ y → y < h → d.picture x y = some (ink d.term.background)) := by
  have tall := framed.tall
  have wide := framed.wide
  have strip := framed.strip
  constructor
  · intro after some_ few x y here column below bottom
    have place : (y - 16 * count) / 16 = d.term.grid.rows - count := by omega
    have cleared : d'.term.grid.cell (x / 8) ((y - 16 * count) / 16) =
        some (Cell.cleared d.term.background) := by
      obtain ⟨old, there⟩ := framed.grid.sized.exists_eq (i := x / 8)
        (j := d.term.grid.rows - count) (by omega) (by omega)
      rw [cell, place, Raster.deleteRows, if_neg (by omega),
        framed.grid.sized.eq_none (j := d.term.grid.rows - count + count) (by omega), there]
      rfl
    have point := after x (y - 16 * count) _ (place ▸ here) cleared (cleared_whole _)
    obtain ⟨pixel, there⟩ := framed.picture.exists_eq (i := x) (j := y) (by omega) bottom
    rw [picture, Raster.deleteRows, if_neg (by omega), cellImage_cleared,
      show y - 16 * count + 16 * count = y by omega, there] at point
    exact there.trans point
  · intro plain x y cell' here there whole
    rw [cell, Raster.deleteRows] at there
    rw [picture, Raster.deleteRows]
    by_cases above : y / 16 < row
    · rw [if_pos above] at there
      rw [if_pos (by omega)]
      exact shown x y cell' trivial there whole
    · rw [if_neg above] at there
      rw [if_neg (by omega)]
      have later : (y + 16 * count) / 16 = y / 16 + count := by omega
      have column : (y + 16 * count) % 16 = y % 16 := by omega
      cases next : d.term.grid.cell (x / 8) (y / 16 + count) with
      | some below =>
        rw [next] at there
        cases there
        rw [shown x (y + 16 * count) cell' trivial (by rw [later]; exact next) whole, column]
        rfl
      | none =>
        rw [next] at there
        cases before : d.term.grid.cell (x / 8) (y / 16) with
        | none =>
          rw [before] at there
          cases there
        | some old =>
          rw [before] at there
          cases there
          obtain ⟨inColumn, inRow⟩ := framed.grid.sized.of_some before
          have past : d.term.grid.rows ≤ y / 16 + count := by
            by_contra inside'
            obtain ⟨value, found⟩ := framed.grid.sized.exists_eq inColumn
              (show y / 16 + count < d.term.grid.rows by omega)
            rw [next] at found
            cases found
          obtain ⟨pixel, point⟩ := framed.picture.exists_eq (i := x) (j := y) (by omega) (by omega)
          rw [cellImage_cleared, point]
          by_cases bottom : y + 16 * count < h
          · have last : d.term.grid.rows - count = y / 16 := by omega
            rw [plain (by omega) (by omega) x (y + 16 * count) (last ▸ here) (by omega) (by omega)
              bottom]
            rfl
          · rw [framed.picture.eq_none (fun inside => bottom inside.2)]
            rfl

theorem Shown.insertRows (framed : d.Framed w h) (shown : d.Shown ink everywhere)
    (cell : d'.term.grid.cell = d.term.grid.cell.insertRows row count (Cell.cleared bg))
    (picture : d'.picture = d.picture.insertRows (16 * row) (16 * count) (ink bg)) :
    d'.Shown ink everywhere := by
  intro x y cell' _ there whole
  rw [cell, Raster.insertRows] at there
  rw [picture, Raster.insertRows]
  by_cases above : y / 16 < row
  · rw [if_pos above] at there
    rw [if_pos (by omega)]
    exact shown x y cell' trivial there whole
  · rw [if_neg above] at there
    rw [if_neg (by omega)]
    cases before : d.term.grid.cell (x / 8) (y / 16) with
    | none =>
      rw [before] at there
      split at there <;> cases there
    | some old =>
      obtain ⟨pixel, point⟩ := Option.isSome_iff_exists.mp (framed.there before)
      rw [before] at there
      rw [point]
      by_cases cleared : y / 16 < row + count
      · rw [if_pos cleared] at there
        cases there
        rw [if_pos (by omega), cellImage_cleared]
        rfl
      · rw [if_neg cleared] at there
        rw [if_neg (by omega)]
        have earlier : (y - 16 * count) / 16 = y / 16 - count := by omega
        have rest : (y - 16 * count) % 16 = y % 16 := by omega
        rw [Option.bind_some] at there
        rw [Option.bind_some, shown x (y - 16 * count) cell' trivial (by rw [earlier]; exact there)
          whole, rest]

def taken (place : Placement) (column row : Nat) : Prop :=
  Raster.Within place.column place.row (1 + (place.widthCells - 1)) 1 column row

theorem draw_cell (c : Char) (place : Placement) : (d.draw ink c place).term.grid.cell =
    (d.term.grid.cell.fill place.column place.row 1 1
      ⟨c, d.term.foreground, d.term.background, 0⟩).fill (place.column + 1) place.row
        (place.widthCells - 1) 1 (Cell.rightHalf d.term.foreground d.term.background) := rfl

theorem Shown.draw_iff (framed : d.Framed w h) {c : Char} {place : Placement} :
    (d.draw ink c place).Shown ink cells ↔
      d.Shown ink fun column row => cells column row ∧ ¬ taken place column row := by
  have outside : ∀ x y, ¬ taken place (x / 8) (y / 16) →
      (d.draw ink c place).term.grid.cell (x / 8) (y / 16) = d.term.grid.cell (x / 8) (y / 16) ∧
      (d.draw ink c place).picture x y = d.picture x y := by
    intro x y free
    unfold taken Raster.Within at free
    refine ⟨?_, ?_⟩
    · rw [draw_cell, Raster.fill_outside, Raster.fill_outside]
      · unfold Raster.Within
        omega
      · unfold Raster.Within
        omega
    · unfold draw
      dsimp only
      rw [Raster.draw_outside]
      unfold Raster.Within
      omega
  constructor
  · intro after x y cell here there whole
    obtain ⟨same, point⟩ := outside x y here.2
    rw [← point]
    exact after x y cell here.1 (same ▸ there) whole
  · intro before x y cell here there whole
    by_cases free : taken place (x / 8) (y / 16)
    · have old : ∃ value, d.term.grid.cell (x / 8) (y / 16) = some value := by
        cases gone : d.term.grid.cell (x / 8) (y / 16) with
        | some value => exact ⟨value, rfl⟩
        | none =>
          rw [draw_cell, Raster.fill_none (Raster.fill_none gone)] at there
          cases there
      obtain ⟨value, old⟩ := old
      have point := framed.there old
      unfold taken Raster.Within at free
      rw [draw_cell] at there
      by_cases first : x / 8 = place.column
      · rw [Raster.fill_outside (by unfold Raster.Within; omega),
          Raster.fill_inside (by unfold Raster.Within; omega) (by rw [old]; rfl)] at there
        cases there
        unfold draw
        dsimp only
        rw [Raster.draw_inside (by unfold Raster.Within; omega) point, cellImage,
          show x - 8 * place.column = x % 8 by omega, show y - 16 * place.row = y % 16 by omega]
      · rw [Raster.fill_inside (by unfold Raster.Within; omega)] at there
        · cases there
          rw [rightHalf_half] at whole
          cases whole
        · rw [Raster.fill_outside (by unfold Raster.Within; omega), old]
          rfl
    · obtain ⟨same, point⟩ := outside x y free
      rw [point]
      exact before x y cell ⟨here, free⟩ (same ▸ there) whole

end Display

end Zaytos.Terminal
