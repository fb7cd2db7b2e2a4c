import Zaytos.Terminal.TextMode

set_option autoImplicit false

/-! What the operations of the console paint, whatever a pixel is taken to be: its colour, or
whether the line of the cursor was the last thing painted there. -/
namespace Zaytos.Terminal

/-- What is painted of a colour, of the line of the cursor and of a character. -/
structure Paint (α : Type) where
  color : Rgb → α
  line : α
  glyph : Char → Rgb → Rgb → Nat → Nat → α

namespace Paint

def pixels (ink : Rgb → UInt32) : Paint UInt32 where
  color := ink
  line := ink Console.cursorColor
  glyph c fg bg := Framebuffer.glyphImage (Font.glyph c) (ink fg) (ink bg)

def marks : Paint Bool where
  color _ := false
  line := true
  glyph _ _ _ _ _ := false

end Paint

namespace Term

variable {α : Type} (P : Paint α)

def paintErased (t : Term) (p : Raster α) : Raster α :=
  match t.drawnAt with
  | none => p
  | some (column, row) =>
    let place := t.grid.setCursor column row
    p.fill (8 * place.column) (16 * place.row + 14) 8 2
      (P.color (Display.under t place.column place.row))

def paintLine (t : Term) (p : Raster α) : Raster α :=
  p.fill (8 * t.grid.column) (16 * t.grid.row + 14) 8 2 P.line

def paintRefresh (t : Term) (p : Raster α) : Raster α :=
  if t.cursorVisible = true ∧ t.drawnAt = some (t.grid.column, t.grid.row) then p
  else if t.cursorVisible then t.eraseDrawn.paintLine P (t.paintErased P p)
  else t.paintErased P p

def paintCells (t : Term) (p : Raster α) : Raster α := fun i j =>
  (p i j).map fun _ =>
    match t.grid.cell (i / 8) (j / 16) with
    | none => P.color t.background
    | some cell =>
      if cell.isContinuation || !cell.needsRepaintAfterClear t.background then
        P.color t.background
      else P.glyph cell.ch cell.fg cell.bg (i % 8) (j % 16)

def paintStep (t : Term) (c : Char) (step : Step) (p : Raster α) : Raster α :=
  let p := if step.scrolled then p.deleteRows 0 16 (P.color t.background) else p
  let p := match step.clearRow with
    | some row => p.blankRows (16 * row) 16 (P.color t.background)
    | none => p
  match step.drawAt with
  | some place =>
    p.draw (8 * place.column) (16 * place.row) 8 16 (P.glyph c t.foreground t.background)
  | none => p

def paintBlank (t : Term) (p : Raster α) (row start stop : Nat) : Raster α :=
  p.fill (8 * start) (16 * row) (8 * (stop - start)) 16 (P.color t.background)

def paintBlankRows (t : Term) (p : Raster α) (row count : Nat) : Raster α :=
  p.fill 0 (16 * row) (8 * t.grid.columns) (16 * count) (P.color t.background)

def paintEraseInLine (t : Term) (p : Raster α) : EraseScope → Raster α
  | .after => t.paintBlank P p t.grid.row t.grid.column t.grid.columns
  | .before => t.paintBlank P p t.grid.row 0 (t.grid.column + 1)
  | .all => t.paintBlank P p t.grid.row 0 t.grid.columns

def paintEraseInDisplay (t : Term) (p : Raster α) : EraseScope → Raster α
  | .after => t.paintBlankRows P (t.paintBlank P p t.grid.row t.grid.column t.grid.columns)
      (t.grid.row + 1) (t.grid.rows - (t.grid.row + 1))
  | .before => t.paintBlank P (t.paintBlankRows P p 0 t.grid.row) t.grid.row 0 (t.grid.column + 1)
  | .all => p.blank (P.color t.background)

def paintAlternate (t : Term) (p : Raster α) (alternate : Bool) : Raster α :=
  if alternate = t.alternate then p
  else if alternate then p.blank (P.color t.background)
  else (t.setAlternateScreen alternate).paintCells P p

def paint (t : Term) (requested : Bool) (p : Raster α) : TextOp → Raster α
  | .putChar c => t.paintStep P c (t.eraseDrawn.grid.advance c (widthCells c)).1 (t.paintErased P p)
  | .paintCursor visible =>
    if visible then t.paintLine P p
    else p.fill (8 * t.grid.column) (16 * t.grid.row + 14) 8 2
      (P.color (Display.under t t.grid.column t.grid.row))
  | .eraseDrawnCursor => t.paintErased P p
  | .refreshCursor => t.paintRefresh P p
  | .eraseInLine scope => t.paintEraseInLine P p scope
  | .eraseInDisplay scope => t.paintEraseInDisplay P p scope
  | .deleteLines count =>
    (t.paintErased P p).deleteRows (16 * t.grid.row) (16 * count) (P.color t.background)
  | .insertLines count =>
    (t.paintErased P p).insertRows (16 * t.grid.row) (16 * count) (P.color t.background)
  | .clear => p.blank (P.color t.background)
  | .setAlternateScreen alternate => t.paintAlternate P p alternate
  | .repaintFromCells => t.paintCells P p
  | .flush => t.paintRefresh P (if requested then t.paintCells P p else p)
  | .cursorToCell _ _ | .showCursor _ | .setGraphics _ | .requestRepaint => p

end Term

namespace Display

variable {ink : Rgb → UInt32} {d d' : Display}

theorem eraseDrawn_picture :
    (d.eraseDrawn ink).picture = d.term.paintErased (Paint.pixels ink) d.picture := by
  unfold eraseDrawn Term.paintErased
  cases d.term.drawnAt <;> rfl

theorem refresh_picture :
    (d.refresh ink).picture = d.term.paintRefresh (Paint.pixels ink) d.picture := by
  unfold refresh Term.paintRefresh
  split
  · rfl
  · split
    · unfold drawCursor line Term.paintLine
      dsimp only
      rw [eraseDrawn_picture, eraseDrawn_term]
      rfl
    · exact eraseDrawn_picture

theorem settle_picture (c : Char) (step : Step) :
    (d.settle ink c step).picture = d.term.paintStep (Paint.pixels ink) c step d.picture := by
  unfold settle Term.paintStep
  cases step.scrolled <;> cases step.clearRow <;> cases step.drawAt <;> rfl

theorem eraseBefore_picture (erased : d.eraseBefore ink = some d') :
    d'.picture = d.term.paintBlank (Paint.pixels ink) d.picture d.term.grid.row 0
      (d.term.grid.column + 1) := by
  unfold eraseBefore at erased
  split at erased
  · cases erased
    rfl
  · cases erased

theorem deleteLines_picture {count : Nat} (deleted : d.deleteLines ink count = some d') :
    d'.picture = (d.term.paintErased (Paint.pixels ink) d.picture).deleteRows
      (16 * d.term.grid.row) (16 * count) (ink d.term.background) := by
  obtain ⟨term, _, same⟩ := Option.bind_eq_some_iff.mp deleted
  cases same
  rw [← eraseDrawn_picture]

theorem insertLines_picture {count : Nat} (inserted : d.insertLines ink count = some d') :
    d'.picture = (d.term.paintErased (Paint.pixels ink) d.picture).insertRows
      (16 * d.term.grid.row) (16 * count) (ink d.term.background) := by
  obtain ⟨term, _, same⟩ := Option.bind_eq_some_iff.mp inserted
  cases same
  rw [← eraseDrawn_picture]

theorem putChar_picture (c : Char) : (d.putChar ink c).picture =
    d.term.paintStep (Paint.pixels ink) c (d.term.eraseDrawn.grid.advance c (widthCells c)).1
      (d.term.paintErased (Paint.pixels ink) d.picture) := by
  unfold putChar
  dsimp only
  rw [settle_picture, eraseDrawn_picture, eraseDrawn_term]
  unfold Term.paintStep
  dsimp only
  rw [Term.eraseDrawn_foreground, Term.eraseDrawn_background]

theorem setAlternateScreen_picture (alternate : Bool) :
    (d.setAlternateScreen ink alternate).picture =
      d.term.paintAlternate (Paint.pixels ink) d.picture alternate := by
  unfold setAlternateScreen Term.paintAlternate
  by_cases same : alternate = d.term.alternate
  · rw [if_pos same, if_pos same]
  · have background : (d.term.setAlternateScreen alternate).background = d.term.background := by
      unfold Term.setAlternateScreen
      rw [if_neg same]
      cases alternate <;> rfl
    rw [if_neg same, if_neg same]
    cases alternate with
    | false => rfl
    | true =>
      dsimp only
      rw [if_pos rfl, if_pos rfl, background]
      rfl

theorem operate_picture {requested : Bool} {op : TextOp}
    (operated : d.operate ink requested op = some d') :
    d'.picture = d.term.paint (Paint.pixels ink) requested d.picture op := by
  cases op with
  | putChar c =>
    cases operated
    exact putChar_picture c
  | paintCursor visible =>
    cases operated
    cases visible <;> rfl
  | eraseDrawnCursor =>
    cases operated
    exact eraseDrawn_picture
  | refreshCursor =>
    cases operated
    exact refresh_picture
  | eraseInLine scope =>
    cases scope with
    | before => exact eraseBefore_picture operated
    | _ =>
      cases operated
      rfl
  | eraseInDisplay scope =>
    cases scope with
    | before => exact eraseBefore_picture (d := d.eraseRows ink 0 d.term.grid.row) operated
    | _ =>
      cases operated
      rfl
  | deleteLines count => exact deleteLines_picture operated
  | insertLines count => exact insertLines_picture operated
  | setAlternateScreen alternate =>
    cases operated
    exact setAlternateScreen_picture alternate
  | flush =>
    cases operated
    unfold Term.paint
    dsimp only
    rw [refresh_picture]
    cases requested <;> rfl
  | _ =>
    cases operated
    rfl

end Display

end Zaytos.Terminal
