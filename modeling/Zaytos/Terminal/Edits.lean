import Zaytos.Terminal.Shown
import Zaytos.Terminal.TextMode

set_option autoImplicit false

/-! What is done to the cells while the cursor is hidden, and when the pixels go with them. -/
namespace Zaytos.Terminal

inductive Edit where
  | putChar (c : Char)
  | cursorToCell (column row : Nat)
  | setGraphics (graphics : Graphics)
  | eraseInLine (scope : EraseScope)
  | eraseInDisplay (scope : EraseScope)
  | deleteLines (count : Nat)
  | insertLines (count : Nat)

namespace Edit

def op : Edit → TextOp
  | .putChar c => .putChar c
  | .cursorToCell column row => .cursorToCell column row
  | .setGraphics graphics => .setGraphics graphics
  | .eraseInLine scope => .eraseInLine scope
  | .eraseInDisplay scope => .eraseInDisplay scope
  | .deleteLines count => .deleteLines count
  | .insertLines count => .insertLines count

def narrow : Edit → Bool
  | .putChar c => c == '\n' || c == '\r' || c == '\t' || c == '\x08' || (Font.lookup c).isSome
  | _ => true

end Edit

namespace Term

def edit (t : Term) : Edit → Option Term
  | .putChar c => some (t.putChar c)
  | .cursorToCell column row => some (t.cursorTo column row)
  | .setGraphics graphics => some (t.setGraphics graphics)
  | .eraseInLine scope => t.eraseInLine scope
  | .eraseInDisplay scope => t.eraseInDisplay scope
  | .deleteLines count => t.deleteLines count
  | .insertLines count => t.insertLines count

structure Kept (t u : Term) : Prop where
  other : u.other = t.other
  alternate : u.alternate = t.alternate
  cursorVisible : u.cursorVisible = t.cursorVisible
  drawnAt : u.drawnAt = none

variable {t u : Term}

theorem eraseDrawn_none (hidden : t.drawnAt = none) : t.eraseDrawn = t := by
  unfold eraseDrawn
  rw [hidden]

theorem Kept.refl (hidden : t.drawnAt = none) : Kept t t := ⟨rfl, rfl, rfl, hidden⟩

theorem Kept.trans {v : Term} (first : Kept t u) (second : Kept u v) : Kept t v :=
  ⟨second.other.trans first.other, second.alternate.trans first.alternate,
    second.cursorVisible.trans first.cursorVisible, second.drawnAt⟩

theorem settle_kept (hidden : t.drawnAt = none) (c : Char) (step : Step) :
    Kept t (t.settle c step) := by
  rcases step with ⟨scrolled, clearRow, drawAt⟩
  cases scrolled <;> cases clearRow <;> cases drawAt <;> exact ⟨rfl, rfl, rfl, hidden⟩

theorem eraseBefore_kept (hidden : t.drawnAt = none) (erased : t.eraseBefore = some u) :
    Kept t u := by
  unfold eraseBefore at erased
  split at erased <;> cases erased
  exact ⟨rfl, rfl, rfl, hidden⟩

theorem edit_kept (hidden : t.drawnAt = none) {e : Edit} (edited : t.edit e = some u) :
    Kept t u := by
  cases e with
  | putChar c =>
    cases edited
    unfold putChar
    rw [eraseDrawn_none hidden]
    have moved : Kept t { t with grid := (t.grid.advance c (widthCells c)).2 } :=
      ⟨rfl, rfl, rfl, hidden⟩
    exact moved.trans (settle_kept (t := { t with grid := (t.grid.advance c (widthCells c)).2 })
      hidden c (t.grid.advance c (widthCells c)).1)
  | cursorToCell column row =>
    cases edited
    exact ⟨rfl, rfl, rfl, hidden⟩
  | setGraphics graphics =>
    cases edited
    rcases graphics with ⟨reset, foreground, background⟩
    cases reset <;> exact ⟨rfl, rfl, rfl, hidden⟩
  | eraseInLine scope =>
    cases scope with
    | before => exact eraseBefore_kept hidden edited
    | _ =>
      cases edited
      exact ⟨rfl, rfl, rfl, hidden⟩
  | eraseInDisplay scope =>
    cases scope with
    | before =>
      have rest := eraseBefore_kept (t := t.eraseRows 0 t.grid.row) hidden edited
      exact ⟨rest.other, rest.alternate, rest.cursorVisible, rest.drawnAt⟩
    | _ =>
      cases edited
      exact ⟨rfl, rfl, rfl, hidden⟩
  | deleteLines count =>
    change t.deleteLines count = some u at edited
    unfold deleteLines at edited
    rw [eraseDrawn_none hidden] at edited
    split at edited <;> cases edited
    exact ⟨rfl, rfl, rfl, hidden⟩
  | insertLines count =>
    change t.insertLines count = some u at edited
    unfold insertLines at edited
    rw [eraseDrawn_none hidden] at edited
    split at edited <;> cases edited
    exact ⟨rfl, rfl, rfl, hidden⟩

end Term

namespace Display

variable (ink : Rgb → UInt32) (d : Display)

def edit : Edit → Option Display
  | .putChar c => some (d.putChar ink c)
  | .cursorToCell column row => some { d with term := d.term.cursorTo column row }
  | .setGraphics graphics => some { d with term := d.term.setGraphics graphics }
  | .eraseInLine scope => d.eraseInLine ink scope
  | .eraseInDisplay scope => d.eraseInDisplay ink scope
  | .deleteLines count => d.deleteLines ink count
  | .insertLines count => d.insertLines ink count

/-- What comes up from below the cells is the background, where no character is put over it. -/
def ShiftFits (h : Nat) : Edit → Prop
  | .putChar c =>
    let step := (d.term.grid.advance c (widthCells c)).1
    step.scrolled = true →
      d.StripPlain ink (match step.drawAt with
        | some place => 8 * place.widthCells
        | none => 0) h
  | .deleteLines count =>
    1 ≤ count → count ≤ d.term.grid.rows - d.term.grid.row → d.StripPlain ink 0 h
  | _ => True

theorem edit_term (e : Edit) : (d.edit ink e).map Display.term = d.term.edit e := by
  cases e with
  | putChar c => exact congrArg some (putChar_term ink d c)
  | cursorToCell column row => rfl
  | setGraphics graphics => rfl
  | eraseInLine scope => exact eraseInLine_term ink d scope
  | eraseInDisplay scope => exact eraseInDisplay_term ink d scope
  | deleteLines count => exact deleteLines_term ink d count
  | insertLines count => exact insertLines_term ink d count

variable {ink : Rgb → UInt32} {d d' : Display} {w h : Nat}

theorem eraseDrawn_none (hidden : d.term.drawnAt = none) : d.eraseDrawn ink = d := by
  unfold eraseDrawn
  rw [hidden]

theorem Framed.filled (framed : d.Framed w h) {grid : Grid} (sound : grid.Sound)
    (columns : grid.columns = d.term.grid.columns) (rows : grid.rows = d.term.grid.rows)
    {picture : Raster UInt32} (sized : picture.Sized w h) :
    Framed ⟨{ d.term with grid }, picture⟩ w h where
  grid := sound
  picture := sized
  wide := columns ▸ framed.wide
  tall := rows ▸ framed.tall
  strip := rows ▸ framed.strip

theorem Shown.eraseCells (framed : d.Framed w h) (shown : d.Shown ink everywhere)
    (row start stop : Nat) : (d.eraseCells ink row start stop).Shown ink everywhere :=
  shown.filled framed rfl rfl

theorem Framed.eraseCells (framed : d.Framed w h) (row start stop : Nat) :
    (d.eraseCells ink row start stop).Framed w h :=
  framed.filled (framed.grid.paint _ _ _ _) rfl rfl (framed.picture.fill _)

theorem Shown.eraseRows (framed : d.Framed w h) (shown : d.Shown ink everywhere)
    (row count : Nat) : (d.eraseRows ink row count).Shown ink everywhere :=
  shown.filled framed rfl rfl

theorem Framed.eraseRows (framed : d.Framed w h) (row count : Nat) :
    (d.eraseRows ink row count).Framed w h := by
  have grid := framed.grid
  have sound : (d.eraseRows ink row count).term.grid.Sound :=
    ⟨grid.wide, grid.tall, grid.column, grid.row, grid.sized.fill _⟩
  exact framed.filled sound rfl rfl (framed.picture.fill _)

theorem Framed.clear_shown (framed : d.Framed w h) : (d.clear ink).Shown ink everywhere := by
  intro x y cell _ there whole
  have cells : (d.clear ink).term.grid.cell (x / 8) (y / 16) =
      (d.term.grid.cell (x / 8) (y / 16)).map fun _ => Cell.cleared d.term.background := rfl
  have blank : (d.clear ink).picture x y = (d.picture x y).map fun _ => ink d.term.background := rfl
  rw [cells] at there
  cases before : d.term.grid.cell (x / 8) (y / 16) with
  | none =>
    rw [before] at there
    cases there
  | some old =>
    rw [before] at there
    cases there
    obtain ⟨pixel, point⟩ := Option.isSome_iff_exists.mp (framed.there before)
    rw [blank, point, cellImage_cleared]
    rfl

theorem Shown.eraseBefore (framed : d.Framed w h) (shown : d.Shown ink everywhere)
    (erased : d.eraseBefore ink = some d') : d'.Shown ink everywhere := by
  unfold Display.eraseBefore at erased
  split at erased <;> cases erased
  exact shown.eraseCells framed _ _ _

theorem Shown.eraseInLine (framed : d.Framed w h) (shown : d.Shown ink everywhere)
    {scope : EraseScope} (erased : d.eraseInLine ink scope = some d') :
    d'.Shown ink everywhere := by
  cases scope with
  | before => exact shown.eraseBefore framed erased
  | after =>
    cases erased
    exact shown.eraseCells framed _ _ _
  | all =>
    cases erased
    exact shown.eraseCells framed _ _ _

theorem Shown.eraseInDisplay (framed : d.Framed w h) (shown : d.Shown ink everywhere)
    {scope : EraseScope} (erased : d.eraseInDisplay ink scope = some d') :
    d'.Shown ink everywhere := by
  cases scope with
  | before =>
    exact (shown.eraseRows framed 0 d.term.grid.row).eraseBefore (framed.eraseRows _ _) erased
  | after =>
    cases erased
    exact (shown.eraseCells framed _ _ _).eraseRows (framed.eraseCells _ _ _) _ _
  | all =>
    cases erased
    exact framed.clear_shown

theorem Shown.clearRow (framed : d.Framed w h) (shown : d.Shown ink everywhere) (row : Nat) :
    (d.clearRow ink row).Shown ink everywhere := by
  have cells : (d.clearRow ink row).term.grid.cell =
      d.term.grid.cell.fill 0 row d.term.grid.columns 1 (Cell.cleared d.term.background) := rfl
  apply shown.cleared framed cells
  intro x y column
  have points : (d.clearRow ink row).picture x y =
      if 16 * row ≤ y ∧ y < 16 * row + 16 then (d.picture x y).map fun _ => ink d.term.background
      else d.picture x y := rfl
  have same : (16 * row ≤ y ∧ y < 16 * row + 16) ↔
      Raster.Within 0 row d.term.grid.columns 1 (x / 8) (y / 16) := by
    unfold Raster.Within
    omega
  rw [points]
  simp only [same]

theorem Shown.deleteLines_iff (framed : d.Framed w h) (shown : d.Shown ink everywhere)
    (hidden : d.term.drawnAt = none) {count : Nat} (deleted : d.deleteLines ink count = some d') :
    d'.Shown ink everywhere ↔ d.ShiftFits ink h (.deleteLines count) := by
  unfold Display.deleteLines Term.deleteLines at deleted
  rw [eraseDrawn_none hidden, Term.eraseDrawn_none hidden] at deleted
  by_cases small : 16 * count < 2 ^ 32
  · rw [if_pos small, Option.bind_eq_bind, Option.bind_some] at deleted
    cases deleted
    apply (shown.deleteRows_iff framed framed.grid.row rfl rfl).trans
    unfold ShiftFits StripPlain
    constructor
    · intro plain some_ few x y _
      exact plain some_ few x y trivial
    · intro plain some_ few x y _
      exact plain some_ few x y (Nat.zero_le x)
  · rw [if_neg small] at deleted
    cases deleted

theorem Shown.insertLines (framed : d.Framed w h) (shown : d.Shown ink everywhere)
    (hidden : d.term.drawnAt = none) {count : Nat} (inserted : d.insertLines ink count = some d') :
    d'.Shown ink everywhere := by
  unfold Display.insertLines Term.insertLines at inserted
  rw [eraseDrawn_none hidden, Term.eraseDrawn_none hidden] at inserted
  by_cases small : 16 * count < 2 ^ 32
  · rw [if_pos small, Option.bind_eq_bind, Option.bind_some] at inserted
    cases inserted
    exact Shown.insertRows framed shown rfl rfl
  · rw [if_neg small] at inserted
    cases inserted

theorem Shown.scroll_iff (framed : d.Framed w h) (shown : d.Shown ink everywhere)
    (cells : Nat → Nat → Prop) : (d.scroll ink).Shown ink cells ↔
      ∀ x y, cells (x / 8) (d.term.grid.rows - 1) → x < 8 * d.term.grid.columns →
        16 * d.term.grid.rows ≤ y → y < h → d.picture x y = some (ink d.term.background) := by
  have tall := framed.grid.tall
  apply (shown.deleteRows_iff framed tall rfl
    rfl).trans
  constructor
  · intro plain
    exact plain le_rfl (by omega)
  · intro plain _ _
    exact plain

end Display

namespace Grid

variable {g : Grid}

theorem advance_cases (g : Grid) (c : Char) (width : Nat) :
    ((g.advance c width).1.clearRow = none ∧ ((g.advance c width).1.scrolled = true →
      (g.advance c width).1.drawAt = none ∨
      (g.advance c width).1.drawAt = some ⟨0, g.row, width⟩ ∧ ¬ g.row + 1 < g.rows)) ∨
    ((g.advance c width).1.scrolled = false ∧ (g.advance c width).1.drawAt = none) := by
  unfold advance
  split_ifs
  · exact .inl ⟨rfl, fun _ => .inl rfl⟩
  · exact .inr ⟨rfl, rfl⟩
  · exact .inl ⟨g.tab_step.2, fun _ => .inl g.tab_step.1⟩
  · exact .inl ⟨rfl, fun _ => .inl rfl⟩
  · left
    unfold place
    split
    · refine ⟨rfl, ?_⟩
      dsimp only
      unfold breakLine
      split
      · intro scrolled
        cases scrolled
      case isFalse last => exact fun _ => .inr ⟨rfl, last⟩
    · refine ⟨rfl, ?_⟩
      intro scrolled
      cases scrolled

end Grid

namespace Display

variable {ink : Rgb → UInt32} {d d' : Display} {w h : Nat}

theorem Framed.scroll (framed : d.Framed w h) : (d.scroll ink).Framed w h :=
  framed.filled (framed.grid.deleteLines _ _ _) rfl rfl (framed.picture.deleteRows _ _ _)

theorem Shown.draw (framed : d.Framed w h) (shown : d.Shown ink everywhere) (c : Char)
    (place : Placement) : (d.draw ink c place).Shown ink everywhere := by
  apply (Shown.draw_iff framed).mpr
  exact shown.mono fun _ _ _ => trivial

theorem Shown.putChar_iff (framed : d.Framed w h) (shown : d.Shown ink everywhere)
    (hidden : d.term.drawnAt = none) (c : Char) :
    (d.putChar ink c).Shown ink everywhere ↔ d.ShiftFits ink h (.putChar c) := by
  obtain ⟨columns, rows⟩ := d.term.grid.advance_size c (widthCells c)
  have moved : Display.Framed
      ⟨{ d.term with grid := (d.term.grid.advance c (widthCells c)).2 }, d.picture⟩ w h :=
    framed.filled (framed.grid.advance c (widthCells_le c)) columns rows framed.picture
  have same : Display.Shown ink
      ⟨{ d.term with grid := (d.term.grid.advance c (widthCells c)).2 }, d.picture⟩ everywhere :=
    shown.congr (d.term.grid.advance_cell c (widthCells c)) rfl
  have cases_ := d.term.grid.advance_cases c (widthCells c)
  have width := widthCells_pos c
  have tall := framed.grid.tall
  have row := framed.grid.row
  unfold putChar ShiftFits StripPlain
  rw [eraseDrawn_none hidden]
  dsimp only
  generalize d.term.grid.advance c (widthCells c) = result at *
  obtain ⟨⟨scrolled, clearRow, drawAt⟩, grid⟩ := result
  dsimp only at *
  unfold settle
  cases scrolled with
  | false =>
    apply iff_of_true
    · cases clearRow with
      | none =>
        cases drawAt with
        | none => exact same
        | some place => exact same.draw moved c place
      | some row =>
        rcases cases_ with ⟨none', -⟩ | ⟨-, none'⟩
        · cases none'
        · cases none'
          exact same.clearRow moved row
    · intro scrolled
      cases scrolled
  | true =>
    rcases cases_ with ⟨none', drawn⟩ | ⟨none', -⟩
    · cases none'
      have scroll := fun cells => same.scroll_iff moved cells
      dsimp only at scroll
      rw [columns, rows] at scroll
      rcases drawn rfl with none' | ⟨placed, last⟩
      · cases none'
        apply (scroll everywhere).trans
        simp
      · cases placed
        apply (Shown.draw_iff moved.scroll).trans
        apply (scroll _).trans
        have free : ∀ x, (everywhere (x / 8) (d.term.grid.rows - 1) ∧
            ¬ taken ⟨0, d.term.grid.row, widthCells c⟩ (x / 8) (d.term.grid.rows - 1)) ↔
              8 * widthCells c ≤ x := by
          intro x
          have bottom : d.term.grid.rows - 1 = d.term.grid.row := by omega
          unfold taken Raster.Within everywhere
          rw [bottom, true_and]
          dsimp only
          omega
        simp only [free]
        simp
    · cases none'

theorem Shown.edit_iff (framed : d.Framed w h) (shown : d.Shown ink everywhere)
    (hidden : d.term.drawnAt = none) {e : Edit} (edited : d.edit ink e = some d') :
    d'.Shown ink everywhere ↔ d.ShiftFits ink h e := by
  cases e with
  | putChar c =>
    cases edited
    exact shown.putChar_iff framed hidden c
  | cursorToCell column row =>
    cases edited
    exact iff_of_true shown trivial
  | setGraphics graphics =>
    cases edited
    apply iff_of_true _ trivial
    have cell : (d.term.setGraphics graphics).grid.cell = d.term.grid.cell := by
      rcases graphics with ⟨reset, foreground, background⟩
      cases reset <;> rfl
    exact shown.congr cell rfl
  | eraseInLine scope => exact iff_of_true (shown.eraseInLine framed edited) trivial
  | eraseInDisplay scope => exact iff_of_true (shown.eraseInDisplay framed edited) trivial
  | deleteLines count => exact shown.deleteLines_iff framed hidden edited
  | insertLines count => exact iff_of_true (shown.insertLines framed hidden edited) trivial

end Display

end Zaytos.Terminal
