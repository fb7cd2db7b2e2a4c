import Zaytos.Terminal.ConsoleSpec

set_option autoImplicit false

/-! The screen drawn anew from its cells, and the two sides of the terminal. -/
namespace Zaytos.Terminal

variable {done' : Nat → Nat → Bool} {r : Option Console} {cell : Cell} {t : Term}
  {ink : Rgb → UInt32}

namespace Console

variable {s : Console} {back : Framebuffer} {p : Raster UInt32} {done : Nat → Nat → Bool}

section Painting

/-- The pixels of a cleared screen once the cells in `done` are drawn. -/
def stage (ink : Rgb → UInt32) (t : Term) (p : Raster UInt32) (done : Nat → Nat → Bool) :
    Raster UInt32 := fun i j =>
  (p i j).map fun _ =>
    if done (i / 8) (j / 16) then Display.shown ink t i j else ink t.background

structure Painted (s : Console) (p : Raster UInt32) (done : Nat → Nat → Bool)
    (back : Framebuffer) : Prop where
  layout : back.layout = s.back.layout
  sound : back.Sound
  picture : back.readPixelRaw = stage s.ink s.term p done

/-- The loop has come through with these cells drawn, and nothing else changed. -/
def Repaints (s : Console) (r : Option Console) (p : Raster UInt32) (done : Nat → Nat → Bool) :
    Prop :=
  ∃ back, r = some { s with back } ∧ s.Painted p done back

theorem Repaints.mono (repaints : s.Repaints r p done) (same : ∀ c r, done c r = done' c r) :
    s.Repaints r p done' := by
  have eq : done = done' := by
    funext c r
    exact same c r
  exact eq ▸ repaints

theorem Repaints.bind {g : Console → Option Console} (first : s.Repaints r p done)
    (second : ∀ back, s.Painted p done back → s.Repaints (g { s with back }) p done') :
    s.Repaints (r.bind g) p done' := by
  obtain ⟨back, rfl, painted⟩ := first
  exact second back painted

variable {column row : Nat}

theorem within_cell {i j : Nat} :
    Raster.Within (8 * column) (16 * row) 8 16 i j ↔ i / 8 = column ∧ j / 16 = row := by
  unfold Raster.Within
  omega

theorem stage_skip (there : t.grid.cell column row = some cell)
    (plain : cell.isContinuation = true ∨ cell.needsRepaintAfterClear t.background = false) :
    stage ink t p (fun c r => done c r || (c == column && r == row)) = stage ink t p done := by
  funext i j
  unfold stage
  by_cases here : i / 8 = column ∧ j / 16 = row
  · have blank : Display.shown ink t i j = ink t.background := by
      unfold Display.shown
      rw [here.1, here.2, there]
      rcases plain with half | plain
      · simp [half]
      · simp [plain]
    simp [blank]
  · have other : (i / 8 == column && j / 16 == row) = false := by
      simpa using here
    simp [other]

theorem stage_draw
    (there : t.grid.cell column row = some cell) (whole : cell.isContinuation = false)
    (needs : cell.needsRepaintAfterClear t.background = true) :
    (stage ink t p done).draw (8 * column) (16 * row) 8 16 (Display.cellImage ink cell) =
      stage ink t p (fun c r => done c r || (c == column && r == row)) := by
  funext i j
  by_cases here : i / 8 = column ∧ j / 16 = row
  · have drawn : Display.shown ink t i j =
        Display.cellImage ink cell (i - 8 * column) (j - 16 * row) := by
      unfold Display.shown
      rw [here.1, here.2, there]
      simp only [whole, needs, Bool.not_true, Bool.or_self, Bool.false_eq_true, if_false]
      congr 1 <;> omega
    rw [Raster.draw, if_pos (within_cell.mpr here)]
    unfold stage
    rw [Option.map_map, drawn]
    simp [here, Function.comp_def]
  · have other : (i / 8 == column && j / 16 == row) = false := by
      simpa using here
    rw [Raster.draw_outside (mt within_cell.mp here)]
    unfold stage
    simp [other]

theorem repaintCell_paints (sound : s.Sound) (painted : s.Painted p done back)
    (inside : column < s.grid.columns) (below : row < s.grid.rows) :
    s.Repaints (({ s with back } : Console).repaintCell column row) p
      (fun c r => done c r || (c == column && r == row)) := by
  obtain ⟨cell, there⟩ := sound.grid.sound.sized.exists_eq inside below
  unfold repaintCell Screen.shouldDraw
  dsimp only
  rw [there, Option.any_some]
  have there' : s.term.grid.cell column row = some cell := there
  by_cases skip : cell.isContinuation = true ∨ cell.needsRepaintAfterClear s.background = false
  · refine ⟨back, ?_, painted.layout, painted.sound, ?_⟩
    · cases half : cell.isContinuation with
      | true => rfl
      | false =>
        rw [half] at skip
        simp only [Bool.false_eq_true, false_or] at skip
        simp [skip]
    · rw [stage_skip there' skip]
      exact painted.picture
  · rw [not_or, Bool.not_eq_true, Bool.not_eq_false] at skip
    have wide := sound.columns_le
    have tall := sound.rows_le
    obtain ⟨back', drawn, layout, soundBack, picture⟩ :=
      Framebuffer.drawGlyph_shows (x := 8 * column) (y := 16 * row) painted.sound
        (Font.glyph_width cell.ch) cell.fg cell.bg
        (by rw [painted.layout]; unfold Font.cellWidth; omega)
        (by rw [painted.layout]; unfold Font.glyphHeight; omega)
    refine ⟨back', ?_, layout.trans painted.layout, soundBack, ?_⟩
    · simp only [skip, sound.x_of inside.le, sound.y_of below.le, drawn, Bool.not_false,
        Bool.not_true, Bool.false_eq_true, if_false, Option.bind_eq_bind, Option.bind_some]
    · rw [picture, painted.layout, painted.picture]
      exact stage_draw there' skip.1 skip.2

theorem repaintRow_paints (sound : s.Sound) (painted : s.Painted p done back)
    (below : row < s.grid.rows) (count : Nat) (fits : column + count ≤ s.grid.columns) :
    s.Repaints (({ s with back } : Console).repaintRow row column count) p
      (fun c r => done c r || (decide (column ≤ c ∧ c < column + count) && r == row)) := by
  induction count generalizing back done column with
  | zero =>
    apply Repaints.mono ⟨back, rfl, painted⟩
    intro c r
    simp
  | succ count ih =>
    rw [repaintRow, Option.bind_eq_bind]
    apply (repaintCell_paints sound painted (by omega) below).bind
    intro next drawn
    apply (ih drawn (by omega)).mono
    intro c r
    have cells : decide (column ≤ c ∧ c < column + (count + 1)) =
        ((c == column) || decide (column + 1 ≤ c ∧ c < column + 1 + count)) := by
      rw [Bool.eq_iff_iff]
      simp
      omega
    rw [cells, Bool.or_assoc, ← Bool.and_or_distrib_right]

theorem repaintRows_paints (sound : s.Sound) (painted : s.Painted p done back) (row count : Nat)
    (fits : row + count ≤ s.grid.rows) :
    s.Repaints (({ s with back } : Console).repaintRows row count) p
      (fun c r => done c r ||
        (decide (c < s.grid.columns) && decide (row ≤ r ∧ r < row + count))) := by
  induction count generalizing back done row with
  | zero =>
    apply Repaints.mono ⟨back, rfl, painted⟩
    intro c r
    simp
  | succ count ih =>
    rw [repaintRows, Option.bind_eq_bind]
    apply (repaintRow_paints sound painted (show row < s.grid.rows by omega) s.grid.columns
      (show 0 + s.grid.columns ≤ s.grid.columns by omega)).bind
    intro next drawn
    apply (ih drawn (row + 1) (by omega)).mono
    intro c r
    have rows : decide (row ≤ r ∧ r < row + (count + 1)) =
        ((r == row) || decide (row + 1 ≤ r ∧ r < row + 1 + count)) := by
      rw [Bool.eq_iff_iff]
      simp
      omega
    rw [rows, Bool.or_assoc, Bool.and_or_distrib_left]
    simp

end Painting

theorem repaintFromCells_gives (sound : s.Sound) :
    s.Gives s.repaintFromCells (s.display.repaint s.ink) := by
  obtain ⟨back, cleared, layout, soundBack, picture⟩ :=
    Framebuffer.clearAll_shows sound.back s.background
  have painted : s.Painted s.back.readPixelRaw (fun _ _ => false) back := by
    refine ⟨layout, soundBack, ?_⟩
    rw [picture]
    rfl
  obtain ⟨back', drawn, layout', soundBack', picture'⟩ :=
    repaintRows_paints sound painted 0 s.grid.rows (by omega)
  unfold repaintFromCells
  rw [cleared, Option.bind_eq_bind, Option.bind_some, drawn]
  apply (sound.update (x := 0) (y := 0) (w := s.dirty.screenWidth) (h := s.dirty.screenHeight)
    layout' soundBack' sound.grid.sound rfl rfl ?_).mono
  · unfold Display.repaint
    congr 1
    rw [picture']
    funext i j
    unfold stage
    congr 1
    funext _
    change _ = Display.shown s.ink s.term i j
    by_cases inside : i / 8 < s.grid.columns ∧ j / 16 < s.grid.rows
    · simp [inside]
    · have gone : s.term.grid.cell (i / 8) (j / 16) = none :=
        sound.grid.sound.sized.eq_none inside
      unfold Display.shown
      rw [gone]
      simp
  · intro i j column row outside
    rw [sound.dirtyWidth, sound.dirtyHeight] at outside
    unfold Raster.Within at outside
    omega

theorem swapped_gives (sound : s.Sound) (alternate : Bool) :
    let t := { s with
      grid := s.inactive
      inactive := s.grid
      alternateActive := alternate
      cursorDrawnAt := none }
    s.Gives (some t) t.display :=
  sound.quiet rfl rfl sound.inactive sound.grid rfl rfl

theorem setAlternateScreen_gives (sound : s.Sound) (alternate : Bool) :
    s.Gives (s.setAlternateScreen alternate) (s.display.setAlternateScreen s.ink alternate) := by
  unfold setAlternateScreen Display.setAlternateScreen
  by_cases same : alternate = s.alternateActive
  · have same' : alternate = s.display.term.alternate := same
    rw [if_pos same, if_pos same']
    exact gives_self sound
  · have same' : ¬ alternate = s.display.term.alternate := same
    rw [if_neg same, if_neg same']
    have swapped := swapped_gives sound alternate
    apply swapped.next
    cases alternate with
    | true =>
      apply (clear_gives swapped.sound).mono
      unfold Display.clear Term.setAlternateScreen
      rw [if_neg same']
      rfl
    | false =>
      apply (repaintFromCells_gives swapped.sound).mono
      unfold Term.setAlternateScreen
      rw [if_neg same']
      rfl

end Console

end Zaytos.Terminal
