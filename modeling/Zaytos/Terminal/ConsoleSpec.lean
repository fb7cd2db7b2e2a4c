import Zaytos.Terminal.Display

set_option autoImplicit false

/-! The console in memory does to its cells and pixels what a display does, and every pixel that
it changes is still to be transferred. -/
namespace Zaytos.Terminal

namespace Console

structure Side (layout : FramebufferLayout) (grid : Screen) : Prop where
  sound : grid.Sound
  columns : grid.columns = layout.width / 8
  rows : grid.rows = layout.height / 16

structure Sound (s : Console) : Prop where
  front : s.front.Sound
  back : s.back.Sound
  shape : Framebuffer.SameShape s.back s.front
  grid : Side s.back.layout s.grid
  inactive : Side s.back.layout s.inactive
  dirty : s.dirty.Sound
  dirtyWidth : s.dirty.screenWidth = s.back.layout.width
  dirtyHeight : s.dirty.screenHeight = s.back.layout.height

def ink (s : Console) : Rgb → UInt32 := Framebuffer.pixelOf s.back.layout

def term (s : Console) : Term where
  grid := s.grid.view
  other := s.inactive.view
  foreground := s.foreground
  background := s.background
  defaultForeground := s.defaultForeground
  defaultBackground := s.defaultBackground
  cursorVisible := s.cursorVisible
  drawnAt := s.cursorDrawnAt
  alternate := s.alternateActive

def display (s : Console) : Display := ⟨s.term, s.back.readPixelRaw⟩

structure Tracks (s t : Console) : Prop where
  front : t.front = s.front
  layout : t.back.layout = s.back.layout
  requested : t.repaintRequested = s.repaintRequested
  kept : ∀ i j, i < s.back.layout.width → j < s.back.layout.height → ¬ t.dirty.Covers i j →
    ¬ s.dirty.Covers i j ∧ t.back.readPixelRaw i j = s.back.readPixelRaw i j

def Gives (s : Console) (r : Option Console) (d : Display) : Prop :=
  ∃ t, r = some t ∧ t.Sound ∧ t.display = d ∧ s.Tracks t

def Follows (s : Console) (r : Option Console) : Option Display → Prop
  | none => r = none
  | some d => s.Gives r d

variable {s t u : Console} {r : Option Console} {d d' : Display}

theorem Tracks.refl (s : Console) : s.Tracks s :=
  ⟨rfl, rfl, rfl, fun _ _ _ _ clean => ⟨clean, rfl⟩⟩

theorem Tracks.trans (first : s.Tracks t) (second : t.Tracks u) : s.Tracks u := by
  apply Tracks.mk (second.front.trans first.front) (second.layout.trans first.layout)
    (second.requested.trans first.requested)
  intro i j column row clean
  obtain ⟨before, same⟩ :=
    second.kept i j (first.layout ▸ column) (first.layout ▸ row) clean
  obtain ⟨start, kept⟩ := first.kept i j column row before
  exact ⟨start, same.trans kept⟩

theorem Tracks.ink (tracks : s.Tracks t) : t.ink = s.ink := by
  rw [Console.ink, tracks.layout]
  rfl

theorem Gives.mono (gives : s.Gives r d) (same : d = d') : s.Gives r d' := same ▸ gives

theorem Gives.bind {g : Console → Option Console} (first : s.Gives r d)
    (second : ∀ t, t.Sound → t.display = d → s.Tracks t → t.Gives (g t) d') :
    s.Gives (r.bind g) d' := by
  obtain ⟨t, rfl, sound, display, tracks⟩ := first
  obtain ⟨u, same, soundU, displayU, rest⟩ := second t sound display tracks
  exact ⟨u, same, soundU, displayU, tracks.trans rest⟩

theorem Gives.next (first : s.Gives (some t) d) (second : t.Gives r d') : s.Gives r d' := by
  obtain ⟨t', same, -, -, tracks⟩ := first
  cases same
  obtain ⟨u, rfl, soundU, displayU, rest⟩ := second
  exact ⟨u, rfl, soundU, displayU, tracks.trans rest⟩

theorem Gives.sound (gives : s.Gives (some t) d) : t.Sound := by
  obtain ⟨t', same, sound, -⟩ := gives
  cases same
  exact sound

theorem Gives.follows {g : Console → Option Console} {o : Option Display} (first : s.Gives r d)
    (second : ∀ t, t.Sound → t.display = d → s.Tracks t → t.Follows (g t) o) :
    s.Follows (r.bind g) o := by
  obtain ⟨t, rfl, sound, display, tracks⟩ := first
  have rest := second t sound display tracks
  cases o with
  | none => exact rest
  | some d' =>
    obtain ⟨u, same, soundU, displayU, after⟩ := rest
    exact ⟨u, same, soundU, displayU, tracks.trans after⟩

theorem gives_self (sound : s.Sound) : s.Gives (some s) s.display :=
  ⟨s, rfl, sound, rfl, .refl s⟩

section Sizes

variable (sound : s.Sound)
include sound

theorem Sound.columns_le : 8 * s.grid.columns ≤ s.back.layout.width := by
  rw [sound.grid.columns]
  omega

theorem Sound.rows_le : 16 * s.grid.rows ≤ s.back.layout.height := by
  rw [sound.grid.rows]
  omega

theorem Sound.narrow : s.grid.columns + 2 < 2 ^ 32 := by
  have := sound.columns_le
  have := s.back.layout.width_lt
  omega

theorem Sound.x_of {column : Nat} (inside : column ≤ s.grid.columns) :
    mul32 column Font.cellWidth = some (8 * column) := by
  have := sound.columns_le
  have := s.back.layout.width_lt
  rw [mul32_of_lt (by unfold Font.cellWidth; omega), Nat.mul_comm]

theorem Sound.y_of {row : Nat} (inside : row ≤ s.grid.rows) :
    mul32 row Font.glyphHeight = some (16 * row) := by
  have := sound.rows_le
  have := s.back.layout.height_lt
  rw [mul32_of_lt (by unfold Font.glyphHeight; omega), Nat.mul_comm]

end Sizes

theorem Sound.update (sound : s.Sound) {back : Framebuffer} {grid : Screen} {x y w h : Nat}
    (layout : back.layout = s.back.layout) (soundBack : back.Sound) (soundGrid : grid.Sound)
    (columns : grid.columns = s.grid.columns) (rows : grid.rows = s.grid.rows)
    (changed : ∀ i j, i < s.back.layout.width → j < s.back.layout.height →
      ¬ Raster.Within x y w h i j → back.readPixelRaw i j = s.back.readPixelRaw i j) :
    s.Gives (some { s with back, grid, dirty := s.dirty.mark x y w h })
      ⟨{ s.term with grid := grid.view }, back.readPixelRaw⟩ := by
  obtain ⟨sameWidth, sameHeight⟩ := s.dirty.mark_size x y w h
  refine ⟨_, rfl, ?_, rfl, rfl, layout, rfl, ?_⟩
  · constructor
    · exact sound.front
    · exact soundBack
    · constructor
      all_goals rw [layout]
      exacts [sound.shape.width, sound.shape.height, sound.shape.stride, sound.shape.size]
    · constructor
      · exact soundGrid
      · rw [layout, ← sound.grid.columns, columns]
      · rw [layout, ← sound.grid.rows, rows]
    · rw [layout]
      exact sound.inactive
    · exact DirtyRegion.mark_sound sound.dirty x y w h
    · rw [layout]
      exact sameWidth.trans sound.dirtyWidth
    · rw [layout]
      exact sameHeight.trans sound.dirtyHeight
  · intro i j column row clean
    rw [← sound.dirtyWidth] at column
    rw [← sound.dirtyHeight] at row
    constructor
    · intro before
      exact clean (DirtyRegion.mark_keeps sound.dirty before)
    · apply changed i j (sound.dirtyWidth ▸ column) (sound.dirtyHeight ▸ row)
      intro within
      exact clean (DirtyRegion.mark_covers sound.dirty column row within)

theorem Sound.painted (sound : s.Sound) {rb : Option Framebuffer} {p : Raster UInt32}
    {x y w h : Nat} (shows' : Framebuffer.Shows rb s.back.layout p)
    (changed : ∀ i j, ¬ Raster.Within x y w h i j → p i j = s.back.readPixelRaw i j) :
    s.Gives (rb.bind fun back => some { s with back, dirty := s.dirty.mark x y w h })
      ⟨s.term, p⟩ := by
  obtain ⟨back, rfl, layout, soundBack, rfl⟩ := shows'
  exact sound.update layout soundBack sound.grid.sound rfl rfl
    fun i j _ _ outside => changed i j outside

theorem Sound.regrid (sound : s.Sound) {grid : Screen} (soundGrid : grid.Sound)
    (columns : grid.columns = s.grid.columns) (rows : grid.rows = s.grid.rows) :
    s.Gives (some { s with grid }) ⟨{ s.term with grid := grid.view }, s.back.readPixelRaw⟩ := by
  refine ⟨_, rfl, ?_, rfl, rfl, rfl, rfl, fun _ _ _ _ clean => ⟨clean, rfl⟩⟩
  exact { sound with grid := ⟨soundGrid, columns.trans sound.grid.columns, rows.trans sound.grid.rows⟩ }

theorem Sound.quiet (sound : s.Sound) (front : t.front = s.front) (back : t.back = s.back)
    (grid : Side s.back.layout t.grid) (inactive : Side s.back.layout t.inactive)
    (dirty : t.dirty = s.dirty) (requested : t.repaintRequested = s.repaintRequested) :
    s.Gives (some t) t.display := by
  refine ⟨t, rfl, ?_, rfl, front, by rw [back], requested, ?_⟩
  · constructor
    · exact front ▸ sound.front
    · exact back ▸ sound.back
    · rw [front, back]
      exact sound.shape
    · exact back ▸ grid
    · exact back ▸ inactive
    · exact dirty ▸ sound.dirty
    · rw [dirty, back]
      exact sound.dirtyWidth
    · rw [dirty, back]
      exact sound.dirtyHeight
  · intro i j _ _ clean
    rw [dirty] at clean
    rw [back]
    exact ⟨clean, rfl⟩

theorem Side.setCursor {layout : FramebufferLayout} {grid : Screen} (side : Side layout grid)
    (column row : Nat) : Side layout (grid.setCursor column row) :=
  ⟨Screen.setCursor_sound side.sound column row, side.columns, side.rows⟩

section Cursor

theorem cursorToCell_gives (sound : s.Sound) (column row : Nat) :
    s.Gives (some (s.cursorToCell column row))
      { s.display with term := s.term.cursorTo column row } :=
  sound.quiet rfl rfl (sound.grid.setCursor column row) sound.inactive rfl rfl

theorem showCursor_gives (sound : s.Sound) (visible : Bool) :
    s.Gives (some (s.showCursor visible))
      { s.display with term := { s.term with cursorVisible := visible } } :=
  sound.quiet rfl rfl sound.grid sound.inactive rfl rfl

theorem setGraphics_gives (sound : s.Sound) (graphics : Graphics) :
    s.Gives (some (s.setGraphics graphics))
      { s.display with term := s.term.setGraphics graphics } := by
  have same : (s.setGraphics graphics).display =
      { s.display with term := s.term.setGraphics graphics } := by
    unfold setGraphics Term.setGraphics
    cases graphics.reset <;> rfl
  rw [← same]
  unfold setGraphics
  cases graphics.reset
  · exact sound.quiet rfl rfl sound.grid sound.inactive rfl rfl
  · exact sound.quiet rfl rfl sound.grid sound.inactive rfl rfl

theorem paintCursor_gives (sound : s.Sound) (visible : Bool) :
    s.Gives (s.paintCursor visible)
      (s.display.line s.ink s.grid.cursorColumn s.grid.cursorRow
        (if visible then cursorColor
          else Display.under s.term s.grid.cursorColumn s.grid.cursorRow)) := by
  have tall := sound.rows_le
  have row := sound.grid.sound.row
  have height := s.back.layout.height_lt
  have foot : sub (16 * s.grid.cursorRow + Font.glyphHeight) cursorThickness =
      some (16 * s.grid.cursorRow + 14) :=
    sub_of_le (by unfold Font.glyphHeight cursorThickness; omega)
  unfold paintCursor Screen.cursor
  simp only [sound.x_of sound.grid.sound.column, sound.y_of row.le, Option.bind_eq_bind,
    Option.bind_some]
  rw [add32_of_lt (by unfold Font.glyphHeight; omega), Option.bind_some, foot, Option.bind_some]
  exact sound.painted (Framebuffer.fillRect_shows sound.back _ _ _ _ _)
    fun i j outside => Raster.fill_outside outside

theorem eraseDrawnCursor_gives (sound : s.Sound) :
    s.Gives s.eraseDrawnCursor (s.display.eraseDrawn s.ink) := by
  unfold eraseDrawnCursor Display.eraseDrawn
  cases drawn : s.cursorDrawnAt with
  | none =>
    have drawn' : s.display.term.drawnAt = none := drawn
    rw [drawn']
    exact gives_self sound
  | some place =>
    obtain ⟨column, row⟩ := place
    have drawn' : s.display.term.drawnAt = some (column, row) := drawn
    rw [drawn']
    have placed := sound.quiet
      (t := { s with cursorDrawnAt := none, grid := s.grid.setCursor column row })
      rfl rfl (sound.grid.setCursor column row) sound.inactive rfl rfl
    apply placed.next
    apply (paintCursor_gives placed.sound false).bind
    intro t soundT display _
    have back := soundT.regrid (Screen.setCursor_sound soundT.grid.sound s.grid.cursorColumn
      s.grid.cursorRow) rfl rfl
    apply back.mono
    change (⟨{ t.display.term with grid := t.display.term.grid.setCursor _ _ }, t.display.picture⟩ :
      Display) = _
    rw [display]
    unfold Term.eraseDrawn
    rw [drawn']
    rfl

theorem refreshCursor_gives (sound : s.Sound) :
    s.Gives s.refreshCursor (s.display.refresh s.ink) := by
  unfold refreshCursor Display.refresh
  by_cases stays : s.cursorVisible = true ∧ s.cursorDrawnAt = some s.grid.cursor
  · have stays' : s.display.term.cursorVisible = true ∧ s.display.term.drawnAt =
      some (s.display.term.grid.column, s.display.term.grid.row) := stays
    rw [if_pos stays, if_pos stays']
    exact gives_self sound
  · have stays' : ¬ (s.display.term.cursorVisible = true ∧ s.display.term.drawnAt =
      some (s.display.term.grid.column, s.display.term.grid.row)) := stays
    rw [if_neg stays, if_neg stays']
    apply (eraseDrawnCursor_gives sound).bind
    intro t soundT display tracks
    have same : t.cursorVisible = s.display.term.cursorVisible := by
      have erased := congrArg (fun d => d.term.cursorVisible) display
      rw [Display.eraseDrawn_term] at erased
      exact erased.trans (Term.eraseDrawn_cursorVisible _)
    rw [same]
    cases s.display.term.cursorVisible with
    | false => exact (gives_self soundT).mono display
    | true =>
      rw [if_pos rfl, if_pos rfl, ← display, ← tracks.ink]
      apply (paintCursor_gives soundT true).bind
      intro u soundU displayU _
      have marked := soundU.quiet (t := { u with cursorDrawnAt := some u.grid.cursor })
        rfl rfl soundU.grid soundU.inactive rfl rfl
      apply marked.mono
      change (⟨{ u.display.term with
        drawnAt := some (u.display.term.grid.column, u.display.term.grid.row) },
        u.display.picture⟩ : Display) = _
      rw [displayU]
      rfl

end Cursor

section Erasing

theorem eraseFrom_gives (sound : s.Sound) (row column count : Nat) :
    s.Gives (s.eraseFrom row column count)
      { s.display with
        term := { s.term with
          grid := s.term.grid.paint column row count (Cell.cleared s.background) } } := by
  induction count generalizing s column with
  | zero =>
    rw [Grid.paint_zero]
    exact gives_self sound
  | succ count ih =>
    obtain ⟨grid, put, placed, view⟩ := Screen.put_gives sound.grid.sound column row ' '
      s.background s.background (show 1 ≤ 2 by omega)
    have cleared : grid.view = s.term.grid.paint column row 1 (Cell.cleared s.background) := by
      rw [view, Grid.put, Nat.sub_self, Grid.paint_zero]
      rfl
    rw [eraseFrom, put, Option.bind_eq_bind, Option.bind_some]
    have columns : grid.columns = s.grid.columns := congrArg Grid.columns view
    have rows : grid.rows = s.grid.rows := congrArg Grid.rows view
    have first := sound.regrid placed columns rows
    apply (first.next (ih first.sound (column + 1))).mono
    dsimp only [display, term]
    rw [cleared, Nat.add_comm count 1, ← Grid.paint_right]
    rfl

theorem eraseCells_gives (sound : s.Sound) {row start stop : Nat} (inside : start ≤ s.grid.columns)
    (below : row ≤ s.grid.rows) (small : 8 * (stop - start) < 2 ^ 32) :
    s.Gives (s.eraseCells row start stop) (s.display.eraseCells s.ink row start stop) := by
  unfold eraseCells Display.eraseCells Term.eraseCells
  by_cases nothing : stop ≤ start
  · rw [if_pos nothing, Nat.sub_eq_zero_of_le nothing, Grid.paint_zero, Raster.fill_empty]
    exact gives_self sound
  · rw [if_neg nothing]
    have width : mul32 (stop - start) Font.cellWidth = some (8 * (stop - start)) := by
      rw [mul32_of_lt (by unfold Font.cellWidth; omega), Nat.mul_comm]
    simp only [sound.x_of inside, sound.y_of below, width, Option.bind_eq_bind, Option.bind_some]
    obtain ⟨back, filled, layout, soundBack, picture⟩ := Framebuffer.fillRect_shows sound.back
      (8 * start) (16 * row) (8 * (stop - start)) Font.glyphHeight s.background
    have first := sound.painted ⟨back, rfl, layout, soundBack, picture⟩
      fun i j outside => Raster.fill_outside outside
    rw [filled, Option.bind_some]
    apply first.next
    apply (eraseFrom_gives first.sound row start (stop - start)).mono
    dsimp only [display]
    rw [picture]
    rfl

theorem Sound.columns_small (sound : s.Sound) (start : Nat) :
    8 * (s.grid.columns - start) < 2 ^ 32 := by
  have := sound.columns_le
  have := s.back.layout.width_lt
  omega

theorem eraseRows_gives (sound : s.Sound) (row count : Nat) (below : row + count ≤ s.grid.rows) :
    s.Gives (s.eraseRows row count) (s.display.eraseRows s.ink row count) := by
  induction count generalizing s row with
  | zero =>
    unfold eraseRows Display.eraseRows Term.eraseRows
    rw [Raster.fill_flat, Raster.fill_flat]
    exact gives_self sound
  | succ count ih =>
    rw [eraseRows, Option.bind_eq_bind]
    apply (eraseCells_gives sound (Nat.zero_le _) (by omega) (sound.columns_small 0)).bind
    intro t soundT display tracks
    have columns : t.grid.columns = s.grid.columns :=
      congrArg (fun d => d.term.grid.columns) display
    have rows : t.grid.rows = s.grid.rows := congrArg (fun d => d.term.grid.rows) display
    apply (ih soundT (row + 1) (by omega)).mono
    rw [display, tracks.ink]
    unfold Display.eraseRows Term.eraseRows Display.eraseCells Term.eraseCells Grid.paint
    congr 1
    · dsimp only
      rw [Nat.add_comm count 1, ← Raster.fill_below]
      rfl
    · dsimp only
      rw [Nat.add_comm count 1, Nat.mul_add 16 1 count, ← Raster.fill_below]
      rfl

theorem eraseBefore_follows (sound : s.Sound) :
    s.Follows (do s.eraseCells s.grid.cursorRow 0 (← add32 s.grid.cursorColumn 1))
      (s.display.eraseBefore s.ink) := by
  have row := sound.grid.sound.row
  have column := sound.grid.sound.column
  have narrow := sound.narrow
  rw [add32_of_lt (by omega), Option.bind_eq_bind, Option.bind_some]
  unfold Display.eraseBefore
  by_cases small : 8 * (s.grid.cursorColumn + 1) < 2 ^ 32
  · have small' : 8 * (s.display.term.grid.column + 1) < 2 ^ 32 := small
    rw [if_pos small']
    exact eraseCells_gives sound (Nat.zero_le _) row.le small
  · have small' : ¬ 8 * (s.display.term.grid.column + 1) < 2 ^ 32 := small
    have large : mul32 (s.grid.cursorColumn + 1 - 0) Font.cellWidth = none := by
      apply if_neg
      unfold Font.cellWidth
      omega
    rw [if_neg small']
    unfold Follows eraseCells
    simp only [if_neg (show ¬ s.grid.cursorColumn + 1 ≤ 0 by omega), sound.x_of (Nat.zero_le _),
      sound.y_of row.le, large, Option.bind_eq_bind, Option.bind_some, Option.bind_none]

theorem eraseInLine_follows (sound : s.Sound) (scope : EraseScope) :
    s.Follows (s.eraseInLine scope) (s.display.eraseInLine s.ink scope) := by
  have row := sound.grid.sound.row
  cases scope with
  | after => exact eraseCells_gives sound sound.grid.sound.column row.le (sound.columns_small _)
  | before => exact eraseBefore_follows sound
  | all => exact eraseCells_gives sound (Nat.zero_le _) row.le (sound.columns_small 0)

theorem clear_gives (sound : s.Sound) : s.Gives s.clear (s.display.clear s.ink) := by
  obtain ⟨back, cleared, layout, soundBack, picture⟩ :=
    Framebuffer.clearAll_shows sound.back s.background
  obtain ⟨grid, reset, soundGrid, view⟩ := Screen.reset_gives sound.grid.sound s.background
  unfold clear
  rw [cleared, reset]
  have columns : grid.columns = s.grid.columns := congrArg Grid.columns view
  have rows : grid.rows = s.grid.rows := congrArg Grid.rows view
  apply (sound.update (x := 0) (y := 0) (w := s.dirty.screenWidth) (h := s.dirty.screenHeight)
    layout soundBack soundGrid columns rows ?_).mono
  · unfold Display.clear Term.clear
    rw [view, picture]
    rfl
  · intro i j column row outside
    rw [sound.dirtyWidth, sound.dirtyHeight] at outside
    unfold Raster.Within at outside
    omega

theorem eraseInDisplay_follows (sound : s.Sound) (scope : EraseScope) :
    s.Follows (s.eraseInDisplay scope) (s.display.eraseInDisplay s.ink scope) := by
  have row := sound.grid.sound.row
  have narrow := s.grid.rows_lt
  cases scope with
  | after =>
    unfold eraseInDisplay Display.eraseInDisplay Screen.cursor
    dsimp only
    rw [Option.bind_eq_bind]
    apply (eraseCells_gives sound sound.grid.sound.column row.le (sound.columns_small _)).bind
    intro t soundT display tracks
    have rows : t.grid.rows = s.grid.rows := congrArg (fun d => d.term.grid.rows) display
    rw [add32_of_lt (by omega), Option.bind_eq_bind, Option.bind_some]
    apply (eraseRows_gives soundT _ _ (by omega)).mono
    rw [display, tracks.ink]
    rfl
  | before =>
    unfold eraseInDisplay Display.eraseInDisplay Screen.cursor
    dsimp only
    rw [Option.bind_eq_bind]
    apply (eraseRows_gives sound 0 s.grid.cursorRow (by omega)).follows
    intro t soundT display tracks
    have column : t.grid.cursorColumn = s.grid.cursorColumn :=
      congrArg (fun d => d.term.grid.column) display
    have sameRow : t.grid.cursorRow = s.grid.cursorRow :=
      congrArg (fun d => d.term.grid.row) display
    have rest := eraseBefore_follows soundT
    rw [column, sameRow, display, tracks.ink] at rest
    exact rest
  | all =>
    have cleared := clear_gives sound
    unfold eraseInDisplay Display.eraseInDisplay Screen.cursor
    unfold clear at cleared
    obtain ⟨back, wiped, -⟩ := Framebuffer.clearAll_shows sound.back s.background
    obtain ⟨grid, reset, -⟩ := Screen.reset_gives sound.grid.sound s.background
    simp only [wiped, reset, Option.bind_eq_bind, Option.bind_some] at cleared ⊢
    have placed := cursorToCell_gives cleared.sound s.grid.cursorColumn s.grid.cursorRow
    apply (cleared.next placed).mono
    obtain ⟨t, same, -, display, -⟩ := cleared
    cases same
    rw [← display]
    rfl

end Erasing

section Lines

theorem Sound.shifted (sound : s.Sound) {top : Nat} {rb : Option Framebuffer} {rg : Option Screen}
    {p : Raster UInt32} {grid : Grid} (pixels : Framebuffer.Shows rb s.back.layout p)
    (cells : Screen.Gives rg grid) (columns : grid.columns = s.grid.columns)
    (rows : grid.rows = s.grid.rows) (above : ∀ i j, j < top → p i j = s.back.readPixelRaw i j) :
    s.Gives (rb.bind fun back => rg.bind fun grid =>
        some { s with
          back, grid
          dirty := s.dirty.mark 0 top back.layout.width (s.back.layout.height - top) })
      ⟨{ s.term with grid }, p⟩ := by
  obtain ⟨back, rfl, layout, soundBack, rfl⟩ := pixels
  obtain ⟨grid, rfl, soundGrid, rfl⟩ := cells
  rw [Option.bind_some, Option.bind_some, layout]
  apply sound.update layout soundBack soundGrid columns rows
  intro i j column row outside
  apply above
  unfold Raster.Within at outside
  omega

theorem erased (display : t.display = s.display.eraseDrawn s.ink) :
    t.term = s.term.eraseDrawn ∧ t.grid.rows = s.grid.rows ∧ t.background = s.background := by
  have term : t.term = s.term.eraseDrawn :=
    (congrArg Display.term display).trans (Display.eraseDrawn_term s.ink s.display)
  have rows : t.grid.rows = s.term.eraseDrawn.grid.rows := congrArg (fun t => t.grid.rows) term
  have background : t.background = s.term.eraseDrawn.background := congrArg Term.background term
  exact ⟨term, rows.trans s.term.eraseDrawn_grid.2.1,
    background.trans s.term.eraseDrawn_background⟩

theorem deleteLines_follows (sound : s.Sound) (count : Nat) :
    s.Follows (s.deleteLines count) (s.display.deleteLines s.ink count) := by
  have row := sound.grid.sound.row
  unfold deleteLines Screen.cursor
  dsimp only
  rw [Option.bind_eq_bind]
  apply (eraseDrawnCursor_gives sound).follows
  intro t soundT display tracks
  obtain ⟨term, rows, background⟩ := erased display
  rw [soundT.y_of (show s.grid.cursorRow ≤ t.grid.rows by omega), Option.bind_eq_bind,
    Option.bind_some]
  unfold Display.deleteLines Term.deleteLines
  by_cases small : 16 * count < 2 ^ 32
  · rw [if_pos small, mul32_of_lt (by unfold Font.glyphHeight; omega), Option.bind_eq_bind,
      Option.bind_some, Nat.mul_comm count]
    have shifted := soundT.shifted
      (Framebuffer.deleteRows_shows soundT.back (16 * s.grid.cursorRow) (16 * count) t.background)
      (Screen.deleteLines_gives soundT.grid.sound s.grid.cursorRow count t.background) rfl rfl
      (fun i j above => if_pos above)
    apply shifted.mono
    change (⟨{ t.term with grid :=
        t.term.grid.deleteLines s.grid.cursorRow count t.term.background },
      t.display.picture.deleteRows _ _ (t.ink t.background)⟩ : Display) = _
    rw [term, background, display, tracks.ink]
    rfl
  · have large : mul32 count Font.glyphHeight = none := by
      apply if_neg
      unfold Font.glyphHeight
      omega
    rw [if_neg small, large]
    rfl

theorem insertLines_follows (sound : s.Sound) (count : Nat) :
    s.Follows (s.insertLines count) (s.display.insertLines s.ink count) := by
  have row := sound.grid.sound.row
  unfold insertLines Screen.cursor
  dsimp only
  rw [Option.bind_eq_bind]
  apply (eraseDrawnCursor_gives sound).follows
  intro t soundT display tracks
  obtain ⟨term, rows, background⟩ := erased display
  rw [soundT.y_of (show s.grid.cursorRow ≤ t.grid.rows by omega), Option.bind_eq_bind,
    Option.bind_some]
  unfold Display.insertLines Term.insertLines
  by_cases small : 16 * count < 2 ^ 32
  · rw [if_pos small, mul32_of_lt (by unfold Font.glyphHeight; omega), Option.bind_eq_bind,
      Option.bind_some, Nat.mul_comm count]
    have shifted := soundT.shifted
      (Framebuffer.insertRows_shows soundT.back (16 * s.grid.cursorRow) (16 * count) t.background)
      (Screen.insertLines_gives soundT.grid.sound s.grid.cursorRow count t.background) rfl rfl
      (fun i j above => if_pos above)
    apply shifted.mono
    change (⟨{ t.term with grid :=
        t.term.grid.insertLines s.grid.cursorRow count t.term.background },
      t.display.picture.insertRows _ _ (t.ink t.background)⟩ : Display) = _
    rw [term, background, display, tracks.ink]
    rfl
  · have large : mul32 count Font.glyphHeight = none := by
      apply if_neg
      unfold Font.glyphHeight
      omega
    rw [if_neg small, large]
    rfl

end Lines

section Characters

theorem scrolled_gives (sound : s.Sound) :
    s.Gives s.scrolled (s.display.scroll s.ink) := by
  obtain ⟨back, moved, layout, soundBack, picture⟩ :=
    Framebuffer.scrollUp_shows sound.back Font.glyphHeight s.background
  obtain ⟨grid, shifted, soundGrid, view⟩ :=
    Screen.deleteLines_gives sound.grid.sound 0 1 s.background
  have columns : grid.columns = s.grid.columns := congrArg Grid.columns view
  have rows : grid.rows = s.grid.rows := congrArg Grid.rows view
  unfold scrolled Screen.scrollUp
  rw [moved, shifted]
  apply (sound.update (x := 0) (y := 0) (w := s.dirty.screenWidth) (h := s.dirty.screenHeight)
    layout soundBack soundGrid columns rows ?_).mono
  · rw [view, picture]
    rfl
  · intro i j column row outside
    rw [sound.dirtyWidth, sound.dirtyHeight] at outside
    unfold Raster.Within at outside
    omega

theorem rowCleared_gives (sound : s.Sound) {row : Nat} (inside : row < s.grid.rows) :
    s.Gives (s.rowCleared row) (s.display.clearRow s.ink row) := by
  obtain ⟨back, cleared, layout, soundBack, picture⟩ :=
    Framebuffer.clearRows_shows sound.back (16 * row) Font.glyphHeight s.background
  obtain ⟨grid, wiped, soundGrid, view⟩ :=
    Screen.clearRow_gives sound.grid.sound row s.background
  have columns : grid.columns = s.grid.columns := congrArg Grid.columns view
  have rows : grid.rows = s.grid.rows := congrArg Grid.rows view
  unfold rowCleared
  simp only [sound.y_of inside.le, cleared, wiped, Option.bind_eq_bind, Option.bind_some, layout]
  apply (sound.update layout soundBack soundGrid columns rows ?_).mono
  · rw [view, picture, sound.back.sized.fill_rows]
    rfl
  · intro i j _ _ outside
    rw [picture]
    exact Raster.fill_outside outside

theorem drawn_gives (sound : s.Sound) (c : Char) {place : Placement}
    (column : place.column + 1 ≤ s.grid.columns) (row : place.row < s.grid.rows)
    (few : place.widthCells ≤ 2) :
    s.Gives (s.drawn c place) (s.display.draw s.ink c place) := by
  have wide := sound.columns_le
  have tall := sound.rows_le
  have half := Font.glyph_width c
  obtain ⟨back, drawn, layout, soundBack, picture⟩ :=
    Framebuffer.drawGlyph_shows (x := 8 * place.column) (y := 16 * place.row) sound.back half
      s.foreground s.background (by unfold Font.cellWidth; omega)
      (by unfold Font.glyphHeight; omega)
  obtain ⟨grid, put, soundGrid, view⟩ := Screen.put_gives sound.grid.sound place.column place.row
    c s.foreground s.background few
  have columns : grid.columns = s.grid.columns := congrArg Grid.columns view
  have rows : grid.rows = s.grid.rows := congrArg Grid.rows view
  unfold Console.drawn
  simp only [sound.x_of (show place.column ≤ s.grid.columns by omega), sound.y_of row.le, put,
    drawn, Option.bind_eq_bind, Option.bind_some]
  apply (sound.update layout soundBack soundGrid columns rows ?_).mono
  · rw [view, picture]
    rfl
  · intro i j _ _ outside
    rw [picture]
    apply Raster.draw_outside
    unfold Font.Glyph.widthPixels Font.Glyph.heightPixels at outside
    rw [half, Nat.mul_one] at outside
    exact outside

structure StepFits (step : Step) (columns rows : Nat) : Prop where
  clears : ∀ row, step.clearRow = some row → row < rows
  draws : ∀ place, step.drawAt = some place →
    place.column + 1 ≤ columns ∧ place.row < rows ∧ place.widthCells ≤ 2

theorem draw_gives (sound : s.Sound) (c : Char) {step : Step}
    (fits : StepFits step s.grid.columns s.grid.rows) :
    s.Gives (match step.drawAt with
        | some place => s.drawn c place
        | none => some s)
      (s.display.settle s.ink c { drawAt := step.drawAt }) := by
  cases drawn : step.drawAt with
  | none => exact gives_self sound
  | some place =>
    obtain ⟨column, row, few⟩ := fits.draws place drawn
    exact drawn_gives sound c column row few

theorem clear_draw_gives (sound : s.Sound) (c : Char) {step : Step}
    (fits : StepFits step s.grid.columns s.grid.rows) :
    s.Gives (do
        let s ← match step.clearRow with
          | some row => s.rowCleared row
          | none => some s
        match step.drawAt with
          | some place => s.drawn c place
          | none => some s)
      (s.display.settle s.ink c { step with scrolled := false }) := by
  cases cleared : step.clearRow with
  | none => exact draw_gives sound c fits
  | some row =>
    apply (rowCleared_gives sound (fits.clears row cleared)).bind
    intro t soundT display tracks
    have columns : t.grid.columns = s.grid.columns :=
      congrArg (fun d => d.term.grid.columns) display
    have rows : t.grid.rows = s.grid.rows := congrArg (fun d => d.term.grid.rows) display
    apply (draw_gives soundT c (columns ▸ rows ▸ fits)).mono
    rw [display, tracks.ink]
    unfold Display.settle
    rfl

theorem settle_gives (sound : s.Sound) (c : Char) {step : Step}
    (fits : StepFits step s.grid.columns s.grid.rows) :
    s.Gives (do
        let s ← if step.scrolled then s.scrolled else some s
        let s ← match step.clearRow with
          | some row => s.rowCleared row
          | none => some s
        match step.drawAt with
          | some place => s.drawn c place
          | none => some s)
      (s.display.settle s.ink c step) := by
  cases scrolled : step.scrolled with
  | false =>
    apply (clear_draw_gives sound c fits).mono
    unfold Display.settle
    rw [scrolled]
  | true =>
    apply (scrolled_gives sound).bind
    intro t soundT display tracks
    have columns : t.grid.columns = s.grid.columns :=
      congrArg (fun d => d.term.grid.columns) display
    have rows : t.grid.rows = s.grid.rows := congrArg (fun d => d.term.grid.rows) display
    apply (clear_draw_gives soundT c (columns ▸ rows ▸ fits)).mono
    rw [display, tracks.ink]
    unfold Display.settle
    rw [scrolled]
    rfl

theorem putChar_gives (sound : s.Sound) (c : Char) :
    s.Gives (s.putChar c) (s.display.putChar s.ink c) := by
  unfold putChar Display.putChar
  rw [Option.bind_eq_bind]
  apply (eraseDrawnCursor_gives sound).bind
  intro t soundT display tracks
  obtain ⟨grid, advanced, soundGrid, view⟩ := Screen.advance_steps soundT.grid.sound soundT.narrow c
    (widthCells_pos c) (widthCells_le c)
  have placed := soundT.grid.sound.view
  obtain ⟨columns, rows⟩ := t.grid.view.advance_size c (widthCells c)
  rw [← view] at columns rows
  have moved := soundT.regrid soundGrid columns rows
  rw [advanced, Option.bind_eq_bind, Option.bind_some]
  apply moved.next
  have fits : StepFits (t.grid.view.advance c (widthCells c)).1 grid.columns grid.rows := by
    have size : grid.columns = t.grid.view.columns ∧ grid.rows = t.grid.view.rows := ⟨columns, rows⟩
    rw [size.1, size.2]
    constructor
    · intro row cleared
      exact placed.advance_clearRow cleared
    · intro place drawn
      obtain ⟨column, row, few⟩ := placed.advance_drawAt (widthCells_le c) drawn
      have pos := widthCells_pos c
      have two := widthCells_le c
      exact ⟨by omega, row, by omega⟩
  apply (settle_gives moved.sound c fits).mono
  rw [← display, ← tracks.ink]
  have start : ({ t with grid } : Console).display =
      { t.display with
        term := { t.term with grid := (t.grid.view.advance c (widthCells c)).2 } } := by
    rw [← view]
    rfl
  rw [start]
  rfl

end Characters

end Console

end Zaytos.Terminal
