import Zaytos.Terminal.Repaint

set_option autoImplicit false

/-! What is transferred to the screen: between two transfers the screen differs from the surface
only where it is still to be transferred, and a transfer leaves no difference. -/
namespace Zaytos.Terminal

variable {cells : List Cell} {layout : FramebufferLayout}

namespace Console

variable {s t : Console}

/-- Where nothing is to be transferred, the screen shows what the surface does. -/
def Accounted (s : Console) : Prop :=
  ∀ i j, i < s.back.layout.width → j < s.back.layout.height → ¬ s.dirty.Covers i j →
    s.front.readPixelRaw i j = s.back.readPixelRaw i j

theorem Tracks.accounted (tracks : s.Tracks t) (accounted : s.Accounted) : t.Accounted := by
  intro i j column row clean
  rw [tracks.layout] at column row
  obtain ⟨before, same⟩ := tracks.kept i j column row clean
  rw [tracks.front, same]
  exact accounted i j column row before

theorem transfer_total (sound : s.Sound) {rect : Rect} (fits : s.dirty.Fits rect) :
    ∃ front, s.transfer (some rect) = some (.ok { s with front }) ∧
      ({ s with front } : Console).Sound ∧
      front.readPixelRaw = s.front.readPixelRaw.copy s.back.readPixelRaw rect.x rect.y rect.width
        rect.height := by
  have right := fits.right
  have bottom := fits.bottom
  rw [sound.dirtyWidth] at right
  rw [sound.dirtyHeight] at bottom
  obtain ⟨bytes, front, flushed, layout, soundFront, picture⟩ := Framebuffer.flushRect_total
    sound.back sound.front sound.shape fits.width_pos fits.height_pos right bottom
  refine ⟨front, ?_, ?_, picture⟩
  · unfold transfer
    dsimp only
    rw [flushed]
    rfl
  · refine { sound with front := soundFront, shape := ?_ }
    constructor
    all_goals dsimp only; rw [layout]
    exacts [sound.shape.width, sound.shape.height, sound.shape.stride, sound.shape.size]

structure Flushed (s t : Console) (d : Display) : Prop where
  sound : t.Sound
  display : t.display = d
  layout : t.back.layout = s.back.layout
  requested : t.repaintRequested = false
  same : s.Accounted → t.front.readPixelRaw = t.back.readPixelRaw

theorem Flushed.accounted {d : Display} (flushed : Flushed s t d) (before : s.Accounted) :
    t.Accounted := by
  intro i j _ _ _
  rw [flushed.same before]

theorem Sound.copy_eq (sound : s.Sound) (rect : Rect)
    (clean : ∀ i j, i < s.back.layout.width → j < s.back.layout.height →
      ¬ Raster.Within rect.x rect.y rect.width rect.height i j →
      s.front.readPixelRaw i j = s.back.readPixelRaw i j) :
    s.front.readPixelRaw.copy s.back.readPixelRaw rect.x rect.y rect.width rect.height =
      s.back.readPixelRaw := by
  have sized := sound.back.sized
  have sizedFront := sound.front.sized
  rw [sound.shape.width, sound.shape.height] at sizedFront
  funext i j
  unfold Raster.copy
  by_cases within : Raster.Within rect.x rect.y rect.width rect.height i j
  · rw [if_pos within]
  · rw [if_neg within]
    by_cases inside : i < s.back.layout.width ∧ j < s.back.layout.height
    · exact clean i j inside.1 inside.2 within
    · exact (sizedFront.eq_none inside).trans (sized.eq_none inside).symm

theorem take_transfer_total (sound : s.Sound) (requested : s.repaintRequested = false) :
    ∃ t, ({ s with dirty := s.dirty.take.2 } : Console).transfer s.dirty.take.1 = some (.ok t) ∧
      Flushed s t s.display := by
  have taken : ({ s with dirty := s.dirty.take.2 } : Console).Sound := by
    refine { sound with dirty := ⟨sound.dirty.width_lt, sound.dirty.height_lt, ?_⟩ }
    intro rect found
    cases found
  cases bounds : s.dirty.bounds with
  | none =>
    have first : s.dirty.take.1 = none := bounds
    rw [first]
    refine ⟨_, rfl, taken, rfl, rfl, requested, ?_⟩
    intro accounted
    have copied := sound.copy_eq ⟨0, 0, 0, 0⟩ (by
      intro i j column row _
      apply accounted i j column row
      intro covers
      obtain ⟨rect, found, -⟩ := covers
      rw [bounds] at found
      cases found)
    rw [Raster.copy_flat] at copied
    exact copied
  | some rect =>
    have first : s.dirty.take.1 = some rect := bounds
    have fits := sound.dirty.fits rect bounds
    obtain ⟨front, done, soundT, picture⟩ := transfer_total taken
      ⟨fits.width_pos, fits.height_pos, fits.right, fits.bottom⟩
    rw [first, done]
    refine ⟨_, rfl, soundT, rfl, rfl, requested, ?_⟩
    intro accounted
    dsimp only at picture ⊢
    rw [picture]
    apply sound.copy_eq
    intro i j column row outside
    apply accounted i j column row
    intro covers
    obtain ⟨rect', found, there⟩ := covers
    rw [bounds] at found
    cases found
    exact outside there

theorem refresh_transfer_total (sound : s.Sound) (requested : s.repaintRequested = false) :
    ∃ t, (do
        let s ← s.refreshCursor
        let (rect, dirty) := s.dirty.take
        ({ s with dirty } : Console).transfer rect) = some (.ok t) ∧
      Flushed s t (s.display.refresh s.ink) := by
  obtain ⟨u, refreshed, soundU, display, tracks⟩ := refreshCursor_gives sound
  obtain ⟨t, done, flushed⟩ := take_transfer_total soundU (tracks.requested.trans requested)
  rw [refreshed]
  exact ⟨t, done, { flushed with
    display := flushed.display.trans display
    layout := flushed.layout.trans tracks.layout
    same := fun accounted => flushed.same (tracks.accounted accounted) }⟩

theorem flush_total (sound : s.Sound) :
    ∃ t, s.flush = some (.ok t) ∧ Flushed s t
      ((if s.repaintRequested then s.display.repaint s.ink else s.display).refresh s.ink) := by
  unfold flush
  cases requested : s.repaintRequested with
  | false => exact refresh_transfer_total sound requested
  | true =>
    have start : ({ s with repaintRequested := false } : Console).Sound := { sound with }
    obtain ⟨u, repainted, soundU, display, tracks⟩ := repaintFromCells_gives start
    obtain ⟨t, done, flushed⟩ := refresh_transfer_total soundU tracks.requested
    refine ⟨t, ?_, { flushed with
      display := ?_
      layout := flushed.layout.trans tracks.layout
      same := fun accounted => flushed.same (tracks.accounted accounted) }⟩
    · dsimp only
      rw [if_pos rfl, repainted]
      exact done
    · rw [flushed.display, display, tracks.ink]
      rfl

section New

theorem fromScreen_side {grid : Screen}
    (made : Screen.fromScreen layout.width layout.height Font.cellWidth Font.glyphHeight cells
      layout.width_lt layout.height_lt = .ok grid) : Side layout grid := by
  unfold Screen.fromScreen at made
  rw [if_neg (by decide)] at made
  obtain ⟨sound, columns, rows⟩ := Screen.new_sound made
  exact ⟨sound, columns, rows⟩

theorem fromScreen_room {grid : Screen}
    (made : Screen.fromScreen layout.width layout.height Font.cellWidth Font.glyphHeight cells
      layout.width_lt layout.height_lt = .ok grid) : layout.width / 8 ≤ cells.length := by
  unfold Screen.fromScreen at made
  rw [if_neg (by decide)] at made
  exact Screen.new_room made

theorem Side.reset {grid : Screen} (side : Side layout grid) (bg : Rgb) :
    ∃ t, grid.reset bg = some t ∧ Side layout t ∧
      t.view = Grid.start (layout.width / 8) (layout.height / 16) bg := by
  obtain ⟨t, same, sound, view⟩ := Screen.reset_gives side.sound bg
  have columns : t.columns = grid.columns := congrArg Grid.columns view
  have rows : t.rows = grid.rows := congrArg Grid.rows view
  refine ⟨t, same, ⟨sound, columns.trans side.columns, rows.trans side.rows⟩, ?_⟩
  rw [view, side.sound.view.reset_eq, ← side.columns, ← side.rows]
  rfl

def fresh (front back : Framebuffer) (grid inactive : Screen) (foreground background : Rgb) :
    Console where
  front := front
  back := back
  grid := grid
  dirty := (DirtyRegion.new front.layout.width front.layout.height).markAll
  foreground := foreground
  background := background
  defaultForeground := foreground
  defaultBackground := background
  cursorVisible := true
  cursorDrawnAt := none
  inactive := inactive
  alternateActive := false
  repaintRequested := false

variable {front back : Framebuffer} {grid inactive : Screen} {foreground background : Rgb}
  {base : Kernel.Paging.Word}

theorem fresh_sound (sound : front.Sound) (soundBack : back.Sound)
    (layout : back.layout = { front.layout with base }) (side : Side front.layout grid)
    (otherSide : Side front.layout inactive) :
    (fresh front back grid inactive foreground background).Sound ∧
      (fresh front back grid inactive foreground background).Accounted := by
  obtain ⟨layoutBack, pixels⟩ := back
  dsimp only at layout
  subst layout
  have blank : (DirtyRegion.new front.layout.width front.layout.height).Sound :=
    DirtyRegion.new_sound front.layout.width_lt front.layout.height_lt
  obtain ⟨width, height⟩ := (DirtyRegion.new front.layout.width front.layout.height).mark_size 0 0
    front.layout.width front.layout.height
  constructor
  · exact
      { front := sound
        back := soundBack
        shape := ⟨rfl, rfl, rfl, rfl⟩
        grid := ⟨side.sound, side.columns, side.rows⟩
        inactive := ⟨otherSide.sound, otherSide.columns, otherSide.rows⟩
        dirty := DirtyRegion.mark_sound blank _ _ _ _
        dirtyWidth := width
        dirtyHeight := height }
  · intro i j column row clean
    exact absurd (DirtyRegion.markAll_covers blank column row) clean

theorem start_total (foreground : Rgb) (sound : front.Sound) (soundBack : back.Sound)
    (layout : back.layout = { front.layout with base }) (side : Side front.layout grid)
    (otherSide : Side front.layout inactive) :
    ∃ cleared shown hidden s, back.clearAll background = some cleared ∧
      grid.reset background = some shown ∧ inactive.reset background = some hidden ∧
      (fresh front cleared shown hidden foreground background).flush = some (.ok s) ∧
      s.Sound ∧ s.Accounted ∧ s.repaintRequested = false ∧
      s.back.layout = { front.layout with base } ∧
      s.display = (Display.start s.ink front.layout.width front.layout.height foreground
        background).refresh s.ink := by
  obtain ⟨cleared, clears, layoutCleared, soundCleared, picture⟩ :=
    Framebuffer.clearAll_shows soundBack background
  obtain ⟨shown, resets, sideShown, viewShown⟩ := side.reset background
  obtain ⟨hidden, resetsHidden, sideHidden, viewHidden⟩ := otherSide.reset background
  obtain ⟨start, accounted⟩ := fresh_sound
    sound soundCleared (layoutCleared.trans layout) sideShown sideHidden
  obtain ⟨s, flushed, done⟩ := flush_total start
  have ink : s.ink = (fresh front cleared shown hidden foreground background).ink := by
    unfold Console.ink
    rw [done.layout]
  have plain : cleared.readPixelRaw = Raster.plain front.layout.width front.layout.height
      (Framebuffer.pixelOf cleared.layout background) := by
    rw [picture, soundBack.sized.blank_eq, layoutCleared]
    rw [layout]
  have display : (fresh front cleared shown hidden foreground background).display =
      Display.start s.ink front.layout.width front.layout.height foreground background := by
    rw [ink]
    unfold Console.display Console.term fresh
    dsimp only
    rw [viewShown, viewHidden, plain]
    rfl
  refine ⟨cleared, shown, hidden, s, clears, resets, resetsHidden, flushed, done.sound,
    done.accounted accounted, done.requested, done.layout.trans (layoutCleared.trans layout), ?_⟩
  rw [done.display, ← ink, display]
  rfl

theorem new_total (sound : front.Sound) {pixels : List UInt32}
    (size : pixels.length = front.layout.sizeBytes / bytesPerPixel) {alternateCells : List Cell}
    {made : Except FlushRangeError Console}
    (new : Console.new front base pixels foreground background cells alternateCells =
      some (.ok made)) : ∃ s, made = .ok s ∧ s.Sound ∧ s.Accounted ∧ s.repaintRequested = false ∧
      s.back.layout = { front.layout with base } ∧
      s.display = (Display.start s.ink front.layout.width front.layout.height foreground
        background).refresh s.ink ∧ front.layout.width / 8 ≤ cells.length := by
  unfold Console.new at new
  cases placed : Framebuffer.newBackBuffer base front.layout pixels with
  | error error =>
    rw [placed] at new
    cases new
  | ok back =>
    obtain ⟨rfl, layout⟩ := Framebuffer.newBackBuffer_ok placed
    have soundBack : back.Sound := by
      unfold Framebuffer.Sound
      rw [size, layout]
    rw [placed] at new
    dsimp only at new
    split at new
    · cases new
    case h_2 grid madeGrid =>
      split at new
      · cases new
      case h_2 inactive madeInactive =>
        obtain ⟨cleared, shown, hidden, s, clears, resets, resetsHidden, flushed, rest⟩ :=
          start_total foreground sound soundBack layout
            (fromScreen_side madeGrid) (fromScreen_side madeInactive)
        unfold fresh at flushed
        rw [clears, resets, resetsHidden] at new
        simp only [Option.bind_eq_bind, Option.bind_some, flushed, Option.some.injEq,
          Except.ok.injEq] at new
        obtain ⟨soundS, accounted, requested, layoutS, display⟩ := rest
        exact ⟨s, new.symm, soundS, accounted, requested, layoutS, display,
          fromScreen_room madeGrid⟩

end New

end Console

end Zaytos.Terminal
