import Zaytos.Terminal.EditRuns
import Zaytos.Terminal.Foreground

set_option autoImplicit false

/-! When a repaint from the cells shows what was there before: on its own, after the alternate
screen and after the graphics mode (`repaint_from_cells`, `set_alternate_screen`). -/
namespace Zaytos.Terminal

namespace Display

variable {ink : Rgb → UInt32} {d : Display} {w h : Nat}

theorem Shown.repaint_iff (framed : d.Framed w h) (shown : d.Shown ink everywhere) {t : Term}
    (cells : t.grid.cell = d.term.grid.cell) :
    (∀ x y, x < 8 * d.term.grid.columns → y < 16 * d.term.grid.rows →
      d.picture x y = some (Display.shown ink t x y)) ↔
    ∀ x y cell, d.term.grid.cell (x / 8) (y / 16) = some cell → cell.isContinuation = true →
      d.picture x y = some (ink t.background) := by
  constructor
  · intro same x y cell there half
    obtain ⟨column, row⟩ := framed.grid.sized.of_some there
    rw [same x y (by omega) (by omega)]
    unfold Display.shown
    rw [cells, there]
    simp [half]
  · intro plain x y column row
    obtain ⟨cell, there⟩ := framed.grid.sized.exists_eq (i := x / 8) (j := y / 16)
      (by omega) (by omega)
    have drawn : Display.shown ink t x y =
        if cell.isContinuation || !cell.needsRepaintAfterClear t.background then ink t.background
        else cellImage ink cell (x % 8) (y % 16) := by
      unfold Display.shown
      rw [cells, there]
    rw [drawn]
    cases half : cell.isContinuation with
    | true =>
      rw [plain x y cell there half]
      rfl
    | false =>
      rw [shown x y cell trivial there half, Bool.false_or]
      cases needs : cell.needsRepaintAfterClear t.background with
      | true => rfl
      | false =>
        have blank : cell.ch = ' ' ∧ cell.bg = t.background := by
          simpa [Cell.needsRepaintAfterClear] using needs
        rw [cellImage_blank ink blank.1, blank.2]
        rfl

theorem refresh_hidden (visible : d.term.cursorVisible = false) (drawnAt : d.term.drawnAt = none) :
    d.refresh ink = d := by
  unfold refresh
  rw [visible, if_neg (by simp), if_neg (by simp), eraseDrawn_none drawnAt]

theorem shiftFits_full (full : h = 16 * d.term.grid.rows) (e : Edit) : d.ShiftFits ink h e := by
  have strip : ∀ left, d.StripPlain ink left h := by
    intro left x y _ _ below bottom
    omega
  cases e with
  | putChar c => exact fun _ => strip _
  | deleteLines count => exact fun _ _ => strip 0
  | _ => trivial

end Display

namespace Console

variable {s t : Console}

def RightHalvesPlain (s : Console) (background : Rgb) : Prop :=
  ∀ column row cell, s.grid.cell column row = some cell → cell.isContinuation = true →
    ∀ i j, i < 8 → j < 16 →
      s.back.readPixelRaw (8 * column + i) (16 * row + j) = some (s.ink background)

def SameScreen (s t : Console) : Prop :=
  ∀ x y, x < 8 * s.grid.columns → y < 16 * s.grid.rows →
    t.back.readPixelRaw x y = s.back.readPixelRaw x y

theorem rightHalvesPlain_iff (s : Console) (background : Rgb) :
    s.RightHalvesPlain background ↔
      ∀ x y cell, s.display.term.grid.cell (x / 8) (y / 16) = some cell →
        cell.isContinuation = true → s.display.picture x y = some (s.ink background) := by
  constructor
  · intro plain x y cell there half
    have point := plain (x / 8) (y / 16) cell there half (x % 8) (y % 16)
      (Nat.mod_lt _ (by decide)) (Nat.mod_lt _ (by decide))
    rw [Nat.div_add_mod, Nat.div_add_mod] at point
    exact point
  · intro plain column row cell there half i j narrow low
    apply plain (8 * column + i) (16 * row + j) cell _ half
    rw [show (8 * column + i) / 8 = column by omega, show (16 * row + j) / 16 = row by omega]
    exact there

theorem sameScreen_iff (sound : s.Sound) (shown : s.display.Shown s.ink Display.everywhere)
    (cells : t.term.grid.cell = s.term.grid.cell)
    {drawn : Raster UInt32} (sized : drawn.Sized s.back.layout.width s.back.layout.height)
    (repainted : ∀ x y, t.back.readPixelRaw x y =
      (drawn x y).map fun _ => Display.shown s.ink t.term x y) :
    s.SameScreen t ↔ s.RightHalvesPlain t.background := by
  have framed := sound.framed
  apply Iff.trans _ (rightHalvesPlain_iff s t.background).symm
  apply Iff.trans _ (shown.repaint_iff framed cells)
  have wide := framed.wide
  have tall := framed.tall
  have point : ∀ x y, x < 8 * s.display.term.grid.columns → y < 16 * s.display.term.grid.rows →
      t.back.readPixelRaw x y = some (Display.shown s.ink t.term x y) := by
    intro x y column row
    obtain ⟨pixel, there⟩ := sized.exists_eq (i := x) (j := y) (by omega) (by omega)
    rw [repainted, there]
    rfl
  constructor
  · intro same x y column row
    exact (same x y column row).symm.trans (point x y column row)
  · intro same x y column row
    exact (point x y column row).trans (same x y column row).symm

theorem run_cons (s : Console) (op : TextOp) (ops : List TextOp) :
    s.run (op :: ops) = (s.perform op).bind fun done =>
      match done with
      | .error error => some (.error error)
      | .ok s => s.run ops := rfl

theorem Hidden.run (hidden : s.Hidden) {edits : List Edit}
    (ran : s.run (edits.map Edit.op) = some (.ok t)) :
    t.Hidden ∧ Term.Kept s.term t.term ∧ t.back.layout = s.back.layout := by
  induction edits generalizing s with
  | nil =>
    cases ran
    exact ⟨hidden, .refl hidden.drawnAt, rfl⟩
  | cons e edits ih =>
    rw [List.map_cons, run_cons] at ran
    cases performed : s.perform e.op with
    | none =>
      rw [performed] at ran
      cases ran
    | some result =>
      rw [performed, Option.bind_some] at ran
      cases result with
      | error error => cases ran
      | ok next =>
        obtain ⟨hiddenN, -, kept⟩ := hidden.edit performed
        obtain ⟨-, -, tracks⟩ := perform_edit hidden.sound performed
        obtain ⟨hiddenT, rest, layout⟩ := ih hiddenN ran
        exact ⟨hiddenT, kept.trans rest, layout.trans tracks.layout⟩

theorem Hidden.run_shown (hidden : s.Hidden) (full : s.back.layout.height % 16 = 0)
    (shown : s.display.Shown s.ink Display.everywhere) {edits : List Edit}
    (ran : s.run (edits.map Edit.op) = some (.ok t)) :
    t.display.Shown t.ink Display.everywhere := by
  induction edits generalizing s with
  | nil =>
    cases ran
    exact shown
  | cons e edits ih =>
    rw [List.map_cons, run_cons] at ran
    cases performed : s.perform e.op with
    | none =>
      rw [performed] at ran
      cases ran
    | some result =>
      rw [performed, Option.bind_some] at ran
      cases result with
      | error error => cases ran
      | ok next =>
        obtain ⟨hiddenN, -, -⟩ := hidden.edit performed
        obtain ⟨-, edited, tracks⟩ := perform_edit hidden.sound performed
        have rows : s.back.layout.height = 16 * s.display.term.grid.rows := by
          have rows : s.display.term.grid.rows = s.back.layout.height / 16 := hidden.sound.grid.rows
          omega
        have after := (shown.edit_iff hidden.sound.framed hidden.drawnAt edited).mpr
          (Display.shiftFits_full rows e)
        rw [← tracks.ink] at after
        exact ih hiddenN (tracks.layout ▸ full) after ran

theorem Hidden.repaint (hidden : s.Hidden) (shown : s.display.Shown s.ink Display.everywhere) :
    ∃ t, s.repaintFromCells = some t ∧ (s.SameScreen t ↔ s.RightHalvesPlain s.background) := by
  obtain ⟨t, done, -, display, -⟩ := repaintFromCells_gives hidden.sound
  have term : t.term = s.term := congrArg Display.term display
  have background : t.background = s.background := congrArg Term.background term
  refine ⟨t, done, ?_⟩
  rw [← background]
  apply sameScreen_iff hidden.sound shown (congrArg (fun t => t.grid.cell) term)
    hidden.sound.back.sized
  intro x y
  have picture := congrArg (fun d => d.picture x y) display
  rw [term]
  exact picture

theorem Hidden.alternate (hidden : s.Hidden) (first : s.alternateActive = false)
    (shown : s.display.Shown s.ink Display.everywhere) :
    ∃ a, s.setAlternateScreen true = some a ∧ ∀ edits b,
      a.run (List.map Edit.op edits) = some (.ok b) → ∃ t, b.setAlternateScreen false = some t ∧
        (s.SameScreen t ↔ s.RightHalvesPlain t.background) := by
  have other : ¬ true = s.term.alternate := by
    have off : s.term.alternate = false := first
    rw [off]
    simp
  obtain ⟨a, entered, soundA, displayA, tracksA⟩ := setAlternateScreen_gives hidden.sound true
  have termA : a.term = s.term.setAlternateScreen true := by
    have term := congrArg Display.term displayA
    rw [Display.setAlternateScreen_term] at term
    exact term
  unfold Term.setAlternateScreen at termA
  rw [if_neg other] at termA
  have hiddenA : a.Hidden := ⟨soundA, tracksA.requested.trans hidden.requested,
    (congrArg Term.cursorVisible termA).trans hidden.cursorVisible, congrArg Term.drawnAt termA⟩
  refine ⟨a, entered, ?_⟩
  intro edits b ran
  obtain ⟨hiddenB, kept, layoutB⟩ := hiddenA.run ran
  obtain ⟨t, left, soundT, displayT, tracksT⟩ := setAlternateScreen_gives hiddenB.sound false
  have alternateB : b.term.alternate = true :=
    kept.alternate.trans (congrArg Term.alternate termA)
  have otherB : b.term.other = s.term.grid := kept.other.trans (congrArg Term.other termA)
  have back : ¬ false = b.term.alternate := by
    rw [alternateB]
    simp
  have layout : b.back.layout = s.back.layout := layoutB.trans tracksA.layout
  have ink : b.ink = s.ink := by
    unfold Console.ink
    rw [layout]
  have termT : t.term = b.term.setAlternateScreen false := by
    have term := congrArg Display.term displayT
    rw [Display.setAlternateScreen_term] at term
    exact term
  have grid : t.term.grid = s.term.grid := by
    rw [termT]
    unfold Term.setAlternateScreen
    rw [if_neg back]
    exact otherB
  refine ⟨t, left, ?_⟩
  apply sameScreen_iff hidden.sound shown (congrArg Grid.cell grid) (layout ▸ hiddenB.sound.back.sized)
  intro x y
  have picture := congrArg (fun d => d.picture x y) displayT
  unfold Display.setAlternateScreen at picture
  rw [if_neg (show ¬ false = b.display.term.alternate from back), ink] at picture
  rw [termT]
  exact picture

end Console

namespace Foreground

variable {f : Foreground}

theorem graphics_repaints (hidden : f.console.Hidden) (text : f.graphicsActive = false)
    (shown : f.console.display.Shown f.console.ink Display.everywhere) :
    ∃ g, f.enterGraphics = some g ∧ ∀ pixels h, g.drawPixels pixels = some h →
      ∃ k, h.leaveGraphics.flushForeground = some (.ok k) ∧
        (f.console.SameScreen k.console ↔ f.console.RightHalvesPlain f.console.background) := by
  have sound := hidden.sound
  refine ⟨{ f with graphicsActive := true }, by rw [enterGraphics, text]; rfl, ?_⟩
  intro pixels h drawn
  unfold drawPixels at drawn
  split at drawn
  case isFalse => cases drawn
  case isTrue fits =>
    cases drawn
    have back : Framebuffer.Sound { f.console.back with pixels } := fits.2.trans sound.back
    have shape := sound.shape
    have soundH : Console.Sound { f.console with
        back := { f.console.back with pixels }, cursorDrawnAt := none, repaintRequested := true } :=
      { sound with back, shape := ⟨shape.width, shape.height, shape.stride, shape.size⟩ }
    obtain ⟨t, flushed, done⟩ := Console.flush_total soundH
    have display := done.display
    rw [if_pos rfl, Display.refresh_hidden hidden.cursorVisible rfl] at display
    have term : t.term = f.console.term := by
      have drawnAt : f.console.term.drawnAt = none := hidden.drawnAt
      have same : { f.console.term with drawnAt := none } = f.console.term := by
        rw [← drawnAt]
      exact (congrArg Display.term display).trans same
    refine ⟨{ f with console := t, graphicsActive := false }, ?_, ?_⟩
    · unfold leaveGraphics flushForeground Console.requestRepaint
      simp only [if_true, Bool.false_eq_true, if_false, flushed]
      rfl
    · have background : t.background = f.console.background := congrArg Term.background term
      rw [← background]
      apply Console.sameScreen_iff sound shown (congrArg (fun t => t.grid.cell) term) back.sized
      intro x y
      have picture := congrArg (fun d => d.picture x y) display
      rw [term]
      exact picture

end Foreground

namespace Console

/-- A repaint of the cells, with the alternate screen or the graphics mode before it or with
neither, shows what was there before exactly if every right half was plain. -/
theorem repaint_same_iff {front : Framebuffer} (memory : front.Sound) {base : Kernel.Paging.Word}
    {pixels : List UInt32} (size : pixels.length = front.layout.sizeBytes / bytesPerPixel)
    {foreground background : Rgb} {cells alternateCells : List Cell} {made : Console}
    (new : Console.new front base pixels foreground background cells alternateCells =
      some (.ok (.ok made))) (full : front.layout.height % 16 = 0) :
    ∃ start, made.run [.showCursor false, .flush] = some (.ok start) ∧ ∀ edits s,
      start.run (List.map Edit.op edits) = some (.ok s) →
      (∃ t, s.repaintFromCells = some t ∧ (s.SameScreen t ↔ s.RightHalvesPlain s.background)) ∧
      (∃ a, s.setAlternateScreen true = some a ∧ ∀ others b,
        a.run (List.map Edit.op others) = some (.ok b) → ∃ t, b.setAlternateScreen false = some t ∧
          (s.SameScreen t ↔ s.RightHalvesPlain t.background)) ∧
      ∀ f : Foreground, f.console = s → f.graphicsActive = false →
        ∃ g, f.enterGraphics = some g ∧ ∀ pixels h, g.drawPixels pixels = some h →
          ∃ k, h.leaveGraphics.flushForeground = some (.ok k) ∧
            (s.SameScreen k.console ↔ s.RightHalvesPlain s.background) := by
  obtain ⟨start, hid, hidden, first, layout, -, shown⟩ := hide_total memory size new
  refine ⟨start, hid, ?_⟩
  intro edits s ran
  obtain ⟨hiddenS, kept, -⟩ := hidden.run ran
  have shownS := hidden.run_shown (by rw [layout]; exact full) shown ran
  refine ⟨hiddenS.repaint shownS, ?_, ?_⟩
  · exact hiddenS.alternate (kept.alternate.trans first) shownS
  · intro f same text
    subst same
    exact Foreground.graphics_repaints hiddenS text shownS

/-- A wide character that is put over one half of nothing. -/
theorem repaint_same_iff_wide : ∃ made start s,
    Small.new 16 (by decide) (by decide) = some (.ok (.ok made)) ∧
    made.run [.showCursor false, .flush] = some (.ok start) ∧
    start.run (List.map Edit.op [.putChar (Char.ofNat 0x3042)]) = some (.ok s) ∧
    ∃ t, s.repaintFromCells = some t ∧ (s.SameScreen t ↔ s.RightHalvesPlain s.background) := by
  have goes : (Small.given (Small.given (Small.new 16 (by decide) (by decide)))).any (fun made =>
      (Small.given (made.run [.showCursor false, .flush])).any fun start =>
      (Small.given (start.run (List.map Edit.op [.putChar (Char.ofNat 0x3042)]))).any fun _ =>
        true) = true := by
    decide +kernel
  obtain ⟨made, new, goes⟩ := Small.made_any goes
  obtain ⟨start, run, goes⟩ := Small.given_any goes
  obtain ⟨s, ran, -⟩ := Small.given_any goes
  obtain ⟨start', run', same⟩ := repaint_same_iff (Small.memory 16 (by decide) (by decide))
    (Small.pixels_length 16 (by decide) (by decide)) new (by decide)
  cases run.symm.trans run'
  exact ⟨made, start, s, new, run, ran, (same _ s ran).1⟩

/-- A wide character over two narrow ones: the right one stays on the screen, and the repaint
leaves it out. -/
theorem repaint_differs : ¬ ∀ (front : Framebuffer), front.Sound →
    ∀ (base : Kernel.Paging.Word) (pixels : List UInt32),
    pixels.length = front.layout.sizeBytes / bytesPerPixel →
    ∀ foreground background cells alternateCells made,
    Console.new front base pixels foreground background cells alternateCells =
      some (.ok (.ok made)) → front.layout.width % 8 = 0 → front.layout.height % 16 = 0 →
    ∀ start, made.run [.showCursor false, .flush] = some (.ok start) →
    ∀ edits s, start.run (List.map Edit.op edits) = some (.ok s) →
    ∀ t, s.repaintFromCells = some t → s.SameScreen t := by
  intro claim
  have differs : (Small.given (Small.given (Small.new 16 (by decide) (by decide)))).any (fun made =>
      (Small.given (made.run [.showCursor false, .flush])).any fun start =>
      (Small.given (start.run (List.map Edit.op [.putChar 'A', .putChar 'B', .cursorToCell 0 0,
        .putChar (Char.ofNat 0x3042)]))).any fun s =>
      s.repaintFromCells.any fun t =>
        decide (9 < 8 * s.grid.columns ∧ 4 < 16 * s.grid.rows) &&
          t.back.readPixelRaw 9 4 != s.back.readPixelRaw 9 4) = true := by
    decide +kernel
  obtain ⟨made, new, differs⟩ := Small.made_any differs
  obtain ⟨start, run, differs⟩ := Small.given_any differs
  obtain ⟨s, ran, differs⟩ := Small.given_any differs
  obtain ⟨t, repainted, differs⟩ := (Option.any_eq_true _ _).mp differs
  rw [Bool.and_eq_true, decide_eq_true_eq, bne_iff_ne] at differs
  have same := claim _ (Small.memory 16 _ _) _ _ (Small.pixels_length 16 _ _) _ _ _ _ made
    new (by decide) (by decide) start run _ s ran t repainted
  exact differs.2 (same 9 4 differs.1.1 differs.1.2)

end Console

end Zaytos.Terminal
