import Zaytos.Terminal.Edits

set_option autoImplicit false

/-! The console while programs edit its text with the cursor hidden: after which of the edits every
cell is in the pixels of its place (`delete_lines`, `insert_lines`, `put_char`). -/
namespace Zaytos.Terminal

namespace Term

def Whole (t : Term) : Prop := t.grid.cell.All fun cell => cell.isContinuation = false

variable {t u : Term}

theorem settle_whole (whole : t.Whole) (c : Char) {step : Step}
    (narrow : ∀ place, step.drawAt = some place → place.widthCells = 1) :
    (t.settle c step).Whole := by
  have blank : ∀ bg, (Cell.cleared bg).isContinuation = false := Display.cleared_whole
  unfold settle
  extract_lets scrolled cleared
  have first : scrolled.Whole := by
    dsimp only [scrolled]
    split
    · exact Raster.All.deleteRows whole (blank _) 0 1
    · exact whole
  have second : cleared.Whole := by
    dsimp only [cleared]
    split
    · exact Raster.All.fill first (blank _)
    · exact first
  split
  next place drawn =>
    unfold Whole Grid.put Grid.paint
    dsimp only
    rw [narrow place drawn]
    apply Raster.All.fill_none
    apply Raster.All.fill second
    have zero : ((0 : UInt8) &&& Cell.continuation != 0) = false := by decide
    exact zero
  · exact second

theorem eraseBefore_whole (whole : t.Whole) (erased : t.eraseBefore = some u) : u.Whole := by
  unfold eraseBefore at erased
  split at erased <;> cases erased
  exact Raster.All.fill whole (Display.cleared_whole _)

theorem edit_whole (sound : t.grid.Sound) (hidden : t.drawnAt = none) (whole : t.Whole) {e : Edit}
    (narrow : e.narrow = true) (edited : t.edit e = some u) : u.Whole := by
  have blank : ∀ bg, (Cell.cleared bg).isContinuation = false := Display.cleared_whole
  cases e with
  | putChar c =>
    cases edited
    unfold putChar
    rw [eraseDrawn_none hidden]
    have moved : Whole { t with grid := (t.grid.advance c (widthCells c)).2 } := by
      unfold Whole
      rw [t.grid.advance_cell]
      exact whole
    apply settle_whole moved
    intro place drawn
    rw [(sound.advance_drawAt (widthCells_le c) drawn).2.2]
    unfold Edit.narrow at narrow
    simp only [Bool.or_eq_true, beq_iff_eq] at narrow
    rcases narrow with (((rfl | rfl) | rfl) | rfl) | present
    · cases drawn
    · cases drawn
    · have none' := t.grid.tab_step.1
      have drawn' : t.grid.tab.1.drawAt = some place := drawn
      rw [none'] at drawn'
      cases drawn'
    · cases drawn
    · exact Font.widthCells_of_lookup present
  | cursorToCell column row =>
    cases edited
    exact whole
  | setGraphics graphics =>
    cases edited
    rcases graphics with ⟨reset, foreground, background⟩
    cases reset <;> exact whole
  | eraseInLine scope =>
    cases scope with
    | before => exact eraseBefore_whole whole edited
    | _ =>
      cases edited
      exact Raster.All.fill whole (blank _)
  | eraseInDisplay scope =>
    cases scope with
    | before =>
      have rows : (t.eraseRows 0 t.grid.row).Whole := Raster.All.fill whole (blank _)
      exact eraseBefore_whole rows edited
    | after =>
      cases edited
      exact Raster.All.fill (Raster.All.fill whole (blank _)) (blank _)
    | all =>
      cases edited
      exact Raster.All.blank (blank _)
  | deleteLines count =>
    change t.deleteLines count = some u at edited
    unfold deleteLines at edited
    rw [eraseDrawn_none hidden] at edited
    split at edited <;> cases edited
    exact Raster.All.deleteRows whole (blank _) _ _
  | insertLines count =>
    change t.insertLines count = some u at edited
    unfold insertLines at edited
    rw [eraseDrawn_none hidden] at edited
    split at edited <;> cases edited
    exact Raster.All.insertRows whole (blank _) _ _

end Term

namespace Console

structure Hidden (s : Console) : Prop where
  sound : s.Sound
  requested : s.repaintRequested = false
  cursorVisible : s.cursorVisible = false
  drawnAt : s.cursorDrawnAt = none

variable {s t : Console}

theorem Sound.framed (sound : s.Sound) :
    s.display.Framed s.back.layout.width s.back.layout.height where
  grid := sound.grid.sound.view
  picture := sound.back.sized
  wide := sound.columns_le
  tall := sound.rows_le
  strip := by
    have rows : s.display.term.grid.rows = s.back.layout.height / 16 := sound.grid.rows
    rw [rows]
    omega

theorem Follows.reaches {r : Option Console} {o : Option Display} (follows : s.Follows r o)
    (done : r.map (Except.ok (ε := FlushRangeError)) = some (.ok t)) :
    t.Sound ∧ o = some t.display ∧ s.Tracks t := by
  cases o with
  | none =>
    have stops : r = none := follows
    rw [stops] at done
    cases done
  | some d =>
    obtain ⟨u, rfl, sound, rfl, tracks⟩ := follows
    cases done
    exact ⟨sound, rfl, tracks⟩

theorem perform_edit (sound : s.Sound) {e : Edit} (done : s.perform e.op = some (.ok t)) :
    t.Sound ∧ s.display.edit s.ink e = some t.display ∧ s.Tracks t := by
  cases e with
  | putChar c =>
    have gives := putChar_gives sound c
    exact Follows.reaches (o := some _) gives done
  | cursorToCell column row =>
    have gives := cursorToCell_gives sound column row
    exact Follows.reaches (o := some _) gives done
  | setGraphics graphics =>
    have gives := setGraphics_gives sound graphics
    exact Follows.reaches (o := some _) gives done
  | eraseInLine scope => exact (eraseInLine_follows sound scope).reaches done
  | eraseInDisplay scope => exact (eraseInDisplay_follows sound scope).reaches done
  | deleteLines count => exact (deleteLines_follows sound count).reaches done
  | insertLines count => exact (insertLines_follows sound count).reaches done

theorem Hidden.edit (hidden : s.Hidden) {e : Edit} (done : s.perform e.op = some (.ok t)) :
    t.Hidden ∧ s.term.edit e = some t.term ∧ Term.Kept s.term t.term := by
  obtain ⟨sound, edited, tracks⟩ := perform_edit hidden.sound done
  have term := Display.edit_term s.ink s.display e
  rw [edited] at term
  have kept := Term.edit_kept hidden.drawnAt (e := e) term.symm
  exact ⟨⟨sound, tracks.requested.trans hidden.requested,
    kept.cursorVisible.trans hidden.cursorVisible, kept.drawnAt⟩, term.symm, kept⟩

theorem start_hidden (ink : Rgb → UInt32) (width height : Nat) (foreground background : Rgb)
    (wide : 8 ≤ width) (tall : 16 ≤ height) {d : Display}
    (started : d = (Display.start ink width height foreground background).refresh ink) :
    ({ d with term := { d.term with cursorVisible := false } } : Display).refresh ink =
      ⟨{ Term.start (width / 8) (height / 16) foreground background with cursorVisible := false },
        Raster.plain width height (ink background)⟩ := by
  have drawn : d = (Display.start ink width height foreground background).drawCursor ink := started
  have erased : ({ d with term := { d.term with cursorVisible := false } } : Display).refresh ink =
      ({ d with term := { d.term with cursorVisible := false } } : Display).eraseDrawn ink := by
    unfold Display.refresh
    rw [if_neg (by simp), if_neg (by simp)]
  have home : (Grid.start (width / 8) (height / 16) background).setCursor 0 0 =
      Grid.start (width / 8) (height / 16) background := by
    unfold Grid.setCursor Grid.start
    simp only [Nat.zero_min]
  have cell : (Grid.start (width / 8) (height / 16) background).cell 0 0 =
      some (Cell.cleared background) := by
    apply if_pos
    constructor <;> omega
  rw [erased, drawn]
  unfold Display.eraseDrawn Display.drawCursor Display.line Display.start Display.under
    Term.eraseDrawn Term.start
  dsimp only [Grid.start] at home cell ⊢
  rw [home]
  dsimp only
  rw [cell]
  dsimp only [Cell.cleared]
  rw [Raster.fill_fill, Raster.plain_fill]

theorem hide_total {front : Framebuffer} (memory : front.Sound) {base : Kernel.Paging.Word}
    {pixels : List UInt32} (size : pixels.length = front.layout.sizeBytes / bytesPerPixel)
    {foreground background : Rgb} {cells alternateCells : List Cell} {made : Console}
    (new : Console.new front base pixels foreground background cells alternateCells =
      some (.ok (.ok made))) :
    ∃ s, made.run [.showCursor false, .flush] = some (.ok s) ∧ s.Hidden ∧
      s.alternateActive = false ∧ s.back.layout = { front.layout with base } ∧ s.term.Whole ∧
      s.display.Shown s.ink Display.everywhere := by
  obtain ⟨s, same, sound, -, requested, layout, display, -⟩ := new_total memory size new
  cases same
  obtain ⟨t, flushed, done⟩ := flush_total (showCursor_gives sound false).sound
  have framed := sound.framed
  have wide : 8 ≤ front.layout.width := by
    have inside := framed.wide
    have columns := framed.grid.wide
    rw [layout] at inside
    dsimp only at inside
    omega
  have tall : 16 ≤ front.layout.height := by
    have inside := framed.tall
    have rows := framed.grid.tall
    rw [layout] at inside
    dsimp only at inside
    omega
  have ink : (made.showCursor false).ink = made.ink := rfl
  have after := done.display
  have still : (made.showCursor false).repaintRequested = false := requested
  rw [still, if_neg Bool.false_ne_true, ink] at after
  have hidden := after.trans (start_hidden made.ink _ _ foreground background wide tall display)
  have run : made.run [.showCursor false, .flush] = some (.ok t) := by
    unfold run perform
    rw [Option.bind_eq_bind, Option.bind_some]
    dsimp only
    unfold Console.run perform
    rw [flushed]
    rfl
  have sameInk : t.ink = made.ink := by
    unfold Console.ink
    rw [done.layout]
    rfl
  refine ⟨t, run, ?_, ?_, ?_, ?_, ?_⟩
  · exact ⟨done.sound, done.requested, congrArg (fun d => d.term.cursorVisible) hidden,
      congrArg (fun d => d.term.drawnAt) hidden⟩
  · exact congrArg (fun d => d.term.alternate) hidden
  · exact done.layout.trans layout
  · have whole : t.display.term.Whole := by
      rw [hidden]
      exact Raster.plain_all (Display.cleared_whole background)
    exact whole
  · rw [hidden, sameInk]
    intro x y cell _ there _
    have plain : Raster.plain (front.layout.width / 8) (front.layout.height / 16)
        (Cell.cleared background) (x / 8) (y / 16) = some cell := there
    unfold Raster.plain at plain
    split at plain
    case isTrue inside =>
      cases plain
      rw [Display.cellImage_cleared]
      apply if_pos
      omega
    case isFalse => cases plain

def Matches (s : Console) : Prop :=
  ∀ column row cell, s.grid.cell column row = some cell → ∀ i j, i < 8 → j < 16 →
    s.back.readPixelRaw (8 * column + i) (16 * row + j) = some (Display.cellImage s.ink cell i j)

def Keeps (s : Console) : List Edit → Prop
  | [] => s.Matches
  | e :: edits => s.Matches ∧ ∀ t, s.perform e.op = some (.ok t) → t.Keeps edits

/-- What an edit brings up from below the cells is the background, through all the edits. -/
def ShiftsFit (s : Console) : List Edit → Prop
  | [] => True
  | e :: edits => ∀ t, s.perform e.op = some (.ok t) →
    s.display.ShiftFits s.ink s.back.layout.height e ∧ t.ShiftsFit edits

theorem matches_iff (whole : s.term.Whole) :
    s.Matches ↔ s.display.Shown s.ink Display.everywhere := by
  constructor
  · intro same x y cell _ there _
    have point := same (x / 8) (y / 16) cell there (x % 8) (y % 16) (Nat.mod_lt _ (by decide))
      (Nat.mod_lt _ (by decide))
    rw [Nat.div_add_mod, Nat.div_add_mod] at point
    exact point
  · intro shown column row cell there i j narrow low
    have x : (8 * column + i) / 8 = column := by omega
    have y : (16 * row + j) / 16 = row := by omega
    have left : (8 * column + i) % 8 = i := by omega
    have top : (16 * row + j) % 16 = j := by omega
    have point := shown (8 * column + i) (16 * row + j) cell trivial (by rw [x, y]; exact there)
      (whole column row cell there)
    rw [left, top] at point
    exact point

theorem keeps_iff (hidden : s.Hidden) (whole : s.term.Whole)
    (shown : s.display.Shown s.ink Display.everywhere) {edits : List Edit}
    (narrow : ∀ e ∈ edits, e.narrow = true) : s.Keeps edits ↔ s.ShiftsFit edits := by
  have now : s.Matches := (matches_iff whole).mpr shown
  induction edits generalizing s with
  | nil => exact iff_of_true now trivial
  | cons e edits ih =>
    have step : ∀ t, s.perform e.op = some (.ok t) → (t.Keeps edits ↔
        s.display.ShiftFits s.ink s.back.layout.height e ∧ t.ShiftsFit edits) := by
      intro t done
      obtain ⟨hiddenT, term, -⟩ := hidden.edit done
      obtain ⟨-, edited, tracks⟩ := perform_edit hidden.sound done
      have wholeT : t.term.Whole := Term.edit_whole hidden.sound.framed.grid hidden.drawnAt whole
        (narrow e (List.mem_cons_self ..)) term
      have fits := shown.edit_iff hidden.sound.framed hidden.drawnAt edited
      rw [← tracks.ink, ← matches_iff wholeT] at fits
      rw [tracks.ink] at fits
      have rest := fun shown => ih hiddenT wholeT shown
        (fun e mem => narrow e (List.mem_cons_of_mem _ mem))
      constructor
      · intro keeps
        have matched : t.Matches := by
          cases edits with
          | nil => exact keeps
          | cons e edits => exact keeps.1
        exact ⟨fits.mp matched, (rest ((matches_iff wholeT).mp matched) matched).mp keeps⟩
      · intro both
        have matched := fits.mpr both.1
        exact (rest ((matches_iff wholeT).mp matched) matched).mpr both.2
    unfold Keeps ShiftsFit
    constructor
    · intro keeps t done
      exact (step t done).mp (keeps.2 t done)
    · intro fits
      refine ⟨now, ?_⟩
      intro t done
      exact (step t done).mpr (fits t done)

/-- With the cursor hidden, every cell is in its pixels after each of the edits exactly if no row of
points that comes up from below the cells is of another colour than the background. -/
theorem lines_match_iff {front : Framebuffer} (memory : front.Sound) {base : Kernel.Paging.Word}
    {pixels : List UInt32} (size : pixels.length = front.layout.sizeBytes / bytesPerPixel)
    {foreground background : Rgb} {cells alternateCells : List Cell} {made : Console}
    (new : Console.new front base pixels foreground background cells alternateCells =
      some (.ok (.ok made))) (edits : List Edit) (narrow : ∀ e ∈ edits, e.narrow = true) :
    ∃ s, made.run [.showCursor false, .flush] = some (.ok s) ∧
      (s.Keeps edits ↔ s.ShiftsFit edits) := by
  obtain ⟨s, run, hidden, -, -, whole, shown⟩ := hide_total memory size new
  exact ⟨s, run, keeps_iff hidden whole shown narrow⟩

end Console

namespace Small

theorem new_forty : ∃ made, new 40 (by decide) (by decide) = some (.ok (.ok made)) := by
  have ok : (given (given (new 40 (by decide) (by decide)))).any (fun _ => true) = true := by
    decide +kernel
  obtain ⟨made, found, -⟩ := made_any ok
  exact ⟨made, found⟩

end Small

/-- Two rows of cells with half a row of points below them. -/
theorem Console.lines_match_iff_forty : ∃ made s,
    Small.new 40 (by decide) (by decide) = some (.ok (.ok made)) ∧
    made.run [.showCursor false, .flush] = some (.ok s) ∧
    (s.Keeps [.putChar 'A', .insertLines 1, .deleteLines 1] ↔
      s.ShiftsFit [.putChar 'A', .insertLines 1, .deleteLines 1]) := by
  obtain ⟨made, new⟩ := Small.new_forty
  obtain ⟨s, run, same⟩ := Console.lines_match_iff (Small.memory 40 (by decide) (by decide))
    (Small.pixels_length 40 (by decide) (by decide)) new
    [.putChar 'A', .insertLines 1, .deleteLines 1] (by decide +kernel)
  exact ⟨made, s, new, run, same⟩

/-- After the background is changed, the points that come up are of the old one. -/
theorem Console.lines_differ : ¬ ∀ (front : Framebuffer), front.Sound →
    ∀ (base : Kernel.Paging.Word) (pixels : List UInt32),
    pixels.length = front.layout.sizeBytes / bytesPerPixel →
    ∀ foreground background cells alternateCells made,
    Console.new front base pixels foreground background cells alternateCells =
      some (.ok (.ok made)) →
    ∀ s, made.run [.showCursor false, .flush] = some (.ok s) →
    ∀ edits : List Edit, (∀ e ∈ edits, e.narrow = true) → s.Keeps edits := by
  intro claim
  have differs : (Small.given (Small.given (Small.new 40 (by decide) (by decide)))).any (fun made =>
      (Small.given (made.run [.showCursor false, .flush])).any fun s =>
      (Small.given (s.perform (.setGraphics ⟨false, none, some Small.white⟩))).any fun t =>
      (Small.given (t.perform (.deleteLines 1))).any fun u =>
        u.grid.cell 0 1 == some (Cell.cleared Small.white) &&
          u.back.readPixelRaw 0 16 !=
            some (Display.cellImage u.ink (Cell.cleared Small.white) 0 0)) = true := by
    decide +kernel
  obtain ⟨made, new, differs⟩ := Small.made_any differs
  obtain ⟨s, run, differs⟩ := Small.given_any differs
  obtain ⟨t, first, differs⟩ := Small.given_any differs
  obtain ⟨u, second, differs⟩ := Small.given_any differs
  rw [Bool.and_eq_true, beq_iff_eq, bne_iff_ne] at differs
  have keeps := claim _ (Small.memory 40 _ _) _ _ (Small.pixels_length 40 _ _) _ _ _ _ made
    new s run [.setGraphics ⟨false, none, some Small.white⟩, .deleteLines 1] (by decide)
  have last := (keeps.2 t first).2 u second
  exact differs.2 (last 0 1 _ differs.1 0 0 (by decide) (by decide))

end Zaytos.Terminal
