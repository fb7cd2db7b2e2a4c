import Zaytos.Lib.Pairing
import Zaytos.Terminal.Edits

set_option autoImplicit false

/-! The two cells of a wide character (`common/src/screen.rs`): a cell is marked as a continuation
because the one before it holds a wide character, until one of them is written over alone. -/
namespace Zaytos.Terminal

namespace Cell

def HoldsWide (cell : Cell) : Prop := widthCells cell.ch = 2

def Continues (cell : Cell) : Prop := cell.isContinuation = true

theorem cleared_plain (bg : Rgb) : ¬ (cleared bg).Continues ∧ ¬ (cleared bg).HoldsWide := by
  constructor
  · intro half
    rw [Continues, Display.cleared_whole] at half
    cases half
  · intro wide
    have one : widthCells ' ' = 1 := by decide
    rw [HoldsWide, cleared, one] at wide
    omega

theorem head_plain (ch : Char) (fg bg : Rgb) : ¬ Continues ⟨ch, fg, bg, 0⟩ := by
  have zero : ((0 : UInt8) &&& continuation != 0) = false := by decide
  intro half
  rw [Continues, isContinuation, zero] at half
  cases half

theorem rightHalf_continues (fg bg : Rgb) :
    (rightHalf fg bg).Continues ∧ ¬ (rightHalf fg bg).HoldsWide := by
  constructor
  · exact Display.rightHalf_half fg bg
  · intro wide
    have one : widthCells ' ' = 1 := by decide
    rw [HoldsWide, rightHalf, one] at wide
    omega

end Cell

namespace Grid

/-- A cell is marked as a continuation exactly if the cell to its left holds a wide character. -/
def WholeWide (g : Grid) : Prop := g.cell.Paired Cell.Continues Cell.HoldsWide

def cutAt (g : Grid) (column row : Nat) : Bool :=
  match g.cell column row with
  | some cell => cell.isContinuation
  | none => false

variable {g : Grid}

theorem cutAt_iff {column row : Nat} : g.cutAt column row = true ↔
    RightAt Cell.Continues (fun x => g.cell x row) column := by
  unfold cutAt RightAt Cell.Continues
  dsimp only
  cases g.cell column row <;> simp

theorem uncut_iff {a b : Bool} : (a || b) = false ↔ ¬ a = true ∧ ¬ b = true := by
  cases a <;> cases b <;> simp

theorem WholeWide.paint_iff (whole : g.WholeWide) (sound : g.Sound) (bg : Rgb)
    {column row count : Nat} (nonempty : 0 < count) :
    (g.paint column row count (Cell.cleared bg)).WholeWide ↔
      (g.cutAt column row || g.cutAt (column + count) row) = false := by
  rw [uncut_iff, cutAt_iff, cutAt_iff]
  exact Raster.Paired.fill_iff whole sound.sized (Cell.cleared_plain bg) nonempty

theorem WholeWide.put_iff (whole : g.WholeWide) (sound : g.Sound) (c : Char) (fg bg : Rgb)
    (column row : Nat) :
    (g.put column row c fg bg (widthCells c)).WholeWide ↔
      (g.cutAt column row || g.cutAt (column + widthCells c) row) = false := by
  rw [uncut_iff, cutAt_iff, cutAt_iff]
  unfold WholeWide put paint
  dsimp only
  cases widthCells_cases c with
  | inl one =>
    rw [one, Raster.fill_empty]
    apply Raster.Paired.fill_iff whole sound.sized _ Nat.one_pos
    constructor
    · exact Cell.head_plain c fg bg
    · intro wide
      rw [Cell.HoldsWide, one] at wide
      omega
  | inr two =>
    have wide : Cell.HoldsWide ⟨c, fg, bg, 0⟩ := two
    have tail := Cell.rightHalf_continues fg bg
    rw [two, show 2 - 1 = 1 from rfl]
    exact Raster.Paired.fill_pair_iff whole sound.sized wide (Cell.head_plain c fg bg) tail.1 tail.2

theorem WholeWide.deleteLines (whole : g.WholeWide) (sound : g.Sound) (row count : Nat) (bg : Rgb) :
    (g.deleteLines row count bg).WholeWide :=
  Raster.Paired.deleteRows whole sound.sized (Cell.cleared_plain bg)

theorem WholeWide.insertLines (whole : g.WholeWide) (sound : g.Sound) (row count : Nat) (bg : Rgb) :
    (g.insertLines row count bg).WholeWide :=
  Raster.Paired.insertRows whole sound.sized (Cell.cleared_plain bg)

theorem WholeWide.clearRow (whole : g.WholeWide) (sound : g.Sound) (row : Nat) (bg : Rgb) :
    (g.clearRow row bg).WholeWide :=
  Raster.Paired.fill_rows whole sound.sized (Cell.cleared_plain bg)

theorem reset_wholeWide (g : Grid) (bg : Rgb) : (g.reset bg).WholeWide :=
  Raster.blank_paired (Cell.cleared_plain bg)

theorem Sound.scrolled_uncut (sound : g.Sound) (bg : Rgb) {row : Nat} (last : ¬ row + 1 < g.rows)
    (column : Nat) : (g.deleteLines 0 1 bg).cutAt column row = false := by
  unfold cutAt Grid.deleteLines Raster.deleteRows
  dsimp only
  rw [if_neg (by omega), sound.sized.eq_none (by omega), Option.none_or]
  cases g.cell column row with
  | none => rfl
  | some cell => exact Display.cleared_whole bg

end Grid

namespace Term

structure WholeWide (t : Term) : Prop where
  grid : t.grid.WholeWide
  other : t.other.WholeWide

/-- An operation writes over one half of a wide character: what it writes over begins at a right
half, or ends before one. -/
def splits (t : Term) : TextOp → Bool
  | .putChar c =>
    let step := (t.eraseDrawn.grid.advance c (widthCells c)).1
    match step.drawAt with
    | some place => !step.scrolled &&
      (t.grid.cutAt place.column place.row || t.grid.cutAt (place.column + widthCells c) place.row)
    | none => false
  | .eraseInLine .after | .eraseInDisplay .after => t.grid.cutAt t.grid.column t.grid.row
  | .eraseInLine .before | .eraseInDisplay .before => t.grid.cutAt (t.grid.column + 1) t.grid.row
  | _ => false

variable {t u : Term}

theorem WholeWide.congr (whole : t.WholeWide) (grid : u.grid.cell = t.grid.cell)
    (other : u.other = t.other) : u.WholeWide := by
  constructor
  · unfold Grid.WholeWide
    rw [grid]
    exact whole.grid
  · rw [other]
    exact whole.other

theorem WholeWide.shown_iff (whole : t.WholeWide) (other : u.other = t.other) :
    u.WholeWide ↔ u.grid.WholeWide := by
  constructor
  · intro both
    exact both.grid
  · intro shown
    exact ⟨shown, other ▸ whole.other⟩

theorem eraseDrawn_other (t : Term) : t.eraseDrawn.other = t.other := by
  unfold eraseDrawn
  cases t.drawnAt <;> rfl

theorem eraseDrawn_sound (sound : t.grid.Sound) : t.eraseDrawn.grid.Sound := by
  unfold eraseDrawn
  cases t.drawnAt with
  | none => exact sound
  | some place => exact sound.setCursor _ _

theorem WholeWide.eraseDrawn (whole : t.WholeWide) : t.eraseDrawn.WholeWide :=
  whole.congr t.eraseDrawn_grid.2.2 t.eraseDrawn_other

theorem WholeWide.refresh (whole : t.WholeWide) : t.refresh.WholeWide := by
  unfold Term.refresh
  split
  · exact whole
  · dsimp only
    split
    · exact whole.eraseDrawn.congr rfl rfl
    · exact whole.eraseDrawn

theorem WholeWide.putChar_iff (whole : t.WholeWide) (sound : t.grid.Sound) (c : Char) :
    (t.putChar c).WholeWide ↔ t.splits (.putChar c) = false := by
  have erased := whole.eraseDrawn
  have soundE := eraseDrawn_sound sound
  have cell := t.eraseDrawn_grid.2.2
  unfold putChar splits
  dsimp only
  generalize t.eraseDrawn = e at *
  have cells := e.grid.advance_cell c (widthCells c)
  have size := e.grid.advance_size c (widthCells c)
  have moved := soundE.advance c (widthCells_le c)
  have fits : ∀ place, (e.grid.advance c (widthCells c)).1.drawAt = some place →
      place.widthCells = widthCells c :=
    fun place drawn => (soundE.advance_drawAt (widthCells_le c) drawn).2.2
  have kinds := e.grid.advance_cases c (widthCells c)
  generalize e.grid.advance c (widthCells c) = result at *
  obtain ⟨⟨scrolled, clearRow, drawAt⟩, grid⟩ := result
  dsimp only at *
  have same : ({ e with grid } : Term).WholeWide := erased.congr cells rfl
  have cut : ∀ column row, t.grid.cutAt column row = grid.cutAt column row := by
    intro column row
    unfold Grid.cutAt
    rw [cells, cell]
  cases scrolled with
  | false =>
    cases clearRow with
    | none =>
      cases drawAt with
      | none => exact iff_of_true same rfl
      | some place =>
        have width := fits place rfl
        have put := same.grid.put_iff moved c e.foreground e.background place.column place.row
        dsimp only at put ⊢
        rw [cut, cut, Bool.not_false, Bool.true_and, ← put, ← width]
        exact same.shown_iff (u := ({ e with grid } : Term).settle c { drawAt := some place }) rfl
    | some row =>
      have none' : drawAt = none := by
        cases kinds with
        | inl none' => cases none'.1
        | inr none' => exact none'.2
      rw [none']
      apply iff_of_true _ rfl
      exact ⟨same.grid.clearRow moved row e.background, same.other⟩
  | true =>
    have quiet : clearRow = none := by
      cases kinds with
      | inl quiet => exact quiet.1
      | inr other => cases other.1
    have scroll : ({ e with grid := grid.deleteLines 0 1 e.background } : Term).WholeWide :=
      ⟨same.grid.deleteLines moved 0 1 e.background, same.other⟩
    rw [quiet]
    cases drawAt with
    | none => exact iff_of_true scroll rfl
    | some place =>
      have width := fits place rfl
      apply iff_of_true _ rfl
      have last : ¬ place.row + 1 < grid.rows := by
        cases kinds with
        | inl kinds =>
          cases kinds.2 rfl with
          | inl none' => cases none'
          | inr placed =>
            obtain ⟨placed, last⟩ := placed
            cases placed
            rw [size.2]
            exact last
        | inr other => cases other.1
      have uncut := moved.scrolled_uncut e.background last
      have put := scroll.grid.put_iff (moved.deleteLines 0 1 e.background) c e.foreground
        e.background place.column place.row
      rw [← width] at put
      refine ⟨put.mpr ?_, scroll.other⟩
      rw [uncut, uncut]
      rfl

theorem WholeWide.eraseRows (whole : t.WholeWide) (sound : t.grid.Sound) (row count : Nat) :
    (t.eraseRows row count).WholeWide :=
  ⟨Raster.Paired.fill_rows whole.grid sound.sized (Cell.cleared_plain _), whole.other⟩

theorem WholeWide.uncut_first (whole : t.WholeWide) (row : Nat) : t.grid.cutAt 0 row = false := by
  rw [← Bool.not_eq_true, Grid.cutAt_iff]
  intro half
  obtain ⟨cell, there, continues⟩ := half
  exact (whole.grid row).first cell there continues

theorem uncut_past (sound : t.grid.Sound) {column : Nat} (past : t.grid.columns ≤ column)
    (row : Nat) : t.grid.cutAt column row = false := by
  unfold Grid.cutAt
  rw [sound.sized.eq_none (by omega)]

theorem WholeWide.eraseCells_iff (whole : t.WholeWide) (sound : t.grid.Sound)
    {row start stop : Nat} (some' : start < stop) :
    (t.eraseCells row start stop).WholeWide ↔
      (t.grid.cutAt start row || t.grid.cutAt stop row) = false := by
  have paint := @Grid.WholeWide.paint_iff _ whole.grid sound t.background start row
    (stop - start) (by omega)
  rw [show start + (stop - start) = stop by omega] at paint
  have shown := whole.shown_iff (u := t.eraseCells row start stop) rfl
  exact shown.trans paint

theorem WholeWide.eraseAfter_iff (whole : t.WholeWide) (sound : t.grid.Sound) :
    (t.eraseCells t.grid.row t.grid.column t.grid.columns).WholeWide ↔
      t.grid.cutAt t.grid.column t.grid.row = false := by
  have column := sound.column
  by_cases past : t.grid.column = t.grid.columns
  · apply iff_of_true
    · have nothing : t.eraseCells t.grid.row t.grid.column t.grid.columns = t := by
        unfold eraseCells
        rw [past, Nat.sub_self, Grid.paint_zero]
      rw [nothing]
      exact whole
    · exact uncut_past sound (by omega) _
  · rw [whole.eraseCells_iff sound (by omega), uncut_past sound (Nat.le_refl _), Bool.or_false]

theorem WholeWide.eraseBefore_iff (whole : t.WholeWide) (sound : t.grid.Sound)
    (erased : t.eraseBefore = some u) :
    u.WholeWide ↔ t.grid.cutAt (t.grid.column + 1) t.grid.row = false := by
  unfold eraseBefore at erased
  split at erased
  · cases erased
    rw [whole.eraseCells_iff sound (by omega), whole.uncut_first, Bool.false_or]
  · cases erased

theorem WholeWide.setAlternateScreen (whole : t.WholeWide) (alternate : Bool) :
    (t.setAlternateScreen alternate).WholeWide := by
  unfold Term.setAlternateScreen
  split
  · exact whole
  · cases alternate with
    | false => exact ⟨whole.other, whole.grid⟩
    | true => exact ⟨Grid.reset_wholeWide _ _, whole.grid⟩

theorem WholeWide.eraseDisplayAfter_iff (whole : t.WholeWide) (sound : t.grid.Sound)
    (erased : t.eraseInDisplay .after = some u) :
    u.WholeWide ↔ t.grid.cutAt t.grid.column t.grid.row = false := by
  cases erased
  rw [← whole.eraseAfter_iff sound]
  constructor
  · intro below
    refine ⟨?_, whole.other⟩
    apply Raster.Paired.of_row whole.grid _ _ below.grid (y := t.grid.row)
    · intro x j other
      apply Raster.fill_outside
      unfold Raster.Within
      omega
    · intro x
      apply Raster.fill_outside
      unfold Raster.Within
      change ¬ (_ ∧ t.grid.row + 1 ≤ t.grid.row ∧ _)
      omega
  · intro line
    exact line.eraseRows (sound.paint _ _ _ _) _ _

theorem WholeWide.eraseDisplayBefore_iff (whole : t.WholeWide) (sound : t.grid.Sound)
    (erased : t.eraseInDisplay .before = some u) :
    u.WholeWide ↔ t.grid.cutAt (t.grid.column + 1) t.grid.row = false := by
  have rows := whole.eraseRows sound 0 t.grid.row
  have soundR : (t.eraseRows 0 t.grid.row).grid.Sound := { sound with sized := sound.sized.fill _ }
  have before := rows.eraseBefore_iff soundR erased
  have same : (t.eraseRows 0 t.grid.row).grid.cutAt (t.grid.column + 1) t.grid.row =
      t.grid.cutAt (t.grid.column + 1) t.grid.row := by
    unfold Grid.cutAt Term.eraseRows
    dsimp only
    rw [Raster.fill_outside]
    unfold Raster.Within
    omega
  rw [← same]
  exact before

theorem WholeWide.operate_iff (whole : t.WholeWide) (sound : t.grid.Sound) {op : TextOp}
    (operated : t.operate op = some u) : u.WholeWide ↔ t.splits op = false := by
  have erased := whole.eraseDrawn
  have soundE := eraseDrawn_sound sound
  cases op with
  | putChar c =>
    cases operated
    exact whole.putChar_iff sound c
  | eraseInLine scope =>
    cases scope with
    | after =>
      cases operated
      exact whole.eraseAfter_iff sound
    | before => exact whole.eraseBefore_iff sound operated
    | all =>
      cases operated
      exact iff_of_true (whole.eraseRows sound t.grid.row 1) rfl
  | eraseInDisplay scope =>
    cases scope with
    | after => exact whole.eraseDisplayAfter_iff sound operated
    | before => exact whole.eraseDisplayBefore_iff sound operated
    | all =>
      cases operated
      exact iff_of_true ⟨Grid.reset_wholeWide _ _, whole.other⟩ rfl
  | deleteLines count =>
    rw [operate, deleteLines] at operated
    split at operated
    · cases operated
      exact iff_of_true ⟨erased.grid.deleteLines soundE _ _ _, erased.other⟩ rfl
    · cases operated
  | insertLines count =>
    rw [operate, insertLines] at operated
    split at operated
    · cases operated
      exact iff_of_true ⟨erased.grid.insertLines soundE _ _ _, erased.other⟩ rfl
    · cases operated
  | eraseDrawnCursor =>
    cases operated
    exact iff_of_true erased rfl
  | refreshCursor =>
    cases operated
    exact iff_of_true whole.refresh rfl
  | flush =>
    cases operated
    exact iff_of_true whole.refresh rfl
  | setGraphics graphics =>
    cases operated
    apply iff_of_true _ rfl
    unfold setGraphics
    cases graphics.reset with
    | true => exact ⟨whole.grid, whole.other⟩
    | false => exact ⟨whole.grid, whole.other⟩
  | clear =>
    cases operated
    exact iff_of_true ⟨Grid.reset_wholeWide _ _, whole.other⟩ rfl
  | setAlternateScreen alternate =>
    cases operated
    exact iff_of_true (whole.setAlternateScreen alternate) rfl
  | _ =>
    cases operated
    exact iff_of_true ⟨whole.grid, whole.other⟩ rfl

end Term

namespace Console

def WholeAlong (s : Console) : List TextOp → Prop
  | [] => s.term.WholeWide
  | op :: ops => s.term.WholeWide ∧ ∀ t, s.perform op = some (.ok t) → t.WholeAlong ops

def NeverSplits (s : Console) : List TextOp → Prop
  | [] => True
  | op :: ops => ∀ t, s.perform op = some (.ok t) → s.term.splits op = false ∧ t.NeverSplits ops

variable {s t : Console}

theorem WholeAlong.now {ops : List TextOp} (along : s.WholeAlong ops) : s.term.WholeWide := by
  cases ops with
  | nil => exact along
  | cons op ops => exact along.1

theorem wholeAlong_run (sound : s.Sound) (whole : s.term.WholeWide) (ops : List TextOp) :
    s.WholeAlong ops ↔ s.NeverSplits ops := by
  induction ops generalizing s with
  | nil => exact iff_of_true whole trivial
  | cons op ops ih =>
    constructor
    · intro along t done
      have operated := perform_operated sound done
      have step := whole.operate_iff sound.grid.sound.view operated.term
      have rest := along.2 t done
      exact ⟨step.mp rest.now, (ih operated.sound rest.now).mp rest⟩
    · intro never
      refine ⟨whole, ?_⟩
      intro t done
      have operated := perform_operated sound done
      have step := whole.operate_iff sound.grid.sound.view operated.term
      obtain ⟨clean, rest⟩ := never t done
      exact (ih operated.sound (step.mpr clean)).mpr rest

theorem start_wholeWide {ink : Rgb → UInt32} {width height : Nat} {foreground background : Rgb}
    (shows : s.display = (Display.start ink width height foreground background).refresh ink) :
    s.term.WholeWide := by
  have term : s.term = (Term.start (width / 8) (height / 16) foreground background).refresh := by
    have same := congrArg Display.term shows
    rw [Display.refresh_term] at same
    exact same
  rw [term]
  apply Term.WholeWide.refresh
  constructor
  · exact Raster.plain_paired (Cell.cleared_plain background)
  · exact Raster.plain_paired (Cell.cleared_plain background)

/-- From a new console on, a cell carries the mark of a right half exactly if the cell to its left
holds a wide character, in every state that the operations come to, if and only if none of them
writes over one half of such a character alone. -/
theorem wholeAlong_iff {front : Framebuffer} (memory : front.Sound) {base : Kernel.Paging.Word}
    {pixels : List UInt32} (size : pixels.length = front.layout.sizeBytes / bytesPerPixel)
    {foreground background : Rgb} {cells alternateCells : List Cell} {start : Console}
    (new : Console.new front base pixels foreground background cells alternateCells =
      some (.ok (.ok start))) (ops : List TextOp) :
    start.WholeAlong ops ↔ start.NeverSplits ops := by
  obtain ⟨made, same, sound, -, -, -, shows, -⟩ := new_total memory size new
  cases same
  exact wholeAlong_run sound (start_wholeWide shows) ops

theorem wholeAlong_iff_sixteen : ∃ start,
    Small.new 16 (by decide) (by decide) = some (.ok (.ok start)) ∧
    (start.WholeAlong [.putChar 'あ', .cursorToCell 0 0, .putChar 'い'] ↔
      start.NeverSplits [.putChar 'あ', .cursorToCell 0 0, .putChar 'い']) := by
  obtain ⟨made, new⟩ := Small.new_sixteen
  obtain ⟨start, rfl, -⟩ := new_total (Small.memory 16 _ _) (Small.pixels_length 16 _ _) new
  exact ⟨start, new, wholeAlong_iff (Small.memory 16 _ _) (Small.pixels_length 16 _ _) new _⟩

/-- A wide character, and a narrow one over its right half: the left half stays. -/
theorem wide_split : ¬ ∀ (front : Framebuffer), front.Sound →
    ∀ (base : Kernel.Paging.Word) (pixels : List UInt32),
      pixels.length = front.layout.sizeBytes / bytesPerPixel →
    ∀ (foreground background : Rgb) (cells alternateCells : List Cell) (start : Console),
      Console.new front base pixels foreground background cells alternateCells =
        some (.ok (.ok start)) → ∀ ops, start.WholeAlong ops := by
  intro claim
  obtain ⟨made, new⟩ := Small.new_sixteen
  obtain ⟨start, rfl, sound, -, -, -, shows, -⟩ :=
    new_total (Small.memory 16 _ _) (Small.pixels_length 16 _ _) new
  have term : start.term = (Term.start 2 1 Small.white Small.black).refresh := by
    have same := congrArg Display.term shows
    rw [Display.refresh_term] at same
    exact same
  have along := claim _ (Small.memory 16 _ _) _ _ (Small.pixels_length 16 _ _) _ _ _ _ start new
    [.putChar 'あ', .cursorToCell 1 0, .putChar 'a']
  have ran : ((start.term.operate (.putChar 'あ')).bind fun t => (t.operate (.cursorToCell 1 0)).bind
      fun t => (t.operate (.putChar 'a')).map fun t =>
        ((t.grid.cell 0 0).map fun cell => widthCells cell.ch,
          (t.grid.cell 1 0).map Cell.isContinuation)) = some (some 2, some false) := by
    rw [term]
    decide
  obtain ⟨t₁, first, ran⟩ := Option.bind_eq_some_iff.mp ran
  obtain ⟨t₂, second, ran⟩ := Option.bind_eq_some_iff.mp ran
  obtain ⟨t₃, third, seen⟩ := Option.map_eq_some_iff.mp ran
  obtain ⟨s₁, done₁, operated₁, rfl⟩ := perform_isSome sound first
  obtain ⟨s₂, done₂, operated₂, rfl⟩ := perform_isSome operated₁.sound second
  obtain ⟨s₃, done₃, operated₃, rfl⟩ := perform_isSome operated₂.sound third
  have whole : s₃.term.WholeWide := ((along.2 s₁ done₁).2 s₂ done₂).2 s₃ done₃
  rw [Prod.mk.injEq, Option.map_eq_some_iff, Option.map_eq_some_iff] at seen
  obtain ⟨⟨a, left, wide⟩, b, right, narrow⟩ := seen
  have half : b.isContinuation = true := ((whole.grid 0).next 0 a b left right).mpr wide
  rw [narrow] at half
  cases half

end Console

end Zaytos.Terminal
