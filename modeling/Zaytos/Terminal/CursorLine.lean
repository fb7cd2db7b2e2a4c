import Zaytos.Terminal.Flushes
import Zaytos.Terminal.Painted

set_option autoImplicit false

/-! The line of the cursor (`console/screen.rs`): what each operation does to the line that is
drawn, and where it leaves one. -/
namespace Zaytos.Terminal

namespace TextOp

def fromForeground : TextOp → Bool
  | .paintCursor _ | .eraseDrawnCursor | .refreshCursor | .clear | .repaintFromCells => false
  | _ => true

end TextOp

namespace Term

def OnLine (column row i j : Nat) : Prop := Raster.Within (8 * column) (16 * row + 14) 8 2 i j

def covers (t : Term) (column row : Nat) : TextOp → Bool
  | .eraseInLine .after => decide (row = t.grid.row ∧ t.grid.column ≤ column)
  | .eraseInLine .before => decide (row = t.grid.row ∧ column ≤ t.grid.column)
  | .eraseInLine .all => decide (row = t.grid.row)
  | .eraseInDisplay .after =>
    decide (row = t.grid.row ∧ t.grid.column ≤ column ∨ t.grid.row < row)
  | .eraseInDisplay .before =>
    decide (row = t.grid.row ∧ column ≤ t.grid.column ∨ row < t.grid.row)
  | .eraseInDisplay .all => true
  | _ => false

def forgets (t : Term) : TextOp → Bool
  | .putChar _ | .deleteLines _ | .insertLines _ | .requestRepaint => true
  | .setAlternateScreen alternate => alternate != t.alternate
  | _ => false

def stays (t : Term) : Bool :=
  decide (t.cursorVisible = true ∧ t.drawnAt = some (t.grid.column, t.grid.row))

def Clean (t : Term) (marks : Raster Bool) : Prop :=
  ∀ i j, i < 8 * t.grid.columns → marks i j = some true →
    ∃ column row, t.drawnAt = some (column, row) ∧ OnLine column row i j

/-- The cursor is drawn in a row of the grid, at most one past its last column. -/
def Placed (t : Term) : Prop :=
  ∀ column row, t.drawnAt = some (column, row) → column ≤ t.grid.columns ∧ row < t.grid.rows

variable {α : Type} {t u : Term} {P : Paint α} {p : Raster α} {marks : Raster Bool}
  {column row n i j : Nat}

theorem operate_drawnAt {op : TextOp} (fore : op.fromForeground = true) (other : op ≠ .flush)
    (operated : t.operate op = some u) :
    u.drawnAt = if t.forgets op then none else t.drawnAt := by
  have before : ∀ v : Term, ∀ w, v.eraseBefore = some w → w.drawnAt = v.drawnAt := by
    intro v w erased
    unfold eraseBefore at erased
    split at erased <;> cases erased
    rfl
  cases op with
  | paintCursor _ | eraseDrawnCursor | refreshCursor | clear | repaintFromCells => cases fore
  | flush => exact absurd rfl other
  | putChar c =>
    cases operated
    exact putChar_drawnAt t c
  | setAlternateScreen alternate =>
    cases operated
    have drawn := Tty.setAlternateScreen_drawnAt t alternate
    by_cases same : alternate = t.alternate <;> simpa [forgets, same] using drawn
  | deleteLines count =>
    have deleted : t.deleteLines count = some u := operated
    unfold deleteLines at deleted
    split at deleted <;> cases deleted
    exact eraseDrawn_drawnAt t
  | insertLines count =>
    have inserted : t.insertLines count = some u := operated
    unfold insertLines at inserted
    split at inserted <;> cases inserted
    exact eraseDrawn_drawnAt t
  | eraseInLine scope =>
    cases scope with
    | before => exact before t u operated
    | _ =>
      cases operated
      rfl
  | eraseInDisplay scope =>
    cases scope with
    | before => exact before (t.eraseRows 0 t.grid.row) u operated
    | _ =>
      cases operated
      rfl
  | setGraphics graphics =>
    cases operated
    rcases graphics with ⟨reset, foreground, background⟩
    cases reset <;> rfl
  | _ =>
    cases operated
    rfl

theorem paint_onLine {op : TextOp} (fore : op.fromForeground = true) (other : op ≠ .flush)
    (kept : t.forgets op = false) (requested : Bool) (inside : column < t.grid.columns)
    (below : row < t.grid.rows) (line : OnLine column row i j) (there : (p i j).isSome = true) :
    t.paint P requested p op i j =
      if t.covers column row op then some (P.color t.background) else p i j := by
  have part : ∀ (q : Raster α) (top start stop : Nat), (q i j).isSome = true →
      t.paintBlank P q top start stop i j =
        if row = top ∧ start ≤ column ∧ column < stop then some (P.color t.background)
        else q i j := by
    intro q top start stop there
    unfold paintBlank
    unfold OnLine Raster.Within at line
    split
    · apply Raster.fill_inside _ there
      unfold Raster.Within
      omega
    · apply Raster.fill_outside
      unfold Raster.Within
      omega
  have rows : ∀ (q : Raster α) (top count : Nat), (q i j).isSome = true →
      t.paintBlankRows P q top count i j =
        if top ≤ row ∧ row < top + count then some (P.color t.background) else q i j := by
    intro q top count there
    unfold paintBlankRows
    unfold OnLine Raster.Within at line
    split
    · apply Raster.fill_inside _ there
      unfold Raster.Within
      omega
    · apply Raster.fill_outside
      unfold Raster.Within
      omega
  cases op with
  | paintCursor _ | eraseDrawnCursor | refreshCursor | clear | repaintFromCells => cases fore
  | flush => exact absurd rfl other
  | putChar _ | deleteLines _ | insertLines _ | requestRepaint => cases kept
  | cursorToCell _ _ | showCursor _ | setGraphics _ => rfl
  | setAlternateScreen alternate =>
    have same : alternate = t.alternate := by simpa [forgets] using kept
    exact congrFun (congrFun (if_pos same) i) j
  | eraseInLine scope =>
    cases scope with
    | after => simp [paint, paintEraseInLine, part p _ _ _ there, covers, inside]
    | before => simp [paint, paintEraseInLine, part p _ _ _ there, covers, Nat.lt_succ_iff]
    | all => simp [paint, paintEraseInLine, part p _ _ _ there, covers, inside]
  | eraseInDisplay scope =>
    cases scope with
    | after =>
      have first := part p t.grid.row t.grid.column t.grid.columns there
      have still :
          (t.paintBlank P p t.grid.row t.grid.column t.grid.columns i j).isSome = true := by
        rw [first]
        split
        · rfl
        · exact there
      have both := rows _ (t.grid.row + 1) (t.grid.rows - (t.grid.row + 1)) still
      apply both.trans
      rw [first]
      by_cases under : t.grid.row < row
      · rw [if_pos (by omega)]
        simp [covers, under]
      · rw [if_neg (by omega)]
        simp [covers, under, inside]
    | before =>
      have first := rows p 0 t.grid.row there
      have still : (t.paintBlankRows P p 0 t.grid.row i j).isSome = true := by
        rw [first]
        split
        · rfl
        · exact there
      have both := part _ t.grid.row 0 (t.grid.column + 1) still
      apply both.trans
      rw [first]
      by_cases here : row = t.grid.row
      · simp [covers, here, Nat.lt_succ_iff]
      · simp [covers, here]
    | all =>
      obtain ⟨value, point⟩ := Option.isSome_iff_exists.mp there
      change (p i j).map _ = _
      rw [point]
      rfl

/-! What becomes of the marks. -/
section Marks

def Unmarked (marks : Raster Bool) (n : Nat) : Prop := (marks.left n).All (· = false)

theorem Clean.of_unmarked (unmarked : Unmarked marks (8 * t.grid.columns)) : t.Clean marks := by
  intro i j inside mark
  have left : marks.left (8 * t.grid.columns) i j = some true := by
    rw [Raster.left, if_pos inside]
    exact mark
  cases unmarked i j true left

theorem Clean.erased (clean : t.Clean marks) (placed : t.Placed) :
    Unmarked (t.paintErased Paint.marks marks) (8 * t.grid.columns) := by
  intro i j value mark
  rw [Raster.left] at mark
  split at mark
  case isFalse => cases mark
  case isTrue inside =>
    unfold paintErased at mark
    cases drawn : t.drawnAt with
    | none =>
      rw [drawn] at mark
      dsimp only at mark
      cases value with
      | false => rfl
      | true =>
        obtain ⟨column, row, place, _⟩ := clean i j inside mark
        rw [drawn] at place
        cases place
    | some place =>
      rw [drawn] at mark
      obtain ⟨column, row⟩ := place
      dsimp only at mark
      have bounds := placed column row drawn
      have sameRow : (t.grid.setCursor column row).row = row := by
        unfold Grid.setCursor
        dsimp only
        omega
      by_cases line : Raster.Within (8 * (t.grid.setCursor column row).column)
          (16 * (t.grid.setCursor column row).row + 14) 8 2 i j
      · cases there : marks i j with
        | none =>
          rw [Raster.fill_none there] at mark
          cases mark
        | some old =>
          rw [Raster.fill_inside line (by rw [there]; rfl)] at mark
          exact (Option.some.inj mark).symm
      · rw [Raster.fill_outside line] at mark
        cases value with
        | false => rfl
        | true =>
          obtain ⟨column', row', place, here⟩ := clean i j inside mark
          cases drawn.symm.trans place
          have sameColumn : (t.grid.setCursor column row).column = column := by
            unfold OnLine Raster.Within at here
            unfold Grid.setCursor
            dsimp only
            omega
          rw [sameRow, sameColumn] at line
          exact absurd here line

theorem Unmarked.paintGlyph (unmarked : Unmarked marks n) (x y w h : Nat) :
    Unmarked (marks.draw x y w h fun _ _ => false) n := by
  change (Raster.left (Raster.draw _ _ _ _ _ _) n).All _
  rw [Raster.left_draw]
  exact unmarked.draw fun _ _ => rfl

theorem Unmarked.paintStep (unmarked : Unmarked marks n) (t : Term) (c : Char) (step : Step) :
    Unmarked (t.paintStep Paint.marks c step marks) n := by
  rcases step with ⟨scrolled, clearRow, drawAt⟩
  have first : Unmarked (if scrolled then marks.deleteRows 0 16 false else marks) n := by
    cases scrolled with
    | false => exact unmarked
    | true =>
      change ((marks.deleteRows 0 16 false).left n).All _
      rw [Raster.left_deleteRows]
      exact unmarked.deleteRows rfl 0 16
  generalize shifted : (if scrolled then marks.deleteRows 0 16 false else marks) = p at first
  unfold Term.paintStep
  dsimp only [Paint.marks]
  rw [shifted]
  cases clearRow with
  | none =>
    cases drawAt with
    | none => exact first
    | some place => exact first.paintGlyph _ _ _ _
  | some row =>
    have second : Unmarked (p.blankRows (16 * row) 16 false) n := by
      change ((p.blankRows (16 * row) 16 false).left n).All _
      rw [Raster.left_blankRows]
      exact first.blankRows rfl (16 * row) 16
    cases drawAt with
    | none => exact second
    | some place => exact second.paintGlyph _ _ _ _

theorem paintCells_unmarked (t : Term) (marks : Raster Bool) (n : Nat) :
    Unmarked (t.paintCells Paint.marks marks) n := by
  intro i j value mark
  rw [Raster.left] at mark
  split at mark
  case isFalse => cases mark
  case isTrue =>
    obtain ⟨_, _, rfl⟩ := Option.map_eq_some_iff.mp mark
    unfold Paint.marks
    dsimp only
    split
    · rfl
    · split <;> rfl

theorem Clean.forgotten (clean : t.Clean marks) (placed : t.Placed) {op : TextOp}
    (forgot : t.forgets op = true) (quiet : Console.requestedAfter false op = false) :
    Unmarked (t.paint Paint.marks false marks op) (8 * t.grid.columns) := by
  have erased := clean.erased placed
  cases op with
  | putChar c => exact erased.paintStep t c _
  | deleteLines count =>
    change (Raster.left (Raster.deleteRows _ _ _ _) _).All _
    rw [Raster.left_deleteRows]
    exact Raster.All.deleteRows erased rfl _ _
  | insertLines count =>
    change (Raster.left (Raster.insertRows _ _ _ _) _).All _
    rw [Raster.left_insertRows]
    exact Raster.All.insertRows erased rfl _ _
  | setAlternateScreen alternate =>
    have other : ¬ alternate = t.alternate := by simpa [forgets] using forgot
    change Unmarked (t.paintAlternate Paint.marks marks alternate) _
    unfold paintAlternate
    rw [if_neg other]
    cases alternate with
    | false => exact paintCells_unmarked _ marks _
    | true =>
      rw [if_pos rfl]
      unfold Unmarked
      rw [Raster.left_blank]
      exact Raster.All.blank rfl
  | requestRepaint => cases quiet
  | _ => cases forgot

theorem paint_marks_of {op : TextOp} (fore : op.fromForeground = true) (other : op ≠ .flush)
    (kept : t.forgets op = false) {requested : Bool}
    (mark : t.paint Paint.marks requested marks op i j = some true) : marks i j = some true := by
  have part : ∀ (q : Raster Bool) (x y w h : Nat), q.fill x y w h false i j = some true →
      q i j = some true := by
    intro q x y w h mark
    unfold Raster.fill Raster.draw at mark
    split at mark
    · obtain ⟨_, _, same⟩ := Option.map_eq_some_iff.mp mark
      cases same
    · exact mark
  cases op with
  | paintCursor _ | eraseDrawnCursor | refreshCursor | clear | repaintFromCells => cases fore
  | flush => exact absurd rfl other
  | putChar _ | deleteLines _ | insertLines _ | requestRepaint => cases kept
  | cursorToCell _ _ | showCursor _ | setGraphics _ => exact mark
  | setAlternateScreen alternate =>
    have same : alternate = t.alternate := by simpa [forgets] using kept
    have still : t.paintAlternate Paint.marks marks alternate = marks := if_pos same
    change t.paintAlternate Paint.marks marks alternate i j = _ at mark
    rw [still] at mark
    exact mark
  | eraseInLine scope =>
    cases scope <;> exact part marks _ _ _ _ mark
  | eraseInDisplay scope =>
    cases scope with
    | all =>
      obtain ⟨_, _, same⟩ := Option.map_eq_some_iff.mp mark
      cases same
    | _ => exact part marks _ _ _ _ (part _ _ _ _ _ mark)

end Marks

/-! What a transfer does to the line. -/
section Refreshes

theorem stays_iff : t.stays = true ↔
    t.cursorVisible = true ∧ t.drawnAt = some (t.grid.column, t.grid.row) := by
  unfold stays
  rw [decide_eq_true_iff]

theorem refresh_of_stays (stays : t.stays = true) : t.refresh = t ∧ t.paintRefresh P p = p :=
  ⟨if_pos (stays_iff.mp stays), if_pos (stays_iff.mp stays)⟩

theorem refresh_of_moved (moved : t.stays = false) :
    t.refresh.drawnAt =
        (if t.cursorVisible then some (t.refresh.grid.column, t.refresh.grid.row) else none) ∧
      t.paintRefresh P p =
        if t.cursorVisible then t.refresh.paintLine P (t.paintErased P p)
        else t.paintErased P p := by
  have other : ¬ (t.cursorVisible = true ∧ t.drawnAt = some (t.grid.column, t.grid.row)) := by
    rw [← stays_iff, moved]
    simp
  unfold refresh paintRefresh
  rw [if_neg other, if_neg other]
  dsimp only
  rw [eraseDrawn_cursorVisible]
  cases t.cursorVisible with
  | false => exact ⟨eraseDrawn_drawnAt t, rfl⟩
  | true => exact ⟨rfl, rfl⟩

theorem refresh_cursorVisible (t : Term) : t.refresh.cursorVisible = t.cursorVisible := by
  unfold refresh
  split
  · rfl
  · dsimp only
    split <;> exact eraseDrawn_cursorVisible t

theorem refresh_columns (t : Term) : t.refresh.grid.columns = t.grid.columns := by
  unfold refresh
  split
  · rfl
  · dsimp only
    split <;> exact (eraseDrawn_grid t).1

theorem refresh_drawnAt (t : Term) : t.refresh.drawnAt =
    if t.cursorVisible then some (t.refresh.grid.column, t.refresh.grid.row) else none := by
  cases stays : t.stays with
  | true =>
    have both := stays_iff.mp stays
    rw [(refresh_of_stays (P := Paint.marks) (p := fun _ _ => none) stays).1, if_pos both.1]
    exact both.2
  | false => exact (refresh_of_moved (P := Paint.marks) (p := fun _ _ => none) stays).1

theorem refresh_placed (sound : t.refresh.grid.Sound) : t.refresh.Placed := by
  intro column row drawn
  rw [refresh_drawnAt] at drawn
  split at drawn <;> cases drawn
  exact ⟨sound.column, sound.row⟩

theorem paintErased_isSome (there : (p i j).isSome = true) :
    (t.paintErased P p i j).isSome = true := by
  unfold paintErased
  cases t.drawnAt with
  | none => exact there
  | some place =>
    dsimp only
    unfold Raster.fill Raster.draw
    split
    · simpa using there
    · exact there

theorem refresh_onLine (moved : t.stays = false) (drawn : t.refresh.drawnAt = some (column, row))
    (line : OnLine column row i j) (there : (p i j).isSome = true) :
    t.paintRefresh P p i j = some P.line := by
  obtain ⟨place, painted⟩ := refresh_of_moved (P := P) (p := p) moved
  rw [painted]
  rw [drawn] at place
  split at place
  case isFalse => cases place
  case isTrue visible =>
    cases place
    rw [if_pos visible]
    exact Raster.fill_inside line (paintErased_isSome there)

theorem Clean.refresh (clean : t.Clean marks) (placed : t.Placed) :
    t.refresh.Clean (t.paintRefresh Paint.marks marks) := by
  cases stays : t.stays with
  | true =>
    obtain ⟨same, painted⟩ := refresh_of_stays (P := Paint.marks) (p := marks) stays
    rw [same, painted]
    exact clean
  | false =>
    obtain ⟨drawn, painted⟩ := refresh_of_moved (P := Paint.marks) (p := marks) stays
    have erased := clean.erased placed
    rw [painted]
    cases visible : t.cursorVisible with
    | false =>
      apply Clean.of_unmarked
      rw [refresh_columns]
      exact erased
    | true =>
      rw [visible] at drawn
      intro i j inside mark
      refine ⟨_, _, drawn, ?_⟩
      by_contra off
      have before : t.paintErased Paint.marks marks i j = some true := by
        rw [if_pos rfl] at mark
        exact (Raster.fill_outside off).symm.trans mark
      rw [refresh_columns] at inside
      have left : (t.paintErased Paint.marks marks).left (8 * t.grid.columns) i j = some true := by
        rw [Raster.left, if_pos inside]
        exact before
      cases erased i j true left

end Refreshes

end Term

end Zaytos.Terminal
