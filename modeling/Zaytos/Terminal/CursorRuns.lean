import Zaytos.Terminal.CursorLine

set_option autoImplicit false

/-! Where the line of the cursor is after a transfer (`console/screen.rs`). It is not drawn again
where it is still drawn, though an erase may have painted over it in between. -/
namespace Zaytos.Terminal

/-- The console with what has become of the lines of its cursor: where one was the last thing
painted, and whether an erase has painted the one that is drawn over, in another colour. -/
structure Traced where
  console : Console
  marks : Raster Bool
  lost : Bool

namespace Traced

def lostAfter (x : Traced) (op : TextOp) : Bool :=
  match op, x.console.cursorDrawnAt with
  | .flush, _ => x.console.term.stays && x.lost
  | op, some (column, row) =>
    if x.console.term.covers column row op then
      x.console.ink x.console.background != x.console.ink Console.cursorColor
    else x.lost
  | _, none => x.lost

def step (x : Traced) (op : TextOp) : Option Traced :=
  if op.fromForeground then
    match x.console.perform op with
    | some (.ok console) => some
      { console
        marks := x.console.term.paint Paint.marks x.console.repaintRequested x.marks op
        lost := x.lostAfter op }
    | _ => none
  else none

def run (x : Traced) : List TextOp → Option Traced
  | [] => some x
  | op :: ops => do (← x.step op).run ops

def start (console : Console) : Traced where
  console := console
  marks := (Term.start (console.back.layout.width / 8) (console.back.layout.height / 16)
    console.foreground console.background).paint Paint.marks false
      (Raster.plain console.back.layout.width console.back.layout.height false) .flush
  lost := false

/-- The bottom two rows of the cursor's cell are in its colour, if it is shown and in the grid. -/
def Underlined (x : Traced) : Prop :=
  x.console.cursorVisible = true → x.console.grid.cursorColumn < x.console.grid.columns →
    ∀ i j, Term.OnLine x.console.grid.cursorColumn x.console.grid.cursorRow i j →
      x.console.back.readPixelRaw i j = some (x.console.ink Console.cursorColor)

/-- No cell of the grid holds a line but that of the cursor, and none if it is hidden. -/
def OnlyCursor (x : Traced) : Prop :=
  ∀ i j, i < 8 * x.console.grid.columns → j < 16 * x.console.grid.rows → x.marks i j = some true →
    x.console.cursorVisible = true ∧
      Term.OnLine x.console.grid.cursorColumn x.console.grid.cursorRow i j

/-- A transfer does not draw the cursor again that an erase has painted over. -/
def misses (x : Traced) : Bool :=
  x.console.term.stays && decide (x.console.grid.cursorColumn < x.console.grid.columns) && x.lost

variable {x y : Traced} {op : TextOp}

/-- The line of the cell in which the cursor is drawn is there, unless it is lost. -/
def Held (x : Traced) : Prop :=
  ∀ column row, x.console.cursorDrawnAt = some (column, row) →
    column < x.console.grid.columns → ∀ i j, Term.OnLine column row i j →
      ∃ pixel, x.console.back.readPixelRaw i j = some pixel ∧
        (x.lost = true ↔ pixel ≠ x.console.ink Console.cursorColor)

structure Lined (x : Traced) : Prop where
  sound : x.console.Sound
  placed : x.console.term.Placed
  held : x.Held
  clean : x.console.repaintRequested = false → x.console.term.Clean x.marks
  asked : x.console.repaintRequested = true → x.console.cursorDrawnAt = none

theorem step_cases (stepped : x.step op = some y) (sound : x.console.Sound) :
    op.fromForeground = true ∧ x.console.Operated op y.console ∧
      y.marks = x.console.term.paint Paint.marks x.console.repaintRequested x.marks op ∧
      y.lost = x.lostAfter op := by
  unfold step at stepped
  split at stepped
  case isFalse => cases stepped
  case isTrue fore =>
    cases done : x.console.perform op with
    | none =>
      rw [done] at stepped
      cases stepped
    | some result =>
      rw [done] at stepped
      cases result with
      | error error => cases stepped
      | ok console =>
        cases stepped
        exact ⟨fore, Console.perform_operated sound done, rfl, rfl⟩

theorem sizes (sound : x.console.Sound) (operated : x.console.Operated op y.console) :
    y.console.grid.columns = x.console.grid.columns ∧
      y.console.grid.rows = x.console.grid.rows := by
  rw [operated.sound.grid.columns, operated.sound.grid.rows, sound.grid.columns, sound.grid.rows,
    operated.layout]
  exact ⟨rfl, rfl⟩

theorem picture_of (operated : x.console.Operated op y.console) :
    y.console.back.readPixelRaw = x.console.term.paint (Paint.pixels x.console.ink)
      x.console.repaintRequested x.console.back.readPixelRaw op :=
  Display.operate_picture operated.display

theorem line_isSome {s : Console} (sound : s.Sound) {column row i j : Nat}
    (inside : column < s.grid.columns) (below : row < s.grid.rows)
    (line : Term.OnLine column row i j) : (s.back.readPixelRaw i j).isSome = true := by
  have wide := sound.columns_le
  have tall := sound.rows_le
  unfold Term.OnLine Raster.Within at line
  apply (sound.back.sized i j).mpr
  omega

theorem quiet_before {requested : Bool} (other : op ≠ .flush)
    (quiet : Console.requestedAfter requested op = false) : requested = false := by
  cases op with
  | flush => exact absurd rfl other
  | requestRepaint => cases quiet
  | _ => exact quiet

theorem lostAfter_drawn (x : Traced) {column row : Nat} (other : op ≠ .flush)
    (drawn : x.console.cursorDrawnAt = some (column, row)) : x.lostAfter op =
      if x.console.term.covers column row op then
        x.console.ink x.console.background != x.console.ink Console.cursorColor
      else x.lost := by
  unfold lostAfter
  rw [drawn]
  cases op with
  | flush => exact absurd rfl other
  | _ => rfl

theorem Lined.operate (lined : x.Lined) (stepped : x.step op = some y) (other : op ≠ .flush) :
    y.Lined := by
  obtain ⟨fore, operated, marks, lost⟩ := step_cases stepped lined.sound
  obtain ⟨columns, rows⟩ := sizes lined.sound operated
  have drawn : y.console.cursorDrawnAt =
      if x.console.term.forgets op then none else x.console.cursorDrawnAt :=
    Term.operate_drawnAt fore other operated.term
  have asked : y.console.repaintRequested = true → y.console.cursorDrawnAt = none := by
    intro requested
    rw [operated.requested] at requested
    rw [drawn]
    split
    · rfl
    case isFalse kept =>
      apply lined.asked
      cases op with
      | flush => exact absurd rfl other
      | requestRepaint => exact absurd rfl kept
      | _ => exact requested
  cases forgot : x.console.term.forgets op with
  | true =>
    rw [forgot, if_pos rfl] at drawn
    refine ⟨operated.sound, ?_, ?_, ?_, asked⟩
    · intro column row place
      cases drawn.symm.trans place
    · intro column row place
      cases drawn.symm.trans place
    · intro quiet
      rw [operated.requested] at quiet
      have before := quiet_before other quiet
      rw [before] at quiet
      apply Term.Clean.of_unmarked
      have same : y.console.term.grid.columns = x.console.term.grid.columns := columns
      rw [marks, before, same]
      exact (lined.clean before).forgotten lined.placed forgot quiet
  | false =>
    rw [forgot, if_neg Bool.false_ne_true] at drawn
    refine ⟨operated.sound, ?_, ?_, ?_, asked⟩
    · intro column row place
      have bounds := lined.placed column row (drawn.symm.trans place)
      change column ≤ y.console.grid.columns ∧ row < y.console.grid.rows
      rw [columns, rows]
      exact bounds
    · intro column row place inside i j line
      have old := drawn.symm.trans place
      rw [columns] at inside
      have below := (lined.placed column row old).2
      have painted := Term.paint_onLine (P := Paint.pixels x.console.ink) fore other forgot
        x.console.repaintRequested inside below line (line_isSome lined.sound inside below line)
      rw [← picture_of operated] at painted
      have after := lost.trans (lostAfter_drawn x other old)
      rw [painted, after, operated.ink]
      by_cases covered : x.console.term.covers column row op
      · rw [if_pos covered, if_pos covered]
        refine ⟨_, rfl, ?_⟩
        rw [bne_iff_ne]
        rfl
      · rw [if_neg covered, if_neg covered]
        exact lined.held column row old inside i j line
    · intro quiet i j inside mark
      rw [operated.requested] at quiet
      have before := quiet_before other quiet
      rw [marks] at mark
      have same : y.console.term.grid.columns = x.console.term.grid.columns := columns
      rw [same] at inside
      obtain ⟨column, row, place, line⟩ :=
        lined.clean before i j inside (Term.paint_marks_of fore other forgot mark)
      exact ⟨column, row, drawn.trans place, line⟩

theorem Lined.repainted (lined : x.Lined) : x.console.term.Clean
    (if x.console.repaintRequested then x.console.term.paintCells Paint.marks x.marks
      else x.marks) := by
  cases requested : x.console.repaintRequested with
  | false => exact lined.clean requested
  | true => exact .of_unmarked (Term.paintCells_unmarked x.console.term x.marks _)

theorem Lined.not_stays (lined : x.Lined) (requested : x.console.repaintRequested = true) :
    x.console.term.stays = false := by
  rw [← Bool.not_eq_true, Term.stays_iff]
  intro stays
  cases (lined.asked requested).symm.trans stays.2

theorem Lined.flush (lined : x.Lined) (stepped : x.step .flush = some y) : y.Lined := by
  obtain ⟨-, operated, marks, lost⟩ := step_cases stepped lined.sound
  obtain ⟨columns, rows⟩ := sizes lined.sound operated
  have term : x.console.term.refresh = y.console.term := Option.some.inj operated.term
  have quiet : y.console.repaintRequested = false := operated.requested
  refine ⟨operated.sound, ?_, ?_, ?_, ?_⟩
  · rw [← term]
    apply Term.refresh_placed
    rw [term]
    exact (operated.sound.grid.sound).view
  · intro column row place inside i j line
    have picture := picture_of operated
    cases stays : x.console.term.stays with
    | true =>
      have before : x.console.repaintRequested = false := by
        rw [← Bool.not_eq_true]
        intro requested
        cases (lined.not_stays requested).symm.trans stays
      have same := Term.refresh_of_stays (P := Paint.pixels x.console.ink)
        (p := x.console.back.readPixelRaw) stays
      have after : y.lost = x.lost := by
        rw [lost, lostAfter, stays, Bool.true_and]
      have still : y.console.back.readPixelRaw = x.console.back.readPixelRaw := by
        rw [picture, before]
        exact same.2
      have old : x.console.term.drawnAt = some (column, row) := by
        rw [← same.1, term]
        exact place
      rw [still, after, operated.ink]
      exact lined.held column row old (columns ▸ inside) i j line
    | false =>
      have drawn : x.console.term.refresh.drawnAt = some (column, row) := by
        rw [term]
        exact place
      have below : row < y.console.grid.rows := by
        have bounds := Term.refresh_placed (t := x.console.term) (by
          rw [term]
          exact operated.sound.grid.sound.view) column row drawn
        rw [term] at bounds
        exact bounds.2
      have there := line_isSome lined.sound (columns ▸ inside) (rows ▸ below) line
      have painted : y.console.back.readPixelRaw i j =
          some (x.console.ink Console.cursorColor) := by
        rw [picture]
        apply Term.refresh_onLine (P := Paint.pixels x.console.ink) stays drawn line
        split
        · unfold Term.paintCells
          simpa using there
        · exact there
      refine ⟨_, painted, ?_⟩
      rw [lost, lostAfter, stays, operated.ink, Bool.false_and]
      simp
  · intro _
    rw [← term, marks]
    exact lined.repainted.refresh lined.placed
  · intro requested
    cases quiet.symm.trans requested

theorem Lined.step (lined : x.Lined) (stepped : x.step op = some y) : y.Lined := by
  by_cases transfer : op = .flush
  · rw [transfer] at stepped
    exact lined.flush stepped
  · exact lined.operate stepped transfer

theorem Lined.run (lined : x.Lined) {ops : List TextOp} (ran : x.run ops = some y) : y.Lined := by
  induction ops generalizing x with
  | nil =>
    cases ran
    exact lined
  | cons op ops ih =>
    obtain ⟨z, stepped, rest⟩ := Option.bind_eq_some_iff.mp ran
    exact ih (lined.step stepped) rest

/-- The cursor of a state that a transfer has left is drawn where it is, or not at all. -/
def Settled (x : Traced) : Prop :=
  x.console.cursorDrawnAt = if x.console.cursorVisible then some x.console.grid.cursor else none

theorem Held.line_iff (held : x.Held) {column row : Nat}
    (drawn : x.console.cursorDrawnAt = some (column, row))
    (inside : column < x.console.grid.columns) :
    (∀ i j, Term.OnLine column row i j →
      x.console.back.readPixelRaw i j = some (x.console.ink Console.cursorColor)) ↔
      x.lost = false := by
  constructor
  · intro line
    have corner : Term.OnLine column row (8 * column) (16 * row + 14) := by
      unfold Term.OnLine Raster.Within
      omega
    obtain ⟨pixel, shown, iff⟩ := held column row drawn inside _ _ corner
    have same : pixel = x.console.ink Console.cursorColor :=
      Option.some.inj (shown.symm.trans (line _ _ corner))
    rw [← Bool.not_eq_true, iff, same]
    exact fun differs => differs rfl
  · intro kept i j line
    obtain ⟨pixel, shown, iff⟩ := held column row drawn inside i j line
    rw [kept] at iff
    by_contra differs
    have lost : pixel ≠ x.console.ink Console.cursorColor := by
      intro same
      rw [same] at shown
      exact differs shown
    cases iff.mpr lost

theorem Held.underlined_iff_stale (held : x.Held) (settled : x.Settled) : x.Underlined ↔
    ¬ (x.console.cursorVisible = true ∧
      x.console.grid.cursorColumn < x.console.grid.columns ∧ x.lost = true) := by
  constructor
  · intro underlined lost
    obtain ⟨visible, inside, lost⟩ := lost
    have drawn := settled.trans (if_pos visible)
    have kept := (held.line_iff drawn inside).mp (underlined visible inside)
    rw [kept] at lost
    cases lost
  · intro kept visible inside
    have drawn := settled.trans (if_pos visible)
    apply (held.line_iff drawn inside).mpr
    rw [← Bool.not_eq_true]
    exact fun lost => kept ⟨visible, inside, lost⟩

theorem Lined.onlyCursor (lined : x.Lined) (settled : x.Settled)
    (quiet : x.console.repaintRequested = false) : x.OnlyCursor := by
  intro i j inside _ mark
  obtain ⟨column, row, place, line⟩ := lined.clean quiet i j inside mark
  have here := settled.symm.trans place
  cases visible : x.console.cursorVisible with
  | false =>
    rw [visible] at here
    cases here
  | true =>
    rw [visible] at here
    cases here
    exact ⟨rfl, line⟩

theorem flush_settled (operated : x.console.Operated .flush y.console) : y.Settled := by
  have term : x.console.term.refresh = y.console.term := Option.some.inj operated.term
  have place := Term.refresh_drawnAt x.console.term
  rw [← Term.refresh_cursorVisible, term] at place
  exact place

theorem misses_iff (operated : x.console.Operated .flush y.console)
    (lost : y.lost = x.lostAfter .flush) : x.misses = true ↔
      y.console.cursorVisible = true ∧
        y.console.grid.cursorColumn < y.console.grid.columns ∧ y.lost = true := by
  have term : x.console.term.refresh = y.console.term := Option.some.inj operated.term
  unfold misses
  rw [lost, lostAfter]
  cases stays : x.console.term.stays with
  | false => simp
  | true =>
    rw [(Term.refresh_of_stays (P := Paint.marks) (p := x.marks) stays).1] at term
    have visible : y.console.cursorVisible = true := by
      have both := (Term.stays_iff.mp stays).1
      rw [term] at both
      exact both
    have grid : x.console.grid.view = y.console.grid.view := congrArg Term.grid term
    have column : x.console.grid.cursorColumn = y.console.grid.cursorColumn :=
      congrArg Grid.column grid
    have columns : x.console.grid.columns = y.console.grid.columns := congrArg Grid.columns grid
    simp [visible, column, columns]

/-- After a transfer there is no line but that of the cursor, and that one is there unless the
transfer missed that an erase has painted over it. -/
theorem Lined.after_flush (lined : x.Lined) (stepped : x.step .flush = some y) :
    y.OnlyCursor ∧ (y.Underlined ↔ x.misses = false) := by
  have after := lined.flush stepped
  obtain ⟨-, operated, -, lost⟩ := step_cases stepped lined.sound
  have settled := flush_settled operated
  constructor
  · exact after.onlyCursor settled operated.requested
  · rw [after.held.underlined_iff_stale settled, ← misses_iff operated lost, Bool.not_eq_true]

theorem step_of {s : Console} (fore : op.fromForeground = true)
    (done : x.console.perform op = some (.ok s)) : ∃ y, x.step op = some y ∧ y.console = s := by
  apply Exists.intro
  apply And.intro
  · unfold step
    rw [if_pos fore, done]
  · rfl

theorem run_append (x : Traced) (first second : List TextOp) :
    x.run (first ++ second) = (x.run first).bind fun y => y.run second := by
  induction first generalizing x with
  | nil => rfl
  | cons op ops ih =>
    change (x.step op).bind (fun y => y.run (ops ++ second)) =
      ((x.step op).bind fun y => y.run ops).bind _
    cases x.step op with
    | none => rfl
    | some y => exact ih y

theorem run_one (stepped : x.step op = some y) : x.run [op] = some y := by
  change (x.step op).bind _ = _
  rw [stepped]
  rfl

theorem putStr_run {t : Console} (cs : List Char) (printed : x.console.putStr cs = some t) :
    ∃ y, x.run (cs.map .putChar) = some y ∧ y.console = t := by
  induction cs generalizing x with
  | nil =>
    cases printed
    exact ⟨x, rfl, rfl⟩
  | cons c cs ih =>
    obtain ⟨s, first, rest⟩ := Option.bind_eq_some_iff.mp printed
    have done : x.console.perform (.putChar c) = some (.ok s) := by
      change (x.console.putChar c).map Except.ok = _
      rw [first]
      rfl
    obtain ⟨y, stepped, rfl⟩ := step_of rfl done
    obtain ⟨z, ran, same⟩ := ih rest
    refine ⟨z, ?_, same⟩
    rw [List.map_cons, ← List.singleton_append, run_append, run_one stepped]
    exact ran

theorem flushPending_run {f g : Foreground} (shown : f.flushPendingToScreen = some g)
    (same : x.console = f.console) : ∃ ops y, x.run ops = some y ∧ y.console = g.console := by
  unfold Foreground.flushPendingToScreen at shown
  split at shown
  · cases shown
    exact ⟨[], x, rfl, same⟩
  · obtain ⟨s, printed, shown⟩ := Option.bind_eq_some_iff.mp shown
    obtain ⟨y, ran, rfl⟩ := putStr_run _ (same ▸ printed)
    dsimp only at shown
    split at shown
    · cases shown
      exact ⟨_, y, ran, rfl⟩
    · obtain ⟨t, ended, shown⟩ := Option.bind_eq_some_iff.mp shown
      cases shown
      have done : y.console.perform (.putChar '\n') = some (.ok t) := by
        change (y.console.putChar '\n').map Except.ok = _
        rw [ended]
        rfl
      obtain ⟨z, stepped, rfl⟩ := step_of rfl done
      have both := run_append x ((f.pending.map fun byte => Char.ofNat byte.toNat).map .putChar)
        [.putChar '\n']
      rw [ran] at both
      exact ⟨_, z, both.trans (run_one stepped), rfl⟩

theorem act_run {f g : Foreground} {action : AnsiAction} (acted : f.act action = some g)
    (same : x.console = f.console) : ∃ ops y, x.run ops = some y ∧ y.console = g.console := by
  have one : ∀ (op : TextOp) {s : Console}, op.fromForeground = true →
      f.console.perform op = some (.ok s) → ∃ ops y, x.run ops = some y ∧ y.console = s := by
    intro op s fore done
    obtain ⟨y, stepped, console⟩ := step_of fore (same ▸ done)
    exact ⟨[op], y, run_one stepped, console⟩
  have mapped : ∀ (op : TextOp) {r : Option Console}, op.fromForeground = true →
      f.console.perform op = r.map .ok → (r.bind fun console => some { f with console }) = some g →
      ∃ ops y, x.run ops = some y ∧ y.console = g.console := by
    intro op r fore done acted
    obtain ⟨s, rfl, acted⟩ := Option.bind_eq_some_iff.mp acted
    cases acted
    exact one op fore done
  cases action with
  | print c => exact mapped (.putChar c) rfl rfl acted
  | eraseDisplay scope => exact mapped (.eraseInDisplay scope) rfl rfl acted
  | eraseLine scope => exact mapped (.eraseInLine scope) rfl rfl acted
  | insertLines count => exact mapped (.insertLines count) rfl rfl acted
  | deleteLines count => exact mapped (.deleteLines count) rfl rfl acted
  | setGraphics graphics =>
    cases acted
    exact one (.setGraphics graphics) rfl rfl
  | showCursor visible =>
    cases acted
    exact one (.showCursor visible) rfl rfl
  | cursorTo row col =>
    obtain ⟨column, _, acted⟩ := Option.bind_eq_some_iff.mp acted
    obtain ⟨row, _, acted⟩ := Option.bind_eq_some_iff.mp acted
    cases acted
    exact one (.cursorToCell column row) rfl rfl
  | alternateScreen alternate =>
    obtain ⟨s, swapped, acted⟩ := Option.bind_eq_some_iff.mp acted
    have done : x.console.perform (.setAlternateScreen alternate) = some (.ok s) := by
      change (x.console.setAlternateScreen alternate).map Except.ok = _
      rw [same, swapped]
      rfl
    obtain ⟨y, stepped, console⟩ := step_of rfl done
    split at acted
    · cases acted
      exact ⟨_, y, run_one stepped, console⟩
    · obtain ⟨ops, z, ran, shown⟩ := flushPending_run acted console
      refine ⟨.setAlternateScreen alternate :: ops, z, ?_, shown⟩
      rw [← List.singleton_append, run_append, run_one stepped]
      exact ran

section Starts

variable {front : Framebuffer} {base : Kernel.Paging.Word} {pixels : List UInt32}
  {foreground background : Rgb} {cells alternateCells : List Cell} {console : Console}

theorem start_lined (memory : front.Sound)
    (size : pixels.length = front.layout.sizeBytes / bytesPerPixel)
    (new : Console.new front base pixels foreground background cells alternateCells =
      some (.ok (.ok console))) : (start console).Lined := by
  obtain ⟨made, same, sound, -, quiet, layout, shows, -⟩ := Console.new_total memory size new
  cases same
  have first : console.term = (Term.start (front.layout.width / 8) (front.layout.height / 16)
      foreground background).refresh := by
    have term := congrArg Display.term shows
    rw [Display.refresh_term] at term
    exact term
  generalize cleared : Term.start (front.layout.width / 8) (front.layout.height / 16)
    foreground background = t at first
  have undrawn : t.drawnAt = none := by
    rw [← cleared]
    rfl
  have moved : t.stays = false := by
    rw [← Bool.not_eq_true, Term.stays_iff, undrawn]
    simp
  have placed : t.Placed := by
    intro column row drawn
    cases undrawn.symm.trans drawn
  have soundTerm : t.refresh.grid.Sound := by
    rw [← first]
    exact sound.grid.sound.view
  have picture : console.back.readPixelRaw = t.paintRefresh (Paint.pixels console.ink)
      (Raster.plain front.layout.width front.layout.height (console.ink background)) := by
    have pixels := congrArg Display.picture shows
    rw [Display.refresh_picture] at pixels
    rw [← cleared]
    exact pixels
  have marks : (start console).marks = t.paintRefresh Paint.marks
      (Raster.plain front.layout.width front.layout.height false) := by
    have fg : console.foreground = foreground := by
      have same := congrArg Term.foreground first
      rw [← cleared] at same
      exact same
    have bg : console.background = background := by
      have same := congrArg Term.background first
      rw [← cleared] at same
      exact same
    unfold start
    dsimp only
    rw [fg, bg, layout]
    dsimp only
    rw [cleared]
    rfl
  have plain : t.Clean (Raster.plain front.layout.width front.layout.height false) := by
    intro i j _ mark
    unfold Raster.plain at mark
    split at mark <;> cases mark
  refine ⟨sound, ?_, ?_, ?_, ?_⟩
  · change console.term.Placed
    rw [first]
    exact Term.refresh_placed soundTerm
  · intro column row drawn inside i j line
    change console.term.drawnAt = _ at drawn
    have place : t.refresh.drawnAt = some (column, row) := by
      rw [← first]
      exact drawn
    have below : row < console.grid.rows := by
      have bounds := Term.refresh_placed soundTerm column row place
      rw [← first] at bounds
      exact bounds.2
    have there := line_isSome sound inside below line
    have sized := (sound.back.sized i j).mp there
    rw [layout] at sized
    have point := Term.refresh_onLine (P := Paint.pixels console.ink) moved place line
      ((Raster.plain_sized front.layout.width front.layout.height (console.ink background) i j).mpr
        sized)
    refine ⟨console.ink Console.cursorColor, ?_, ?_⟩
    · change console.back.readPixelRaw i j = _
      rw [picture]
      exact point
    · simp [start]
  · intro _
    change console.term.Clean _
    rw [marks, first]
    exact plain.refresh placed
  · intro requested
    cases quiet.symm.trans requested

/-- From a new console on, whatever the foreground does to it: after a transfer the line of a
cursor that is shown in the grid is in its place and no other cell has one, if and only if the
transfer did not miss an erase over the line where it was still drawn. -/
theorem underlined_iff (memory : front.Sound)
    (size : pixels.length = front.layout.sizeBytes / bytesPerPixel)
    (new : Console.new front base pixels foreground background cells alternateCells =
      some (.ok (.ok console))) {ops : List TextOp} (ran : (start console).run ops = some x)
    (flushed : x.step .flush = some y) : y.Underlined ∧ y.OnlyCursor ↔ x.misses = false := by
  have lined := (start_lined memory size new).run ran
  obtain ⟨only, iff⟩ := lined.after_flush flushed
  rw [iff]
  exact and_iff_left only

end Starts

theorem step_isSome (sound : x.console.Sound) (fore : op.fromForeground = true) {t : Term}
    (allowed : x.console.term.operate op = some t) :
    ∃ y, x.step op = some y ∧ y.console.Sound ∧ y.console.term = t ∧ y.lost = x.lostAfter op := by
  obtain ⟨console, done, operated, term⟩ := Console.perform_isSome sound allowed
  let y : Traced :=
    { console
      marks := x.console.term.paint Paint.marks x.console.repaintRequested x.marks op
      lost := x.lostAfter op }
  have stepped : x.step op = some y := by
    unfold step
    rw [if_pos fore, done]
  exact ⟨y, stepped, operated.sound, term, rfl⟩

theorem underlined_iff_sixteen : ∃ console x y,
    Small.new 16 (by decide) (by decide) = some (.ok (.ok console)) ∧
    (start console).run [.putChar 'a', .flush, .eraseInLine .before] = some x ∧
    x.step .flush = some y ∧ (y.Underlined ∧ y.OnlyCursor ↔ x.misses = false) := by
  obtain ⟨made, new⟩ := Small.new_sixteen
  obtain ⟨console, rfl, sound, -, -, -, shows, -⟩ :=
    Console.new_total (Small.memory 16 _ _) (Small.pixels_length 16 _ _) new
  have term : console.term = (Term.start 2 1 Small.white Small.black).refresh := by
    have same := congrArg Display.term shows
    rw [Display.refresh_term] at same
    exact same
  have allowed : ((console.term.operate (.putChar 'a')).bind fun t => (t.operate .flush).bind
      fun t => t.operate (.eraseInLine .before)).isSome = true := by
    rw [term]
    decide
  obtain ⟨t₃, allowed⟩ := Option.isSome_iff_exists.mp allowed
  obtain ⟨t₁, first, allowed⟩ := Option.bind_eq_some_iff.mp allowed
  obtain ⟨t₂, second, third⟩ := Option.bind_eq_some_iff.mp allowed
  obtain ⟨x₁, step₁, sound₁, rfl, -⟩ := @step_isSome (start console) _ sound rfl _ first
  obtain ⟨x₂, step₂, sound₂, rfl, -⟩ := step_isSome sound₁ rfl second
  obtain ⟨x₃, step₃, sound₃, -, -⟩ := step_isSome sound₂ rfl third
  obtain ⟨y, flushed, -, -, -⟩ := @step_isSome _ .flush sound₃ rfl _ rfl
  have ran : (start console).run [.putChar 'a', .flush, .eraseInLine .before] = some x₃ := by
    unfold run run run run
    rw [step₁]
    change (x₁.step .flush).bind _ = _
    rw [step₂]
    change (x₂.step (.eraseInLine .before)).bind _ = _
    rw [step₃]
    rfl
  exact ⟨console, x₃, y, new, ran, flushed,
    underlined_iff (Small.memory 16 _ _) (Small.pixels_length 16 _ _) new ran flushed⟩

/-- The cursor of a new console is erased with its line, and the transfer does not draw it. -/
theorem cursor_erased : ¬ ∀ (front : Framebuffer), front.Sound →
    ∀ (base : Kernel.Paging.Word) (pixels : List UInt32),
      pixels.length = front.layout.sizeBytes / bytesPerPixel →
    ∀ (foreground background : Rgb) (cells alternateCells : List Cell) (console : Console),
      Console.new front base pixels foreground background cells alternateCells =
        some (.ok (.ok console)) →
    ∀ ops x y, (start console).run ops = some x → x.step .flush = some y →
      y.Underlined ∧ y.OnlyCursor := by
  intro claim
  obtain ⟨made, new⟩ := Small.new_sixteen
  obtain ⟨console, rfl, sound, -, -, layout, shows, -⟩ :=
    Console.new_total (Small.memory 16 _ _) (Small.pixels_length 16 _ _) new
  have lined := start_lined (Small.memory 16 _ _) (Small.pixels_length 16 _ _) new
  have term : console.term = (Term.start 2 1 Small.white Small.black).refresh := by
    have same := congrArg Display.term shows
    rw [Display.refresh_term] at same
    exact same
  obtain ⟨x, erased, soundX, after, lost⟩ :=
    @step_isSome (start console) (.eraseInLine .after) sound rfl _ rfl
  obtain ⟨y, flushed, -, -, -⟩ := @step_isSome _ .flush soundX rfl _ rfl
  have ran : (start console).run [.eraseInLine .after] = some x := by
    unfold run run
    rw [erased]
    rfl
  have line := claim _ (Small.memory 16 _ _) _ _ (Small.pixels_length 16 _ _) _ _ _ _ console new
    [.eraseInLine .after] x y ran flushed
  have found := ((lined.run ran).after_flush flushed).2.mp line.1
  have gone : x.lost = true := by
    have drawn : (start console).console.cursorDrawnAt = some (0, 0) := congrArg Term.drawnAt term
    have covered : (start console).console.term.covers 0 0 (.eraseInLine .after) = true := by
      change console.term.covers 0 0 _ = true
      rw [term]
      decide
    have background : (start console).console.background = Small.black :=
      congrArg Term.background term
    have ink : (start console).console.ink =
        Framebuffer.pixelOf (Small.front 16 (by decide) (by decide)).layout := by
      change console.ink = _
      unfold Console.ink
      rw [layout]
      rfl
    rw [lost, lostAfter_drawn _ TextOp.noConfusion drawn, if_pos covered, background, ink]
    decide
  have kept : (x.console.term.stays && decide (x.console.term.grid.column <
      x.console.term.grid.columns)) = true := by
    have erase : x.console.term = console.term.eraseCells console.term.grid.row
        console.term.grid.column console.term.grid.columns := after
    rw [erase, term]
    decide
  have missed : x.misses = true := by
    unfold misses
    rw [gone, Bool.and_true]
    exact kept
  rw [missed] at found
  cases found

end Traced

end Zaytos.Terminal
