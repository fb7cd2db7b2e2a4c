import Zaytos.Terminal.Columns

set_option autoImplicit false

/-! What a transfer between two bytes does to the terminal: the cursor is drawn by it and erased by
the next character, which puts a cursor that stands past the last column back onto it. -/
namespace Zaytos.Terminal

/-- A character that goes to the same place from the last column and from past it. -/
def endsLine (c : Char) : Bool := c == '\n' || c == '\r' || c == '\t'

variable {c : Char} {action : AnsiAction} {t' : Tty}

namespace Grid

theorem Sound.advance_clamped {g : Grid} (sound : g.Sound) (ends : endsLine c = true)
    (width : Nat) : (g.setCursor g.column g.row).advance c width = g.advance c width := by
  have wide := sound.wide
  have column := sound.column
  have row := sound.row
  have sameRow : min g.row (g.rows - 1) = g.row := by omega
  have lines : (g.setCursor g.column g.row).breakLine = g.breakLine := by
    unfold Grid.breakLine Grid.setCursor
    simp only [sameRow]
  have tabs : (g.setCursor g.column g.row).tab = g.tab := by
    unfold Grid.tab
    rw [lines]
    by_cases past : g.column = g.columns
    · have first : g.columns ≤ (min g.column (g.columns - 1) / tabWidth + 1) * tabWidth := by
        unfold tabWidth
        omega
      have second : g.columns ≤ (g.column / tabWidth + 1) * tabWidth := by
        unfold tabWidth
        omega
      have first' : (g.setCursor g.column g.row).columns ≤
          ((g.setCursor g.column g.row).column / tabWidth + 1) * tabWidth := first
      dsimp only
      rw [if_pos first', if_pos second]
    · have same : g.setCursor g.column g.row = g := by
        unfold Grid.setCursor
        rw [sameRow, show min g.column (g.columns - 1) = g.column by omega]
      rw [same]
  unfold endsLine at ends
  unfold Grid.advance
  by_cases newline : c = '\n'
  · rw [if_pos newline, if_pos newline, lines]
  rw [if_neg newline, if_neg newline]
  by_cases home : c = '\r'
  · rw [if_pos home, if_pos home]
    unfold Grid.setCursor
    simp only [sameRow]
  rw [if_neg home, if_neg home]
  by_cases tab : c = '\t'
  · rw [if_pos tab, if_pos tab, tabs]
  · simp [newline, home, tab] at ends

end Grid

namespace Term

variable {t : Term}

def hidden (t : Term) : Term := { t with drawnAt := none }

/-- The cursor is drawn and stands past the last column, where it does not stay when it is erased. -/
def pastEnd (t : Term) : Bool := t.drawnAt.isSome && t.grid.column == t.grid.columns

theorem eraseDrawn_eq (sound : t.Sound) (inside : t.pastEnd = false) : t.eraseDrawn = t.hidden := by
  have column := sound.grid.column
  have row := sound.grid.row
  rcases t with ⟨grid, other, fg, bg, defaultFg, defaultBg, visible, drawnAt, alternate⟩
  cases drawnAt with
  | none => rfl
  | some place =>
    have before : ¬ grid.column = grid.columns := by simpa [pastEnd] using inside
    dsimp only at column row
    unfold eraseDrawn hidden Grid.setCursor
    dsimp only
    rw [show min grid.column (grid.columns - 1) = grid.column by omega,
      show min grid.row (grid.rows - 1) = grid.row by omega]

theorem hidden_eraseDrawn (t : Term) : t.hidden.eraseDrawn = t.hidden := rfl

theorem putChar_hidden (sound : t.Sound)
    (keeps : t.pastEnd = true → endsLine c = true) : t.putChar c = t.hidden.putChar c := by
  cases past : t.pastEnd with
  | false =>
    unfold putChar
    rw [eraseDrawn_eq sound past, hidden_eraseDrawn]
  | true =>
    have drawn : ∃ place, t.drawnAt = some place := by
      unfold pastEnd at past
      rw [Bool.and_eq_true] at past
      exact Option.isSome_iff_exists.mp past.1
    obtain ⟨place, drawn⟩ := drawn
    unfold putChar
    rw [hidden_eraseDrawn]
    have erased : t.eraseDrawn =
        { t.hidden with grid := t.grid.setCursor t.grid.column t.grid.row } := by
      unfold eraseDrawn
      rw [drawn]
      rfl
    rw [erased]
    dsimp only
    rw [sound.grid.advance_clamped (keeps past)]
    rfl

theorem putStr_hidden (sound : t.Sound) (cs : List Char)
    (keeps : t.pastEnd = true → endsLine c = true) :
    t.putStr (c :: cs) = t.hidden.putStr (c :: cs) := by
  unfold putStr
  rw [List.foldl_cons, List.foldl_cons, putChar_hidden sound keeps]

theorem eraseDrawn_drawnAt (t : Term) : t.eraseDrawn.drawnAt = none := by
  rcases t with ⟨grid, other, fg, bg, defaultFg, defaultBg, visible, drawnAt, alternate⟩
  cases drawnAt <;> rfl

theorem settle_drawnAt (t : Term) (c : Char) (step : Step) :
    (t.settle c step).drawnAt = t.drawnAt := by
  rcases step with ⟨drawAt, scrolled, clearRow⟩
  cases drawAt <;> cases scrolled <;> cases clearRow <;> rfl

theorem putChar_drawnAt (t : Term) (c : Char) : (t.putChar c).drawnAt = none := by
  unfold putChar
  apply (settle_drawnAt _ c _).trans
  exact eraseDrawn_drawnAt t

theorem putStr_drawnAt (t : Term) {cs : List Char} (some : cs ≠ []) :
    (t.putStr cs).drawnAt = none := by
  induction cs generalizing t with
  | nil => exact absurd rfl some
  | cons c cs ih =>
    cases cs with
    | nil => exact putChar_drawnAt t c
    | cons next cs => exact ih (t.putChar c) (by simp)

theorem refresh_hidden (sound : t.Sound)
    (keeps : t.pastEnd = true →
      t.cursorVisible = true ∧ t.drawnAt = some (t.grid.column, t.grid.row)) :
    t.refresh.hidden = t.hidden := by
  unfold refresh
  by_cases stays : t.cursorVisible = true ∧ t.drawnAt = some (t.grid.column, t.grid.row)
  · rw [if_pos stays]
  · rw [if_neg stays]
    have inside : t.pastEnd = false := by
      rw [← Bool.not_eq_true]
      exact fun past => stays (keeps past)
    dsimp only
    rw [eraseDrawn_eq sound inside]
    split <;> rfl

end Term

namespace Tty

variable {t : Tty}

def hidden (t : Tty) : Tty := { t with term := t.term.hidden }

def prints (t : Tty) : AnsiAction → Option Char
  | .print c => some c
  | .alternateScreen false =>
    if t.term.alternate then none else t.pending.head?.map fun byte => Char.ofNat byte.toNat
  | _ => none

/-- The action erases the cursor while it stands past the last column, and leaves it in the last
column instead. -/
def loses (t : Tty) (action : AnsiAction) : Bool :=
  t.term.pastEnd && match action with
    | .insertLines _ => true
    | .deleteLines _ => true
    | _ => (t.prints action).any fun c => !endsLine c

theorem flushPending_hidden (sound : t.term.Sound) (keeps : t.term.pastEnd = true →
      ∀ byte ∈ t.pending.head?, endsLine (Char.ofNat byte.toNat) = true) :
    t.flushPending.hidden = t.hidden.flushPending.hidden := by
  unfold flushPending
  cases pending : t.pending with
  | nil =>
    have pending' : t.hidden.pending = [] := pending
    rw [if_pos rfl, if_pos pending']
    rfl
  | cons byte bytes =>
    have pending' : t.hidden.pending = byte :: bytes := pending
    have text : ∀ cs, t.term.putStr (Char.ofNat byte.toNat :: cs) =
        t.hidden.term.putStr (Char.ofNat byte.toNat :: cs) := by
      intro cs
      apply Term.putStr_hidden sound
      intro past
      exact keeps past byte (by rw [pending]; rfl)
    rw [pending', if_neg (by simp), if_neg (by simp)]
    by_cases ended : (byte :: bytes).getLast? = some 0x0A
    · dsimp only
      rw [if_pos ended, List.map_cons, text]
      rfl
    · dsimp only
      rw [if_neg ended, List.map_cons, List.cons_append, text]
      rfl

theorem hidden_bind {o o' : Option Term} (same : o.map Term.hidden = o'.map Term.hidden) :
    (o.bind fun term => some { t with term }).map hidden =
      (o'.bind fun term => some { t.hidden with term }).map hidden := by
  cases o with
  | none =>
    cases o' with
    | none => rfl
    | some term => cases same
  | some term =>
    cases o' with
    | none => cases same
    | some term' =>
      have eq : term.hidden = term'.hidden := Option.some.inj same
      simp only [Option.bind_some, Option.map_some, hidden, eq]

theorem setAlternateScreen_hidden (t : Term) (alternate : Bool) :
    (t.setAlternateScreen alternate).hidden = (t.hidden.setAlternateScreen alternate).hidden := by
  unfold Term.setAlternateScreen
  by_cases same : alternate = t.alternate
  · rw [if_pos same, if_pos (show alternate = t.hidden.alternate from same)]
    rfl
  · rw [if_neg same, if_neg (show ¬ alternate = t.hidden.alternate from same)]
    rfl

theorem setAlternateScreen_drawnAt (t : Term) (alternate : Bool) :
    (t.setAlternateScreen alternate).drawnAt =
      if alternate = t.alternate then t.drawnAt else none := by
  unfold Term.setAlternateScreen
  by_cases same : alternate = t.alternate
  · rw [if_pos same, if_pos same]
  · rw [if_neg same, if_neg same]
    cases alternate <;> rfl

theorem setAlternateScreen_pastEnd {t : Term} {alternate : Bool}
    (other : ¬ alternate = t.alternate) : (t.setAlternateScreen alternate).pastEnd = false := by
  unfold Term.pastEnd
  rw [setAlternateScreen_drawnAt, if_neg other]
  rfl

theorem setAlternateScreen_hidden_pastEnd (t : Term) (alternate : Bool) :
    (t.hidden.setAlternateScreen alternate).pastEnd = false := by
  by_cases same : alternate = t.alternate
  · have term : t.hidden.setAlternateScreen alternate = t.hidden := if_pos same
    rw [term]
    rfl
  · exact setAlternateScreen_pastEnd same

theorem setAlternateScreen_sound {t : Term} (sound : t.Sound) (alternate : Bool) :
    (t.setAlternateScreen alternate).Sound := by
  unfold Term.setAlternateScreen
  by_cases same : alternate = t.alternate
  · rw [if_pos same]
    exact sound
  · rw [if_neg same]
    cases alternate with
    | true => exact ⟨sound.other.reset t.background, sound.grid⟩
    | false => exact ⟨sound.other, sound.grid⟩

theorem eraseBefore_hidden (t : Term) :
    t.eraseBefore.map Term.hidden = t.hidden.eraseBefore.map Term.hidden := by
  unfold Term.eraseBefore
  by_cases small : 8 * (t.grid.column + 1) < 2 ^ 32
  · rw [if_pos small, if_pos (show 8 * (t.hidden.grid.column + 1) < 2 ^ 32 from small)]
    rfl
  · rw [if_neg small, if_neg (show ¬ 8 * (t.hidden.grid.column + 1) < 2 ^ 32 from small)]

theorem act_hidden (sound : t.term.Sound) (keeps : t.loses action = false) :
    (t.act action).map hidden = (t.hidden.act action).map hidden := by
  unfold loses at keeps
  have erased : t.term.pastEnd = false → t.term.eraseDrawn = t.term.hidden :=
    Term.eraseDrawn_eq sound
  cases action with
  | print c =>
    have same : t.term.putChar c = t.term.hidden.putChar c := by
      apply Term.putChar_hidden sound
      intro past
      have kept : (!endsLine c) = false := by
        rw [past] at keeps
        exact keeps
      simpa using kept
    exact congrArg (fun term => some ({ t with term } : Tty).hidden) same
  | cursorTo row col => rfl
  | eraseDisplay scope =>
    apply hidden_bind
    cases scope with
    | after => rfl
    | before => exact eraseBefore_hidden (t.term.eraseRows 0 t.term.grid.row)
    | all => rfl
  | eraseLine scope =>
    apply hidden_bind
    cases scope with
    | after => rfl
    | before => exact eraseBefore_hidden t.term
    | all => rfl
  | insertLines count =>
    rw [Bool.and_true] at keeps
    apply hidden_bind
    unfold Term.insertLines
    dsimp only [hidden]
    rw [erased keeps, Term.hidden_eraseDrawn]
    rfl
  | deleteLines count =>
    rw [Bool.and_true] at keeps
    apply hidden_bind
    unfold Term.deleteLines
    dsimp only [hidden]
    rw [erased keeps, Term.hidden_eraseDrawn]
    rfl
  | setGraphics graphics =>
    have same : (t.term.setGraphics graphics).hidden = (t.hidden.term.setGraphics graphics).hidden := by
      rcases graphics with ⟨reset, foreground, background⟩
      cases reset <;> rfl
    exact congrArg (fun term => some ({ t with term } : Tty)) same
  | showCursor visible => rfl
  | alternateScreen alternate =>
    have swapped : ({ t with term := t.term.setAlternateScreen alternate } : Tty).hidden =
        ({ t.hidden with term := t.hidden.term.setAlternateScreen alternate } : Tty).hidden :=
      congrArg (fun term => ({ t with term } : Tty)) (setAlternateScreen_hidden t.term alternate)
    cases alternate with
    | true => exact congrArg some swapped
    | false =>
      have bare := setAlternateScreen_hidden_pastEnd t.term false
      have first : ({ t with term := t.term.setAlternateScreen false } : Tty).flushPending.hidden =
          ({ t with term := t.term.setAlternateScreen false } : Tty).hidden.flushPending.hidden := by
        apply flushPending_hidden (setAlternateScreen_sound sound false)
        intro past byte mem
        have same : t.term.alternate = false := by
          rw [← Bool.not_eq_true]
          intro other
          rw [setAlternateScreen_pastEnd (by simp [other])] at past
          cases past
        have term : t.term.setAlternateScreen false = t.term := if_pos same.symm
        rw [term] at past
        rw [past, Bool.true_and] at keeps
        dsimp only [prints] at keeps mem
        rw [same, Option.mem_def.mp mem] at keeps
        simpa using keeps
      have second : ({ t.hidden with term := t.hidden.term.setAlternateScreen false } :
            Tty).flushPending.hidden =
          ({ t.hidden with term := t.hidden.term.setAlternateScreen false } :
            Tty).hidden.flushPending.hidden := by
        apply flushPending_hidden
          (setAlternateScreen_sound (t := t.term.hidden) ⟨sound.grid, sound.other⟩ false)
        intro past
        have bare' : (t.hidden.term.setAlternateScreen false).pastEnd = false := bare
        rw [bare'] at past
        cases past
      exact congrArg some (first.trans ((congrArg (fun t => t.flushPending.hidden) swapped).trans
        second.symm))

def erases (t : Tty) : AnsiAction → Bool
  | .print _ => true
  | .insertLines _ => true
  | .deleteLines _ => true
  | .alternateScreen alternate => alternate != t.term.alternate || (!alternate && t.pending != [])
  | _ => false

theorem flushPending_drawnAt (t : Tty) : t.flushPending.term.drawnAt =
    if t.pending = [] then t.term.drawnAt else none := by
  unfold flushPending
  by_cases empty : t.pending = []
  · rw [if_pos empty, if_pos empty]
  · rw [if_neg empty, if_neg empty]
    apply Term.putStr_drawnAt
    by_cases ended : t.pending.getLast? = some 0x0A
    · rw [if_pos ended]
      simpa using empty
    · rw [if_neg ended]
      simp

theorem act_drawnAt (acted : t.act action = some t') :
    t'.term.drawnAt = if t.erases action then none else t.term.drawnAt := by
  have bound : ∀ {o : Option Term} {place : Option (Nat × Nat)},
      (o.bind fun term => some { t with term }) = some t' →
      (∀ term, o = some term → term.drawnAt = place) → t'.term.drawnAt = place := by
    intro o place same drawn
    cases o with
    | none => cases same
    | some term =>
      cases same
      exact drawn term rfl
  have before : ∀ u : Term, ∀ term, u.eraseBefore = some term → term.drawnAt = u.drawnAt := by
    intro u term erased
    unfold Term.eraseBefore at erased
    split at erased <;> cases erased
    rfl
  cases action with
  | print c =>
    cases acted
    exact Term.putChar_drawnAt t.term c
  | cursorTo row col =>
    cases acted
    rfl
  | eraseDisplay scope =>
    apply bound acted
    intro term erased
    cases scope with
    | before => exact before (t.term.eraseRows 0 t.term.grid.row) term erased
    | after =>
      cases erased
      rfl
    | all =>
      cases erased
      rfl
  | eraseLine scope =>
    apply bound acted
    intro term erased
    cases scope with
    | before => exact before t.term term erased
    | after =>
      cases erased
      rfl
    | all =>
      cases erased
      rfl
  | insertLines count =>
    apply bound acted
    intro term inserted
    unfold Term.insertLines at inserted
    split at inserted <;> cases inserted
    exact t.term.eraseDrawn_drawnAt
  | deleteLines count =>
    apply bound acted
    intro term deleted
    unfold Term.deleteLines at deleted
    split at deleted <;> cases deleted
    exact t.term.eraseDrawn_drawnAt
  | setGraphics graphics =>
    cases acted
    rcases graphics with ⟨reset, foreground, background⟩
    cases reset <;> rfl
  | showCursor visible =>
    cases acted
    rfl
  | alternateScreen alternate =>
    cases acted
    have switched := setAlternateScreen_drawnAt t.term alternate
    cases alternate with
    | true =>
      apply switched.trans
      cases alt : t.term.alternate <;> simp [erases, alt]
    | false =>
      apply (flushPending_drawnAt _).trans
      dsimp only
      rw [switched]
      by_cases empty : t.pending = []
      · cases alt : t.term.alternate <;> simp [erases, alt, empty]
      · simp [erases, empty]

theorem act_pastEnd (sound : t.term.Sound)
    (acted : t.act action = some t') (past : t'.term.pastEnd = true) :
    t.term.pastEnd = true ∧ t.erases action = false := by
  have drawn := act_drawnAt acted
  have kept : t.erases action = false := by
    rw [← Bool.not_eq_true]
    intro erased
    rw [if_pos erased] at drawn
    unfold Term.pastEnd at past
    rw [drawn] at past
    cases past
  refine ⟨?_, kept⟩
  rw [kept] at drawn
  have wide := sound.grid.wide
  -- what is left are the actions that do not erase the cursor, and few of them move it
  have stays : t'.term.grid.column = t'.term.grid.columns →
      t.term.grid.column = t.term.grid.columns := by
    have bound : ∀ {o : Option Term}, (o.bind fun term => some { t with term }) = some t' →
        (∀ term, o = some term → term.grid.column = term.grid.columns →
          t.term.grid.column = t.term.grid.columns) →
        t'.term.grid.column = t'.term.grid.columns →
        t.term.grid.column = t.term.grid.columns := by
      intro o same holds
      cases o with
      | none => cases same
      | some term =>
        cases same
        exact holds term rfl
    have before : ∀ u : Term, ∀ term, u.eraseBefore = some term →
        term.grid.column = term.grid.columns → u.grid.column = u.grid.columns := by
      intro u term erased
      unfold Term.eraseBefore at erased
      split at erased <;> cases erased
      exact id
    have placed : ∀ (g : Grid) (row column : Nat), 2 ≤ g.columns →
        ¬ (g.setCursor column row).column = (g.setCursor column row).columns := by
      intro g row column wide
      unfold Grid.setCursor
      dsimp only
      omega
    cases action with
    | print c => cases kept
    | cursorTo row col =>
      cases acted
      intro past
      exact absurd past (placed t.term.grid _ _ wide)
    | eraseDisplay scope =>
      apply bound acted
      intro term erased
      cases scope with
      | before => exact before (t.term.eraseRows 0 t.term.grid.row) term erased
      | after =>
        cases erased
        exact id
      | all =>
        cases erased
        intro past
        exact absurd past (placed (t.term.grid.reset t.term.background) _ _ wide)
    | eraseLine scope =>
      apply bound acted
      intro term erased
      cases scope with
      | before => exact before t.term term erased
      | after =>
        cases erased
        exact id
      | all =>
        cases erased
        exact id
    | insertLines count => cases kept
    | deleteLines count => cases kept
    | setGraphics graphics =>
      cases acted
      rcases graphics with ⟨reset, foreground, background⟩
      cases reset <;> exact id
    | showCursor visible =>
      cases acted
      exact id
    | alternateScreen alternate =>
      cases acted
      have same : alternate = t.term.alternate ∧ (alternate = false → t.pending = []) := by
        simpa [erases] using kept
      have term : t.term.setAlternateScreen alternate = t.term := if_pos same.1
      rw [term]
      cases alternate with
      | true => exact id
      | false =>
        have done : t.flushPending = t := if_pos (same.2 rfl)
        simp only [Bool.false_eq_true, if_false]
        rw [done]
        exact id
  unfold Term.pastEnd at past ⊢
  rw [Bool.and_eq_true, drawn] at past
  rw [Bool.and_eq_true]
  exact ⟨past.1, beq_iff_eq.mpr (stays (beq_iff_eq.mp past.2))⟩

/-- The same terminal but for where the cursor is drawn, which is past the last column in the
second only if it is in the first. -/
structure Veiled (t u : Tty) : Prop where
  same : t.hidden = u.hidden
  past : u.term.pastEnd = true → t.term.pastEnd = true

variable {u : Tty}

theorem Veiled.loses (veiled : Veiled t u)
    (keeps : t.loses action = false) : u.loses action = false := by
  have prints : t.prints action = u.prints action := by
    have same := congrArg (fun t => t.prints action) veiled.same
    cases action <;> exact same
  unfold Tty.loses at keeps ⊢
  rw [prints] at keeps
  cases past : u.term.pastEnd with
  | false => rfl
  | true =>
    rw [veiled.past past] at keeps
    exact keeps

theorem Veiled.act (veiled : Veiled t u) (soundT : t.term.Sound) (soundU : u.term.Sound)
    (keeps : t.loses action = false) :
    Option.Rel Veiled (t.act action) (u.act action) := by
  have same : (t.act action).map hidden = (u.act action).map hidden := by
    rw [act_hidden soundT keeps, act_hidden soundU (veiled.loses keeps), veiled.same]
  cases actedT : t.act action with
  | none =>
    cases actedU : u.act action with
    | none => exact .none
    | some u' =>
      rw [actedT, actedU] at same
      cases same
  | some t' =>
    cases actedU : u.act action with
    | none =>
      rw [actedT, actedU] at same
      cases same
    | some u' =>
      rw [actedT, actedU] at same
      have alike : t'.hidden = u'.hidden := Option.some.inj same
      apply Option.Rel.some
      refine ⟨alike, ?_⟩
      intro past
      obtain ⟨before, kept⟩ := act_pastEnd soundU actedU past
      have erases : t.erases action = u.erases action := by
        have same := congrArg (fun t => t.erases action) veiled.same
        cases action <;> exact same
      have drawn := act_drawnAt actedT
      rw [erases, kept] at drawn
      have pastT := veiled.past before
      unfold Term.pastEnd at past pastT ⊢
      rw [Bool.and_eq_true] at past pastT
      have column : (t'.term.grid.column == t'.term.grid.columns) =
          (u'.term.grid.column == u'.term.grid.columns) :=
        congrArg (fun t => t.term.grid.column == t.term.grid.columns) alike
      rw [drawn, column, past.2, Bool.and_true]
      exact pastT.1

theorem Veiled.refresh (veiled : Veiled t u) (sound : t.term.Sound)
    (keeps : t.term.pastEnd = true → t.term.cursorVisible = true ∧
      t.term.drawnAt = some (t.term.grid.column, t.term.grid.row)) :
    Veiled { t with term := t.term.refresh } u := by
  refine ⟨?_, ?_⟩
  · have same := Term.refresh_hidden sound keeps
    exact (congrArg (fun term => ({ t with term } : Tty)) same).trans veiled.same
  · intro past
    have stays : t.term.refresh = t.term := if_pos (keeps (veiled.past past))
    dsimp only
    rw [stays]
    exact veiled.past past

end Tty

end Zaytos.Terminal
