import Zaytos.Terminal.Transfer

set_option autoImplicit false

/-! Everything that is done to the console while it shows text, in any order. -/
namespace Zaytos.Terminal

inductive TextOp where
  | putChar (c : Char)
  | cursorToCell (column row : Nat)
  | showCursor (visible : Bool)
  | paintCursor (visible : Bool)
  | eraseDrawnCursor
  | refreshCursor
  | setGraphics (graphics : Graphics)
  | eraseInLine (scope : EraseScope)
  | eraseInDisplay (scope : EraseScope)
  | deleteLines (count : Nat)
  | insertLines (count : Nat)
  | clear
  | setAlternateScreen (alternate : Bool)
  | repaintFromCells
  | requestRepaint
  | flush

namespace Console

def perform (s : Console) : TextOp → Option (Except FlushRangeError Console)
  | .putChar c => (s.putChar c).map .ok
  | .cursorToCell column row => some (.ok (s.cursorToCell column row))
  | .showCursor visible => some (.ok (s.showCursor visible))
  | .paintCursor visible => (s.paintCursor visible).map .ok
  | .eraseDrawnCursor => s.eraseDrawnCursor.map .ok
  | .refreshCursor => s.refreshCursor.map .ok
  | .setGraphics graphics => some (.ok (s.setGraphics graphics))
  | .eraseInLine scope => (s.eraseInLine scope).map .ok
  | .eraseInDisplay scope => (s.eraseInDisplay scope).map .ok
  | .deleteLines count => (s.deleteLines count).map .ok
  | .insertLines count => (s.insertLines count).map .ok
  | .clear => s.clear.map .ok
  | .setAlternateScreen alternate => (s.setAlternateScreen alternate).map .ok
  | .repaintFromCells => s.repaintFromCells.map .ok
  | .requestRepaint => some (.ok s.requestRepaint)
  | .flush => s.flush

/-- One operation after the other, to the first that is refused or stops the kernel. -/
def run (s : Console) : List TextOp → Option (Except FlushRangeError Console)
  | [] => some (.ok s)
  | op :: ops => do
    match ← s.perform op with
    | .error error => some (.error error)
    | .ok s => s.run ops

variable {s : Console} {r : Option Console} {d : Display}

def Proceeds (s : Console) (r : Option (Except FlushRangeError Console)) : Prop :=
  r = none ∨ ∃ t, r = some (.ok t) ∧ t.Sound ∧ (s.Accounted → t.Accounted) ∧
    t.back.layout = s.back.layout

theorem Gives.proceeds (gives : s.Gives r d) : s.Proceeds (r.map .ok) := by
  obtain ⟨t, rfl, sound, -, tracks⟩ := gives
  exact .inr ⟨t, rfl, sound, tracks.accounted, tracks.layout⟩

theorem Follows.proceeds {o : Option Display} (follows : s.Follows r o) :
    s.Proceeds (r.map .ok) := by
  cases o with
  | none =>
    have stops : r = none := follows
    rw [stops]
    exact .inl rfl
  | some d => exact Gives.proceeds follows

theorem perform_proceeds (sound : s.Sound) (op : TextOp) : s.Proceeds (s.perform op) := by
  cases op with
  | putChar c => exact (putChar_gives sound c).proceeds
  | cursorToCell column row => exact (cursorToCell_gives sound column row).proceeds
  | showCursor visible => exact (showCursor_gives sound visible).proceeds
  | paintCursor visible => exact (paintCursor_gives sound visible).proceeds
  | eraseDrawnCursor => exact (eraseDrawnCursor_gives sound).proceeds
  | refreshCursor => exact (refreshCursor_gives sound).proceeds
  | setGraphics graphics => exact (setGraphics_gives sound graphics).proceeds
  | eraseInLine scope => exact (eraseInLine_follows sound scope).proceeds
  | eraseInDisplay scope => exact (eraseInDisplay_follows sound scope).proceeds
  | deleteLines count => exact (deleteLines_follows sound count).proceeds
  | insertLines count => exact (insertLines_follows sound count).proceeds
  | clear => exact (clear_gives sound).proceeds
  | setAlternateScreen alternate => exact (setAlternateScreen_gives sound alternate).proceeds
  | repaintFromCells => exact (repaintFromCells_gives sound).proceeds
  | requestRepaint => exact .inr ⟨s.requestRepaint, rfl, { sound with }, id, rfl⟩
  | flush =>
    obtain ⟨t, flushed, done⟩ := flush_total sound
    exact .inr ⟨t, flushed, done.sound, done.accounted, done.layout⟩

theorem run_proceeds (sound : s.Sound) (ops : List TextOp) : s.Proceeds (s.run ops) := by
  induction ops generalizing s with
  | nil => exact .inr ⟨s, rfl, sound, id, rfl⟩
  | cons op ops ih =>
    unfold run
    rcases perform_proceeds sound op with stops | ⟨t, performed, soundT, accountedT, layout⟩
    · rw [stops]
      exact .inl rfl
    · rw [performed]
      rcases ih soundT with stops | ⟨u, rest, soundU, accountedU, layoutU⟩
      · exact .inl stops
      · exact .inr ⟨u, rest, soundU, accountedU ∘ accountedT, layoutU.trans layout⟩

/-- Whatever is done to the console, every visible pixel in which the screen differs from the
surface is in the rectangle to be transferred; a transfer is never refused, and after it the two
are the same. -/
theorem changes_reach_screen {info : FramebufferInfo} {physToVirt : Nat → Kernel.Paging.Word}
    {width_lt : info.width < 2 ^ 32} {height_lt : info.height < 2 ^ 32}
    {size_lt : info.sizeBytes < 2 ^ 64} {front : Framebuffer}
    (accepted : FramebufferLayout.fromInfo info physToVirt width_lt height_lt size_lt =
      .ok front.layout) (memory : front.Sound) {base : Kernel.Paging.Word} {pixels : List UInt32}
    (size : pixels.length = front.layout.sizeBytes / bytesPerPixel) {foreground background : Rgb}
    {cells alternateCells : List Cell} {made : Except FlushRangeError Console}
    (new : Console.new front base pixels foreground background cells alternateCells =
      some (.ok made)) (ops : List TextOp) :
    ∃ start, made = .ok start ∧ (start.run ops = none ∨ ∃ s, start.run ops = some (.ok s) ∧
      (∀ x y, x < info.width → y < info.height →
        s.front.readPixelRaw x y ≠ s.back.readPixelRaw x y →
        ∃ rect, s.dirty.bounds = some rect ∧
          (rect.x ≤ x ∧ x < rect.x + rect.width) ∧ rect.y ≤ y ∧ y < rect.y + rect.height) ∧
      ∃ t, s.flush = some (.ok t) ∧ ∀ x y, x < info.width → y < info.height →
        ∃ pixel, t.front.readPixelRaw x y = some pixel ∧
          t.back.readPixelRaw x y = some pixel) := by
  obtain ⟨width, height⟩ := FramebufferLayout.fromInfo_size accepted
  obtain ⟨start, rfl, sound, accounted, -, layout, -⟩ := new_total memory size new
  refine ⟨start, rfl, ?_⟩
  rcases run_proceeds sound ops with stops | ⟨s, ran, soundS, accountedS, layoutS⟩
  · exact .inl stops
  have wide : s.back.layout.width = info.width := by
    rw [layoutS, layout, ← width]
  have tall : s.back.layout.height = info.height := by
    rw [layoutS, layout, ← height]
  right
  refine ⟨s, ran, ?_, ?_⟩
  · intro x y column row differs
    by_contra clean
    exact differs (accountedS accounted x y (wide ▸ column) (tall ▸ row) clean)
  · obtain ⟨t, flushed, done⟩ := flush_total soundS
    refine ⟨t, flushed, ?_⟩
    intro x y column row
    have sized := done.sound.back.sized
    rw [done.layout, wide, tall] at sized
    obtain ⟨pixel, shown⟩ := sized.exists_eq column row
    exact ⟨pixel, done.same (accountedS accounted) ▸ shown, shown⟩

end Console

/-! A screen two cells wide, with rows that are longer in memory. -/
namespace Small

def directMap (physical : Nat) : Kernel.Paging.Word :=
  BitVec.ofNat 64 (physical + 0xFFFF800000000000)

def info (height : Nat) : FramebufferInfo := ⟨0x80000000, height * 80, 16, height, 20, .bgr⟩

theorem supported : PixelFormat.bgr = .rgb ∨ PixelFormat.bgr = .bgr := .inr rfl

theorem width_pos : 0 < 16 := by decide

theorem narrow : 16 ≤ 20 := by decide

theorem width_lt : 16 < 2 ^ 32 := by decide

theorem room (height : Nat) : height * 20 * bytesPerPixel ≤ height * 80 := by
  unfold bytesPerPixel
  omega

theorem height_lt {height : Nat} (small : height < 100) : height < 2 ^ 32 := by omega

theorem size_lt {height : Nat} (small : height < 100) : height * 80 < 2 ^ 64 := by omega

def layout (height : Nat) (pos : 0 < height) (small : height < 100) : FramebufferLayout where
  base := directMap 0x80000000
  sizeBytes := height * 80
  width := 16
  height := height
  stride := 20
  format := .bgr
  supported := supported
  width_pos := width_pos
  height_pos := pos
  narrow := narrow
  room := room height
  width_lt := width_lt
  height_lt := height_lt small
  size_lt := size_lt small

def front (height : Nat) (pos : 0 < height) (small : height < 100) : Framebuffer :=
  ⟨layout height pos small, List.replicate (height * 20) 0⟩

theorem pixels_length (height : Nat) (pos : 0 < height) (small : height < 100) :
    (List.replicate (height * 20) (0 : UInt32)).length =
      (front height pos small).layout.sizeBytes / bytesPerPixel := by
  have size : (front height pos small).layout.sizeBytes = height * 80 := rfl
  rw [List.length_replicate, size]
  unfold bytesPerPixel
  omega

theorem memory (height : Nat) (pos : 0 < height) (small : height < 100) :
    (front height pos small).Sound :=
  pixels_length height pos small

def white : Rgb := ⟨255, 255, 255⟩

def black : Rgb := ⟨0, 0, 0⟩

def new (height : Nat) (pos : 0 < height) (small : height < 100) :
    Option (Except ConsoleError (Except FlushRangeError Console)) :=
  Console.new (front height pos small) (directMap 0x90000000) (List.replicate (height * 20) 0)
    white black (List.replicate 12 Cell.blank) (List.replicate 12 Cell.blank)

def given {ε α : Type} : Option (Except ε α) → Option α
  | some (.ok a) => some a
  | _ => none

theorem given_eq_some {ε α : Type} {r : Option (Except ε α)} {a : α} (eq : given r = some a) :
    r = some (.ok a) := by
  cases r with
  | none => cases eq
  | some r =>
    cases r with
    | error e => cases eq
    | ok b =>
      cases eq
      rfl

theorem given_any {ε α : Type} {r : Option (Except ε α)} {test : α → Bool}
    (passes : (given r).any test = true) : ∃ a, r = some (.ok a) ∧ test a = true := by
  obtain ⟨a, eq, passes⟩ := (Option.any_eq_true _ _).mp passes
  exact ⟨a, given_eq_some eq, passes⟩

theorem made_any {ε δ α : Type} {r : Option (Except ε (Except δ α))} {test : α → Bool}
    (passes : (given (given r)).any test = true) :
    ∃ made, r = some (.ok (.ok made)) ∧ test made = true := by
  obtain ⟨made, eq, passes⟩ := given_any passes
  exact ⟨made, given_eq_some eq, passes⟩

theorem new_sixteen : ∃ made, new 16 (by decide) (by decide) = some (.ok made) := by
  have ok : (given (new 16 (by decide) (by decide))).any (fun _ => true) = true := by
    decide +kernel
  obtain ⟨made, found, -⟩ := given_any ok
  exact ⟨made, found⟩

end Small

theorem Console.changes_reach_screen_small : ∃ start,
    Small.new 16 (by decide) (by decide) = some (.ok (.ok start)) ∧
    (start.run [.putChar 'A', .putChar '\n', .insertLines 1] = none ∨
      ∃ s, start.run [.putChar 'A', .putChar '\n', .insertLines 1] = some (.ok s) ∧
      (∀ x y, x < 16 → y < 16 → s.front.readPixelRaw x y ≠ s.back.readPixelRaw x y →
        ∃ rect, s.dirty.bounds = some rect ∧
          (rect.x ≤ x ∧ x < rect.x + rect.width) ∧ rect.y ≤ y ∧ y < rect.y + rect.height) ∧
      ∃ t, s.flush = some (.ok t) ∧ ∀ x y, x < 16 → y < 16 →
        ∃ pixel, t.front.readPixelRaw x y = some pixel ∧
          t.back.readPixelRaw x y = some pixel) := by
  obtain ⟨made, new⟩ := Small.new_sixteen
  have accepted : FramebufferLayout.fromInfo (Small.info 16) Small.directMap (by decide) (by decide)
      (by decide) = .ok (Small.front 16 (by decide) (by decide)).layout := rfl
  obtain ⟨start, rfl, rest⟩ := Console.changes_reach_screen accepted (Small.memory 16 _ _)
    (Small.pixels_length 16 _ _) new
    [.putChar 'A', .putChar '\n', .insertLines 1]
  exact ⟨start, new, rest⟩

end Zaytos.Terminal

/-! Any operation of the console in text mode, as what it does to a terminal and to its picture. -/
namespace Zaytos.Terminal

namespace Term

def operate (t : Term) : TextOp → Option Term
  | .putChar c => some (t.putChar c)
  | .cursorToCell column row => some (t.cursorTo column row)
  | .showCursor visible => some { t with cursorVisible := visible }
  | .paintCursor _ => some t
  | .eraseDrawnCursor => some t.eraseDrawn
  | .refreshCursor => some t.refresh
  | .setGraphics graphics => some (t.setGraphics graphics)
  | .eraseInLine scope => t.eraseInLine scope
  | .eraseInDisplay scope => t.eraseInDisplay scope
  | .deleteLines count => t.deleteLines count
  | .insertLines count => t.insertLines count
  | .clear => some t.clear
  | .setAlternateScreen alternate => some (t.setAlternateScreen alternate)
  | .repaintFromCells => some t
  | .requestRepaint => some { t with drawnAt := none }
  | .flush => some t.refresh

end Term

namespace Display

variable (ink : Rgb → UInt32) (requested : Bool) (d : Display)

/-- What an operation does to the cells and the picture; a transfer repaints first if that was
requested. -/
def operate : TextOp → Option Display
  | .putChar c => some (d.putChar ink c)
  | .cursorToCell column row => some { d with term := d.term.cursorTo column row }
  | .showCursor visible => some { d with term := { d.term with cursorVisible := visible } }
  | .paintCursor visible => some (d.line ink d.term.grid.column d.term.grid.row
      (if visible then Console.cursorColor else under d.term d.term.grid.column d.term.grid.row))
  | .eraseDrawnCursor => some (d.eraseDrawn ink)
  | .refreshCursor => some (d.refresh ink)
  | .setGraphics graphics => some { d with term := d.term.setGraphics graphics }
  | .eraseInLine scope => d.eraseInLine ink scope
  | .eraseInDisplay scope => d.eraseInDisplay ink scope
  | .deleteLines count => d.deleteLines ink count
  | .insertLines count => d.insertLines ink count
  | .clear => some (d.clear ink)
  | .setAlternateScreen alternate => some (d.setAlternateScreen ink alternate)
  | .repaintFromCells => some (d.repaint ink)
  | .requestRepaint => some { d with term := { d.term with drawnAt := none } }
  | .flush => some ((if requested then d.repaint ink else d).refresh ink)

theorem operate_term (op : TextOp) :
    (d.operate ink requested op).map Display.term = d.term.operate op := by
  cases op with
  | putChar c => exact congrArg some (putChar_term ink d c)
  | eraseDrawnCursor => exact congrArg some (eraseDrawn_term ink d)
  | refreshCursor => exact congrArg some (refresh_term ink d)
  | eraseInLine scope => exact eraseInLine_term ink d scope
  | eraseInDisplay scope => exact eraseInDisplay_term ink d scope
  | deleteLines count => exact deleteLines_term ink d count
  | insertLines count => exact insertLines_term ink d count
  | setAlternateScreen alternate => exact congrArg some (setAlternateScreen_term ink d alternate)
  | flush =>
    cases requested with
    | false => exact congrArg some (refresh_term ink d)
    | true => exact congrArg some (refresh_term ink (d.repaint ink))
  | _ => rfl

end Display

namespace Console

variable {s t : Console} {r : Option Console}

def requestedAfter (requested : Bool) : TextOp → Bool
  | .requestRepaint => true
  | .flush => false
  | _ => requested

structure Operated (s : Console) (op : TextOp) (t : Console) : Prop where
  sound : t.Sound
  display : s.display.operate s.ink s.repaintRequested op = some t.display
  layout : t.back.layout = s.back.layout
  requested : t.repaintRequested = requestedAfter s.repaintRequested op

theorem Operated.ink {op : TextOp} (operated : s.Operated op t) : t.ink = s.ink := by
  unfold Console.ink
  rw [operated.layout]

theorem Operated.term {op : TextOp} (operated : s.Operated op t) :
    s.term.operate op = some t.term := by
  have term := Display.operate_term s.ink s.repaintRequested s.display op
  rw [operated.display] at term
  exact term.symm

/-- The operation is performed if the display has it so, and leaves this display. -/
def Performs (s : Console) (op : TextOp) : Option Display → Prop
  | none => s.perform op = none
  | some d => ∃ t, s.perform op = some (.ok t) ∧ t.Sound ∧ t.display = d ∧
      t.back.layout = s.back.layout ∧ t.repaintRequested = requestedAfter s.repaintRequested op

theorem Follows.performs {o : Option Display} {op : TextOp} (follows : s.Follows r o)
    (performed : s.perform op = r.map .ok)
    (quiet : requestedAfter s.repaintRequested op = s.repaintRequested) : s.Performs op o := by
  cases o with
  | none =>
    have stops : r = none := follows
    rw [stops] at performed
    exact performed
  | some d =>
    obtain ⟨t, rfl, sound, display, tracks⟩ := follows
    exact ⟨t, performed, sound, display, tracks.layout, tracks.requested.trans quiet.symm⟩

theorem Gives.performs {d : Display} {op : TextOp} (gives : s.Gives r d)
    (performed : s.perform op = r.map .ok)
    (quiet : requestedAfter s.repaintRequested op = s.repaintRequested) :
    s.Performs op (some d) :=
  Follows.performs (o := some d) gives performed quiet

theorem perform_performs (sound : s.Sound) (op : TextOp) :
    s.Performs op (s.display.operate s.ink s.repaintRequested op) := by
  cases op with
  | putChar c => exact (putChar_gives sound c).performs rfl rfl
  | cursorToCell column row => exact (cursorToCell_gives sound column row).performs rfl rfl
  | showCursor visible => exact (showCursor_gives sound visible).performs rfl rfl
  | paintCursor visible => exact (paintCursor_gives sound visible).performs rfl rfl
  | eraseDrawnCursor => exact (eraseDrawnCursor_gives sound).performs rfl rfl
  | refreshCursor => exact (refreshCursor_gives sound).performs rfl rfl
  | setGraphics graphics => exact (setGraphics_gives sound graphics).performs rfl rfl
  | eraseInLine scope => exact (eraseInLine_follows sound scope).performs rfl rfl
  | eraseInDisplay scope => exact (eraseInDisplay_follows sound scope).performs rfl rfl
  | deleteLines count => exact (deleteLines_follows sound count).performs rfl rfl
  | insertLines count => exact (insertLines_follows sound count).performs rfl rfl
  | clear => exact (clear_gives sound).performs rfl rfl
  | setAlternateScreen alternate =>
    exact (setAlternateScreen_gives sound alternate).performs rfl rfl
  | repaintFromCells => exact (repaintFromCells_gives sound).performs rfl rfl
  | requestRepaint => exact ⟨s.requestRepaint, rfl, { sound with }, rfl, rfl, rfl⟩
  | flush =>
    obtain ⟨t, flushed, shown⟩ := flush_total sound
    exact ⟨t, flushed, shown.sound, shown.display, shown.layout, shown.requested⟩

theorem perform_operated (sound : s.Sound) {op : TextOp} (done : s.perform op = some (.ok t)) :
    s.Operated op t := by
  have performs := perform_performs sound op
  cases follows : s.display.operate s.ink s.repaintRequested op with
  | none =>
    rw [follows] at performs
    have stops : s.perform op = none := performs
    rw [stops] at done
    cases done
  | some d =>
    rw [follows] at performs
    obtain ⟨u, performed, soundU, rfl, layout, requested⟩ := performs
    have same : u = t := by
      have both := performed.symm.trans done
      simpa using both
    subst same
    exact ⟨soundU, follows, layout, requested⟩

theorem perform_isSome (sound : s.Sound) {op : TextOp} {u : Term}
    (allowed : s.term.operate op = some u) :
    ∃ t, s.perform op = some (.ok t) ∧ s.Operated op t ∧ t.term = u := by
  have performs := perform_performs sound op
  have term := Display.operate_term s.ink s.repaintRequested s.display op
  cases follows : s.display.operate s.ink s.repaintRequested op with
  | none =>
    rw [follows] at term
    cases term.trans allowed
  | some d =>
    rw [follows] at performs
    obtain ⟨t, done, _⟩ := performs
    have operated := perform_operated sound done
    refine ⟨t, done, operated, ?_⟩
    exact Option.some.inj (operated.term.symm.trans allowed)

end Console

end Zaytos.Terminal
