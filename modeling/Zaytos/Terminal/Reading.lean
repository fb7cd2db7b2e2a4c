import Zaytos.Terminal.Columns

set_option autoImplicit false

/-! The cells of a screen in reading order, counted on through the rows that have gone off at the
top and those that are still to come in at the bottom. Narrow text takes the places that follow
each other, and a way back takes the cursor no further than to the start of its row. -/
namespace Zaytos.Terminal

namespace Grid

/-- The place of the cursor, with a number of rows gone. Just past the last column it is that of
the first cell of the next row. -/
def position (g : Grid) (gone : Nat) : Nat := (g.row + gone) * g.columns + g.column

/-- The character at a place: none in a row that has gone, and a blank in one to come. -/
def reads (g : Grid) (gone n : Nat) : Option Char :=
  if n / g.columns < gone then none
  else if gone + g.rows ≤ n / g.columns then some ' '
  else (g.cell (n % g.columns) (n / g.columns - gone)).map (·.ch)

def Shows (g : Grid) (gone n : Nat) (c : Char) : Prop := ∀ d ∈ g.reads gone n, d = c

def Displays (g : Grid) (gone start : Nat) (text : List Char) : Prop :=
  ∀ i c, text[i]? = some c → g.Shows gone (start + i) c

def columnAfter (columns column count : Nat) : Nat :=
  if count = 0 then column else (column + count - 1) % columns + 1

theorem columnAfter_add (columns column n m : Nat) :
    columnAfter columns (columnAfter columns column n) m = columnAfter columns column (n + m) := by
  unfold columnAfter
  by_cases first : n = 0
  · rw [if_pos first, first, Nat.zero_add]
  by_cases second : m = 0
  · rw [second]
    rfl
  rw [if_neg first, if_neg second, if_neg (by omega)]
  have earlier : (column + n - 1) % columns + 1 + m - 1 = (column + n - 1) % columns + m := by omega
  have later : column + (n + m) - 1 = column + n - 1 + m := by omega
  rw [earlier, later, Nat.mod_add_mod]

variable {g : Grid} {gone n x y : Nat} {cell : Cell} {d : Char}

theorem reads_of_row (row : n / g.columns = gone + y) (inside : y < g.rows) :
    g.reads gone n = (g.cell (n % g.columns) y).map (·.ch) := by
  unfold reads
  rw [if_neg (by omega), if_neg (by omega), row, Nat.add_sub_cancel_left]

theorem place_iff (inside : x < g.columns) :
    n = (y + gone) * g.columns + x ↔ n / g.columns = gone + y ∧ n % g.columns = x := by
  have parts := Nat.div_add_mod n g.columns
  constructor
  · intro same
    rw [same, Nat.mul_comm, Nat.mul_add_div (by omega), Nat.div_eq_of_lt inside, Nat.mul_add_mod,
      Nat.mod_eq_of_lt inside]
    omega
  · rintro ⟨row, column⟩
    rw [row, column, Nat.mul_comm, Nat.add_comm gone] at parts
    exact parts.symm

theorem Sound.paint_reads (sound : g.Sound) (column : x < g.columns) (row : y < g.rows) (n : Nat) :
    (g.paint x y 1 cell).reads gone n =
      if n = (y + gone) * g.columns + x then some cell.ch else g.reads gone n := by
  by_cases there : n = (y + gone) * g.columns + x
  · obtain ⟨sameRow, sameColumn⟩ := (place_iff column).mp there
    have painted : (g.paint x y 1 cell).cell x y = some cell := by
      apply Raster.fill_inside
      · unfold Raster.Within
        omega
      · exact (sound.sized x y).mpr ⟨column, row⟩
    rw [if_pos there, reads_of_row (g := g.paint x y 1 cell) sameRow row]
    rw [show n % (g.paint x y 1 cell).columns = x from sameColumn, painted]
    rfl
  · rw [if_neg there]
    unfold reads
    show (if n / g.columns < gone then none else if gone + g.rows ≤ n / g.columns then some ' ' else
      ((g.paint x y 1 cell).cell (n % g.columns) (n / g.columns - gone)).map (·.ch)) = _
    by_cases above : n / g.columns < gone
    · rw [if_pos above, if_pos above]
    · rw [if_neg above, if_neg above]
      have other : (g.paint x y 1 cell).cell (n % g.columns) (n / g.columns - gone) =
          g.cell (n % g.columns) (n / g.columns - gone) := by
        apply Raster.fill_outside
        intro within
        unfold Raster.Within at within
        apply there
        rw [place_iff column]
        omega
      rw [other]

theorem Sound.deleteLines_reads (sound : g.Sound) (bg : Rgb) (n : Nat) :
    (g.deleteLines 0 1 bg).reads (gone + 1) n =
      if n / g.columns < gone + 1 then none else g.reads gone n := by
  have wide : n % g.columns < g.columns := Nat.mod_lt _ (by have := sound.wide; omega)
  unfold reads
  show (if n / g.columns < gone + 1 then none
    else if gone + 1 + g.rows ≤ n / g.columns then some ' '
    else ((g.cell.deleteRows 0 1 (Cell.cleared bg)) (n % g.columns)
      (n / g.columns - (gone + 1))).map (·.ch)) = _
  by_cases above : n / g.columns < gone + 1
  · rw [if_pos above, if_pos above]
  have seen : ¬ n / g.columns < gone := by omega
  rw [if_neg above, if_neg above, if_neg seen]
  by_cases below : gone + 1 + g.rows ≤ n / g.columns
  · rw [if_pos below, if_pos (by omega)]
  rw [if_neg below]
  have step : n / g.columns - (gone + 1) + 1 = n / g.columns - gone := by omega
  unfold Raster.deleteRows
  rw [if_neg (by omega), step]
  by_cases last : gone + g.rows ≤ n / g.columns
  · have out : g.cell (n % g.columns) (n / g.columns - gone) = none :=
      sound.sized.eq_none (by omega)
    obtain ⟨cell, there⟩ := sound.sized.exists_eq wide
      (show n / g.columns - (gone + 1) < g.rows by omega)
    rw [if_pos last, out, there]
    rfl
  · obtain ⟨cell, there⟩ := sound.sized.exists_eq wide
      (show n / g.columns - gone < g.rows by omega)
    rw [if_neg last, there]
    rfl

theorem Shows.paint (shows : g.Shows gone n d) (sound : g.Sound) (column : x < g.columns)
    (row : y < g.rows) (other : n ≠ (y + gone) * g.columns + x) :
    (g.paint x y 1 cell).Shows gone n d := by
  intro e mem
  rw [sound.paint_reads column row, if_neg other] at mem
  exact shows e mem

theorem Sound.paint_shows (sound : g.Sound) (gone : Nat) (cell : Cell) (column : x < g.columns)
    (row : y < g.rows) :
    (g.paint x y 1 cell).Shows gone ((y + gone) * g.columns + x) cell.ch := by
  intro e mem
  rw [sound.paint_reads column row, if_pos rfl] at mem
  exact (Option.some.inj mem).symm

theorem Shows.deleteLines (shows : g.Shows gone n d) (sound : g.Sound) (bg : Rgb) :
    (g.deleteLines 0 1 bg).Shows (gone + 1) n d := by
  intro e mem
  rw [sound.deleteLines_reads] at mem
  split at mem
  · cases mem
  · exact shows e mem

theorem Shows.of_cells {h : Grid} (shows : g.Shows gone n d) (columns : h.columns = g.columns)
    (rows : h.rows = g.rows) (cells : h.cell = g.cell) : h.Shows gone n d := by
  intro e mem
  apply shows e
  unfold reads at mem ⊢
  rw [columns, rows, cells] at mem
  exact mem

theorem Displays.patch {h : Grid} {gone' start : Nat} {before after new : List Char}
    (displays : g.Displays gone start (before ++ after))
    (writes : h.Displays gone' (start + before.length) new)
    (keeps : ∀ n d, n < start + before.length ∨ start + before.length + new.length ≤ n →
      g.Shows gone n d → h.Shows gone' n d) :
    h.Displays gone' start (before ++ (new ++ after.drop new.length)) := by
  intro i c found
  by_cases early : i < before.length
  · rw [List.getElem?_append_left early] at found
    have was : (before ++ after)[i]? = some c := (List.getElem?_append_left early).trans found
    exact keeps _ _ (by omega) (displays i c was)
  rw [List.getElem?_append_right (by omega)] at found
  by_cases covered : i - before.length < new.length
  · rw [List.getElem?_append_left covered] at found
    have place : start + before.length + (i - before.length) = start + i := by omega
    exact place ▸ writes _ c found
  · rw [List.getElem?_append_right (by omega), List.getElem?_drop] at found
    have same : new.length + (i - before.length - new.length) = i - before.length := by omega
    rw [same] at found
    have was : (before ++ after)[i]? = some c :=
      (List.getElem?_append_right (by omega)).trans found
    exact keeps _ _ (by omega) (displays i c was)

end Grid

namespace Term

/-- Text has been written where the cursor was, and nothing else has changed. -/
structure Wrote (t : Term) (gone : Nat) (u : Term) (gone' : Nat) (text : List Char) : Prop where
  sound : u.grid.Sound
  drawnAt : u.drawnAt = none
  columns : u.grid.columns = t.grid.columns
  rows : u.grid.rows = t.grid.rows
  position : u.grid.position gone' = t.grid.position gone + text.length
  column : u.grid.column = Grid.columnAfter t.grid.columns t.grid.column text.length
  writes : u.grid.Displays gone' (t.grid.position gone) text
  keeps : ∀ n d, n < t.grid.position gone ∨ t.grid.position gone + text.length ≤ n →
    t.grid.Shows gone n d → u.grid.Shows gone' n d

structure Narrow (c : Char) : Prop where
  plain : Plain c
  width : widthCells c = 1

variable {t u v : Term} {gone gone' gone'' : Nat} {c : Char}

theorem Wrote.nil (sound : t.grid.Sound) (drawnAt : t.drawnAt = none) : Wrote t gone t gone [] where
  sound := sound
  drawnAt := drawnAt
  columns := rfl
  rows := rfl
  position := rfl
  column := rfl
  writes := by
    intro i c found
    cases found
  keeps _ _ _ shows := shows

theorem Wrote.trans {first second : List Char} (wrote : Wrote t gone u gone' first)
    (more : Wrote u gone' v gone'' second) : Wrote t gone v gone'' (first ++ second) := by
  have next := wrote.position
  constructor
  · exact more.sound
  · exact more.drawnAt
  · exact more.columns.trans wrote.columns
  · exact more.rows.trans wrote.rows
  · rw [more.position, next, List.length_append, Nat.add_assoc]
  · rw [more.column, wrote.columns, wrote.column, Grid.columnAfter_add, List.length_append]
  · intro i c found
    by_cases early : i < first.length
    · rw [List.getElem?_append_left early] at found
      exact more.keeps _ _ (by omega) (wrote.writes i c found)
    · rw [List.getElem?_append_right (by omega)] at found
      have place : u.grid.position gone' + (i - first.length) = t.grid.position gone + i := by omega
      exact place ▸ more.writes _ c found
  · intro n d outside shows
    rw [List.length_append] at outside
    exact more.keeps n d (by omega) (wrote.keeps n d (by omega) shows)

theorem Wrote.of_paint {g : Grid} (sound : g.Sound) {x y : Nat} (inside : x < g.columns)
    (below : y < g.rows) (columns : g.columns = t.grid.columns) (rows : g.rows = t.grid.rows)
    (place : (y + gone') * g.columns + x = t.grid.position gone)
    (column : x + 1 = Grid.columnAfter t.grid.columns t.grid.column 1)
    (kept : ∀ n d, t.grid.Shows gone n d → g.Shows gone' n d) {cell : Cell} (ch : cell.ch = c) :
    Wrote t gone
      { t with
        drawnAt := none, grid := { g.paint x y 1 cell with column := x + 1, row := y } } gone' [c] := by
  have painted : ({ g.paint x y 1 cell with column := x + 1, row := y } : Grid).Sound :=
    { sound.paint x y 1 cell with
      column := inside
      row := below }
  constructor
  · exact painted
  · rfl
  · exact columns
  · exact rows
  · rw [List.length_singleton, ← place]
    rfl
  · exact column
  · intro i d found
    cases i with
    | zero =>
      cases found
      have there := sound.paint_shows gone' cell inside below
      rw [place, ch] at there
      exact there.of_cells rfl rfl rfl
    | succ i => cases found
  · intro n d outside shows
    rw [List.length_singleton] at outside
    exact ((kept n d shows).paint sound inside below (by omega)).of_cells rfl rfl rfl

theorem putChar_wrote (gone : Nat) (sound : t.grid.Sound) (drawnAt : t.drawnAt = none) (narrow : Narrow c) :
    ∃ gone', Wrote t gone (t.putChar c) gone' [c] := by
  have wide := sound.wide
  have tall := sound.tall
  have column := sound.column
  have row := sound.row
  have erased : t.eraseDrawn = t := by
    unfold eraseDrawn
    rw [drawnAt]
  have paints : ∀ (g : Grid) (x y : Nat), g.put x y c t.foreground t.background 1 =
      g.paint x y 1 ⟨c, t.foreground, t.background, 0⟩ := by
    intro g x y
    rw [Grid.put, Nat.sub_self, Grid.paint_zero]
  have advanced : t.grid.advance c (widthCells c) = t.grid.place 1 := by
    rw [narrow.width, Grid.advance, if_neg narrow.plain.newline, if_neg narrow.plain.home,
      if_neg narrow.plain.tab, if_neg narrow.plain.back]
  have moved : t.putChar c =
      ({ t with grid := (t.grid.place 1).2 } : Term).settle c (t.grid.place 1).1 := by
    unfold putChar
    dsimp only
    rw [erased, advanced]
  by_cases fits : t.grid.column < t.grid.columns
  · refine ⟨gone, ?_⟩
    have typed : t.putChar c = { t with
        drawnAt := none
        grid := { t.grid.paint t.grid.column t.grid.row 1 ⟨c, t.foreground, t.background, 0⟩ with
          column := t.grid.column + 1, row := t.grid.row } } := by
      rw [moved, Grid.place, if_neg (by omega), ← drawnAt, ← paints]
      rfl
    rw [typed]
    apply Wrote.of_paint sound fits row rfl rfl rfl
    · rw [Grid.columnAfter, if_neg Nat.one_ne_zero, Nat.add_sub_cancel, Nat.mod_eq_of_lt fits]
    · intro n d shows
      exact shows
    · rfl
  have past : t.grid.column = t.grid.columns := by omega
  have fresh : 0 + 1 = Grid.columnAfter t.grid.columns t.grid.column 1 := by
    rw [Grid.columnAfter, if_neg Nat.one_ne_zero, Nat.add_sub_cancel, past, Nat.mod_self]
  by_cases room : t.grid.row + 1 < t.grid.rows
  · refine ⟨gone, ?_⟩
    have typed : t.putChar c = { t with
        drawnAt := none
        grid := { t.grid.paint 0 (t.grid.row + 1) 1 ⟨c, t.foreground, t.background, 0⟩ with
          column := 0 + 1, row := t.grid.row + 1 } } := by
      rw [moved, Grid.place, if_pos (by omega), Grid.breakLine, if_pos room, ← drawnAt, ← paints]
      rfl
    rw [typed]
    apply Wrote.of_paint sound (by omega) room rfl rfl
    · unfold Grid.position
      rw [past]
      ring
    · exact fresh
    · intro n d shows
      exact shows
    · rfl
  · refine ⟨gone + 1, ?_⟩
    have typed : t.putChar c = { t with
        drawnAt := none
        grid := { (t.grid.deleteLines 0 1 t.background).paint 0 t.grid.row 1
            ⟨c, t.foreground, t.background, 0⟩ with
          column := 0 + 1, row := t.grid.row } } := by
      rw [moved, Grid.place, if_pos (by omega), Grid.breakLine, if_neg room, ← drawnAt, ← paints]
      rfl
    rw [typed]
    apply Wrote.of_paint (sound.deleteLines 0 1 t.background)
    · show 0 < t.grid.columns
      omega
    · exact row
    · rfl
    · rfl
    · show (t.grid.row + (gone + 1)) * t.grid.columns + 0 = t.grid.position gone
      unfold Grid.position
      rw [past]
      ring
    · exact fresh
    · intro n d shows
      exact shows.deleteLines sound t.background
    · rfl

theorem putStr_wrote (gone : Nat) (sound : t.grid.Sound) (drawnAt : t.drawnAt = none) {text : List Char}
    (narrow : ∀ c ∈ text, Narrow c) : ∃ gone', Wrote t gone (t.putStr text) gone' text := by
  induction text generalizing t gone with
  | nil => exact ⟨gone, Wrote.nil sound drawnAt⟩
  | cons c text ih =>
    rw [List.forall_mem_cons] at narrow
    obtain ⟨gone', wrote⟩ := putChar_wrote gone sound drawnAt narrow.1
    obtain ⟨gone'', more⟩ := ih gone' wrote.sound wrote.drawnAt narrow.2
    exact ⟨gone'', wrote.trans more⟩

theorem putStr_back (drawnAt : t.drawnAt = none) (count : Nat) :
    t.putStr (List.replicate count '\x08') =
      { t with grid := { t.grid with column := t.grid.column - count } } := by
  induction count generalizing t with
  | zero => rfl
  | succ count ih =>
    have erased : t.eraseDrawn = t := by
      unfold eraseDrawn
      rw [drawnAt]
    have stepped : t.putChar '\x08' =
        { t with grid := { t.grid with column := t.grid.column - 1 } } := by
      unfold putChar
      dsimp only
      rw [erased]
      rfl
    have rest : t.putStr (List.replicate (count + 1) '\x08') =
        (t.putChar '\x08').putStr (List.replicate count '\x08') := rfl
    have kept : (t.putChar '\x08').drawnAt = none := by
      rw [stepped]
      exact drawnAt
    rw [rest, ih kept, stepped]
    dsimp only
    rw [Nat.sub_sub, Nat.add_comm 1]

end Term

namespace Tty

structure Ready (t : Tty) : Prop where
  ground : t.parser.state = .ground
  decoder : t.decoder = .new

def charOf (byte : UInt8) : Char := Char.ofNat byte.toNat

theorem toNat_charOf {byte : UInt8} (ascii : byte < 0x80) : (charOf byte).toNat = byte.toNat := by
  have small : byte.toNat < 0x80 := UInt8.lt_iff_toNat_lt.mp ascii
  rw [charOf, Char.ofNat, dif_pos (.inl (by omega))]
  rfl

variable {t : Tty}

theorem feedByte_ascii (ready : t.Ready) {byte : UInt8} (ascii : byte < 0x80)
    (other : byte ≠ 0x1B) :
    t.feedByte byte = some { t with term := t.term.putChar (charOf byte) } := by
  have low : byte ≤ 0x7F := by
    rw [UInt8.le_iff_toNat_le]
    exact Nat.le_of_lt_succ (UInt8.lt_iff_toNat_lt.mp ascii)
  have decoded : t.decoder.feed byte = some ([charOf byte], t.decoder) := by
    have empty : Utf8Decoder.new.held = [] := rfl
    rw [ready.decoder, Utf8Decoder.feed, if_pos empty, Utf8Decoder.start, charLength, if_pos low]
    rfl
  have char : charOf byte ≠ '\x1b' := by
    intro same
    have value := toNat_charOf ascii
    rw [same] at value
    exact other (UInt8.toNat_inj.mp value.symm)
  have parsed : t.parser.feed 2 (charOf byte) = some (some (.print (charOf byte)), t.parser) := by
    simp only [AnsiParser.feed, ready.ground, if_neg char]
  simp only [feedByte, decoded, Option.bind_eq_bind, Option.bind_some, feedChars, feedChar, parsed]
  rfl

theorem feedBytes_ascii (ready : t.Ready) {bytes : List UInt8}
    (ascii : ∀ byte ∈ bytes, byte < 0x80 ∧ byte ≠ 0x1B) :
    t.feedBytes bytes = some { t with term := t.term.putStr (bytes.map charOf) } := by
  induction bytes generalizing t with
  | nil => rfl
  | cons byte bytes ih =>
    rw [List.forall_mem_cons] at ascii
    have next : Ready { t with term := t.term.putChar (charOf byte) } :=
      ⟨ready.ground, ready.decoder⟩
    rw [feedBytes, feedByte_ascii ready ascii.1.1 ascii.1.2]
    exact ih next ascii.2

theorem feedBytes_append (t : Tty) (first second : List UInt8) :
    t.feedBytes (first ++ second) = (t.feedBytes first).bind fun u => u.feedBytes second := by
  induction first generalizing t with
  | nil => rfl
  | cons byte first ih =>
    rw [List.cons_append, feedBytes, feedBytes]
    cases t.feedByte byte with
    | none => rfl
    | some u => exact ih u

end Tty

end Zaytos.Terminal
