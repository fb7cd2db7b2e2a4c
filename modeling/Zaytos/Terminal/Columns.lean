import Zaytos.Terminal.Totality

set_option autoImplicit false

/-! The cells that text takes on the console are those that the editor counts. -/
namespace Zaytos.Terminal

def isPlain (byte : UInt8) : Bool :=
  byte != 0x08 && byte != 0x09 && byte != 0x0A && byte != 0x0D && byte != 0x1B

structure Plain (c : Char) : Prop where
  escape : c ≠ '\x1b'
  newline : c ≠ '\n'
  home : c ≠ '\r'
  tab : c ≠ '\t'
  back : c ≠ '\x08'

variable {c : Char} {cs : List Char} {bytes : List UInt8} {t : Term}

theorem Encoded.plain {head : UInt8} {tail : List UInt8} (encoded : Encoded c head tail)
    (plain : isPlain head = true) : Plain c := by
  have first : (String.utf8EncodeChar c).head?.all isPlain = true := by
    rw [encoded.bytes]
    exact plain
  constructor
  all_goals
    intro same
    rw [same] at first
    exact absurd first (by decide)

theorem Cut.plain (cut : Cut bytes cs)
    (plain : ∀ byte ∈ bytes, isPlain byte = true) : ∀ c ∈ cs, Plain c := by
  induction cut with
  | nil => simp
  | @cons bytes c n cs first others ih =>
    rw [List.forall_mem_cons]
    constructor
    · cases bytes with
      | nil => simp [charAt] at first
      | cons byte rest =>
        rcases charAt_cases byte rest with broken | ⟨c', tail, more, -, encoded, found⟩
        · cases first.symm.trans broken
          constructor <;> decide
        · cases first.symm.trans found
          exact encoded.plain (plain byte List.mem_cons_self)
    · apply ih
      intro byte mem
      exact plain byte (List.mem_of_mem_drop mem)

namespace Grid

theorem advance_plain {g : Grid} {width : Nat} (plain : Plain c)
    (fits : g.column + width ≤ g.columns) : g.advance c width =
      ({ drawAt := some ⟨g.column, g.row, width⟩ }, { g with column := g.column + width }) := by
  unfold advance place
  rw [if_neg plain.newline, if_neg plain.home, if_neg plain.tab, if_neg plain.back,
    if_neg (by omega)]

end Grid

namespace Term

structure Moved (t u : Term) (count : Nat) : Prop where
  column : u.grid.column = t.grid.column + count
  row : u.grid.row = t.grid.row
  columns : u.grid.columns = t.grid.columns

theorem settle_cursor (t : Term) (c : Char) (step : Step) :
    (t.settle c step).grid.column = t.grid.column ∧ (t.settle c step).grid.row = t.grid.row ∧
      (t.settle c step).grid.columns = t.grid.columns := by
  unfold settle
  cases step.scrolled <;> cases step.clearRow <;> cases step.drawAt <;> exact ⟨rfl, rfl, rfl⟩

theorem eraseDrawn_moved (sound : t.Sound) (inside : t.grid.column < t.grid.columns) :
    Moved t t.eraseDrawn 0 := by
  have row := sound.grid.row
  unfold eraseDrawn
  cases t.drawnAt with
  | none => exact ⟨rfl, rfl, rfl⟩
  | some place =>
    constructor
    · dsimp only [Grid.setCursor]
      omega
    · dsimp only [Grid.setCursor]
      omega
    · rfl

theorem putChar_moved (sound : t.Sound) (plain : Plain c)
    (fits : t.grid.column + widthCells c ≤ t.grid.columns) :
    Moved t (t.putChar c) (widthCells c) := by
  have pos := widthCells_pos c
  have erased := eraseDrawn_moved sound (by omega)
  have column := erased.column
  have columns := erased.columns
  unfold putChar
  dsimp only
  rw [Grid.advance_plain plain (by omega)]
  obtain ⟨sameColumn, sameRow, sameColumns⟩ := settle_cursor
    { t.eraseDrawn with
      grid := { t.eraseDrawn.grid with column := t.eraseDrawn.grid.column + widthCells c } } c
    { drawAt := some ⟨t.eraseDrawn.grid.column, t.eraseDrawn.grid.row, widthCells c⟩ }
  constructor
  · rw [sameColumn]
    dsimp only
    omega
  · rw [sameRow]
    exact erased.row
  · rw [sameColumns]
    exact columns

theorem Moved.trans {u v : Term} {n m : Nat} (first : Moved t u n) (second : Moved u v m) :
    Moved t v (n + m) := by
  constructor
  · rw [second.column, first.column, add_assoc]
  · exact second.row.trans first.row
  · exact second.columns.trans first.columns

end Term

theorem Console.Sound.term {s : Console} (sound : s.Sound) : s.term.Sound :=
  ⟨sound.grid.sound.view, sound.inactive.sound.view⟩

namespace Foreground

variable {f : Foreground}

/-- Plain text went through: the parser is where it was and the cursor has moved. -/
structure Drew (f g : Foreground) (decoder : Utf8Decoder) (count : Nat) : Prop where
  sound : g.Sound
  parser : g.parser = f.parser
  decoder : g.decoder = decoder
  moved : Term.Moved f.console.term g.console.term count

theorem feedChar_plain (sound : f.Sound) (ground : f.parser.state = .ground) (plain : Plain c)
    (fits : f.console.term.grid.column + widthCells c ≤ f.console.term.grid.columns) :
    ∃ g, f.feedChar c = some g ∧ f.Drew g f.decoder (widthCells c) := by
  have fed : f.tty.feedChar c = some { f.tty with term := f.console.term.putChar c } := by
    have parsed : f.tty.parser.feed 2 c = some (some (.print c), f.tty.parser) := by
      have ground' : f.tty.parser.state = .ground := ground
      simp only [AnsiParser.feed, ground', if_neg plain.escape]
    unfold Tty.feedChar
    rw [parsed]
    rfl
  have follows := feedChar_follows sound c
  rw [fed] at follows
  obtain ⟨g, same, soundG, tty, -⟩ := follows
  have term : g.console.term = f.console.term.putChar c := congrArg Tty.term tty
  refine ⟨g, same, soundG, congrArg Tty.parser tty, congrArg Tty.decoder tty, ?_⟩
  rw [term]
  exact Term.putChar_moved sound.console.term plain fits

theorem feedChars_plain (sound : f.Sound) (ground : f.parser.state = .ground)
    (plain : ∀ c ∈ cs, Plain c)
    (fits : f.console.term.grid.column + cells cs ≤ f.console.term.grid.columns) :
    ∃ g, f.feedChars cs = some g ∧ f.Drew g f.decoder (cells cs) := by
  induction cs generalizing f with
  | nil => exact ⟨f, rfl, sound, rfl, rfl, ⟨rfl, rfl, rfl⟩⟩
  | cons c cs ih =>
    have total : cells (c :: cs) = widthCells c + cells cs := rfl
    rw [List.forall_mem_cons] at plain
    obtain ⟨g, first, drew⟩ := feedChar_plain sound ground plain.1 (by omega)
    have column := drew.moved.column
    have columns := drew.moved.columns
    obtain ⟨h, rest, drewH⟩ := ih drew.sound (drew.parser ▸ ground) plain.2 (by omega)
    refine ⟨h, ?_, drewH.sound, drewH.parser.trans drew.parser, drewH.decoder.trans drew.decoder, ?_⟩
    · rw [feedChars, first]
      exact rest
    · rw [total]
      exact drew.moved.trans drewH.moved

theorem feedBytes_plain (sound : f.Sound) (ground : f.parser.state = .ground)
    {out : List Char} {d : Utf8Decoder} (decoded : f.decoder.feedAll bytes = some (out, d))
    (plain : ∀ c ∈ out, Plain c)
    (fits : f.console.term.grid.column + cells out ≤ f.console.term.grid.columns) :
    ∃ g, f.feedBytes bytes = some g ∧ f.Drew g d (cells out) := by
  induction bytes generalizing f out with
  | nil =>
    cases decoded
    exact ⟨f, rfl, sound, rfl, rfl, ⟨rfl, rfl, rfl⟩⟩
  | cons byte bytes ih =>
    obtain ⟨first, next, feeds⟩ := Utf8Decoder.feeds sound.decoder byte
    have split : ∃ rest, next.feedAll bytes = some (rest, d) ∧ out = first ++ rest := by
      rw [Utf8Decoder.feedAll, feeds.feed, Option.bind_eq_bind, Option.bind_some,
        Option.bind_eq_some_iff] at decoded
      obtain ⟨⟨rest, last⟩, others, same⟩ := decoded
      cases same
      exact ⟨rest, others, rfl⟩
    obtain ⟨rest, others, rfl⟩ := split
    rw [List.forall_mem_append] at plain
    rw [cells_append] at fits ⊢
    have start : ({ f with decoder := next } : Foreground).Sound :=
      { sound with decoder := feeds.holds }
    obtain ⟨g, drawn, drew⟩ := feedChars_plain start ground plain.1
      (le_trans (Nat.add_le_add_left (Nat.le_add_right _ _) _) fits)
    have column := drew.moved.column
    have columns := drew.moved.columns
    dsimp only at column columns
    have decoder : g.decoder = next := drew.decoder
    obtain ⟨h, written, drewH⟩ := ih drew.sound (drew.parser ▸ ground) (decoder ▸ others) plain.2
      (by omega)
    refine ⟨h, ?_, drewH.sound, drewH.parser.trans drew.parser, drewH.decoder,
      drew.moved.trans drewH.moved⟩
    simp only [feedBytes, feedByte, feeds.feed, List.take_of_length_le feeds.few, drawn,
      Option.bind_eq_bind, Option.bind_some]
    exact written

/-- The cells that the cursor moves by for the bytes up to a place of the walk, and one for each of
them that the decoder still holds, are those that the editor counts. -/
theorem Steady.cells_counted (steady : f.Steady) (ground : f.parser.state = .ground)
    (fresh : f.decoder = .new) (text : f.graphicsActive = false) {p : Nat}
    (position : WalkPosition bytes p) (plain : ∀ byte ∈ bytes.take p, isPlain byte = true) :
    ∃ out d, Utf8Decoder.new.feedAll (bytes.take p) = some (out, d) ∧
      (f.console.grid.cursorColumn + displayColumn bytes p ≤ f.console.grid.columns + d.pending →
      ∀ chunks, chunks.flatten = bytes.take p → ∃ g, f.writeChunks chunks = some g ∧
        g.decoder = d ∧ g.console.grid.cursorRow = f.console.grid.cursorRow ∧
        g.console.grid.cursorColumn + d.pending =
          f.console.grid.cursorColumn + displayColumn bytes p) := by
  obtain ⟨out, d, decoded, -, walked⟩ := Utf8Decoder.walk_eq (bytes.take p)
  refine ⟨out, d, decoded, ?_⟩
  intro fits chunks whole
  have counted : displayColumn bytes p = cells out + d.pending := by
    rw [displayColumn_eq position, walked, cells_append, cells_replacements]
  have drawn : ∀ c ∈ out, Plain c := by
    intro c mem
    apply (cut_walk (bytes.take p)).plain plain
    rw [walked]
    exact List.mem_append_left _ mem
  obtain ⟨g, written, drew⟩ := feedBytes_plain steady.sound ground (fresh ▸ decoded) drawn
    (show f.console.grid.cursorColumn + cells out ≤ f.console.grid.columns by omega)
  refine ⟨g, ?_, drew.decoder, drew.moved.row, ?_⟩
  · rw [writeChunks_eq steady, text, whole]
    exact written
  · have column : g.console.grid.cursorColumn = f.console.grid.cursorColumn + cells out :=
      drew.moved.column
    omega

end Foreground

/-- The decoder and the editor cut a string at the same places, however it is written, and count
the same cells for it, those of the bytes that the decoder still holds apart. -/
theorem decoder_follows_walk (bytes : List UInt8) :
    (∀ chunks : List (List UInt8), chunks.flatten = bytes →
      ∃ out d, Utf8Decoder.new.feedChunks chunks = some (out, d) ∧
        out ++ List.replicate d.pending replacement = walk bytes ∧
        ∀ cs, fromUtf8 bytes = some cs → out = cs ∧ d.pending = 0) ∧
    (∀ before byte after, bytes = before ++ byte :: after →
      ∃ out d more next, Utf8Decoder.new.feedAll before = some (out, d) ∧
        d.feed byte = some (more, next) ∧ more.length ≤ 4) ∧
    ∀ p, WalkPosition bytes p → ∀ f, Foreground.Reached f → f.parser.state = .ground →
      f.decoder = .new → f.graphicsActive = false → (∀ byte ∈ bytes.take p, isPlain byte = true) →
      ∃ out d, Utf8Decoder.new.feedAll (bytes.take p) = some (out, d) ∧
        (f.console.grid.cursorColumn + displayColumn bytes p ≤
          f.console.grid.columns + d.pending →
        ∀ chunks, chunks.flatten = bytes.take p → ∃ g, f.writeChunks chunks = some g ∧
          g.decoder = d ∧ g.console.grid.cursorRow = f.console.grid.cursorRow ∧
          g.console.grid.cursorColumn + d.pending =
            f.console.grid.cursorColumn + displayColumn bytes p) := by
  refine ⟨?_, ?_, ?_⟩
  · intro chunks whole
    obtain ⟨out, d, decoded, -, walked⟩ := Utf8Decoder.walk_eq bytes
    refine ⟨out, d, ?_, walked.symm, ?_⟩
    · rw [Utf8Decoder.feedChunks_eq, whole]
      exact decoded
    · intro cs valid
      rw [eq_of_fromUtf8 valid, Utf8Decoder.feedAll_text] at decoded
      cases decoded
      exact ⟨rfl, rfl⟩
  · intro before byte after _
    obtain ⟨out, d, decoded, holds, -⟩ := Utf8Decoder.walk_eq before
    obtain ⟨more, next, feeds⟩ := Utf8Decoder.feeds holds byte
    exact ⟨out, d, more, next, decoded, feeds.feed, feeds.few⟩
  · intro p position f reached ground fresh text plain
    exact reached.steady.cells_counted ground fresh text position plain

/-- `A` and the first byte of a character of three: one cell, and one byte that is held. -/
theorem decoder_follows_walk_cut : ∃ f g, Foreground.Reached f ∧
    f.writeChunks [[0x41], [0xE3]] = some g ∧ displayColumn [0x41, 0xE3] 2 = 2 ∧
    g.console.grid.cursorColumn = f.console.grid.cursorColumn + 1 := by
  obtain ⟨f, reached, parser, decoder, text, column, columns⟩ := Small.exists_reached
  have position : WalkPosition [0x41, 0xE3] 2 := .next (.next .start)
  obtain ⟨-, -, counted⟩ := decoder_follows_walk [0x41, 0xE3]
  obtain ⟨out, d, decoded, cells⟩ := counted 2 position f reached (by rw [parser]; rfl) decoder text
    (by decide +kernel)
  have held : d.pending = 1 := by
    have found : Utf8Decoder.new.feedAll ([0x41, 0xE3].take 2) = some (['A'], ⟨[0xE3], 3⟩) := by
      decide
    cases decoded.symm.trans found
    rfl
  have shown : displayColumn [0x41, 0xE3] 2 = 2 := by decide
  obtain ⟨g, written, -, -, moved⟩ := cells (by omega) [[0x41], [0xE3]] rfl
  exact ⟨f, g, reached, written, shown, by omega⟩

/-- The first byte of a character moves nothing, and is one cell for the editor. -/
theorem cells_not_counted : ¬ ∀ (bytes : List UInt8) (p : Nat), WalkPosition bytes p →
    ∀ f, Foreground.Reached f → f.parser.state = .ground → f.decoder = .new →
      f.graphicsActive = false → (∀ byte ∈ bytes.take p, isPlain byte = true) →
      f.console.grid.cursorColumn + displayColumn bytes p ≤ f.console.grid.columns →
      ∃ g, f.writeForegroundBytes (bytes.take p) = some g ∧
        g.console.grid.cursorColumn = f.console.grid.cursorColumn + displayColumn bytes p := by
  intro claim
  obtain ⟨f, reached, parser, decoder, text, column, columns⟩ := Small.exists_reached
  have position : WalkPosition [0xE3] 1 := .next .start
  have ground : f.parser.state = .ground := by
    rw [parser]
    rfl
  have shown : displayColumn [0xE3] 1 = 1 := by decide
  obtain ⟨out, d, decoded, cells⟩ := reached.steady.cells_counted ground decoder text position
    (by decide +kernel)
  have held : d.pending = 1 := by
    have found : Utf8Decoder.new.feedAll ([0xE3].take 1) = some ([], ⟨[0xE3], 3⟩) := by decide
    cases decoded.symm.trans found
    rfl
  obtain ⟨g, written, -, -, moved⟩ := cells (by omega) [[0xE3]] rfl
  obtain ⟨h, said, counted⟩ := claim [0xE3] 1 position f reached ground decoder text
    (by decide +kernel) (by omega)
  have same : f.writeChunks [[0xE3]] = f.writeForegroundBytes [0xE3] := by
    unfold Foreground.writeChunks
    cases f.writeForegroundBytes [0xE3] <;> rfl
  rw [same] at written
  cases written.symm.trans said
  omega

end Zaytos.Terminal
