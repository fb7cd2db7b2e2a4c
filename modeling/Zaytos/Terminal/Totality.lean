import Zaytos.Terminal.Foreground

set_option autoImplicit false

/-! When writing to the terminal comes through: a number of lines is multiplied by the height of a
cell before it is cut off at the number of lines there are. -/
namespace Zaytos.Terminal

/-- A number of lines that has its number of pixels in a `u32`. -/
def AnsiAction.small : AnsiAction → Bool
  | .insertLines count => count < 2 ^ 28
  | .deleteLines count => count < 2 ^ 28
  | _ => true

theorem AnsiParser.feedAll_total {p : AnsiParser} (sound : p.Sound) (cs : List Char) :
    ∃ actions q, p.feedAll cs = some (actions, q) ∧ q.Sound := by
  induction cs generalizing p with
  | nil => exact ⟨[], p, rfl, sound⟩
  | cons c cs ih =>
    obtain ⟨-, action, next, fed, soundNext, -⟩ := AnsiParser.feed_total sound c 0
    obtain ⟨actions, q, rest, soundQ⟩ := ih soundNext
    refine ⟨action.toList ++ actions, q, ?_, soundQ⟩
    rw [feedAll, fed, Option.bind_eq_bind, Option.bind_some]
    dsimp only
    rw [rest]
    rfl

namespace Tty

variable {t u : Tty}

theorem act_isSome (few : t.term.grid.column ≤ maxTerminalCells) (action : AnsiAction) :
    (t.act action).isSome = action.small := by
  have before : 8 * (t.term.grid.column + 1) < 2 ^ 32 := by
    unfold maxTerminalCells at few
    omega
  have lines : ∀ count, decide (count < 2 ^ 28) = decide (16 * count < 2 ^ 32) := by
    intro count
    rw [decide_eq_decide]
    omega
  cases action with
  | print c => rfl
  | cursorTo row col => rfl
  | eraseDisplay scope =>
    unfold act Term.eraseInDisplay Term.eraseBefore
    cases scope with
    | after => rfl
    | before =>
      have before' : 8 * ((t.term.eraseRows 0 t.term.grid.row).grid.column + 1) < 2 ^ 32 := before
      simp only [before', if_true]
      rfl
    | all => rfl
  | eraseLine scope =>
    unfold act Term.eraseInLine Term.eraseBefore
    cases scope with
    | after => rfl
    | before =>
      simp only [before, if_true]
      rfl
    | all => rfl
  | insertLines count =>
    unfold act Term.insertLines AnsiAction.small
    dsimp only
    rw [lines]
    by_cases small : 16 * count < 2 ^ 32
    · rw [if_pos small, decide_eq_true small]
      rfl
    · rw [if_neg small, decide_eq_false small]
      rfl
  | deleteLines count =>
    unfold act Term.deleteLines AnsiAction.small
    dsimp only
    rw [lines]
    by_cases small : 16 * count < 2 ^ 32
    · rw [if_pos small, decide_eq_true small]
      rfl
    · rw [if_neg small, decide_eq_false small]
      rfl
  | setGraphics graphics => rfl
  | showCursor visible => rfl
  | alternateScreen alternate => rfl

theorem flushPending_kept (t : Tty) : t.flushPending.parser = t.parser ∧
    t.flushPending.decoder = t.decoder ∧ t.flushPending.graphicsActive = t.graphicsActive := by
  unfold flushPending
  by_cases empty : t.pending = []
  · rw [if_pos empty]
    exact ⟨rfl, rfl, rfl⟩
  · rw [if_neg empty]
    exact ⟨rfl, rfl, rfl⟩

theorem act_kept {action : AnsiAction} (acted : t.act action = some u) :
    u.parser = t.parser ∧ u.decoder = t.decoder ∧ u.graphicsActive = t.graphicsActive := by
  have bound : ∀ o : Option Term, (o.bind fun term => some { t with term }) = some u →
      u.parser = t.parser ∧ u.decoder = t.decoder ∧ u.graphicsActive = t.graphicsActive := by
    intro o same
    cases o with
    | none => cases same
    | some term =>
      cases same
      exact ⟨rfl, rfl, rfl⟩
  cases action with
  | eraseDisplay scope => exact bound _ acted
  | eraseLine scope => exact bound _ acted
  | insertLines count => exact bound _ acted
  | deleteLines count => exact bound _ acted
  | alternateScreen alternate =>
    unfold act at acted
    cases acted
    cases alternate with
    | true => exact ⟨rfl, rfl, rfl⟩
    | false => exact flushPending_kept _
  | _ =>
    cases acted
    exact ⟨rfl, rfl, rfl⟩

end Tty

namespace Foreground

variable {f g : Foreground}

theorem Follows.isSome {r : Option Foreground} {o : Option Tty} (follows : f.Follows r o) :
    r.isSome = o.isSome := by
  cases o with
  | none =>
    have stops : r = none := follows
    rw [stops]
    rfl
  | some t =>
    obtain ⟨g, rfl, -⟩ := follows
    rfl

def actions (p : AnsiParser) (d : Utf8Decoder) : List UInt8 → Option (List AnsiAction)
  | [] => some []
  | byte :: bytes => do
    let (decoded, d) ← d.feed byte
    let (first, p) ← p.feedAll (decoded.take 4)
    let rest ← actions p d bytes
    some (first ++ rest)

/-- One `write` after the other. -/
def writeChunks (f : Foreground) : List (List UInt8) → Option Foreground
  | [] => some f
  | bytes :: chunks => do (← f.writeForegroundBytes bytes).writeChunks chunks

theorem Steady.column_le (steady : f.Steady) :
    f.tty.term.grid.column ≤ maxTerminalCells := by
  have column := steady.sound.console.grid.sound.column
  rw [steady.sound.console.grid.columns] at column
  exact column.trans steady.few

structure Kept (f g : Foreground) (parser : AnsiParser) : Prop where
  steady : g.Steady
  parser : g.parser = parser
  decoder : g.decoder = f.decoder
  graphics : g.graphicsActive = f.graphicsActive

theorem feedChar_total (steady : f.Steady) (c : Char) :
    ∃ action parser, f.parser.feed 2 c = some (action, parser) ∧
      (f.feedChar c).isSome = action.toList.all AnsiAction.small ∧
      ∀ g, f.feedChar c = some g → f.Kept g parser := by
  obtain ⟨-, action, parser, fed, soundParser, fits⟩ := AnsiParser.feed_total steady.sound.parser c 0
  have next : ({ f with parser } : Foreground).Steady :=
    ⟨{ steady.sound with parser := soundParser }, steady.few⟩
  refine ⟨action, parser, fed, ?_⟩
  unfold feedChar
  rw [fed, Option.bind_eq_bind, Option.bind_some]
  cases action with
  | none =>
    refine ⟨rfl, ?_⟩
    intro g same
    cases same
    exact ⟨next, rfl, rfl, rfl⟩
  | some action =>
    have follows := act_follows next.sound (fits action rfl)
    constructor
    · have whole := follows.isSome
      rw [Tty.act_isSome next.column_le] at whole
      simpa using whole
    · intro g same
      have after := next.follow follows same
      dsimp only at same
      rw [same] at follows
      cases acted : ({ f with parser } : Foreground).tty.act action with
      | none =>
        rw [acted] at follows
        cases follows
      | some t =>
        rw [acted] at follows
        obtain ⟨h, eq, -, tty, -⟩ := follows
        cases eq
        obtain ⟨sameParser, sameDecoder, sameGraphics⟩ := Tty.act_kept acted
        rw [← tty] at sameParser sameDecoder sameGraphics
        exact ⟨after, sameParser, sameDecoder, sameGraphics⟩

theorem feedChars_total (steady : f.Steady) (cs : List Char) :
    ∃ actions parser, f.parser.feedAll cs = some (actions, parser) ∧
      (f.feedChars cs).isSome = actions.all AnsiAction.small ∧
      ∀ g, f.feedChars cs = some g → f.Kept g parser := by
  induction cs generalizing f with
  | nil =>
    refine ⟨[], f.parser, rfl, rfl, ?_⟩
    intro g same
    cases same
    exact ⟨steady, rfl, rfl, rfl⟩
  | cons c cs ih =>
    obtain ⟨action, parser, fed, first, next⟩ := feedChar_total steady c
    obtain ⟨actions, last, parsed, -⟩ := AnsiParser.feedAll_total steady.sound.parser (c :: cs)
    have split : ∃ rest, parser.feedAll cs = some (rest, last) ∧
        actions = action.toList ++ rest := by
      rw [AnsiParser.feedAll, fed, Option.bind_eq_bind, Option.bind_some,
        Option.bind_eq_bind, Option.bind_eq_some_iff] at parsed
      obtain ⟨⟨rest, q⟩, others, same⟩ := parsed
      cases same
      exact ⟨rest, others, rfl⟩
    obtain ⟨rest, others, rfl⟩ := split
    refine ⟨_, last, parsed, ?_⟩
    rw [feedChars, List.all_append, ← first]
    cases one : f.feedChar c with
    | none =>
      refine ⟨rfl, ?_⟩
      intro g same
      cases same
    | some g =>
      have kept := next g one
      obtain ⟨actions, q, found, all, after⟩ := ih kept.steady
      rw [kept.parser, others] at found
      cases found
      refine ⟨?_, ?_⟩
      · rw [Option.isSome_some, Bool.true_and, ← all]
        rfl
      · intro h same
        have done := after h same
        exact ⟨done.steady, done.parser, done.decoder.trans kept.decoder,
          done.graphics.trans kept.graphics⟩

theorem actions_total {p : AnsiParser} {d : Utf8Decoder} (sound : p.Sound) (holds : d.Holds)
    (bytes : List UInt8) : ∃ as, actions p d bytes = some as := by
  induction bytes generalizing p d with
  | nil => exact ⟨[], rfl⟩
  | cons byte bytes ih =>
    obtain ⟨out, decoder, feeds⟩ := Utf8Decoder.feeds holds byte
    obtain ⟨first, parser, parsed, soundParser⟩ :=
      AnsiParser.feedAll_total sound (out.take 4)
    obtain ⟨rest, others⟩ := ih soundParser feeds.holds
    refine ⟨first ++ rest, ?_⟩
    simp only [actions, feeds.feed, parsed, others, Option.bind_eq_bind, Option.bind_some]

theorem feedBytes_total (steady : f.Steady) (bytes : List UInt8) :
    ∃ as, actions f.parser f.decoder bytes = some as ∧
      (f.feedBytes bytes).isSome = as.all AnsiAction.small ∧
      ∀ g, f.feedBytes bytes = some g → g.Steady ∧ g.graphicsActive = f.graphicsActive := by
  induction bytes generalizing f with
  | nil =>
    refine ⟨[], rfl, rfl, ?_⟩
    intro g same
    cases same
    exact ⟨steady, rfl⟩
  | cons byte bytes ih =>
    obtain ⟨out, decoder, feeds⟩ := Utf8Decoder.feeds steady.sound.decoder byte
    have start : ({ f with decoder } : Foreground).Steady :=
      ⟨{ steady.sound with decoder := feeds.holds }, steady.few⟩
    obtain ⟨first, parser, parsed, small, next⟩ := feedChars_total start (out.take 4)
    obtain ⟨first', parser', parsed', soundParser⟩ :=
      AnsiParser.feedAll_total steady.sound.parser (out.take 4)
    cases parsed.symm.trans parsed'
    obtain ⟨rest, others⟩ := actions_total soundParser feeds.holds bytes
    have whole : actions f.parser f.decoder (byte :: bytes) = some (first ++ rest) := by
      dsimp only at parsed
      simp only [actions, feeds.feed, parsed, others, Option.bind_eq_bind, Option.bind_some]
    have step : f.feedByte byte = ({ f with decoder } : Foreground).feedChars (out.take 4) := by
      unfold feedByte
      rw [feeds.feed]
      rfl
    refine ⟨_, whole, ?_⟩
    rw [feedBytes, List.all_append, ← small, ← step]
    cases one : f.feedByte byte with
    | none =>
      refine ⟨rfl, ?_⟩
      intro g same
      cases same
    | some g =>
      have kept := next g (step ▸ one)
      obtain ⟨as, found, all, after⟩ := ih kept.steady
      rw [kept.parser, kept.decoder] at found
      dsimp only at found
      rw [others] at found
      cases found
      refine ⟨?_, ?_⟩
      · rw [Option.isSome_some, Bool.true_and, ← all]
        rfl
      · intro h same
        obtain ⟨steadyH, graphics⟩ := after h same
        exact ⟨steadyH, graphics.trans kept.graphics⟩

theorem feedBytes_append (f : Foreground) (first second : List UInt8) :
    f.feedBytes (first ++ second) = (f.feedBytes first).bind fun g => g.feedBytes second := by
  induction first generalizing f with
  | nil => rfl
  | cons byte first ih =>
    simp only [List.cons_append, feedBytes, Option.bind_eq_bind, ih, Option.bind_assoc]

theorem writeChunks_eq (steady : f.Steady) (chunks : List (List UInt8)) :
    f.writeChunks chunks =
      if f.graphicsActive then some f else f.feedBytes chunks.flatten := by
  induction chunks generalizing f with
  | nil => split <;> rfl
  | cons bytes chunks ih =>
    unfold writeChunks writeForegroundBytes
    rw [List.flatten_cons, feedBytes_append, Option.bind_eq_bind]
    cases graphics : f.graphicsActive with
    | true =>
      simp only [if_true, Option.bind_some]
      rw [ih steady, graphics]
      rfl
    | false =>
      simp only [Bool.false_eq_true, if_false]
      cases written : f.feedBytes bytes with
      | none => rfl
      | some g =>
        obtain ⟨as, -, -, after⟩ := feedBytes_total steady bytes
        obtain ⟨steadyG, graphicsG⟩ := after g written
        rw [Option.bind_some, Option.bind_some, ih steadyG, graphicsG, graphics]
        rfl

/-- Writing comes through with the cursor on the screen or just past the end of a row, and a
character takes two calls of the parser at most. -/
def Total (f : Foreground) (chunks : List (List UInt8)) : Prop :=
  (∃ g, f.writeChunks chunks = some g ∧ g.console.grid.cursorRow < g.console.grid.rows ∧
    g.console.grid.cursorColumn ≤ g.console.grid.columns) ∧
  ∀ c calls, f.parser.feed (calls + 2) c = f.parser.feed 2 c ∧ (f.parser.feed 2 c).isSome = true

def ShiftsFit (f : Foreground) (bytes : List UInt8) : Prop :=
  f.graphicsActive = true ∨
    ∃ as, actions f.parser f.decoder bytes = some as ∧ as.all AnsiAction.small = true

theorem Steady.total_iff_fits (steady : f.Steady) (chunks : List (List UInt8)) :
    f.Total chunks ↔ f.ShiftsFit chunks.flatten := by
  have calls : ∀ c calls, f.parser.feed (calls + 2) c = f.parser.feed 2 c ∧
      (f.parser.feed 2 c).isSome = true := by
    intro c calls
    obtain ⟨same, action, parser, fed, -⟩ := AnsiParser.feed_total steady.sound.parser c calls
    exact ⟨same, by rw [fed]; rfl⟩
  obtain ⟨as, found, small, after⟩ := feedBytes_total steady chunks.flatten
  unfold Total ShiftsFit
  rw [writeChunks_eq steady]
  cases graphics : f.graphicsActive with
  | true =>
    have grid := steady.sound.console.grid.sound
    exact ⟨fun _ => .inl rfl, fun _ => ⟨⟨f, rfl, grid.row, grid.column⟩, calls⟩⟩
  | false =>
    simp only [Bool.false_eq_true, if_false, false_or]
    constructor
    · intro total
      obtain ⟨⟨g, written, -⟩, -⟩ := total
      refine ⟨as, found, ?_⟩
      rw [← small, written]
      rfl
    · intro fits
      obtain ⟨as', found', fits⟩ := fits
      cases found.symm.trans found'
      rw [← small] at fits
      obtain ⟨g, written⟩ := Option.isSome_iff_exists.mp fits
      have grid := (after g written).1.sound.console.grid.sound
      exact ⟨⟨g, written, grid.row, grid.column⟩, calls⟩

/-- Writing to the terminal comes through exactly if no line shift is of too many lines. -/
theorem Reached.total_iff (reached : f.Reached) (chunks : List (List UInt8)) :
    f.Total chunks ↔ f.ShiftsFit chunks.flatten :=
  reached.steady.total_iff_fits chunks

end Foreground

namespace Small

theorem exists_reached : ∃ f, Foreground.Reached f ∧ f.parser = .new ∧ f.decoder = .new ∧
    f.graphicsActive = false ∧ f.console.grid.cursorColumn = 0 ∧ f.console.grid.columns = 2 := by
  obtain ⟨made, new⟩ := new_sixteen
  obtain ⟨s, rfl, -, -, -, -, display, -⟩ := Console.new_total (memory 16 (by decide) (by decide))
    (pixels_length 16 (by decide) (by decide)) new
  exact ⟨.start s, .start (memory 16 _ _) (pixels_length 16 _ _) (by decide) new,
    rfl, rfl, rfl, congrArg (fun d => d.term.grid.column) display,
    congrArg (fun d => d.term.grid.columns) display⟩

end Small

namespace Foreground

theorem total_iff_text : ∃ f, Reached f ∧
    (f.Total [[0x41], [0x0A, 0x1B], [0x5B, 0x4C]] ↔
      f.ShiftsFit [0x41, 0x0A, 0x1B, 0x5B, 0x4C]) := by
  obtain ⟨f, reached, -⟩ := Small.exists_reached
  exact ⟨f, reached, Reached.total_iff reached [[0x41], [0x0A, 0x1B], [0x5B, 0x4C]]⟩

/-- `ESC [ 268435456 L`: the pixels of so many lines are not in a `u32`. -/
def tooManyLines : List UInt8 :=
  [0x1B, 0x5B, 0x32, 0x36, 0x38, 0x34, 0x33, 0x35, 0x34, 0x35, 0x36, 0x4C]

theorem write_not_total : ¬ ∀ f, Reached f → ∀ chunks, f.Total chunks := by
  intro claim
  obtain ⟨f, reached, parser, decoder, text, -⟩ := Small.exists_reached
  have fits := (reached.steady.total_iff_fits [tooManyLines]).mp (claim f reached [tooManyLines])
  unfold ShiftsFit at fits
  rw [parser, decoder, text] at fits
  have found : actions .new .new [tooManyLines].flatten = some [.insertLines 268435456] := by
    decide
  rw [found] at fits
  simp [AnsiAction.small] at fits

end Foreground

end Zaytos.Terminal
