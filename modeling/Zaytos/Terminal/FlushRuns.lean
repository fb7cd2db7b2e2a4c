import Zaytos.Terminal.Flushes

set_option autoImplicit false

/-! Bytes that are written to the terminal with transfers between them, beside the same bytes with
none (`Console::flush`, `paint_cursor`, `erase_drawn_cursor`). -/
namespace Zaytos.Terminal

namespace Foreground

inductive Event where
  | byte (byte : UInt8)
  | flush

def bytes : List Event → List UInt8
  | [] => []
  | .byte byte :: events => byte :: bytes events
  | .flush :: events => bytes events

def play (f : Foreground) : List Event → Option (Except FlushRangeError Foreground)
  | [] => some (.ok f)
  | .byte byte :: events => do (← f.writeForegroundBytes [byte]).play events
  | .flush :: events => do
    match ← f.console.flush with
    | .error error => some (.error error)
    | .ok console => ({ f with console } : Foreground).play events

/-- No action of these characters erases a cursor that is drawn past the last column. -/
def charsKeep (f : Foreground) : List Char → Bool
  | [] => true
  | c :: cs =>
    (match f.parser.feed 2 c with
      | some (some action, _) => !f.tty.loses action
      | _ => true) &&
    match f.feedChar c with
    | some g => g.charsKeep cs
    | none => true

def byteKeeps (f : Foreground) (byte : UInt8) : Bool :=
  f.graphicsActive ||
    match f.decoder.feed byte with
    | some (decoded, decoder) => ({ f with decoder } : Foreground).charsKeep (decoded.take 4)
    | none => true

def flushKeeps (f : Foreground) : Bool :=
  !f.tty.term.pastEnd || (f.tty.term.cursorVisible &&
    f.tty.term.drawnAt == some (f.tty.term.grid.column, f.tty.term.grid.row))

def keeps (f : Foreground) : List Event → Bool
  | [] => true
  | .byte byte :: events => f.byteKeeps byte &&
    match f.writeForegroundBytes [byte] with
    | some g => g.keeps events
    | none => true
  | .flush :: events => f.flushKeeps &&
    match f.console.flush with
    | some (.ok console) => ({ f with console } : Foreground).keeps events
    | _ => true

structure Alike (f g : Foreground) : Prop where
  left : f.Sound
  right : g.Sound
  veiled : f.tty.Veiled g.tty

variable {f g : Foreground}

theorem Alike.lift {r r' : Option Foreground} {o o' : Option Tty} (left : f.Follows r o)
    (right : g.Follows r' o') (related : Option.Rel Tty.Veiled o o') :
    Option.Rel Alike r r' := by
  cases related with
  | none =>
    have stops : r = none := left
    have stops' : r' = none := right
    rw [stops, stops']
    exact .none
  | some veiled =>
    obtain ⟨f', rfl, soundF, rfl, -⟩ := left
    obtain ⟨g', rfl, soundG, rfl, -⟩ := right
    exact .some ⟨soundF, soundG, veiled⟩

theorem Alike.feedChar (alike : Alike f g) {c : Char} (keeps : f.charsKeep [c] = true) :
    Option.Rel Alike (f.feedChar c) (g.feedChar c) := by
  obtain ⟨-, action, parser, fed, sound, fits⟩ := AnsiParser.feed_total alike.left.parser c 0
  have same : f.parser = g.parser := congrArg Tty.parser alike.veiled.same
  have fed' : g.parser.feed 2 c = some (action, parser) := same ▸ fed
  have next : Alike { f with parser } { g with parser } := by
    have veiled : Tty.Veiled ({ f with parser } : Foreground).tty ({ g with parser } : Foreground).tty :=
      ⟨congrArg (fun t => ({ t with parser } : Tty)) alike.veiled.same, alike.veiled.past⟩
    exact ⟨{ alike.left with parser := sound }, { alike.right with parser := sound }, veiled⟩
  unfold charsKeep at keeps
  rw [fed, Bool.and_eq_true] at keeps
  unfold Foreground.feedChar
  simp only [fed, fed', Option.bind_eq_bind, Option.bind_some]
  cases action with
  | none => exact .some next
  | some action =>
    have kept : f.tty.loses action = false := by simpa using keeps.1
    exact Alike.lift (act_follows next.left (fits action rfl))
      (act_follows next.right (fits action rfl))
      (next.veiled.act next.left.console.term next.right.console.term kept)

theorem charsKeep_cons {c : Char} {cs : List Char} (keeps : f.charsKeep (c :: cs) = true) :
    f.charsKeep [c] = true ∧ ∀ f', f.feedChar c = some f' → f'.charsKeep cs = true := by
  rw [charsKeep, Bool.and_eq_true] at keeps
  rw [charsKeep]
  refine ⟨?_, ?_⟩
  · rw [keeps.1]
    cases f.feedChar c <;> rfl
  · intro f' fed
    have rest := keeps.2
    rw [fed] at rest
    exact rest

theorem Alike.feedChars (alike : Alike f g) {cs : List Char} (keeps : f.charsKeep cs = true) :
    Option.Rel Alike (f.feedChars cs) (g.feedChars cs) := by
  induction cs generalizing f g with
  | nil => exact .some alike
  | cons c cs ih =>
    obtain ⟨first, rest⟩ := charsKeep_cons keeps
    have step := alike.feedChar first
    unfold Foreground.feedChars
    cases fed : f.feedChar c with
    | none =>
      rw [fed] at step
      cases fed' : g.feedChar c with
      | none => exact .none
      | some g' =>
        rw [fed'] at step
        cases step
    | some f' =>
      rw [fed] at step
      cases fed' : g.feedChar c with
      | none =>
        rw [fed'] at step
        cases step
      | some g' =>
        rw [fed'] at step
        cases step with
        | some next => exact ih next (rest f' fed)

theorem Alike.write (alike : Alike f g) {byte : UInt8} (keeps : f.byteKeeps byte = true) :
    Option.Rel Alike (f.writeForegroundBytes [byte]) (g.writeForegroundBytes [byte]) := by
  have graphics : f.graphicsActive = g.graphicsActive :=
    congrArg Tty.graphicsActive alike.veiled.same
  have same : f.decoder = g.decoder := congrArg Tty.decoder alike.veiled.same
  unfold writeForegroundBytes
  rw [← graphics]
  unfold byteKeeps at keeps
  cases drawing : f.graphicsActive with
  | true => exact .some alike
  | false =>
    obtain ⟨out, decoder, feeds⟩ := Utf8Decoder.feeds alike.left.decoder byte
    have fed : g.decoder.feed byte = some (out, decoder) := same ▸ feeds.feed
    have kept : ({ f with decoder } : Foreground).charsKeep (out.take 4) = true := by
      rw [feeds.feed, Bool.or_eq_true] at keeps
      rcases keeps with on | kept
      · rw [drawing] at on
        cases on
      · exact kept
    have next : Alike { f with decoder } { g with decoder } := by
      have veiled : Tty.Veiled ({ f with decoder } : Foreground).tty
          ({ g with decoder } : Foreground).tty :=
        ⟨congrArg (fun t => ({ t with decoder } : Tty)) alike.veiled.same, alike.veiled.past⟩
      exact ⟨{ alike.left with decoder := feeds.holds }, { alike.right with decoder := feeds.holds },
        veiled⟩
    have fedBytes : ∀ h : Foreground, h.feedBytes [byte] = h.feedByte byte := by
      intro h
      unfold feedBytes
      cases h.feedByte byte <;> rfl
    simp only [Bool.false_eq_true, if_false, fedBytes, feedByte, feeds.feed, fed,
      Option.bind_eq_bind, Option.bind_some]
    exact next.feedChars kept

theorem flush_tty (sound : f.Sound) : ∃ console, f.console.flush = some (.ok console) ∧
    ({ f with console } : Foreground).Sound ∧
    ({ f with console } : Foreground).tty = { f.tty with term := f.tty.term.refresh } := by
  obtain ⟨console, flushed, done⟩ := Console.flush_total sound.console
  refine ⟨console, flushed, { sound with console := done.sound }, ?_⟩
  have drawn : console.term = f.console.term.refresh := by
    have display := congrArg Display.term done.display
    rw [Display.refresh_term] at display
    cases requested : f.console.repaintRequested with
    | false =>
      rw [requested] at display
      exact display
    | true =>
      rw [requested] at display
      exact display
  unfold Foreground.tty
  rw [drawn]

theorem Alike.flush (alike : Alike f g) (keeps : f.flushKeeps = true) :
    ∃ console, f.console.flush = some (.ok console) ∧ Alike { f with console } g := by
  obtain ⟨console, flushed, sound, tty⟩ := flush_tty alike.left
  refine ⟨console, flushed, sound, alike.right, ?_⟩
  have kept : f.tty.term.pastEnd = true → f.tty.term.cursorVisible = true ∧
      f.tty.term.drawnAt = some (f.tty.term.grid.column, f.tty.term.grid.row) := by
    intro past
    simpa [flushKeeps, past] using keeps
  rw [tty]
  exact alike.veiled.refresh alike.left.console.term kept

theorem Steady.write_cons (steady : f.Steady) (byte : UInt8) (rest : List UInt8) :
    f.writeForegroundBytes (byte :: rest) =
      (f.writeForegroundBytes [byte]).bind fun g => g.writeForegroundBytes rest := by
  have chunks := writeChunks_eq steady [[byte], rest]
  have whole : f.writeForegroundBytes (byte :: rest) = f.writeChunks [[byte], rest] := by
    rw [chunks]
    simp [writeForegroundBytes]
  have last : ∀ g : Foreground, g.writeChunks [rest] = g.writeForegroundBytes rest := by
    intro g
    unfold writeChunks
    cases g.writeForegroundBytes rest <;> rfl
  rw [whole, writeChunks, Option.bind_eq_bind]
  simp only [last]

theorem Alike.play (alike : Alike f g) (steady : g.Steady) {events : List Event}
    (keeps : f.keeps events = true) :
    Option.Rel (fun r h => ∃ f', r = .ok f' ∧ f'.tty.hidden = h.tty.hidden)
      (f.play events) (g.writeForegroundBytes (bytes events)) := by
  induction events generalizing f g with
  | nil =>
    have written : g.writeForegroundBytes (bytes []) = some g := by
      unfold writeForegroundBytes
      split <;> rfl
    rw [written]
    exact .some ⟨f, rfl, alike.veiled.same⟩
  | cons event events ih =>
    cases event with
    | byte byte =>
      rw [Foreground.keeps, Bool.and_eq_true] at keeps
      have step := alike.write keeps.1
      have rest := keeps.2
      unfold Foreground.play bytes
      rw [steady.write_cons, Option.bind_eq_bind]
      cases written : f.writeForegroundBytes [byte] with
      | none =>
        rw [written] at step
        cases written' : g.writeForegroundBytes [byte] with
        | none => exact .none
        | some g' =>
          rw [written'] at step
          cases step
      | some f' =>
        rw [written] at step rest
        cases written' : g.writeForegroundBytes [byte] with
        | none =>
          rw [written'] at step
          cases step
        | some g' =>
          rw [written'] at step
          cases step with
          | some next => exact ih next (writeForegroundBytes_steady steady written') rest
    | flush =>
      rw [Foreground.keeps, Bool.and_eq_true] at keeps
      obtain ⟨console, flushed, next⟩ := alike.flush keeps.1
      have rest := keeps.2
      unfold Foreground.play bytes
      rw [flushed] at rest ⊢
      exact ih next steady rest

/-- Transfers change nothing but where the cursor is drawn, as long as no cursor is erased that is
drawn past the last column. -/
theorem Reached.flushes_invisible (reached : f.Reached) {events : List Event}
    (keeps : f.keeps events = true) :
    Option.Rel (fun r h => ∃ f', r = .ok f' ∧ f'.tty.hidden = h.tty.hidden)
      (f.play events) (f.writeForegroundBytes (bytes events)) := by
  have alike : Alike f f := ⟨reached.steady.sound, reached.steady.sound, rfl, id⟩
  exact alike.play reached.steady keeps

/-- A line is filled and transferred before it is ended. -/
theorem flushes_invisible_small : ∃ f, Reached f ∧
    Option.Rel (fun r h => ∃ f', r = .ok f' ∧ f'.tty.hidden = h.tty.hidden)
      (f.play [.byte 0x41, .byte 0x42, .flush, .byte 0x0A])
      (f.writeForegroundBytes [0x41, 0x42, 0x0A]) := by
  have keeps : (Small.given (Small.given (Small.new 16 (by decide) (by decide)))).any (fun console =>
        (start console).keeps [.byte 0x41, .byte 0x42, .flush, .byte 0x0A]) = true := by
    decide +kernel
  obtain ⟨console, new, keeps⟩ := Small.made_any keeps
  have reached : Reached (start console) :=
    .start (Small.memory 16 _ _) (Small.pixels_length 16 _ _) (by decide) new
  exact ⟨_, reached, reached.flushes_invisible keeps⟩

/-- After a line is filled and transferred the next character is put over the line's last. -/
theorem flush_visible : ¬ ∀ f, Reached f → ∀ events,
    Option.Rel (fun r h => ∃ f', r = .ok f' ∧ f'.tty.hidden = h.tty.hidden)
      (f.play events) (f.writeForegroundBytes (bytes events)) := by
  intro claim
  have columns : (Small.given (Small.given (Small.new 16 (by decide) (by decide)))).any (fun console =>
      (Small.given ((start console).play [.byte 0x41, .byte 0x42, .flush, .byte 0x43])).any fun f =>
      ((start console).writeForegroundBytes [0x41, 0x42, 0x43]).any fun h =>
        f.console.grid.cursorColumn == 2 && h.console.grid.cursorColumn == 1) = true := by
    decide +kernel
  obtain ⟨console, new, columns⟩ := Small.made_any columns
  have reached : Reached (start console) :=
    .start (Small.memory 16 _ _) (Small.pixels_length 16 _ _) (by decide) new
  have same := claim _ reached [.byte 0x41, .byte 0x42, .flush, .byte 0x43]
  obtain ⟨f, played, columns⟩ := Small.given_any columns
  obtain ⟨h, written, columns⟩ := (Option.any_eq_true _ _).mp columns
  rw [played, show bytes [.byte 0x41, .byte 0x42, .flush, .byte 0x43] = [0x41, 0x42, 0x43]
    from rfl, written] at same
  cases same with
  | some related =>
    obtain ⟨f', eq, same⟩ := related
    cases eq
    have column : f.console.grid.cursorColumn = h.console.grid.cursorColumn :=
      congrArg (fun t => t.term.grid.column) same
    simp only [Bool.and_eq_true, beq_iff_eq] at columns
    omega

end Foreground

end Zaytos.Terminal
