import Zaytos.Terminal.TextMode
import Zaytos.Terminal.Utf8

set_option autoImplicit false

/-! The bytes that are written to the console in the foreground do to its cells what they do to a
terminal. -/
namespace Zaytos.Terminal

namespace Console

/-- The operation goes through if the terminal has it do so, and leaves this terminal. -/
def Turns (s : Console) (r : Option Console) : Option Term → Prop
  | none => r = none
  | some term => ∃ t, r = some t ∧ t.Sound ∧ t.term = term ∧
      t.back.layout = s.back.layout

variable {s : Console} {r : Option Console}

theorem Gives.turns {d : Display} (gives : s.Gives r d) :
    s.Turns r (some d.term) := by
  obtain ⟨t, same, sound, display, tracks⟩ := gives
  exact ⟨t, same, sound, congrArg Display.term display, tracks.layout⟩

theorem Follows.turns {o : Option Display} {o' : Option Term} (follows : s.Follows r o)
    (term : o.map Display.term = o') : s.Turns r o' := by
  subst term
  cases o with
  | none => exact follows
  | some d => exact Gives.turns follows

theorem putChar_turns (sound : s.Sound) (c : Char) :
    s.Turns (s.putChar c) (some (s.term.putChar c)) := by
  have turns := (putChar_gives sound c).turns
  rw [Display.putChar_term] at turns
  exact turns

theorem putStr_turns (sound : s.Sound) (cs : List Char) :
    s.Turns (s.putStr cs) (some (s.term.putStr cs)) := by
  induction cs generalizing s with
  | nil => exact ⟨s, rfl, sound, rfl, rfl⟩
  | cons c cs ih =>
    obtain ⟨t, put, soundT, term, layout⟩ := putChar_turns sound c
    obtain ⟨u, rest, soundU, termU, layoutU⟩ := ih soundT
    rw [putStr, put]
    refine ⟨u, rest, soundU, ?_, layoutU.trans layout⟩
    rw [termU, term]
    rfl

end Console

namespace Foreground

structure Sound (f : Foreground) : Prop where
  console : f.console.Sound
  parser : f.parser.Sound
  decoder : f.decoder.Holds

def tty (f : Foreground) : Tty where
  term := f.console.term
  parser := f.parser
  decoder := f.decoder
  pending := f.pending
  graphicsActive := f.graphicsActive

def Follows (f : Foreground) (r : Option Foreground) : Option Tty → Prop
  | none => r = none
  | some t => ∃ g, r = some g ∧ g.Sound ∧ g.tty = t ∧
      g.console.back.layout = f.console.back.layout

variable {f g : Foreground} {r : Option Foreground} {o o' : Option Tty}

theorem follows_self (sound : f.Sound) : f.Follows (some f) (some f.tty) :=
  ⟨f, rfl, sound, rfl, rfl⟩

theorem Follows.bind {next : Foreground → Option Foreground} {after : Tty → Option Tty}
    (first : f.Follows r o)
    (second : ∀ g : Foreground, g.Sound → g.console.back.layout = f.console.back.layout →
      g.Follows (next g) (after g.tty)) :
    f.Follows (r.bind next) (o.bind after) := by
  cases o with
  | none =>
    have stops : r = none := first
    rw [stops]
    rfl
  | some t =>
    obtain ⟨g, rfl, sound, rfl, layout⟩ := first
    have rest := second g sound layout
    rw [Option.bind_some, Option.bind_some]
    cases goesOn : after g.tty with
    | none =>
      rw [goesOn] at rest
      exact rest
    | some t' =>
      rw [goesOn] at rest
      obtain ⟨h, same, soundH, ttyH, layoutH⟩ := rest
      exact ⟨h, same, soundH, ttyH, layoutH.trans layout⟩

theorem Sound.turned (sound : f.Sound) {r : Option Console} {o : Option Term}
    (turns : f.console.Turns r o) :
    f.Follows (r.bind fun console => some { f with console })
      (o.bind fun term => some { f.tty with term }) := by
  cases o with
  | none =>
    have stops : r = none := turns
    rw [stops]
    rfl
  | some term =>
    obtain ⟨console, rfl, soundConsole, rfl, layout⟩ := turns
    exact ⟨{ f with console }, rfl, { sound with console := soundConsole }, rfl, layout⟩

theorem flushPendingToScreen_follows (sound : f.Sound) :
    f.Follows f.flushPendingToScreen (some f.tty.flushPending) := by
  unfold flushPendingToScreen Tty.flushPending
  by_cases empty : f.pending = []
  · have empty' : f.tty.pending = [] := empty
    rw [if_pos empty, if_pos empty']
    exact follows_self sound
  · have empty' : ¬ f.tty.pending = [] := empty
    rw [if_neg empty, if_neg empty']
    obtain ⟨s, put, soundS, termS, layoutS⟩ := Console.putStr_turns sound.console
      (f.pending.map fun byte => Char.ofNat byte.toNat)
    rw [put, Option.bind_eq_bind, Option.bind_some]
    by_cases ended : f.pending.getLast? = some 0x0A
    · have ended' : f.tty.pending.getLast? = some 0x0A := ended
      rw [if_pos ended]
      dsimp only
      rw [if_pos ended']
      exact ⟨_, rfl, { sound with console := soundS },
        by unfold tty; rw [termS], layoutS⟩
    · have ended' : ¬ f.tty.pending.getLast? = some 0x0A := ended
      obtain ⟨t, broken, soundT, termT, layoutT⟩ := Console.putChar_turns soundS '\n'
      rw [if_neg ended, broken]
      dsimp only
      rw [if_neg ended']
      refine ⟨_, rfl, { sound with console := soundT }, ?_,
        layoutT.trans layoutS⟩
      unfold tty Term.putStr
      rw [termT, termS, List.foldl_append]
      rfl

theorem act_follows (sound : f.Sound) {action : AnsiAction} (fits : action.Fits) :
    f.Follows (f.act action) (f.tty.act action) := by
  have console := sound.console
  cases action with
  | print c => exact sound.turned (Console.putChar_turns console c)
  | cursorTo row col =>
    obtain ⟨⟨row_pos, -⟩, col_pos, -⟩ := fits
    unfold act
    dsimp only
    simp only [sub_of_le col_pos, sub_of_le row_pos, Option.bind_eq_bind, Option.bind_some]
    exact sound.turned ((Console.cursorToCell_gives console (col - 1) (row - 1)).turns)
  | eraseDisplay scope =>
    exact sound.turned ((Console.eraseInDisplay_follows console scope).turns
      (Display.eraseInDisplay_term _ _ scope))
  | eraseLine scope =>
    exact sound.turned ((Console.eraseInLine_follows console scope).turns
      (Display.eraseInLine_term _ _ scope))
  | insertLines count =>
    exact sound.turned ((Console.insertLines_follows console count).turns
      (Display.insertLines_term _ _ count))
  | deleteLines count =>
    exact sound.turned ((Console.deleteLines_follows console count).turns
      (Display.deleteLines_term _ _ count))
  | setGraphics graphics =>
    exact sound.turned ((Console.setGraphics_gives console graphics).turns)
  | showCursor visible =>
    exact sound.turned ((Console.showCursor_gives console visible).turns)
  | alternateScreen alternate =>
    have gives := (Console.setAlternateScreen_gives console alternate).turns
    rw [Display.setAlternateScreen_term] at gives
    obtain ⟨s, set, soundS, termS, layoutS⟩ := gives
    unfold act Tty.act
    dsimp only
    rw [set, Option.bind_eq_bind, Option.bind_some]
    have soundG : ({ f with console := s } : Foreground).Sound :=
      { sound with console := soundS }
    have tty : ({ f with console := s } : Foreground).tty =
        { f.tty with term := f.tty.term.setAlternateScreen alternate } := by
      unfold Foreground.tty
      rw [termS]
      rfl
    cases alternate with
    | true => exact ⟨_, rfl, soundG, tty, layoutS⟩
    | false =>
      obtain ⟨g, flushed, soundH, ttyH, layoutH⟩ := flushPendingToScreen_follows soundG
      refine ⟨g, flushed, soundH, ?_, layoutH.trans layoutS⟩
      rw [ttyH, tty]
      rfl

theorem feedChar_follows (sound : f.Sound) (c : Char) :
    f.Follows (f.feedChar c) (f.tty.feedChar c) := by
  obtain ⟨-, action, parser, fed, soundParser, fits⟩ := AnsiParser.feed_total sound.parser c 0
  have fed' : f.tty.parser.feed 2 c = some (action, parser) := fed
  unfold feedChar Tty.feedChar
  rw [fed, fed']
  have soundG : ({ f with parser } : Foreground).Sound := { sound with parser := soundParser }
  cases action with
  | none => exact follows_self soundG
  | some action => exact act_follows soundG (fits action rfl)

theorem feedChars_follows (sound : f.Sound) (cs : List Char) :
    f.Follows (f.feedChars cs) (f.tty.feedChars cs) := by
  induction cs generalizing f with
  | nil => exact follows_self sound
  | cons c cs ih => exact (feedChar_follows sound c).bind fun g soundG _ => ih soundG

theorem feedByte_follows (sound : f.Sound) (byte : UInt8) :
    f.Follows (f.feedByte byte) (f.tty.feedByte byte) := by
  obtain ⟨out, decoder, feeds⟩ := Utf8Decoder.feeds sound.decoder byte
  have fed : f.tty.decoder.feed byte = some (out, decoder) := feeds.feed
  unfold feedByte Tty.feedByte
  rw [feeds.feed, fed]
  have soundG : ({ f with decoder } : Foreground).Sound := { sound with decoder := feeds.holds }
  have all : out.take 4 = out := List.take_of_length_le feeds.few
  simp only [Option.bind_eq_bind, Option.bind_some, all]
  exact feedChars_follows soundG out

theorem feedBytes_follows (sound : f.Sound) (bytes : List UInt8) :
    f.Follows (f.feedBytes bytes) (f.tty.feedBytes bytes) := by
  induction bytes generalizing f with
  | nil => exact follows_self sound
  | cons byte bytes ih => exact (feedByte_follows sound byte).bind fun g soundG _ => ih soundG

end Foreground

end Zaytos.Terminal

/-! The states that the console in the foreground comes to (`console/mod.rs`): text that is written
and transferred, errors that wait, and the mode in which a program draws on the surface itself. -/
namespace Zaytos.Terminal

def maxTerminalCells : Nat := 240 * 67

namespace Foreground

def start (console : Console) : Foreground where
  console := console
  parser := .new
  decoder := .new
  pending := []
  graphicsActive := false

def takePending (f : Foreground) : Foreground := { f with pending := [] }

/-- `enter_graphics`, which refuses a second time. -/
def enterGraphics (f : Foreground) : Option Foreground :=
  if f.graphicsActive then none else some { f with graphicsActive := true }

def drawPixels (f : Foreground) (pixels : List UInt32) : Option Foreground :=
  if f.graphicsActive ∧ pixels.length = f.console.back.pixels.length then
    some { f with console := { f.console with back := { f.console.back with pixels } } }
  else none

def presentGraphics (f : Foreground) (x y width height : Nat) :
    Option (Except FlushRangeError Foreground) :=
  if !f.graphicsActive then some (.ok f)
  else do
    match ← f.console.present x y width height with
    | .error error => some (.error error)
    | .ok console => some (.ok { f with console })

def leaveGraphics (f : Foreground) : Foreground :=
  if f.graphicsActive then
    { f with graphicsActive := false, console := f.console.requestRepaint }
  else f

inductive Reached : Foreground → Prop
  | start {front : Framebuffer} {base : Kernel.Paging.Word} {pixels : List UInt32}
      {foreground background : Rgb} {cells alternateCells : List Cell} {console : Console}
      (memory : front.Sound) (size : pixels.length = front.layout.sizeBytes / bytesPerPixel)
      (few : cells.length ≤ maxTerminalCells)
      (new : Console.new front base pixels foreground background cells alternateCells =
        some (.ok (.ok console))) : Reached (start console)
  | write {f g : Foreground} (before : Reached f) {bytes : List UInt8}
      (written : f.writeForegroundBytes bytes = some g) : Reached g
  | flush {f g : Foreground} (before : Reached f) (flushed : f.flushForeground = some (.ok g)) :
      Reached g
  | operate {f : Foreground} (before : Reached f) {ops : List TextOp} {console : Console}
      (ran : f.console.run ops = some (.ok console)) : Reached { f with console }
  | pushPending {f : Foreground} (before : Reached f) (bytes : List UInt8) :
      Reached (f.pushPending bytes)
  | takePending {f : Foreground} (before : Reached f) : Reached f.takePending
  | enterGraphics {f g : Foreground} (before : Reached f) (entered : f.enterGraphics = some g) :
      Reached g
  | drawPixels {f g : Foreground} (before : Reached f) {pixels : List UInt32}
      (drawn : f.drawPixels pixels = some g) : Reached g
  | present {f g : Foreground} (before : Reached f) {x y width height : Nat}
      (presented : f.presentGraphics x y width height = some (.ok g)) : Reached g
  | leaveGraphics {f : Foreground} (before : Reached f) : Reached f.leaveGraphics

structure Steady (f : Foreground) : Prop where
  sound : f.Sound
  few : f.console.back.layout.width / 8 ≤ maxTerminalCells

variable {f g : Foreground}

theorem Steady.follow {r : Option Foreground} {o : Option Tty} (steady : f.Steady)
    (follows : f.Follows r o) (same : r = some g) : g.Steady := by
  cases o with
  | none =>
    have stops : r = none := follows
    rw [stops] at same
    cases same
  | some t =>
    obtain ⟨h, goes, sound, -, layout⟩ := follows
    have eq : h = g := Option.some.inj (goes.symm.trans same)
    subst eq
    exact ⟨sound, layout ▸ steady.few⟩

theorem writeForegroundBytes_steady (steady : f.Steady) {bytes : List UInt8}
    (written : f.writeForegroundBytes bytes = some g) : g.Steady := by
  unfold writeForegroundBytes at written
  split at written
  · cases written
    exact steady
  · exact steady.follow (feedBytes_follows steady.sound bytes) written

theorem flush_steady (steady : f.Steady) {console : Console}
    (flushed : f.console.flush = some (.ok console)) :
    ({ f with console } : Foreground).Steady := by
  obtain ⟨t, same, done⟩ := Console.flush_total steady.sound.console
  rw [same] at flushed
  cases flushed
  exact ⟨{ steady.sound with console := done.sound }, done.layout ▸ steady.few⟩

theorem operate_steady (steady : f.Steady) {ops : List TextOp} {console : Console}
    (ran : f.console.run ops = some (.ok console)) :
    ({ f with console } : Foreground).Steady := by
  rcases Console.run_proceeds steady.sound.console ops with stops | ⟨t, same, sound, -, layout⟩
  · rw [stops] at ran
    cases ran
  · rw [same] at ran
    cases ran
    exact ⟨{ steady.sound with console := sound }, layout ▸ steady.few⟩

theorem drawPixels_steady (steady : f.Steady) {pixels : List UInt32}
    (drawn : f.drawPixels pixels = some g) : g.Steady := by
  unfold drawPixels at drawn
  split at drawn
  case isTrue fits =>
    cases drawn
    have console := steady.sound.console
    have back : Framebuffer.Sound { f.console.back with pixels } :=
      fits.2.trans console.back
    exact ⟨{ steady.sound with
      console := { console with back, shape := ⟨console.shape.width, console.shape.height,
        console.shape.stride, console.shape.size⟩ } }, steady.few⟩
  case isFalse => cases drawn

theorem presentGraphics_steady (steady : f.Steady) {x y width height : Nat}
    (presented : f.presentGraphics x y width height = some (.ok g)) : g.Steady := by
  have console := steady.sound.console
  unfold presentGraphics Console.present at presented
  split at presented
  · cases presented
    exact steady
  · have blank : (DirtyRegion.new f.console.back.layout.width f.console.back.layout.height).Sound :=
      DirtyRegion.new_sound f.console.back.layout.width_lt f.console.back.layout.height_lt
    have marked := DirtyRegion.mark_sound blank x y width height
    obtain ⟨sameWidth, sameHeight⟩ := (DirtyRegion.new f.console.back.layout.width
      f.console.back.layout.height).mark_size x y width height
    dsimp only at presented
    cases bounds : ((DirtyRegion.new f.console.back.layout.width
        f.console.back.layout.height).mark x y width height).bounds with
    | none =>
      rw [bounds] at presented
      cases presented
      exact steady
    | some rect =>
      have fits := marked.fits rect bounds
      obtain ⟨front, done, sound, -⟩ := Console.transfer_total console
        ⟨fits.width_pos, fits.height_pos,
          fits.right.trans (sameWidth.trans console.dirtyWidth.symm).le,
          fits.bottom.trans (sameHeight.trans console.dirtyHeight.symm).le⟩
      rw [bounds, done] at presented
      cases presented
      exact ⟨{ steady.sound with console := sound }, steady.few⟩

theorem Reached.steady (reached : Reached f) : f.Steady := by
  induction reached with
  | start memory size few new =>
    obtain ⟨s, same, sound, -, -, layout, -, room⟩ := Console.new_total memory size new
    cases same
    refine ⟨⟨sound, AnsiParser.new_sound, .nothing⟩, ?_⟩
    dsimp only [Foreground.start]
    rw [layout]
    exact room.trans few
  | write _ written steady => exact writeForegroundBytes_steady steady written
  | flush _ flushed steady =>
    unfold flushForeground at flushed
    split at flushed
    · cases flushed
      exact steady
    · obtain ⟨t, same, done⟩ := Console.flush_total steady.sound.console
      rw [same] at flushed
      cases flushed
      exact flush_steady steady same
  | operate _ ran steady => exact operate_steady steady ran
  | pushPending _ bytes steady =>
    unfold Foreground.pushPending
    split
    · exact ⟨{ steady.sound with }, steady.few⟩
    · exact steady
  | takePending _ steady => exact ⟨{ steady.sound with }, steady.few⟩
  | enterGraphics _ entered steady =>
    unfold Foreground.enterGraphics at entered
    split at entered
    · cases entered
    · cases entered
      exact ⟨{ steady.sound with }, steady.few⟩
  | drawPixels _ drawn steady => exact drawPixels_steady steady drawn
  | present _ presented steady => exact presentGraphics_steady steady presented
  | leaveGraphics _ steady =>
    unfold Foreground.leaveGraphics
    split
    · exact ⟨{ steady.sound with console := { steady.sound.console with } }, steady.few⟩
    · exact steady

end Foreground

end Zaytos.Terminal
