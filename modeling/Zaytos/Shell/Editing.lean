import Zaytos.Shell.LineShown

set_option autoImplicit false

/-! The shell at its prompt, and the terminal that has all it writes, while a line is edited. -/
namespace Zaytos.Shell

open Terminal Grid

namespace Editor

variable {e : Editor} {t : Tty}

theorem Sound.moved (sound : e.Sound) {before behind : List UInt8} (same : before ++ behind = e.text) :
    ({ e with before, behind } : Editor).Sound where
  text := by
    have text : ({ e with before, behind } : Editor).text = e.text := same
    rw [text]
    exact sound.text
  draft := sound.draft
  extent := by
    have text : ({ e with before, behind } : Editor).text = e.text := same
    rw [text]
    exact sound.extent

theorem Sound.retype (sound : e.Sound) {before behind : List UInt8}
    (printable : ∀ byte ∈ before ++ behind, isPrintable byte = true) :
    (e.retype before behind).Sound where
  text := printable
  draft := sound.draft
  extent := by
    simp only [Editor.text, Editor.retype, List.length_append]
    omega

theorem Sound.erase (sound : e.Sound) (last first : Nat) : (e.erase last first).Sound where
  text := by
    intro byte mem
    rcases List.mem_append.mp mem with there | there
    · exact sound.before byte (List.mem_of_mem_take there)
    · exact sound.behind byte (List.mem_of_mem_drop there)
  draft := sound.draft
  extent := by
    have extent := sound.extent
    simp only [Editor.text, Editor.erase, List.length_append, List.length_take,
      List.length_drop] at extent ⊢
    omega

theorem Sound.toLeft (sound : e.Sound) : e.toLeft.Sound := by
  unfold Editor.toLeft
  rcases List.eq_nil_or_concat e.before with empty | ⟨before, byte, last⟩
  · simpa [empty] using sound
  · rw [List.concat_eq_append] at last
    have found : e.before.getLast? = some byte := by simp [last]
    have rest : e.before.dropLast = before := by simp [last]
    rw [found]
    dsimp only
    rw [rest]
    exact sound.moved (by simp [Editor.text, last])

theorem Sound.toRight (sound : e.Sound) : e.toRight.Sound := by
  unfold Editor.toRight
  cases next : e.behind with
  | nil => exact sound
  | cons byte behind => exact sound.moved (by simp [Editor.text, next])

theorem Sound.insert (sound : e.Sound) {byte : UInt8} (printable : isPrintable byte = true) :
    (e.insert byte).Sound := by
  unfold Editor.insert
  split
  · apply sound.retype
    intro other mem
    simp only [List.mem_append, List.mem_singleton] at mem
    rcases mem with (there | rfl) | there
    · exact sound.before other there
    · exact printable
    · exact sound.behind other there
  · exact sound

theorem Sound.retype_line (sound : e.Sound) {line : List UInt8}
    (printable : ∀ byte ∈ line, isPrintable byte = true) : (e.retype line []).Sound := by
  apply sound.retype
  rw [List.append_nil]
  exact printable

theorem Sound.older (sound : e.Sound) (typed : ∀ line ∈ e.history[e.back]?, Recallable line) :
    e.older.Sound := by
  unfold Editor.older
  cases found : e.history[e.back]? with
  | none => exact sound
  | some line =>
    have next := sound.retype_line (typed line found).2
    constructor
    · exact next.text
    · dsimp only
      split
      · exact sound.text
      · exact sound.draft
    · exact next.extent

theorem Sound.newer (sound : e.Sound)
    (typed : 2 ≤ e.back → ∀ line ∈ e.history[e.back - 2]?, Recallable line) : e.newer.Sound := by
  unfold Editor.newer
  by_cases typing : e.back = 0
  · rw [if_pos typing]
    exact sound
  rw [if_neg typing]
  by_cases first : e.back = 1
  · rw [if_pos first]
    exact { sound.retype_line sound.draft with }
  rw [if_neg first]
  cases found : e.history[e.back - 2]? with
  | none => exact { sound with }
  | some line => exact { sound.retype_line (typed (by omega) line found).2 with }

theorem Fits.recalls {columns column : Nat} {key : Key} (fits : e.Fits columns column key) :
    ∀ line ∈ e.recalls key, Recallable line := by
  intro line found
  cases key with
  | up | ctrlP => exact (fits line found).1
  | down | ctrlN =>
    dsimp only [Editor.recalls] at found
    dsimp only [Fits] at fits
    split at found
    · cases found
    · rw [if_neg (by omega), if_neg (by omega)] at fits
      exact (fits line found).1
  | _ => cases found

theorem Sound.press (sound : e.Sound) (key : Key) (typed : ∀ line ∈ e.recalls key, Recallable line) :
    (e.press key).Sound := by
  cases key with
  | char byte printable => exact sound.insert printable
  | backspace => exact sound.erase _ _
  | delete | ctrlD => exact sound.erase _ _
  | left | ctrlB => exact sound.toLeft
  | right | ctrlF => exact sound.toRight
  | up | ctrlP => exact sound.older typed
  | down | ctrlN =>
    apply sound.newer
    intro far line found
    apply typed line
    dsimp only [Editor.recalls]
    rw [if_neg (by omega)]
    exact found
  | home | ctrlA => exact sound.moved rfl
  | «end» | ctrlE => exact sound.moved (List.append_nil _)
  | ctrlK => exact sound.erase _ _
  | ctrlU => exact sound.erase _ _
  | ctrlW => exact sound.erase _ _
  | ctrlL => exact sound

theorem shown_press (shown : Shown t e) (sound : e.Sound) {key : Key}
    (fits : e.Fits t.term.grid.columns t.term.grid.column key) (colored : Bool) :
    ∃ u, t.feedBytes (e.written colored key) = some u ∧ Shown u (e.press key) := by
  cases key with
  | char byte printable => exact shown_insert shown sound printable fits
  | backspace =>
    have few : e.before.length - min 1 e.before.length = e.before.length - 1 := by omega
    have same : e.erase (min 1 e.before.length) 0 = e.erase 1 0 := by
      unfold erase
      rw [few]
    have erased := shown_erase shown sound (min_le_right 1 e.before.length)
      (Nat.zero_le e.behind.length) fits
    rw [same] at erased
    exact erased
  | delete | ctrlD =>
    have same : e.behind.drop (min 1 e.behind.length) = e.behind.drop 1 := by
      cases e.behind <;> simp
    have erased := shown_erase shown sound (Nat.zero_le e.before.length)
      (min_le_right 1 e.behind.length) (by rw [same]; exact fits)
    unfold erase at erased
    rw [same] at erased
    exact erased
  | left | ctrlB => exact shown_left shown fits
  | right | ctrlF => exact shown_right shown sound
  | up | ctrlP =>
    dsimp only [written, press, older]
    cases found : e.history[e.back]? with
    | none => exact ⟨t, rfl, shown⟩
    | some line =>
      obtain ⟨typed, fits⟩ := fits line found
      obtain ⟨u, wrote, shownU⟩ := shown_replace shown sound typed.2 fits
      exact ⟨u, wrote, shownU⟩
  | down | ctrlN =>
    dsimp only [Fits] at fits
    dsimp only [written, press, newer]
    by_cases typing : e.back = 0
    · rw [if_pos typing, if_pos typing]
      exact ⟨t, rfl, shown⟩
    rw [if_neg typing] at fits
    rw [if_neg typing, if_neg typing]
    by_cases first : e.back = 1
    · rw [if_pos first] at fits
      rw [if_pos first, if_pos first]
      exact shown_replace shown sound sound.draft fits
    rw [if_neg first] at fits
    rw [if_neg first, if_neg first]
    cases found : e.history[e.back - 2]? with
    | none => exact ⟨t, rfl, shown⟩
    | some line =>
      obtain ⟨typed, fits⟩ := fits line found
      exact shown_replace shown sound typed.2 fits
  | home | ctrlA => exact shown_start shown fits
  | «end» | ctrlE => exact shown_end shown sound
  | ctrlK =>
    have erased := shown_erase shown sound (Nat.zero_le e.before.length) (le_rfl)
      (by rw [List.drop_length]; exact fits)
    rw [List.drop_length] at erased
    exact erased
  | ctrlU => exact shown_erase shown sound (le_rfl) (Nat.zero_le e.behind.length) fits
  | ctrlW => exact shown_erase shown sound e.word_le (Nat.zero_le e.behind.length) fits
  | ctrlL => exact shown_redraw shown sound colored fits

end Editor

structure Fresh (s : Shell) : Prop where
  sized : s.Sized
  length : s.length = 0
  cursor : s.cursor = 0
  escape : s.escape = .idle
  historyBack : s.historyBack = 0
  savedLength : s.savedLength = 0

theorem Fresh.holds {s : Shell} (fresh : s.Fresh) : s.Holds (.start s.recalled) where
  sized := fresh.sized
  line := ⟨s.line, rfl⟩
  length := fresh.length
  cursor := fresh.cursor
  room := Nat.zero_lt_succ _
  back := fresh.historyBack
  saved := ⟨s.saved, rfl⟩
  savedLength := fresh.savedLength
  draft := Nat.zero_lt_succ _
  history := rfl

/-- A terminal that is in the middle of nothing, and that draws no cursor between two
characters. -/
structure Quiet (t : Tty) : Prop where
  ready : t.Ready
  sound : t.term.grid.Sound
  drawnAt : t.term.drawnAt = none

structure Session where
  shell : Shell
  tty : Tty

namespace Session

def prompted (shell : Shell) (tty : Tty) : Option Session := do
  let tty ← tty.feedBytes (writePrompt shell.colored)
  some ⟨shell, tty⟩

def feed (s : Session) (bytes : List UInt8) : Option Session := do
  let (shell, written) ← s.shell.feedAll bytes
  let tty ← s.tty.feedBytes written
  some ⟨shell, tty⟩

def Fits (s : Session) (e : Editor) : List Key → Prop
  | [] => True
  | key :: keys =>
    e.Fits s.tty.term.grid.columns s.tty.term.grid.column key ∧
      ∀ t ∈ s.feed key.bytes, Fits t (e.press key) keys

instance decidableFits : (keys : List Key) → (s : Session) → (e : Editor) → Decidable (s.Fits e keys)
  | [], _, _ => isTrue trivial
  | key :: keys, _, e =>
    have : ∀ t : Session, Decidable (t.Fits (e.press key) keys) :=
      fun t => decidableFits keys t (e.press key)
    inferInstanceAs (Decidable (_ ∧ _))

structure Waits (s : Session) (e : Editor) : Prop where
  cursor_le : s.shell.cursor ≤ s.shell.length
  room : s.shell.length < lineMax
  line : s.shell.line.take s.shell.length = e.text
  cursor : s.shell.cursor = e.before.length
  shown : Shown s.tty e

variable {s : Session} {e : Editor}

theorem feedAll_append (s : Shell) (first second : List UInt8) :
    s.feedAll (first ++ second) = (s.feedAll first).bind fun (t, written) =>
      (t.feedAll second).bind fun (u, more) => some (u, written ++ more) := by
  induction first generalizing s with
  | nil =>
    rw [List.nil_append, feedAll, Option.bind_some]
    dsimp only
    cases s.feedAll second <;> rfl
  | cons byte first ih =>
    rw [List.cons_append, feedAll, feedAll]
    cases s.feed byte with
    | none => rfl
    | some turn =>
      cases turn with
      | leaves byte => rfl
      | edited t written =>
        dsimp only
        rw [ih]
        cases t.feedAll first with
        | none => rfl
        | some made =>
          obtain ⟨u, more⟩ := made
          simp only [Option.bind_eq_bind, Option.bind_some]
          cases u.feedAll second <;> simp

theorem feed_append (s : Session) (first second : List UInt8) :
    s.feed (first ++ second) = (s.feed first).bind fun t => t.feed second := by
  unfold feed
  rw [feedAll_append]
  cases s.shell.feedAll first with
  | none => rfl
  | some made =>
    obtain ⟨t, written⟩ := made
    simp only [Option.bind_eq_bind, Option.bind_some]
    cases more : t.feedAll second with
    | none =>
      simp only [Option.bind_none]
      cases s.tty.feedBytes written with
      | none => rfl
      | some tty => simp [more]
    | some made =>
      obtain ⟨u, rest⟩ := made
      simp only [Option.bind_some]
      rw [Tty.feedBytes_append]
      cases s.tty.feedBytes written with
      | none => rfl
      | some tty => simp [more]

structure Steady (s : Session) (e : Editor) : Prop where
  holds : s.shell.Holds e
  idle : s.shell.escape = .idle
  sound : e.Sound
  shown : Shown s.tty e

theorem Waits.of_holds (holds : s.shell.Holds e) (shown : Shown s.tty e) : s.Waits e := by
  have length := holds.length
  have cursor := holds.cursor
  have total := e.text_length
  obtain ⟨junk, line⟩ := holds.line
  constructor
  · omega
  · rw [length]
    exact holds.room
  · rw [line, length, ← List.append_assoc]
    exact List.take_left
  · exact cursor
  · exact shown

theorem Steady.press (steady : s.Steady e) {key : Key}
    (fits : e.Fits s.tty.term.grid.columns s.tty.term.grid.column key) :
    ∃ t, s.feed key.bytes = some t ∧ t.Steady (e.press key) := by
  have typed := fits.recalls
  obtain ⟨shell, fed, holds, idle⟩ := steady.holds.press steady.idle key
    fun line found => (typed line found).1
  obtain ⟨tty, wrote, shown⟩ := e.shown_press steady.shown steady.sound fits s.shell.colored
  refine ⟨⟨shell, tty⟩, ?_, holds, idle, steady.sound.press key typed, shown⟩
  rw [feed, fed, Option.bind_eq_bind, Option.bind_some]
  dsimp only
  rw [wrote]
  rfl

theorem Steady.part (steady : s.Steady e) {key : Key} {part : List UInt8}
    (begun : part <+: key.bytes) (short : part ≠ key.bytes) :
    ∃ t, s.feed part = some t ∧ t.Waits e := by
  obtain ⟨escape, fed⟩ := feedAll_part steady.idle begun short
  refine ⟨⟨{ s.shell with escape }, s.tty⟩, ?_, ?_⟩
  · rw [feed, fed]
    rfl
  · apply Waits.of_holds
    · exact { steady.holds with sized := { steady.holds.sized with } }
    · exact steady.shown

theorem Steady.run (steady : s.Steady e) {keys : List Key} (fits : s.Fits e keys) :
    ∃ t, s.feed (keys.flatMap Key.bytes) = some t ∧ t.Steady (e.pressAll keys) := by
  induction keys generalizing s e with
  | nil => exact ⟨s, rfl, steady⟩
  | cons key keys ih =>
    obtain ⟨first, rest⟩ := fits
    obtain ⟨t, fed, steadyT⟩ := steady.press first
    obtain ⟨u, more, steadyU⟩ := ih steadyT (rest t fed)
    refine ⟨u, ?_, steadyU⟩
    rw [List.flatMap_cons, feed_append, fed, Option.bind_some, more]

theorem prompted_steady {shell : Shell} {tty : Tty} (fresh : shell.Fresh) (quiet : Quiet tty) :
    ∃ s, prompted shell tty = some s ∧ s.shell = shell ∧ s.Steady (.start shell.recalled) := by
  have blank : OnScreen tty 0 (tty.term.grid.position 0) [] [] := by
    constructor
    · exact quiet.ready
    · exact quiet.sound
    · exact quiet.drawnAt
    · rfl
    · intro i c found
      cases found
  obtain ⟨u, gone, wrote, shown, -, -⟩ := blank.prompt shell.colored
  refine ⟨⟨shell, u⟩, ?_, rfl, fresh.holds, fresh.escape, Editor.start_sound _, gone, _, shown⟩
  rw [prompted, wrote]
  rfl

/-- From a prompt on, and as long as every key fits, the shell edits the line as the editor does
and the screen shows it, whenever it waits for a byte. -/
theorem line_shown_of_fits {shell : Shell} {tty : Tty} (fresh : shell.Fresh) (quiet : Quiet tty) :
    ∃ s, prompted shell tty = some s ∧
      ∀ keys, s.Fits (.start shell.recalled) keys →
        ∀ (key : Key) (part : List UInt8), part <+: key.bytes → part ≠ key.bytes →
          ∃ t, s.feed (keys.flatMap Key.bytes ++ part) = some t ∧
            t.Waits ((Editor.start shell.recalled).pressAll keys) := by
  obtain ⟨s, opened, -, steady⟩ := prompted_steady fresh quiet
  refine ⟨s, opened, ?_⟩
  intro keys fits key part begun short
  obtain ⟨t, fed, steadyT⟩ := steady.run fits
  obtain ⟨u, more, waits⟩ := steadyT.part begun short
  refine ⟨u, ?_, waits⟩
  rw [feed_append, fed, Option.bind_some, more]

def newShell : Shell where
  line := List.replicate lineMax 0
  length := 0
  cursor := 0
  overflowed := false
  escape := .idle
  historyBack := 0
  saved := List.replicate lineMax 0
  savedLength := 0
  history := List.replicate historyMax ⟨List.replicate lineMax 0, 0⟩
  historyCount := 0
  colored := false

def smallTty : Tty where
  term := .start 10 4 ⟨0, 0, 0⟩ ⟨0, 0, 0⟩
  parser := .new
  decoder := .new
  pending := []
  graphicsActive := true

theorem newShell_fresh : newShell.Fresh where
  sized := by
    constructor
    · exact List.length_replicate
    · exact List.length_replicate
    · exact List.length_replicate
    · intro entry mem
      rw [List.eq_of_mem_replicate mem]
      exact ⟨List.length_replicate, Nat.zero_le _⟩
  length := rfl
  cursor := rfl
  escape := rfl
  historyBack := rfl
  savedLength := rfl

theorem smallTty_quiet : Quiet smallTty where
  ready := ⟨rfl, rfl⟩
  sound := Grid.start_sound (by decide) (by decide) _
  drawnAt := rfl

/-- Two bytes up to the edge of the screen, a third in the next row, and the way back within
it. -/
theorem line_shown_of_fits_small : ∃ s, prompted newShell smallTty = some s ∧
    ∃ t, s.feed [0x61, 0x62, 0x63, 0x1B, 0x5B, 0x44, 0x1B] = some t ∧
      t.Waits ((Editor.start newShell.recalled).pressAll
        [.char 0x61 rfl, .char 0x62 rfl, .char 0x63 rfl, .left]) := by
  obtain ⟨s, opened, shown⟩ := line_shown_of_fits newShell_fresh smallTty_quiet
  have fits : ∀ s ∈ prompted newShell smallTty, s.Fits (.start newShell.recalled)
      [.char 0x61 rfl, .char 0x62 rfl, .char 0x63 rfl, .left] := by
    decide +kernel
  exact ⟨s, opened, shown _ (fits s opened) .left [0x1B] (by decide) (by decide)⟩

/-- From the row after the prompt's the cursor does not come back to the start of the line. -/
theorem line_not_shown : ¬ ∀ (shell : Shell) (tty : Tty), shell.Fresh → Quiet tty →
    ∃ s, prompted shell tty = some s ∧ ∀ (keys : List Key) (key : Key) (part : List UInt8),
      part <+: key.bytes → part ≠ key.bytes →
        ∃ t, s.feed (keys.flatMap Key.bytes ++ part) = some t ∧
          t.Waits ((Editor.start shell.recalled).pressAll keys) := by
  intro claim
  obtain ⟨s, opened, shown⟩ := claim newShell smallTty newShell_fresh smallTty_quiet
  obtain ⟨t, fed, waits⟩ := shown [.char 0x61 rfl, .char 0x62 rfl, .char 0x63 rfl, .home] .left []
    (by decide) (by decide)
  obtain ⟨gone, origin, screen⟩ := waits.shown
  have found : ∀ s ∈ prompted newShell smallTty,
      ∀ t ∈ s.feed [0x61, 0x62, 0x63, 0x1B, 0x5B, 0x31, 0x7E],
      t.tty.term.grid.row = 1 ∧ t.tty.term.grid.column = 0 ∧ t.tty.term.grid.columns = 10 ∧
        t.tty.term.grid.rows = 4 ∧ (t.tty.term.grid.cell 2 0).map (·.ch) = some 'i' := by
    decide +kernel
  obtain ⟨row, column, columns, rows, cell⟩ := found s opened t fed
  have position := screen.position
  have first := screen.displays 0 'z' rfl
  have eight : (prompt ++ ((Editor.start newShell.recalled).pressAll
      [.char 0x61 rfl, .char 0x62 rfl, .char 0x63 rfl, .home]).before).length = 8 := by
    decide
  rw [Grid.position, row, column, columns, eight] at position
  have there : t.tty.term.grid.reads gone (origin + 0) = some 'i' := by
    have parts : (origin + 0) / 10 = gone + 0 ∧ (origin + 0) % 10 = 2 := by omega
    rw [Grid.reads_of_row (y := 0) (by rw [columns]; exact parts.1) (by omega), columns, parts.2]
    exact cell
  exact absurd (first 'i' there) (by decide)

end Session

end Zaytos.Shell
