import Zaytos.Zi.Steps

set_option autoImplicit false

/-! Keys come whole, with pauses between them. The pauses make no difference to the editor but
behind an Esc: there a key that comes at once is not treated as one that comes after a pause. -/
namespace Zaytos.Zi

inductive Key where
  | char (byte : UInt8) (plain : byte ≠ esc)
  | enter
  | backspace
  | esc
  | up
  | down
  | right
  | left
  | delete

namespace Key

def bytes : Key → List UInt8
  | char byte _ => [byte]
  | enter => [newline]
  | backspace => [Zi.backspace]
  | esc => [Zi.esc]
  | up => [Zi.esc, '['.toUInt8, 'A'.toUInt8]
  | down => [Zi.esc, '['.toUInt8, 'B'.toUInt8]
  | right => [Zi.esc, '['.toUInt8, 'C'.toUInt8]
  | left => [Zi.esc, '['.toUInt8, 'D'.toUInt8]
  | delete => [Zi.esc, '['.toUInt8, '3'.toUInt8, '~'.toUInt8]

def inputs (k : Key) : List Input := k.bytes.map .byte

def paced (pause : Nat → Nat) : List Key → List Input
  | [] => []
  | k :: ks =>
    List.replicate (pause 0) .again ++ k.inputs ++ paced (fun i => pause (i + 1)) ks

def hurried (ks : List Key) : List Input := ks.flatMap inputs

def Apart (ks : List Key) : Prop :=
  ∀ n, ks[n]? = some .esc → ∀ k, ks[n + 1]? = some k → k.bytes ≠ ['['.toUInt8]

variable {k : Key} {ks : List Key}

theorem paced_append (pause : Nat → Nat) (k : Key) :
    paced pause (ks ++ [k]) =
      paced pause ks ++ (List.replicate (pause ks.length) .again ++ k.inputs) := by
  induction ks generalizing pause with
  | nil => simp [paced]
  | cons first ks ih => simp [paced, ih]

theorem paced_of_zero {pause : Nat → Nat} (zero : ∀ i, i < ks.length → pause i = 0) :
    paced pause ks = hurried ks := by
  induction ks generalizing pause with
  | nil => rfl
  | cons first ks ih =>
    have none' : pause 0 = 0 := zero 0 (Nat.zero_lt_succ _)
    have rest : paced (fun i => pause (i + 1)) ks = hurried ks := by
      apply ih
      intro i inside
      exact zero (i + 1) (Nat.succ_lt_succ inside)
    simp [paced, hurried, none', rest]

theorem hurried_append (k : Key) : hurried (ks ++ [k]) = hurried ks ++ k.inputs := by
  simp [hurried]

theorem bytes_cases (k : Key) : ∃ byte rest, k.bytes = byte :: rest ∧
    (byte ≠ Zi.esc → rest = []) := by
  cases k with
  | char byte plain => exact ⟨byte, [], rfl, fun _ => rfl⟩
  | enter => exact ⟨newline, [], rfl, fun _ => rfl⟩
  | backspace => exact ⟨Zi.backspace, [], rfl, fun _ => rfl⟩
  | esc => exact ⟨Zi.esc, [], rfl, fun _ => rfl⟩
  | up => exact ⟨Zi.esc, _, rfl, fun other => absurd rfl other⟩
  | down => exact ⟨Zi.esc, _, rfl, fun other => absurd rfl other⟩
  | right => exact ⟨Zi.esc, _, rfl, fun other => absurd rfl other⟩
  | left => exact ⟨Zi.esc, _, rfl, fun other => absurd rfl other⟩
  | delete => exact ⟨Zi.esc, _, rfl, fun other => absurd rfl other⟩

theorem eq_esc (last : k.bytes.getLast? = some Zi.esc) : k = .esc := by
  cases k with
  | char byte plain => exact absurd (Option.some.inj last) plain
  | esc => rfl
  | enter | backspace | up | down | right | left | delete => exact absurd last (by decide)

end Key

namespace Editor

open Key (paced hurried)

variable {e e' : Editor} {world : World} {byte : UInt8} {k : Key} {ks : List Key}

def seen (e : Editor) : Buffer × Nat × Nat × Mode × List UInt8 × Bool × Bool :=
  (e.buffer, e.row, e.col, e.mode, e.command, e.dirty, e.ended)

def PaceFree (world : World) (e : Editor) (ks : List Key) : Prop :=
  ∀ pause pause' : Nat → Nat, pause 0 = 0 → pause' 0 = 0 →
    (e.run world (paced pause ks)).map seen = (e.run world (paced pause' ks)).map seen

/-- A byte behind a pending Esc does more after a pause: in a command, where there is room for it
or it ends the command; else if it begins a command, or is the first edit that is not saved. -/
def Depends (world : World) (e : Editor) (byte : UInt8) : Prop :=
  e.ended = false ∧ e.escape = .esc ∧ byte ≠ esc ∧
    if e.mode = .command then byte = newline ∨ e.command.length < commandMax
    else byte = ':'.toUInt8 ∨ e.dirty = false ∧ e.AltersBehind world byte

def DependsOn (world : World) (e : Editor) (k : Key) : Prop :=
  ∃ byte, k.bytes = [byte] ∧ e.Depends world byte

section Pauses

theorem Valid.again_again (valid : e.Valid) (once : e.step world .again = some e') :
    e'.step world .again = some e' := by
  obtain ⟨lines, line, on⟩ := valid
  obtain ⟨e₁, finished, -, same, -⟩ := on.resolve
  unfold Editor.step at once ⊢
  split at once
  case isTrue ended =>
    cases once
    rw [if_pos ended]
  case isFalse running =>
    dsimp only at once ⊢
    split at once
    · rw [finished] at once
      cases once
      have idle : e'.escape = .idle := by rw [same]
      simp [idle]
    case isFalse other =>
      cases once
      rw [if_neg running, if_neg other]

theorem Valid.pause (valid : e.Valid) (world : World) (n : Nat) :
    e.run world (List.replicate (n + 1) .again) = e.step world .again := by
  obtain ⟨e₁, once, valid₁⟩ := valid.step world .again
  have still := valid.again_again once
  rw [once, List.replicate_succ, run_cons, once, Option.bind_some]
  induction n with
  | zero => rfl
  | succ n ih =>
    rw [List.replicate_succ, run_cons, still, Option.bind_some]
    exact ih

end Pauses

section Behind

theorem step_again (running : e.ended = false) (pending : e.escape = .esc) (world : World) :
    e.step world .again = Editor.finishPendingEscape { e with escape := .idle } := by
  unfold Editor.step
  rw [if_neg (Bool.not_eq_true _ ▸ running)]
  exact if_pos pending

theorem step_again_idle (idle : e.escape ≠ .esc) (world : World) :
    e.step world .again = some e := by
  unfold Editor.step
  by_cases ended : e.ended = true
  · rw [if_pos ended]
  · rw [if_neg ended]
    exact if_neg idle

/-- The byte behind a pending Esc: after a pause it is typed at the editor that the Esc has left,
and at once it is only handled there. -/
structure Behind (world : World) (e : Editor) (byte : UInt8) (changed : Bool) (e₁ e₂ : Editor) :
    Prop where
  paused : (e.step world .again).bind (fun e => e.step world (.byte byte)) = e₁.typed world byte
  direct : e.step world (.byte byte) = some e₂
  handled : e₁.handleByte world byte = some (changed, e₂)
  mode : e₁.mode = if e.mode = .insert then .normal else e.mode
  command : e₁.command = e.command
  dirty : e₁.dirty = e.dirty
  marked : e₂.dirty = e.dirty
  alters : e.mode ≠ .command → (changed = true ↔ e.AltersBehind world byte)
  quiet : e.mode = .command → changed = false ∧ e₂ = e₁

theorem On.behind {lines : List (List UInt8)} {line : List UInt8} (on : e.On lines line)
    (world : World) (running : e.ended = false) (pending : e.escape = .esc)
    (arrow : byte ≠ '['.toUInt8) (other : byte ≠ esc) :
    ∃ e₁ changed e₂, e₁.On lines line ∧ e.Behind world byte changed e₁ e₂ := by
  obtain ⟨e₁, changed, e₂, finished, on₁, same, handled, edited, read, alters, quiet⟩ :=
    on.behindEsc world byte pending arrow other
  have running₁ : e₁.ended = false := by
    rw [same]
    exact running
  have idle : e₁.escape = .idle := by rw [same]
  refine ⟨e₁, changed, e₂, on₁, ?_, ?_, handled, ?_, ?_, ?_, ?_, alters, quiet⟩
  · rw [step_again running pending, finished, Option.bind_some, step_of_running running₁]
    unfold Editor.readByte
    rw [idle]
    exact if_neg other
  · rw [step_of_running running, read]
  · rw [same]
  · rw [same]
  · rw [same]
  · rw [edited.same, same]

theorem Behind.mode_normal {changed : Bool} {e₁ e₂ : Editor}
    (behind : e.Behind world byte changed e₁ e₂) (mode : e.mode ≠ .command) :
    e₁.mode = .normal := by
  rw [behind.mode]
  cases kind : e.mode with
  | normal => rfl
  | insert => rfl
  | command => exact absurd kind mode

end Behind

theorem Valid.step_paused (valid : e.Valid) (free : ¬ e.Depends world byte)
    (arrow : e.ended = false → e.escape = .esc → byte ≠ '['.toUInt8) :
    (e.step world .again).bind (fun e => e.step world (.byte byte)) =
      e.step world (.byte byte) := by
  obtain ⟨lines, line, on⟩ := valid
  by_cases ended : e.ended = true
  · have stays : ∀ input, e.step world input = some e := by
      intro input
      unfold Editor.step
      rw [if_pos ended]
    rw [stays, Option.bind_some]
  have running : e.ended = false := Bool.not_eq_true _ ▸ ended
  by_cases pending : e.escape = .esc
  swap
  · rw [step_again_idle pending, Option.bind_some]
  have arrow := arrow running pending
  by_cases other : byte = esc
  · obtain ⟨e₁, finished, -, same, -⟩ := on.resolve
    have running₁ : e₁.ended = false := by
      rw [same]
      exact running
    have idle : e₁.escape = .idle := by rw [same]
    rw [step_again running pending, finished, Option.bind_some, step_of_running running₁,
      step_of_running running]
    unfold Editor.readByte
    rw [idle, pending]
    dsimp only
    rw [if_pos other, if_neg arrow, finished, Option.bind_eq_bind, Option.bind_some, if_pos other]
  obtain ⟨e₁, changed, e₂, -, behind⟩ := on.behind world running pending arrow other
  rw [behind.paused, behind.direct]
  unfold Editor.typed
  by_cases command : e.mode = .command
  · have mode : e₁.mode = .command := by rw [behind.mode, command, if_neg nofun]
    have full : byte ≠ newline ∧ ¬ e.command.length < commandMax := by
      rw [← not_or]
      intro takes
      exact free ⟨running, pending, other, (if_pos command).mpr takes⟩
    rw [if_pos mode, (behind.quiet command).2]
    unfold Editor.commandByte
    rw [if_neg full.1, if_neg other, behind.command, if_neg full.2]
  · have mode := behind.mode_normal command
    have plain : byte ≠ ':'.toUInt8 ∧ ¬ (e.dirty = false ∧ e.AltersBehind world byte) := by
      rw [← not_or]
      intro takes
      exact free ⟨running, pending, other, (if_neg command).mpr takes⟩
    have kept : (e₂.dirty || changed) = e₂.dirty := by
      rw [behind.marked]
      cases dirty : e.dirty with
      | true => rfl
      | false =>
        rw [Bool.false_or, ← Bool.not_eq_true, behind.alters command]
        exact fun alters => plain.2 ⟨dirty, alters⟩
    rw [if_neg (by rw [mode]; exact nofun), if_neg fun both => plain.1 both.2, behind.handled,
      Option.bind_eq_bind, Option.bind_some]
    dsimp only
    rw [kept]

theorem Valid.step_differs (valid : e.Valid) (depends : e.Depends world byte)
    (arrow : byte ≠ '['.toUInt8) :
    ((e.step world .again).bind fun e => e.step world (.byte byte)).map seen ≠
      (e.step world (.byte byte)).map seen := by
  obtain ⟨lines, line, on⟩ := valid
  obtain ⟨running, pending, other, takes⟩ := depends
  obtain ⟨e₁, changed, e₂, on₁, behind⟩ := on.behind world running pending arrow other
  rw [behind.paused, behind.direct]
  unfold Editor.typed
  by_cases command : e.mode = .command
  · have mode : e₁.mode = .command := by rw [behind.mode, command, if_neg nofun]
    rw [if_pos command] at takes
    rw [if_pos mode, (behind.quiet command).2]
    obtain ⟨e₃, done, -, -, runs⟩ := on₁.commandByte world byte
    by_cases ends : byte = newline
    · rw [done]
      intro same
      have modes := congrArg (Option.map fun seen => seen.2.2.2.1) same
      have left : e₃.mode = e₁.mode := Option.some.inj modes
      rw [runs ends, mode] at left
      cases left
    · unfold Editor.commandByte
      rw [if_neg ends, if_neg other, behind.command, if_pos (takes.resolve_left ends)]
      intro same
      have texts := congrArg (Option.map fun seen => seen.2.2.2.2.1) same
      have longer : e.command ++ [byte] = e₁.command := Option.some.inj texts
      rw [behind.command] at longer
      simp at longer
  · have mode := behind.mode_normal command
    rw [if_neg command] at takes
    rw [if_neg (by rw [mode]; exact nofun)]
    by_cases colon : byte = ':'.toUInt8
    · have handled := behind.handled
      unfold Editor.handleByte at handled
      rw [mode, colon] at handled
      cases handled
      rw [if_pos ⟨mode, colon⟩]
      intro same
      have modes := congrArg (Option.map fun seen => seen.2.2.2.1) same
      have left : Mode.command = e₁.mode := Option.some.inj modes
      rw [mode] at left
      cases left
    · obtain ⟨clean, alters⟩ := takes.resolve_left colon
      rw [if_neg fun both => colon both.2, behind.handled, Option.bind_eq_bind, Option.bind_some,
        (behind.alters command).mpr alters]
      intro same
      have marks := congrArg (Option.map fun seen => seen.2.2.2.2.2.1) same
      have marked : (e₂.dirty || true) = e₂.dirty := Option.some.inj marks
      rw [behind.marked, clean] at marked
      cases marked

section Keys

theorem Valid.key_paused (valid : e.Valid) (free : ¬ e.DependsOn world k)
    (arrow : e.ended = false → e.escape = .esc → k.bytes ≠ ['['.toUInt8]) (n : Nat) :
    e.run world (List.replicate n .again ++ k.inputs) = e.run world k.inputs := by
  obtain ⟨byte, rest, bytes, single⟩ := k.bytes_cases
  cases n with
  | zero => rfl
  | succ n =>
    have inputs : k.inputs = .byte byte :: rest.map .byte := by
      rw [Key.inputs, bytes, List.map_cons]
    have same : (e.step world .again).bind (fun e => e.step world (.byte byte)) =
        e.step world (.byte byte) := by
      apply valid.step_paused
      · intro depends
        have one : k.bytes = [byte] := by rw [bytes, single depends.2.2.1]
        exact free ⟨byte, one, depends⟩
      · intro running pending bracket
        have one : k.bytes = [byte] := by
          rw [bytes, single (by rw [bracket]; decide)]
        exact arrow running pending (one.trans (by rw [bracket]))
    rw [run_append, valid.pause, inputs, run_cons, ← same, Option.bind_assoc]
    rfl

theorem Valid.key_differs (valid : e.Valid) (depends : e.DependsOn world k)
    (arrow : k.bytes ≠ ['['.toUInt8]) :
    (e.run world (List.replicate 1 .again ++ k.inputs)).map seen ≠
      (e.run world k.inputs).map seen := by
  obtain ⟨byte, one, depends⟩ := depends
  have inputs : k.inputs = [.byte byte] := by
    rw [Key.inputs, one, List.map_cons, List.map_nil]
  have bracket : byte ≠ '['.toUInt8 := by
    intro same
    exact arrow (one.trans (by rw [same]))
  have differs := valid.step_differs depends bracket
  rw [run_append, valid.pause, inputs, run_one]
  simpa only [run_one] using differs

theorem Valid.key_escape (valid : e.Valid) (ran : e.run world k.inputs = some e')
    (running : e'.ended = false) (pending : e'.escape = .esc) : k = .esc := by
  apply Key.eq_esc
  obtain ⟨byte, rest, bytes, -⟩ := k.bytes_cases
  obtain ⟨front, last, split⟩ := List.eq_nil_or_concat k.bytes |>.resolve_left (by simp [bytes])
  rw [Key.inputs, split, List.concat_eq_append, List.map_append, run_append] at ran
  obtain ⟨e₀, ran₀, stepped⟩ := Option.bind_eq_some_iff.mp ran
  obtain ⟨_, ran₀', lines, line, on⟩ := valid.run world (front.map .byte)
  cases ran₀.symm.trans ran₀'
  rw [List.map_cons, List.map_nil, run_one] at stepped
  by_cases ended : e₀.ended = true
  · unfold Editor.step at stepped
    rw [if_pos ended] at stepped
    cases stepped
    rw [ended] at running
    cases running
  · rw [step_of_running (Bool.not_eq_true _ ▸ ended)] at stepped
    obtain ⟨_, read, -, escape, -⟩ := on.readByte world last
    cases read.symm.trans stepped
    rw [split, List.concat_eq_append, List.getLast?_append, escape pending]
    rfl

end Keys

section Sequences

variable {pause : Nat → Nat} {n : Nat}

theorem take_succ (here : ks[n]? = some k) : ks.take (n + 1) = ks.take n ++ [k] := by
  rw [List.take_add_one, here]
  rfl

theorem Valid.not_bracket (valid : e.Valid) (apart : Key.Apart ks) (here : ks[n + 1]? = some k)
    (ran : e.run world (hurried (ks.take (n + 1))) = some e') (running : e'.ended = false)
    (pending : e'.escape = .esc) : k.bytes ≠ ['['.toUInt8] := by
  have inside := (List.getElem?_eq_some_iff.mp here).1
  have before : ks[n]? = some ks[n] := List.getElem?_eq_getElem (Nat.lt_of_succ_lt inside)
  rw [take_succ before, Key.hurried_append, run_append] at ran
  obtain ⟨e₀, ran₀, last⟩ := Option.bind_eq_some_iff.mp ran
  obtain ⟨_, ran₀', valid₀⟩ := valid.run world (hurried (ks.take n))
  cases ran₀.symm.trans ran₀'
  apply apart n _ k here
  rw [before, valid₀.key_escape last running pending]

theorem Valid.paced (valid : e.Valid) (apart : Key.Apart ks) (start : pause 0 = 0)
    (free : ∀ n k, ks[n + 1]? = some k → ∀ e', e.run world (hurried (ks.take (n + 1))) = some e' →
      ¬ e'.DependsOn world k) (n : Nat) :
    e.run world (paced pause (ks.take n)) = e.run world (hurried (ks.take n)) := by
  induction n with
  | zero => rfl
  | succ n ih =>
    cases here : ks[n]? with
    | none =>
      have past : ks.length ≤ n := List.getElem?_eq_none_iff.mp here
      rw [List.take_of_length_le past] at ih
      rw [List.take_of_length_le (Nat.le_succ_of_le past)]
      exact ih
    | some k =>
      obtain ⟨inside, same⟩ := List.getElem?_eq_some_iff.mp here
      have length : (ks.take n).length = n := List.length_take_of_le (le_of_lt inside)
      obtain ⟨e', ran, valid'⟩ := valid.run world (hurried (ks.take n))
      rw [take_succ here, Key.paced_append, Key.hurried_append, run_append, run_append, ih, ran,
        length, Option.bind_some, Option.bind_some]
      cases n with
      | zero => rw [start, List.replicate_zero, List.nil_append]
      | succ n =>
        apply valid'.key_paused (free n k here e' ran)
        intro running pending
        exact valid.not_bracket apart here ran running pending

/-- The pauses between the keys make no difference, however far the keys are typed, if and only if
no key comes, with no pause before any, where its byte depends on one. -/
theorem Valid.pace_free_iff (valid : e.Valid) (world : World) (apart : Key.Apart ks) :
    (∀ n, e.PaceFree world (ks.take n)) ↔
      ∀ n k, ks[n + 1]? = some k → ∀ e', e.run world (hurried (ks.take (n + 1))) = some e' →
        ¬ e'.DependsOn world k := by
  constructor
  · intro same n k here e' ran depends
    obtain ⟨_, ran', valid'⟩ := valid.run world (hurried (ks.take (n + 1)))
    cases ran.symm.trans ran'
    have inside := (List.getElem?_eq_some_iff.mp here).1
    have length : (ks.take (n + 1)).length = n + 1 := List.length_take_of_le (le_of_lt inside)
    -- One pause, and it is before this key.
    have told := same (n + 2) (fun i => if i = n + 1 then 1 else 0) (fun _ => 0) rfl rfl
    rw [take_succ here, Key.paced_append, Key.paced_append, Key.paced_of_zero (by
      intro i before
      rw [length] at before
      exact if_neg (Nat.ne_of_lt before)), Key.paced_of_zero (fun _ _ => rfl), length,
      if_pos rfl, run_append, run_append, ran, Option.bind_some, Option.bind_some] at told
    obtain ⟨byte, one, takes⟩ := id depends
    exact valid'.key_differs depends (valid.not_bracket apart here ran takes.1 takes.2.1) told
  · intro free n pause pause' start start'
    rw [valid.paced apart start free n, valid.paced apart start' free n]

/-- Behind an Esc, an `x` that comes at once is not marked. -/
theorem pace_free_iff_letter : ∃ e, readLetter = some e ∧ ¬ ∀ n, e.PaceFree generous
    (([.esc, .char 'x'.toUInt8 (by decide)] : List Key).take n) := by
  obtain ⟨b, b', e, made, loaded, opens, same, on⟩ := exists_letter
  refine ⟨e, same, ?_⟩
  intro free
  have apart : Key.Apart [.esc, .char 'x'.toUInt8 (by decide)]
    | 0, _, _, rfl => by decide
  have valid : e.Valid := ⟨_, _, on⟩
  obtain ⟨e', ran, -⟩ := valid.run generous (hurried [.esc])
  have state : (readLetter.bind fun e => e.run generous (hurried [.esc])).map
      (fun e => (e.ended, e.escape, e.mode)) = some (false, .esc, .normal) := by decide
  have text : (readLetter.bind fun e => e.run generous (hurried [.esc])).map
      (fun e => (e.dirty, e.buffer.length e.row, e.col)) = some (false, some 1, 0) := by decide
  rw [same, Option.bind_some, ran, Option.map_some, Option.some.injEq, Prod.mk.injEq,
    Prod.mk.injEq] at state text
  obtain ⟨running, pending, mode⟩ := state
  obtain ⟨clean, length, col⟩ := text
  apply (valid.pace_free_iff generous apart).mp free 0 _ rfl e' ran
  refine ⟨'x'.toUInt8, rfl, running, pending, by decide, ?_⟩
  rw [mode]
  refine .inr ⟨clean, .inl ⟨rfl, 1, length, ?_⟩⟩
  rw [mode, col]
  decide

/-- Behind an Esc, a colon that comes at once does not begin a command. -/
theorem colon_behind_esc : ∃ e, readLetter = some e ∧ e.Valid ∧
    Key.Apart [.esc, .char ':'.toUInt8 (by decide)] ∧
      ¬ e.PaceFree generous [.esc, .char ':'.toUInt8 (by decide)] := by
  obtain ⟨b, b', e, made, loaded, opens, same, on⟩ := exists_letter
  refine ⟨e, same, ⟨_, _, on⟩, ?_, ?_⟩
  · intro n _ k here
    match n, here with
    | 0, rfl => decide
  · intro free
    have modes := congrArg (Option.map fun seen => seen.2.2.2.1)
      (free (fun i => if i = 1 then 1 else 0) (fun _ => 0) rfl rfl)
    have paused : (readLetter.bind fun e => e.run generous
        [.byte esc, .again, .byte ':'.toUInt8]).map (fun e => e.mode) = some .command := by decide
    have hurried : (readLetter.bind fun e => e.run generous
        [.byte esc, .byte ':'.toUInt8]).map (fun e => e.mode) = some .normal := by decide
    rw [same, Option.bind_some] at paused hurried
    rw [Option.map_map, Option.map_map] at modes
    cases hurried.symm.trans (modes.symm.trans paused)

end Sequences

end Editor

end Zaytos.Zi
