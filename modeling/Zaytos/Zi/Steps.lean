import Zaytos.Zi.EditorSpec
import Zaytos.Zi.Loading

set_option autoImplicit false

/-! What once round the loop of the editor can do: it never stops short, and where an edit is not
lost, what is not marked as unsaved is what was written or read last. -/
namespace Zaytos.Zi

open Terminated (text)

namespace Editor

variable {line : List UInt8} {lines : List (List UInt8)} {e e' : Editor} {world : World}
  {byte : UInt8}

/-- The editor goes on with lines, and what it does not mark as unsaved is as it was, or has just
been written. -/
def Accounts (e : Editor) (lines : List (List UInt8)) (e' : Editor) : Prop :=
  ∃ lines' line', e'.On lines' line' ∧
    (e'.dirty = false → e.dirty = false ∧ lines' = lines ∧ e'.saved = e.saved ∨
      e'.saved = text newline lines')

theorem Accounts.valid (accounts : e.Accounts lines e') : e'.Valid := by
  obtain ⟨lines', line', on, -⟩ := accounts
  exact ⟨lines', line', on⟩

theorem Edited.valid {changed : Bool} (edited : e.Edited lines changed e') : e'.Valid := by
  obtain ⟨lines', line', on, -⟩ := edited.after
  exact ⟨lines', line', on⟩

theorem Edited.accounts {changed : Bool} (edited : e.Edited lines changed e') :
    e.Accounts lines { e' with dirty := e.dirty || changed } := by
  obtain ⟨lines', line', on, kept⟩ := edited.after
  refine ⟨lines', line', ⟨on.holds, on.here, on.col⟩, ?_⟩
  intro clean
  obtain ⟨before, unchanged⟩ := Bool.or_eq_false_iff.mp clean
  refine .inl ⟨before, kept unchanged, ?_⟩
  rw [edited.same]

theorem Moved.accounts (moved : e.Moved lines e') : e.Accounts lines e' := by
  obtain ⟨row, col, mode, line, rfl, on⟩ := moved
  exact ⟨lines, line, on, fun clean => .inl ⟨clean, rfl, rfl⟩⟩

namespace On

variable (on : e.On lines line)
include on

theorem finishPendingEscape : ∃ col, e.finishPendingEscape =
      some { e with mode := if e.mode = .insert then .normal else e.mode, col } ∧
    col ≤ line.length ∧
      (col < line.length ↔ (if e.mode = .insert then 0 else e.col) < line.length) := by
  have within := on.col
  unfold Editor.finishPendingEscape
  split
  · obtain ⟨back, moved, below, before⟩ := prevBoundary_spec within
    rw [on.line_eq, Option.bind_eq_bind, Option.bind_some, moved]
    refine ⟨back, rfl, by omega, ?_⟩
    constructor
    · omega
    · intro some'
      by_cases first : 0 < e.col
      · have := before first
        omega
      · omega
  · exact ⟨e.col, rfl, within, Iff.rfl⟩

theorem save (world : World) : ∃ ok e', e.save world = some (ok, e') ∧
    e' = { e with saved := e'.saved, calls := e'.calls } ∧
    (if ok then e'.saved = text newline lines else e'.saved = e.saved) := by
  unfold Editor.save
  rw [on.holds.asBytes_eq, Option.bind_eq_bind, Option.bind_some]
  split
  · exact ⟨true, _, rfl, rfl, rfl⟩
  · exact ⟨false, _, rfl, rfl, rfl⟩

theorem runCommand (world : World) : ∃ outcome e', e.runCommand world = some (outcome, e') ∧
    e' = { e with saved := e'.saved, calls := e'.calls } ∧
    (e'.saved = text newline lines ∨ outcome ≠ .saved ∧ e'.saved = e.saved) := by
  obtain ⟨ok, e', saved, same, written⟩ := on.save world
  unfold Editor.runCommand
  split
  · rw [saved]
    cases ok with
    | true => exact ⟨_, e', rfl, same, .inl written⟩
    | false => exact ⟨_, e', rfl, same, .inr ⟨nofun, written⟩⟩
  split
  · refine ⟨_, e, rfl, rfl, .inr ⟨?_, rfl⟩⟩
    split <;> exact nofun
  split
  · rw [saved]
    cases ok with
    | true => exact ⟨_, e', rfl, same, .inl written⟩
    | false => exact ⟨_, e', rfl, same, .inr ⟨nofun, written⟩⟩
  · exact ⟨_, e, rfl, rfl, .inr ⟨nofun, rfl⟩⟩

theorem commandByte (world : World) (byte : UInt8) :
    ∃ e', e.commandByte world byte = some e' ∧ e.Accounts lines e' ∧ e'.escape = e.escape ∧
      (byte = newline → e'.mode = .normal) := by
  unfold Editor.commandByte
  split
  case isTrue runs =>
    obtain ⟨outcome, e', ran, same, written⟩ := on.runCommand world
    rw [ran, Option.bind_eq_bind, Option.bind_some]
    rw [same]
    cases outcome with
    | quit =>
      refine ⟨_, rfl, ⟨lines, line, ⟨on.holds, on.here, on.col⟩, ?_⟩, rfl, fun _ => rfl⟩
      intro clean
      exact written.symm.imp_left fun kept => ⟨clean, rfl, kept.2⟩
    | saved =>
      refine ⟨_, rfl, ⟨lines, line, ⟨on.holds, on.here, on.col⟩, ?_⟩, rfl, fun _ => rfl⟩
      intro _
      exact .inr (written.resolve_right fun kept => kept.1 rfl)
    | refused =>
      refine ⟨_, rfl, ⟨lines, line, ⟨on.holds, on.here, on.col⟩, ?_⟩, rfl, fun _ => rfl⟩
      intro clean
      exact written.symm.imp_left fun kept => ⟨clean, rfl, kept.2⟩
    | failed =>
      refine ⟨_, rfl, ⟨lines, line, ⟨on.holds, on.here, on.col⟩, ?_⟩, rfl, fun _ => rfl⟩
      intro clean
      exact written.symm.imp_left fun kept => ⟨clean, rfl, kept.2⟩
  case isFalse other =>
    have kept : ∀ mode command, e.Accounts lines { e with mode, command } := fun mode command =>
      ⟨lines, line, ⟨on.holds, on.here, on.col⟩, fun clean => .inl ⟨clean, rfl, rfl⟩⟩
    split
    · exact ⟨_, rfl, kept _ _, rfl, fun same => absurd same other⟩
    split
    · exact ⟨_, rfl, kept _ _, rfl, fun same => absurd same other⟩
    · exact ⟨_, rfl, kept e.mode e.command, rfl, fun same => absurd same other⟩

theorem typed (world : World) (byte : UInt8) :
    ∃ e', e.typed world byte = some e' ∧ e.Accounts lines e' ∧ e'.escape = e.escape := by
  unfold Editor.typed
  split
  · obtain ⟨e', done, accounts, escape, -⟩ := on.commandByte world byte
    exact ⟨e', done, accounts, escape⟩
  split
  · exact ⟨_, rfl, ⟨lines, line, ⟨on.holds, on.here, on.col⟩,
      fun clean => .inl ⟨clean, rfl, rfl⟩⟩, rfl⟩
  · obtain ⟨changed, e', handled, edited⟩ := on.handleByte world byte
    rw [handled, Option.bind_eq_bind, Option.bind_some]
    have dirty : e'.dirty = e.dirty := by rw [edited.same]
    dsimp only
    rw [dirty]
    refine ⟨_, rfl, edited.accounts, ?_⟩
    rw [edited.same]

theorem escaped (escape : Escape) : On { e with escape } lines line := ⟨on.holds, on.here, on.col⟩

theorem resolve : ∃ e₁, Editor.finishPendingEscape { e with escape := .idle } = some e₁ ∧
    e₁.On lines line ∧
    e₁ = { e with
      escape := .idle, mode := if e.mode = .insert then .normal else e.mode, col := e₁.col } ∧
    (e₁.col < line.length ↔ (if e.mode = .insert then 0 else e.col) < line.length) := by
  obtain ⟨col, finished, fits, there⟩ := (on.escaped .idle).finishPendingEscape
  exact ⟨_, finished, ⟨on.holds, on.here, fits⟩, rfl, there⟩

end On

/-- A byte of normal mode that changes the buffer when it comes behind a pending Esc: an `x` where
there is a character, or an `o` where there is room for a line. -/
def AltersBehind (world : World) (e : Editor) (byte : UInt8) : Prop :=
  byte = 'x'.toUInt8 ∧ (∃ n, e.buffer.length e.row = some n ∧
      (if e.mode = .insert then 0 else e.col) < n) ∨
    byte = 'o'.toUInt8 ∧ e.buffer.roomForLine (world.heap e.calls) = true

/-- An edit that is not marked: the first byte behind an Esc, when there was no mark yet. -/
def Unmarks (world : World) (e : Editor) (byte : UInt8) : Prop :=
  e.ended = false ∧ e.escape = .esc ∧ e.mode ≠ .command ∧ e.dirty = false ∧
    e.AltersBehind world byte

namespace On

variable (on : e.On lines line)
include on

theorem behindEsc (world : World) (byte : UInt8) (pending : e.escape = .esc)
    (arrow : byte ≠ '['.toUInt8) (other : byte ≠ esc) :
    ∃ e₁ changed e₂, Editor.finishPendingEscape { e with escape := .idle } = some e₁ ∧
      e₁.On lines line ∧
      e₁ = { e with
        escape := .idle, mode := if e.mode = .insert then .normal else e.mode, col := e₁.col } ∧
      e₁.handleByte world byte = some (changed, e₂) ∧ e₁.Edited lines changed e₂ ∧
      e.readByte world byte = some e₂ ∧
      (e.mode ≠ .command → (changed = true ↔ e.AltersBehind world byte)) ∧
      (e.mode = .command → changed = false ∧ e₂ = e₁) := by
  obtain ⟨e₁, finished, on₁, same, there⟩ := on.resolve
  have mode : e₁.mode = if e.mode = .insert then .normal else e.mode := by rw [same]
  obtain ⟨inside, here⟩ := List.getElem?_eq_some_iff.mp on.here
  have length := on.holds.length_eq inside
  rw [here] at length
  have read : ∀ {changed e₂}, e₁.handleByte world byte = some (changed, e₂) →
      e.readByte world byte = some e₂ := by
    intro changed e₂ handled
    unfold readByte
    rw [pending]
    dsimp only
    rw [if_neg arrow, finished, Option.bind_eq_bind, Option.bind_some, if_neg other, handled]
    rfl
  by_cases command : e.mode = .command
  · rw [command, if_neg nofun] at mode
    have handled : e₁.handleByte world byte = some (false, e₁) := by
      unfold Editor.handleByte
      rw [mode]
    exact ⟨e₁, false, e₁, finished, on₁, same, handled, on₁.moved_refl.edited false, read handled,
      fun other => absurd command other, fun _ => ⟨rfl, rfl⟩⟩
  · have normal : e₁.mode = .normal := by
      rw [mode]
      cases kind : e.mode with
      | normal => rfl
      | insert => rfl
      | command => exact absurd kind command
    obtain ⟨changed, e₂, handled, edited, alters⟩ := on₁.normalByte world normal byte
    refine ⟨e₁, changed, e₂, finished, on₁, same, handled, edited, read handled, ?_,
      fun same => absurd same command⟩
    intro _
    have buffer : e₁.buffer = e.buffer := by rw [same]
    have calls : e₁.calls = e.calls := by rw [same]
    rw [alters, Alters, AltersBehind, there, buffer, calls, length]
    simp

theorem readByte (world : World) (byte : UInt8) : ∃ e', e.readByte world byte = some e' ∧
    e'.Valid ∧ (e'.escape = .esc → byte = Zi.esc) ∧
      (e.ended = false → ¬ e.Unmarks world byte → e.Accounts lines e') := by
  have idle := on.escaped .idle
  have kept : ∀ escape, e.Accounts lines { e with escape } := fun escape =>
    ⟨lines, line, on.escaped escape, fun clean => .inl ⟨clean, rfl, rfl⟩⟩
  cases pending : e.escape with
  | idle =>
    unfold Editor.readByte
    rw [pending]
    dsimp only
    split
    case isTrue escapes => exact ⟨_, rfl, (kept .esc).valid, fun _ => escapes, fun _ _ => kept .esc⟩
    case isFalse other =>
      obtain ⟨e', done, accounts, same⟩ := on.typed world byte
      refine ⟨e', done, accounts.valid, ?_, fun _ _ => accounts⟩
      rw [same, pending]
      exact nofun
  | esc =>
    by_cases arrow : byte = '['.toUInt8
    · unfold Editor.readByte
      rw [pending]
      dsimp only
      rw [if_pos arrow]
      exact ⟨_, rfl, (kept .bracket).valid, nofun, fun _ _ => kept .bracket⟩
    by_cases other : byte = Zi.esc
    · obtain ⟨e₁, finished, on₁, same, -⟩ := on.resolve
      unfold Editor.readByte
      rw [pending]
      dsimp only
      rw [if_neg arrow, finished, Option.bind_eq_bind, Option.bind_some, if_pos other]
      have accounts : e.Accounts lines { e₁ with escape := .esc } := by
        refine ⟨lines, line, on₁.escaped .esc, fun clean => .inl ⟨?_, rfl, ?_⟩⟩
        · rw [← clean, same]
        · rw [same]
      exact ⟨_, rfl, accounts.valid, fun _ => other, fun _ _ => accounts⟩
    obtain ⟨e₁, changed, e₂, -, on₁, same, -, edited, read, alters, quiet⟩ :=
      on.behindEsc world byte pending arrow other
    have escape₂ : e₂.escape = .idle := by rw [edited.same, same]
    refine ⟨e₂, read, edited.valid, fun same => (nomatch escape₂.symm.trans same), ?_⟩
    intro running marked
    have dirty₁ : e₁.dirty = e.dirty := by rw [same]
    have saved₁ : e₁.saved = e.saved := by rw [same]
    have dirty₂ : e₂.dirty = e₁.dirty := by rw [edited.same]
    have saved₂ : e₂.saved = e₁.saved := by rw [edited.same]
    obtain ⟨lines', line', on₂, unchanged⟩ := edited.after
    refine ⟨lines', line', on₂, ?_⟩
    intro clean
    have before : e.dirty = false := by rw [← dirty₁, ← dirty₂, clean]
    refine .inl ⟨before, unchanged ?_, saved₂.trans saved₁⟩
    by_cases command : e.mode = .command
    · exact (quiet command).1
    · rw [← Bool.not_eq_true, alters command]
      exact fun there => marked ⟨running, pending, command, before, there⟩
  | bracket =>
    unfold Editor.readByte
    rw [pending]
    dsimp only
    split
    · exact ⟨_, rfl, (kept .tilde).valid, nofun, fun _ _ => kept .tilde⟩
    · obtain ⟨e', done, moved⟩ := idle.arrow byte
      have accounts : e.Accounts lines e' := moved.accounts
      refine ⟨e', done, accounts.valid, ?_, fun _ _ => accounts⟩
      obtain ⟨_, _, _, _, rfl, _⟩ := moved
      exact nofun
  | tilde =>
    unfold Editor.readByte
    rw [pending]
    dsimp only
    split
    · obtain ⟨e', removed, edited⟩ := idle.removeHere
      rw [removed, Option.bind_eq_bind, Option.bind_some]
      have dirty : e'.dirty = e.dirty := by rw [edited.same]
      dsimp only at edited ⊢
      rw [dirty]
      have accounts : e.Accounts lines { e' with
          dirty := e.dirty || decide (e.col < line.length) } := edited.accounts
      refine ⟨_, rfl, accounts.valid, ?_, fun _ _ => accounts⟩
      rw [edited.same]
      exact nofun
    · exact ⟨_, rfl, (kept .idle).valid, nofun, fun _ _ => kept .idle⟩

end On

def Forgets (world : World) (e : Editor) : Input → Prop
  | .byte byte => e.Unmarks world byte
  | .again | .closed => False

theorem On.step (on : e.On lines line) (world : World) (input : Input) :
    ∃ e', e.step world input = some e' ∧ e'.Valid ∧
      (¬ e.Forgets world input → e.Accounts lines e') := by
  have kept : ∀ ended, e.Accounts lines { e with ended } := fun ended =>
    ⟨lines, line, ⟨on.holds, on.here, on.col⟩, fun clean => .inl ⟨clean, rfl, rfl⟩⟩
  unfold Editor.step
  split
  · exact ⟨e, rfl, ⟨lines, line, on⟩, fun _ => kept e.ended⟩
  case isFalse running =>
    cases input with
    | byte byte =>
      obtain ⟨e', done, valid, -, accounts⟩ := on.readByte world byte
      exact ⟨e', done, valid, accounts (Bool.not_eq_true _ ▸ running)⟩
    | again =>
      dsimp only
      split
      · obtain ⟨e₁, finished, on₁, same, -⟩ := on.resolve
        refine ⟨e₁, finished, ⟨lines, line, on₁⟩, fun _ => ⟨lines, line, on₁, ?_⟩⟩
        intro clean
        refine .inl ⟨?_, rfl, ?_⟩
        · rw [← clean, same]
        · rw [same]
      · exact ⟨e, rfl, ⟨lines, line, on⟩, fun _ => kept e.ended⟩
    | closed => exact ⟨_, rfl, (kept true).valid, fun _ => kept true⟩

theorem run_append (world : World) (e : Editor) (first second : List Input) :
    e.run world (first ++ second) = (e.run world first).bind fun e => e.run world second :=
  List.foldlM_append

theorem run_cons (world : World) (e : Editor) (input : Input) (inputs : List Input) :
    e.run world (input :: inputs) = (e.step world input).bind fun e => e.run world inputs :=
  List.foldlM_cons

theorem run_one (world : World) (e : Editor) (input : Input) :
    e.run world [input] = e.step world input := by
  rw [run_cons]
  exact Option.bind_fun_some _

theorem step_of_running (running : e.ended = false) (world : World) (byte : UInt8) :
    e.step world (.byte byte) = e.readByte world byte := by
  unfold Editor.step
  rw [if_neg (Bool.not_eq_true _ ▸ running)]

theorem Valid.step (valid : e.Valid) (world : World) (input : Input) :
    ∃ e', e.step world input = some e' ∧ e'.Valid := by
  obtain ⟨lines, line, on⟩ := valid
  obtain ⟨e', done, valid', -⟩ := on.step world input
  exact ⟨e', done, valid'⟩

theorem Valid.run (valid : e.Valid) (world : World) (inputs : List Input) :
    ∃ e', e.run world inputs = some e' ∧ e'.Valid := by
  induction inputs generalizing e with
  | nil => exact ⟨e, rfl, valid⟩
  | cons input inputs ih =>
    obtain ⟨e₁, done, valid₁⟩ := valid.step world input
    obtain ⟨e₂, ran, valid₂⟩ := ih valid₁
    refine ⟨e₂, ?_, valid₂⟩
    rw [run_cons, done]
    exact ran

theorem opened_on {buffer : Buffer} (holds : buffer.Holds lines) :
    ∃ e line, opened buffer = some e ∧ e.On lines line ∧ lines[0]? = some line ∧
      e.saved = text newline lines := by
  unfold opened
  rw [holds.asBytes_eq]
  exact ⟨_, lines.get ⟨0, holds.nonempty⟩, rfl,
    ⟨holds, List.getElem?_eq_getElem holds.nonempty, Nat.zero_le _⟩,
    List.getElem?_eq_getElem holds.nonempty, rfl⟩

section Small

def readLetter : Option Editor := do
  let b ← (← Buffer.openFor (fun _ => true) 2)
  let (_, b) ← b.load (fun _ _ => true) 0 [['a'.toUInt8, newline]]
  opened b

def generous : World := ⟨fun _ _ => true, fun _ => true⟩

theorem exists_letter : ∃ b b' e, Buffer.openFor (fun _ => true) 2 = some (some b) ∧
    b.load (fun _ _ => true) 0 [['a'.toUInt8, newline]] = some (true, b') ∧
    opened b' = some e ∧ readLetter = some e ∧ e.On [['a'.toUInt8]] ['a'.toUInt8] := by
  obtain ⟨made, opens, shaped⟩ := Buffer.openFor_spec (fun _ => true) 2
  have some' : (Buffer.openFor (fun _ => true) 2).map Option.isSome = some true := by decide
  rw [opens] at some'
  cases made with
  | none => cases some'
  | some b =>
    have granted : ((Buffer.openFor (fun _ => true) 2).bind fun made => made.bind fun b =>
        (b.load (fun _ _ => true) 0 [['a'.toUInt8, newline]]).map Prod.fst) = some true := by decide
    obtain ⟨ok, b', loaded, holds⟩ := (shaped b rfl).load_spec (fun _ _ => true)
      [['a'.toUInt8, newline]] (Nat.zero_le _) (show b.region.view 0 0 = [] from rfl)
    rw [opens, Option.bind_some, Option.bind_some, loaded] at granted
    cases granted
    have same : Terminated.linesOf newline (Zi.ended ([] ++ [['a'.toUInt8, newline]].flatten)) =
        [['a'.toUInt8]] := by decide
    have holds := holds rfl
    rw [same] at holds
    obtain ⟨e, line, opens', on, first, -⟩ := opened_on holds
    cases first
    refine ⟨b, b', e, opens, loaded, opens', ?_, on⟩
    unfold readLetter
    rw [opens, Option.bind_eq_bind, Option.bind_some, Option.bind_eq_bind, Option.bind_some, loaded]
    exact opens'

end Small

end Editor

end Zaytos.Zi
