import Zaytos.Zi.CharacterSteps

set_option autoImplicit false

/-! A valid text stays valid while it is edited, unless the cursor has come into the middle of a
character. -/
namespace Zaytos.Zi

open Terminal (IsUtf8 WalkPosition nextBoundary prevBoundary)
open Terminated (linesOf text)

namespace Editor

variable {e e' : Editor} {lines : List (List UInt8)} {line : List UInt8} {world : World}
  {byte : UInt8} {inputs : List Input}

/-- The column that the cursor has when a byte behind a pending Esc is taken. -/
def colBehind (e : Editor) : Option Nat :=
  if e.mode = .insert then (e.buffer.line e.row).bind fun line => prevBoundary line e.col
  else some e.col

/-- The byte takes the cursor up or down to where the column is deep in a character, or deletes the
last character of a line, but not its only one, while a command is typed. -/
def StraysAt (e : Editor) (byte : UInt8) : Prop :=
  match e.escape with
  | .idle => e.mode = .normal ∧ e.LandsDeep (e.rowOf 'k'.toUInt8 'j'.toUInt8 byte) e.col
  | .esc => e.mode ≠ .command ∧ ∃ col, e.colBehind = some col ∧
      e.LandsDeep (e.rowOf 'k'.toUInt8 'j'.toUInt8 byte) col
  | .bracket => e.LandsDeep (e.rowOf 'A'.toUInt8 'B'.toUInt8 byte) e.col
  | .tilde => byte = '~'.toUInt8 ∧ e.mode = .command ∧ 0 < e.col ∧
      ∃ line, e.buffer.line e.row = some line ∧ e.col < line.length ∧
        nextBoundary line e.col = line.length

def Strays (e : Editor) : Input → Prop
  | .byte byte => e.ended = false ∧ e.StraysAt byte
  | .again | .closed => False

namespace Whole

variable (whole : e.Whole lines line)
include whole

theorem behindEsc (world : World) (small : byte < 0x80) (pending : e.escape = .esc)
    (arrow : byte ≠ '['.toUInt8) (other : byte ≠ esc) (fair : ¬ e.StraysAt byte) :
    ∃ e', e.readByte world byte = some e' ∧ e'.Intact := by
  obtain ⟨col, behind, e₁, finished, same, whole₁⟩ := whole.resolve
  have fair₁ : e₁.mode = .normal →
      ¬ e₁.LandsDeep (e₁.rowOf 'k'.toUInt8 'j'.toUInt8 byte) e₁.col := by
    intro normal deep
    unfold StraysAt at fair
    rw [pending] at fair
    refine fair ⟨?_, col, ?_, ?_⟩
    · intro command
      rw [same, if_neg (by rw [command]; exact nofun), command] at normal
      cases normal
    · unfold colBehind
      rw [whole.on.line_eq]
      exact behind
    · rw [same] at deep
      exact deep
  obtain ⟨changed, e', handled, intact⟩ := whole₁.handleByte world small fair₁
  refine ⟨e', ?_, intact⟩
  unfold Editor.readByte
  rw [pending]
  dsimp only
  rw [if_neg arrow, finished, Option.bind_eq_bind, Option.bind_some, if_neg other, handled]
  rfl

theorem readByte (world : World) (small : byte < 0x80) (fair : ¬ e.StraysAt byte) :
    ∃ e', e.readByte world byte = some e' ∧ e'.Intact := by
  have escaped : ∀ escape, Whole { e with escape } lines line := fun _ => whole.other
  cases pending : e.escape with
  | idle =>
    unfold StraysAt at fair
    unfold Editor.readByte
    rw [pending] at fair ⊢
    dsimp only
    split
    · exact ⟨_, rfl, (escaped .esc).intact⟩
    · exact whole.typed world small fun normal deep => fair ⟨normal, deep⟩
  | esc =>
    by_cases arrow : byte = '['.toUInt8
    · unfold Editor.readByte
      rw [pending]
      dsimp only
      rw [if_pos arrow]
      exact ⟨_, rfl, (escaped .bracket).intact⟩
    by_cases other : byte = Zi.esc
    · obtain ⟨col, -, e₁, finished, -, whole₁⟩ := whole.resolve
      unfold Editor.readByte
      rw [pending]
      dsimp only
      rw [if_neg arrow, finished, Option.bind_eq_bind, Option.bind_some, if_pos other]
      exact ⟨_, rfl, lines, line, whole₁.other⟩
    · exact whole.behindEsc world small pending arrow other fair
  | bracket =>
    unfold StraysAt at fair
    unfold Editor.readByte
    rw [pending] at fair ⊢
    dsimp only
    split
    · exact ⟨_, rfl, (escaped .tilde).intact⟩
    · exact (escaped .idle).arrow byte fair
  | tilde =>
    unfold StraysAt at fair
    unfold Editor.readByte
    rw [pending] at fair ⊢
    dsimp only
    split
    case isTrue deletes =>
      obtain ⟨removed, e', done, lines', line', whole'⟩ := (escaped .idle).removeHere
        fun strays => fair ⟨deletes, strays.1, strays.2.1, line, whole.on.line_eq, strays.2.2⟩
      rw [done, Option.bind_eq_bind, Option.bind_some]
      exact ⟨_, rfl, lines', line', whole'.other⟩
    · exact ⟨_, rfl, (escaped .idle).intact⟩

theorem step (world : World) {input : Input} (ascii : ∀ byte, input = .byte byte → byte < 0x80)
    (fair : ¬ e.Strays input) : ∃ e', e.step world input = some e' ∧ e'.Intact := by
  unfold Editor.step
  split
  · exact ⟨e, rfl, whole.intact⟩
  case isFalse running =>
    cases input with
    | byte byte =>
      apply whole.readByte world (ascii byte rfl)
      intro strays
      exact fair ⟨Bool.not_eq_true _ ▸ running, strays⟩
    | again =>
      dsimp only
      split
      · obtain ⟨col, -, e₁, finished, -, whole₁⟩ := whole.resolve
        exact ⟨e₁, finished, whole₁.intact⟩
      · exact ⟨e, rfl, whole.intact⟩
    | closed => exact ⟨_, rfl, lines, line, whole.other⟩

end Whole

def Ascii (inputs : List Input) : Prop := ∀ input ∈ inputs, ∀ byte, input = .byte byte → byte < 0x80

theorem ascii_bytes (bytes : List UInt8) (small : bytes.all (· < 0x80) = true) :
    Ascii (bytes.map Input.byte) := by
  intro input mem byte eq
  obtain ⟨other, there, made⟩ := List.mem_map.mp mem
  cases made.trans eq
  exact of_decide_eq_true (List.all_eq_true.mp small byte there)

def Fair (world : World) (e : Editor) (inputs : List Input) : Prop :=
  ∀ front input rest, inputs = front ++ input :: rest →
    ∀ e', e.run world front = some e' → ¬ e'.Strays input

theorem Fair.step {input : Input} (fair : Fair world e (input :: inputs))
    (stepped : e.step world input = some e') : Fair world e' inputs := by
  intro front other rest split e'' ran
  apply fair (input :: front) other rest
  · rw [split, List.cons_append]
  · rw [run_cons, stepped]
    exact ran

theorem Intact.run (intact : e.Intact) (ascii : Ascii inputs) (fair : Fair world e inputs) :
    ∃ e', e.run world inputs = some e' ∧ e'.Intact := by
  induction inputs generalizing e with
  | nil => exact ⟨e, rfl, intact⟩
  | cons input inputs ih =>
    obtain ⟨lines, line, whole⟩ := intact
    have first := ascii input List.mem_cons_self
    obtain ⟨e₁, stepped, intact₁⟩ := whole.step world first (fair [] input inputs rfl e rfl)
    obtain ⟨e₂, ran, intact₂⟩ :=
      ih intact₁ (fun other mem => ascii other (List.mem_cons_of_mem _ mem)) (fair.step stepped)
    refine ⟨e₂, ?_, intact₂⟩
    rw [run_cons, stepped]
    exact ran

def Between (line : List UInt8) (col : Nat) : Prop :=
  col ≤ line.length ∧ IsUtf8 (line.take col) ∧ IsUtf8 (line.drop col)

/-- The text is valid, and the cursor in it, between two characters; in normal mode it is not behind
the last one. -/
structure Sound (e : Editor) : Prop where
  text : ∃ bytes, e.buffer.asBytes = some bytes ∧ IsUtf8 bytes
  row : e.row < e.buffer.count
  col : ∃ line, e.buffer.line e.row = some line ∧ Between line e.col ∧
    (e.mode = .normal → ToLast line e.col)

theorem Intact.sound (intact : e.Intact) : e.Sound := by
  obtain ⟨lines, line, whole⟩ := intact
  constructor
  · exact ⟨_, whole.holds.asBytes_eq, isUtf8_text_iff.mpr whole.valid⟩
  · rw [whole.holds.count]
    exact whole.on.inside
  · refine ⟨line, whole.on.line_eq, ⟨whole.walk.le_length, whole.lineValid.cut whole.walk⟩, ?_⟩
    intro normal
    exact whole.last (by rw [normal]; exact nofun)

theorem opened_intact {opening : Reaches} {size : Nat} {reading : Nat → Reaches}
    {chunks : List (List UInt8)} {b b' : Buffer} (valid : IsUtf8 chunks.flatten)
    (made : Buffer.openFor opening size = some (some b))
    (loaded : b.load reading 0 chunks = some (true, b')) (opens : opened b' = some e) :
    e.Intact := by
  obtain ⟨_, made', shaped⟩ := Buffer.openFor_spec opening size
  cases made.symm.trans made'
  obtain ⟨_, _, loaded', holds⟩ := (shaped b rfl).load_spec reading chunks (Nat.zero_le _)
    (show b.region.view 0 0 = [] from rfl)
  cases loaded.symm.trans loaded'
  have holds := holds rfl
  have whole : IsUtf8 (text newline (linesOf newline (Zi.ended ([] ++ chunks.flatten)))) := by
    rw [Terminated.text_linesOf _ _ (ended_getLast _)]
    exact isUtf8_ended valid
  have first := List.getElem?_eq_getElem holds.nonempty
  unfold opened at opens
  rw [holds.asBytes_eq] at opens
  cases opens
  exact ⟨_, _, holds, isUtf8_text_iff.mp whole, first, WalkPosition.start, fun _ => toLast_zero _⟩

/-- In a file that is valid, whatever ASCII bytes are typed, the text stays valid and the cursor
between its characters, as long as no input strays. -/
theorem keeps_characters {opening : Reaches} {size : Nat} {reading : Nat → Reaches}
    {chunks : List (List UInt8)} {b b' : Buffer} (valid : IsUtf8 chunks.flatten)
    (made : Buffer.openFor opening size = some (some b))
    (loaded : b.load reading 0 chunks = some (true, b')) (opens : opened b' = some e)
    (ascii : Ascii inputs) (fair : Fair world e inputs) :
    ∃ e', e.run world inputs = some e' ∧ e'.Sound := by
  obtain ⟨e', ran, intact⟩ := (opened_intact valid made loaded opens).run ascii fair
  exact ⟨e', ran, intact.sound⟩

theorem StraysAt.key (strays : e.StraysAt byte) :
    byte ∈ ['j'.toUInt8, 'k'.toUInt8, 'A'.toUInt8, 'B'.toUInt8, '~'.toUInt8] := by
  have vertical : ∀ {up down : UInt8} {col : Nat}, e.LandsDeep (e.rowOf up down byte) col →
      byte = up ∨ byte = down := by
    intro up down col lands
    obtain ⟨row, line, moves, -⟩ := lands
    unfold rowOf at moves
    by_contra neither
    rw [not_or] at neither
    rw [if_neg neither.1, if_neg neither.2] at moves
    cases moves
  simp only [List.mem_cons, List.not_mem_nil, or_false]
  unfold StraysAt at strays
  cases pending : e.escape with
  | idle =>
    rw [pending] at strays
    rcases vertical strays.2 with up | down
    · exact .inr (.inl up)
    · exact .inl down
  | esc =>
    rw [pending] at strays
    obtain ⟨col, -, lands⟩ := strays.2
    rcases vertical lands with up | down
    · exact .inr (.inl up)
    · exact .inl down
  | bracket =>
    rw [pending] at strays
    rcases vertical strays with up | down
    · exact .inr (.inr (.inl up))
    · exact .inr (.inr (.inr (.inl down)))
  | tilde =>
    rw [pending] at strays
    exact .inr (.inr (.inr (.inr strays.1)))

section Small

def kana : List UInt8 := [0x61, 0x62, 0x63, 0x0A, 0xE3, 0x81, 0x82, 0xE3, 0x81, 0x84, 0x0A]

def readKana : Option Editor := do
  let b ← (← Buffer.openFor (fun _ => true) 11)
  let (_, b) ← b.load (fun _ _ => true) 0 [kana]
  opened b

theorem isUtf8_kana : IsUtf8 [kana].flatten :=
  Terminal.isUtf8_encode ['a', 'b', 'c', '\n', 'あ', 'い', '\n']

theorem exists_kana : ∃ b b' e, Buffer.openFor (fun _ => true) 11 = some (some b) ∧
    b.load (fun _ _ => true) 0 [kana] = some (true, b') ∧ opened b' = some e ∧
    readKana = some e := by
  obtain ⟨made, opens, shaped⟩ := Buffer.openFor_spec (fun _ => true) 11
  have some' : (Buffer.openFor (fun _ => true) 11).map Option.isSome = some true := by decide
  rw [opens] at some'
  cases made with
  | none => cases some'
  | some b =>
    have granted : ((Buffer.openFor (fun _ => true) 11).bind fun made => made.bind fun b =>
        (b.load (fun _ _ => true) 0 [kana]).map Prod.fst) = some true := by decide +kernel
    obtain ⟨ok, b', loaded, holds⟩ := (shaped b rfl).load_spec (fun _ _ => true) [kana]
      (Nat.zero_le _) (show b.region.view 0 0 = [] from rfl)
    rw [opens, Option.bind_some, Option.bind_some, loaded] at granted
    cases granted
    obtain ⟨e, line, opens', -⟩ := opened_on (holds rfl)
    refine ⟨b, b', e, opens, loaded, opens', ?_⟩
    unfold readKana
    rw [opens, Option.bind_eq_bind, Option.bind_some, Option.bind_eq_bind, Option.bind_some, loaded]
    exact opens'

/-- To the second letter, which is taken out. -/
theorem keeps_characters_kana : ∃ e e', readKana = some e ∧
    e.run generous [.byte 'l'.toUInt8, .byte 'x'.toUInt8] = some e' ∧ e'.Sound := by
  obtain ⟨b, b', e, made, loaded, opens, same⟩ := exists_kana
  obtain ⟨e', ran, sound⟩ := @keeps_characters e generous [.byte 'l'.toUInt8, .byte 'x'.toUInt8]
    _ _ _ _ _ _ isUtf8_kana made loaded opens (ascii_bytes ['l'.toUInt8, 'x'.toUInt8] (by decide))
    (by
      intro front input rest split e' _ strays
      have mem : input ∈ [Input.byte 'l'.toUInt8, .byte 'x'.toUInt8] := by
        rw [split]
        simp
      simp only [List.mem_cons, List.not_mem_nil, or_false] at mem
      rcases mem with letter | letter
      all_goals
        rw [letter] at strays
        exact absurd strays.2.key (by decide))
  exact ⟨e, e', same, ran, sound⟩

/-- From the third letter of the first line down, the cursor comes to the second byte of a
character. -/
theorem cursor_in_character : ¬ ∀ (opening : Reaches) (size : Nat) (reading : Nat → Reaches)
    (chunks : List (List UInt8)) (b b' : Buffer) (e : Editor) (world : World)
    (inputs : List Input), IsUtf8 chunks.flatten →
      Buffer.openFor opening size = some (some b) → b.load reading 0 chunks = some (true, b') →
        opened b' = some e → Ascii inputs →
          ∃ e', e.run world inputs = some e' ∧ e'.Sound := by
  intro claim
  obtain ⟨b, b', e, made, loaded, opens, same⟩ := exists_kana
  have ascii : Ascii [.byte 'l'.toUInt8, .byte 'l'.toUInt8, .byte 'j'.toUInt8] :=
    ascii_bytes ['l'.toUInt8, 'l'.toUInt8, 'j'.toUInt8] (by decide)
  obtain ⟨e', ran, sound⟩ := claim _ _ _ _ b b' e generous _ isUtf8_kana made loaded opens ascii
  obtain ⟨line, found, between, -⟩ := sound.col
  have known : (readKana.bind fun e => e.run generous [.byte 'l'.toUInt8, .byte 'l'.toUInt8,
      .byte 'j'.toUInt8]).bind (fun e => (e.buffer.line e.row).map fun line =>
        line.drop e.col) = some [0x81, 0x82, 0xE3, 0x81, 0x84] := by decide +kernel
  rw [same, Option.bind_some, ran, Option.bind_some, found, Option.map_some,
    Option.some.injEq] at known
  obtain ⟨c, head, tail, rest, eq, encoded, -⟩ :=
    (known ▸ between.2.2).front (List.cons_ne_nil _ _)
  rw [List.cons_append, List.cons.injEq] at eq
  have length := encoded.length
  rw [← eq.1] at length
  cases length

end Small

end Editor

end Zaytos.Zi
