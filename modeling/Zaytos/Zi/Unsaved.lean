import Zaytos.Zi.Steps

set_option autoImplicit false

/-! The editor knows when there is unsaved work, but for an edit by the byte that comes right
behind an Esc. -/
namespace Zaytos.Zi

namespace Editor

variable {e e' : Editor} {world : World} {inputs : List Input}

def Saved (e : Editor) : Prop := e.dirty = false → e.buffer.asBytes = some e.saved

def Marks (world : World) (e : Editor) (inputs : List Input) : Prop :=
  ∀ front input rest, inputs = front ++ input :: rest →
    ∀ e', e.run world front = some e' → ¬ e'.Forgets world input

theorem Accounts.saved {lines : List (List UInt8)} (accounts : e.Accounts lines e')
    (before : e.dirty = false → Terminated.text newline lines = e.saved) : e'.Saved := by
  obtain ⟨lines', line', on, kept⟩ := accounts
  intro clean
  rw [on.holds.asBytes_eq]
  cases kept clean with
  | inl same =>
    obtain ⟨clean', lines', saved⟩ := same
    rw [lines', saved, before clean']
  | inr written => rw [written]

theorem On.saved_iff {lines : List (List UInt8)} {line : List UInt8} (on : e.On lines line) :
    e.Saved ↔ (e.dirty = false → Terminated.text newline lines = e.saved) := by
  unfold Saved
  rw [on.holds.asBytes_eq, Option.some.injEq]

theorem Saved.step {input : Input} (saved : e.Saved) (valid : e.Valid)
    (marked : ¬ e.Forgets world input) (stepped : e.step world input = some e') : e'.Saved := by
  obtain ⟨lines, line, on⟩ := valid
  obtain ⟨_, done, -, accounts⟩ := on.step world input
  cases done.symm.trans stepped
  exact (accounts marked).saved (on.saved_iff.mp saved)

theorem Marks.step {input : Input} (marks : e.Marks world (input :: inputs))
    (stepped : e.step world input = some e') : e'.Marks world inputs := by
  intro front other rest split e'' ran
  apply marks (input :: front) other rest
  · rw [split, List.cons_append]
  · rw [run_cons, stepped]
    exact ran

theorem Saved.run (saved : e.Saved) (valid : e.Valid) (marks : e.Marks world inputs)
    (ran : e.run world inputs = some e') : e'.Saved := by
  induction inputs generalizing e with
  | nil =>
    cases ran
    exact saved
  | cons input inputs ih =>
    obtain ⟨e₁, stepped, valid₁⟩ := valid.step world input
    rw [run_cons, stepped] at ran
    have saved₁ := saved.step valid (marks [] input inputs rfl e rfl) stepped
    exact ih saved₁ valid₁ (marks.step stepped) ran

/-- An editor that has opened a file, whatever was read of it and whatever is typed, has nothing
unsaved without a mark, as long as no edit goes unmarked; and when `:q` ends it, nothing at all. -/
theorem opened_saved {opening : Reaches} {size : Nat} {reading : Nat → Reaches}
    {chunks : List (List UInt8)} {b b' : Buffer}
    (made : Buffer.openFor opening size = some (some b))
    (loaded : b.load reading 0 chunks = some (true, b')) (opens : opened b' = some e)
    (marks : e.Marks world inputs) (ran : e.run world inputs = some e') :
    e'.Saved ∧ (e'.mode = .command → e'.command = ['q'.toUInt8] → e'.escape = .idle →
      e'.ended = false → ∀ e'', e'.step world (.byte newline) = some e'' → e''.ended = true →
        e''.buffer.asBytes = some e''.saved) := by
  obtain ⟨_, made', shaped⟩ := Buffer.openFor_spec opening size
  cases made.symm.trans made'
  obtain ⟨_, _, loaded', holds⟩ := (shaped b rfl).load_spec reading chunks (Nat.zero_le _)
    (show b.region.view 0 0 = [] from rfl)
  cases loaded.symm.trans loaded'
  obtain ⟨_, line, opens', on, -, same⟩ := opened_on (holds rfl)
  cases opens.symm.trans opens'
  have saved : e'.Saved := (on.saved_iff.mpr fun _ => same.symm).run ⟨_, _, on⟩ marks ran
  refine ⟨saved, ?_⟩
  intro mode command idle running e'' stepped ended
  rw [step_of_running running] at stepped
  unfold readByte typed commandByte runCommand at stepped
  rw [idle, mode, command] at stepped
  cases clean : e'.dirty with
  | true =>
    rw [clean] at stepped
    cases stepped
    rw [running] at ended
    cases ended
  | false =>
    rw [clean] at stepped
    cases stepped
    exact saved clean

/-- An `x` that does not come behind an Esc is marked. -/
theorem opened_saved_letter : ∃ e e', readLetter = some e ∧
    e.run generous [.byte 'x'.toUInt8] = some e' ∧ e'.Saved := by
  obtain ⟨b, b', e, made, loaded, opens, same, on⟩ := exists_letter
  have valid : e.Valid := ⟨_, _, on⟩
  obtain ⟨e', ran, -⟩ := valid.run generous [.byte 'x'.toUInt8]
  refine ⟨e, e', same, ran, (opened_saved made loaded opens ?_ ran).1⟩
  intro front input rest split e'' ran' forgets
  have idle : e.escape = .idle := by
    have known : readLetter.map (fun e => e.escape) = some .idle := by decide
    rw [same] at known
    exact Option.some.inj known
  cases front with
  | nil =>
    cases split
    cases ran'
    exact nomatch idle.symm.trans forgets.2.1
  | cons first front => simp at split

/-- Behind an Esc it is not: the letter is gone from the buffer but not from the file, and `:q`
ends the editor. -/
theorem quit_unsaved : ∃ e e', readLetter = some e ∧ e.run generous [.byte esc,
    .byte 'x'.toUInt8, .byte ':'.toUInt8, .byte 'q'.toUInt8, .byte newline] = some e' ∧
    e'.ended = true ∧ ¬ e'.Saved := by
  obtain ⟨b, b', e, made, loaded, opens, same, on⟩ := exists_letter
  have valid : e.Valid := ⟨_, _, on⟩
  obtain ⟨e', ran, -⟩ := valid.run generous [.byte esc,
    .byte 'x'.toUInt8, .byte ':'.toUInt8, .byte 'q'.toUInt8, .byte newline]
  have known : (readLetter.bind fun e => e.run generous [.byte esc, .byte 'x'.toUInt8,
      .byte ':'.toUInt8, .byte 'q'.toUInt8, .byte newline]).map
        (fun e => (e.ended, e.dirty, decide (e.buffer.asBytes = some e.saved))) =
      some (true, false, false) := by decide
  rw [same, Option.bind_some, ran, Option.map_some, Option.some.injEq, Prod.mk.injEq,
    Prod.mk.injEq] at known
  refine ⟨e, e', same, ran, known.1, ?_⟩
  intro saved
  exact of_decide_eq_false known.2.2 (saved known.2.1)

end Editor

end Zaytos.Zi
