import Zaytos.Common.Env
import Zaytos.Loader.InitialStack

set_option autoImplicit false

/-! The search for a variable on the initial stack, by a program that was handed the lines of a
table as its environment. -/
namespace Zaytos.Loader

open Common (EnvCall EnvTable envLineMax equals maxEnvp)
open Bindings (binds valueOf)

/-- Reading a byte of the page that is mapped from `pageBase` on. -/
def byteAt (page : Bytes) (pageBase address : Nat) : Option UInt8 :=
  (sub address pageBase).bind page.readU8

def wordAt (page : Bytes) (pageBase address : Nat) : Option Nat :=
  (sub address pageBase).bind page.readU64

def entryMatches (page : Bytes) (pageBase : Nat) : List UInt8 → Nat → Option Bool
  | [], address => do
    let byte ← byteAt page pageBase address
    some (byte == equals)
  | first :: rest, address => do
    let byte ← byteAt page pageBase address
    if byte = 0 ∨ byte ≠ first then some false
    else entryMatches page pageBase rest (address + 1)

def findEntry (page : Bytes) (pageBase : Nat) (name : List UInt8) : Nat → Nat → Option (Option Nat)
  | 0, _ => none
  | fuel + 1, address => do
    let pointer ← wordAt page pageBase address
    if pointer = 0 then some none
    else
      let matched ← entryMatches page pageBase name pointer
      if matched then some (some (pointer + (name.length + 1)))
      else findEntry page pageBase name fuel (address + word)

/-- `environment`. Each turn of the walk reads a word further up in the page. -/
def environment (page : Bytes) (pageBase stack : Nat) (name : List UInt8) :
    Option (Option Nat) := do
  let argc ← wordAt page pageBase stack
  findEntry page pageBase name page.len (stack + (1 + argc + 1) * word)

section

variable {page : Bytes} {pageBase at' stringAt : Nat}

theorem byteAt_of_lt (inside : at' < page.len) :
    byteAt page pageBase (pageBase + at') = some (page.get at') := by
  rw [byteAt, sub_of_le (Nat.le_add_right _ _), Nat.add_sub_cancel_left, Option.bind_some,
    Bytes.readU8_of_lt inside]

theorem wordAt_of_le (inside : at' + 8 ≤ page.len) :
    wordAt page pageBase (pageBase + at') = some (page.u64 at') := by
  rw [wordAt, sub_of_le (Nat.le_add_right _ _), Nat.add_sub_cancel_left, Option.bind_some,
    Bytes.readU64_of_le inside]

theorem HasText.drop {item : List UInt8} {k : Nat} (text : HasText page at' item)
    (inside : k ≤ item.length) : HasText page (at' + k) (item.drop k) := by
  induction k generalizing at' item with
  | zero => exact text
  | succ k ih =>
    cases item with
    | nil => cases inside
    | cons byte rest =>
      have further := ih (hasText_cons text).2 (Nat.le_of_succ_le_succ inside)
      rw [add_assoc, add_comm 1 k] at further
      exact further

theorem entryMatches_eq {item : List UInt8} (name : List UInt8) (text : HasText page at' item)
    (inside : at' + item.length < page.len) (plain : 0 ∉ item) :
    entryMatches page pageBase name (pageBase + at') = some (binds equals name item) := by
  induction name generalizing at' item with
  | nil =>
    rw [entryMatches, byteAt_of_lt (by omega)]
    cases item with
    | nil =>
      rw [show page.get at' = 0 from text.2]
      rfl
    | cons byte rest =>
      rw [(hasText_cons text).1]
      simp [binds, List.isPrefixOf, Bool.beq_comm]
  | cons first name ih =>
    rw [entryMatches, byteAt_of_lt (by omega)]
    cases item with
    | nil =>
      rw [show page.get at' = 0 from text.2]
      rfl
    | cons byte rest =>
      have head := hasText_cons text
      rw [List.length_cons] at inside
      have nonzero : byte ≠ 0 := fun zero => plain (zero ▸ List.mem_cons_self)
      have further := @ih (at' + 1) rest head.2 (by omega)
        (fun mem => plain (List.mem_cons_of_mem _ mem))
      rw [head.1]
      by_cases same : byte = first
      · subst same
        simp only [Option.bind_eq_bind, Option.bind_some, nonzero, ne_eq, not_true_eq_false,
          or_self, if_false]
        rw [add_assoc, further]
        simp [binds]
      · have other : ¬ first = byte := fun eq => same eq.symm
        simp [binds, List.isPrefixOf, same, other]

theorem findEntry_eq {items : List (List UInt8)} {fuel : Nat} (name : List UInt8)
    (pointers : HasPointers page pageBase at' stringAt items)
    (texts : HasTexts page stringAt items) (fits : textSize items < stringAt)
    (inside : stringAt ≤ page.len) (room : at' + items.length * 8 + 8 ≤ page.len)
    (ends : page.u64 (at' + items.length * 8) = 0) (plain : ∀ item ∈ items, 0 ∉ item)
    (enough : items.length < fuel) :
    ∃ found, findEntry page pageBase name fuel (pageBase + at') = some found ∧
      found.map (fun pointer => textAt page page.len (pointer - pageBase)) =
        (valueOf equals name items).map some := by
  induction items generalizing at' stringAt fuel with
  | nil =>
    cases fuel with
    | zero => exact absurd enough (Nat.not_lt_zero _)
    | succ fuel =>
      have null : page.u64 at' = 0 := ends
      refine ⟨none, ?_, rfl⟩
      rw [findEntry, wordAt_of_le (show at' + 8 ≤ page.len from room)]
      simp [null]
  | cons item rest ih =>
    cases fuel with
    | zero => exact absurd enough (Nat.not_lt_zero _)
    | succ fuel =>
      rw [textSize_cons] at fits
      rw [List.length_cons] at enough room ends
      have next : at' + (rest.length + 1) * 8 = at' + 8 + rest.length * 8 := by omega
      rw [next] at ends room
      have others := List.forall_mem_cons.mp plain
      have nonzero : pageBase + (stringAt - (item.length + 1)) ≠ 0 := by omega
      have compare := @entryMatches_eq page pageBase _ item name texts.1 (by omega) others.1
      rw [findEntry, wordAt_of_le (by omega), pointers.1]
      simp only [Option.bind_eq_bind, Option.bind_some, if_neg nonzero, compare]
      cases here : binds equals name item with
      | true =>
        obtain ⟨value, eq⟩ := Bindings.binds_iff.mp here
        have long : name.length + 1 ≤ item.length := by
          rw [eq]
          simp
        have text := textAt_eq (texts.1.drop long) (by rw [List.length_drop]; omega)
          (fun mem => others.1 (List.mem_of_mem_drop mem))
          (show (item.drop (name.length + 1)).length < page.len by rw [List.length_drop]; omega)
        refine ⟨_, rfl, ?_⟩
        rw [valueOf, List.find?_cons, here]
        simp only [Option.map_some]
        rw [add_assoc, Nat.add_sub_cancel_left, text]
      | false =>
        have further := @ih (at' + 8) (stringAt - (item.length + 1)) fuel pointers.2 texts.2
          (by omega) (by omega) room ends others.2 (Nat.lt_of_succ_lt_succ enough)
        obtain ⟨found, walk, value⟩ := further
        refine ⟨found, walk, ?_⟩
        rw [value, valueOf, valueOf, List.find?_cons, here]

theorem Filled.environment {argv envp : List (List UInt8)} (name : List UInt8)
    (filled : Filled page pageBase at' argv envp)
    (below : at' + tableSize argv envp ≤ page.len - textSize (argv ++ envp))
    (strings : textSize (argv ++ envp) ≤ page.len) (plain : ∀ item ∈ envp, 0 ∉ item) :
    ∃ found, Loader.environment page pageBase (pageBase + at') name = some found ∧
      found.map (fun pointer => textAt page page.len (pointer - pageBase)) =
        (valueOf equals name envp).map some := by
  rw [tableSize_eq, textSize_append] at below
  rw [textSize_append] at strings
  have counts := length_le_textSize argv
  have counts' := length_le_textSize envp
  have walk := @findEntry_eq page pageBase _ _ envp page.len name filled.envpPointers
    filled.envpTexts (by omega) (by omega) (by omega) filled.envpEnd plain (by omega)
  have place : pageBase + at' + (1 + argv.length + 1) * word =
      pageBase + (at' + 8 + argv.length * 8 + 8) := by
    show _ + (1 + argv.length + 1) * 8 = _
    omega
  rw [Loader.environment, wordAt_of_le (by omega), filled.count, Option.bind_eq_bind,
    Option.bind_some, place]
  exact walk

end

structure HandsOver (t : EnvTable) (envp : List (List UInt8)) : Prop where
  count : envp.length = t.count
  lines : ∀ i < t.count, t.line i = envp[i]?

theorem HandsOver.eq {t : EnvTable} {env envp : List (List UInt8)} (hands : HandsOver t envp)
    (holds : t.Holds env) : envp = env := by
  have count := holds.count
  apply List.ext_getElem?
  intro i
  by_cases inside : i < t.count
  · rw [← hands.lines i inside, List.getElem?_eq_getElem (count ▸ inside)]
    exact holds.line_eq (List.getElem?_eq_getElem (count ▸ inside))
  · have length := hands.count
    rw [List.getElem?_eq_none (by omega), List.getElem?_eq_none (by omega)]

/-- Whatever lines were pushed and set, the table is in order; a line that is set changes the value
of its own name only, and of names that it is a part of; and a program that is handed the lines
finds the values that the table has. -/
theorem sees_environment (cs : List EnvCall) :
    ∃ t, EnvCall.applyAll .new cs = some t ∧ t.count ≤ maxEnvp ∧
      (∀ i < t.count, ∃ line, t.line i = some line ∧ t.lineWithNul i = some (line ++ [0])) ∧
      (∀ line, ∃ ok after, t.push line = some (ok, after) ∧ (ok = false → after = t)) ∧
      (∀ line, ∃ reply after, t.set line = some (reply, after) ∧
        (∀ e, reply = .error e → after = t) ∧
        (reply = .ok () → ∃ name value, line = name ++ equals :: value ∧ equals ∉ name ∧
          after.value name = some (some value) ∧
          ∀ other, other ≠ name → ¬ name ++ [equals] <+: other →
            after.value other = t.value other)) ∧
      ∀ pageBase page argv envp sp page', pageBase + page.len ≤ 2 ^ 64 → HandsOver t envp →
        (∀ line ∈ envp, 0 ∉ line) → buildInitialStack pageBase argv envp page = .ok sp page' →
        ∀ name, ∃ found value, environment page' pageBase sp name = some found ∧
          t.value name = some value ∧
          found.map (fun pointer => textAt page' page'.len (pointer - pageBase)) =
            value.map some := by
  obtain ⟨t, env, run, holds⟩ := EnvCall.applyAll_holds EnvTable.new_holds cs
  refine ⟨t, run, ?_, ?_, ?_, ?_, ?_⟩
  · rw [holds.count]
    exact holds.few
  · intro i inside
    rw [holds.count] at inside
    have found := List.getElem?_eq_getElem inside
    exact ⟨env[i], holds.line_eq found, holds.lineWithNul_eq found⟩
  · intro line
    obtain ⟨ok, after, push, refused, -⟩ := holds.push_ok line
    exact ⟨ok, after, push, refused⟩
  · intro line
    obtain ⟨reply, after, set, refused, done⟩ := holds.set_ok line
    refine ⟨reply, after, set, refused, ?_⟩
    intro ok
    obtain ⟨name, value, eq, plain, holds'⟩ := done ok
    have binding : binds equals name line = true := Bindings.binds_iff.mpr ⟨value, eq⟩
    refine ⟨name, value, eq, plain, ?_, ?_⟩
    · rw [holds'.value_eq, eq, Bindings.valueOf_rebind_self]
    · intro other ne apart
      rw [holds'.value_eq, holds.value_eq,
        Bindings.valueOf_rebind_other binding plain ne apart]
  · intro pageBase page argv envp sp page' addressable hands plain build name
    have same := hands.eq holds
    subst same
    have built := buildInitialStack_wp page argv envp addressable
    rw [Exec.Wp, build] at built
    have fits := built.1
    have below := fits.below
    have strings := fits.strings
    have place : sp = pageBase + tableAt page.len argv envp := built.2.1
    have len : page'.len = page.len := built.2.2.1
    obtain ⟨found, walk, value⟩ := built.2.2.2.environment name (len.symm ▸ below)
      (len.symm ▸ strings) plain
    exact ⟨found, valueOf equals name envp, place ▸ walk, holds.value_eq name, value⟩

set_option maxRecDepth 4000 in
/-- A variable is found behind one whose name starts with its own. -/
theorem sees_environment_term :
    ∃ t sp page', EnvCall.applyAll .new [.set [84, 84, 61], .push [84, 61, 120]] = some t ∧
      buildInitialStack 4096 [[97]] [[84, 84, 61], [84, 61, 120]] ⟨96, fun _ => 0⟩ = .ok sp page' ∧
      ∃ pointer, environment page' 4096 sp [84] = some (some pointer) ∧
        textAt page' page'.len (pointer - 4096) = some [120] := by
  obtain ⟨t, run, -, -, -, -, sees⟩ := sees_environment [.set [84, 84, 61], .push [84, 61, 120]]
  have built := (@stack_decodes 4096 ⟨96, fun _ => 0⟩ [[97]] [[84, 84, 61], [84, 61, 120]]
    (by decide) (by decide) (by decide)).2.1.mpr ⟨by decide, by decide⟩
  obtain ⟨sp, page', build⟩ := built
  refine ⟨t, sp, page', run, build, ?_⟩
  cases run
  obtain ⟨found, value, walk, known, text⟩ := sees 4096 ⟨96, fun _ => 0⟩ [[97]] _ sp page'
    (by decide) ⟨rfl, by decide⟩ (by decide) build [84]
  have value_eq : value = some [120] := by
    rw [← Option.some.inj known]
    rfl
  rw [value_eq] at text
  obtain ⟨pointer, eq, text⟩ := Option.map_eq_some_iff.mp text
  exact ⟨pointer, eq ▸ walk, text⟩

set_option maxRecDepth 4000 in
/-- A line that is set changes the value of a longer name, when that name has the separator in
it. -/
theorem set_changes_longer :
    ∃ t after, EnvCall.applyAll .new [.set [65, 61, 98, 61, 99]] = some t ∧
      t.set [65, 61, 120] = some (.ok (), after) ∧ ([65, 61, 98] : List UInt8) ≠ [65] ∧
      t.value [65, 61, 98] = some (some [99]) ∧ after.value [65, 61, 98] = some none := by
  refine ⟨_, _, rfl, rfl, by decide, by decide, by decide⟩

end Zaytos.Loader
