import Zaytos.Lib.Bindings
import Zaytos.Lib.Slices

set_option autoImplicit false

/-! The table of environment lines that the kernel and the shell keep. -/
namespace Zaytos.Common

abbrev maxEnvp : Nat := 8

abbrev envLineMax : Nat := 128

/-- `b'='`. -/
abbrev equals : UInt8 := 61

/-- `b'#'`. -/
abbrev hash : UInt8 := 35

/-- `b'_'`. -/
abbrev underscore : UInt8 := 95

def isAsciiAlphabetic (byte : UInt8) : Bool := (65 ≤ byte && byte ≤ 90) || (97 ≤ byte && byte ≤ 122)

def isAsciiAlphanumeric (byte : UInt8) : Bool :=
  isAsciiAlphabetic byte || (48 ≤ byte && byte ≤ 57)

inductive EnvReject where
  | noEquals
  | emptyName
  | badName
  | tooLong
  deriving DecidableEq

inductive EnvLine where
  | ignore
  | take
  | reject (reason : EnvReject)
  deriving DecidableEq

/-- What `classify_env_line` asks of a name. -/
def classifyName : List UInt8 → EnvLine
  | [] => .reject .emptyName
  | first :: rest =>
    if !(isAsciiAlphabetic first || first == underscore) then .reject .badName
    else if !rest.all (fun byte => isAsciiAlphanumeric byte || byte == underscore) then
      .reject .badName
    else .take

def classifyEnvLine (line : List UInt8) : EnvLine :=
  if line.isEmpty || line.head? == some hash then .ignore
  else if line.length > envLineMax then .reject .tooLong
  else
    match line.findIdx? (· == equals) with
    | none => .reject .noEquals
    | some position => classifyName (line.take position)

inductive EnvSetError where
  | line (reason : EnvReject)
  | full
  deriving DecidableEq

structure EnvTable where
  lines : List (List UInt8)
  lens : List Nat
  count : Nat

namespace EnvTable

def new : EnvTable :=
  ⟨List.replicate maxEnvp (List.replicate (envLineMax + 1) 0), List.replicate maxEnvp 0, 0⟩

/-- `&self.lines[index][start..self.lens[index] + more]`. -/
def part (t : EnvTable) (index start more : Nat) : Option (List UInt8) := do
  let buf ← t.lines[index]?
  let len ← t.lens[index]?
  Slices.slice buf start (len + more)

def line (t : EnvTable) (index : Nat) : Option (List UInt8) :=
  if index ≥ t.count then some [] else t.part index 0 0

def lineWithNul (t : EnvTable) (index : Nat) : Option (List UInt8) :=
  if index ≥ t.count then some [] else t.part index 0 1

def write (t : EnvTable) (index : Nat) (line : List UInt8) : Option EnvTable := do
  let buf ← t.lines[index]?
  let buf ← Slices.write buf 0 line
  let buf ← Slices.write buf line.length [0]
  guard (index < t.lens.length)
  pure { t with lines := t.lines.set index buf, lens := t.lens.set index line.length }

/-- `line.len() > name.len() && line[name.len()] == b'=' && &line[..name.len()] == name`. -/
def binds (text name : List UInt8) : Bool :=
  text.length > name.length && text[name.length]? == some equals && text.take name.length == name

/-- The search of `index_of`, from an index on. -/
def findFrom (t : EnvTable) (name : List UInt8) : Nat → Nat → Option (Option Nat)
  | 0, _ => some none
  | remaining + 1, index => do
    let line ← t.part index 0 0
    if binds line name then some (some index) else findFrom t name remaining (index + 1)

def indexOf (t : EnvTable) (name : List UInt8) : Option (Option Nat) := t.findFrom name t.count 0

def value (t : EnvTable) (name : List UInt8) : Option (Option (List UInt8)) := do
  match ← t.indexOf name with
  | none => some none
  | some index => (t.part index (name.length + 1) 0).map some

def append (t : EnvTable) (line : List UInt8) : Option EnvTable :=
  (t.write t.count line).map fun written => { written with count := written.count + 1 }

def push (t : EnvTable) (line : List UInt8) : Option (Bool × EnvTable) :=
  if t.count ≥ maxEnvp ∨ line.length > envLineMax then some (false, t)
  else (t.append line).map fun written => (true, written)

/-- The rest of `set`, for a line that is in order. -/
def setAt (t : EnvTable) (line : List UInt8) (index : Option Nat) :
    Option (Except EnvSetError Unit × EnvTable) :=
  match index with
  | some index => (t.write index line).map fun written => (.ok (), written)
  | none =>
    if t.count ≥ maxEnvp then some (.error .full, t)
    else (t.append line).map fun written => (.ok (), written)

def set (t : EnvTable) (line : List UInt8) : Option (Except EnvSetError Unit × EnvTable) :=
  match classifyEnvLine line with
  | .ignore => some (.error (.line .noEquals), t)
  | .reject reason => some (.error (.line reason), t)
  | .take =>
    match line.findIdx? (· == equals) with
    | none => some (.error (.line .noEquals), t)
    | some position => do
      let index ← t.indexOf (line.take position)
      t.setAt line index

end EnvTable

/-! What the table stands for. -/

theorem classifyEnvLine_take {line : List UInt8} (taken : classifyEnvLine line = .take) :
    ∃ name value, line = name ++ equals :: value ∧ equals ∉ name ∧
      line.findIdx? (· == equals) = some name.length ∧ line.length ≤ envLineMax := by
  unfold classifyEnvLine at taken
  split at taken
  case isTrue => cases taken
  case isFalse =>
    split at taken
    case isTrue => cases taken
    case isFalse short =>
      split at taken
      case h_1 => cases taken
      case h_2 position found =>
        obtain ⟨inside, hit, before⟩ := List.findIdx?_eq_some_iff_getElem.mp found
        have length : (line.take position).length = position := by
          rw [List.length_take]
          omega
        refine ⟨line.take position, line.drop (position + 1), ?_, ?_, ?_, Nat.le_of_not_lt short⟩
        · rw [← beq_iff_eq.mp hit, ← List.drop_eq_getElem_cons inside, List.take_append_drop]
        · intro mem
          obtain ⟨i, small, eq⟩ := List.getElem_of_mem mem
          rw [List.getElem_take] at eq
          exact before i (by omega) (beq_iff_eq.mpr eq)
        · rw [length, found]

namespace EnvTable

theorem binds_eq (line name : List UInt8) : binds line name = Bindings.binds equals name line := by
  rw [Bool.eq_iff_iff, Bindings.binds_iff]
  simp only [binds, Bool.and_eq_true, decide_eq_true_eq, beq_iff_eq]
  constructor
  · intro parts
    obtain ⟨⟨long, sep⟩, start⟩ := parts
    refine ⟨line.drop (name.length + 1), ?_⟩
    rw [List.getElem?_eq_getElem long, Option.some.injEq] at sep
    rw [← sep, ← List.drop_eq_getElem_cons long]
    calc
      line = line.take name.length ++ line.drop name.length := (List.take_append_drop _ _).symm
      _ = name ++ line.drop name.length := by rw [start]
  · intro found
    obtain ⟨value, eq⟩ := found
    subst eq
    simp

end EnvTable

end Zaytos.Common

/-! The table of environment lines is a list of lines, of which the first one that binds a name
decides; a line that is set takes the place of that one. -/
namespace Zaytos.Common

open Bindings (rebind valueOf)

namespace EnvTable

structure Holds (t : EnvTable) (env : List (List UInt8)) : Prop where
  buffers : t.lines.length = maxEnvp
  lens : t.lens.length = maxEnvp
  width : ∀ buf ∈ t.lines, buf.length = envLineMax + 1
  count : t.count = env.length
  few : env.length ≤ maxEnvp
  lines : ∀ (i : Nat) (line : List UInt8), env[i]? = some line → line.length ≤ envLineMax ∧
    t.lens[i]? = some line.length ∧ ∃ buf, t.lines[i]? = some buf ∧ line ++ [0] <+: buf

theorem new_holds : new.Holds [] := by
  constructor
  · rfl
  · rfl
  · intro buf mem
    rw [(List.mem_replicate.mp mem).2, List.length_replicate]
  · rfl
  · exact Nat.zero_le _
  · intro i line found
    simp at found

section

variable {t : EnvTable} {env : List (List UInt8)} {line name : List UInt8} {i : Nat}

theorem Holds.part_eq (holds : t.Holds env) (found : env[i]? = some line) {start : Nat}
    (inside : start ≤ line.length) : t.part i start 0 = some (line.drop start) := by
  obtain ⟨-, len, buf, lines, rest, eq⟩ := holds.lines i line found
  unfold part
  simp only [lines, len, Option.bind_eq_bind, Option.bind_some]
  rw [← eq, Slices.slice, if_pos (by simp; omega), Nat.add_zero, List.append_assoc, List.take_left]

theorem Holds.part_nul (holds : t.Holds env) (found : env[i]? = some line) :
    t.part i 0 1 = some (line ++ [0]) := by
  obtain ⟨-, len, buf, lines, rest, eq⟩ := holds.lines i line found
  unfold part
  simp only [lines, len, Option.bind_eq_bind, Option.bind_some]
  rw [← eq, Slices.slice, if_pos (by simp), List.take_left' (by simp), List.drop_zero]

theorem Holds.line_eq (holds : t.Holds env) (found : env[i]? = some line) :
    t.line i = some line := by
  have small := (List.getElem?_eq_some_iff.mp found).1
  rw [EnvTable.line, if_neg (by rw [holds.count]; omega), holds.part_eq found (Nat.zero_le _),
    List.drop_zero]

theorem Holds.lineWithNul_eq (holds : t.Holds env) (found : env[i]? = some line) :
    t.lineWithNul i = some (line ++ [0]) := by
  have small := (List.getElem?_eq_some_iff.mp found).1
  rw [lineWithNul, if_neg (by rw [holds.count]; omega), holds.part_nul found]

theorem Holds.findFrom_eq {done rest : List (List UInt8)} (holds : t.Holds (done ++ rest))
    (name : List UInt8) : t.findFrom name rest.length done.length =
      some ((rest.findIdx? (Bindings.binds equals name)).map (done.length + ·)) := by
  induction rest generalizing done with
  | nil => simp [findFrom]
  | cons first rest ih =>
    have found : (done ++ first :: rest)[done.length]? = some first := by simp
    have further := @ih (done ++ [first]) (by simpa using holds)
    rw [List.length_append, List.length_singleton] at further
    rw [List.length_cons, findFrom, holds.part_eq found (Nat.zero_le _), List.findIdx?_cons]
    simp only [Option.bind_eq_bind, Option.bind_some, List.drop_zero, binds_eq]
    split
    · simp
    · rw [further, Option.map_map]
      congr 2
      funext k
      simp only [Function.comp_apply]
      omega

theorem Holds.indexOf_eq (holds : t.Holds env) (name : List UInt8) :
    t.indexOf name = some (env.findIdx? (Bindings.binds equals name)) := by
  rw [indexOf, holds.count]
  have from' := @Holds.findFrom_eq t [] env holds name
  simpa using from'

theorem Holds.value_eq (holds : t.Holds env) (name : List UInt8) :
    t.value name = some (valueOf equals name env) := by
  unfold value valueOf
  rw [holds.indexOf_eq, List.find?_eq_bind_findIdx?_getElem?]
  simp only [Option.bind_eq_bind, Option.bind_some]
  cases at' : env.findIdx? (Bindings.binds equals name) with
  | none => rfl
  | some index =>
    obtain ⟨inside, hit, -⟩ := List.findIdx?_eq_some_iff_getElem.mp at'
    obtain ⟨value, eq⟩ := Bindings.binds_iff.mp hit
    have found := List.getElem?_eq_getElem inside
    have long : name.length + 1 ≤ env[index].length := by
      rw [eq]
      simp
    rw [Option.bind_some, found]
    simp only [holds.part_eq found long, Option.map_some]

theorem Holds.write_ok {env' : List (List UInt8)} (holds : t.Holds env) (small : i < maxEnvp)
    (short : line.length ≤ envLineMax) (few : env'.length ≤ maxEnvp)
    (lines : ∀ (j : Nat) (l : List UInt8), env'[j]? = some l →
      (j = i ∧ l = line) ∨ (j ≠ i ∧ env[j]? = some l)) :
    ∃ written, t.write i line = some written ∧ written.count = t.count ∧
      EnvTable.Holds { written with count := env'.length } env' := by
  have inside : i < t.lines.length := by
    rw [holds.buffers]
    exact small
  have insideLens : i < t.lens.length := by
    rw [holds.lens]
    exact small
  have width := holds.width _ (List.getElem_mem inside)
  have copied : Slices.write t.lines[i] 0 line = some (line ++ t.lines[i].drop line.length) :=
    Slices.write_start (by omega)
  have tail : t.lines[i].drop line.length =
      [t.lines[i][line.length]] ++ t.lines[i].drop (line.length + 1) :=
    List.drop_eq_getElem_cons (by omega)
  have ended : Slices.write (line ++ t.lines[i].drop line.length) line.length [0] =
      some (line ++ ([0] ++ t.lines[i].drop (line.length + 1))) := by
    rw [tail]
    exact Slices.write_append line _ _ rfl
  refine ⟨⟨t.lines.set i (line ++ ([0] ++ t.lines[i].drop (line.length + 1))),
    t.lens.set i line.length, t.count⟩, ?_, rfl, ?_⟩
  · unfold write
    simp only [List.getElem?_eq_getElem inside, Option.bind_eq_bind, Option.bind_some, copied,
      ended, guard, insideLens, if_true]
    rfl
  · constructor
    · simp only [List.length_set, holds.buffers]
    · simp only [List.length_set, holds.lens]
    · intro buf mem
      rcases List.mem_or_eq_of_mem_set mem with old | new
      · exact holds.width buf old
      · rw [new]
        simp
        omega
    · rfl
    · exact few
    · intro j l found
      dsimp only
      rcases lines j l found with here | other
      · obtain ⟨rfl, rfl⟩ := here
        refine ⟨short, List.getElem?_set_self insideLens, _, List.getElem?_set_self inside, ?_⟩
        rw [← List.append_assoc]
        exact List.prefix_append _ _
      · rw [List.getElem?_set_ne other.1.symm, List.getElem?_set_ne other.1.symm]
        exact holds.lines j l other.2

theorem Holds.write_set (holds : t.Holds env) (small : i < env.length)
    (short : line.length ≤ envLineMax) :
    ∃ written, t.write i line = some written ∧ written.Holds (env.set i line) := by
  have few := holds.few
  have lines : ∀ (j : Nat) (l : List UInt8), (env.set i line)[j]? = some l →
      (j = i ∧ l = line) ∨ (j ≠ i ∧ env[j]? = some l) := by
    intro j l found
    by_cases same : i = j
    · subst same
      rw [List.getElem?_set_self small] at found
      exact Or.inl ⟨rfl, (Option.some.inj found).symm⟩
    · rw [List.getElem?_set_ne same] at found
      exact Or.inr ⟨fun eq => same eq.symm, found⟩
  obtain ⟨written, eq, count, holds'⟩ := holds.write_ok (Nat.lt_of_lt_of_le small few) short
    (by rw [List.length_set]; exact few) lines
  refine ⟨written, eq, ?_⟩
  rw [List.length_set, ← holds.count, ← count] at holds'
  exact holds'

theorem Holds.append_ok (holds : t.Holds env) (room : env.length < maxEnvp)
    (short : line.length ≤ envLineMax) :
    ∃ written, t.append line = some written ∧ written.Holds (env ++ [line]) := by
  have lines : ∀ (j : Nat) (l : List UInt8), (env ++ [line])[j]? = some l →
      (j = env.length ∧ l = line) ∨ (j ≠ env.length ∧ env[j]? = some l) := by
    intro j l found
    rcases Nat.lt_trichotomy j env.length with before | here | past
    · rw [List.getElem?_append_left before] at found
      exact Or.inr ⟨Nat.ne_of_lt before, found⟩
    · subst here
      rw [List.getElem?_concat_length] at found
      exact Or.inl ⟨rfl, (Option.some.inj found).symm⟩
    · rw [List.getElem?_eq_none (by simp; omega)] at found
      cases found
  obtain ⟨written, eq, count, holds'⟩ := holds.write_ok room short
    (by rw [List.length_append]; exact room) lines
  refine ⟨{ written with count := written.count + 1 }, ?_, ?_⟩
  · rw [append, holds.count, eq]
    rfl
  · rw [count, holds.count]
    simpa using holds'

theorem Holds.push_ok (holds : t.Holds env) (line : List UInt8) :
    ∃ ok after, t.push line = some (ok, after) ∧ (ok = false → after = t) ∧
      (ok = true → after.Holds (env ++ [line])) := by
  unfold push
  split
  case isTrue => exact ⟨false, t, rfl, fun _ => rfl, nofun⟩
  case isFalse fits =>
    have count := holds.count
    obtain ⟨written, eq, holds'⟩ := @holds.append_ok t env line (by omega) (by omega)
    rw [eq]
    exact ⟨true, written, rfl, nofun, fun _ => holds'⟩

theorem Holds.set_ok (holds : t.Holds env) (line : List UInt8) :
    ∃ reply after, t.set line = some (reply, after) ∧ (∀ e, reply = .error e → after = t) ∧
      (reply = .ok () → ∃ name value, line = name ++ equals :: value ∧ equals ∉ name ∧
        after.Holds (rebind equals name line env)) := by
  unfold EnvTable.set
  cases kind : classifyEnvLine line with
  | ignore => exact ⟨_, _, rfl, fun _ _ => rfl, (fun same => by cases same)⟩
  | reject reason => exact ⟨_, _, rfl, fun _ _ => rfl, (fun same => by cases same)⟩
  | take =>
    obtain ⟨name, value, eq, plain, position, short⟩ := classifyEnvLine_take kind
    have start : line.take name.length = name := by
      rw [eq, List.take_left]
    simp only [position, start, holds.indexOf_eq, Option.bind_eq_bind, Option.bind_some]
    cases at' : env.findIdx? (Bindings.binds equals name) with
    | some index =>
      have inside := (List.findIdx?_eq_some_iff_getElem.mp at').1
      obtain ⟨written, run, holds'⟩ := holds.write_set inside short
      rw [← Bindings.rebind_of_findIdx?_some at'] at holds'
      refine ⟨.ok (), written, ?_, (fun _ same => by cases same), fun _ =>
        ⟨name, value, eq, plain, holds'⟩⟩
      simp only [setAt, run, Option.map_some]
    | none =>
      by_cases full : t.count ≥ maxEnvp
      · refine ⟨.error .full, t, ?_, fun _ _ => rfl, (fun same => by cases same)⟩
        simp only [setAt, if_pos full]
      · have count := holds.count
        obtain ⟨written, run, holds'⟩ := @holds.append_ok t env line (by omega) short
        rw [← Bindings.rebind_of_findIdx?_none at'] at holds'
        refine ⟨.ok (), written, ?_, (fun _ same => by cases same), fun _ =>
        ⟨name, value, eq, plain, holds'⟩⟩
        simp only [setAt, if_neg full, run, Option.map_some]

end

end EnvTable

inductive EnvCall where
  | push (line : List UInt8)
  | set (line : List UInt8)

namespace EnvCall

def apply (t : EnvTable) : EnvCall → Option EnvTable
  | push line => (t.push line).map Prod.snd
  | set line => (t.set line).map Prod.snd

def applyAll (t : EnvTable) : List EnvCall → Option EnvTable
  | [] => some t
  | c :: rest => (c.apply t).bind fun next => applyAll next rest

theorem apply_holds {t : EnvTable} {env : List (List UInt8)} (holds : t.Holds env) (c : EnvCall) :
    ∃ next env', c.apply t = some next ∧ next.Holds env' := by
  cases c with
  | push line =>
    obtain ⟨ok, after, eq, refused, pushed⟩ := holds.push_ok line
    rw [show apply t (.push line) = (t.push line).map Prod.snd from rfl, eq]
    cases ok with
    | false => exact ⟨after, env, rfl, refused rfl ▸ holds⟩
    | true => exact ⟨after, _, rfl, pushed rfl⟩
  | set line =>
    obtain ⟨reply, after, eq, refused, done⟩ := holds.set_ok line
    rw [show apply t (.set line) = (t.set line).map Prod.snd from rfl, eq]
    cases reply with
    | error e => exact ⟨after, env, rfl, refused e rfl ▸ holds⟩
    | ok u =>
      obtain ⟨name, value, -, -, holds'⟩ := done rfl
      exact ⟨after, _, rfl, holds'⟩

theorem applyAll_holds {t : EnvTable} {env : List (List UInt8)} (holds : t.Holds env)
    (cs : List EnvCall) : ∃ left env', applyAll t cs = some left ∧ left.Holds env' := by
  induction cs generalizing t env with
  | nil => exact ⟨t, env, rfl, holds⟩
  | cons c rest ih =>
    obtain ⟨next, env', eq, holds'⟩ := apply_holds holds c
    rw [applyAll, eq]
    exact ih holds'

end EnvCall

end Zaytos.Common
