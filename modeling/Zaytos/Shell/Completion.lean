import Zaytos.Shell.PathNames

set_option autoImplicit false

/-! Tab at the prompt of the shell: what it puts into the line, and what it says instead. -/
namespace Zaytos.Shell

open Common (Word blank commonPrefixLen directoryPart lastWord namePart onlyWord slash splitPath
  splitPath_eq startsWith startsWith_iff take_commonPrefixLen wordAtCursor wordAtCursor_eq)
open CommonPrefix (ofAll ofTwo)
open Slices
open Surroundings

abbrev listMax : Nat := 32

def tooLongText : List UInt8 :=
  bytesOf ['z', 'a', 's', 'h', ':', ' ', 'l', 'i', 'n', 'e', ' ', 't', 'o', 'o', ' ', 'l', 'o', 'n',
    'g', '\n']

def matchesTail : List UInt8 := bytesOf [' ', 'm', 'a', 't', 'c', 'h', 'e', 's', '\n']

/-- `b'0'`. -/
abbrev zeroDigit : Nat := 0x30

/-- The loop of `write_decimal`, with so many places left in its buffer: the digits. -/
def decimalDigits : Nat → Nat → List Nat
  | 0, _ => []
  | places + 1, rest =>
    if rest / 10 = 0 then [rest % 10] else decimalDigits places (rest / 10) ++ [rest % 10]

def writeDecimal (value : Nat) : List UInt8 :=
  (decimalDigits 3 value).map fun digit => UInt8.ofNat (zeroDigit + digit)

inductive Answer where
  | grown (part : List UInt8)
  | tooLong
  | counted (digits : List Nat)
  | listed (names : List (List UInt8)) (digits : Option (List Nat))

def numberOf (digits : List Nat) : Nat := digits.foldl (fun n digit => 10 * n + digit) 0

def Answer.number : Answer → Option Nat
  | .counted digits => some (numberOf digits)
  | .listed _ digits => digits.map numberOf
  | _ => none

/-- The line after Tab, whether the next Tab lists the candidates, and what is written. -/
structure Completed where
  shell : Shell
  again : Bool
  answer : Answer
  written : List UInt8

def redrawPromptAndLine (s : Shell) : Option (List UInt8) := do
  let text ← writeIf (0 < s.length) (slice s.line 0 s.length)
  let back ← writeIf (s.cursor < s.length) (slice backspaces 0 (s.length - s.cursor))
  some (writePrompt s.colored ++ text ++ back)

def blankIf (single : Bool) : List UInt8 := if single then [space] else []

def insertCompletion (s : Shell) (word : Word) (extra : List UInt8) (single : Bool) :
    Option Completed :=
  let added := extra.length + (blankIf single).length
  if s.length + added + 1 > s.line.length then do
    let shown ← s.redrawPromptAndLine
    some ⟨s, false, .tooLong, tooLongText ++ shown⟩
  else do
    let line ← copyWithin s.line word.stop s.length (word.stop + added)
    let line ← write line word.stop extra
    let line ← write line (word.stop + extra.length) (blankIf single)
    let length := s.length + added
    let cursor := word.stop + added
    let tail ← slice line cursor length
    some ⟨{ s with line, length, cursor }, false, .grown (extra ++ blankIf single),
      extra ++ blankIf single ++ redrawTailWithoutGap tail⟩

def listCandidates (s : Shell) (found : List (List UInt8)) (count : Nat) : Option Completed := do
  let shown := found.take listMax
  let digits := if count > shown.length then some (decimalDigits 3 count) else none
  let tail := if count > shown.length then writeDecimal count ++ matchesTail else []
  let again ← s.redrawPromptAndLine
  some ⟨s, false, .listed shown digits,
    [newline] ++ [space].intercalate shown ++ [newline] ++ tail ++ again⟩

/-- `announce_count`, and what is kept for the next Tab. -/
def announceCount (s : Shell) (count : Nat) : Option Completed := do
  let again ← s.redrawPromptAndLine
  some ⟨s, decide (count > 0), .counted (decimalDigits 3 count),
    [newline] ++ writeDecimal count ++ matchesTail ++ again⟩

/-- The body of the first walk: the count, and what the names have in common. -/
def countName (state : Nat × List UInt8) (name : List UInt8) : Nat × List UInt8 :=
  if state.1 = 0 then (1, name)
  else (state.1 + 1, state.2.take (commonPrefixLen state.2 name))

def completeWord (s : Shell) (w : Surroundings) (again : Bool) : Option Completed := do
  let text ← slice s.line 0 s.length
  let word := wordAtCursor text s.cursor
  let typed ← slice s.line word.start word.stop
  let found := w.forEachCandidate typed word.first
  let count := (found.foldl countName (0, [])).1
  let common := (found.foldl countName (0, [])).2
  if count > 0 ∧ common.length > word.stop - word.start then
    s.insertCompletion word (common.drop (word.stop - word.start)) (count == 1)
  else if count > 0 ∧ again = true then s.listCandidates found count
  else s.announceCount count

/-- The line has `before` in front of the cursor and `behind` behind it. -/
structure OnLine (s : Shell) (before behind : List UInt8) : Prop where
  size : s.line.length = lineMax
  line : ∃ junk, s.line = before ++ (behind ++ junk)
  length : s.length = before.length + behind.length
  cursor : s.cursor = before.length

section

variable {s : Shell} {before behind : List UInt8}

theorem numberOf_decimalDigits (places value : Nat) :
    numberOf (decimalDigits places value) = value % 10 ^ places := by
  induction places generalizing value with
  | zero =>
    rw [decimalDigits, Nat.pow_zero, Nat.mod_one]
    rfl
  | succ places ih =>
    rw [decimalDigits, Nat.pow_succ, mul_comm, Nat.mod_mul]
    by_cases small : value / 10 = 0
    · rw [if_pos small, small, Nat.zero_mod, mul_zero, add_zero]
      simp [numberOf]
    · have rest := ih (value / 10)
      rw [numberOf] at rest
      rw [if_neg small, numberOf, List.foldl_append, rest, List.foldl_cons, List.foldl_nil]
      omega

theorem foldl_countName (names : List (List UInt8)) :
    names.foldl countName (0, []) = (names.length, ofAll names) := by
  induction names using List.reverseRecOn with
  | nil => rfl
  | append_singleton names name ih =>
    rw [List.foldl_append, ih, List.foldl_cons, List.foldl_nil, countName]
    cases names with
    | nil => rfl
    | cons first names =>
      rw [if_neg (by simp), take_commonPrefixLen,
        CommonPrefix.ofAll_concat (List.cons_ne_nil first names), List.length_append]
      rfl

namespace OnLine

theorem short (on : s.OnLine before behind) : before.length + behind.length ≤ lineMax := by
  obtain ⟨junk, eq⟩ := on.line
  have size := on.size
  rw [eq, List.length_append, List.length_append] at size
  omega

theorem unique {before' behind' : List UInt8} (on : s.OnLine before behind)
    (other : s.OnLine before' behind') : before = before' := by
  obtain ⟨junk, eq⟩ := on.line
  obtain ⟨junk', eq'⟩ := other.line
  exact (List.append_inj (eq.symm.trans eq') (on.cursor.symm.trans other.cursor)).1

theorem slice_text (on : s.OnLine before behind) :
    slice s.line 0 s.length = some (before ++ behind) := by
  obtain ⟨junk, eq⟩ := on.line
  have whole := slice_append [] (before ++ behind) junk
  rw [List.nil_append, List.length_nil, zero_add, List.length_append, ← on.length,
    List.append_assoc, ← eq] at whole
  exact whole

theorem writeIf_some (given : Prop) [Decidable given] (part : List UInt8) :
    ∃ written, writeIf given (some part) = some written := by
  rw [writeIf]
  split
  · exact ⟨part, rfl⟩
  · exact ⟨[], rfl⟩

theorem redraw (on : s.OnLine before behind) :
    ∃ shown, s.redrawPromptAndLine = some shown := by
  have short := on.short
  have length := on.length
  rw [redrawPromptAndLine, on.slice_text, backspaces, slice_replicate (by omega)]
  obtain ⟨text, shown⟩ := writeIf_some (0 < s.length) (before ++ behind)
  obtain ⟨back, moved⟩ := writeIf_some (s.cursor < s.length)
    (List.replicate (s.length - s.cursor) backspace)
  rw [shown, moved]
  exact ⟨_, rfl⟩

end OnLine

theorem copyWithin_room {α : Type} (before after rest : List α) {n : Nat} (room : n ≤ rest.length) :
    ∃ gap junk, gap.length = n ∧ copyWithin (before ++ (after ++ rest)) before.length
        (before.length + after.length) (before.length + n) =
      some (before ++ (gap ++ (after ++ junk))) := by
  have moved : ((before ++ (after ++ rest)).take (before.length + after.length)).drop
      before.length = after := by
    rw [List.take_length_add_append, List.drop_left, List.take_left]
  refine ⟨(after ++ rest).take n, (after ++ rest).drop (n + after.length), ?_, ?_⟩
  · rw [List.length_take, List.length_append]
    omega
  · rw [copyWithin, if_pos (by simp; omega), moved, write, if_pos (by simp; omega),
      List.take_length_add_append, add_assoc, List.drop_length_add_append, List.append_assoc]

theorem insertCompletion_fits (on : s.OnLine before behind) {word : Word}
    (place : word.stop = before.length) {extra : List UInt8} {single : Bool}
    (fits : before.length + behind.length + (extra ++ blankIf single).length < lineMax) :
    ∃ c, s.insertCompletion word extra single = some c ∧
      c.shell.OnLine (before ++ (extra ++ blankIf single)) behind := by
  have size := on.size
  have length := on.length
  have parts := @List.length_append _ extra (blankIf single)
  obtain ⟨junk, eq⟩ := on.line
  have total := congrArg List.length eq
  rw [List.length_append, List.length_append] at total
  obtain ⟨gap, rest, wide, opened⟩ := copyWithin_room before behind junk
    (show (extra ++ blankIf single).length ≤ junk.length by omega)
  have put := write_append before (gap.take extra.length)
    (gap.drop extra.length ++ (behind ++ rest)) (show extra.length = _ by
      rw [List.length_take]
      omega)
  rw [← List.append_assoc (gap.take _), List.take_append_drop] at put
  have closed := write_append (before ++ extra) (gap.drop extra.length) (behind ++ rest)
    (show (blankIf single).length = _ by
      rw [List.length_drop]
      omega)
  have tail := slice_append (before ++ (extra ++ blankIf single)) behind rest
  have kept := length_copyWithin opened
  simp only [List.length_append, List.append_assoc] at opened put closed tail kept
  have place' : before.length + (extra.length + (blankIf single).length) + behind.length =
      before.length + behind.length + (extra.length + (blankIf single).length) := by omega
  rw [place'] at tail
  rw [insertCompletion, if_neg (by omega), place, length, eq, opened, Option.bind_eq_bind,
    Option.bind_some, put, Option.bind_some, closed, Option.bind_some]
  dsimp only
  rw [tail]
  refine ⟨_, rfl, ?_, ⟨rest, ?_⟩, ?_, ?_⟩
  · simp only [List.length_append]
    omega
  · simp only [List.append_assoc]
  · simp only [List.length_append]
    omega
  · simp only [List.length_append]

theorem insertCompletion_full (on : s.OnLine before behind) {word : Word} {extra : List UInt8}
    {single : Bool}
    (full : ¬ before.length + behind.length + (extra ++ blankIf single).length < lineMax) :
    ∃ c, s.insertCompletion word extra single = some c ∧ c.shell = s ∧ c.answer.number = none := by
  have size := on.size
  have length := on.length
  rw [List.length_append] at full
  obtain ⟨shown, redrawn⟩ := on.redraw
  rw [insertCompletion, if_pos (by omega), redrawn]
  exact ⟨_, rfl, rfl, rfl⟩

theorem listCandidates_spec (on : s.OnLine before behind) (found : List (List UInt8)) :
    ∃ c, s.listCandidates found found.length = some c ∧ c.shell = s ∧
      c.answer.number = if found.length ≤ listMax then none else some (found.length % 1000) := by
  obtain ⟨shown, redrawn⟩ := on.redraw
  rw [listCandidates, redrawn]
  refine ⟨_, rfl, rfl, ?_⟩
  rw [Answer.number, List.length_take]
  by_cases few : found.length ≤ listMax
  · rw [if_pos few, if_neg (by omega)]
    rfl
  · rw [if_neg few, if_pos (by omega), Option.map_some, numberOf_decimalDigits]
    rfl

theorem announceCount_spec (on : s.OnLine before behind) (count : Nat) :
    ∃ c, s.announceCount count = some c ∧ c.shell = s ∧
      c.answer.number = some (count % 1000) := by
  obtain ⟨shown, redrawn⟩ := on.redraw
  rw [announceCount, redrawn]
  refine ⟨_, rfl, rfl, ?_⟩
  rw [Answer.number, numberOf_decimalDigits]
  rfl

end

end Zaytos.Shell
