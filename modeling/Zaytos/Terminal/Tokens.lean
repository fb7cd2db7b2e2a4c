import Zaytos.Lib.Intervals
import Zaytos.Terminal.Ansi

set_option autoImplicit false

/-! What a text with escape sequences means, whatever reads it, and the parameters that the parser
has read so far. -/
namespace Zaytos.Terminal

def isParamChar (c : Char) : Bool := (decide ('0' ≤ c) && decide (c ≤ '9')) || c == ';'

def isFinal (c : Char) : Bool := decide ('\x40' ≤ c) && decide (c ≤ '\x7e')

def digitValue (c : Char) : Nat := c.toNat - '0'.toNat

/-- The parameters in a text, with `current` for the digits before it. A missing one is 0. -/
def paramsFrom (current : Nat) : List Char → List Nat
  | [] => [current]
  | c :: rest =>
    if c = ';' then current :: paramsFrom 0 rest
    else paramsFrom (current * 10 + digitValue c) rest

def paramValues (body : List Char) : List Nat := paramsFrom 0 body

inductive Token where
  | print (c : Char)
  | csi (isPrivate : Bool) (body : List Char) (final : Char)
  | abandoned (isPrivate : Bool) (body : List Char) (next : Char)
  deriving DecidableEq

/-- A `?` at the beginning, and what follows. -/
def privateMark : List Char → Bool × List Char
  | [] => (false, [])
  | c :: rest => if c = '?' then (true, rest) else (false, c :: rest)

theorem privateMark_length (text : List Char) : (privateMark text).2.length ≤ text.length := by
  cases text with
  | nil => exact le_rfl
  | cons c rest =>
    rw [privateMark]
    split
    · exact Nat.le_succ _
    · exact le_rfl

def tokens : List Char → List Token
  | [] => []
  | c :: rest =>
    if c = '\x1b' then
      match rest with
      | [] => []
      | d :: rest =>
        if d = '[' then
          let marked := privateMark rest
          let body := marked.2.takeWhile isParamChar
          match h : marked.2.dropWhile isParamChar with
          | [] => []
          | final :: after =>
            have shorter : after.length + 1 ≤ rest.length := by
              have dropped := (List.dropWhile_suffix (l := marked.2) isParamChar).length_le
              rw [h] at dropped
              exact le_trans dropped (privateMark_length rest)
            if isFinal final then .csi marked.1 body final :: tokens after
            else .abandoned marked.1 body final :: tokens (final :: after)
        else tokens (d :: rest)
    else .print c :: tokens rest
termination_by text => text.length
decreasing_by all_goals simp only [List.length_cons]; omega

namespace AnsiParser

def withParams (isPrivate : Bool) (values : List Nat) : AnsiParser where
  state := .csi
  params := values.map saturate32 ++ List.replicate (maxParams - values.length) 0
  paramIndex := values.length - 1
  tooManyParams := false
  isPrivate := isPrivate

def dispatch (isPrivate : Bool) (values : List Nat) (final : Char) : Option AnsiAction :=
  ((withParams isPrivate values).dispatchFinal final).join

end AnsiParser

def Token.action : Token → Option AnsiAction
  | .print c => some (.print c)
  | .csi isPrivate body final =>
    if (paramValues body).length ≤ maxParams then
      AnsiParser.dispatch isPrivate (paramValues body) final
    else none
  | .abandoned _ _ _ => none

def actions (text : List Char) : List AnsiAction := (tokens text).filterMap Token.action

/-- A sequence that is given up at a `?` behind zeros. -/
def Token.Late : Token → Prop
  | .abandoned isPrivate body next =>
    isPrivate = false ∧ next = '?' ∧ body ≠ [] ∧ ∀ c ∈ body, c = '0'
  | _ => False

section

variable {c : Char} {rest body after : List Char} {isPrivate : Bool} {text : List Char}

@[simp] theorem tokens_nil : tokens [] = [] := by
  rw [tokens]

theorem tokens_print (plain : c ≠ '\x1b') : tokens (c :: rest) = .print c :: tokens rest := by
  rw [tokens.eq_def]
  dsimp only
  rw [if_neg plain]

theorem tokens_escape_end : tokens ['\x1b'] = [] := by
  rw [tokens, if_pos rfl]

theorem tokens_escape_other (other : c ≠ '[') : tokens ('\x1b' :: c :: rest) = tokens (c :: rest) := by
  rw [tokens, if_pos rfl, if_neg other]

structure Scanned (text : List Char) (isPrivate : Bool) (body after : List Char) : Prop where
  marked : text = (if isPrivate then ['?'] else []) ++ (body ++ after)
  params : ∀ c ∈ body, isParamChar c = true
  stops : ∀ c ∈ after.head?, isParamChar c = false
  plain : isPrivate = false → (body ++ after).head? ≠ some '?'

theorem privateMark_other (other : c ≠ '?') : privateMark (c :: rest) = (false, c :: rest) := by
  rw [privateMark, if_neg other]

theorem exists_scanned (text : List Char) :
    ∃ isPrivate body after, Scanned text isPrivate body after := by
  have parts := List.takeWhile_append_dropWhile (p := isParamChar) (l := (privateMark text).2)
  refine ⟨(privateMark text).1, (privateMark text).2.takeWhile isParamChar,
    (privateMark text).2.dropWhile isParamChar, ?_, ?_, ?_, ?_⟩
  · rw [parts]
    cases text with
    | nil => rfl
    | cons c rest =>
      by_cases mark : c = '?'
      · rw [mark]
        rfl
      · rw [privateMark_other mark]
        rfl
  · intro c mem
    exact List.mem_takeWhile_imp mem
  · intro c mem
    cases dropped : (privateMark text).2.dropWhile isParamChar with
    | nil =>
      rw [dropped] at mem
      cases mem
    | cons d after =>
      rw [dropped] at mem
      cases mem
      exact (eq_takeWhile_append dropped).2
  · intro unmarked
    rw [parts]
    cases text with
    | nil => nofun
    | cons c rest =>
      by_cases mark : c = '?'
      · rw [mark] at unmarked
        cases unmarked
      · rw [privateMark_other mark]
        exact fun same => mark (Option.some.inj same)

theorem Scanned.mark (scanned : Scanned text isPrivate body after) :
    privateMark text = (isPrivate, body ++ after) := by
  rw [scanned.marked]
  cases isPrivate with
  | true => rfl
  | false =>
    have plain := scanned.plain rfl
    rw [if_neg Bool.false_ne_true, List.nil_append]
    cases whole : body ++ after with
    | nil => rfl
    | cons c rest =>
      rw [whole] at plain
      exact privateMark_other fun same => plain (congrArg some same)

theorem Scanned.body_eq (scanned : Scanned text isPrivate body after) :
    (body ++ after).takeWhile isParamChar = body := by
  rw [List.takeWhile_append_of_pos scanned.params]
  cases after with
  | nil => exact List.append_nil body
  | cons c rest => rw [List.takeWhile_cons_of_neg (by simp [scanned.stops c rfl]), List.append_nil]

theorem Scanned.after_eq (scanned : Scanned text isPrivate body after) :
    (body ++ after).dropWhile isParamChar = after := by
  rw [List.dropWhile_append_of_pos scanned.params]
  cases after with
  | nil => rfl
  | cons c rest => rw [List.dropWhile_cons_of_neg (by simp [scanned.stops c rfl])]

def scannedTokens (isPrivate : Bool) (body : List Char) : List Char → List Token
  | [] => []
  | c :: after =>
    if isFinal c then .csi isPrivate body c :: tokens after
    else .abandoned isPrivate body c :: tokens (c :: after)

theorem tokens_csi (scanned : Scanned text isPrivate body after) :
    tokens ('\x1b' :: '[' :: text) = scannedTokens isPrivate body after := by
  rw [tokens, if_pos rfl]
  dsimp only
  rw [if_pos rfl, scanned.mark, scanned.body_eq]
  split
  · rename_i none
    rw [scanned.after_eq] at none
    rw [none]
    rfl
  · rename_i some
    rw [scanned.after_eq] at some
    rw [some]
    rfl

end

namespace AnsiParser

def readChar (p : AnsiParser) (c : Char) : AnsiParser :=
  if c = ';' then
    if maxParams ≤ p.paramIndex + 1 then
      { p with tooManyParams := true, paramIndex := maxParams - 1 }
    else { p with paramIndex := p.paramIndex + 1 }
  else
    { p with params := p.params.modify p.paramIndex fun slot =>
        saturate32 (saturate32 (slot * 10) + digitValue c) }

/-- The parser in a sequence with the parameters `done`, and the digits of `current` so far. -/
def Reading (p : AnsiParser) (isPrivate : Bool) (done : List Nat) (current : Nat) : Prop :=
  if done.length < maxParams then p = withParams isPrivate (done ++ [current])
  else p.state = .csi ∧ p.isPrivate = isPrivate ∧ p.tooManyParams = true ∧
    p.paramIndex = maxParams - 1 ∧ p.Sound

section

variable {p q : AnsiParser} {c : Char} {isPrivate : Bool} {done : List Nat} {current : Nat}

theorem Reading.state (reading : p.Reading isPrivate done current) : p.state = .csi := by
  rw [Reading] at reading
  split at reading
  · rw [reading]
    rfl
  · exact reading.1

theorem Reading.mark (reading : p.Reading isPrivate done current) : p.isPrivate = isPrivate := by
  rw [Reading] at reading
  split at reading
  · rw [reading]
    rfl
  · exact reading.2.1

theorem saturate32_digit (value digit : Nat) :
    saturate32 (saturate32 (saturate32 value * 10) + digit) = saturate32 (value * 10 + digit) := by
  simp only [saturate32]
  omega

theorem withParams_sound (values : List Nat) (some : values ≠ [])
    (few : values.length ≤ maxParams) : (withParams isPrivate values).Sound := by
  have positive := List.length_pos_iff.mpr some
  apply Sound.mk
  · simp only [withParams, List.length_append, List.length_map, List.length_replicate]
    omega
  · show values.length - 1 < maxParams
    omega
  · intro value mem
    simp only [withParams, List.mem_append, List.mem_map, List.mem_replicate] at mem
    cases mem with
    | inl mem =>
      apply Exists.elim mem
      intro x mem
      rw [← mem.2, saturate32]
      omega
    | inr mem =>
      rw [mem.2]
      decide

theorem modify_middle (before after : List Nat) (x : Nat) (f : Nat → Nat) :
    (before ++ x :: after).modify before.length f = before ++ f x :: after := by
  induction before with
  | nil => rfl
  | cons y before ih =>
    rw [List.cons_append, List.length_cons, List.modify_succ_cons, ih]
    rfl

theorem withParams_snoc (done : List Nat) (current : Nat) :
    (withParams isPrivate (done ++ [current])).params = done.map saturate32 ++
      saturate32 current :: List.replicate (maxParams - (done.length + 1)) 0 := by
  simp [withParams]

theorem withParams_index (done : List Nat) (current : Nat) :
    (withParams isPrivate (done ++ [current])).paramIndex = done.length := by
  simp [withParams]

theorem Sound.readChar (sound : p.Sound) (c : Char) : (p.readChar c).Sound := by
  have index := sound.index
  rw [AnsiParser.readChar]
  split
  · split
    · exact { sound with index := Nat.lt_succ_self 15 }
    · rename_i fits
      exact { sound with index := Nat.lt_of_not_le fits }
  · apply Sound.mk
    · rw [List.length_modify]
      exact sound.length
    · exact index
    · intro value mem
      apply Exists.elim (List.mem_iff_getElem?.mp mem)
      intro k there
      rw [List.getElem?_modify] at there
      apply Exists.elim (Option.map_eq_some_iff.mp there)
      intro old found
      have small := sound.small old (List.mem_of_getElem? found.1)
      rw [← found.2]
      split
      · rw [saturate32]
        omega
      · exact small

theorem Reading.digit (reading : p.Reading isPrivate done current) (digit : c ≠ ';') :
    (p.readChar c).Reading isPrivate done (current * 10 + digitValue c) := by
  rw [Reading] at reading ⊢
  by_cases few : done.length < maxParams
  · rw [if_pos few] at reading ⊢
    rw [reading, readChar, if_neg digit, withParams_index, withParams_snoc]
    have place : done.length = (done.map saturate32).length := (List.length_map _).symm
    have changed := modify_middle (done.map saturate32)
      (List.replicate (maxParams - (done.length + 1)) 0) (saturate32 current)
      (fun slot => saturate32 (saturate32 (slot * 10) + digitValue c))
    rw [← place] at changed
    rw [changed, saturate32_digit, ← @withParams_snoc isPrivate]
    simp [withParams]
  · rw [if_neg few] at reading ⊢
    have sound := reading.2.2.2.2.readChar c
    rw [readChar, if_neg digit] at sound ⊢
    exact ⟨reading.1, reading.2.1, reading.2.2.1, reading.2.2.2.1, sound⟩

theorem Reading.next (reading : p.Reading isPrivate done current) :
    (p.readChar ';').Reading isPrivate (done ++ [current]) 0 := by
  rw [Reading] at reading ⊢
  rw [List.length_append, List.length_singleton]
  by_cases few : done.length < maxParams
  · rw [if_pos few] at reading
    have index : p.paramIndex = done.length := by
      rw [reading, withParams_index]
    by_cases last : done.length + 1 < maxParams
    · rw [if_pos last, readChar, if_pos rfl, index, if_neg (not_le.mpr last), reading]
      have zeros : maxParams - (done.length + 1) = maxParams - (done.length + 1 + 1) + 1 := by
        omega
      simp only [withParams, List.map_append, List.map_cons, List.map_nil, List.length_append,
        List.length_cons, List.length_nil, zero_add, Nat.add_sub_cancel, zeros,
        List.replicate_succ, List.append_assoc, List.cons_append, List.nil_append]
      rfl
    · have sound : p.Sound := by
        rw [reading]
        apply withParams_sound
        · exact List.append_ne_nil_of_right_ne_nil _ (List.cons_ne_nil _ _)
        · rw [List.length_append, List.length_singleton]
          omega
      have sound' := sound.readChar ';'
      rw [if_neg last]
      rw [readChar, if_pos rfl, index, if_pos (not_lt.mp last)] at sound' ⊢
      refine ⟨?_, ?_, rfl, rfl, sound'⟩
      · rw [reading]
        rfl
      · rw [reading]
        rfl
  · rw [if_neg few] at reading
    have sound := reading.2.2.2.2.readChar ';'
    rw [if_neg (by omega)]
    rw [readChar, if_pos rfl, reading.2.2.2.1, if_pos (by decide)] at sound ⊢
    exact ⟨reading.1, reading.2.1, rfl, rfl, sound⟩

theorem Reading.body (body : List Char) (reading : p.Reading isPrivate done current) :
    ∃ done' current', done ++ paramsFrom current body = done' ++ [current'] ∧
      (body.foldl readChar p).Reading isPrivate done' current' := by
  induction body generalizing p done current with
  | nil => exact ⟨done, current, rfl, reading⟩
  | cons c rest ih =>
    rw [paramsFrom, List.foldl_cons]
    split
    · rename_i separator
      rw [separator]
      have rest := ih reading.next
      rw [List.append_assoc, List.singleton_append] at rest
      exact rest
    · rename_i digit
      exact ih (reading.digit digit)

end

end AnsiParser

end Zaytos.Terminal
