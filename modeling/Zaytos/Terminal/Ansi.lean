import Zaytos.Terminal.Screen

set_option autoImplicit false

/-! The escape sequences that the console understands (`common/src/ansi.rs`). -/
namespace Zaytos.Terminal

inductive EraseScope where
  | after
  | before
  | all
  deriving DecidableEq

def EraseScope.fromParam (value : Nat) : Option EraseScope :=
  if value = 0 then some .after
  else if value = 1 then some .before
  else if value = 2 then some .all
  else none

/-- What an SGR sequence changes; `none` leaves a colour as it is. -/
structure Graphics where
  reset : Bool := false
  foreground : Option Rgb := none
  background : Option Rgb := none
  deriving DecidableEq

inductive AnsiAction where
  | print (c : Char)
  | cursorTo (row col : Nat)
  | eraseDisplay (scope : EraseScope)
  | eraseLine (scope : EraseScope)
  | insertLines (count : Nat)
  | deleteLines (count : Nat)
  | showCursor (visible : Bool)
  | alternateScreen (alternate : Bool)
  | setGraphics (graphics : Graphics)
  deriving DecidableEq

def maxParams : Nat := 16

def baseColor (index : Nat) (bright : Bool) : Rgb :=
  let table : List Rgb :=
    if bright then
      [⟨0x7f, 0x7f, 0x7f⟩, ⟨0xff, 0x00, 0x00⟩, ⟨0x00, 0xff, 0x00⟩, ⟨0xff, 0xff, 0x00⟩,
        ⟨0x5c, 0x5c, 0xff⟩, ⟨0xff, 0x00, 0xff⟩, ⟨0x00, 0xff, 0xff⟩, ⟨0xff, 0xff, 0xff⟩]
    else
      [⟨0x00, 0x00, 0x00⟩, ⟨0xcd, 0x00, 0x00⟩, ⟨0x00, 0xcd, 0x00⟩, ⟨0xcd, 0xcd, 0x00⟩,
        ⟨0x00, 0x00, 0xee⟩, ⟨0xcd, 0x00, 0xcd⟩, ⟨0x00, 0xcd, 0xcd⟩, ⟨0xe5, 0xe5, 0xe5⟩]
  table.getD (index % 8) ⟨0, 0, 0⟩

def palette256 (index : Nat) : Rgb :=
  if index < 8 then baseColor index false
  else if index < 16 then baseColor (index - 8) true
  else if index < 232 then
    let value := index - 16
    let steps : List UInt8 := [0, 95, 135, 175, 215, 255]
    ⟨steps.getD (value / 36 % 6) 0, steps.getD (value / 6 % 6) 0, steps.getD (value % 6) 0⟩
  else if index < 256 then
    let level := UInt8.ofNat (8 + (index - 232) * 10)
    ⟨level, level, level⟩
  else ⟨0xff, 0xff, 0xff⟩

def clampU8 (value : Nat) : UInt8 := UInt8.ofNat (min value 255)

inductive ParserState where
  | ground
  | escape
  | csi
  deriving DecidableEq

structure AnsiParser where
  state : ParserState
  params : List Nat
  paramIndex : Nat
  tooManyParams : Bool
  isPrivate : Bool
  deriving DecidableEq

namespace AnsiParser

def new : AnsiParser := ⟨.ground, List.replicate maxParams 0, 0, false, false⟩

def enterEscape (_ : AnsiParser) : AnsiParser :=
  { new with state := .escape }

def dispatchPrivate (p : AnsiParser) (final : Char) : Option (Option AnsiAction) := do
  let param ← p.params[0]?
  some (
    if param = 25 ∧ final = 'h' then some (.showCursor true)
    else if param = 25 ∧ final = 'l' then some (.showCursor false)
    else if param = 1049 ∧ final = 'h' then some (.alternateScreen true)
    else if param = 1049 ∧ final = 'l' then some (.alternateScreen false)
    else none)

/-- What follows a `38` or a `48`: the colour, and where its last parameter is. The sequence is
dropped if the colour is not understood or cut off. -/
def extendedColor (p : AnsiParser) (count pos : Nat) : Option (Option (Rgb × Nat)) :=
  match p.params[pos + 1]? with
  | none => some none
  | some 5 =>
    match p.params[pos + 2]? with
    | none => some none
    | some index => if count ≤ pos + 2 then some none else some (some (palette256 index, pos + 2))
  | some 2 =>
    if count ≤ pos + 4 then some none
    else do
      let r ← p.params[pos + 2]?
      let g ← p.params[pos + 3]?
      let b ← p.params[pos + 4]?
      some (some (⟨clampU8 r, clampU8 g, clampU8 b⟩, pos + 4))
  | some _ => some none

/-- The loop of `dispatch_sgr`, which goes on by one parameter at least in each round. -/
def sgrFrom (p : AnsiParser) (count : Nat) : (fuel pos : Nat) → Graphics →
    Option (Option AnsiAction)
  | 0, _, graphics => some (some (.setGraphics graphics))
  | fuel + 1, pos, graphics =>
    if pos < count then do
      let param ← p.params[pos]?
      if param = 38 ∨ param = 48 then
        match ← p.extendedColor count pos with
        | none => some none
        | some (color, last) =>
          if param = 38 then
            p.sgrFrom count fuel (last + 1) { graphics with foreground := some color }
          else
            p.sgrFrom count fuel (last + 1) { graphics with background := some color }
      else
        p.sgrFrom count fuel (pos + 1) (
          if param = 0 then { graphics with reset := true }
          else if 30 ≤ param ∧ param ≤ 37 then
            { graphics with foreground := some (baseColor (param - 30) false) }
          else if 90 ≤ param ∧ param ≤ 97 then
            { graphics with foreground := some (baseColor (param - 90) true) }
          else if 40 ≤ param ∧ param ≤ 47 then
            { graphics with background := some (baseColor (param - 40) false) }
          else if 100 ≤ param ∧ param ≤ 107 then
            { graphics with background := some (baseColor (param - 100) true) }
          else if param = 39 then { graphics with foreground := none }
          else if param = 49 then { graphics with background := none }
          else graphics)
    else some (some (.setGraphics graphics))

def dispatchSgr (p : AnsiParser) : Option (Option AnsiAction) :=
  let count := p.paramIndex + 1
  p.sgrFrom count count 0 {}

def dispatchFinal (p : AnsiParser) (final : Char) : Option (Option AnsiAction) :=
  if p.isPrivate then p.dispatchPrivate final
  else do
    let first ← p.params[0]?
    if final = 'H' then
      let second ← p.params[1]?
      some (some (.cursorTo (max first 1) (max second 1)))
    else if final = 'J' then some ((EraseScope.fromParam first).map .eraseDisplay)
    else if final = 'K' then some ((EraseScope.fromParam first).map .eraseLine)
    else if final = 'L' then some (some (.insertLines (max first 1)))
    else if final = 'M' then some (some (.deleteLines (max first 1)))
    else if final = 'm' then p.dispatchSgr
    else some none

/-- `feed_csi`, with `again` the call of `feed` on a character that the sequence does not have. -/
def feedCsi (again : AnsiParser → Char → Option (Option AnsiAction × AnsiParser))
    (p : AnsiParser) (c : Char) : Option (Option AnsiAction × AnsiParser) :=
  if '0' ≤ c ∧ c ≤ '9' then
    let digit := c.toNat - '0'.toNat
    let params := p.params.modify p.paramIndex fun slot =>
      saturate32 (saturate32 (slot * 10) + digit)
    some (none, { p with params })
  else if c = '?' ∧ p.paramIndex = 0 ∧ p.params[0]? = some 0 ∧ !p.isPrivate then
    some (none, { p with isPrivate := true })
  else if c = ';' then
    if maxParams ≤ p.paramIndex + 1 then
      some (none, { p with tooManyParams := true, paramIndex := maxParams - 1 })
    else some (none, { p with paramIndex := p.paramIndex + 1 })
  else if '\x40' ≤ c ∧ c ≤ '\x7e' then do
    let action ← if p.tooManyParams then some none else p.dispatchFinal c
    some (action, { p with state := .ground })
  else again { p with state := .ground } c

/-- `feed`, with at most `calls` calls of it one inside the other. -/
def feed : (calls : Nat) → AnsiParser → Char → Option (Option AnsiAction × AnsiParser)
  | 0, _, _ => none
  | calls + 1, p, c =>
    match p.state with
    | .ground =>
      if c = '\x1b' then some (none, p.enterEscape) else some (some (.print c), p)
    | .escape =>
      if c = '[' then some (none, { p with state := .csi })
      else feed calls { p with state := .ground } c
    | .csi => p.feedCsi (feed calls) c

/-- Every parameter has its place and its value fits a `u32`. -/
structure Sound (p : AnsiParser) : Prop where
  length : p.params.length = maxParams
  index : p.paramIndex < maxParams
  small : ∀ value ∈ p.params, value < 2 ^ 32

theorem new_sound : new.Sound := by
  constructor
  · simp [new]
  · decide
  · intro value mem
    rw [List.eq_of_mem_replicate mem]
    decide

variable {p : AnsiParser} {c : Char}

theorem Sound.state (sound : p.Sound) (state : ParserState) : ({ p with state } : AnsiParser).Sound :=
  { sound with }

theorem Sound.exists_param (sound : p.Sound) (pos : Nat) (inside : pos < maxParams) :
    ∃ value, p.params[pos]? = some value ∧ value < 2 ^ 32 := by
  have bound : pos < p.params.length := sound.length ▸ inside
  rw [List.getElem?_eq_getElem bound]
  exact ⟨_, rfl, sound.small _ (List.getElem_mem bound)⟩

theorem extendedColor_total (sound : p.Sound) {count pos : Nat} (few : count ≤ maxParams) :
    ∃ color, p.extendedColor count pos = some color := by
  unfold extendedColor
  split
  · exact ⟨_, rfl⟩
  · split
    · exact ⟨_, rfl⟩
    · split <;> exact ⟨_, rfl⟩
  · by_cases short : count ≤ pos + 4
    · rw [if_pos short]
      exact ⟨_, rfl⟩
    · rw [if_neg short]
      obtain ⟨r, red, -⟩ := sound.exists_param (pos + 2) (by omega)
      obtain ⟨g, green, -⟩ := sound.exists_param (pos + 3) (by omega)
      obtain ⟨b, blue, -⟩ := sound.exists_param (pos + 4) (by omega)
      rw [red, green, blue]
      exact ⟨_, rfl⟩
  · exact ⟨_, rfl⟩

theorem sgrFrom_total (sound : p.Sound) {count : Nat} (few : count ≤ maxParams)
    (fuel pos : Nat) (graphics : Graphics) :
    p.sgrFrom count fuel pos graphics = some none ∨
      ∃ graphics', p.sgrFrom count fuel pos graphics = some (some (.setGraphics graphics')) := by
  induction fuel generalizing pos graphics with
  | zero => exact .inr ⟨_, rfl⟩
  | succ fuel ih =>
    rw [sgrFrom]
    by_cases more : pos < count
    · obtain ⟨param, there, -⟩ := sound.exists_param pos (by omega)
      rw [if_pos more, there, Option.bind_eq_bind, Option.bind_some]
      by_cases extended : param = 38 ∨ param = 48
      · obtain ⟨color, found⟩ := extendedColor_total sound few
        rw [if_pos extended, found, Option.bind_eq_bind, Option.bind_some]
        cases color with
        | none => exact .inl rfl
        | some color =>
          dsimp only
          split <;> apply ih
      · rw [if_neg extended]
        apply ih
    · rw [if_neg more]
      exact .inr ⟨_, rfl⟩

end AnsiParser

/-- The parameters of an action fit a `u32`, and places and counts begin at 1. -/
def AnsiAction.Fits : AnsiAction → Prop
  | .cursorTo row col => (1 ≤ row ∧ row < 2 ^ 32) ∧ 1 ≤ col ∧ col < 2 ^ 32
  | .insertLines count => 1 ≤ count ∧ count < 2 ^ 32
  | .deleteLines count => 1 ≤ count ∧ count < 2 ^ 32
  | _ => True

namespace AnsiParser

variable {p : AnsiParser} {c : Char}

theorem dispatchPrivate_total (sound : p.Sound) (final : Char) :
    ∃ action, p.dispatchPrivate final = some action ∧ ∀ a ∈ action, a.Fits := by
  obtain ⟨param, there, -⟩ := sound.exists_param 0 (by decide)
  rw [dispatchPrivate, there, Option.bind_eq_bind, Option.bind_some]
  refine ⟨_, rfl, ?_⟩
  intro a
  split_ifs <;> intro mem <;> cases mem <;> trivial

theorem dispatchFinal_total (sound : p.Sound) (final : Char) :
    ∃ action, p.dispatchFinal final = some action ∧ ∀ a ∈ action, a.Fits := by
  obtain ⟨first, there, small⟩ := sound.exists_param 0 (by decide)
  obtain ⟨second, next, narrow⟩ := sound.exists_param 1 (by decide)
  unfold dispatchFinal
  by_cases isPrivate : p.isPrivate = true
  · rw [if_pos isPrivate]
    exact dispatchPrivate_total sound final
  rw [if_neg isPrivate, there, Option.bind_eq_bind, Option.bind_some]
  by_cases cup : final = 'H'
  · rw [if_pos cup, next]
    refine ⟨_, rfl, ?_⟩
    intro a mem
    cases mem
    unfold AnsiAction.Fits
    omega
  rw [if_neg cup]
  by_cases ed : final = 'J'
  · rw [if_pos ed]
    refine ⟨_, rfl, ?_⟩
    intro a mem
    obtain ⟨scope, -, rfl⟩ := Option.mem_map.mp mem
    trivial
  rw [if_neg ed]
  by_cases el : final = 'K'
  · rw [if_pos el]
    refine ⟨_, rfl, ?_⟩
    intro a mem
    obtain ⟨scope, -, rfl⟩ := Option.mem_map.mp mem
    trivial
  rw [if_neg el]
  by_cases il : final = 'L'
  · rw [if_pos il]
    refine ⟨_, rfl, ?_⟩
    intro a mem
    cases mem
    unfold AnsiAction.Fits
    omega
  rw [if_neg il]
  by_cases dl : final = 'M'
  · rw [if_pos dl]
    refine ⟨_, rfl, ?_⟩
    intro a mem
    cases mem
    unfold AnsiAction.Fits
    omega
  rw [if_neg dl]
  by_cases sgr : final = 'm'
  · rw [if_pos sgr, dispatchSgr]
    have index := sound.index
    rcases sgrFrom_total sound index (p.paramIndex + 1) 0 {} with
      dropped | ⟨graphics, understood⟩
    · exact ⟨none, dropped, by simp⟩
    · refine ⟨_, understood, ?_⟩
      intro a mem
      cases mem
      trivial
  · rw [if_neg sgr]
    exact ⟨none, rfl, by simp⟩

/-- What a call of `feed` gives: at most one action, and a parser that goes on. -/
def Feeds (r : Option (Option AnsiAction × AnsiParser)) : Prop :=
  ∃ action q, r = some (action, q) ∧ q.Sound ∧ ∀ a ∈ action, a.Fits

theorem feed_ground (sound : p.Sound) (ground : p.state = .ground) (c : Char) (calls : Nat) :
    p.feed (calls + 1) c = p.feed 1 c ∧ Feeds (p.feed 1 c) := by
  simp only [feed, ground]
  refine ⟨trivial, ?_⟩
  split
  · refine ⟨none, _, rfl, new_sound.state .escape, by simp⟩
  · refine ⟨_, _, rfl, sound, ?_⟩
    intro a mem
    cases mem
    trivial

theorem feedCsi_total (sound : p.Sound) (c : Char) (calls : Nat) :
    p.feedCsi (feed (calls + 1)) c = p.feedCsi (feed 1) c ∧ Feeds (p.feedCsi (feed 1) c) := by
  have index := sound.index
  unfold feedCsi
  by_cases digit : '0' ≤ c ∧ c ≤ '9'
  · rw [if_pos digit, if_pos digit]
    refine ⟨rfl, none, _, rfl, ⟨?_, index, ?_⟩, by simp⟩
    · rw [List.length_modify]
      exact sound.length
    · intro value mem
      obtain ⟨k, there⟩ := List.mem_iff_getElem?.mp mem
      rw [List.getElem?_modify] at there
      obtain ⟨old, before, rfl⟩ := Option.map_eq_some_iff.mp there
      have small := sound.small old (List.mem_of_getElem? before)
      split
      · dsimp only [saturate32]
        omega
      · exact small
  rw [if_neg digit, if_neg digit]
  by_cases question : c = '?' ∧ p.paramIndex = 0 ∧ p.params[0]? = some 0 ∧ !p.isPrivate
  · rw [if_pos question, if_pos question]
    exact ⟨rfl, none, _, rfl, { sound with }, by simp⟩
  rw [if_neg question, if_neg question]
  by_cases separator : c = ';'
  · rw [if_pos separator, if_pos separator]
    refine ⟨rfl, ?_⟩
    split
    · exact ⟨none, _, rfl, { sound with index := Nat.lt_succ_self 15 }, by simp⟩
    · exact ⟨none, _, rfl, { sound with index := by dsimp only; omega }, by simp⟩
  rw [if_neg separator, if_neg separator]
  by_cases final : '\x40' ≤ c ∧ c ≤ '\x7e'
  · rw [if_pos final, if_pos final]
    refine ⟨rfl, ?_⟩
    by_cases many : p.tooManyParams = true
    · rw [if_pos many, Option.bind_eq_bind, Option.bind_some]
      exact ⟨none, _, rfl, sound.state .ground, by simp⟩
    · obtain ⟨action, found, fits⟩ := dispatchFinal_total sound c
      rw [if_neg many, found, Option.bind_eq_bind, Option.bind_some]
      exact ⟨action, _, rfl, sound.state .ground, fits⟩
  · rw [if_neg final, if_neg final]
    exact feed_ground (sound.state .ground) rfl c calls

theorem feed_total (sound : p.Sound) (c : Char) (calls : Nat) :
    p.feed (calls + 2) c = p.feed 2 c ∧ Feeds (p.feed 2 c) := by
  cases state : p.state with
  | ground =>
    obtain ⟨one, feeds⟩ := feed_ground sound state c 1
    obtain ⟨more, -⟩ := feed_ground sound state c (calls + 1)
    rw [one]
    exact ⟨more, feeds⟩
  | escape =>
    by_cases bracket : c = '['
    · simp only [feed, state, bracket, if_true]
      exact ⟨trivial, none, _, rfl, sound.state .csi, by simp⟩
    · have ground := feed_ground (sound.state .ground) rfl c calls
      unfold feed
      simp only [state, bracket, if_false]
      exact ground
  | csi =>
    have csi := feedCsi_total sound c calls
    simpa only [feed, state] using csi

def feedAll (p : AnsiParser) : List Char → Option (List AnsiAction × AnsiParser)
  | [] => some ([], p)
  | c :: cs => do
    let (action, p) ← p.feed 2 c
    let (actions, p) ← p.feedAll cs
    some (action.toList ++ actions, p)

end AnsiParser

end Zaytos.Terminal
