import Zaytos.Terminal.Console
import Zaytos.Terminal.ParserRuns

set_option autoImplicit false

/-! Two lists of graphics parameters in one sequence, and in two. -/
namespace Zaytos.Terminal

inductive SgrItem where
  | reset
  | foreground (color : Rgb)
  | background (color : Rgb)
  | defaultForeground
  | defaultBackground
  | unknown
  deriving DecidableEq

def SgrItem.single (param : Nat) : SgrItem :=
  if param = 0 then .reset
  else if 30 ≤ param ∧ param ≤ 37 then .foreground (baseColor (param - 30) false)
  else if 90 ≤ param ∧ param ≤ 97 then .foreground (baseColor (param - 90) true)
  else if 40 ≤ param ∧ param ≤ 47 then .background (baseColor (param - 40) false)
  else if 100 ≤ param ∧ param ≤ 107 then .background (baseColor (param - 100) true)
  else if param = 39 then .defaultForeground
  else if param = 49 then .defaultBackground
  else .unknown

def SgrItem.extended (param : Nat) (color : Rgb) : SgrItem :=
  if param = 38 then .foreground color else .background color

def sgrItems : List Nat → Option (List SgrItem)
  | [] => some []
  | param :: rest =>
    if param = 38 ∨ param = 48 then
      match rest with
      | 5 :: index :: rest => (sgrItems rest).map (.extended param (palette256 index) :: ·)
      | 2 :: r :: g :: b :: rest =>
        (sgrItems rest).map (.extended param ⟨clampU8 r, clampU8 g, clampU8 b⟩ :: ·)
      | _ => none
    else (sgrItems rest).map (.single param :: ·)

def Graphics.item (graphics : Graphics) : SgrItem → Graphics
  | .reset => { graphics with reset := true }
  | .foreground color => { graphics with foreground := some color }
  | .background color => { graphics with background := some color }
  | .defaultForeground => { graphics with foreground := none }
  | .defaultBackground => { graphics with background := none }
  | .unknown => graphics

variable {count param : Nat} {items : List SgrItem} {values : List Nat}

namespace AnsiParser

variable {p : AnsiParser} {body : List Char}

theorem item_single (graphics : Graphics) (param : Nat) :
    (if param = 0 then { graphics with reset := true }
      else if 30 ≤ param ∧ param ≤ 37 then
        { graphics with foreground := some (baseColor (param - 30) false) }
      else if 90 ≤ param ∧ param ≤ 97 then
        { graphics with foreground := some (baseColor (param - 90) true) }
      else if 40 ≤ param ∧ param ≤ 47 then
        { graphics with background := some (baseColor (param - 40) false) }
      else if 100 ≤ param ∧ param ≤ 107 then
        { graphics with background := some (baseColor (param - 100) true) }
      else if param = 39 then { graphics with foreground := none }
      else if param = 49 then { graphics with background := none }
      else graphics) = graphics.item (.single param) := by
  rw [SgrItem.single]
  repeat' split
  all_goals rfl

theorem drop_eq_cons {values rest : List Nat} {k x : Nat} (dropped : values.drop k = x :: rest) :
    k < values.length ∧ values[k]? = some x ∧ values.drop (k + 1) = rest := by
  have less : k < values.length := by
    by_contra beyond
    rw [List.drop_eq_nil_of_le (not_lt.mp beyond)] at dropped
    cases dropped
  rw [List.drop_eq_getElem_cons less] at dropped
  have both := List.cons.inj dropped
  exact ⟨less, (List.getElem?_eq_getElem less).trans (congrArg some both.1), both.2⟩

theorem extendedColor_items {values rest : List Nat} {pos : Nat}
    {found : List SgrItem} (there : ∀ i < count, p.params[i]? = values[i]?)
    (whole : values.length = count) (kind : param = 38 ∨ param = 48)
    (dropped : values.drop pos = param :: rest) (parsed : sgrItems (param :: rest) = some found) :
    ∃ color last later, p.extendedColor count pos = some (some (color, last)) ∧ pos < last ∧
      sgrItems (values.drop (last + 1)) = some later ∧ found = .extended param color :: later := by
  have first := drop_eq_cons dropped
  rw [sgrItems.eq_def] at parsed
  dsimp only at parsed
  rw [if_pos kind] at parsed
  split at parsed
  · rename_i index rest
    have second := drop_eq_cons first.2.2
    have third := drop_eq_cons second.2.2
    apply Exists.elim (Option.map_eq_some_iff.mp parsed)
    intro later both
    refine ⟨palette256 index, pos + 2, later, ?_, by omega, third.2.2 ▸ both.1, both.2.symm⟩
    rw [extendedColor, there _ (by omega), second.2.1]
    simp only
    rw [there _ (by omega), third.2.1]
    exact if_neg (by omega)
  · rename_i r g b rest
    have second := drop_eq_cons first.2.2
    have red := drop_eq_cons second.2.2
    have green := drop_eq_cons red.2.2
    have blue := drop_eq_cons green.2.2
    apply Exists.elim (Option.map_eq_some_iff.mp parsed)
    intro later both
    refine ⟨⟨clampU8 r, clampU8 g, clampU8 b⟩, pos + 4, later, ?_, by omega, blue.2.2 ▸ both.1,
      both.2.symm⟩
    rw [extendedColor, there _ (by omega), second.2.1]
    rw [if_neg (by omega), there _ (by omega), red.2.1, there _ (by omega), green.2.1,
      there _ (by omega), blue.2.1]
    rfl
  · cases parsed

theorem sgrFrom_items
    (there : ∀ i < count, p.params[i]? = values[i]?) (whole : values.length = count)
    (fuel pos : Nat) (graphics : Graphics) (enough : count ≤ pos + fuel)
    (parsed : sgrItems (values.drop pos) = some items) :
    p.sgrFrom count fuel pos graphics = some (some (.setGraphics (items.foldl .item graphics))) := by
  induction fuel generalizing pos graphics items with
  | zero =>
    rw [List.drop_eq_nil_of_le (by omega)] at parsed
    cases parsed
    rfl
  | succ fuel ih =>
    rw [sgrFrom]
    cases dropped : values.drop pos with
    | nil =>
      have beyond : values.length ≤ pos := List.drop_eq_nil_iff.mp dropped
      rw [dropped] at parsed
      cases parsed
      rw [if_neg (by omega)]
      rfl
    | cons param rest =>
      have first := drop_eq_cons dropped
      rw [dropped] at parsed
      rw [if_pos (by omega), there _ (by omega), first.2.1, Option.bind_eq_bind, Option.bind_some]
      by_cases kind : param = 38 ∨ param = 48
      · apply Exists.elim (extendedColor_items there whole kind dropped parsed)
        intro color found
        apply Exists.elim found
        intro last found
        apply Exists.elim found
        intro later found
        have next := fun graphics => ih (last + 1) graphics (by omega) found.2.2.1
        rw [if_pos kind, found.1, Option.bind_eq_bind, Option.bind_some]
        dsimp only
        rw [found.2.2.2, List.foldl_cons, SgrItem.extended]
        split
        · exact next _
        · exact next _
      · rw [sgrItems.eq_def] at parsed
        dsimp only at parsed
        rw [if_neg kind, ← first.2.2] at parsed
        apply Exists.elim (Option.map_eq_some_iff.mp parsed)
        intro later both
        rw [if_neg kind, item_single, ← both.2, List.foldl_cons]
        exact ih (pos + 1) _ (by omega) both.1

theorem dispatch_items (some_ : values ≠ [])
    (parsed : sgrItems (values.map saturate32) = some items) :
    dispatch false values 'm' = some (.setGraphics (items.foldl .item {})) := by
  have positive := List.length_pos_iff.mpr some_
  have count : values.length - 1 + 1 = values.length := Nat.sub_add_cancel positive
  have there : ∀ i < values.length,
      (withParams false values).params[i]? = (values.map saturate32)[i]? := by
    intro i less
    exact List.getElem?_append_left (by rwa [List.length_map])
  have loop := sgrFrom_items there (List.length_map _) values.length 0 {} (by omega) parsed
  have first : ∃ x, (withParams false values).params[0]? = some x := by
    rw [there 0 positive]
    exact ⟨_, List.getElem?_eq_getElem (by rwa [List.length_map])⟩
  apply Exists.elim first
  intro x first
  rw [dispatch, dispatchFinal, if_neg (by exact Bool.false_ne_true), first, Option.bind_eq_bind,
    Option.bind_some]
  simp only [show ¬ 'm' = 'H' by decide, show ¬ 'm' = 'J' by decide, show ¬ 'm' = 'K' by decide,
    show ¬ 'm' = 'L' by decide, show ¬ 'm' = 'M' by decide, if_false, if_true, dispatchSgr]
  show ((withParams false values).sgrFrom (values.length - 1 + 1) (values.length - 1 + 1) 0
    {}).join = _
  rw [count, loop]
  rfl

theorem paramsFrom_append (current : Nat) (q : List Char) :
    paramsFrom current (body ++ ';' :: q) = paramsFrom current body ++ paramValues q := by
  induction body generalizing current with
  | nil => exact if_pos rfl
  | cons c body ih =>
    rw [List.cons_append, paramsFrom, paramsFrom]
    split
    · rw [ih, List.cons_append]
    · exact ih _

end AnsiParser

open AnsiParser

def sgr (body : List Char) : List Char := '\x1b' :: '[' :: (body ++ ['m'])

/-- A list of parameters as a program writes it: digits and semicolons, of the table. -/
structure SgrList where
  body : List Char
  items : List SgrItem
  params : ∀ c ∈ body, isParamChar c = true
  parsed : sgrItems ((paramValues body).map saturate32) = some items

namespace Foreground

variable {f : Foreground} {p : AnsiParser} {c : Char} {rest : List Char}

theorem feedChars_silent (fed : f.parser.feed 2 c = some (none, p)) :
    f.feedChars (c :: rest) = ({ f with parser := p } : Foreground).feedChars rest := by
  rw [feedChars, feedChar, fed]
  rfl

theorem feedChars_body {body : List Char} (csi : f.parser.state = .csi)
    (params : ∀ c ∈ body, isParamChar c = true) :
    f.feedChars (body ++ rest) =
      ({ f with parser := body.foldl readChar f.parser } : Foreground).feedChars rest := by
  induction body generalizing f with
  | nil => rfl
  | cons c body ih =>
    have first := params c List.mem_cons_self
    rw [List.cons_append, feedChars_silent (feed_param csi first),
      ih (readChar_state csi c) fun d mem => params d (List.mem_cons_of_mem c mem)]
    rfl

theorem feedChars_sgr (l : SgrList) (few : (paramValues l.body).length ≤ maxParams)
    (ground : f.parser.state = .ground) :
    ∃ p : AnsiParser, p.state = .ground ∧ f.feedChars (sgr l.body ++ rest) =
      ({ f with
        parser := p
        console := f.console.setGraphics (l.items.foldl .item {}) } : Foreground).feedChars rest := by
  apply Exists.elim (csi_reading.body l.body)
  intro done read
  apply Exists.elim read
  intro current read
  have values : paramValues l.body = done ++ [current] := read.1
  have fed := feed_final (c := 'm') read.2.state (by decide)
  have dispatched := dispatch_items (paramsFrom_ne_nil 0 l.body) l.parsed
  rw [← paramValues] at dispatched
  rw [read.2.final values, Token.action, if_pos few, dispatched, Option.map_some] at fed
  refine ⟨{ l.body.foldl readChar ({ new with state := .csi } : AnsiParser) with state := .ground },
    rfl, ?_⟩
  rw [sgr, List.cons_append, List.cons_append, List.append_assoc,
    feedChars_silent (feed_escape ground), feedChars_silent feed_bracket,
    feedChars_body rfl l.params, List.singleton_append, feedChars, feedChar, fed]
  rfl

end Foreground

def lastWord (view : SgrItem → Option (Option Rgb)) (items : List SgrItem) : Option (Option Rgb) :=
  items.foldl (fun last item => (view item).or last) none

def SgrItem.ofForeground : SgrItem → Option (Option Rgb)
  | .foreground color => some (some color)
  | .defaultForeground => some none
  | _ => none

def SgrItem.ofBackground : SgrItem → Option (Option Rgb)
  | .background color => some (some color)
  | .defaultBackground => some none
  | _ => none

def folded (view : SgrItem → Option (Option Rgb)) (items : List SgrItem) (default current : Rgb) :
    Rgb :=
  (lastWord view items).join.getD (if .reset ∈ items then default else current)

/-- When two lists make of a colour what the two of them in one sequence make of it. Either the second
gives a colour. Or it says the default, after a reset or where the first has given no colour but the
one that would be there anyway. Or it says nothing, and resets nothing or where the first has given no
colour but the default. -/
def Ordered (view : SgrItem → Option (Option Rgb)) (p q : List SgrItem) (default current : Rgb) :
    Prop :=
  match lastWord view q with
  | some (some _) => True
  | some none => .reset ∈ q ∨ ∀ color, lastWord view p = some (some color) →
      color = if .reset ∈ p then default else current
  | none => .reset ∈ q → ∀ color, lastWord view p = some (some color) → color = default

section

variable {view : SgrItem → Option (Option Rgb)} {p q : List SgrItem}

theorem lastWord_from (items : List SgrItem) (last : Option (Option Rgb)) :
    items.foldl (fun last item => (view item).or last) last = (lastWord view items).or last := by
  rw [lastWord]
  induction items generalizing last with
  | nil => rfl
  | cons item rest ih =>
    rw [List.foldl_cons, List.foldl_cons, ih, ih ((view item).or none), Option.or_assoc,
      Option.or_none]

theorem lastWord_append (p q : List SgrItem) : lastWord view (p ++ q) = (lastWord view q).or
    (lastWord view p) := by
  rw [lastWord, List.foldl_append, lastWord_from]
  rfl

theorem folded_append_iff (p q : List SgrItem) (default current : Rgb) :
    folded view (p ++ q) default current = folded view q default (folded view p default current) ↔
      Ordered view p q default current := by
  rw [folded, lastWord_append, folded, folded, Ordered]
  cases lastWord view q with
  | none =>
    simp only [Option.none_or, Option.join_none, Option.getD_none, List.mem_append]
    by_cases resets : SgrItem.reset ∈ q
    · simp only [resets, or_true, if_true, true_implies]
      cases lastWord view p with
      | none => simp
      | some last => cases last <;> simp
    · simp [resets]
  | some last =>
    cases last with
    | some color => simp
    | none =>
      simp only [Option.some_or, Option.join_some, Option.getD_none, List.mem_append]
      by_cases resets : SgrItem.reset ∈ q
      · simp [resets]
      · simp only [resets, or_false, if_false, false_or]
        cases lastWord view p with
        | none => simp
        | some last =>
          cases last with
          | none => simp
          | some color => simp [eq_comm]

theorem lastWord_cons (item : SgrItem) (rest : List SgrItem) :
    lastWord view (item :: rest) = (lastWord view rest).or (view item) := by
  rw [← List.singleton_append, lastWord_append]
  congr 1
  exact Option.or_none

theorem foldl_item (items : List SgrItem) (graphics : Graphics) :
    items.foldl .item graphics =
      { reset := graphics.reset || decide (.reset ∈ items)
        foreground := ((lastWord SgrItem.ofForeground items).or (some graphics.foreground)).join
        background := ((lastWord SgrItem.ofBackground items).or (some graphics.background)).join } := by
  induction items generalizing graphics with
  | nil => simp [lastWord]
  | cons item rest ih =>
    rw [List.foldl_cons, ih, lastWord_cons, lastWord_cons, Option.or_assoc, Option.or_assoc]
    cases item <;> simp [Graphics.item, SgrItem.ofForeground, SgrItem.ofBackground]

theorem setGraphics_items (s : Console) (items : List SgrItem) :
    (s.setGraphics (items.foldl .item {})).foreground =
        folded SgrItem.ofForeground items s.defaultForeground s.foreground ∧
      (s.setGraphics (items.foldl .item {})).background =
        folded SgrItem.ofBackground items s.defaultBackground s.background ∧
      (s.setGraphics (items.foldl .item {})).defaultForeground = s.defaultForeground ∧
      (s.setGraphics (items.foldl .item {})).defaultBackground = s.defaultBackground := by
  rw [foldl_item, Console.setGraphics, folded, folded]
  by_cases resets : SgrItem.reset ∈ items
  · simp only [resets, decide_true, Bool.or_true, if_true]
    cases lastWord SgrItem.ofForeground items <;> cases lastWord SgrItem.ofBackground items <;> simp
  · simp only [resets, decide_false, Bool.or_false, Bool.false_eq_true, if_false]
    cases lastWord SgrItem.ofForeground items <;> cases lastWord SgrItem.ofBackground items <;> simp

end

theorem sgrItems_indexed (kind : param = 38 ∨ param = 48) (index : Nat)
    (rest : List Nat) : sgrItems (param :: 5 :: index :: rest) =
      (sgrItems rest).map (SgrItem.extended param (palette256 index) :: ·) := by
  rw [sgrItems.eq_def]
  exact if_pos kind

theorem sgrItems_direct (kind : param = 38 ∨ param = 48) (r g b : Nat)
    (rest : List Nat) : sgrItems (param :: 2 :: r :: g :: b :: rest) = (sgrItems rest).map
        (SgrItem.extended param ⟨clampU8 r, clampU8 g, clampU8 b⟩ :: ·) := by
  rw [sgrItems.eq_def]
  exact if_pos kind

theorem sgrItems_single (kind : ¬(param = 38 ∨ param = 48)) (rest : List Nat) :
    sgrItems (param :: rest) = (sgrItems rest).map (SgrItem.single param :: ·) := by
  rw [sgrItems.eq_def]
  exact if_neg kind

theorem sgrItems_append {p q : List Nat} {ps qs : List SgrItem} (first : sgrItems p = some ps)
    (second : sgrItems q = some qs) : sgrItems (p ++ q) = some (ps ++ qs) := by
  induction p using sgrItems.induct generalizing ps with
  | case1 =>
    cases first
    exact second
  | case2 param kind index rest ih =>
    rw [sgrItems_indexed kind] at first
    apply Exists.elim (Option.map_eq_some_iff.mp first)
    intro later both
    rw [List.cons_append, List.cons_append, List.cons_append, sgrItems_indexed kind, ih both.1,
      ← both.2]
    rfl
  | case3 param kind r g b rest ih =>
    rw [sgrItems_direct kind] at first
    apply Exists.elim (Option.map_eq_some_iff.mp first)
    intro later both
    simp only [List.cons_append]
    rw [sgrItems_direct kind, ih both.1, ← both.2]
    rfl
  | case4 param rest kind other other' =>
    rw [sgrItems.eq_def] at first
    simp only [kind, if_true] at first
    cases first
  | case5 param rest kind ih =>
    rw [sgrItems_single kind] at first
    apply Exists.elim (Option.map_eq_some_iff.mp first)
    intro later both
    rw [List.cons_append, sgrItems_single kind, ih both.1, ← both.2]
    rfl

def SgrList.append (p q : SgrList) : SgrList where
  body := p.body ++ ';' :: q.body
  items := p.items ++ q.items
  params := by
    intro c mem
    rw [List.mem_append, List.mem_cons] at mem
    cases mem with
    | inl mem => exact p.params c mem
    | inr mem =>
      cases mem with
      | inl separator =>
        rw [separator]
        rfl
      | inr mem => exact q.params c mem
  parsed := by
    rw [paramValues, paramsFrom_append, List.map_append]
    exact sgrItems_append p.parsed q.parsed

namespace Foreground

variable (f : Foreground)

def colorsAfter (text : List Char) : Option (Rgb × Rgb) :=
  (f.feedChars text).map fun g => (g.console.foreground, g.console.background)

/-- One sequence with both lists does what two sequences do, `39` sets the foreground to the default,
and `49` the background. -/
structure SgrHolds (p q : SgrList) : Prop where
  order : f.colorsAfter (sgr (p.append q).body) = f.colorsAfter (sgr p.body ++ sgr q.body)
  foreground : (f.colorsAfter (sgr "39".toList)).map Prod.fst = some f.console.defaultForeground
  background : (f.colorsAfter (sgr "49".toList)).map Prod.snd = some f.console.defaultBackground

structure SgrFits (p q : SgrList) : Prop where
  foregroundOrder : Ordered SgrItem.ofForeground p.items q.items f.console.defaultForeground
    f.console.foreground
  backgroundOrder : Ordered SgrItem.ofBackground p.items q.items f.console.defaultBackground
    f.console.background
  foreground : f.console.foreground = f.console.defaultForeground
  background : f.console.background = f.console.defaultBackground

variable {f}

theorem colorsAfter_sgr (l : SgrList) (few : (paramValues l.body).length ≤ maxParams)
    (ground : f.parser.state = .ground) :
    f.colorsAfter (sgr l.body) =
      some (folded SgrItem.ofForeground l.items f.console.defaultForeground f.console.foreground,
        folded SgrItem.ofBackground l.items f.console.defaultBackground f.console.background) := by
  apply Exists.elim (feedChars_sgr l few ground)
  intro p fed
  have colors := setGraphics_items f.console l.items
  rw [colorsAfter, ← List.append_nil (sgr l.body), fed.2, ← colors.1, ← colors.2.1]
  rfl

theorem colorsAfter_both (p q : SgrList) (fewP : (paramValues p.body).length ≤ maxParams)
    (fewQ : (paramValues q.body).length ≤ maxParams) (ground : f.parser.state = .ground) :
    f.colorsAfter (sgr p.body ++ sgr q.body) =
      some (folded SgrItem.ofForeground q.items f.console.defaultForeground
          (folded SgrItem.ofForeground p.items f.console.defaultForeground f.console.foreground),
        folded SgrItem.ofBackground q.items f.console.defaultBackground
          (folded SgrItem.ofBackground p.items f.console.defaultBackground
            f.console.background)) := by
  apply Exists.elim (feedChars_sgr p fewP ground)
  intro parser fed
  have colors := setGraphics_items f.console p.items
  rw [colorsAfter, fed.2, ← colors.1, ← colors.2.1, ← colors.2.2.1, ← colors.2.2.2]
  have second := @colorsAfter_sgr { f with
    parser, console := f.console.setGraphics (p.items.foldl .item {}) } q fewQ fed.1
  rw [colorsAfter] at second
  exact second

def defaultForegroundList : SgrList where
  body := ['3', '9']
  items := [.defaultForeground]
  params := by simp [isParamChar]
  parsed := rfl

def defaultBackgroundList : SgrList where
  body := ['4', '9']
  items := [.defaultBackground]
  params := by simp [isParamChar]
  parsed := rfl

section

def penOf (foreground background : Rgb) : Foreground where
  console :=
    let layout : FramebufferLayout := {
      base := 0x1000
      sizeBytes := 16 * 16 * 4
      width := 16
      height := 16
      stride := 16
      format := .rgb
      supported := .inl rfl
      width_pos := by decide
      height_pos := by decide
      narrow := by decide
      room := by decide
      width_lt := by decide
      height_lt := by decide
      size_lt := by decide }
    let grid : Screen := {
      columns := 2
      rows := 1
      cursorColumn := 0
      cursorRow := 0
      cells := List.replicate 2 (.cleared background)
      wide := by decide
      tall := by decide
      columns_lt := by decide
      rows_lt := by decide }
    { front := ⟨layout, List.replicate 256 0⟩
      back := ⟨layout, List.replicate 256 0⟩
      grid
      dirty := .new 16 16
      foreground
      background
      defaultForeground := foreground
      defaultBackground := background
      cursorVisible := true
      cursorDrawnAt := none
      inactive := grid
      alternateActive := false
      repaintRequested := false }
  parser := .new
  decoder := .new
  pending := []
  graphicsActive := false

def redList : SgrList where
  body := ['3', '1']
  items := [.foreground (baseColor 1 false)]
  params := by simp [isParamChar]
  parsed := rfl

def resetList : SgrList where
  body := ['0']
  items := [.reset]
  params := by simp [isParamChar]
  parsed := rfl

end

end Foreground

end Zaytos.Terminal
