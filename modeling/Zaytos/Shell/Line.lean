import Zaytos.Lib.Slices

set_option autoImplicit false

/-! The line that is typed at the prompt of the shell (`kernel/userland/zash.rs`): how each byte
that is read changes it, and what is written for it. -/
namespace Zaytos.Shell

abbrev lineMax : Nat := 128

abbrev historyMax : Nat := 16

def bytesOf (text : List Char) : List UInt8 := text.map fun c => UInt8.ofNat c.toNat

def promptName : List UInt8 := bytesOf ['z', 'e', 'i', 'k', 'o', 's']
def promptSymbol : List UInt8 := bytesOf ['$', ' ']
def promptColor : List UInt8 :=
  bytesOf ['\x1b', '[', '3', '8', ';', '2', ';', '0', ';', '2', '0', '0', ';', '0', 'm']
def sgrReset : List UInt8 := bytesOf ['\x1b', '[', '0', 'm']
def clearScreen : List UInt8 := bytesOf ['\x1b', '[', '2', 'J', '\x1b', '[', 'H']

abbrev space : UInt8 := 0x20
abbrev backspace : UInt8 := 0x08
abbrev newline : UInt8 := 0x0A
abbrev tab : UInt8 := 0x09
abbrev ctrlA : UInt8 := 0x01
abbrev ctrlB : UInt8 := 0x02
abbrev ctrlC : UInt8 := 0x03
abbrev ctrlD : UInt8 := 0x04
abbrev ctrlE : UInt8 := 0x05
abbrev ctrlF : UInt8 := 0x06
abbrev ctrlK : UInt8 := 0x0B
abbrev ctrlL : UInt8 := 0x0C
abbrev ctrlN : UInt8 := 0x0E
abbrev ctrlP : UInt8 := 0x10
abbrev ctrlU : UInt8 := 0x15
abbrev ctrlW : UInt8 := 0x17
abbrev firstPrintable : UInt8 := 0x20
abbrev csiHome : UInt8 := 0x31
abbrev csiDelete : UInt8 := 0x33
abbrev csiEnd : UInt8 := 0x34

def spaces : List UInt8 := List.replicate lineMax space
def backspaces : List UInt8 := List.replicate lineMax backspace

def writePrompt (colored : Bool) : List UInt8 :=
  if colored then promptColor ++ promptName ++ sgrReset ++ promptSymbol
  else promptName ++ promptSymbol

inductive Escape where
  | idle
  | esc
  | bracket
  | number (digit : UInt8)
  deriving DecidableEq

/-- A slot of `HISTORY`, with its slot of `HISTORY_LEN`. -/
structure Remembered where
  line : List UInt8
  length : Nat
  deriving DecidableEq

end Shell

/-- What the main loop keeps of the line between two bytes; `colored` is what `prompt_is_colored`
finds in the environment, which no key changes. -/
structure Shell where
  line : List UInt8
  length : Nat
  cursor : Nat
  overflowed : Bool
  escape : Shell.Escape
  historyBack : Nat
  saved : List UInt8
  savedLength : Nat
  history : List Shell.Remembered
  historyCount : Nat
  colored : Bool
  deriving DecidableEq

namespace Shell

open Slices

/-- Where a byte leaves the loop: at its next `read`, with what it has written, or with a byte
that ends the editing of the line: Enter, Ctrl+C, Tab. -/
inductive Turn where
  | edited (shell : Shell) (written : List UInt8)
  | leaves (byte : UInt8)

def edits (turn : Option (Shell × List UInt8)) : Option Turn :=
  turn.map fun (shell, written) => .edited shell written

def moveLeft (s : Shell) : Option (Shell × List UInt8) :=
  if 0 < s.cursor then some ({ s with cursor := s.cursor - 1 }, [backspace]) else some (s, [])

def moveRight (s : Shell) : Option (Shell × List UInt8) :=
  if s.cursor < s.length then do
    let text ← slice s.line s.cursor (s.cursor + 1)
    some ({ s with cursor := s.cursor + 1 }, text)
  else some (s, [])

def moveToStart (s : Shell) : Option (Shell × List UInt8) :=
  if s.cursor = 0 then some (s, [])
  else do
    let back ← slice backspaces 0 s.cursor
    some ({ s with cursor := 0 }, back)

def moveToEnd (s : Shell) : Option (Shell × List UInt8) :=
  if s.length ≤ s.cursor then some (s, [])
  else do
    let text ← slice s.line s.cursor s.length
    some ({ s with cursor := s.length }, text)

/-- A `write_all` under a condition. -/
def writeIf (given : Prop) [Decidable given] (part : Option (List UInt8)) : Option (List UInt8) :=
  if given then part else some []

def deleteRange (s : Shell) (start stop : Nat) : Option (Shell × List UInt8) :=
  if stop ≤ start ∨ s.length < stop then some (s, [])
  else do
    let removed := stop - start
    let back ← writeIf (start < s.cursor) (slice backspaces 0 (s.cursor - start))
    let line ← copyWithin s.line stop s.length start
    let length := s.length - removed
    let tail := length - start
    let text ← writeIf (0 < tail) (slice line start length)
    let gap ← slice spaces 0 removed
    let rest ← slice backspaces 0 (tail + removed)
    some ({ s with line, length, cursor := start }, back ++ text ++ gap ++ rest)

/-- A loop of `word_start`: back over the bytes of one kind before a place. -/
def skipBack (bytes : List UInt8) (kind : UInt8 → Bool) : Nat → Option Nat
  | 0 => some 0
  | place + 1 => do
    let byte ← bytes[place]?
    if kind byte then skipBack bytes kind place else some (place + 1)

def wordStart (line : List UInt8) (cursor : Nat) : Option Nat := do
  let place ← skipBack line (fun byte => byte == space) cursor
  skipBack line (fun byte => byte != space) place

def redrawScreen (s : Shell) : Option (List UInt8) := do
  let text ← writeIf (0 < s.length) (slice s.line 0 s.length)
  let back ← writeIf (s.cursor < s.length) (slice backspaces 0 (s.length - s.cursor))
  some (clearScreen ++ writePrompt s.colored ++ text ++ back)

/-- `redraw_tail_without_gap`: one `write` for each way back. -/
def redrawTailWithoutGap (tail : List UInt8) : List UInt8 :=
  tail ++ List.replicate tail.length backspace

def historyAt (s : Shell) (back : Nat) : Option Remembered :=
  if back = 0 ∨ s.historyCount < back ∨ historyMax < back then none
  else s.history[(s.historyCount - back) % historyMax]?

def replaceLine (s : Shell) (new : List UInt8) : Option (Shell × List UInt8) := do
  let (s, text) ← s.moveToEnd
  let back ← writeIf (0 < s.length) (slice backspaces 0 s.length)
  let gap ← writeIf (0 < s.length) (slice spaces 0 s.length)
  let blank := back ++ gap ++ back
  let line ← write s.line 0 new
  let shown ← writeIf (0 < new.length) (slice line 0 new.length)
  some ({ s with line, length := new.length, cursor := new.length }, text ++ blank ++ shown)

/-- What `history_previous` does first: the line that is being typed is kept. -/
def saveLine (s : Shell) : Option Shell :=
  if s.historyBack = 0 then do
    let text ← slice s.line 0 s.length
    let saved ← write s.saved 0 text
    some { s with saved, savedLength := s.length }
  else some s

def historyPrevious (s : Shell) : Option (Shell × List UInt8) :=
  match s.historyAt (s.historyBack + 1) with
  | none => some (s, [])
  | some entry => do
    let s ← s.saveLine
    let text ← slice entry.line 0 entry.length
    { s with historyBack := s.historyBack + 1 }.replaceLine text

def historyNext (s : Shell) : Option (Shell × List UInt8) :=
  if s.historyBack = 0 then some (s, [])
  else
    let s := { s with historyBack := s.historyBack - 1 }
    if s.historyBack = 0 then do
      let text ← slice s.saved 0 s.savedLength
      s.replaceLine text
    else match s.historyAt s.historyBack with
      | none => some (s, [])
      | some entry => do
        let text ← slice entry.line 0 entry.length
        s.replaceLine text

/-- The last branch of the loop: a byte goes into the line at the insertion point. -/
def insertByte (s : Shell) (byte : UInt8) : Option (Shell × List UInt8) :=
  if byte < firstPrintable then some (s, [])
  else if s.length + 1 < s.line.length then do
    let line ← copyWithin s.line s.cursor s.length (s.cursor + 1)
    let line ← write line s.cursor [byte]
    let cursor := s.cursor + 1
    let length := s.length + 1
    let tail ← slice line cursor length
    some ({ s with line, length, cursor }, [byte] ++ redrawTailWithoutGap tail)
  else some ({ s with overflowed := true }, [])

def takeByte (s : Shell) (byte : UInt8) : Option Turn :=
  if byte = newline ∨ byte = ctrlC ∨ byte = tab then some (.leaves byte)
  else if byte = ctrlB then edits s.moveLeft
  else if byte = ctrlF then edits s.moveRight
  else if byte = ctrlP then edits s.historyPrevious
  else if byte = ctrlN then edits s.historyNext
  else if byte = ctrlA then edits s.moveToStart
  else if byte = ctrlE then edits s.moveToEnd
  else if byte = backspace then edits (s.deleteRange (s.cursor - 1) s.cursor)
  else if byte = ctrlD then edits (s.deleteRange s.cursor (s.cursor + 1))
  else if byte = ctrlK then edits (s.deleteRange s.cursor s.length)
  else if byte = ctrlU then edits (s.deleteRange 0 s.cursor)
  else if byte = ctrlW then edits do
    let start ← wordStart s.line s.cursor
    s.deleteRange start s.cursor
  else if byte = ctrlL then edits do
    let written ← s.redrawScreen
    some (s, written)
  else edits (s.insertByte byte)

/-- A round of the loop. An escape sequence that is not known is dropped, and the byte that it
ends with is taken for itself. -/
def feed (s : Shell) (byte : UInt8) : Option Turn :=
  let known := { s with escape := .idle }
  match s.escape with
  | .idle => if byte = 0x1B then some (.edited { s with escape := .esc } []) else s.takeByte byte
  | .esc =>
    if byte = 0x5B then some (.edited { s with escape := .bracket } []) else known.takeByte byte
  | .bracket =>
    if byte = 0x44 then edits known.moveLeft
    else if byte = 0x43 then edits known.moveRight
    else if 0x30 ≤ byte ∧ byte ≤ 0x39 then some (.edited { s with escape := .number byte } [])
    else if byte = 0x41 then edits known.historyPrevious
    else if byte = 0x42 then edits known.historyNext
    else known.takeByte byte
  | .number digit =>
    if byte = 0x7E then
      if digit = csiHome then edits known.moveToStart
      else if digit = csiEnd then edits known.moveToEnd
      else if digit = csiDelete then edits (known.deleteRange known.cursor (known.cursor + 1))
      else some (.edited known [])
    else known.takeByte byte

/-- Bytes that are read one after the other, as long as none of them ends the editing, and all that
is written for them. -/
def feedAll (s : Shell) : List UInt8 → Option (Shell × List UInt8)
  | [] => some (s, [])
  | byte :: bytes =>
    match s.feed byte with
    | some (.edited t written) => do
      let (u, more) ← t.feedAll bytes
      some (u, written ++ more)
    | _ => none

end Shell

end Zaytos
