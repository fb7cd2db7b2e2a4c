import Zaytos.Terminal.Boundaries
import Zaytos.Zi.Buffer

set_option autoImplicit false

/-! The main loop of the editor (`userland/zi.rs`), byte by byte: the modes, the escape sequences,
the commands. What it draws is left out. A step is `none` where the program would stop short. -/
namespace Zaytos.Zi

open Terminal (prevBoundary nextBoundary lineEnd firstNonblank isContinuation)

def esc : UInt8 := 0x1B

def backspace : UInt8 := 0x08

def commandMax : Nat := 16

def isBoundary (bytes : List UInt8) (pos : Nat) : Bool :=
  match bytes[pos]? with
  | none => pos == bytes.length
  | some byte => !isContinuation byte

/-- `clamp_column`, in the line that was moved to. -/
def clampColumn (line : List UInt8) (col : Nat) : Option Nat := do
  let limit ← prevBoundary line line.length
  if limit < col then some limit
  else if !isBoundary line col then prevBoundary line col
  else some col

inductive Mode where
  | normal
  | insert
  | command
  deriving DecidableEq, Repr

/-- `Escape`: what has come of an escape sequence. -/
inductive Escape where
  | idle
  | esc
  | bracket
  | tilde
  deriving DecidableEq, Repr

/-- `Command`: what became of a command. -/
inductive Command where
  | saved
  | quit
  | refused
  | failed
  deriving DecidableEq, Repr

/-- What the editor cannot know, for each of its calls: how far the heap grows then, and whether
the file is written. -/
structure World where
  heap : Nat → Reaches
  disk : Nat → Bool

/-- The editor at the head of its loop. `saved` is what the file was read as or last written
with, and `calls` how many calls it has made. -/
structure Editor where
  buffer : Buffer
  row : Nat
  col : Nat
  mode : Mode
  escape : Escape
  command : List UInt8
  dirty : Bool
  saved : List UInt8
  calls : Nat
  ended : Bool

/-- What `read` gives: a byte, nothing yet, or nothing any more. -/
inductive Input where
  | byte (byte : UInt8)
  | again
  | closed

namespace Editor

def moveLeft (e : Editor) : Option Editor := do
  let line ← e.buffer.line e.row
  if e.col = 0 then some e else some { e with col := ← prevBoundary line e.col }

/-- How far right `move_right` goes. -/
def rightLimit (e : Editor) (line : List UInt8) : Option Nat :=
  if e.mode = .insert then some line.length else prevBoundary line line.length

def moveRight (e : Editor) : Option Editor := do
  let line ← e.buffer.line e.row
  let limit ← e.rightLimit line
  if limit ≤ e.col then some e
  else if limit < nextBoundary line e.col then some e
  else some { e with col := nextBoundary line e.col }

/-- To a row, as `move_up` and `move_down` go to it. -/
def moveToRow (e : Editor) (row : Nat) : Option Editor := do
  some { e with row, col := ← clampColumn (← e.buffer.line row) e.col }

def moveUp (e : Editor) : Option Editor :=
  if e.row = 0 then some e else e.moveToRow (e.row - 1)

def moveDown (e : Editor) : Option Editor :=
  if e.buffer.count ≤ e.row + 1 then some e else e.moveToRow (e.row + 1)

def moveToLineEnd (e : Editor) : Option Editor := do
  some { e with col := ← lineEnd (← e.buffer.line e.row) }

def moveToFirstNonblank (e : Editor) : Option Editor := do
  some { e with col := ← firstNonblank (← e.buffer.line e.row) }

def enterAppend (e : Editor) : Option Editor := do
  let line ← e.buffer.line e.row
  some { e with
    mode := .insert
    col := if e.col < line.length then nextBoundary line e.col else e.col }

def motion (byte : UInt8) (e : Editor) : Option Editor :=
  if byte = 'h'.toUInt8 then e.moveLeft
  else if byte = 'j'.toUInt8 then e.moveDown
  else if byte = 'k'.toUInt8 then e.moveUp
  else if byte = 'l'.toUInt8 then e.moveRight
  else if byte = 'i'.toUInt8 then some { e with mode := .insert }
  else if byte = 'a'.toUInt8 then e.enterAppend
  else if byte = '$'.toUInt8 then e.moveToLineEnd
  else if byte = '^'.toUInt8 then e.moveToFirstNonblank
  else if byte = 'A'.toUInt8 then do (← e.moveToLineEnd).enterAppend
  else some e

def arrow (direction : UInt8) (e : Editor) : Option Editor :=
  if direction = 'A'.toUInt8 then e.moveUp
  else if direction = 'B'.toUInt8 then e.moveDown
  else if direction = 'C'.toUInt8 then e.moveRight
  else if direction = 'D'.toUInt8 then e.moveLeft
  else some e

/-- `x`, and the delete key: whether a character was removed. In normal mode the cursor stays on
the line. -/
def removeHere (e : Editor) : Option (Bool × Editor) := do
  let (removed, buffer) ← e.buffer.remove e.row e.col
  if removed ∧ e.mode = .normal then
    let line ← buffer.line e.row
    if line.length ≤ e.col then
      some (removed, { e with buffer, col := ← prevBoundary line line.length })
    else some (removed, { e with buffer })
  else some (removed, { e with buffer })

/-- The newline of `handle_byte` in insert mode. -/
def breakLine (world : World) (e : Editor) : Option (Bool × Editor) := do
  let (split, buffer) ← e.buffer.splitLine (world.heap e.calls) e.row e.col
  let e := { e with buffer, calls := e.calls + 1 }
  if split then some (true, { e with row := e.row + 1, col := 0 }) else some (false, e)

/-- The backspace of `handle_byte` in insert mode. -/
def erase (e : Editor) : Option (Bool × Editor) := do
  if 0 < e.col then
    let back ← prevBoundary (← e.buffer.line e.row) e.col
    let (removed, buffer) ← e.buffer.remove e.row back
    if removed then some (true, { e with buffer, col := back })
    else some (false, { e with buffer })
  else if e.row = 0 then some (false, e)
  else
    let landing ← e.buffer.length (e.row - 1)
    let (joined, buffer) ← e.buffer.joinWithNext (e.row - 1)
    if joined then some (true, { e with buffer, row := e.row - 1, col := landing })
    else some (false, { e with buffer })

/-- Any other byte of `handle_byte` in insert mode. -/
def insertHere (world : World) (e : Editor) (byte : UInt8) : Option (Bool × Editor) := do
  let (inserted, buffer) ← e.buffer.insert (world.heap e.calls) e.row e.col byte
  let e := { e with buffer, calls := e.calls + 1 }
  if inserted then some (true, { e with col := e.col + 1 }) else some (false, e)

/-- `handle_byte`: whether it changed the buffer. -/
def handleByte (world : World) (e : Editor) (byte : UInt8) : Option (Bool × Editor) :=
  match e.mode with
  | .command => some (false, e)
  | .normal =>
    -- `o` goes on as the newline of insert mode, which it has entered.
    if byte = 'o'.toUInt8 then do (← (← e.moveToLineEnd).enterAppend).breakLine world
    else if byte = 'x'.toUInt8 then e.removeHere
    else (e.motion byte).map fun e => (false, e)
  | .insert =>
    if byte = newline then e.breakLine world
    else if byte = backspace then e.erase
    else e.insertHere world byte

def finishPendingEscape (e : Editor) : Option Editor :=
  if e.mode = .insert then do
    let line ← e.buffer.line e.row
    some { e with mode := .normal, col := ← prevBoundary line e.col }
  else some e

def save (world : World) (e : Editor) : Option (Bool × Editor) := do
  let out ← e.buffer.asBytes
  if world.disk e.calls then some (true, { e with saved := out, calls := e.calls + 1 })
  else some (false, { e with calls := e.calls + 1 })

def runCommand (world : World) (e : Editor) : Option (Command × Editor) :=
  if e.command = ['w'.toUInt8] then
    (e.save world).map fun (ok, e) => (if ok then .saved else .failed, e)
  else if e.command = ['q'.toUInt8] then
    some (if e.dirty then .refused else .quit, e)
  else if e.command = ['w'.toUInt8, 'q'.toUInt8] then
    (e.save world).map fun (ok, e) => (if ok then .quit else .failed, e)
  else some (.refused, e)

def commandByte (world : World) (e : Editor) (byte : UInt8) : Option Editor :=
  if byte = newline then do
    let (outcome, e) ← e.runCommand world
    let e := { e with command := [], mode := .normal }
    match outcome with
    | .quit => some { e with ended := true }
    | .saved => some { e with dirty := false }
    | .failed | .refused => some e
  else if byte = esc then some { e with command := [], mode := .normal }
  else if e.command.length < commandMax then some { e with command := e.command ++ [byte] }
  else some e

def typed (world : World) (e : Editor) (byte : UInt8) : Option Editor :=
  if e.mode = .command then e.commandByte world byte
  else if e.mode = .normal ∧ byte = ':'.toUInt8 then
    some { e with mode := .command, command := [] }
  else do
    let (changed, e) ← e.handleByte world byte
    some { e with dirty := e.dirty || changed }

def readByte (world : World) (e : Editor) (byte : UInt8) : Option Editor :=
  match e.escape with
  | .idle => if byte = esc then some { e with escape := .esc } else e.typed world byte
  | .esc =>
    if byte = '['.toUInt8 then some { e with escape := .bracket }
    else do
      let e ← finishPendingEscape { e with escape := .idle }
      if byte = esc then some { e with escape := .esc }
      else
        -- Whether the buffer was changed is not looked at here.
        let (_, e) ← e.handleByte world byte
        some e
  | .bracket =>
    if byte = '3'.toUInt8 then some { e with escape := .tilde }
    else arrow byte { e with escape := .idle }
  | .tilde =>
    if byte = '~'.toUInt8 then do
      let (removed, e) ← removeHere { e with escape := .idle }
      some { e with dirty := e.dirty || removed }
    else some { e with escape := .idle }

def step (world : World) (e : Editor) (input : Input) : Option Editor :=
  if e.ended then some e
  else
    match input with
    | .byte byte => e.readByte world byte
    | .again =>
      if e.escape = .esc then finishPendingEscape { e with escape := .idle } else some e
    | .closed => some { e with ended := true }

def run (world : World) (e : Editor) (inputs : List Input) : Option Editor :=
  inputs.foldlM (step world) e

def opened (buffer : Buffer) : Option Editor := do
  some ⟨buffer, 0, 0, .normal, .idle, [], false, ← buffer.asBytes, 0, false⟩

end Editor

end Zaytos.Zi
