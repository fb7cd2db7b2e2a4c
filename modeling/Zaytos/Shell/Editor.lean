import Zaytos.Kernel.Keyboard
import Zaytos.Shell.Line

set_option autoImplicit false

/-! A line editor as it is meant: the text before the insertion point and the text behind it, and
the lines that were entered before. The loop of the shell does to its buffers what this does. -/
namespace Zaytos.Shell

def isPrintable (byte : UInt8) : Bool := 0x20 ≤ byte && byte < 0x7F

inductive Key where
  | char (byte : UInt8) (printable : isPrintable byte = true)
  | backspace
  | delete
  | left
  | right
  | up
  | down
  | home
  | «end»
  | ctrlA
  | ctrlB
  | ctrlD
  | ctrlE
  | ctrlF
  | ctrlK
  | ctrlL
  | ctrlN
  | ctrlP
  | ctrlU
  | ctrlW

namespace Key

def event : Key → Kernel.KeyEvent
  | char byte _ => .char (Char.ofNat byte.toNat)
  | backspace => .backspace
  | delete => .delete
  | left => .arrowLeft
  | right => .arrowRight
  | up => .arrowUp
  | down => .arrowDown
  | home => .home
  | «end» => .end
  | ctrlA => .char '\x01'
  | ctrlB => .char '\x02'
  | ctrlD => .char '\x04'
  | ctrlE => .char '\x05'
  | ctrlF => .char '\x06'
  | ctrlK => .char '\x0b'
  | ctrlL => .char '\x0c'
  | ctrlN => .char '\x0e'
  | ctrlP => .char '\x10'
  | ctrlU => .char '\x15'
  | ctrlW => .char '\x17'

def bytes (key : Key) : List UInt8 := Kernel.bytesForEvent key.event

end Key

/-- The line around its insertion point, the lines before it, the latest first, and how far back
among them the line comes from. `extent` is the greatest length the line has had. -/
structure Editor where
  before : List UInt8
  behind : List UInt8
  history : List (List UInt8)
  back : Nat
  draft : List UInt8
  extent : Nat

namespace Editor

def text (e : Editor) : List UInt8 := e.before ++ e.behind

def start (history : List (List UInt8)) : Editor := ⟨[], [], history, 0, [], 0⟩

def retype (e : Editor) (before behind : List UInt8) : Editor :=
  { e with before, behind, extent := max e.extent (before.length + behind.length) }

def insert (e : Editor) (byte : UInt8) : Editor :=
  if e.text.length + 1 < lineMax then e.retype (e.before ++ [byte]) e.behind else e

/-- Without the last bytes of what is before the insertion point and the first of what is
behind it. -/
def erase (e : Editor) (last first : Nat) : Editor :=
  { e with before := e.before.take (e.before.length - last), behind := e.behind.drop first }

def toLeft (e : Editor) : Editor :=
  match e.before.getLast? with
  | none => e
  | some byte => { e with before := e.before.dropLast, behind := byte :: e.behind }

def toRight (e : Editor) : Editor :=
  match e.behind with
  | [] => e
  | byte :: behind => { e with before := e.before ++ [byte], behind }

def toStart (e : Editor) : Editor := { e with before := [], behind := e.text }

def toEnd (e : Editor) : Editor := { e with before := e.text, behind := [] }

/-- How many bytes the word before the insertion point has, with the spaces behind it. -/
def word (e : Editor) : Nat :=
  e.before.length -
    ((e.before.reverse.dropWhile (· == space)).dropWhile (· != space)).length

def older (e : Editor) : Editor :=
  match e.history[e.back]? with
  | none => e
  | some line =>
    { e.retype line [] with
      back := e.back + 1, draft := if e.back = 0 then e.text else e.draft }

def newer (e : Editor) : Editor :=
  if e.back = 0 then e
  else if e.back = 1 then { e.retype e.draft [] with back := 0 }
  else match e.history[e.back - 2]? with
    | none => { e with back := e.back - 1 }
    | some line => { e.retype line [] with back := e.back - 1 }

def press (e : Editor) : Key → Editor
  | .char byte _ => e.insert byte
  | .backspace => e.erase 1 0
  | .delete | .ctrlD => e.erase 0 1
  | .left | .ctrlB => e.toLeft
  | .right | .ctrlF => e.toRight
  | .up | .ctrlP => e.older
  | .down | .ctrlN => e.newer
  | .home | .ctrlA => e.toStart
  | .end | .ctrlE => e.toEnd
  | .ctrlK => e.erase 0 e.behind.length
  | .ctrlU => e.erase e.before.length 0
  | .ctrlW => e.erase e.word 0
  | .ctrlL => e

def pressAll (e : Editor) (keys : List Key) : Editor := keys.foldl press e

end Editor

end Zaytos.Shell
