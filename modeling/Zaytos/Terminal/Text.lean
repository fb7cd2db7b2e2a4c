import Mathlib.Order.Basic

set_option autoImplicit false

/-! Characters of several bytes (`common/src/text.rs`): their width on the screen, the decoder
that the console keeps between two `write`s, and the cutting of a byte string into characters
that the editor moves by. -/
namespace Zaytos.Terminal

/-- `REPLACEMENT`, U+FFFD. -/
def replacement : Char := Char.ofNat 0xFFFD

def isWide (code : Nat) : Bool :=
  (0x1100 ≤ code && code ≤ 0x115F) || (0x2E80 ≤ code && code ≤ 0x303E) ||
  (0x3041 ≤ code && code ≤ 0xA4CF) || (0xAC00 ≤ code && code ≤ 0xD7A3) ||
  (0xF900 ≤ code && code ≤ 0xFAFF) || (0xFE30 ≤ code && code ≤ 0xFE6F) ||
  (0xFF00 ≤ code && code ≤ 0xFF60) || (0xFFE0 ≤ code && code ≤ 0xFFE6) ||
  (0x20000 ≤ code && code ≤ 0x3FFFD)

def widthCells (c : Char) : Nat := if isWide c.toNat then 2 else 1

theorem widthCells_cases (c : Char) : widthCells c = 1 ∨ widthCells c = 2 := by
  unfold widthCells
  split
  · exact .inr rfl
  · exact .inl rfl

theorem widthCells_pos (c : Char) : 0 < widthCells c := by
  have := widthCells_cases c
  omega

theorem widthCells_le (c : Char) : widthCells c ≤ 2 := by
  have := widthCells_cases c
  omega

/-- `core::str::from_utf8`, with the characters of the text. -/
def fromUtf8 (bytes : List UInt8) : Option (List Char) :=
  bytes.toByteArray.utf8Decode?.map Array.toList

/-- A byte that goes on with a character, `0x80..=0xBF`. -/
def isContinuation (byte : UInt8) : Bool := 0x80 ≤ byte && byte ≤ 0xBF

/-- How many bytes the character takes that begins with a byte; none begins with most of those
above `0x7F`. -/
def charLength (byte : UInt8) : Option Nat :=
  if byte ≤ 0x7F then some 1
  else if 0xC2 ≤ byte && byte ≤ 0xDF then some 2
  else if 0xE0 ≤ byte && byte ≤ 0xEF then some 3
  else if 0xF0 ≤ byte && byte ≤ 0xF4 then some 4
  else none

/-- `Utf8Decoder`: the bytes held in `buf[..len]`, and how many make the character. -/
structure Utf8Decoder where
  held : List UInt8
  need : Nat
  deriving DecidableEq

namespace Utf8Decoder

def new : Utf8Decoder := ⟨[], 0⟩

def pending (d : Utf8Decoder) : Nat := d.held.length

/-- `start`, on a decoder that holds nothing. -/
def start (d : Utf8Decoder) (byte : UInt8) : List Char × Utf8Decoder :=
  match charLength byte with
  | some 1 => ([Char.ofNat byte.toNat], d)
  | some need => ([], ⟨[byte], need⟩)
  | none => ([replacement], d)

def flushBroken (d : Utf8Decoder) : List Char × Utf8Decoder :=
  (List.replicate d.held.length replacement, new)

/-- `feed`: what is emitted for a byte. It is `none` if `buf` has no place for the byte. -/
def feed (d : Utf8Decoder) (byte : UInt8) : Option (List Char × Utf8Decoder) :=
  if d.held = [] then some (d.start byte)
  else if !isContinuation byte then
    let (broken, cleared) := d.flushBroken
    let (chars, next) := cleared.start byte
    some (broken ++ chars, next)
  else if 4 ≤ d.held.length then none
  else
    let held := d.held ++ [byte]
    if held.length < d.need then some ([], ⟨held, d.need⟩)
    else match fromUtf8 held with
      | some text => some (text, new)
      | none => some (List.replicate held.length replacement, new)

/-- A `write`: the bytes one after the other. -/
def feedAll (d : Utf8Decoder) : List UInt8 → Option (List Char × Utf8Decoder)
  | [] => some ([], d)
  | byte :: bytes => do
    let (chars, next) ← d.feed byte
    let (rest, last) ← next.feedAll bytes
    some (chars ++ rest, last)

/-- Several `write`s. -/
def feedChunks (d : Utf8Decoder) : List (List UInt8) → Option (List Char × Utf8Decoder)
  | [] => some ([], d)
  | chunk :: chunks => do
    let (chars, next) ← d.feedAll chunk
    let (rest, last) ← next.feedChunks chunks
    some (chars ++ rest, last)

end Utf8Decoder

def charAt (bytes : List UInt8) (pos : Nat) : Option (Char × Nat) :=
  match bytes[pos]? with
  | none => none
  | some byte =>
    match charLength byte with
    | none => some (replacement, 1)
    | some need =>
      if bytes.length < pos + need then some (replacement, 1)
      else match fromUtf8 ((bytes.drop pos).take need) with
        | some text => text.head?.map fun c => (c, need)
        | none => some (replacement, 1)

def nextBoundary (bytes : List UInt8) (pos : Nat) : Nat :=
  match charAt bytes pos with
  | some (_, length) => pos + length
  | none => pos

/-- The loop of `display_column`. -/
def displayLoop (bytes : List UInt8) (upto : Nat) : (fuel pos column : Nat) → Nat
  | 0, _, column => column
  | fuel + 1, pos, column =>
    if pos < upto then
      match charAt bytes pos with
      | none => column
      | some (c, length) => displayLoop bytes upto fuel (pos + length) (column + widthCells c)
    else column

/-- `display_column`. A character has a byte at least, so the loop makes at most `upto` rounds. -/
def displayColumn (bytes : List UInt8) (upto : Nat) : Nat := displayLoop bytes upto upto 0 0

/-- The characters met when the string is walked from a position on by `char_at` and
`next_boundary`. -/
def walkFrom (bytes : List UInt8) : (fuel pos : Nat) → List Char
  | 0, _ => []
  | fuel + 1, pos =>
    match charAt bytes pos with
    | none => []
    | some (c, _) => c :: walkFrom bytes fuel (nextBoundary bytes pos)

def walk (bytes : List UInt8) : List Char := walkFrom bytes bytes.length 0

inductive WalkPosition (bytes : List UInt8) : Nat → Prop
  | start : WalkPosition bytes 0
  | next {pos : Nat} (before : WalkPosition bytes pos) : WalkPosition bytes (nextBoundary bytes pos)

end Zaytos.Terminal
