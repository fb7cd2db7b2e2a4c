import Zaytos.Kernel.Space
import Zaytos.Lib.Bytes
import Zaytos.Lib.Checked
import Zaytos.Terminal.Text

set_option autoImplicit false

/-! The buffer of the editor (`userland/zi.rs`): the text and the index of its lines in one region
of the heap. An operation is `none` where an index or a copy would leave its slice, or where a
number of the index would borrow or overflow. The sizes are those of memory, and naturals. -/
namespace Zaytos.Zi

open Zaytos.Kernel (heapLimit)

def newline : UInt8 := 10

abbrev word : Nat := 8

def textSlack : Nat := 4096

def textStep : Nat := 4096

def indexInitial : Nat := 64 + 1

def indexStep : Nat := 64

def roundUpWord (bytes : Nat) : Nat := (bytes + word - 1) / word * word

def textCapacityFor (size : Nat) : Nat := roundUpWord (size + 1 + size + textSlack)

/-- `slice.copy_within(start..stop, dest)` in the first `cap` bytes. -/
def copyWithin (d : Bytes) (cap start stop dest : Nat) : Option Bytes :=
  if start ≤ stop ∧ stop ≤ cap ∧ dest + (stop - start) ≤ cap ∧ cap ≤ d.len then
    some (d.put dest (stop - start) fun k => d.get (start + k))
  else none

/-- How far `brk` lets the heap grow this time. -/
abbrev Reaches := Nat → Bool

/-- `heap::grow_to`, on the region that the program has. What is new in it is zero; `brk` refuses
what would end behind the limit of the heap. -/
def growTo (reaches : Reaches) (region : Bytes) (bytes : Nat) : Except Bytes Bytes :=
  if bytes ≤ region.len then .error region
  else if bytes ≤ heapLimit ∧ reaches bytes = true then
    .ok ⟨bytes, fun i => if i < region.len then region.get i else 0⟩
  else .error region

/-- `heap::reserve`, the first time. -/
def reserve (reaches : Reaches) (bytes : Nat) : Option Bytes :=
  if 0 < bytes ∧ bytes ≤ heapLimit ∧ reaches bytes = true then some ⟨bytes, fun _ => 0⟩ else none

/-- `Buffer`: the text, and behind it the index. -/
structure Buffer where
  region : Bytes
  textCap : Nat
  indexCap : Nat
  count : Nat
  used : Nat

namespace Buffer

/-- The slices of `parts` lie in the region, and that of the index is aligned. -/
def Split (b : Buffer) : Prop := b.textCap + b.indexCap * word ≤ b.region.len ∧ b.textCap % word = 0

instance (b : Buffer) : Decidable b.Split := inferInstanceAs (Decidable (_ ∧ _))

/-- `parts().1[row]`, as in `start_of`. -/
def startOf (b : Buffer) (row : Nat) : Option Nat :=
  if b.Split ∧ row < b.indexCap then some (b.region.u64 (b.textCap + row * word)) else none

/-- `parts_mut().1[row] = value`. -/
def setStart (b : Buffer) (row value : Nat) : Option Buffer :=
  if b.Split ∧ row < b.indexCap then
    some { b with region := b.region.putU64 (b.textCap + row * word) value }
  else none

/-- `text()[pos]`. -/
def byteAt (b : Buffer) (pos : Nat) : Option UInt8 :=
  if pos < b.textCap ∧ b.textCap ≤ b.region.len then some (b.region.get pos) else none

/-- `text_mut()[pos] = byte`. -/
def setByte (b : Buffer) (pos : Nat) (byte : UInt8) : Option Buffer :=
  if pos < b.textCap ∧ b.textCap ≤ b.region.len then
    some { b with region := b.region.put pos 1 fun _ => byte }
  else none

/-- `text_mut().copy_within(start..stop, dest)`. -/
def copyText (b : Buffer) (start stop dest : Nat) : Option Buffer := do
  some { b with region := ← copyWithin b.region b.textCap start stop dest }

def new (region : Bytes) (textCap indexCap : Nat) : Option (Option Buffer) :=
  if indexCap < 2 ∨ textCap = 0 ∨ region.len < textCap + indexCap * word then some none
  else do
    let b : Buffer := ⟨region, textCap, indexCap, 1, 1⟩
    let b ← b.setByte 0 newline
    let b ← b.setStart 0 0
    some (some (← b.setStart 1 1))

/-- What the main function does before it opens a file of this size: `none` inside if there is no
heap. -/
def openFor (reaches : Reaches) (size : Nat) : Option (Option Buffer) :=
  match reserve reaches (textCapacityFor size + indexInitial * word) with
  | none => some none
  | some region => new region (textCapacityFor size) indexInitial

def line (b : Buffer) (row : Nat) : Option (List UInt8) := do
  let start ← b.startOf row
  let stop ← sub (← b.startOf (row + 1)) 1
  if start ≤ stop ∧ stop ≤ b.textCap then some (b.region.view start (stop - start)) else none

def length (b : Buffer) (row : Nat) : Option Nat := do
  sub (← sub (← b.startOf (row + 1)) (← b.startOf row)) 1

def asBytes (b : Buffer) : Option (List UInt8) :=
  if b.used ≤ b.region.len then some (b.region.view 0 b.used) else none

/-- `regrow`: whether there was room, and the buffer. -/
def regrow (reaches : Reaches) (b : Buffer) (textCap indexCap : Nat) : Option (Bool × Buffer) :=
  match growTo reaches b.region (textCap + indexCap * word) with
  | .error same => some (false, { b with region := same })
  | .ok bigger => do
    let region ←
      if textCap ≠ b.textCap then
        copyWithin bigger bigger.len b.textCap (b.textCap + b.indexCap * word) textCap
      else some bigger
    some (true, { b with region, textCap, indexCap })

def ensureText (reaches : Reaches) (b : Buffer) (needed : Nat) : Option (Bool × Buffer) :=
  if needed ≤ b.textCap then some (true, b)
  else
    let want :=
      roundUpWord (if b.textCap + textStep < needed then needed else b.textCap + textStep)
    b.regrow reaches want b.indexCap

def ensureIndex (reaches : Reaches) (b : Buffer) (slots : Nat) : Option (Bool × Buffer) :=
  if slots ≤ b.indexCap then some (true, b)
  else
    let want := if b.indexCap + indexStep < slots then slots else b.indexCap + indexStep
    b.regrow reaches b.textCap want

/-- `starts[dest] = f(starts[source])`. -/
def moveStart (f : Nat → Option Nat) (b : Buffer) (source dest : Nat) : Option Buffer := do
  b.setStart dest (← f (← b.startOf source))

def behind (b : Buffer) (row : Nat) : List Nat := List.range' (row + 1) (b.count - row)

/-- `wrapping_add_signed` of minus this much. -/
def wrappingBack (delta value : Nat) : Nat := (value + (2 ^ 64 - delta)) % 2 ^ 64

/-- `shift_index`, by minus this much. -/
def shiftIndex (b : Buffer) (row delta : Nat) : Option Buffer :=
  (b.behind row).foldlM
    (fun b index => b.moveStart (fun start => some (wrappingBack delta start)) index index) b

def insert (reaches : Reaches) (b : Buffer) (row at' : Nat) (byte : UInt8) :
    Option (Bool × Buffer) := do
  if (← b.length row) < at' then some (false, b)
  else
    let (grown, b) ← b.ensureText reaches (b.used + 1)
    if !grown then some (false, b)
    else
      let position := (← b.startOf row) + at'
      let b ← b.copyText position b.used (position + 1)
      let b ← b.setByte position byte
      let b ← (b.behind row).foldlM
        (fun b index => b.moveStart (fun start => add64 start 1) index index) b
      some (true, { b with used := b.used + 1 })

def splitLine (reaches : Reaches) (b : Buffer) (row at' : Nat) : Option (Bool × Buffer) := do
  if b.count ≤ row then some (false, b)
  else if (← b.length row) < at' then some (false, b)
  else
    let (grown, b) ← b.ensureText reaches (b.used + 1)
    if !grown then some (false, b)
    else
      let (grown, b) ← b.ensureIndex reaches (b.count + 2)
      if !grown then some (false, b)
      else
        let position := (← b.startOf row) + at'
        let b ← b.copyText position b.used (position + 1)
        let b ← b.setByte position newline
        let b ← (b.behind row).reverse.foldlM
          (fun b index => b.moveStart (fun start => add64 start 1) index (index + 1)) b
        let b ← b.setStart (row + 1) (position + 1)
        some (true, { b with used := b.used + 1, count := b.count + 1 })

def joinWithNext (b : Buffer) (row : Nat) : Option (Bool × Buffer) :=
  if b.count ≤ row + 1 then some (false, b)
  else do
    let position ← sub (← b.startOf (row + 1)) 1
    let b ← b.copyText (position + 1) b.used position
    let b ← (List.range' (row + 1) (b.count - (row + 1))).foldlM
      (fun b index => b.moveStart (fun start => sub start 1) (index + 1) index) b
    some (true, { b with used := ← sub b.used 1, count := b.count - 1 })

/-- `remove`: one character. -/
def remove (b : Buffer) (row at' : Nat) : Option (Bool × Buffer) := do
  if (← b.length row) ≤ at' then some (false, b)
  else
    match Terminal.charAt (← b.line row) at' with
    | none => some (false, b)
    | some (_, width) =>
      let position := (← b.startOf row) + at'
      let b ← b.copyText (position + width) b.used position
      let b := { b with used := ← sub b.used width }
      some (true, ← b.shiftIndex row width)

/-- The mark behind the last line, if it is missing (`index_lines`): whether there was room, how
much is used, and the buffer. -/
def terminate (reaches : Reaches) (b : Buffer) (total : Nat) : Option (Option Nat × Buffer) := do
  if total = 0 then
    let (grown, b) ← b.ensureText reaches 1
    if !grown then some (none, b)
    else some (some 1, ← b.setByte 0 newline)
  else if (← b.byteAt (total - 1)) = newline then some (some total, b)
  else
    let (grown, b) ← b.ensureText reaches (total + 1)
    if !grown then some (none, b)
    else some (some (total + 1), ← b.setByte total newline)

/-- The loop of `index_lines` over the text: how many lines it has met. -/
def indexFrom (b : Buffer) (count : Nat) : (position n : Nat) → Option (Nat × Buffer)
  | _, 0 => some (count, b)
  | position, n + 1 => do
    if (← b.byteAt position) ≠ newline then b.indexFrom count (position + 1) n
    else if b.indexCap ≤ count + 1 then some (count, b)
    else (← b.setStart (count + 1) (position + 1)).indexFrom (count + 1) (position + 1) n

def indexLines (reaches : Reaches) (b : Buffer) (total : Nat) : Option (Bool × Buffer) := do
  match ← b.terminate reaches total with
  | (none, b) => some (false, b)
  | (some used, b) =>
    if b.textCap < used ∨ b.region.len < b.textCap then none
    else
      let lines := (b.region.view 0 used).count newline
      let (grown, b) ← b.ensureIndex reaches (lines + 1 + indexStep)
      if !grown then some (false, b)
      else
        let b ← b.setStart 0 0
        let (count, b) ← b.indexFrom 0 0 used
        some (true, { b with count, used := ← b.startOf count })

/-- One `read` of the loop of the main function, of at most a chunk: whether there was room. -/
def take (reaches : Reaches) (b : Buffer) (total : Nat) (chunk : List UInt8) :
    Option (Bool × Buffer) := do
  let (grown, b) ← b.ensureText reaches (total + chunk.length + 1)
  if !grown then some (false, b)
  else if total + chunk.length ≤ b.textCap ∧ b.textCap ≤ b.region.len then
    some (true, { b with region := b.region.put total chunk.length fun k => chunk.getD k 0 })
  else none

/-- The reads of the main function up to the end of the file, then `index_lines`. -/
def load (reaches : Nat → Reaches) (b : Buffer) (total : Nat) :
    List (List UInt8) → Option (Bool × Buffer)
  | [] => b.indexLines (reaches 0) total
  | chunk :: chunks => do
    let (grown, b) ← b.take (reaches (chunks.length + 1)) total chunk
    if !grown then some (false, b)
    else b.load reaches (total + chunk.length) chunks

end Buffer

end Zaytos.Zi
