import Zaytos.Kernel.Ring
import Zaytos.Kernel.Wait
import Zaytos.Lib.Transition

set_option autoImplicit false

/-! Pipes: one way for bytes, a table of one, and who holds the ends. -/
namespace Zaytos.Kernel

abbrev pipeRing : Nat := 256

abbrev maxPipes : Nat := 1

structure Pipe where
  ring : Ring pipeRing
  readers : Nat
  writers : Nat
  reservedReader : Bool
  inUse : Bool

namespace Pipe

def empty : Pipe := ⟨.empty (by decide), 0, 0, false, false⟩

def releaseIfUnused (p : Pipe) : Pipe :=
  if p.readers = 0 ∧ p.writers = 0 ∧ p.reservedReader = false then empty else p

end Pipe

/-- The table `PIPES`. Only the indices below `maxPipes` are looked at. -/
abbrev Pipes := Nat → Pipe

inductive PipeRead where
  | bytes (data : List UInt8)
  | eof
  | empty
  deriving DecidableEq, Repr

inductive PipeWrite where
  | bytes (count : Nat)
  | full
  | noReader
  deriving DecidableEq, Repr

namespace Pipes

/-- `create`: the new pipe has one write end. -/
def create (pipes : Pipes) (reserveReader : Bool) : Option (Nat × Pipes) :=
  ((List.range maxPipes).find? fun index => !(pipes index).inUse).map fun index =>
    (index, Function.update pipes index
      { Pipe.empty with inUse := true, writers := 1, reservedReader := reserveReader })

def claimReservedReader (pipes : Pipes) (pipe : Nat) : Bool × Pipes :=
  if pipe < maxPipes ∧ (pipes pipe).inUse = true ∧ (pipes pipe).reservedReader = true then
    (true, Function.update pipes pipe
      { pipes pipe with reservedReader := false, readers := min 255 ((pipes pipe).readers + 1) })
  else (false, pipes)

/-- `drop_reservation`, and whom it wakes. -/
def dropReservation (pipes : Pipes) (pipe : Nat) : Bool × Pipes × List Wait :=
  if pipe < maxPipes ∧ (pipes pipe).inUse = true ∧ (pipes pipe).reservedReader = true then
    (true, Function.update pipes pipe
      ({ pipes pipe with reservedReader := false } : Pipe).releaseIfUnused, [.pipeWritable pipe])
  else (false, pipes, [])

/-- `read_into` a buffer of `want` bytes. -/
def readInto (pipes : Pipes) (pipe want : Nat) : PipeRead × Pipes × List Wait :=
  if pipe < maxPipes then
    if (pipes pipe).ring.isEmpty then
      (if (pipes pipe).writers = 0 then .eof else .empty, pipes, [])
    else
      let out := (pipes pipe).ring.take want
      (.bytes out.1, Function.update pipes pipe { pipes pipe with ring := out.2 },
        [.pipeWritable pipe])
  else (.eof, pipes, [])

def writeFrom (pipes : Pipes) (pipe : Nat) (src : List UInt8) : PipeWrite × Pipes × List Wait :=
  if pipe < maxPipes then
    if (pipes pipe).readers = 0 ∧ (pipes pipe).reservedReader = false then (.noReader, pipes, [])
    else
      let out := (pipes pipe).ring.put src
      let pipes := Function.update pipes pipe { pipes pipe with ring := out.2 }
      if out.1 = 0 then (.full, pipes, []) else (.bytes out.1, pipes, [.pipeReadable pipe])
  else (.noReader, pipes, [])

def closeReadEnd (pipes : Pipes) (pipe : Nat) : Pipes × List Wait :=
  if pipe < maxPipes ∧ (pipes pipe).inUse = true ∧ (pipes pipe).readers ≠ 0 then
    let left : Pipe := { pipes pipe with readers := (pipes pipe).readers - 1 }
    (Function.update pipes pipe left.releaseIfUnused,
      if left.readers = 0 then [.pipeWritable pipe] else [])
  else (pipes, [])

def closeWriteEnd (pipes : Pipes) (pipe : Nat) : Pipes × List Wait :=
  if pipe < maxPipes ∧ (pipes pipe).inUse = true ∧ (pipes pipe).writers ≠ 0 then
    let left : Pipe := { pipes pipe with writers := (pipes pipe).writers - 1 }
    (Function.update pipes pipe left.releaseIfUnused,
      if left.writers = 0 then [.pipeReadable pipe] else [])
  else (pipes, [])

end Pipes

end Zaytos.Kernel
