import Zaytos.Kernel.HeapPlan
import Zaytos.Lib.Threaded
import Zaytos.Lib.Transition

set_option autoImplicit false

/-! The kernel's heap.

Its free blocks form a list threaded through the memory that it hands out, and a header in
front of each allocation says which block to give back. An operation has no outcome where the
kernel panics: on an overflow, on a request for nothing, on a header that is not the expected
one, and, for a list that leads back to itself, where a walk does not end. -/
namespace Zaytos.Kernel

/-- `Layout`: a size and an alignment that is a power of two. -/
structure Layout where
  size : Nat
  align : Nat
  sizeFits : size < 2 ^ 64
  powerOfTwo : ∃ k < 64, align = 2 ^ k
  deriving DecidableEq

namespace Heap

/-- `size_of::<FreeBlockNode>()`. -/
abbrev minBlockSize : Nat := 16

/-- `size_of::<AllocatedBlockHeader>()`. -/
abbrev headerSize : Nat := 32

abbrev headerAlign : Nat := 8
abbrev headerMagic : Nat := 0x5A65696B48454144

structure FreeBlockNode where
  size : Nat
  next : Option Nat
  deriving DecidableEq, Repr

structure AllocatedBlockHeader where
  magic : Nat
  blockStart : Nat
  blockSize : Nat
  requestedSize : Nat
  deriving DecidableEq, Repr

def readNode (m : Bytes) (a : Nat) : FreeBlockNode := ⟨m.u64 a, nonNull (m.u64 (a + 8))⟩

def writeNode (m : Bytes) (a : Nat) (node : FreeBlockNode) : Bytes :=
  (m.putU64 a node.size).putU64 (a + 8) (addressOf node.next)

def readHeader (m : Bytes) (a : Nat) : AllocatedBlockHeader :=
  ⟨m.u64 a, m.u64 (a + 8), m.u64 (a + 16), m.u64 (a + 24)⟩

def writeHeader (m : Bytes) (a : Nat) (header : AllocatedBlockHeader) : Bytes :=
  (((m.putU64 a header.magic).putU64 (a + 8) header.blockStart).putU64 (a + 16)
    header.blockSize).putU64 (a + 24) header.requestedSize

structure HeapState where
  memory : Bytes
  freeListHead : Option Nat

structure Block where
  start : Nat
  size : Nat
  deriving DecidableEq, Repr

instance : Extent Block := ⟨Block.start, fun b => b.start + b.size⟩

/-- A walk that takes more steps than there are addresses goes round in a circle. -/
abbrev walkBound : Nat := 2 ^ 64

def walk (m : Bytes) : Nat → Option Nat → Option (List Block)
  | 0, _ => none
  | _ + 1, none => some []
  | fuel + 1, some node => do
    let rest ← walk m fuel (readNode m node).next
    return ⟨node, (readNode m node).size⟩ :: rest

namespace HeapState

variable (s : HeapState)

def freeBlocks : Option (List Block) := walk s.memory walkBound s.freeListHead

def freeBytes : Option Nat := do
  let blocks ← s.freeBlocks
  blocks.foldlM (fun total b => add64 total b.size) 0

def freeBlockCount : Option Nat := do
  let blocks ← s.freeBlocks
  blocks.foldlM (fun count _ => add64 count 1) 0

/-- Where the node `prev`, or the head of the list where there is none, leads. -/
def setNext (prev next : Option Nat) : HeapState :=
  match prev with
  | some p => { s with memory := s.memory.putU64 (p + 8) (addressOf next) }
  | none => { s with freeListHead := next }

def consumeNode (prev next : Option Nat) (plan : AllocPlan) : HeapState :=
  match plan.trailingSplit with
  | some (start, size) =>
    setNext { s with memory := writeNode s.memory start ⟨size, next⟩ } prev (nonNull start)
  | none => s.setNext prev next

end HeapState

def init (m : Bytes) (start size : Nat) : HeapState := ⟨writeNode m start ⟨size, none⟩, nonNull start⟩

/-- What the loop of `alloc` finds. -/
structure Found where
  prev : Option Nat
  next : Option Nat
  plan : AllocPlan
  deriving DecidableEq, Repr

/-- The loop of `alloc`. -/
def findRegion (m : Bytes) (layout : Layout) : Nat → Option Nat → Option Nat → Result Unit Found
  | 0, _, _ => .fault
  | _ + 1, _, none => .err ()
  | fuel + 1, prev, some regionStart => do
    let node := readNode m regionStart
    let regionEnd ← add64 regionStart node.size
    match planAllocation regionStart regionEnd headerSize headerAlign layout.size layout.align
        minBlockSize with
    | .fault => .fault
    | .ok plan => return ⟨prev, node.next, plan⟩
    | .err () => findRegion m layout fuel (some regionStart) node.next

/-- `alloc`: an address, or null. -/
def alloc (s : HeapState) (layout : Layout) : Option (Option Nat × HeapState) :=
  if layout.size = 0 then none
  else
    match findRegion s.memory layout walkBound none s.freeListHead with
    | .fault => none
    | .err () => do
      -- The message of the failure reads the list.
      let _ ← s.freeBytes
      let _ ← s.freeBlockCount
      return (none, s)
    | .ok found =>
      let s := s.consumeNode found.prev found.next found.plan
      let header := ⟨headerMagic, found.plan.blockStart, found.plan.blockSize, layout.size⟩
      some (some found.plan.userAddr,
        { s with memory := writeHeader s.memory found.plan.headerAddr header })

/-- The loop of `dealloc`: the nodes around a block. -/
def insertPosition (m : Bytes) (blockStart : Nat) :
    Nat → Option Nat → Option Nat → Option (Option Nat × Option Nat)
  | 0, _, _ => none
  | _ + 1, prev, none => some (prev, none)
  | fuel + 1, prev, some node =>
    if blockStart < node then some (prev, some node)
    else insertPosition m blockStart fuel (some node) (readNode m node).next

/-- `write_bytes(block_start, 0xDE, block_size)`, of a build that poisons what is freed. -/
def fill (poison : Bool) (m : Bytes) (start size : Nat) : Bytes :=
  if poison then m.put start size fun _ => 0xDE else m

/-- The block joined with the node behind it, where they touch: its start, its size and the node
that comes next. -/
def mergeNext (m : Bytes) (blockStart blockSize : Nat) (next : Option Nat) :
    Option (Nat × Nat × Option Nat) :=
  match next with
  | some nextStart => do
    let merged ← mergeAdjacent blockStart blockSize nextStart (readNode m nextStart).size
    match merged with
    | some (start, size) => return (start, size, (readNode m nextStart).next)
    | none => return (blockStart, blockSize, next)
  | none => some (blockStart, blockSize, none)

/-- The end of `dealloc`: the block joined with the node before it, or linked behind it. -/
def linkBlock (s : HeapState) (prev : Option Nat) (start size : Nat) (next : Option Nat) :
    Option HeapState :=
  match prev with
  | some prevStart => do
    let merged ← mergeAdjacent prevStart (readNode s.memory prevStart).size start size
    match merged with
    | some (_, size) => return { s with memory := writeNode s.memory prevStart ⟨size, next⟩ }
    | none => return s.setNext prev (some start)
  | none => some { s with freeListHead := some start }

def dealloc (poison : Bool) (s : HeapState) (ptr : Nat) (layout : Layout) : Option HeapState := do
  let headerPtr ← sub ptr headerSize
  let header := readHeader s.memory headerPtr
  if header.magic ≠ headerMagic then none
  else if header.requestedSize ≠ layout.size then none
  else
    let (prev, next) ← insertPosition s.memory header.blockStart walkBound none s.freeListHead
    let m := fill poison s.memory header.blockStart header.blockSize
    let (start, size, next) ← mergeNext m header.blockStart header.blockSize next
    -- A node at zero panics.
    let _ ← nonNull start
    linkBlock { s with memory := writeNode m start ⟨size, next⟩ } prev start size next

structure Live where
  ptr : Nat
  layout : Layout
  deriving DecidableEq

structure World where
  heap : HeapState
  live : List Live

def World.block (w : World) (p : Live) : Block :=
  let header := readHeader w.heap.memory (p.ptr - headerSize)
  ⟨header.blockStart, header.blockSize⟩

inductive Event where
  | alloc (layout : Layout)
  | dealloc (p : Live)
  -- A holder writes a byte of what it holds.
  | store (p : Live) (offset : Nat) (byte : UInt8)

def step (poison : Bool) (w : World) : Event → Option World
  | .alloc layout => do
    let (ptr, heap) ← alloc w.heap layout
    match ptr with
    | some ptr => return ⟨heap, ⟨ptr, layout⟩ :: w.live⟩
    | none => return ⟨heap, w.live⟩
  | .dealloc p =>
    if p ∈ w.live then do
      let heap ← dealloc poison w.heap p.ptr p.layout
      return ⟨heap, w.live.erase p⟩
    else none
  | .store p offset byte =>
    if p ∈ w.live ∧ offset < p.layout.size then
      some { w with heap.memory := w.heap.memory.put (p.ptr + offset) 1 fun _ => byte }
    else none

/-- The heap as `init` leaves it. -/
def World.boot (m : Bytes) (start size : Nat) : World := ⟨init m start size, []⟩

end Heap

end Zaytos.Kernel

/-! What the operations of the heap do to a memory that is cut into free and used pieces. -/
namespace Zaytos.Kernel.Heap

open Extent Threaded

structure Piece where
  start : Nat
  size : Nat
  use : Option Live
  deriving DecidableEq

namespace Piece

instance : Extent Piece := ⟨Piece.start, fun x => x.start + x.size⟩

def isFree (x : Piece) : Bool := x.use.isNone

def block (x : Piece) : Block := ⟨x.start, x.size⟩

@[simp] theorem lo_eq (x : Piece) : lo x = x.start := rfl

@[simp] theorem hi_eq (x : Piece) : hi x = x.start + x.size := rfl

/-- Pieces are whole words and have room for a node, and an allocation lies behind its header. -/
structure Sound (x : Piece) : Prop where
  start : 8 ∣ x.start
  size : 8 ∣ x.size
  large : 16 ≤ x.size
  placed : ∀ p ∈ x.use, p.layout.align ∣ p.ptr ∧ 8 ∣ p.ptr ∧ x.start + 32 ≤ p.ptr ∧
    p.ptr + p.layout.size ≤ x.start + x.size

def Holds (m : Bytes) (x : Piece) : Prop :=
  ∀ p ∈ x.use, readHeader m (p.ptr - headerSize) = ⟨headerMagic, x.start, x.size, p.layout.size⟩

end Piece

variable {m m' : Bytes} {x : Piece} {pieces before after : List Piece} {head tail : Option Nat}

variable {a start size pos n fuel : Nat} {l : List Piece} {prev : Option Nat}

theorem readHeader_writeHeader {magic requested : Nat} (h₁ : magic < 2 ^ 64)
    (h₂ : start < 2 ^ 64) (h₃ : size < 2 ^ 64) (h₄ : requested < 2 ^ 64) :
    readHeader (writeHeader m a ⟨magic, start, size, requested⟩) a =
      ⟨magic, start, size, requested⟩ := by
  unfold readHeader writeHeader
  simp (disch := omega) only [Bytes.u64_putU64_outside, Bytes.u64_putU64, Nat.mod_eq_of_lt]

theorem writeHeader_sameOn {header : AllocatedBlockHeader}
    (apart : pos + n ≤ a ∨ a + 32 ≤ pos) : m.SameOn (writeHeader m a header) pos n := by
  refine (((Bytes.put_sameOn _ ?_).trans (Bytes.put_sameOn _ ?_)).trans
    (Bytes.put_sameOn _ ?_)).trans (Bytes.put_sameOn _ ?_) <;> omega

theorem writeNode_sameOn {node : FreeBlockNode}
    (apart : pos + n ≤ a ∨ a + 16 ≤ pos) : m.SameOn (writeNode m a node) pos n := by
  refine (Bytes.put_sameOn _ ?_).trans (Bytes.put_sameOn _ ?_) <;> omega

theorem fill_sameOn {poison : Bool}
    (apart : pos + n ≤ start ∨ start + size ≤ pos) : m.SameOn (fill poison m start size) pos n := by
  unfold fill
  split
  · exact Bytes.put_sameOn _ apart
  · exact .refl m pos n

theorem Piece.Holds.frame (holds : x.Holds m) (sound : x.Sound)
    (same : m.SameOn m' x.start x.size) : x.Holds m' := by
  intro p used
  obtain ⟨_, _, behind, inside⟩ := sound.placed p used
  rw [← holds p used]
  dsimp only [readHeader, headerSize]
  rw [same.u64 (by omega) (by omega), same.u64 (by omega) (by omega),
    same.u64 (by omega) (by omega), same.u64 (by omega) (by omega)]

theorem walk_eq (list : Segment m head l none)
    (long : l.length < fuel) : walk m fuel head = some (l.map Piece.block) := by
  induction l generalizing head fuel with
  | nil =>
    obtain ⟨fuel, rfl⟩ : ∃ n, fuel = n + 1 := ⟨fuel - 1, by omega⟩
    have ends : head = none := list
    subst ends
    rfl
  | cons x l ih =>
    rw [List.length_cons] at long
    obtain ⟨fuel, rfl⟩ : ∃ n, fuel = n + 1 := ⟨fuel - 1, by omega⟩
    obtain ⟨rfl, size, rest⟩ := list
    have size : m.u64 x.start = x.size := by
      simp only [Piece.lo_eq, Piece.hi_eq] at size
      omega
    rw [walk]
    simp only [readNode]
    rw [ih rest (by omega)]
    simp only [Piece.lo_eq, size]
    rfl

theorem setNext_segment {s : HeapState} {next : Option Nat}
    (list : Segment s.memory s.freeListHead before tail) (tidy : Tidy before)
    (sound : ∀ y ∈ before, y.Sound) (fits : Addressable next) :
    Segment (s.setNext (before.getLast?.map lo) next).memory
      (s.setNext (before.getLast?.map lo) next).freeListHead before next ∧
    ∀ pos n, (∀ y ∈ before, pos + n ≤ lo y ∨ hi y ≤ pos) →
      s.memory.SameOn (s.setNext (before.getLast?.map lo) next).memory pos n := by
  rcases List.eq_nil_or_concat before with rfl | ⟨front, x, rfl⟩
  · exact ⟨rfl, fun pos n _ => .refl s.memory pos n⟩
  · rw [List.concat_eq_append] at *
    have last : (front ++ [x]).getLast?.map lo = some x.start := by simp
    rw [last]
    refine ⟨list.relink tidy (fun y mem => ?_) fits, fun pos n clear => ?_⟩
    · have := (sound y mem).large
      simp only [Piece.lo_eq, Piece.hi_eq]
      omega
    · have wide := (sound x (by simp)).large
      have := clear x (by simp)
      simp only [Piece.lo_eq, Piece.hi_eq] at this
      exact Bytes.put_sameOn _ (by omega)

theorem last_cons :
    ((x :: before).getLast?.map lo).or prev = (before.getLast?.map lo).or (some (lo x)) := by
  rw [List.getLast?_cons]
  cases before.getLast? <;> rfl

theorem findRegion_ok {layout : Layout} {found : Found} (list : Segment m head l none)
    (find : findRegion m layout fuel prev head = .ok found) :
    ∃ before x after, l = before ++ x :: after ∧ found.prev = (before.getLast?.map lo).or prev ∧
      Segment m found.next after none ∧
      planAllocation x.start (x.start + x.size) headerSize headerAlign layout.size layout.align
        minBlockSize = .ok found.plan := by
  induction l generalizing head fuel prev with
  | nil =>
    have ends : head = none := list
    subst ends
    cases fuel <;> cases find
  | cons x l ih =>
    obtain ⟨rfl, size, rest⟩ := list
    have size : m.u64 x.start = x.size := by
      simp only [Piece.lo_eq, Piece.hi_eq] at size
      omega
    cases fuel with
    | zero => cases find
    | succ fuel =>
      simp only [findRegion, readNode, Piece.lo_eq, size] at find
      rw [Result.bind_eq_ok] at find
      obtain ⟨regionEnd, sum, find⟩ := find
      obtain ⟨_, rfl⟩ := add64_eq_some.mp (Result.lift_eq_ok.mp sum)
      split at find
      · cases find
      · rename_i plan fits
        cases find
        exact ⟨[], x, l, rfl, rfl, rest, fits⟩
      · obtain ⟨before, y, after, rfl, prevEq, nextList, fits⟩ := ih rest find
        refine ⟨x :: before, y, after, rfl, ?_, nextList, fits⟩
        rw [prevEq, last_cons]
        rfl

theorem insertPosition_eq {blockStart : Nat}
    (list : Segment m head (before ++ after) none) (low : ∀ y ∈ before, y.start ≤ blockStart)
    (high : ∀ y ∈ after, blockStart < y.start) (long : before.length < fuel) :
    insertPosition m blockStart fuel prev head =
      some ((before.getLast?.map lo).or prev, after.head?.map lo) := by
  induction before generalizing head fuel prev with
  | nil =>
    rw [List.length_nil] at long
    obtain ⟨fuel, rfl⟩ : ∃ n, fuel = n + 1 := ⟨fuel - 1, by omega⟩
    cases after with
    | nil =>
      have ends : head = none := list
      subst ends
      rfl
    | cons x after =>
      obtain ⟨rfl, _, _⟩ := list
      have := high x List.mem_cons_self
      rw [insertPosition, Piece.lo_eq, if_pos this]
      rfl
  | cons x before ih =>
    rw [List.length_cons] at long
    obtain ⟨fuel, rfl⟩ : ∃ n, fuel = n + 1 := ⟨fuel - 1, by omega⟩
    obtain ⟨rfl, _, rest⟩ := list
    have := low x List.mem_cons_self
    have onward : insertPosition m blockStart fuel (some x.start) (readNode m x.start).next = _ :=
      ih rest (fun y mem => low y (List.mem_cons_of_mem x mem)) (by omega)
    rw [insertPosition, Piece.lo_eq, if_neg (by omega), onward, last_cons]
    rfl

end Zaytos.Kernel.Heap
