import Zaytos.Kernel.PageTables
import Zaytos.Kernel.Space
import Zaytos.Loader.Elf
import Zaytos.Loader.InitialStack

set_option autoImplicit false

/-! The loader of programs: the segments of a file are mapped into a new address space, and then a
page for the stack. -/
namespace Zaytos.Loader

open Kernel (AddressSpace FrameAllocator Heap isCanonical pageSize pagesPerTopEntry
  userProgramStackTop)
open Kernel.Paging (AddressSpaceError PagePermissions)

abbrev maxArgv : Nat := 8
abbrev maxEnvp : Nat := 8
abbrev userStackFill : UInt8 := 0xA5

abbrev maxMapped : Nat := 8

/-- What `load_user_program_into` fails with. -/
inductive UserLoadError where
  | argumentsTooLong
  | parse (e : ElfError)
  | layout (e : LayoutError)
  | segmentData (e : ElfError)
  | outOfFrames
  | notCanonical (virt : Nat)
  | mapping (virt : Nat) (error : AddressSpaceError)
  | leafFlags (count : Nat)
  deriving DecidableEq, Repr

/-- What the loader works on: the process, the allocator, and the memory behind them. -/
structure LoadState where
  space : AddressSpace
  heap : Heap
  stackTop : Nat
  entry : Nat
  allocator : FrameAllocator
  memory : Nat → Bytes
  permissions : List (Nat × PagePermissions)
  mapped : List (Nat × Bool)

abbrev Loading := Exec LoadState UserLoadError

/-- `write_bytes`: a page that has one byte everywhere. -/
def pageOf (byte : UInt8) : Bytes := ⟨pageSize, fun _ => byte⟩

def freshFrame : Loading Nat := fun s =>
  match s.allocator.allocateFrame with
  | (none, a) => .err .outOfFrames { s with allocator := a }
  | (some frame, a) =>
    .ok frame { s with allocator := a, memory := Function.update s.memory frame (pageOf 0) }

def writeFrame (frame : Nat) (f : Bytes → Bytes) : Loading Unit := fun s =>
  .ok () { s with memory := Function.update s.memory frame (f (s.memory frame)) }

def giveBack (frame : Nat) : Loading Unit := fun s =>
  .ok () { s with allocator := s.allocator.deallocateFrame frame }

/-- `map_user_4kib` of the page at an address. What goes wrong is given back as a value. -/
def mapUser4kib (virt frame : Nat) (p : PagePermissions) : Loading (Option AddressSpaceError) :=
  fun s =>
    let page := virt / pageSize
    if page / pagesPerTopEntry ≠ 0 then .ok (some .notPrivate) s
    else if p.user = false then .ok (some .notForUser) s
    else if p.writableAndExecutable then .ok (some .writableAndExecutable) s
    else
      let out := s.space.mapPage s.allocator page ⟨frame, false⟩
      if out.1 then
        .ok none { s with
          space := out.2.1, allocator := out.2.2, permissions := (page, p) :: s.permissions }
      else
        .ok (some (if (out.2.1.leaf page).isSome then .alreadyMapped else .outOfFrames))
          { s with space := out.2.1, allocator := out.2.2 }

def noteMapped (virt : Nat) (writable : Bool) : Loading Unit := fun s =>
  .ok () { s with mapped :=
    if s.mapped.length < maxMapped then s.mapped ++ [(virt, writable)] else s.mapped }

def copySegment (ph : ProgramHeader) (file : Bytes) (page : Nat) (target : Bytes) : Bytes :=
  let pageStartInSegment := page - ph.pVaddr
  let offsetInPage := ph.pVaddr - page
  if pageStartInSegment < ph.pFilesz then
    let count := min (ph.pFilesz - pageStartInSegment) (pageSize - offsetInPage)
    target.put offsetInPage count fun k => file.get (pageStartInSegment + k)
  else target

def segmentPermissions (ph : ProgramHeader) : PagePermissions :=
  .userProgram (ph.pFlags &&& pfW ≠ 0) (ph.pFlags &&& pfX ≠ 0)

/-- A round of the loop over the pages of a segment, for a page that no other segment has. -/
def loadPage (ph : ProgramHeader) (file : Bytes) (page : Nat) : Loading Unit := do
  let frame ← freshFrame
  writeFrame frame (copySegment ph file page)
  Exec.rejectIf (isCanonical page = false) (.notCanonical page)
  let refused ← mapUser4kib page frame (segmentPermissions ph)
  match refused with
  | some error => do
    giveBack frame
    Exec.fail (.mapping page error)
  | none => noteMapped page (segmentPermissions ph).write

/-- The loop over the pages of a segment. The first one may be the last one of the segment before,
which ends in front of this one. -/
def loadPages (ph : ProgramHeader) (file : Bytes) (previousLast : Option Nat) (previousEnd : Nat)
    (page : Nat) : Nat → Loading Unit
  | 0 => pure ()
  | count + 1 => do
    if previousLast = some page ∧ page = pageStart ph.pVaddr ∧ previousEnd ≤ ph.pVaddr then pure ()
    else loadPage ph file page
    let next ← liftM (add64 page pageSize)
    loadPages ph file previousLast previousEnd next count

def loadSegmentsOf (elf : Elf) (previousLast : Option Nat) (previousEnd : Nat) :
    List ProgramHeader → Loading Nat
  | [] => pure previousEnd
  | ph :: rest => do
    let past ← liftM (add64 ph.pVaddr ph.pMemsz)
    let last ← liftM (sub past 1)
    let file ← Exec.read fun _ => (elf.segmentData ph).mapErr .segmentData
    let count := (pageStart last - pageStart ph.pVaddr) / pageSize + 1
    loadPages ph file previousLast previousEnd (pageStart ph.pVaddr) count
    loadSegmentsOf elf (some (pageStart last)) past rest

/-- `build_initial_stack` on the frame of the stack. What is below the table is filled. -/
def buildStack (frame : Nat) (argv envp : List (List UInt8)) : Loading Unit := fun s =>
  if maxArgv < argv.length ∨ maxEnvp < envp.length then .err .argumentsTooLong s
  else
    let stackPage := userProgramStackTop - pageSize
    match buildInitialStack stackPage argv envp (s.memory frame) with
    | .fault => .fault
    | .err _ page => .err .argumentsTooLong { s with memory := Function.update s.memory frame page }
    | .ok sp page =>
      let unused := pageSize - (userProgramStackTop - sp)
      .ok () { s with
        stackTop := sp
        memory := Function.update s.memory frame (page.put 0 unused fun _ => userStackFill) }

def loadStack (argv envp : List (List UInt8)) : Loading Unit := do
  let stackPage := userProgramStackTop - pageSize
  let frame ← freshFrame
  Exec.rejectIf (isCanonical stackPage = false) (.notCanonical stackPage)
  let refused ← mapUser4kib stackPage frame .userData
  match refused with
  | some error => Exec.fail (.mapping stackPage error)
  | none => do
    noteMapped stackPage true
    buildStack frame argv envp

def LoadState.mismatches (s : LoadState) (entry : Nat × Bool) : Bool :=
  let page := entry.1 / pageSize
  match s.space.leaf page, s.permissions.lookup page with
  | some _, some p => p.write != entry.2 || !p.user
  | _, _ => true

def readBack : Loading Unit := fun s =>
  let count := s.mapped.countP s.mismatches
  if count ≠ 0 then .err (.leafFlags count) s else .ok () s

def setHeap (imageEnd : Nat) : Loading Unit := fun s =>
  .ok () { s with heap := .fromImageEnd imageEnd }

def setEntry (entry : Nat) : Loading Unit := fun s => .ok () { s with entry := entry }

def loadUserProgramInto (image : Bytes) (argv envp : List (List UInt8)) : Loading Unit := do
  let elf ← Exec.read fun _ => (Elf.parse image).mapErr .parse
  let segments ← Exec.read fun _ => elf.loadSegments.mapErr .parse
  Exec.read fun _ => (checkLoadLayout segments).mapErr .layout
  let past ← loadSegmentsOf elf none 0 segments
  setHeap past
  loadStack argv envp
  readBack
  setEntry elf.entryPoint

end Zaytos.Loader
