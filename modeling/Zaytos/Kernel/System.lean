import Zaytos.Kernel.Files
import Zaytos.Kernel.Keyboard
import Zaytos.Kernel.Pipe
import Zaytos.Kernel.Scheduler
import Zaytos.Kernel.Socket
import Zaytos.Kernel.Space

set_option autoImplicit false

/-! What descriptors name, and what goes back when a descriptor does. -/
namespace Zaytos.Kernel

structure Objects where
  pipes : Pipes
  sockets : Sockets
  memory : ShmTable

namespace Objects

/-- `release_end`. That the screen goes back to text is not part of this model. -/
def releaseEnd (o : Objects) : File → Objects × List Wait
  | .pipeRead pipe =>
    let out := o.pipes.closeReadEnd pipe
    ({ o with pipes := out.1 }, out.2)
  | .pipeWrite pipe =>
    let out := o.pipes.closeWriteEnd pipe
    ({ o with pipes := out.1 }, out.2)
  | .socket (.stream conn side) =>
    let out := o.sockets.closeEnd conn side
    ({ o with sockets := out.1 }, out.2)
  | .socket (.listener listener) =>
    let out := o.sockets.closeListener listener
    ({ o with sockets := out.1 }, out.2)
  | .shm shm => ({ o with memory := o.memory.detach shm }, [])
  | .socket .unbound | .regular .. | .terminal _ | .input | .screen => (o, [])

/-- The drop of a table: every end it holds is released, in the order of the descriptors. -/
def releaseAll (o : Objects) : List File → Objects × List Wait
  | [] => (o, [])
  | file :: rest =>
    let first := o.releaseEnd file
    let others := first.1.releaseAll rest
    (others.1, first.2 ++ others.2)

end Objects

def File.isPlain : File → Bool
  | .socket .unbound | .regular .. | .terminal _ | .input | .screen => true
  | _ => false

theorem Objects.releaseEnd_plain (o : Objects) {file : File} (plain : file.isPlain = true) :
    o.releaseEnd file = (o, []) := by
  cases file with
  | socket state => cases state <;> first | rfl | cases plain
  | _ => first | rfl | cases plain

end Zaytos.Kernel

/-! The processes, the tasks they run on, and everything they share. -/
namespace Zaytos.Kernel

/-- Tasks that run Ring 3 programs: the shell's, and the one for what it starts detached. -/
abbrev userTaskSlots : Nat := 2

instance : NeZero userTaskSlots := ⟨by decide⟩

/-- How deep `spawn` goes. -/
abbrev maxExcursionDepth : Nat := 2

abbrev Slot := Fin userTaskSlots

abbrev detachedSlot : Slot := 1

/-- Where in user memory `recvmsg` writes the descriptor that came. -/
structure ControlBuffer where
  roomy : Bool
  valid : Bool
  deriving DecidableEq

inductive Loop where
  | pipeRead (pipe want : Nat)
  | pipeWrite (pipe : Nat) (src : List UInt8)
  | socketRead (conn : Nat) (side : Side) (want : Nat)
  | socketWrite (conn : Nat) (side : Side) (src : List UInt8)
  | recvmsg (conn : Nat) (side : Side) (control : ControlBuffer) (count : Nat) (valid : Bool)
  | accept (listener : Nat)
  | poll (reasons : List Wait)
  | terminal (fd want : Nat)
  | input (fd cap : Nat)
  | sleep (deadline : Nat)
  | child (handle : Nat)
  deriving DecidableEq

inductive Doing where
  | user
  | waiting (loop : Loop)
  /-- In `spawn_detached`, until the child has entered Ring 3 or has ended. -/
  | starting (handle : Nat)
  /-- In `spawn`, before the child has its table. -/
  | spawning (piped : Bool)
  /-- In `spawn`, while the child runs. -/
  | parent (piped : Bool)
  /-- Back from `spawn`. -/
  | returning (piped : Bool)
  deriving DecidableEq

structure Process where
  files : FileTable
  doing : Doing
  claimedForeground : Bool
  space : AddressSpace
  heap : Heap

/-- Where the body of the detached task stands (`run_detached_request`). -/
inductive Detached where
  | idle
  | requested
  | spawning
  | parent
  | returning
  deriving DecidableEq

/-- `InheritedEnds`: what the next program to be loaded gets as its 0 and 1. -/
structure InheritedEnds where
  stdin : Option Nat
  stdout : Option Nat
  deriving DecidableEq

structure System where
  processes : Slot → List Process
  tasks : Slot → TaskState
  objects : Objects
  input : Input
  root : Bytes
  us : Bool
  /-- Somebody types: the console's foreground is installed, and no script drives the input. -/
  interactive : Bool
  ticks : Nat
  inherited : Slot → InheritedEnds
  /-- `PENDING_STDIN`. -/
  pendingStdin : Slot → Option Nat
  /-- `DETACHED_REQUEST`, of which only the pipe is looked at here. -/
  request : Option (Option Nat)
  detached : Detached
  /-- `DETACHED_STATUS`: how the child with a handle ended. -/
  status : Option (Nat × Nat)
  /-- `RING3_TASK_GENERATION`. -/
  generation : Nat
  /-- `MMAP_NEXT`. -/
  mmapNext : Slot → Nat
  /-- `SPAWN_QUARANTINE`: frames of the last space that went. Nobody takes them out. -/
  quarantine : Slot → List Nat

inductive Errno where
  | eagain
  | eaddrinuse
  | eafnosupport
  | ebadf
  | ebusy
  | echild
  | econnrefused
  | eexist
  | efault
  | einval
  | eio
  | eisconn
  | eisdir
  | emfile
  | emsgsize
  | enametoolong
  | enobufs
  | enoent
  | enomem
  | enospc
  | enotconn
  | enotdir
  | enotempty
  | enotsock
  | enotty
  | eperm
  | epipe
  | eprotonosupport
  | eacces
  | erofs
  deriving DecidableEq, Repr

/-- What a call returns: a number, bytes in the caller's buffer, or an error. -/
inductive Ret where
  | value (n : Nat)
  | bytes (data : List UInt8)
  | error (errno : Errno)
  deriving DecidableEq

inductive Outcome where
  | done (ret : Ret)
  | waits (set : WaitSet) (loop : Loop)
  | goes (doing : Doing)
  | panics
  deriving DecidableEq

def FileTableError.errno : FileTableError → Errno
  | .noFreeDescriptor => .emfile
  | .badDescriptor _ => .ebadf

namespace System

def init (allocator : FrameAllocator) (root : Bytes) (us : Bool) : System where
  processes _ := []
  tasks slot := if slot = detachedSlot then .uninitialized else .ready
  objects := ⟨fun _ => .empty, .init, ⟨fun _ => .empty, 0, allocator⟩⟩
  input := .init
  root
  us
  interactive := false
  ticks := 0
  inherited _ := ⟨none, none⟩
  pendingStdin _ := none
  request := none
  detached := .idle
  status := none
  generation := 0
  mmapNext _ := mmapBase
  quarantine _ := []

/-- `wake_tasks_waiting_on`, for each of the reasons. -/
def wake (k : System) (reasons : List Wait) : System :=
  { k with tasks := fun slot => reasons.foldl (fun state on => state.wake on) (k.tasks slot) }

def setPipes (k : System) (pipes : Pipes) : System :=
  { k with objects := { k.objects with pipes } }

def setSockets (k : System) (sockets : Sockets) : System :=
  { k with objects := { k.objects with sockets } }

def setMemory (k : System) (memory : ShmTable) : System :=
  { k with objects := { k.objects with memory } }

def setAllocator (k : System) (allocator : FrameAllocator) : System :=
  k.setMemory { k.objects.memory with allocator }

def setInherited (k : System) (slot : Slot) (ends : InheritedEnds) : System :=
  { k with inherited := Function.update k.inherited slot ends }

/-- `release_end`, with whom it wakes. -/
def release (k : System) (file : File) : System :=
  { k with objects := (k.objects.releaseEnd file).1 }.wake (k.objects.releaseEnd file).2

def dropTable (k : System) (t : FileTable) : System :=
  { k with objects := (k.objects.releaseAll t.files).1 }.wake (k.objects.releaseAll t.files).2

def files (k : System) (slot : Slot) : FileTable :=
  match k.processes slot with
  | p :: _ => p.files
  | [] => .new

def onTop (f : Process → Process) : List Process → List Process
  | p :: rest => f p :: rest
  | [] => []

def modifyTop (k : System) (slot : Slot) (f : Process → Process) : System :=
  { k with processes := Function.update k.processes slot (onTop f (k.processes slot)) }

def setFiles (k : System) (slot : Slot) (t : FileTable) : System :=
  k.modifyTop slot fun p => { p with files := t }

def setSpace (k : System) (slot : Slot) (space : AddressSpace) (heap : Heap)
    (allocator : FrameAllocator) : System :=
  (k.modifyTop slot fun p => { p with space, heap }).setAllocator allocator

/-- `SPAWN_QUARANTINE` is emptied, and the frames of a space that goes are put there as far as there
is room. Which of them find none makes no difference: nobody gets any of them again. -/
def retire (k : System) (slot : Slot) (space : AddressSpace) : System :=
  { k with quarantine := Function.update k.quarantine slot (space.detach.take quarantineCapacity) }

def insertFile (k : System) (slot : Slot) (file : File) : Except Errno (Nat × System) :=
  match (k.files slot).insert file with
  | .ok (fd, t) => .ok (fd, k.setFiles slot t)
  | .error error => .error error.errno

def replaceFile (k : System) (slot : Slot) (fd : Nat) (file : File) : System :=
  let out := (k.files slot).replace fd file
  match out.1 with
  | some previous => (k.setFiles slot out.2).release previous
  | none => k.setFiles slot out.2

def socketStateOf (k : System) (slot : Slot) (fd : Nat) : Except Errno SocketState :=
  match (k.files slot).get fd with
  | .ok file =>
    match file.socketState with
    | some state => .ok state
    | none => .error .enotsock
  | .error error => .error error.errno

def shmOf (k : System) (slot : Slot) (fd : Nat) : Except Errno Nat :=
  match (k.files slot).get fd with
  | .ok file =>
    match file.shmIndex with
    | some shm => .ok shm
    | none => .error .ebadf
  | .error _ => .error .ebadf

def handleIsCurrent (k : System) (handle : Nat) : Bool := handle == Scheduler.ring3TaskHandle k.generation

/-- What the task of a slot does once a call of its program leaves the kernel. -/
def leave (k : System) (slot : Slot) : Outcome → Option System
  | .done _ => some (k.modifyTop slot fun p => { p with doing := .user })
  | .waits set loop =>
    some { k.modifyTop slot fun p => { p with doing := .waiting loop } with
      tasks := Function.update k.tasks slot (.waiting set) }
  | .goes doing => some (k.modifyTop slot fun p => { p with doing })
  | .panics => none

end System

end Zaytos.Kernel
