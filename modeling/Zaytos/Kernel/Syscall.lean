import Zaytos.Ext2.Reader
import Zaytos.Kernel.System

set_option autoImplicit false

/-! The calls a program makes. What a call finds in user memory is given with it: whether a
buffer may be written, the bytes of a buffer that is read (none when the kernel cannot reach
them), or the error that reading its arguments ends in. -/
namespace Zaytos.Kernel

abbrev afUnix : Nat := 1

abbrev sockStream : Nat := 1

abbrev pollin : Nat := 1

abbrev terminalReadMax : Nat := 64

abbrev inputReadMax : Nat := 96

abbrev timerFrequencyHz : Nat := 100

abbrev detachedStdoutToPipe : Nat := 1

/-- The message of `sendmsg` and `recvmsg`, as `read_msghdr` finds it. -/
structure Message where
  count : Nat
  bytes : List UInt8
  valid : Bool
  controlFd : Option Nat
  control : ControlBuffer

structure PollFd where
  fd : Int
  events : Nat

def errnoForExt2 : Fs.Ext2Error → Errno
  | .notADirectory _ => .enotdir
  | .notFound => .enoent
  | .pathNotAbsolute => .einval
  | .pathTooManyComponents _ => .enametoolong
  | _ => .eio

namespace System

variable (k : System) (slot : Slot)

section Pipe

/-- A round of `read_from_pipe`. -/
def pipeReadLoop (pipe want : Nat) : Outcome × System :=
  let out := k.objects.pipes.readInto pipe want
  ((match out.1 with
    | .bytes data => .done (.bytes data)
    | .eof => .done (.value 0)
    | .empty => .waits (.single (.pipeReadable pipe)) (.pipeRead pipe want)),
    (k.setPipes out.2.1).wake out.2.2)

def readFromPipe (pipe count : Nat) (valid : Bool) : Outcome × System :=
  if count = 0 then (.done (.value 0), k)
  else if valid then k.pipeReadLoop pipe (min count pipeRing)
  else (.done (.error .efault), k)

/-- A round of `write_to_pipe`. -/
def pipeWriteLoop (pipe : Nat) (src : List UInt8) : Outcome × System :=
  let out := k.objects.pipes.writeFrom pipe src
  ((match out.1 with
    | .bytes count => .done (.value count)
    | .noReader => .done (.error .epipe)
    | .full => .waits (.single (.pipeWritable pipe)) (.pipeWrite pipe src)),
    (k.setPipes out.2.1).wake out.2.2)

def writeToPipe (pipe count : Nat) (bytes : List UInt8) : Outcome × System :=
  if count = 0 then (.done (.value 0), k)
  else if (bytes.take pipeRing).isEmpty then (.done (.error .efault), k)
  else k.pipeWriteLoop pipe (bytes.take pipeRing)

end Pipe

section Socket

/-- A round of `read_from_socket`. -/
def socketReadLoop (conn : Nat) (side : Side) (want : Nat) : Outcome × System :=
  let out := k.objects.sockets.readInto conn side want
  ((match out.1 with
    | .bytes data => .done (.bytes data)
    | .eof => .done (.value 0)
    | .noConnection => .done (.error .enotconn)
    | .empty => .waits (.single (.socketReadable conn side)) (.socketRead conn side want)),
    (k.setSockets out.2.1).wake out.2.2)

def readFromSocket (conn : Nat) (side : Side) (count : Nat) (valid : Bool) : Outcome × System :=
  if count = 0 then (.done (.value 0), k)
  else if valid then k.socketReadLoop conn side (min count socketRing)
  else (.done (.error .efault), k)

/-- A round of `write_to_socket`. -/
def socketWriteLoop (conn : Nat) (side : Side) (src : List UInt8) : Outcome × System :=
  let out := k.objects.sockets.writeFrom conn side src
  ((match out.1 with
    | .bytes count => .done (.value count)
    | .peerClosed => .done (.error .epipe)
    | .noConnection => .done (.error .enotconn)
    | .full => .waits (.single (.socketWritable conn side)) (.socketWrite conn side src)),
    (k.setSockets out.2.1).wake out.2.2)

def writeToSocket (conn : Nat) (side : Side) (count : Nat) (bytes : List UInt8) :
    Outcome × System :=
  if count = 0 then (.done (.value 0), k)
  else if (bytes.take socketRing).isEmpty then (.done (.error .efault), k)
  else k.socketWriteLoop conn side (bytes.take socketRing)

def socketFromRing3 (domain kind protocol : Nat) : Outcome × System :=
  if domain ≠ afUnix then (.done (.error .eafnosupport), k)
  else if kind ≠ sockStream then (.done (.error .einval), k)
  else if protocol ≠ 0 then (.done (.error .eprotonosupport), k)
  else
    match k.insertFile slot (.socket .unbound) with
    | .ok (fd, k) => (.done (.value fd), k)
    | .error errno => (.done (.error errno), k)

def bindFromRing3 (fd : Nat) (name : Except Errno (List UInt8)) : Outcome × System :=
  match k.socketStateOf slot fd with
  | .ok .unbound =>
    match name with
    | .error errno => (.done (.error errno), k)
    | .ok name =>
      match k.objects.sockets.bind name with
      | (.bound listener, sockets) =>
        (.done (.value 0), (k.setSockets sockets).replaceFile slot fd (.socket (.listener listener)))
      | (.nameTaken, _) => (.done (.error .eaddrinuse), k)
      | (.noRoom, _) => (.done (.error .enobufs), k)
  | .ok _ => (.done (.error .einval), k)
  | .error errno => (.done (.error errno), k)

def listenFromRing3 (fd : Nat) : Outcome × System :=
  match k.socketStateOf slot fd with
  | .ok (.listener listener) =>
    match k.objects.sockets.listen listener with
    | (true, sockets) => (.done (.value 0), k.setSockets sockets)
    | (false, _) => (.done (.error .einval), k)
  | .ok _ => (.done (.error .einval), k)
  | .error errno => (.done (.error errno), k)

/-- A round of `accept_from_ring3`. When the table is full, the server end is closed. -/
def acceptLoop (listener : Nat) : Outcome × System :=
  match k.objects.sockets.accept listener with
  | (.connection conn, sockets) =>
    match (k.setSockets sockets).insertFile slot (.socket (.stream conn .server)) with
    | .ok (fd, k) => (.done (.value fd), k)
    | .error errno =>
      (.done (.error errno), (k.setSockets sockets).release (.socket (.stream conn .server)))
  | (.noListener, _) => (.done (.error .einval), k)
  | (.empty, _) => (.waits (.single (.socketAcceptable listener)) (.accept listener), k)

def acceptFromRing3 (fd addr : Nat) : Outcome × System :=
  match k.socketStateOf slot fd with
  | .ok (.listener listener) =>
    if addr ≠ 0 then (.done (.error .einval), k) else k.acceptLoop slot listener
  | .ok _ => (.done (.error .einval), k)
  | .error errno => (.done (.error errno), k)

def connectFromRing3 (fd : Nat) (name : Except Errno (List UInt8)) : Outcome × System :=
  match k.socketStateOf slot fd with
  | .ok .unbound =>
    match name with
    | .error errno => (.done (.error errno), k)
    | .ok name =>
      match k.objects.sockets.connect name with
      | (.connected conn, sockets, wakes) =>
        (.done (.value 0),
          ((k.setSockets sockets).wake wakes).replaceFile slot fd (.socket (.stream conn .client)))
      | (.noListener, _, _) => (.done (.error .econnrefused), k)
      | (.noRoom, _, _) => (.done (.error .eagain), k)
  | .ok (.stream _ _) => (.done (.error .eisconn), k)
  | .ok (.listener _) => (.done (.error .einval), k)
  | .error errno => (.done (.error errno), k)

end Socket

section Message

/-- The part of `sendmsg` that passes a descriptor on. -/
def sendFd (conn : Nat) (side : Side) (fd : Nat) : Except Errno System :=
  match k.shmOf slot fd with
  | .error errno => .error errno
  | .ok shm =>
    match k.objects.sockets.queueFd conn side shm with
    | (false, _, _) => .error .eagain
    | (true, sockets, wakes) =>
      let k := (k.setSockets sockets).wake wakes
      .ok (k.setMemory (k.objects.memory.attach shm))

def sendmsgFromRing3 (fd : Nat) (msg : Except Errno Message) : Outcome × System :=
  match k.socketStateOf slot fd with
  | .ok (.stream conn side) =>
    match msg with
    | .error errno => (.done (.error errno), k)
    | .ok msg =>
      match msg.controlFd with
      | none => k.writeToSocket conn side msg.count msg.bytes
      | some shmFd =>
        match k.sendFd slot conn side shmFd with
        | .error errno => (.done (.error errno), k)
        | .ok k => k.writeToSocket conn side msg.count msg.bytes
  | .ok _ => (.done (.error .enotconn), k)
  | .error errno => (.done (.error errno), k)

/-- `recvmsg_from_ring3` from `wait_until_readable` on. -/
def recvmsgLoop (conn : Nat) (side : Side) (control : ControlBuffer) (count : Nat) (valid : Bool) :
    Outcome × System :=
  if k.objects.sockets.readableOrGone conn side then
    match k.objects.sockets.takeFd conn side with
    | (none, sockets) => (k.setSockets sockets).readFromSocket conn side count valid
    | (some shm, sockets) =>
      match (k.setSockets sockets).insertFile slot (.shm shm) with
      | .error errno => (.done (.error errno), (k.setSockets sockets).release (.shm shm))
      | .ok (_, k) =>
        if control.roomy = false then (.done (.error .emsgsize), k)
        else if control.valid = false then (.done (.error .efault), k)
        else k.readFromSocket conn side count valid
  else
    (.waits (.single (.socketReadable conn side)) (.recvmsg conn side control count valid), k)

def recvmsgFromRing3 (fd : Nat) (msg : Except Errno Message) : Outcome × System :=
  match k.socketStateOf slot fd with
  | .ok (.stream conn side) =>
    match msg with
    | .error errno => (.done (.error errno), k)
    | .ok msg => k.recvmsgLoop slot conn side msg.control msg.count msg.valid
  | .ok _ => (.done (.error .enotconn), k)
  | .error errno => (.done (.error errno), k)

end Message

section Poll

def pollReasonOf (fd : Nat) : Option Wait :=
  match (k.files slot).get fd with
  | .ok .input => some .keyboard
  | .ok (.socket (.stream conn side)) => some (.socketReadable conn side)
  | .ok (.socket (.listener listener)) => some (.socketAcceptable listener)
  | _ => none

def pollIsReady : Wait → Bool
  | .keyboard => !k.input.ring.codes.isEmpty
  | .socketReadable conn side => k.objects.sockets.readable conn side
  | .socketAcceptable listener => k.objects.sockets.acceptable listener
  | _ => false

def pollReasons : List PollFd → Except Errno (List Wait)
  | [] => .ok []
  | request :: rest =>
    if request.fd < 0 ∨ request.events ≠ pollin then .error .einval
    else
      match k.pollReasonOf slot request.fd.toNat with
      | none => .error .ebadf
      | some reason => (reason :: ·) <$> pollReasons rest

def waitSetOf : List Wait → Option WaitSet
  | [] => some .empty
  | reasons => reasons.foldl (fun set on => set.bind (·.push on)) (some .empty)

/-- A round of `poll_from_ring3` with no time limit. -/
def pollLoop (reasons : List Wait) : Outcome × System :=
  let ready := reasons.countP k.pollIsReady
  if 0 < ready then (.done (.value ready), k)
  else if k.interactive = false then (.done (.error .eagain), k)
  else
    match waitSetOf reasons with
    | none => (.done (.error .einval), k)
    | some set => (.waits set (.poll reasons), k)

def pollFromRing3 (fds : List PollFd) (timeout : Int) (valid : Bool) : Outcome × System :=
  if fds.length = 0 ∨ maxWaitReasons < fds.length then (.done (.error .einval), k)
  else if timeout ≠ -1 ∧ timeout ≠ 0 then (.done (.error .einval), k)
  else if valid = false then (.done (.error .efault), k)
  else
    match k.pollReasons slot fds with
    | .error errno => (.done (.error errno), k)
    | .ok reasons =>
      if timeout = 0 then (.done (.value (reasons.countP k.pollIsReady)), k)
      else k.pollLoop reasons

end Poll

section Memory

def memfdCreateFromRing3 : Outcome × System :=
  match k.objects.memory.create with
  | none => (.done (.error .enomem), k)
  | some (shm, memory) =>
    match (k.setMemory memory).insertFile slot (.shm shm) with
    | .ok (fd, k) => (.done (.value fd), k)
    | .error errno => (.done (.error errno), (k.setMemory memory).release (.shm shm))

def ftruncateFromRing3 (fd size : Nat) : Outcome × System :=
  match k.shmOf slot fd with
  | .error errno => (.done (.error errno), k)
  | .ok shm =>
    let out := k.objects.memory.setSize shm size
    ((match out.1 with
      | .pages _ => .done (.value 0)
      | .tooLarge | .noRoom => .done (.error .enomem)
      | .alreadySet => .done (.error .einval)
      | .noShm => .done (.error .ebadf)), k.setMemory out.2)

/-- `mmap_from_ring3` of shared memory. Where the pages are mapped is up to the kernel. -/
def mmapFromRing3 (len : Nat) (exec : Bool) (fd offset : Nat) : Outcome × System :=
  if offset ≠ 0 then (.done (.error .einval), k)
  else if exec then (.done (.error .eperm), k)
  else
    match k.shmOf slot fd with
    | .error errno => (.done (.error errno), k)
    | .ok shm =>
      match k.objects.memory.framesOf shm with
      | none => (.done (.error .einval), k)
      | some (frames, shmLen) =>
        if len = 0 ∨ shmLen < len ∨ frames.length < pagesFor len then (.done (.error .einval), k)
        else
          let base := k.mmapNext slot
          let next := (base + pagesFor len * pageSize) % 2 ^ 64
          let k := { k with mmapNext := Function.update k.mmapNext slot next }
          match k.processes slot with
          | [] => (.panics, k)
          | p :: _ =>
            let out := p.space.mapShared k.objects.memory.allocator base (frames.take (pagesFor len))
            ((match out.1 with
              | .mapped => .done (.value base)
              | .notCanonical => .done (.error .einval)
              | .refused => .done (.error .enomem)
              | .overflows => .panics), k.setSpace slot out.2.1 p.heap out.2.2)

/-- `sys_brk`. When memory runs out the heap keeps the pages it got. -/
def sysBrk (requested : Nat) : Outcome × System :=
  match k.processes slot with
  | [] => (.done (.error .enomem), k)
  | p :: _ =>
    let allocator := k.objects.memory.allocator
    let moved := { p.heap with breakAt := requested }
    let want := pagesFor requested
    let current := pagesFor p.heap.breakAt
    if p.heap.isMapped = false then (.done (.error .enomem), k)
    else if requested = 0 then (.done (.value p.heap.breakAt), k)
    else if requested < p.heap.start ∨ heapLimit < requested then (.done (.error .enomem), k)
    else if want = current then (.done (.value requested), k.setSpace slot p.space moved allocator)
    else if current < want then
      let out := p.space.grow allocator current (want - current)
      if out.1 = want then (.done (.value requested), k.setSpace slot out.2.1 moved out.2.2)
      else (.done (.error .enomem),
        k.setSpace slot out.2.1 { p.heap with breakAt := out.1 * pageSize } out.2.2)
    else
      let out := p.space.shrink allocator want (current - want)
      (.done (.value requested), k.setSpace slot out.1 moved out.2)

end Memory

section Read

/-- The blocks of a regular file, from `offset + done` on, until `want` bytes are there. Every
round brings a byte at least. -/
def readBlocks (fs : Fs.Ext2) (inode : Fs.Inode) (offset want : Nat) :
    Nat → List UInt8 → Result Errno (List UInt8)
  | 0, out => .ok out
  | rounds + 1, out =>
    if out.length < want then
      let pos := offset + out.length
      if 2 ^ 32 ≤ pos / fs.blockSize then .err .eio
      else
        match fs.fileBlock inode (pos / fs.blockSize) with
        | .fault => .fault
        | .err e => .err (errnoForExt2 e)
        | .ok block =>
          let within := pos % fs.blockSize
          let available := block.len - within
          if available = 0 then .err .eio
          else readBlocks fs inode offset want rounds
            (out ++ block.view within (min (want - out.length) available))
    else .ok out

/-- `sys_read` of a regular file. -/
def readRegular (fd : Nat) (inode : Fs.Inode) (offset : Nat) (writable : Bool) (count : Nat)
    (valid : Bool) : Outcome × System :=
  if writable then (.done (.error .ebadf), k)
  else if inode.isDirectory then (.done (.error .eisdir), k)
  else
    let want := min count (inode.size - offset)
    if want = 0 then (.done (.value 0), k)
    else if valid = false then (.done (.error .efault), k)
    else
      match Fs.Ext2.parse k.root with
      | .fault => (.panics, k)
      | .err e => (.done (.error (errnoForExt2 e)), k)
      | .ok fs =>
        match readBlocks fs inode offset want want [] with
        | .fault => (.panics, k)
        | .err errno => (.done (.error errno), k)
        | .ok data =>
          (.done (.bytes data), k.setFiles slot ((k.files slot).advance fd data.length))

/-- A round of the terminal branch of `sys_read`. -/
def terminalLoop (fd want : Nat) : Outcome × System :=
  let out := k.input.readBytes k.us want
  ((if out.1 ≠ [] then .done (.bytes out.1)
    else if k.interactive = false then .done (.error .eagain)
    else .waits (.single .keyboard) (.terminal fd want)), { k with input := out.2 })

/-- The terminal branch of `sys_read`. -/
def readTerminal (fd count : Nat) (valid : Bool) : Outcome × System :=
  if k.input.foreground = false then (.done (.error .ebadf), k)
  else if count = 0 then (.done (.value 0), k)
  else if valid = false then (.done (.error .efault), k)
  else k.terminalLoop fd (min count terminalReadMax)

/-- A round of `read_input_events`. -/
def inputLoop (fd cap : Nat) : Outcome × System :=
  let nanos := k.ticks % timerFrequencyHz * (1000000000 / timerFrequencyHz)
  let out := k.input.readEvents (k.ticks / timerFrequencyHz) (nanos / 1000) cap
  ((if out.1 ≠ [] then .done (.bytes out.1)
    else if k.interactive = false then .done (.error .eagain)
    else .waits (.single .keyboard) (.input fd cap)), { k with input := out.2 })

def readInputEvents (fd count : Nat) (valid : Bool) : Outcome × System :=
  if count = 0 then (.done (.value 0), k)
  else if count < inputEventLen then (.done (.error .einval), k)
  else if valid = false then (.done (.error .efault), k)
  else k.inputLoop fd (min count inputReadMax / inputEventLen * inputEventLen)

/-- `sys_read`. Whatever is left once pipes, sockets, input and screen are dealt with has an
inode or is taken for the terminal. -/
def sysRead (fd count : Nat) (valid : Bool) : Outcome × System :=
  match (k.files slot).get fd with
  | .error error => (.done (.error error.errno), k)
  | .ok file =>
    match file.pipeReadEnd with
    | some pipe => k.readFromPipe pipe count valid
    | none =>
      match file.socketState with
      | some (.stream conn side) => k.readFromSocket conn side count valid
      | some _ => (.done (.error .enotconn), k)
      | none =>
        if file = .input then k.readInputEvents fd count valid
        else if file = .screen then (.done (.error .einval), k)
        else
          match file.inode with
          | none => k.readTerminal fd count valid
          | some inode =>
            k.readRegular slot fd inode file.offset file.isWritableFile count valid

/-- `sys_write`. What the terminal and the file system make of a write is given with it, and
so is the image after it. -/
def sysWrite (fd count : Nat) (bytes : List UInt8) (other : Ret × Bytes) : Outcome × System :=
  match (k.files slot).get fd with
  | .error error => (.done (.error error.errno), k)
  | .ok file =>
    match file.pipeWriteEnd with
    | some pipe => k.writeToPipe pipe count bytes
    | none =>
      match file.socketState with
      | some (.stream conn side) => k.writeToSocket conn side count bytes
      | some _ => (.done (.error .enotconn), k)
      | none => (.done other.1, { k with root := other.2 })

end Read

section Open

/-- `sys_open`, after the file system has found or made the file. -/
def sysOpen (found : Except Errno (Fs.Inode × Bool)) (root : Bytes) : Outcome × System :=
  match found with
  | .error errno => (.done (.error errno), { k with root })
  | .ok (inode, writable) =>
    match { k with root }.insertFile slot (.regular inode 0 writable) with
    | .ok (fd, k) => (.done (.value fd), k)
    | .error errno => (.done (.error errno), { k with root })

def openInputFromRing3 : Outcome × System :=
  if k.input.callerIsForeground slot then
    match k.insertFile slot .input with
    | .ok (fd, k) => (.done (.value fd), k)
    | .error errno => (.done (.error errno), k)
  else (.done (.error .ebadf), k)

/-- `open_screen_from_ring3`. Whether the console can change to graphics is given with it. -/
def openScreenFromRing3 (entered : Except Errno Unit) : Outcome × System :=
  if k.input.callerIsForeground slot then
    match entered with
    | .error errno => (.done (.error errno), k)
    | .ok () =>
      match k.insertFile slot .screen with
      | .ok (fd, k) => (.done (.value fd), k)
      | .error errno => (.done (.error errno), k)
  else (.done (.error .ebadf), k)

/-- `SYS_CLOSE`. That an image is written back is not part of this model. -/
def sysClose (fd : Nat) : Outcome × System :=
  match (k.files slot).remove fd with
  | .ok (file, t) => (.done (.value 0), (k.setFiles slot t).release file)
  | .error error => (.done (.error error.errno), k)

end Open

section Task

/-- A round of `sys_nanosleep`. -/
def sleepLoop (deadline : Nat) : Outcome × System :=
  if k.ticks < deadline then (.waits (.single (.timer deadline)) (.sleep deadline), k)
  else (.done (.value 0), k)

/-- `sys_nanosleep`, for a number of ticks. -/
def sysNanosleep (request : Except Errno Nat) : Outcome × System :=
  match request with
  | .error errno => (.done (.error errno), k)
  | .ok ticks => k.sleepLoop (min (2 ^ 64 - 1) (k.ticks + ticks))

/-- How a child ended, as `wait_child` reports it. -/
def childStatus (handle : Nat) : Ret :=
  match k.status with
  | some (stored, bits) =>
    if stored = handle ∧ bits ≠ 2 ^ 64 - 1 then .value bits else .error .eio
  | none => .error .eio

/-- A round of `wait_for_ring3_task`. A child that has ended is reaped. -/
def childLoop (handle : Nat) : Outcome × System :=
  if k.handleIsCurrent handle then
    if k.tasks detachedSlot = .finished then
      (.done (k.childStatus handle),
        { k with tasks := Function.update k.tasks detachedSlot .uninitialized })
    else (.waits (.single (.child handle)) (.child handle), k)
  else (.done (.error .echild), k)

/-- `wait_child_from_ring3`. A reservation that was not used goes first. -/
def waitChildFromRing3 (handle : Nat) : Outcome × System :=
  match k.pendingStdin slot with
  | none => k.childLoop handle
  | some pipe =>
    let k := { k with pendingStdin := Function.update k.pendingStdin slot none }
    let out := k.objects.pipes.dropReservation pipe
    ((k.setPipes out.2.1).wake out.2.2).childLoop handle

def startDetached (stdoutPipe : Option Nat) : Option Nat × System :=
  if k.tasks detachedSlot = .uninitialized then
    (some (Scheduler.ring3TaskHandle (k.generation + 1)), { k with
      generation := k.generation + 1
      tasks := Function.update k.tasks detachedSlot .ready
      request := some stdoutPipe
      detached := .requested })
  else (none, { k with request := none })

/-- `spawn_detached_from_ring3`, where the arguments may be refused first. -/
def spawnDetachedFromRing3 (flags : Nat) (args : Except Errno Unit) : Outcome × System :=
  if flags ≠ 0 ∧ flags ≠ detachedStdoutToPipe then (.done (.error .einval), k)
  else
    match args with
    | .error errno => (.done (.error errno), k)
    | .ok () =>
      if flags = 0 then
        match k.startDetached none with
        | (some handle, k) => (.goes (.starting handle), k)
        | (none, k) => (.done (.error .eagain), k)
      else
        match k.objects.pipes.create true with
        | none => (.done (.error .ebusy), k)
        | some (pipe, pipes) =>
          match (k.setPipes pipes).startDetached (some pipe) with
          | (some handle, k) => (.goes (.starting handle),
            { k with pendingStdin := Function.update k.pendingStdin slot (some pipe) })
          | (none, k) =>
            let out := k.objects.pipes.dropReservation pipe
            (.done (.error .eagain),
              ((k.setPipes out.2.1).wake out.2.2).release (.pipeWrite pipe))

/-- `spawn_with_piped_stdin_from_ring3` until it calls `spawn`. -/
def spawnWithPipedStdinFromRing3 (args : Except Errno Unit) : Outcome × System :=
  match k.pendingStdin slot with
  | none => (.done (.error .einval), k)
  | some pipe =>
    match args with
    | .error errno => (.done (.error errno), k)
    | .ok () =>
      let k := { k with pendingStdin := Function.update k.pendingStdin slot none }
      match k.objects.pipes.claimReservedReader pipe with
      | (false, _) => (.done (.error .einval), k)
      | (true, pipes) => (.goes (.spawning true),
        (k.setPipes pipes).setInherited slot { k.inherited slot with stdin := some pipe })

/-- `spawn_from_ring3` until it calls `spawn`. -/
def spawnFromRing3 (args : Except Errno Unit) : Outcome × System :=
  match args with
  | .error errno => (.done (.error errno), k)
  | .ok () => (.goes (.spawning false), k)

end Task

end System

end Zaytos.Kernel
