import Zaytos.Kernel.Syscall

set_option autoImplicit false

/-! The steps of the whole system. A step is what a task does between two points at which it
gives up the kernel, or an interrupt. -/
namespace Zaytos.Kernel

inductive Call where
  | socket (domain kind protocol : Nat)
  | bind (fd : Nat) (name : Except Errno (List UInt8))
  | listen (fd : Nat)
  | accept (fd addr : Nat)
  | connect (fd : Nat) (name : Except Errno (List UInt8))
  | read (fd count : Nat) (valid : Bool)
  | write (fd count : Nat) (bytes : List UInt8) (other : Ret × Bytes)
  | sendmsg (fd : Nat) (msg : Except Errno Message)
  | recvmsg (fd : Nat) (msg : Except Errno Message)
  | poll (fds : List PollFd) (timeout : Int) (valid : Bool)
  | memfdCreate
  | ftruncate (fd size : Nat)
  | mmap (len : Nat) (exec : Bool) (fd offset : Nat)
  | brk (requested : Nat)
  | opens (found : Except Errno (Fs.Inode × Bool)) (root : Bytes)
  | openInput
  | openScreen (entered : Except Errno Unit)
  | close (fd : Nat)
  | nanosleep (request : Except Errno Nat)
  | waitChild (handle : Nat)
  | spawn (args : Except Errno Unit)
  | spawnDetached (flags : Nat) (args : Except Errno Unit)
  | spawnWithPipedStdin (args : Except Errno Unit)

/-- The calls that leave an end for the next program, or start the detached task. -/
def Call.spawns : Call → Bool
  | .spawnDetached .. | .spawnWithPipedStdin _ => true
  | _ => false

/-- What `load_user_program` finds: the pages of the segments in the order in which they are mapped,
and where the image ends. Whether there are frames for it is another matter. -/
inductive LoadOutcome where
  /-- It fails, or `spawn` does, before the program has a space and a table. -/
  | early
  | late (pages : List Nat) (stack : Bool)
  | runs (pages : List Nat) (imageEnd : Nat)

inductive Action where
  | call (slot : Slot) (c : Call)
  | resume (slot : Slot)
  | load (slot : Slot) (outcome : LoadOutcome)
  | exit (slot : Slot) (interrupted : Bool)
  | spawnReturns (slot : Slot) (ret : Ret)
  | detachedBegins
  | detachedEnds (bits : Nat)
  | tick
  | key (code : UInt8)
  | drainKeyboard
  | setInteractive (interactive : Bool)

namespace System

def syscall (k : System) (slot : Slot) : Call → Outcome × System
  | .socket domain kind protocol => k.socketFromRing3 slot domain kind protocol
  | .bind fd name => k.bindFromRing3 slot fd name
  | .listen fd => k.listenFromRing3 slot fd
  | .accept fd addr => k.acceptFromRing3 slot fd addr
  | .connect fd name => k.connectFromRing3 slot fd name
  | .read fd count valid => k.sysRead slot fd count valid
  | .write fd count bytes other => k.sysWrite slot fd count bytes other
  | .sendmsg fd msg => k.sendmsgFromRing3 slot fd msg
  | .recvmsg fd msg => k.recvmsgFromRing3 slot fd msg
  | .poll fds timeout valid => k.pollFromRing3 slot fds timeout valid
  | .memfdCreate => k.memfdCreateFromRing3 slot
  | .ftruncate fd size => k.ftruncateFromRing3 slot fd size
  | .mmap len exec fd offset => k.mmapFromRing3 slot len exec fd offset
  | .brk requested => k.sysBrk slot requested
  | .opens found root => k.sysOpen slot found root
  | .openInput => k.openInputFromRing3 slot
  | .openScreen entered => k.openScreenFromRing3 slot entered
  | .close fd => k.sysClose slot fd
  | .nanosleep request => k.sysNanosleep request
  | .waitChild handle => k.waitChildFromRing3 slot handle
  | .spawn args => k.spawnFromRing3 args
  | .spawnDetached flags args => k.spawnDetachedFromRing3 slot flags args
  | .spawnWithPipedStdin args => k.spawnWithPipedStdinFromRing3 slot args

/-- `wait_for_keyboard`, once it is woken: who lost the foreground does not read on. -/
def afterKeyboard (k : System) (round : Outcome × System) : Outcome × System :=
  if k.input.foreground then round else (.done (.error .ebadf), k)

def round (k : System) (slot : Slot) : Loop → Outcome × System
  | .pipeRead pipe want => k.pipeReadLoop pipe want
  | .pipeWrite pipe src => k.pipeWriteLoop pipe src
  | .socketRead conn side want => k.socketReadLoop conn side want
  | .socketWrite conn side src => k.socketWriteLoop conn side src
  | .recvmsg conn side control count valid => k.recvmsgLoop slot conn side control count valid
  | .accept listener => k.acceptLoop slot listener
  | .poll reasons => k.pollLoop reasons
  | .terminal fd want => k.afterKeyboard (k.terminalLoop fd want)
  | .input fd cap => k.afterKeyboard (k.inputLoop fd cap)
  | .sleep deadline => k.sleepLoop deadline
  | .child handle => k.childLoop handle

def doing (k : System) (slot : Slot) : Option Doing := (k.processes slot).head?.map Process.doing

def resume (k : System) (slot : Slot) : Option System :=
  match k.doing slot with
  | some (.waiting loop) =>
    let out := k.round slot loop
    out.2.leave slot out.1
  | some (.starting handle) =>
    if k.processes detachedSlot ≠ [] ∨ k.tasks detachedSlot = .finished then
      k.leave slot (.done (.value handle))
    else none
  | _ => none

section Spawn

/-- Whoever called `spawn` in a task goes on to another place. -/
def spawnGoes (k : System) (slot : Slot) (next : Bool → Doing) (detached : Detached) : System :=
  match k.processes slot with
  | _ :: _ => k.modifyTop slot fun p =>
      { p with doing :=
          match p.doing with
          | .spawning piped | .parent piped => next piped
          | doing => doing }
  | [] => if slot = detachedSlot then { k with detached } else k

/-- A program is about to be loaded: somebody called `spawn`, or the kernel starts the first
program of its own task. -/
def loading (k : System) (slot : Slot) : Bool :=
  match k.doing slot with
  | some (.spawning _) => true
  | some _ => false
  | none => slot ≠ detachedSlot || k.detached = .spawning

def loadTable (ends : InheritedEnds) : FileTable :=
  let t := match ends.stdin with
    | some pipe => (FileTable.new.replace stdinFd (.pipeRead pipe)).2
    | none => .new
  match ends.stdout with
  | some pipe => (t.replace stdoutFd (.pipeWrite pipe)).2
  | none => t

def takeInherited (k : System) (slot : Slot) : System := k.setInherited slot ⟨none, none⟩

def push (k : System) (slot : Slot) (p : Process) : System :=
  { k with processes := Function.update k.processes slot (p :: k.processes slot) }

/-- `load_user_program` up to the end of `load_user_program_into`: whether there is a space, whether
the program could be mapped into it, and what is left of the frames. -/
def mapProgram (a : FrameAllocator) (pages : List Nat) (stack : Bool) :
    Option (Bool × AddressSpace) × FrameAllocator :=
  match AddressSpace.new a with
  | (none, a) => (none, a)
  | (some space, a) =>
    let out := space.loadInto a pages stack
    (some (out.1, out.2.1), out.2.2)

def loadFails (k : System) (slot : Slot) : System := k.spawnGoes slot .returning .returning

def unload (k : System) (slot : Slot) (space : AddressSpace) : System :=
  (((k.takeInherited slot).dropTable (loadTable (k.inherited slot))).retire slot space).loadFails slot

def enter (k : System) (slot : Slot) (space : AddressSpace) (imageEnd : Nat) : System :=
  let claim := k.input.claimForeground slot
  (({ k with input := claim.2 }.takeInherited slot).spawnGoes slot .parent .parent).push slot
    ⟨loadTable (k.inherited slot), .user, claim.1, space, .fromImageEnd imageEnd⟩

/-- `load_user_program`. -/
def load (k : System) (slot : Slot) : LoadOutcome → Option System
  | .early => some (k.loadFails slot)
  | .late pages stack =>
    if (k.processes slot).length < maxExcursionDepth then
      match mapProgram k.objects.memory.allocator pages stack with
      | (none, allocator) => some ((k.setAllocator allocator).loadFails slot)
      | (some (_, space), allocator) => some ((k.setAllocator allocator).unload slot space)
    else none
  | .runs pages imageEnd =>
    if (k.processes slot).length < maxExcursionDepth then
      match mapProgram k.objects.memory.allocator pages true with
      | (none, allocator) => some ((k.setAllocator allocator).loadFails slot)
      | (some (false, space), allocator) => some ((k.setAllocator allocator).unload slot space)
      | (some (true, space), allocator) => some ((k.setAllocator allocator).enter slot space imageEnd)
    else none

theorem load_cases {k t : System} {slot : Slot} {outcome : LoadOutcome}
    (loaded : k.load slot outcome = some t) :
    (∃ allocator, t = (k.setAllocator allocator).loadFails slot) ∨
    (k.processes slot).length < maxExcursionDepth ∧ ∃ allocator space,
      t = (k.setAllocator allocator).unload slot space ∨
      ∃ imageEnd, t = (k.setAllocator allocator).enter slot space imageEnd := by
  cases outcome with
  | early => exact .inl ⟨k.objects.memory.allocator, (Option.some.inj loaded).symm⟩
  | late pages stack =>
    obtain ⟨shallow, loaded⟩ := Option.ite_none_right_eq_some.mp loaded
    split at loaded
    · exact .inl ⟨_, (Option.some.inj loaded).symm⟩
    · exact .inr ⟨shallow, _, _, .inl (Option.some.inj loaded).symm⟩
  | runs pages imageEnd =>
    obtain ⟨shallow, loaded⟩ := Option.ite_none_right_eq_some.mp loaded
    split at loaded
    · exact .inl ⟨_, (Option.some.inj loaded).symm⟩
    · exact .inr ⟨shallow, _, _, .inl (Option.some.inj loaded).symm⟩
    · exact .inr ⟨shallow, _, _, .inr ⟨imageEnd, (Option.some.inj loaded).symm⟩⟩

def exit (k : System) (slot : Slot) (interrupted : Bool) : Option System :=
  match k.processes slot with
  | p :: rest =>
    if p.doing = .user then
      let released := if p.claimedForeground then k.input.releaseForeground else k.input
      let input := if interrupted then released.discardTypedInput else released
      some ((({ k with input, processes := Function.update k.processes slot rest }.dropTable
        p.files).retire slot p.space).spawnGoes slot .returning .returning)
    else none
  | [] => none

/-- `spawn_from_ring3` and `spawn_with_piped_stdin_from_ring3` after `spawn`: an end that no
program took goes back. -/
def spawnReturns (k : System) (slot : Slot) (ret : Ret) : Option System :=
  match k.doing slot with
  | some (.returning true) =>
    match (k.inherited slot).stdin with
    | some pipe =>
      ((k.setInherited slot { k.inherited slot with stdin := none }).release (.pipeRead pipe)).leave
        slot (.done ret)
    | none => k.leave slot (.done ret)
  | some (.returning false) => k.leave slot (.done ret)
  | _ => none

/-- `run_detached_request` until it calls `spawn`. -/
def detachedBegins (k : System) : Option System :=
  if k.detached = .requested then
    match k.request with
    | none => none
    | some none => some { k with detached := .spawning }
    | some (some pipe) =>
      let ends := { k.inherited detachedSlot with stdout := some pipe }
      some { k.setInherited detachedSlot ends with detached := .spawning }
  else none

def detachedFinish (k : System) (bits : Nat) : System :=
  let handle := Scheduler.ring3TaskHandle k.generation
  { k with
    status := some (handle, bits)
    detached := .idle
    tasks := Function.update k.tasks detachedSlot .finished }.wake [.child handle]

/-- `run_detached_request` after `spawn`, and the end of the task. -/
def detachedEnds (k : System) (bits : Nat) : Option System :=
  if k.detached = .returning then
    match (k.inherited detachedSlot).stdout with
    | some pipe =>
      let ends := { k.inherited detachedSlot with stdout := none }
      some (((k.setInherited detachedSlot ends).release (.pipeWrite pipe)).detachedFinish bits)
    | none => some (k.detachedFinish bits)
  else none

end Spawn

def tick (k : System) : System :=
  { k with ticks := k.ticks + 1, tasks := fun slot => (k.tasks slot).wakeExpired (k.ticks + 1) }

def step (k : System) : Action → Option System
  | .call slot c =>
    if k.tasks slot = .ready ∧ k.doing slot = some .user then
      let out := k.syscall slot c
      out.2.leave slot out.1
    else none
  | .resume slot => if k.tasks slot = .ready then k.resume slot else none
  | .load slot outcome =>
    if k.tasks slot = .ready ∧ k.loading slot = true then k.load slot outcome else none
  | .exit slot interrupted => if k.tasks slot = .ready then k.exit slot interrupted else none
  | .spawnReturns slot ret => if k.tasks slot = .ready then k.spawnReturns slot ret else none
  | .detachedBegins => if k.tasks detachedSlot = .ready then k.detachedBegins else none
  | .detachedEnds bits => if k.tasks detachedSlot = .ready then k.detachedEnds bits else none
  | .tick => some k.tick
  | .key code => some ({ k with input := k.input.record code }.wake [.keyboard])
  | .drainKeyboard => some { k with input := k.input.drainKeyboard k.us }
  | .setInteractive interactive => some { k with interactive }

end System

end Zaytos.Kernel

/-! What a call does itself. A call that waits goes on later, in whatever state the others have
left. -/
namespace Zaytos.Kernel

variable {σ : Type} {round : σ → Loop → Outcome × σ}

/-- The rounds of a call until it returns, each with the state before it and after it. -/
inductive Rounds (round : σ → Loop → Outcome × σ) : Outcome → List (σ × σ) → Ret → Prop
  | returns (ret : Ret) : Rounds round (.done ret) [] ret
  | waits (set : WaitSet) (loop : Loop) (s : σ) {rest : List (σ × σ)} {ret : Ret}
      (later : Rounds round (round s loop).1 rest ret) :
      Rounds round (.waits set loop) ((s, (round s loop).2) :: rest) ret

/-- The steps of a call itself: what it does at once, which is `first`, and its rounds. -/
def OwnSteps (round : σ → Loop → Outcome × σ) (s : σ) (first : Outcome × σ)
    (steps : List (σ × σ)) (ret : Ret) : Prop :=
  ∃ rest, steps = (s, first.2) :: rest ∧ Rounds round first.1 rest ret

theorem Rounds.of_done {ret ret' : Ret} {steps : List (σ × σ)}
    (rounds : Rounds round (.done ret) steps ret') : steps = [] ∧ ret' = ret := by
  cases rounds with
  | returns => exact ⟨rfl, rfl⟩

theorem OwnSteps.of_done {s : σ} {first : Outcome × σ} {steps : List (σ × σ)} {ret ret' : Ret}
    (own : OwnSteps round s first steps ret') (done : first.1 = .done ret) :
    steps = [(s, first.2)] ∧ ret' = ret := by
  obtain ⟨rest, rfl, rounds⟩ := own
  rw [done] at rounds
  obtain ⟨rfl, rfl⟩ := rounds.of_done
  exact ⟨rfl, rfl⟩

theorem OwnSteps.rounds {s : σ} (loop : Loop) {steps : List (σ × σ)} {ret : Ret}
    (own : OwnSteps round s (round s loop) steps ret) (set : WaitSet) :
    Rounds round (.waits set loop) steps ret := by
  obtain ⟨rest, rfl, rounds⟩ := own
  exact .waits set loop s rounds

theorem Rounds.induct {P : Loop → Prop} {Q : List (σ × σ) → Ret → Prop}
    (returns : ∀ loop s ret, P loop → (round s loop).1 = .done ret →
      Q [(s, (round s loop).2)] ret)
    (again : ∀ loop s set next rest ret, P loop → (round s loop).1 = .waits set next →
      Q rest ret → Q ((s, (round s loop).2) :: rest) ret)
    (keeps : ∀ loop s set next, P loop → (round s loop).1 = .waits set next → P next)
    {set : WaitSet} {loop : Loop} {steps : List (σ × σ)} {ret : Ret}
    (rounds : Rounds round (.waits set loop) steps ret) (kind : P loop) : Q steps ret := by
  generalize waits : Outcome.waits set loop = out at rounds
  induction rounds generalizing set loop with
  | returns => cases waits
  | waits set' loop' s later ih =>
    obtain ⟨rfl, rfl⟩ := Outcome.waits.inj waits
    cases out : (round s loop).1 with
    | done ret' =>
      rw [out] at later
      obtain ⟨rfl, rfl⟩ := later.of_done
      exact returns loop s _ kind out
    | waits set'' next =>
      have rest := ih (keeps loop s set'' next kind out) out.symm
      exact again loop s set'' next _ _ kind out rest
    | _ =>
      rw [out] at later
      cases later

end Zaytos.Kernel
