import Zaytos.Kernel.Machine
import Zaytos.Kernel.SocketSpec

set_option autoImplicit false

/-! Who holds which end. The ledger of the system is the bag of all descriptors, wherever they
are kept, beside what they name. Every step of the system is a sequence of moves on it. -/
namespace Zaytos.Kernel

def File.isSocket : File → Bool
  | .socket _ => true
  | _ => false

structure Ledger where
  held : Multiset File
  reservations : Multiset Nat
  objects : Objects

namespace Ledger

def setPipes (l : Ledger) (pipes : Pipes) : Ledger :=
  { l with objects := { l.objects with pipes } }

def setSockets (l : Ledger) (sockets : Sockets) : Ledger :=
  { l with objects := { l.objects with sockets } }

def setMemory (l : Ledger) (memory : ShmTable) : Ledger :=
  { l with objects := { l.objects with memory } }

def hold (l : Ledger) (file : File) : Ledger := { l with held := file ::ₘ l.held }

/-- A move that neither makes, accepts nor closes a socket, and whom it wakes. -/
inductive Move : Ledger → List Wait → Ledger → Prop
  | plain {l : Ledger} {held : Multiset File}
      (same : ∀ file : File, file.isPlain = false → held.count file = l.held.count file) :
      Move l [] { l with held }
  | release {l : Ledger} {held : Multiset File} {file : File} (other : file.isSocket = false)
      (was : l.held = file ::ₘ held) :
      Move l (l.objects.releaseEnd file).2 { l with held, objects := (l.objects.releaseEnd file).1 }
  | pipeRead {l : Ledger} (pipe want : Nat) :
      Move l (l.objects.pipes.readInto pipe want).2.2
        (l.setPipes (l.objects.pipes.readInto pipe want).2.1)
  | pipeWrite {l : Ledger} (pipe : Nat) (src : List UInt8) :
      Move l (l.objects.pipes.writeFrom pipe src).2.2
        (l.setPipes (l.objects.pipes.writeFrom pipe src).2.1)
  | pipeCreate {l : Ledger} {pipe : Nat} {pipes : Pipes} {old reservations : Multiset Nat}
      (made : l.objects.pipes.create true = some (pipe, pipes))
      (was : l.reservations = old + reservations) :
      Move l [] { (l.setPipes pipes).hold (.pipeWrite pipe) with
        reservations := pipe ::ₘ reservations }
  | dropReservation {l : Ledger} {pipe : Nat} {reservations : Multiset Nat}
      (was : l.reservations = pipe ::ₘ reservations) :
      Move l (l.objects.pipes.dropReservation pipe).2.2
        { l.setPipes (l.objects.pipes.dropReservation pipe).2.1 with reservations }
  | claim {l : Ledger} {pipe : Nat} {pipes : Pipes} {reservations : Multiset Nat}
      (was : l.reservations = pipe ::ₘ reservations)
      (claimed : l.objects.pipes.claimReservedReader pipe = (true, pipes)) :
      Move l [] { (l.setPipes pipes).hold (.pipeRead pipe) with reservations }
  | noClaim {l : Ledger} {pipe : Nat} {reservations : Multiset Nat}
      (was : l.reservations = pipe ::ₘ reservations)
      (refused : (l.objects.pipes.claimReservedReader pipe).1 = false) :
      Move l [] { l with reservations }
  | listen {l : Ledger} (listener : Nat) :
      Move l [] (l.setSockets (l.objects.sockets.listen listener).2)
  | socketRead {l : Ledger} (conn : Nat) (side : Side) (want : Nat) :
      Move l (l.objects.sockets.readInto conn side want).2.2
        (l.setSockets (l.objects.sockets.readInto conn side want).2.1)
  | socketWrite {l : Ledger} (conn : Nat) (side : Side) (src : List UInt8) :
      Move l (l.objects.sockets.writeFrom conn side src).2.2
        (l.setSockets (l.objects.sockets.writeFrom conn side src).2.1)
  | takeFd {l : Ledger} {conn shm : Nat} {side : Side} {sockets : Sockets}
      (taken : l.objects.sockets.takeFd conn side = (some shm, sockets)) :
      Move l [] ((l.setSockets sockets).hold (.shm shm))
  | shmCreate {l : Ledger} {shm : Nat} {memory : ShmTable}
      (made : l.objects.memory.create = some (shm, memory)) :
      Move l [] ((l.setMemory memory).hold (.shm shm))
  | setSize {l : Ledger} (shm size : Nat) :
      Move l [] (l.setMemory (l.objects.memory.setSize shm size).2)
  | frames {l : Ledger} (allocator : FrameAllocator) :
      Move l [] (l.setMemory { l.objects.memory with allocator })

inductive Moves : Ledger → List Wait → Ledger → Prop
  | refl (l : Ledger) : Moves l [] l
  | step {l m n : Ledger} {wakes others : List Wait} (first : Move l wakes m)
      (rest : Moves m others n) : Moves l (wakes ++ others) n

theorem Moves.one {l m : Ledger} {wakes : List Wait} (move : Move l wakes m) : Moves l wakes m := by
  have moves := Moves.step move (.refl m)
  rwa [List.append_nil] at moves

theorem Moves.trans {l m n : Ledger} {wakes others : List Wait} (first : Moves l wakes m)
    (rest : Moves m others n) : Moves l (wakes ++ others) n := by
  induction first with
  | refl => exact rest
  | step move _ ih =>
    rw [List.append_assoc]
    exact .step move (ih rest)

theorem Moves.keeps {P : Ledger → Prop} (keeps : ∀ l wakes m, Move l wakes m → P l → P m)
    {l m : Ledger} {wakes : List Wait} (moves : Moves l wakes m) (holds : P l) : P m := by
  induction moves with
  | refl => exact holds
  | step move _ ih => exact ih (keeps _ _ _ move holds)

theorem Moves.releaseAll {files : List File} (other : ∀ file ∈ files, file.isSocket = false)
    {l : Ledger} {held : Multiset File} (was : l.held = files + held) :
    Moves l (l.objects.releaseAll files).2
      { l with held, objects := (l.objects.releaseAll files).1 } := by
  induction files generalizing l with
  | nil =>
    have same : l.held = held := was.trans (zero_add held)
    subst same
    exact .refl l
  | cons file rest ih =>
    have first : l.held = file ::ₘ (rest + held) := was.trans (Multiset.cons_add file rest held)
    refine .step (.release (other file List.mem_cons_self) first) ?_
    exact ih (fun file mem => other file (List.mem_cons_of_mem _ mem)) rfl

end Ledger

inductive Event where
  | quiet
  | bound (listener : Nat)
  | connected (conn listener : Nat)
  /-- `accept` took a connection. -/
  | accepted (listener conn : Nat)
  /-- `accept` took a connection, and there was no room for its descriptor. -/
  | refused (listener conn : Nat)
  | sent (shm : Nat)
  | closed (files : List File)

inductive Ledger.Change : Event → Ledger → List Wait → Ledger → Prop
  | quiet {l m : Ledger} {wakes : List Wait} (moves : l.Moves wakes m) : Change .quiet l wakes m
  | bound {l m : Ledger} {name : List UInt8} {listener : Nat} {sockets : Sockets}
      (bound : l.objects.sockets.bind name = (.bound listener, sockets))
      (rest : ((l.setSockets sockets).hold (.socket (.listener listener))).Move [] m) :
      Change (.bound listener) l [] m
  | connected {l m : Ledger} {name : List UInt8} {conn listener : Nat} {sockets : Sockets}
      {wakes : List Wait}
      (made : l.objects.sockets.connect name = (.connected conn, sockets, wakes))
      (target : (sockets.connections conn).listener = listener)
      (rest : ((l.setSockets sockets).hold (.socket (.stream conn .client))).Move [] m) :
      Change (.connected conn listener) l wakes m
  | accepted {l : Ledger} {listener conn : Nat} {sockets : Sockets}
      (taken : l.objects.sockets.accept listener = (.connection conn, sockets)) :
      Change (.accepted listener conn) l []
        ((l.setSockets sockets).hold (.socket (.stream conn .server)))
  | refused {l : Ledger} {listener conn : Nat} {sockets : Sockets}
      (taken : l.objects.sockets.accept listener = (.connection conn, sockets)) :
      Change (.refused listener conn) l (sockets.closeEnd conn .server).2
        (l.setSockets (sockets.closeEnd conn .server).1)
  | sent {l m : Ledger} {conn shm : Nat} {side : Side} {sockets : Sockets}
      {wakes others : List Wait} (mem : File.shm shm ∈ l.held)
      (queued : l.objects.sockets.queueFd conn side shm = (true, sockets, wakes))
      (rest : ((l.setSockets sockets).setMemory (l.objects.memory.attach shm)).Moves others m) :
      Change (.sent shm) l (wakes ++ others) m
  | closed {l : Ledger} {held : Multiset File} {files : List File} (was : l.held = files + held) :
      Change (.closed files) l (l.objects.releaseAll files).2
        { l with held, objects := (l.objects.releaseAll files).1 }

namespace System

def heldByEnds (ends : InheritedEnds) : Multiset File :=
  ((ends.stdin.map File.pipeRead).toList : Multiset File) +
    ((ends.stdout.map File.pipeWrite).toList : Multiset File)

def requestedEnd (k : System) : Option Nat :=
  if k.detached = .requested then k.request.join else none

def heldByTask (processes : List Process) : Multiset File :=
  (processes.map fun p => (p.files.files : Multiset File)).sum

def held (k : System) : Multiset File :=
  ∑ slot, heldByTask (k.processes slot) + ∑ slot, heldByEnds (k.inherited slot) +
    ((k.requestedEnd.map File.pipeWrite).toList : Multiset File)

def ledger (k : System) : Ledger where
  held := k.held
  reservations := ∑ slot, ((k.pendingStdin slot).toList : Multiset Nat)
  objects := k.objects

def accepting (k : System) : Action → Option (Slot × Nat)
  | .call slot (.accept fd addr) =>
    match k.socketStateOf slot fd with
    | .ok (.listener listener) => if addr ≠ 0 then none else some (slot, listener)
    | _ => none
  | .resume slot =>
    match k.doing slot with
    | some (.waiting (.accept listener)) => some (slot, listener)
    | _ => none
  | _ => none

def event (k : System) (a : Action) : Event :=
  match k.accepting a with
  | some (slot, listener) =>
    match k.objects.sockets.accept listener with
    | (.connection conn, _) =>
      match (k.files slot).insert (.socket (.stream conn .server)) with
      | .ok _ => .accepted listener conn
      | .error _ => .refused listener conn
    | _ => .quiet
  | none =>
    match a with
    | .call slot (.bind fd (.ok name)) =>
      match k.socketStateOf slot fd, k.objects.sockets.bind name with
      | .ok .unbound, (.bound listener, _) => .bound listener
      | _, _ => .quiet
    | .call slot (.connect fd (.ok name)) =>
      match k.socketStateOf slot fd, k.objects.sockets.connect name with
      | .ok .unbound, (.connected conn, sockets, _) =>
        .connected conn (sockets.connections conn).listener
      | _, _ => .quiet
    | .call slot (.sendmsg fd (.ok msg)) =>
      match k.socketStateOf slot fd, msg.controlFd with
      | .ok (.stream conn side), some shmFd =>
        match k.shmOf slot shmFd, k.sendFd slot conn side shmFd with
        | .ok shm, .ok _ => .sent shm
        | _, _ => .quiet
      | _, _ => .quiet
    | .call slot (.close fd) =>
      match (k.files slot).remove fd with
      | .ok (file, _) => .closed [file]
      | .error _ => .quiet
    | .exit slot _ => .closed (k.files slot).files
    | _ => .quiet

end System

end Zaytos.Kernel

/-! Every step of the system changes the ledger in one of the ways the ledger has. -/
namespace Zaytos.Kernel

theorem TaskState.wake_eq_waiting {state : TaskState} {on : Wait} {set : WaitSet}
    (woken : state.wake on = .waiting set) : state = .waiting set ∧ on ∉ set.reasons := by
  unfold wake at woken
  split at woken
  · cases woken
  · rename_i quiet
    subst woken
    refine ⟨rfl, fun mem => quiet ?_⟩
    exact List.elem_eq_true_of_mem mem

namespace System

variable {k k' : System} {slot : Slot}

section Held

theorem heldByTask_cons (p : Process) (rest : List Process) :
    heldByTask (p :: rest) = (p.files.files : Multiset File) + heldByTask rest := by
  unfold heldByTask
  rw [List.map_cons, List.sum_cons]

theorem held_update (k : System) (slot : Slot) (processes : List Process) :
    { k with processes := Function.update k.processes slot processes }.held +
      heldByTask (k.processes slot) = k.held + heldByTask processes := by
  have shuffle : ∀ a b ends request x y : Multiset File, a + x = b + y →
      a + ends + request + x = b + ends + request + y := by
    intro a b ends request x y sum
    calc a + ends + request + x = a + x + (ends + request) := by abel
      _ = b + y + (ends + request) := by rw [sum]
      _ = b + ends + request + y := by abel
  exact shuffle _ _ _ _ _ _ (sum_update_add heldByTask k.processes slot processes)

theorem held_modifyTop {p : Process} {rest : List Process} (top : k.processes slot = p :: rest)
    (f : Process → Process) :
    (k.modifyTop slot f).held + (p.files.files : Multiset File) =
      k.held + ((f p).files.files : Multiset File) := by
  have update := k.held_update slot (onTop f (k.processes slot))
  rw [top, onTop, heldByTask_cons, heldByTask_cons, ← add_assoc, ← add_assoc] at update
  unfold modifyTop
  rw [top]
  exact add_right_cancel update

theorem held_modifyTop_of_files {f : Process → Process} (same : ∀ p, (f p).files = p.files) :
    (k.modifyTop slot f).held = k.held := by
  cases top : k.processes slot with
  | nil =>
    have update := k.held_update slot (onTop f (k.processes slot))
    rw [top] at update
    unfold modifyTop
    rw [top]
    exact add_right_cancel update
  | cons p rest =>
    have modified := held_modifyTop top f
    rw [same] at modified
    exact add_right_cancel modified

end Held

def Woken (tasks : Slot → TaskState) (wakes : List Wait) (tasks' : Slot → TaskState) : Prop :=
  ∀ slot set, tasks' slot = .waiting set →
    tasks slot = .waiting set ∧ ∀ on ∈ wakes, on ∉ set.reasons

theorem Woken.refl (tasks : Slot → TaskState) : Woken tasks [] tasks :=
  fun _ _ waits => ⟨waits, fun _ mem => absurd mem List.not_mem_nil⟩

theorem Woken.trans {tasks tasks' tasks'' : Slot → TaskState} {wakes others : List Wait}
    (first : Woken tasks wakes tasks') (rest : Woken tasks' others tasks'') :
    Woken tasks (wakes ++ others) tasks'' := by
  intro slot set waits
  obtain ⟨waited, quiet⟩ := rest slot set waits
  obtain ⟨waited', quiet'⟩ := first slot set waited
  refine ⟨waited', fun on mem => ?_⟩
  rcases List.mem_append.mp mem with inFirst | inRest
  · exact quiet' on inFirst
  · exact quiet on inRest

theorem woken_wake (k : System) (wakes : List Wait) : Woken k.tasks wakes (k.wake wakes).tasks := by
  intro slot set waits
  have fold : ∀ state : TaskState, wakes.foldl (fun state on => state.wake on) state = .waiting set →
      state = .waiting set ∧ ∀ on ∈ wakes, on ∉ set.reasons := by
    clear waits
    induction wakes with
    | nil => exact fun state waits => ⟨waits, fun _ mem => absurd mem List.not_mem_nil⟩
    | cons on rest ih =>
      intro state waits
      obtain ⟨woken, quiet⟩ := ih _ waits
      obtain ⟨waited, notOn⟩ := TaskState.wake_eq_waiting woken
      refine ⟨waited, fun other mem => ?_⟩
      rcases List.mem_cons.mp mem with rfl | mem
      · exact notOn
      · exact quiet other mem
  exact fold _ waits

def Stopped (k : System) : Prop :=
  k.tasks detachedSlot = .uninitialized ∨ k.tasks detachedSlot = .finished

/-- Nobody goes on to another place, no end changes hands but through tables, and neither the
clock nor what is known of the child changes. -/
structure Control (k k' : System) : Prop where
  detached : k'.detached = k.detached
  inherited : k'.inherited = k.inherited
  doings : ∀ slot, (k'.processes slot).map Process.doing = (k.processes slot).map Process.doing
  stopped : k'.Stopped → k.Stopped
  ticks : k'.ticks = k.ticks
  status : k'.status = k.status
  generation : k'.generation = k.generation
  pending : k.pendingStdin detachedSlot = none → k'.pendingStdin detachedSlot = none

namespace Control

theorem objects (k : System) (objects : Objects) : Control k { k with objects } :=
  ⟨rfl, rfl, fun _ => rfl, id, rfl, rfl, rfl, id⟩

theorem refl (k : System) : Control k k := .objects k _

theorem trans {k'' : System} (first : Control k k') (rest : Control k' k'') : Control k k'' :=
  ⟨rest.detached.trans first.detached, rest.inherited.trans first.inherited,
    fun slot => (rest.doings slot).trans (first.doings slot), fun stopped => first.stopped
      (rest.stopped stopped),
    rest.ticks.trans first.ticks, rest.status.trans first.status,
    rest.generation.trans first.generation, fun none => rest.pending (first.pending none)⟩

theorem depth (control : Control k k') (slot : Slot) :
    (k'.processes slot).length = (k.processes slot).length := by
  have lengths := congrArg List.length (control.doings slot)
  rwa [List.length_map, List.length_map] at lengths

theorem doing (control : Control k k') (slot : Slot) : k'.doing slot = k.doing slot := by
  unfold System.doing
  rw [← List.head?_map, ← List.head?_map, control.doings]

theorem of_wake {wakes : List Wait} (detached : k'.detached = k.detached)
    (inherited : k'.inherited = k.inherited) (processes : k'.processes = k.processes)
    (tasks : k'.tasks = (k.wake wakes).tasks) (ticks : k'.ticks = k.ticks)
    (status : k'.status = k.status) (generation : k'.generation = k.generation)
    (pending : k.pendingStdin detachedSlot = none → k'.pendingStdin detachedSlot = none) :
    Control k k' := by
  have fold : ∀ state : TaskState,
      wakes.foldl (fun state on => state.wake on) state = .uninitialized ∨
        wakes.foldl (fun state on => state.wake on) state = .finished →
      state = .uninitialized ∨ state = .finished := by
    clear tasks
    induction wakes with
    | nil => exact fun state stopped => stopped
    | cons on rest ih =>
      intro state stopped
      have first := ih _ stopped
      unfold TaskState.wake at first
      dsimp only at first
      split at first
      · simp at first
      · exact first
  refine ⟨detached, inherited, fun slot => by rw [processes], fun stopped => ?_,
    ticks, status, generation, pending⟩
  unfold Stopped at stopped
  rw [tasks] at stopped
  exact fold _ stopped

theorem wakes (k : System) (objects : Objects) (wakes : List Wait) :
    Control k ({ k with objects }.wake wakes) :=
  .of_wake rfl rfl rfl rfl rfl rfl rfl id

theorem setFiles (k : System) (slot : Slot) (t : FileTable) : Control k (k.setFiles slot t) := by
  refine ⟨rfl, rfl, fun other => ?_, id, rfl, rfl, rfl, id⟩
  unfold System.setFiles modifyTop
  by_cases same : other = slot
  · subst same
    dsimp only
    rw [Function.update_self]
    cases k.processes other <;> rfl
  · dsimp only
    rw [Function.update_of_ne same]

end Control

/-- The system goes from `k` to `k'` by moves on the ledger. -/
structure Quietly (k : System) (wakes : List Wait) (k' : System) : Prop where
  moves : k.ledger.Moves wakes k'.ledger
  tasks : Woken k.tasks wakes k'.tasks
  control : Control k k'

/-- The system goes from `k` to `k'` by a change of the ledger. -/
def Follows (k : System) (event : Event) (k' : System) : Prop :=
  ∃ wakes, Ledger.Change event k.ledger wakes k'.ledger ∧ Woken k.tasks wakes k'.tasks

namespace Quietly

theorem refl (k : System) : Quietly k [] k := ⟨.refl _, .refl _, .refl k⟩

theorem trans {k'' : System} {wakes others : List Wait} (first : Quietly k wakes k')
    (rest : Quietly k' others k'') : Quietly k (wakes ++ others) k'' :=
  ⟨first.moves.trans rest.moves, first.tasks.trans rest.tasks,
    first.control.trans rest.control⟩

theorem of_objects {objects : Objects} {wakes : List Wait}
    (moves : k.ledger.Moves wakes { k.ledger with objects }) :
    Quietly k wakes ({ k with objects }.wake wakes) :=
  ⟨moves, woken_wake { k with objects } wakes, .of_wake rfl rfl rfl rfl rfl rfl rfl id⟩

theorem pipes {pipes : Pipes} {wakes : List Wait}
    (move : k.ledger.Move wakes (k.ledger.setPipes pipes)) :
    Quietly k wakes ((k.setPipes pipes).wake wakes) :=
  of_objects (.one move)

theorem sockets {sockets : Sockets} {wakes : List Wait}
    (move : k.ledger.Move wakes (k.ledger.setSockets sockets)) :
    Quietly k wakes ((k.setSockets sockets).wake wakes) :=
  of_objects (.one move)

end Quietly

section Tables

structure Gains (k : System) (file : File) (k' : System) : Prop where
  ledger : k'.ledger = k.ledger.hold file
  tasks : k'.tasks = k.tasks
  control : Control k k'

theorem gains_setFiles {file : File} {t : FileTable} (top : k.processes slot ≠ [])
    (files : (t.files : Multiset File) = file ::ₘ ((k.files slot).files : Multiset File)) :
    Gains k file (k.setFiles slot t) := by
  obtain ⟨p, rest, eq⟩ := List.exists_cons_of_ne_nil top
  have current : k.files slot = p.files := by
    unfold System.files
    rw [eq]
  have held := held_modifyTop eq fun p => { p with files := t }
  rw [current] at files
  rw [show ((({ p with files := t } : Process).files.files : List File) : Multiset File) = _ from files,
    Multiset.add_cons, ← Multiset.cons_add] at held
  refine ⟨?_, rfl, .setFiles k slot t⟩
  show Ledger.mk _ _ _ = Ledger.mk _ _ _
  congr 1
  exact add_right_cancel held

theorem gains_insertFile {file : File} {fd : Nat} (top : k.processes slot ≠ [])
    (ok : k.insertFile slot file = .ok (fd, k')) : Gains k file k' := by
  unfold insertFile at ok
  split at ok
  · rename_i fd' t inserted
    obtain ⟨-, rfl⟩ := Prod.mk.inj (Except.ok.inj ok)
    exact gains_setFiles top (FileTable.insert_ok inserted)
  · cases ok

theorem Gains.quietly {file : File} (gains : Gains k file k') (plain : file.isPlain = true) :
    Quietly k [] k' := by
  refine ⟨?_, ?_, gains.control⟩
  · rw [gains.ledger]
    refine .one (.plain fun other notPlain => ?_)
    rw [Multiset.count_cons_of_ne]
    rintro rfl
    exact Bool.noConfusion (plain.symm.trans notPlain)
  · rw [gains.tasks]
    exact .refl _

theorem replaceFile_ledger {old : File} {fd : Nat} (file : File) (top : k.processes slot ≠ [])
    (was : (k.files slot).get fd = .ok old) (plain : old.isPlain = true) :
    (k.ledger.hold file).Move [] (k.replaceFile slot fd file).ledger ∧
    (k.replaceFile slot fd file).tasks = k.tasks ∧ Control k (k.replaceFile slot fd file) := by
  obtain ⟨p, rest, eq⟩ := List.exists_cons_of_ne_nil top
  have current : k.files slot = p.files := by
    unfold System.files
    rw [eq]
  obtain ⟨previous, files⟩ := FileTable.replace_ok file was
  have replaced : k.replaceFile slot fd file =
      (k.setFiles slot ((k.files slot).replace fd file).2).wake [] := by
    unfold replaceFile
    dsimp only
    rw [previous]
    dsimp only
    unfold release
    rw [Objects.releaseEnd_plain _ plain]
  have held : (k.setFiles slot ((k.files slot).replace fd file).2).held +
      (p.files.files : Multiset File) =
      k.held + (((k.files slot).replace fd file).2.files : Multiset File) := held_modifyTop eq _
  rw [replaced]
  refine ⟨.plain fun other notPlain => ?_, rfl, .setFiles k slot _⟩
  have ne : other ≠ old := by
    rintro rfl
    exact Bool.noConfusion (plain.symm.trans notPlain)
  have counts := congrArg (Multiset.count other) held
  have counts' := congrArg (Multiset.count other) files
  rw [Multiset.count_add, Multiset.count_add] at counts
  rw [Multiset.count_cons_of_ne ne, Multiset.count_cons, current] at counts'
  show Multiset.count other (k.setFiles slot _).held = Multiset.count other (file ::ₘ k.held)
  rw [Multiset.count_cons]
  rw [current] at counts ⊢
  omega

end Tables

section Moves

/-- The system goes from `k` to `k'` by moves, whoever is woken. -/
def Quiet (k k' : System) : Prop := ∃ wakes, Quietly k wakes k'

theorem Quiet.refl (k : System) : Quiet k k := ⟨[], .refl k⟩

theorem Quiet.follows (quiet : Quiet k k') : Follows k .quiet k' := by
  obtain ⟨wakes, quietly⟩ := quiet
  exact ⟨wakes, .quiet quietly.moves, quietly.tasks⟩

theorem Quiet.control (quiet : Quiet k k') : Control k k' := by
  obtain ⟨wakes, quietly⟩ := quiet
  exact quietly.control

theorem Quiet.trans {k'' : System} (first : Quiet k k') (rest : Quiet k' k'') : Quiet k k'' := by
  obtain ⟨_, first⟩ := first
  obtain ⟨_, rest⟩ := rest
  exact ⟨_, first.trans rest⟩

theorem quiet_of_ledger (ledger : k'.ledger = k.ledger) (tasks : k'.tasks = k.tasks)
    (control : Control k k') : Quiet k k' := by
  refine ⟨[], ?_, ?_, control⟩
  · rw [ledger]
    exact .refl _
  · rw [tasks]
    exact .refl _

/-- The system goes from `k` to `k'` by a change of the ledger, and nobody goes elsewhere. -/
def Ordinary (k : System) (event : Event) (k' : System) : Prop :=
  Follows k event k' ∧ Control k k'

theorem Quiet.ordinary (quiet : Quiet k k') : Ordinary k .quiet k' := ⟨quiet.follows, quiet.control⟩

end Moves

end System

end Zaytos.Kernel
