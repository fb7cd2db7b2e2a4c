import Zaytos.Kernel.Follow
import Zaytos.Kernel.Touches

set_option autoImplicit false

/-! What the calls do to the ledger. -/
namespace Zaytos.Kernel

namespace System

variable {k k' : System} {slot : Slot}

section Data

theorem readFromPipe_quiet (k : System) (pipe count : Nat) (valid : Bool) :
    Quiet k (k.readFromPipe pipe count valid).2 := by
  unfold readFromPipe
  split
  · exact .refl k
  · split
    · exact ⟨_, .pipes (.pipeRead pipe _)⟩
    · exact .refl k

theorem writeToPipe_quiet (k : System) (pipe count : Nat) (bytes : List UInt8) :
    Quiet k (k.writeToPipe pipe count bytes).2 := by
  unfold writeToPipe
  split
  · exact .refl k
  · split
    · exact .refl k
    · exact ⟨_, .pipes (.pipeWrite pipe _)⟩

theorem readFromSocket_quiet (k : System) (conn : Nat) (side : Side) (count : Nat) (valid : Bool) :
    Quiet k (k.readFromSocket conn side count valid).2 := by
  unfold readFromSocket
  split
  · exact .refl k
  · split
    · exact ⟨_, .sockets (.socketRead conn side _)⟩
    · exact .refl k

theorem writeToSocket_quiet (k : System) (conn : Nat) (side : Side) (count : Nat)
    (bytes : List UInt8) : Quiet k (k.writeToSocket conn side count bytes).2 := by
  unfold writeToSocket
  split
  · exact .refl k
  · split
    · exact .refl k
    · exact ⟨_, .sockets (.socketWrite conn side _)⟩

theorem readRegular_quiet (k : System) (fd : Nat) (inode : Fs.Inode) (offset : Nat)
    (writable : Bool) (count : Nat) (valid : Bool) (top : k.processes slot ≠ []) :
    Quiet k (k.readRegular slot fd inode offset writable count valid).2 := by
  have advanced : ∀ bytes, Quiet k (k.setFiles slot ((k.files slot).advance fd bytes)) := by
    intro bytes
    obtain ⟨p, rest, eq⟩ := List.exists_cons_of_ne_nil top
    have current : k.files slot = p.files := by
      unfold System.files
      rw [eq]
    have held : (k.setFiles slot ((k.files slot).advance fd bytes)).held +
        (p.files.files : Multiset File) =
        k.held + (((k.files slot).advance fd bytes).files : Multiset File) := held_modifyTop eq _
    refine ⟨[], .one (.plain fun other notPlain => ?_), .refl _, .setFiles k slot _⟩
    have noInode : other.inode = none := by
      cases other <;> first | rfl | cases notPlain
    have counts := congrArg (Multiset.count other) held
    rw [Multiset.count_add, Multiset.count_add, FileTable.count_advance _ _ _ noInode, current]
      at counts
    show Multiset.count other (k.setFiles slot _).held = Multiset.count other k.held
    rw [current]
    omega
  unfold readRegular
  split
  · exact .refl k
  split
  · exact .refl k
  dsimp only
  split
  · exact .refl k
  split
  · exact .refl k
  split
  · exact .refl k
  · exact .refl k
  split
  · exact .refl k
  · exact .refl k
  · exact advanced _

theorem readTerminal_quiet (k : System) (fd count : Nat) (valid : Bool) :
    Quiet k (k.readTerminal fd count valid).2 := by
  unfold readTerminal
  split
  · exact .refl k
  split
  · exact .refl k
  split
  · exact .refl k
  · exact quiet_of_ledger rfl rfl ⟨rfl, rfl, fun _ => rfl, id, rfl, rfl, rfl, id⟩

theorem readInputEvents_quiet (k : System) (fd count : Nat) (valid : Bool) :
    Quiet k (k.readInputEvents fd count valid).2 := by
  unfold readInputEvents
  split
  · exact .refl k
  split
  · exact .refl k
  split
  · exact .refl k
  · exact quiet_of_ledger rfl rfl ⟨rfl, rfl, fun _ => rfl, id, rfl, rfl, rfl, id⟩

theorem sysRead_quiet (k : System) (fd count : Nat) (valid : Bool) (top : k.processes slot ≠ []) :
    Quiet k (k.sysRead slot fd count valid).2 := by
  unfold sysRead
  split
  · exact .refl k
  · split
    · exact k.readFromPipe_quiet _ _ _
    · split
      · exact k.readFromSocket_quiet _ _ _ _
      · exact .refl k
      · split
        · exact k.readInputEvents_quiet _ _ _
        · split
          · exact .refl k
          · split
            · exact k.readTerminal_quiet _ _ _
            · exact k.readRegular_quiet _ _ _ _ _ _ top

theorem sysWrite_quiet (k : System) (fd count : Nat) (bytes : List UInt8) (other : Ret × Bytes) :
    Quiet k (k.sysWrite slot fd count bytes other).2 := by
  unfold sysWrite
  split
  · exact .refl k
  · split
    · exact k.writeToPipe_quiet _ _ _
    · split
      · exact k.writeToSocket_quiet _ _ _ _
      · exact .refl k
      · exact quiet_of_ledger rfl rfl ⟨rfl, rfl, fun _ => rfl, id, rfl, rfl, rfl, id⟩

end Data

section Sockets

theorem insertPlain_quiet {file : File} (plain : file.isPlain = true) (top : k.processes slot ≠ [])
    {fd : Nat} (ok : k.insertFile slot file = .ok (fd, k')) : Quiet k k' :=
  ⟨[], (gains_insertFile top ok).quietly plain⟩

theorem socketFromRing3_quiet (k : System) (domain kind protocol : Nat)
    (top : k.processes slot ≠ []) : Quiet k (k.socketFromRing3 slot domain kind protocol).2 := by
  unfold socketFromRing3
  split
  · exact .refl k
  split
  · exact .refl k
  split
  · exact .refl k
  split
  · rename_i inserted
    exact insertPlain_quiet rfl top inserted
  · exact .refl k

theorem listenFromRing3_quiet (k : System) (fd : Nat) : Quiet k (k.listenFromRing3 slot fd).2 := by
  unfold listenFromRing3
  split
  · rename_i listener state
    split
    · rename_i sockets listening
      have move : k.ledger.Move [] (k.ledger.setSockets (k.objects.sockets.listen listener).2) :=
        .listen listener
      rw [listening] at move
      exact ⟨_, .sockets move⟩
    · exact .refl k
  · exact .refl k
  · exact .refl k

theorem shmOf_mem {fd shm : Nat} (top : k.processes slot ≠ []) (ok : k.shmOf slot fd = .ok shm) :
    File.shm shm ∈ k.held := by
  obtain ⟨p, rest, eq⟩ := List.exists_cons_of_ne_nil top
  have current : k.files slot = p.files := by
    unfold System.files
    rw [eq]
  unfold shmOf at ok
  split at ok
  · rename_i file found
    split at ok
    · rename_i index isShm
      obtain rfl := Except.ok.inj ok
      have isFile : file = .shm index := by
        cases file <;> cases isShm
        rfl
      subst isFile
      rw [current] at found
      have inTable : File.shm index ∈ heldByTask (k.processes slot) := by
        rw [eq, heldByTask_cons]
        exact Multiset.mem_add.mpr (.inl (Multiset.mem_coe.mpr (FileTable.mem_files found)))
      have inTables : File.shm index ∈ ∑ slot, heldByTask (k.processes slot) :=
        Multiset.mem_sum.mpr ⟨slot, Finset.mem_univ _, inTable⟩
      exact Multiset.mem_add.mpr (.inl (Multiset.mem_add.mpr (.inl inTables)))
    · cases ok
  · cases ok

theorem sendFd_sent {conn fd : Nat} {side : Side} (top : k.processes slot ≠ [])
    (ok : k.sendFd slot conn side fd = .ok k') {t : System} (rest : Quiet k' t) :
    ∃ shm, k.shmOf slot fd = .ok shm ∧ Ordinary k (.sent shm) t := by
  unfold sendFd at ok
  split at ok
  · cases ok
  · rename_i shm found
    split at ok
    · cases ok
    · rename_i sockets wakes queued
      obtain rfl := Except.ok.inj ok
      obtain ⟨others, rest⟩ := rest
      refine ⟨shm, found, ⟨wakes ++ others, .sent (shmOf_mem top found) queued rest.moves, ?_⟩, ?_⟩
      · exact (woken_wake (k.setSockets sockets) wakes).trans rest.tasks
      · exact ((Control.wakes k _ wakes).trans (.objects _ _)).trans rest.control

theorem sendmsgFromRing3_follows (k : System) (fd : Nat) (msg : Except Errno Message)
    (top : k.processes slot ≠ []) :
    Ordinary k (k.event (.call slot (.sendmsg fd msg))) (k.sendmsgFromRing3 slot fd msg).2 := by
  have same := (Quiet.refl k).ordinary
  cases msg with
  | error errno =>
    unfold sendmsgFromRing3
    split <;> exact same
  | ok msg =>
    cases state : k.socketStateOf slot fd with
    | error errno => simpa only [event, accepting, sendmsgFromRing3, state] using same
    | ok state' =>
      cases state' with
      | unbound => simpa only [event, accepting, sendmsgFromRing3, state] using same
      | listener _ => simpa only [event, accepting, sendmsgFromRing3, state] using same
      | stream conn side =>
        cases control : msg.controlFd with
        | none =>
          simp only [event, accepting, sendmsgFromRing3, state, control]
          exact (k.writeToSocket_quiet _ _ _ _).ordinary
        | some shmFd =>
          cases sent : k.sendFd slot conn side shmFd with
          | error errno =>
            cases found : k.shmOf slot shmFd <;>
              simpa only [event, accepting, sendmsgFromRing3, state, control, sent, found] using same
          | ok k₁ =>
            obtain ⟨shm, found, ordinary⟩ :=
              sendFd_sent top sent (k₁.writeToSocket_quiet conn side msg.count msg.bytes)
            simp only [event, accepting, sendmsgFromRing3, state, control, sent, found]
            exact ordinary

theorem recvmsgLoop_quiet (k : System) (conn : Nat) (side : Side) (control : ControlBuffer)
    (count : Nat) (valid : Bool) (top : k.processes slot ≠ []) :
    Quiet k (k.recvmsgLoop slot conn side control count valid).2 := by
  unfold recvmsgLoop
  split
  · split
    · rename_i sockets taken
      have same : sockets = k.objects.sockets := by
        rcases k.objects.sockets.takeFd_cases conn side with none | ⟨-, -, shm, -, some⟩
        · exact (Prod.mk.inj (taken.symm.trans none)).2
        · cases (Prod.mk.inj (taken.symm.trans some)).1
      subst same
      exact k.readFromSocket_quiet _ _ _ _
    · rename_i shm sockets taken
      have taken' : k.ledger.Move [] ((k.ledger.setSockets sockets).hold (.shm shm)) := .takeFd taken
      split
      · exact ⟨_, (Ledger.Moves.one taken').trans (.one (.release rfl rfl)),
          woken_wake { k.setSockets sockets with objects := _ } _, .of_wake rfl rfl rfl rfl rfl rfl rfl id⟩
      · rename_i fd k₁ inserted
        have gains := gains_insertFile (k := k.setSockets sockets) top inserted
        have first : Quiet k k₁ := by
          refine ⟨[], .one ?_, ?_, (Control.objects k _).trans gains.control⟩
          · rw [gains.ledger]
            exact taken'
          · rw [gains.tasks]
            exact .refl _
        split
        · exact first
        split
        · exact first
        · exact first.trans (k₁.readFromSocket_quiet _ _ _ _)
  · exact .refl k

theorem recvmsgFromRing3_quiet (k : System) (fd : Nat) (msg : Except Errno Message)
    (top : k.processes slot ≠ []) : Quiet k (k.recvmsgFromRing3 slot fd msg).2 := by
  unfold recvmsgFromRing3
  split
  · split
    · exact .refl k
    · exact k.recvmsgLoop_quiet _ _ _ _ _ top
  · exact .refl k
  · exact .refl k

end Sockets

section Memory

theorem memfdCreateFromRing3_quiet (k : System) (top : k.processes slot ≠ []) :
    Quiet k (k.memfdCreateFromRing3 slot).2 := by
  unfold memfdCreateFromRing3
  split
  · exact .refl k
  · rename_i shm memory made
    have made' : k.ledger.Move [] ((k.ledger.setMemory memory).hold (.shm shm)) := .shmCreate made
    split
    · rename_i fd k₁ inserted
      have gains := gains_insertFile (k := k.setMemory memory) top inserted
      refine ⟨[], .one ?_, ?_, (Control.objects k _).trans gains.control⟩
      · rw [gains.ledger]
        exact made'
      · rw [gains.tasks]
        exact .refl _
    · exact ⟨_, (Ledger.Moves.one made').trans (.one (.release rfl rfl)),
        woken_wake { k.setMemory memory with objects := _ } _, .of_wake rfl rfl rfl rfl rfl rfl rfl id⟩

theorem ftruncateFromRing3_quiet (k : System) (fd size : Nat) :
    Quiet k (k.ftruncateFromRing3 slot fd size).2 := by
  unfold ftruncateFromRing3
  split
  · exact .refl k
  · exact ⟨[], .one (.setSize _ size), .refl _, ⟨rfl, rfl, fun _ => rfl, id, rfl, rfl, rfl, id⟩⟩

theorem setSpace_quiet (k : System) (slot : Slot) (space : AddressSpace) (heap : Heap)
    (allocator : FrameAllocator) : Quiet k (k.setSpace slot space heap allocator) := by
  have held : (k.setSpace slot space heap allocator).held = k.held :=
    held_modifyTop_of_files fun p => rfl
  refine ⟨[], .one ?_, .refl _, rfl, rfl, fun other => ?_, id, rfl, rfl, rfl, id⟩
  · have frames : k.ledger.Move [] _ := .frames allocator
    show k.ledger.Move [] ⟨(k.setSpace slot space heap allocator).held, _, _⟩
    rw [held]
    exact frames
  · show (Function.update k.processes slot _ other).map Process.doing = _
    by_cases same : other = slot
    · subst same
      rw [Function.update_self]
      cases k.processes other <;> rfl
    · rw [Function.update_of_ne same]

theorem mmapFromRing3_quiet (k : System) (len : Nat) (exec : Bool) (fd offset : Nat) :
    Quiet k (k.mmapFromRing3 slot len exec fd offset).2 := by
  unfold mmapFromRing3
  split
  · exact .refl k
  split
  · exact .refl k
  split
  · exact .refl k
  split
  · exact .refl k
  split
  · exact .refl k
  dsimp only
  have moved : ∀ next, Quiet k { k with mmapNext := Function.update k.mmapNext slot next } :=
    fun next => quiet_of_ledger rfl rfl ⟨rfl, rfl, fun _ => rfl, id, rfl, rfl, rfl, id⟩
  split
  · exact moved _
  · exact (moved _).trans (setSpace_quiet _ _ _ _ _)

theorem sysBrk_quiet (k : System) (requested : Nat) : Quiet k (k.sysBrk slot requested).2 := by
  unfold sysBrk
  split
  · exact .refl k
  dsimp only
  split
  · exact .refl k
  split
  · exact .refl k
  split
  · exact .refl k
  split
  · exact k.setSpace_quiet _ _ _ _
  split
  · split <;> exact k.setSpace_quiet _ _ _ _
  · exact k.setSpace_quiet _ _ _ _

end Memory

section Open

theorem sysOpen_quiet (k : System) (found : Except Errno (Fs.Inode × Bool)) (root : Bytes)
    (top : k.processes slot ≠ []) : Quiet k (k.sysOpen slot found root).2 := by
  have rooted : Quiet k { k with root } := quiet_of_ledger rfl rfl ⟨rfl, rfl, fun _ => rfl, id, rfl, rfl, rfl, id⟩
  unfold sysOpen
  split
  · exact rooted
  · split
    · rename_i inserted
      exact rooted.trans (insertPlain_quiet (k := { k with root }) rfl top inserted)
    · exact rooted

theorem openInputFromRing3_quiet (k : System) (top : k.processes slot ≠ []) :
    Quiet k (k.openInputFromRing3 slot).2 := by
  unfold openInputFromRing3
  split
  · split
    · rename_i inserted
      exact insertPlain_quiet rfl top inserted
    · exact .refl k
  · exact .refl k

theorem openScreenFromRing3_quiet (k : System) (entered : Except Errno Unit)
    (top : k.processes slot ≠ []) : Quiet k (k.openScreenFromRing3 slot entered).2 := by
  unfold openScreenFromRing3
  split
  · split
    · exact .refl k
    · split
      · rename_i inserted
        exact insertPlain_quiet rfl top inserted
      · exact .refl k
  · exact .refl k

end Open

section Spawn

theorem Woken.update (tasks : Slot → TaskState) (slot : Slot) {state : TaskState}
    (awake : state.isWaiting = false) : Woken tasks [] (Function.update tasks slot state) := by
  intro other set waits
  by_cases same : other = slot
  · subst same
    rw [Function.update_self] at waits
    subst waits
    cases awake
  · rw [Function.update_of_ne same] at waits
    exact ⟨waits, fun _ mem => absurd mem List.not_mem_nil⟩

theorem childLoop_quiet (k : System) (handle : Nat) : Quiet k (k.childLoop handle).2 := by
  unfold childLoop
  split
  · split
    · rename_i finished
      exact ⟨[], .refl _, .update _ _ rfl, ⟨rfl, rfl, fun _ => rfl, fun _ => .inr finished, rfl, rfl, rfl, id⟩⟩
    · exact .refl k
  · exact .refl k

theorem reservations_take {pipe : Nat} (pending : k.pendingStdin slot = some pipe) :
    k.ledger.reservations = pipe ::ₘ ({ k with
      pendingStdin := Function.update k.pendingStdin slot none } : System).ledger.reservations := by
  have sum := sum_update_add (fun pending : Option Nat => (pending.toList : Multiset Nat))
    k.pendingStdin slot none
  rw [pending] at sum
  rw [← Multiset.singleton_add, add_comm]
  exact ((add_zero _).symm.trans sum.symm)

theorem pending_taken (k : System) (slot : Slot) (none : k.pendingStdin detachedSlot = none) :
    Function.update k.pendingStdin slot .none detachedSlot = .none := by
  rw [Function.update_apply]
  split
  · rfl
  · exact none

theorem waitChildFromRing3_quiet (k : System) (handle : Nat) :
    Quiet k (k.waitChildFromRing3 slot handle).2 := by
  unfold waitChildFromRing3
  split
  · exact k.childLoop_quiet handle
  · rename_i pipe pending
    have dropped : Quiet k ((({ k with
        pendingStdin := Function.update k.pendingStdin slot none } : System).setPipes
          (k.objects.pipes.dropReservation pipe).2.1).wake
            (k.objects.pipes.dropReservation pipe).2.2) :=
      ⟨_, .one (.dropReservation (reservations_take pending)), woken_wake _ _,
        .of_wake rfl rfl rfl rfl rfl rfl rfl (pending_taken k slot)⟩
    exact dropped.trans (childLoop_quiet _ handle)

theorem held_of_requested (k' : System) {pipe : Option Nat} (none : k.requestedEnd = none)
    (processes : k'.processes = k.processes) (inherited : k'.inherited = k.inherited)
    (requested : k'.requestedEnd = pipe) :
    k'.held = ((pipe.map File.pipeWrite).toList : Multiset File) + k.held := by
  unfold held
  rw [processes, inherited, requested, none, add_comm]
  exact congrArg _ (add_zero _).symm

theorem reservations_set (k : System) (slot : Slot) (pipe : Nat) :
    ∃ reservations : Multiset Nat,
      k.ledger.reservations = ((k.pendingStdin slot).toList : Multiset Nat) + reservations ∧
      ({ k with pendingStdin := Function.update k.pendingStdin slot (some pipe) } :
        System).ledger.reservations = pipe ::ₘ reservations := by
  have taken := sum_update_add (fun pending : Option Nat => (pending.toList : Multiset Nat))
    k.pendingStdin slot none
  have set := sum_update_add (fun pending : Option Nat => (pending.toList : Multiset Nat))
    (Function.update k.pendingStdin slot none) slot (some pipe)
  rw [Function.update_idem, Function.update_self] at set
  refine ⟨∑ other, ((Function.update k.pendingStdin slot none other).toList : Multiset Nat), ?_, ?_⟩
  · rw [add_comm]
    exact ((add_zero _).symm.trans taken.symm)
  · rw [← Multiset.singleton_add, add_comm]
    exact ((add_zero _).symm.trans set)

theorem startDetached_none (k : System) (stdoutPipe : Option Nat) {k' : System}
    (refused : k.startDetached stdoutPipe = (none, k')) : k' = { k with request := none } := by
  unfold startDetached at refused
  split at refused
  · cases refused
  · exact (Prod.mk.inj refused).2.symm

theorem startDetached_some {stdoutPipe : Option Nat} {handle : Nat} {k' : System}
    (started : k.startDetached stdoutPipe = (some handle, k')) :
    k.tasks detachedSlot = .uninitialized ∧ k' = { k with
      generation := k.generation + 1
      tasks := Function.update k.tasks detachedSlot .ready
      request := some stdoutPipe
      detached := .requested } := by
  unfold startDetached at started
  split at started
  · rename_i free
    exact ⟨free, (Prod.mk.inj started).2.symm⟩
  · cases started

theorem spawnDetachedFromRing3_follows (k : System) (flags : Nat) (args : Except Errno Unit)
    (idle : k.detached ≠ .requested) :
    Follows k .quiet (k.spawnDetachedFromRing3 slot flags args).2 := by
  have noRequest : ∀ k' : System, k'.detached = k.detached → k'.requestedEnd = none := by
    intro k' same
    unfold requestedEnd
    rw [same, if_neg idle]
  have forgets : ∀ k' : System, k'.detached = k.detached → Quiet k' { k' with request := none } := by
    intro k' same
    refine quiet_of_ledger ?_ rfl ⟨rfl, rfl, fun _ => rfl, id, rfl, rfl, rfl, id⟩
    show Ledger.mk _ _ _ = Ledger.mk _ _ _
    congr 1
    rw [held_of_requested { k' with request := none } (noRequest k' same) rfl rfl
      (noRequest { k' with request := none } same)]
    exact zero_add _
  unfold spawnDetachedFromRing3
  split
  · exact (Quiet.refl k).follows
  split
  · exact (Quiet.refl k).follows
  split
  · split
    · rename_i handle k₁ started
      obtain ⟨-, rfl⟩ := startDetached_some started
      have held := held_of_requested { k with
        generation := k.generation + 1
        tasks := Function.update k.tasks detachedSlot .ready
        request := some none
        detached := .requested } (noRequest k rfl) rfl rfl rfl
      have same : ({ k with
        generation := k.generation + 1
        tasks := Function.update k.tasks detachedSlot .ready
        request := some none
        detached := .requested } : System).ledger = k.ledger := by
        show Ledger.mk _ _ _ = Ledger.mk _ _ _
        rw [held]
        exact congrArg (Ledger.mk · _ _) (zero_add _)
      refine ⟨[], .quiet ?_, .update _ _ rfl⟩
      rw [same]
      exact .refl _
    · rename_i k₁ refused
      rw [startDetached_none k none refused]
      exact (forgets k rfl).follows
  · split
    · exact (Quiet.refl k).follows
    · rename_i pipe pipes made
      split
      · rename_i handle k₁ started
        obtain ⟨-, rfl⟩ := startDetached_some started
        obtain ⟨reservations, was, now⟩ := k.reservations_set slot pipe
        have held := held_of_requested { k.setPipes pipes with
          generation := k.generation + 1
          tasks := Function.update k.tasks detachedSlot .ready
          request := some (some pipe)
          detached := .requested } (noRequest k rfl) rfl rfl rfl
        refine ⟨[], .quiet (.one ?_), .update _ _ rfl⟩
        have move := Ledger.Move.pipeCreate made was
        rw [← now] at move
        have same : File.pipeWrite pipe ::ₘ k.held = _ := held.symm
        unfold Ledger.hold Ledger.setPipes at move
        rw [show k.ledger.held = k.held from rfl, same] at move
        exact move
      · rename_i k₁ refused
        rw [startDetached_none _ _ refused]
        refine ((forgets k rfl).trans ⟨_, (Ledger.Moves.one (.pipeCreate made (zero_add _).symm)).trans
          ((Ledger.Moves.one (.dropReservation rfl)).trans (.one (.release rfl rfl))), ?_, ?_⟩).follows
        · exact (Woken.refl _).trans ((woken_wake _ _).trans (woken_wake _ _))
        · exact (Control.wakes _ _ _).trans (Control.wakes _ _ _)

theorem held_setInherited (k : System) (slot : Slot) (ends : InheritedEnds) :
    (k.setInherited slot ends).held + heldByEnds (k.inherited slot) = k.held + heldByEnds ends := by
  have shuffle : ∀ tables a b request x y : Multiset File, a + x = b + y →
      tables + a + request + x = tables + b + request + y := by
    intro tables a b request x y sum
    calc tables + a + request + x = tables + (a + x) + request := by abel
      _ = tables + (b + y) + request := by rw [sum]
      _ = tables + b + request + y := by abel
  exact shuffle _ _ _ _ _ _ (sum_update_add heldByEnds k.inherited slot ends)

theorem held_setStdin (none : (k.inherited slot).stdin = none) (pipe : Nat) :
    (k.setInherited slot { k.inherited slot with stdin := some pipe }).held =
      .pipeRead pipe ::ₘ k.held := by
  have held := k.held_setInherited slot { k.inherited slot with stdin := some pipe }
  unfold heldByEnds at held
  rw [none] at held
  have more : ∀ others : Multiset File, ((Option.map File.pipeRead (some pipe)).toList :
      Multiset File) + others = .pipeRead pipe ::ₘ others := fun others => rfl
  rw [more, Multiset.add_cons, ← Multiset.cons_add] at held
  exact add_right_cancel (held.trans (congrArg _ (zero_add _).symm))

theorem spawnWithPipedStdinFromRing3_follows (k : System) (args : Except Errno Unit)
    (none : (k.inherited slot).stdin = none) :
    Follows k .quiet (k.spawnWithPipedStdinFromRing3 slot args).2 := by
  unfold spawnWithPipedStdinFromRing3
  split
  · exact (Quiet.refl k).follows
  · rename_i pipe pending
    split
    · exact (Quiet.refl k).follows
    · dsimp only
      split
      · rename_i pipes refused
        exact ⟨[], .quiet (.one (.noClaim (reservations_take pending) (congrArg Prod.fst refused))),
          .refl _⟩
      · rename_i pipes claimed
        refine ⟨[], .quiet (.one ?_), .refl _⟩
        have move := Ledger.Move.claim (reservations_take pending) claimed
        unfold Ledger.hold Ledger.setPipes at move
        rw [show k.ledger.held = k.held from rfl, ← held_setStdin none pipe] at move
        exact move

end Spawn

section Events

theorem socketStateOf_ok {fd : Nat} {state : SocketState} (ok : k.socketStateOf slot fd = .ok state) :
    (k.files slot).get fd = .ok (.socket state) := by
  unfold socketStateOf at ok
  split at ok
  · rename_i file found
    split at ok
    · rename_i state' isSocket
      obtain rfl := Except.ok.inj ok
      have isFile : file = .socket state' := by
        cases file <;> cases isSocket
        rfl
      exact isFile ▸ found
    · cases ok
  · cases ok

theorem bindFromRing3_follows (k : System) (fd : Nat) (name : Except Errno (List UInt8))
    (top : k.processes slot ≠ []) :
    Ordinary k (k.event (.call slot (.bind fd name))) (k.bindFromRing3 slot fd name).2 := by
  have same := (Quiet.refl k).ordinary
  cases name with
  | error errno =>
    unfold bindFromRing3
    split <;> exact same
  | ok name =>
    cases state : k.socketStateOf slot fd with
    | error errno => simpa only [event, accepting, bindFromRing3, state] using same
    | ok state' =>
      cases state' with
      | listener _ => simpa only [event, accepting, bindFromRing3, state] using same
      | stream _ _ => simpa only [event, accepting, bindFromRing3, state] using same
      | unbound =>
        rcases bound : k.objects.sockets.bind name with ⟨result, sockets⟩
        cases result with
        | nameTaken => simpa only [event, accepting, bindFromRing3, state, bound] using same
        | noRoom => simpa only [event, accepting, bindFromRing3, state, bound] using same
        | bound listener =>
          simp only [event, accepting, bindFromRing3, state, bound]
          obtain ⟨move, tasks, control⟩ := replaceFile_ledger (k := k.setSockets sockets)
            (.socket (.listener listener)) top (socketStateOf_ok state) rfl
          refine ⟨⟨[], .bound bound move, ?_⟩, (Control.objects k _).trans control⟩
          rw [tasks]
          exact .refl _

theorem connectFromRing3_follows (k : System) (fd : Nat) (name : Except Errno (List UInt8))
    (top : k.processes slot ≠ []) :
    Ordinary k (k.event (.call slot (.connect fd name))) (k.connectFromRing3 slot fd name).2 := by
  have same := (Quiet.refl k).ordinary
  cases name with
  | error errno =>
    unfold connectFromRing3
    split <;> exact same
  | ok name =>
    cases state : k.socketStateOf slot fd with
    | error errno => simpa only [event, accepting, connectFromRing3, state] using same
    | ok state' =>
      cases state' with
      | listener _ => simpa only [event, accepting, connectFromRing3, state] using same
      | stream _ _ => simpa only [event, accepting, connectFromRing3, state] using same
      | unbound =>
        rcases made : k.objects.sockets.connect name with ⟨result, sockets, wakes⟩
        cases result with
        | noListener => simpa only [event, accepting, connectFromRing3, state, made] using same
        | noRoom => simpa only [event, accepting, connectFromRing3, state, made] using same
        | connected conn =>
          simp only [event, accepting, connectFromRing3, state, made]
          obtain ⟨move, tasks, control⟩ := replaceFile_ledger (k := (k.setSockets sockets).wake wakes)
            (.socket (.stream conn .client)) top (socketStateOf_ok state) rfl
          refine ⟨⟨wakes, .connected made rfl move, ?_⟩,
            (Control.wakes k _ _).trans control⟩
          rw [tasks]
          exact woken_wake _ _

theorem acceptLoop_follows (k : System) {a : Action} {listener : Nat} (top : k.processes slot ≠ [])
    (accepts : k.accepting a = some (slot, listener)) :
    Ordinary k (k.event a) (k.acceptLoop slot listener).2 := by
  have same := (Quiet.refl k).ordinary
  rcases taken : k.objects.sockets.accept listener with ⟨result, sockets⟩
  cases result with
  | empty => simpa only [event, accepts, acceptLoop, taken] using same
  | noListener => simpa only [event, accepts, acceptLoop, taken] using same
  | connection conn =>
    have current : (k.setSockets sockets).files slot = k.files slot := rfl
    rcases inserted : (k.files slot).insert (.socket (.stream conn .server)) with error | ⟨fd, t⟩
    · simp only [event, accepts, acceptLoop, taken, inserted, insertFile, current]
      exact ⟨⟨_, .refused taken, woken_wake { k with objects := _ } _⟩, .of_wake rfl rfl rfl rfl rfl rfl rfl id⟩
    · simp only [event, accepts, acceptLoop, taken, inserted, insertFile, current]
      have gains := gains_setFiles (k := k.setSockets sockets) top (FileTable.insert_ok inserted)
      refine ⟨⟨[], ?_, ?_⟩, (Control.objects k _).trans gains.control⟩
      · rw [gains.ledger]
        exact .accepted taken
      · rw [gains.tasks]
        exact .refl _

theorem acceptFromRing3_follows (k : System) (fd addr : Nat) (top : k.processes slot ≠ []) :
    Ordinary k (k.event (.call slot (.accept fd addr))) (k.acceptFromRing3 slot fd addr).2 := by
  have same := (Quiet.refl k).ordinary
  cases state : k.socketStateOf slot fd with
  | error errno => simpa only [event, accepting, acceptFromRing3, state] using same
  | ok state' =>
    cases state' with
    | unbound => simpa only [event, accepting, acceptFromRing3, state] using same
    | stream _ _ => simpa only [event, accepting, acceptFromRing3, state] using same
    | listener listener =>
      by_cases addressed : addr ≠ 0
      · simpa only [event, accepting, acceptFromRing3, state, if_pos addressed] using same
      · have accepts : k.accepting (.call slot (.accept fd addr)) = some (slot, listener) := by
          simp only [accepting, state, if_neg addressed]
        simp only [acceptFromRing3, state, if_neg addressed]
        exact k.acceptLoop_follows top accepts

theorem sysClose_follows (k : System) (fd : Nat) (top : k.processes slot ≠ []) :
    Ordinary k (k.event (.call slot (.close fd))) (k.sysClose slot fd).2 := by
  rcases removed : (k.files slot).remove fd with error | ⟨file, t⟩
  · simp only [event, accepting, sysClose, removed]
    exact (Quiet.refl k).ordinary
  · simp only [event, accepting, sysClose, removed]
    obtain ⟨p, rest, eq⟩ := List.exists_cons_of_ne_nil top
    have current : k.files slot = p.files := by
      unfold System.files
      rw [eq]
    have fewer : (k.setFiles slot t).held + (p.files.files : Multiset File) =
        k.held + (t.files : Multiset File) := held_modifyTop eq _
    rw [current] at removed
    rw [FileTable.remove_ok removed, Multiset.add_cons, ← Multiset.cons_add] at fewer
    have held : k.ledger.held = ([file] : List File) + (k.setFiles slot t).held :=
      (add_right_cancel fewer).symm
    refine ⟨⟨_, .closed held, ?_⟩, (Control.setFiles k slot t).trans (.of_wake rfl rfl rfl rfl rfl rfl rfl id)⟩
    show Woken k.tasks ((k.objects.releaseEnd file).2 ++ []) _
    rw [List.append_nil]
    exact woken_wake { k.setFiles slot t with objects := _ } _

theorem syscall_ordinary (k : System) (c : Call) (top : k.processes slot ≠ [])
    (other : c.spawns = false) : Ordinary k (k.event (.call slot c)) (k.syscall slot c).2 := by
  cases c with
  | socket domain kind protocol => exact (k.socketFromRing3_quiet _ _ _ top).ordinary
  | bind fd name => exact k.bindFromRing3_follows fd name top
  | listen fd => exact (k.listenFromRing3_quiet fd).ordinary
  | accept fd addr => exact k.acceptFromRing3_follows fd addr top
  | connect fd name => exact k.connectFromRing3_follows fd name top
  | read fd count valid => exact (k.sysRead_quiet fd count valid top).ordinary
  | write fd count bytes elsewhere => exact (k.sysWrite_quiet fd count bytes elsewhere).ordinary
  | sendmsg fd msg => exact k.sendmsgFromRing3_follows fd msg top
  | recvmsg fd msg => exact (k.recvmsgFromRing3_quiet fd msg top).ordinary
  | poll fds timeout valid =>
    show Ordinary k .quiet (k.pollFromRing3 slot fds timeout valid).2
    rw [pollFromRing3_snd]
    exact (Quiet.refl k).ordinary
  | memfdCreate => exact (k.memfdCreateFromRing3_quiet top).ordinary
  | ftruncate fd size => exact (k.ftruncateFromRing3_quiet fd size).ordinary
  | mmap len exec fd offset => exact (k.mmapFromRing3_quiet len exec fd offset).ordinary
  | brk requested => exact (k.sysBrk_quiet requested).ordinary
  | opens found root => exact (k.sysOpen_quiet found root top).ordinary
  | openInput => exact (k.openInputFromRing3_quiet top).ordinary
  | openScreen entered => exact (k.openScreenFromRing3_quiet entered top).ordinary
  | close fd => exact k.sysClose_follows fd top
  | nanosleep request =>
    show Ordinary k .quiet (k.sysNanosleep request).2
    rw [sysNanosleep_snd]
    exact (Quiet.refl k).ordinary
  | waitChild handle => exact (k.waitChildFromRing3_quiet handle).ordinary
  | spawn args => cases args <;> exact (Quiet.refl k).ordinary
  | spawnDetached flags args => cases other
  | spawnWithPipedStdin args => cases other

theorem syscall_follows (k : System) (c : Call) (top : k.processes slot ≠ [])
    (idle : k.detached ≠ .requested) (none : (k.inherited slot).stdin = none) :
    Follows k (k.event (.call slot c)) (k.syscall slot c).2 := by
  cases spawns : c.spawns with
  | false => exact (k.syscall_ordinary c top spawns).1
  | true =>
    cases c with
    | spawnDetached flags args => exact k.spawnDetachedFromRing3_follows flags args idle
    | spawnWithPipedStdin args => exact k.spawnWithPipedStdinFromRing3_follows args none
    | _ => cases spawns

theorem round_ordinary (k : System) {loop : Loop} (waiting : k.doing slot = some (.waiting loop)) :
    Ordinary k (k.event (.resume slot)) (k.round slot loop).2 := by
  have top : k.processes slot ≠ [] := by
    intro empty
    rw [doing, empty] at waiting
    cases waiting
  have quiet : (∀ listener, loop ≠ .accept listener) → k.event (.resume slot) = .quiet := by
    intro other
    cases loop <;> first | exact absurd rfl (other _) | simp only [event, accepting, waiting]
  have keyboard : ∀ outcome : Outcome, ∀ input : Input,
      Quiet k (k.afterKeyboard (outcome, { k with input })).2 := by
    intro outcome input
    unfold afterKeyboard
    split
    · exact quiet_of_ledger rfl rfl ⟨rfl, rfl, fun _ => rfl, id, rfl, rfl, rfl, id⟩
    · exact .refl k
  cases loop with
  | accept listener => exact k.acceptLoop_follows top (by simp only [accepting, waiting])
  | pipeRead pipe want =>
    rw [quiet nofun]
    exact Quiet.ordinary ⟨_, .pipes (.pipeRead pipe want)⟩
  | pipeWrite pipe src =>
    rw [quiet nofun]
    exact Quiet.ordinary ⟨_, .pipes (.pipeWrite pipe src)⟩
  | socketRead conn side want =>
    rw [quiet nofun]
    exact Quiet.ordinary ⟨_, .sockets (.socketRead conn side want)⟩
  | socketWrite conn side src =>
    rw [quiet nofun]
    exact Quiet.ordinary ⟨_, .sockets (.socketWrite conn side src)⟩
  | recvmsg conn side control count valid =>
    rw [quiet nofun]
    exact (k.recvmsgLoop_quiet conn side control count valid top).ordinary
  | poll reasons =>
    rw [quiet nofun]
    show Ordinary k .quiet (k.pollLoop reasons).2
    rw [pollLoop_snd]
    exact (Quiet.refl k).ordinary
  | terminal fd want =>
    rw [quiet nofun]
    exact (keyboard _ _).ordinary
  | input fd cap =>
    rw [quiet nofun]
    exact (keyboard _ _).ordinary
  | sleep deadline =>
    rw [quiet nofun]
    show Ordinary k .quiet (k.sleepLoop deadline).2
    rw [sleepLoop_snd]
    exact (Quiet.refl k).ordinary
  | child handle =>
    rw [quiet nofun]
    exact (k.childLoop_quiet handle).ordinary

end Events

end System

end Zaytos.Kernel
