import Zaytos.Kernel.Machine
import Zaytos.Kernel.SocketSpec

set_option autoImplicit false

/-! What a `sendmsg` that fails has passed on. -/
namespace Zaytos.Kernel

variable {src : List UInt8} {ret : Ret} {steps : List (System × System)}

namespace System

/-- Nothing has reached the other end of a connection, and no object has another reference. -/
structure Unpassed (k t : System) : Prop where
  pendingFd : ∀ conn side, (t.objects.sockets.connections conn).pendingFd side =
    (k.objects.sockets.connections conn).pendingFd side
  refs : ∀ shm, (t.objects.memory.shms shm).refs = (k.objects.memory.shms shm).refs
  rings : ∀ conn side, (t.objects.sockets.connections conn).rings side =
    (k.objects.sockets.connections conn).rings side

/-- `queue_fd` takes the descriptor: it names shared memory, and none is on its way already. -/
def Queues (k : System) (slot : Slot) (conn : Nat) (side : Side) (fd : Nat) : Prop :=
  ∃ shm, k.shmOf slot fd = .ok shm ∧ conn < maxConnections ∧
    (k.objects.sockets.connections conn).inUse = true ∧
    (k.objects.sockets.connections conn).pendingFd side.peer = none

def Takes (k : System) (conn : Nat) (side : Side) : Prop :=
  conn < maxConnections ∧ (k.objects.sockets.connections conn).inUse = true ∧
    (k.objects.sockets.connections conn).isOpen side.peer = true

/-- When a `sendmsg` passes nothing on if it fails: where the descriptor is queued, there are no
bytes to send, or the kernel can read them and the other end is open in every state in which the
call looks at it. -/
def SendsWhole (k : System) (slot : Slot) (fd : Nat) (msg : Except Errno Message)
    (states : List System) : Prop :=
  ∀ conn side m shmFd, k.socketStateOf slot fd = .ok (.stream conn side) → msg = .ok m →
    m.controlFd = some shmFd → k.Queues slot conn side shmFd →
    m.count = 0 ∨ m.bytes.take socketRing ≠ [] ∧ ∀ s ∈ states, s.Takes conn side

variable {k t : System} {slot : Slot} {conn : Nat} {side : Side}

theorem Unpassed.of_objects (same : t.objects = k.objects) : k.Unpassed t := by
  constructor <;> simp [same]

theorem not_takes_of_error (error : (k.objects.sockets.writeFrom conn side src).1 = .peerClosed ∨
      (k.objects.sockets.writeFrom conn side src).1 = .noConnection) : ¬ k.Takes conn side := by
  intro takes
  unfold Sockets.writeFrom at error
  rw [if_pos ⟨takes.1, takes.2.1⟩, if_pos takes.2.2] at error
  dsimp only at error
  split at error <;> simp at error

theorem socketWriteLoop_cases (k : System) (conn : Nat) (side : Side) (src : List UInt8) :
    (¬ k.Takes conn side ∧ (∃ errno, (k.socketWriteLoop conn side src).1 = .done (.error errno)) ∧
      (k.socketWriteLoop conn side src).2.objects = k.objects) ∨
    k.Takes conn side ∧ ((∃ count, (k.socketWriteLoop conn side src).1 = .done (.value count)) ∨
      (∃ set, (k.socketWriteLoop conn side src).1 = .waits set (.socketWrite conn side src)) ∧
        (k.socketWriteLoop conn side src).2.objects = k.objects) := by
  by_cases takes : k.Takes conn side
  · refine .inr ⟨takes, ?_⟩
    unfold socketWriteLoop
    rcases k.objects.sockets.writeFrom_cases conn side src with
      ⟨outcome, eq, noBytes, -⟩ | ⟨-, -, -, count, ring, eq, -⟩
    · rw [eq]
      cases outcome with
      | bytes count => exact absurd rfl (noBytes count)
      | full => exact .inr ⟨⟨_, rfl⟩, rfl⟩
      | peerClosed => exact absurd takes (not_takes_of_error (.inl (by rw [eq])))
      | noConnection => exact absurd takes (not_takes_of_error (.inr (by rw [eq])))
    · rw [eq]
      exact .inl ⟨count, rfl⟩
  · refine .inl ⟨takes, ?_⟩
    unfold socketWriteLoop Sockets.writeFrom
    split
    · rename_i used
      rw [if_neg fun isOpen => takes ⟨used.1, used.2, isOpen⟩]
      exact ⟨⟨_, rfl⟩, rfl⟩
    · exact ⟨⟨_, rfl⟩, rfl⟩

/-- The rounds of `write_to_socket`: the call fails exactly where one of them finds that the
other end takes nothing, and then none of them has changed anything. -/
theorem socketWrite_rounds {set : WaitSet} (rounds : Rounds (fun k : System => k.round slot)
      (.waits set (.socketWrite conn side src)) steps ret) :
    ((∃ errno, ret = .error errno) ↔ ¬ ∀ step ∈ steps, step.1.Takes conn side) ∧
    ((∃ errno, ret = .error errno) → ∀ step ∈ steps, step.1.Unpassed step.2) := by
  apply rounds.induct (P := (· = .socketWrite conn side src)) ?_ ?_ ?_ rfl
  · intro loop k ret same out
    subst same
    change (k.socketWriteLoop conn side src).1 = _ at out
    rcases k.socketWriteLoop_cases conn side src with
      ⟨takes, ⟨errno, eq⟩, kept⟩ | ⟨takes, ⟨count, eq⟩ | ⟨⟨set, eq⟩, -⟩⟩
    · obtain rfl := Outcome.done.inj (eq.symm.trans out)
      refine ⟨⟨fun _ all => takes (all _ (List.mem_singleton.mpr rfl)), fun _ => ⟨errno, rfl⟩⟩, ?_⟩
      intro _ step mem
      obtain rfl := List.mem_singleton.mp mem
      exact .of_objects kept
    · obtain rfl := Outcome.done.inj (eq.symm.trans out)
      refine ⟨⟨fun failed => ?_, fun refused => ?_⟩, fun failed => ?_⟩
      · obtain ⟨errno, failed⟩ := failed
        cases failed
      · refine absurd ?_ refused
        intro step mem
        obtain rfl := List.mem_singleton.mp mem
        exact takes
      · obtain ⟨errno, failed⟩ := failed
        cases failed
    · cases eq.symm.trans out
  · intro loop k set next rest ret same out ⟨failsIff, kept⟩
    subst same
    change (k.socketWriteLoop conn side src).1 = _ at out
    rcases k.socketWriteLoop_cases conn side src with
      ⟨takes, ⟨errno, eq⟩, -⟩ | ⟨takes, ⟨count, eq⟩ | ⟨-, same⟩⟩
    · cases eq.symm.trans out
    · cases eq.symm.trans out
    · rw [failsIff]
      simp only [List.forall_mem_cons]
      refine ⟨⟨fun refused all => refused all.2, fun refused all => refused ⟨takes, all⟩⟩, ?_⟩
      intro failed
      exact ⟨.of_objects same, kept (failsIff.mpr failed)⟩
  · intro loop k set next same out
    subst same
    change (k.socketWriteLoop conn side src).1 = _ at out
    rcases k.socketWriteLoop_cases conn side src with
      ⟨takes, ⟨errno, eq⟩, -⟩ | ⟨takes, ⟨count, eq⟩ | ⟨⟨set, eq⟩, -⟩⟩
    · cases eq.symm.trans out
    · cases eq.symm.trans out
    · exact (Outcome.waits.inj (eq.symm.trans out)).2.symm

theorem writeToSocket_pendingFd (k : System) (conn : Nat) (side : Side) (count : Nat)
    (bytes : List UInt8) (other : Nat) :
    ((k.writeToSocket conn side count bytes).2.objects.sockets.connections other).pendingFd =
      (k.objects.sockets.connections other).pendingFd := by
  unfold writeToSocket
  split
  · rfl
  split
  · rfl
  · unfold socketWriteLoop
    rcases k.objects.sockets.writeFrom_cases conn side (bytes.take socketRing) with
      ⟨outcome, eq, -⟩ | ⟨-, -, -, _, ring, eq, -⟩
    · rw [eq]
      rfl
    · rw [eq]
      show ((k.objects.sockets.setConnection conn _).connections other).pendingFd = _
      rw [Sockets.setConnection_apply]
      split
      · rename_i same
        rw [same]
      · rfl

theorem writeToSocket_own {count : Nat} {bytes : List UInt8} {start : System}
    (own : OwnSteps (fun k : System => k.round slot) start (k.writeToSocket conn side count bytes)
      steps ret) (same : start.Takes conn side ↔ k.Takes conn side) :
    ((∃ errno, ret = .error errno) ↔ ¬ (count = 0 ∨ bytes.take socketRing ≠ [] ∧
      ∀ s ∈ steps.map Prod.fst, s.Takes conn side)) ∧
    ((∃ errno, ret = .error errno) → (k.writeToSocket conn side count bytes).2.objects = k.objects ∧
      ∀ step ∈ steps.tail, step.1.Unpassed step.2) := by
  unfold writeToSocket at own ⊢
  by_cases none : count = 0
  · rw [if_pos none] at own ⊢
    obtain ⟨rfl, rfl⟩ := own.of_done rfl
    simp [none]
  by_cases unread : (bytes.take socketRing).isEmpty = true
  · rw [if_neg none, if_pos unread] at own ⊢
    obtain ⟨rfl, rfl⟩ := own.of_done rfl
    have noBytes := List.isEmpty_iff.mp unread
    simp [none, noBytes]
  rw [if_neg none, if_neg unread] at own ⊢
  have someBytes : bytes.take socketRing ≠ [] := fun noBytes => unread (List.isEmpty_iff.mpr noBytes)
  rcases k.socketWriteLoop_cases conn side (bytes.take socketRing) with
    ⟨takes, ⟨errno, eq⟩, kept⟩ | ⟨takes, ⟨written, eq⟩ | ⟨⟨set, eq⟩, kept⟩⟩
  · obtain ⟨rfl, rfl⟩ := own.of_done eq
    have refused : ¬ start.Takes conn side := fun all => takes (same.mp all)
    simp [none, refused, kept]
  · obtain ⟨rfl, rfl⟩ := own.of_done eq
    simp [someBytes, same.mpr takes]
  · obtain ⟨rest, rfl, rounds⟩ := own
    rw [eq] at rounds
    obtain ⟨failsIff, unpassed⟩ := socketWrite_rounds rounds
    refine ⟨?_, fun failed => ⟨kept, unpassed failed⟩⟩
    rw [failsIff]
    simp [none, someBytes, same.mpr takes]

theorem sendFd_cases (k : System) (slot : Slot) (conn : Nat) (side : Side) (fd : Nat) :
    (¬ k.Queues slot conn side fd ∧ ∃ errno, k.sendFd slot conn side fd = .error errno) ∨
    k.Queues slot conn side fd ∧ ∃ t, k.sendFd slot conn side fd = .ok t ∧
      (t.objects.sockets.connections conn).pendingFd side.peer ≠
        (k.objects.sockets.connections conn).pendingFd side.peer ∧
      (k.Takes conn side ↔ t.Takes conn side) := by
  unfold sendFd
  cases found : k.shmOf slot fd with
  | error errno =>
    refine .inl ⟨?_, errno, rfl⟩
    intro queues
    obtain ⟨shm, named, -⟩ := queues
    cases found.symm.trans named
  | ok shm =>
    by_cases free : conn < maxConnections ∧ (k.objects.sockets.connections conn).inUse = true ∧
        (k.objects.sockets.connections conn).pendingFd side.peer = none
    · refine .inr ⟨⟨shm, found, free⟩, ?_⟩
      have queued : k.objects.sockets.queueFd conn side shm = _ := if_pos free
      dsimp only
      rw [queued]
      refine ⟨_, rfl, ?_, ?_⟩
      · show ((k.objects.sockets.setConnection conn _).connections conn).pendingFd side.peer ≠ _
        rw [Sockets.setConnection_apply, if_pos rfl, free.2.2]
        simp
      · show k.Takes conn side ↔ conn < maxConnections ∧
          ((k.objects.sockets.setConnection conn _).connections conn).inUse = true ∧
          ((k.objects.sockets.setConnection conn _).connections conn).isOpen side.peer = true
        rw [Sockets.setConnection_apply, if_pos rfl]
        rfl
    · refine .inl ⟨?_, .eagain, ?_⟩
      · intro queues
        obtain ⟨shm, -, free'⟩ := queues
        exact free free'
      · have refused : k.objects.sockets.queueFd conn side shm = _ := if_neg free
        dsimp only
        rw [refused]

/-- A `sendmsg` that fails has passed nothing on exactly when what it passes is not queued, or
the bytes that go with it could be sent. -/
theorem sendmsg_unpassed_iff {fd : Nat} {msg : Except Errno Message}
    {steps : List (System × System)} {ret : Ret}
    (own : OwnSteps (fun k : System => k.round slot) k (k.syscall slot (.sendmsg fd msg)) steps ret) :
    ((∃ errno, ret = .error errno) → ∀ step ∈ steps, step.1.Unpassed step.2) ↔
      k.SendsWhole slot fd msg (steps.map Prod.fst) := by
  have kept : ∀ errno, k.syscall slot (.sendmsg fd msg) = (.done (.error errno), k) →
      ∀ step ∈ steps, step.1.Unpassed step.2 := by
    intro errno eq step mem
    rw [eq] at own
    obtain ⟨rfl, -⟩ := own.of_done rfl
    obtain rfl := List.mem_singleton.mp mem
    exact .of_objects rfl
  change OwnSteps _ k (k.sendmsgFromRing3 slot fd msg) steps ret at own
  change ∀ errno, k.sendmsgFromRing3 slot fd msg = _ → _ at kept
  unfold SendsWhole
  unfold sendmsgFromRing3 at own kept
  cases state : k.socketStateOf slot fd with
  | error errno => exact ⟨fun _ => nofun, fun _ _ => kept errno (by rw [state])⟩
  | ok state' =>
    rw [state] at own kept
    cases state' with
    | unbound => exact ⟨fun _ => nofun, fun _ _ => kept .enotconn rfl⟩
    | listener _ => exact ⟨fun _ => nofun, fun _ _ => kept .enotconn rfl⟩
    | stream conn side =>
      cases msg with
      | error errno => exact ⟨fun _ => nofun, fun _ _ => kept errno rfl⟩
      | ok m =>
        dsimp only at own kept
        cases control : m.controlFd with
        | none =>
          rw [control] at own
          obtain ⟨-, unpassed⟩ := writeToSocket_own own Iff.rfl
          refine ⟨fun _ => ?_, fun _ failed => ?_⟩
          · intro conn' side' m' shmFd _ same passes
            cases same
            cases control.symm.trans passes
          · obtain ⟨same, later⟩ := unpassed failed
            obtain ⟨rest, rfl, -⟩ := own
            exact List.forall_mem_cons.mpr ⟨.of_objects same, later⟩
        | some shmFd =>
          rw [control] at own kept
          dsimp only at own kept
          rcases k.sendFd_cases slot conn side shmFd with
            ⟨refused, errno, eq⟩ | ⟨queues, t, eq, changed, same⟩
          · rw [eq] at kept
            refine ⟨fun _ => ?_, fun _ _ => kept errno rfl⟩
            intro conn' side' m' shmFd' here same passes queues
            cases here
            cases same
            cases control.symm.trans passes
            exact absurd queues refused
          · rw [eq] at own
            obtain ⟨failsIff, -⟩ := writeToSocket_own own same
            have passed : ¬ ∀ step ∈ steps, step.1.Unpassed step.2 := by
              intro all
              obtain ⟨rest, rfl, -⟩ := own
              have first := (all _ List.mem_cons_self).pendingFd conn side.peer
              dsimp only at first
              rw [writeToSocket_pendingFd] at first
              exact changed first
            refine ⟨fun unpassed => ?_, fun whole failed => ?_⟩
            · intro conn' side' m' shmFd' here same passes _
              cases here
              cases same
              by_contra stops
              exact passed (unpassed (failsIff.mpr stops))
            · have sends := whole conn side m shmFd rfl rfl control queues
              exact absurd sends (failsIff.mp failed)

/-- A program connects to itself, makes shared memory, and is about to send its descriptor. -/
def sendsFd : List Action :=
  [.load 0 (.runs [1024] 4194304), .call 0 (.socket 1 1 0), .call 0 (.bind 3 (.ok [97])),
    .call 0 (.listen 3), .call 0 (.socket 1 1 0), .call 0 (.connect 4 (.ok [97])),
    .call 0 (.accept 3 0), .call 0 .memfdCreate]

theorem sendmsg_unpassed_one : ∃ k steps, Reachable step (init ⟨4, [⟨1, 100⟩]⟩ ⟨0, fun _ => 0⟩ true) k ∧
    OwnSteps (fun k : System => k.round 0) k
      (k.syscall 0 (.sendmsg 4 (.ok ⟨1, [7], true, some 6, ⟨false, false⟩⟩))) steps (.value 1) ∧
    k.SendsWhole 0 4 (.ok ⟨1, [7], true, some 6, ⟨false, false⟩⟩) (steps.map Prod.fst) := by
  have run : ((runSteps step sendsFd (init ⟨4, [⟨1, 100⟩]⟩ ⟨0, fun _ => 0⟩ true)).map fun k =>
      (k.syscall 0 (.sendmsg 4 (.ok ⟨1, [7], true, some 6, ⟨false, false⟩⟩))).1) =
        some (.done (.value 1)) := by
    decide
  obtain ⟨k, run, returns⟩ := Option.map_eq_some_iff.mp run
  have own : OwnSteps (fun k : System => k.round 0) k
      (k.syscall 0 (.sendmsg 4 (.ok ⟨1, [7], true, some 6, ⟨false, false⟩⟩))) _ (.value 1) :=
    ⟨[], rfl, returns ▸ .returns _⟩
  refine ⟨k, _, Reachable.refl.of_runSteps _ run, own, (sendmsg_unpassed_iff own).mp ?_⟩
  intro failed
  obtain ⟨errno, failed⟩ := failed
  cases failed

/-- The kernel cannot read the bytes that go with the descriptor. The call fails, and the
descriptor is on its way. -/
theorem sendmsg_passes_unread : ∃ k steps, Reachable step (init ⟨4, [⟨1, 100⟩]⟩ ⟨0, fun _ => 0⟩ true) k ∧
    OwnSteps (fun k : System => k.round 0) k
      (k.syscall 0 (.sendmsg 4 (.ok ⟨1, [], true, some 6, ⟨false, false⟩⟩))) steps (.error .efault) ∧
    ¬ ∀ step ∈ steps, step.1.Unpassed step.2 := by
  have run : ((runSteps step sendsFd (init ⟨4, [⟨1, 100⟩]⟩ ⟨0, fun _ => 0⟩ true)).map fun k =>
      let out := k.syscall 0 (.sendmsg 4 (.ok ⟨1, [], true, some 6, ⟨false, false⟩⟩))
      (out.1, (k.objects.sockets.connections 0).pendingFd .server,
        (out.2.objects.sockets.connections 0).pendingFd .server)) =
        some (.done (.error .efault), none, some 0) := by
    decide
  obtain ⟨k, run, seen⟩ := Option.map_eq_some_iff.mp run
  obtain ⟨returns, before, after⟩ := by simpa only [Prod.mk.injEq] using seen
  refine ⟨k, _, Reachable.refl.of_runSteps _ run, ⟨[], rfl, returns ▸ .returns _⟩, fun all => ?_⟩
  have same := (all _ List.mem_cons_self).pendingFd 0 .server
  rw [before, after] at same
  cases same

end System

end Zaytos.Kernel
