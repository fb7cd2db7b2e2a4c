import Zaytos.Kernel.StepFollow

set_option autoImplicit false

/-! Where the programs of the tasks stand, and what a step does to that. -/
namespace Zaytos.Kernel

def Outcome.doing : Outcome → Doing
  | .done _ | .panics => .user
  | .waits _ loop => .waiting loop
  | .goes doing => doing

namespace System

variable {k k' t : System} {slot : Slot}

/-- A task that leaves the kernel changes only where its own program stands, and whether it
waits. -/
structure Leaves (k : System) (slot : Slot) (outcome : Outcome) (t : System) : Prop where
  detached : t.detached = k.detached
  inherited : t.inherited = k.inherited
  depth : ∀ other, (t.processes other).length = (k.processes other).length
  other : ∀ other, other ≠ slot → t.doing other = k.doing other
  self : k.processes slot ≠ [] → t.doing slot = some outcome.doing
  stopped : t.Stopped → k.Stopped
  ticks : t.ticks = k.ticks
  status : t.status = k.status
  generation : t.generation = k.generation
  pending : t.pendingStdin = k.pendingStdin

theorem length_onTop (f : Process → Process) (processes : List Process) :
    (onTop f processes).length = processes.length := by
  cases processes <;> rfl

theorem leaves {outcome : Outcome} (left : k.leave slot outcome = some t) :
    Leaves k slot outcome t := by
  have modified : ∀ (doing : Doing) (tasks : Slot → TaskState),
      (tasks = k.tasks ∨ ∃ set, tasks = Function.update k.tasks slot (.waiting set)) →
      doing = outcome.doing →
      Leaves k slot outcome { k.modifyTop slot fun p => { p with doing } with tasks } := by
    intro doing tasks cases same
    refine ⟨rfl, rfl, fun other => ?_, fun other ne => ?_, fun top => ?_, fun stopped => ?_, rfl, rfl, rfl, rfl⟩
    · by_cases eq : other = slot
      · subst eq
        show (Function.update k.processes other _ other).length = _
        rw [Function.update_self, length_onTop]
      · show (Function.update k.processes slot _ other).length = _
        rw [Function.update_of_ne eq]
    · show (Function.update k.processes slot _ other).head?.map Process.doing = _
      rw [Function.update_of_ne ne]
      rfl
    · obtain ⟨p, rest, eq⟩ := List.exists_cons_of_ne_nil top
      show (Function.update k.processes slot _ slot).head?.map Process.doing = _
      rw [Function.update_self, eq, ← same]
      rfl
    · rcases cases with rfl | ⟨set, rfl⟩
      · exact stopped
      · by_cases eq : detachedSlot = slot
        · unfold Stopped at stopped
          subst eq
          dsimp only at stopped
          rw [Function.update_self] at stopped
          rcases stopped with stopped | stopped <;> cases stopped
        · unfold Stopped at stopped
          dsimp only at stopped
          rw [Function.update_of_ne eq] at stopped
          exact stopped
  cases outcome with
  | done ret => exact Option.some.inj left ▸ modified .user k.tasks (.inl rfl) rfl
  | goes doing => exact Option.some.inj left ▸ modified doing k.tasks (.inl rfl) rfl
  | waits set loop =>
    exact Option.some.inj left ▸ modified (.waiting loop) _ (.inr ⟨set, rfl⟩) rfl
  | panics => cases left

structure Starts (k : System) (slot : Slot) (k' : System) : Prop where
  free : k.tasks detachedSlot = .uninitialized
  detached : k'.detached = .requested
  inherited : k'.inherited = k.inherited
  processes : k'.processes = k.processes
  tasks : k'.tasks = Function.update k.tasks detachedSlot .ready
  ticks : k'.ticks = k.ticks
  status : k'.status = k.status
  pending : ∀ other, other ≠ slot → k'.pendingStdin other = k.pendingStdin other

theorem spawnDetachedFromRing3_cases (k : System) (slot : Slot) (flags : Nat)
    (args : Except Errno Unit) :
    (Control k (k.spawnDetachedFromRing3 slot flags args).2 ∧
      ∃ ret, (k.spawnDetachedFromRing3 slot flags args).1 = .done ret) ∨
    (Starts k slot (k.spawnDetachedFromRing3 slot flags args).2 ∧
      ∃ handle, (k.spawnDetachedFromRing3 slot flags args).1 = .goes (.starting handle)) := by
  unfold spawnDetachedFromRing3
  split
  · exact .inl ⟨.refl k, _, rfl⟩
  split
  · exact .inl ⟨.refl k, _, rfl⟩
  split
  · split
    · rename_i handle k₁ started
      obtain ⟨free, rfl⟩ := startDetached_some started
      exact .inr ⟨⟨free, rfl, rfl, rfl, rfl, rfl, rfl, fun _ _ => rfl⟩, handle, rfl⟩
    · rename_i k₁ refused
      rw [startDetached_none k none refused]
      exact .inl ⟨⟨rfl, rfl, fun _ => rfl, id, rfl, rfl, rfl, id⟩, _, rfl⟩
  · split
    · exact .inl ⟨.refl k, _, rfl⟩
    · split
      · rename_i handle k₁ started
        obtain ⟨free, rfl⟩ := startDetached_some started
        exact .inr ⟨⟨free, rfl, rfl, rfl, rfl, rfl, rfl,
          fun other ne => Function.update_of_ne ne _ _⟩, handle, rfl⟩
      · rename_i k₁ refused
        rw [startDetached_none _ _ refused]
        refine .inl ⟨?_, _, rfl⟩
        have cleared : Control k { k with request := none } :=
          ⟨rfl, rfl, fun _ => rfl, id, rfl, rfl, rfl, id⟩
        exact cleared.trans ((Control.wakes _ _ _).trans (Control.wakes _ _ _))

theorem setInherited_self (k : System) (slot : Slot) (ends : InheritedEnds) :
    (k.setInherited slot ends).inherited slot = ends := Function.update_self _ _ _

theorem setInherited_of_ne (k : System) {slot other : Slot} (ends : InheritedEnds)
    (ne : other ≠ slot) : (k.setInherited slot ends).inherited other = k.inherited other :=
  Function.update_of_ne ne _ _

theorem spawnWithPipedStdinFromRing3_cases (k : System) (slot : Slot) (args : Except Errno Unit) :
    (Control k (k.spawnWithPipedStdinFromRing3 slot args).2 ∧
      ∃ ret, (k.spawnWithPipedStdinFromRing3 slot args).1 = .done ret) ∨
    ∃ k₁ pipe, Control k k₁ ∧ k.spawnWithPipedStdinFromRing3 slot args =
      (.goes (.spawning true),
        k₁.setInherited slot { k₁.inherited slot with stdin := some pipe }) := by
  unfold spawnWithPipedStdinFromRing3
  split
  · exact .inl ⟨.refl k, _, rfl⟩
  · split
    · exact .inl ⟨.refl k, _, rfl⟩
    · dsimp only
      split
      · exact .inl ⟨⟨rfl, rfl, fun _ => rfl, id, rfl, rfl, rfl, pending_taken k slot⟩, _, rfl⟩
      · rename_i pipe _ _ _ pipes _
        exact .inr ⟨{ k with
          pendingStdin := Function.update k.pendingStdin slot none }.setPipes pipes, pipe,
          ⟨rfl, rfl, fun _ => rfl, id, rfl, rfl, rfl, pending_taken k slot⟩, rfl⟩

/-- Whoever called `spawn` in a task has gone on to another place. -/
structure Goes (k : System) (slot : Slot) (next : Bool → Doing) (detached : Detached) (t : System) :
    Prop where
  tasks : t.tasks = k.tasks
  inherited : t.inherited = k.inherited
  ticks : t.ticks = k.ticks
  status : t.status = k.status
  generation : t.generation = k.generation
  pending : t.pendingStdin = k.pendingStdin
  depth : ∀ other, (t.processes other).length = (k.processes other).length
  other : ∀ other, other ≠ slot → t.doing other = k.doing other
  self : ∀ piped, k.doing slot = some (.spawning piped) → t.doing slot = some (next piped)
  detached : t.detached = if k.processes slot = [] ∧ slot = detachedSlot then detached else k.detached

theorem goes (k : System) (slot : Slot) (next : Bool → Doing) (detached : Detached) :
    Goes k slot next detached (k.spawnGoes slot next detached) := by
  unfold spawnGoes
  split
  · rename_i p rest eq
    refine ⟨rfl, rfl, rfl, rfl, rfl, rfl, fun other => ?_, fun other ne => ?_, fun piped spawning => ?_, ?_⟩
    · by_cases same : other = slot
      · subst same
        show (Function.update k.processes other _ other).length = _
        rw [Function.update_self, length_onTop]
      · show (Function.update k.processes slot _ other).length = _
        rw [Function.update_of_ne same]
    · show (Function.update k.processes slot _ other).head?.map Process.doing = _
      rw [Function.update_of_ne ne]
      rfl
    · rw [System.doing, eq] at spawning
      have place : p.doing = .spawning piped := Option.some.inj spawning
      show (Function.update k.processes slot _ slot).head?.map Process.doing = _
      rw [Function.update_self, eq]
      simp only [onTop, List.head?_cons, Option.map_some, place]
    · rw [if_neg fun nil => by rw [eq] at nil; cases nil.1]
      rfl
  · rename_i eq
    have none : k.doing slot = none := by
      rw [System.doing, eq]
      rfl
    split
    · rename_i isDetached
      refine ⟨rfl, rfl, rfl, rfl, rfl, rfl, fun _ => rfl, fun _ _ => rfl, fun piped spawning => ?_, ?_⟩
      · cases none.symm.trans spawning
      · rw [if_pos ⟨eq, isDetached⟩]
    · rename_i notDetached
      refine ⟨rfl, rfl, rfl, rfl, rfl, rfl, fun _ => rfl, fun _ _ => rfl, fun piped spawning => ?_, ?_⟩
      · cases none.symm.trans spawning
      · rw [if_neg fun nil => notDetached nil.2]

theorem doing_push (k : System) (slot : Slot) (p : Process) {other : Slot} (ne : other ≠ slot) :
    (k.push slot p).doing other = k.doing other := by
  show (Function.update k.processes slot _ other).head?.map Process.doing = _
  rw [Function.update_of_ne ne]
  rfl

theorem tick_stopped (stopped : k.tick.Stopped) : k.Stopped := by
  have kept : ∀ state : TaskState, state.wakeExpired (k.ticks + 1) = .uninitialized ∨
      state.wakeExpired (k.ticks + 1) = .finished → state = .uninitialized ∨ state = .finished := by
    intro state
    unfold TaskState.wakeExpired
    split
    · split
      · split <;> simp
      · simp
    · exact id
  exact kept _ stopped

structure Aside (k t : System) : Prop where
  pending : k.pendingStdin detachedSlot = none → t.pendingStdin detachedSlot = none
  depth : ∀ slot, (t.processes slot).length ≤ max (k.processes slot).length maxExcursionDepth
  ticks : t.ticks = k.ticks
  status : t.status = k.status

namespace Aside

theorem of_processes (processes : t.processes = k.processes) (ticks : t.ticks = k.ticks)
    (status : t.status = k.status)
    (pending : k.pendingStdin detachedSlot = none → t.pendingStdin detachedSlot = none) : Aside k t :=
  ⟨pending, fun slot => by rw [processes]; exact Nat.le_max_left _ _, ticks, status⟩

theorem trans (first : Aside k k') (rest : Aside k' t) : Aside k t := by
  refine ⟨fun none => rest.pending (first.pending none), fun slot => ?_,
    rest.ticks.trans first.ticks, rest.status.trans first.status⟩
  have now := rest.depth slot
  have before := first.depth slot
  omega

end Aside

theorem Control.aside (control : Control k t) : Aside k t :=
  ⟨control.pending, fun slot => control.depth slot ▸ Nat.le_max_left _ _, control.ticks, control.status⟩

theorem Leaves.aside {outcome : Outcome} (leaves : Leaves k slot outcome t) : Aside k t :=
  ⟨fun none => leaves.pending ▸ none, fun slot => leaves.depth slot ▸ Nat.le_max_left _ _, leaves.ticks, leaves.status⟩

theorem Goes.aside {next : Bool → Doing} {detached : Detached} (goes : Goes k slot next detached t) :
    Aside k t :=
  ⟨fun none => goes.pending ▸ none, fun slot => goes.depth slot ▸ Nat.le_max_left _ _, goes.ticks, goes.status⟩

theorem syscall_aside {c : Call} (top : k.processes slot ≠ []) (ready : k.tasks slot = .ready) :
    Aside k (k.syscall slot c).2 := by
  cases spawns : c.spawns with
  | false => exact (k.syscall_ordinary c top spawns).2.aside
  | true =>
    cases c with
    | spawnDetached flags args =>
      rcases k.spawnDetachedFromRing3_cases slot flags args with ⟨control, -⟩ | ⟨starts, -⟩
      · exact control.aside
      · have ne : detachedSlot ≠ slot := by
          rintro rfl
          cases ready.symm.trans starts.free
        exact .of_processes starts.processes starts.ticks starts.status
          fun none => (starts.pending _ ne).trans none
    | spawnWithPipedStdin args =>
      rcases k.spawnWithPipedStdinFromRing3_cases slot args with ⟨control, -⟩ | ⟨k₁, pipe, control, eq⟩
      · exact control.aside
      · rw [System.syscall, eq]
        exact control.aside.trans (.of_processes rfl rfl rfl id)
    | _ => cases spawns

theorem push_aside (shallow : (k.processes slot).length < maxExcursionDepth) (p : Process) :
    Aside k (k.push slot p) := by
  refine ⟨id, fun other => ?_, rfl, rfl⟩
  unfold push
  by_cases same : other = slot
  · subst same
    dsimp only
    rw [Function.update_self, List.length_cons]
    omega
  · dsimp only
    rw [Function.update_of_ne same]
    exact Nat.le_max_left _ _

theorem loadFails_aside (k : System) (slot : Slot) : Aside k (k.loadFails slot) :=
  (goes k slot .returning .returning).aside

theorem unload_aside (k : System) (slot : Slot) (space : AddressSpace) :
    Aside k (k.unload slot space) := by
  refine Aside.trans ?_ (loadFails_aside _ slot)
  exact .of_processes rfl rfl rfl id

theorem load_aside {outcome : LoadOutcome} (loaded : k.load slot outcome = some t) : Aside k t := by
  have frames : ∀ allocator, Aside k (k.setAllocator allocator) :=
    fun allocator => .of_processes rfl rfl rfl id
  rcases load_cases loaded with ⟨allocator, rfl⟩ | ⟨shallow, allocator, space, rfl | ⟨imageEnd, rfl⟩⟩
  · exact (frames allocator).trans (loadFails_aside _ slot)
  · exact (frames allocator).trans (unload_aside _ slot space)
  · have gone := goes ({ k.setAllocator allocator with
      input := (k.input.claimForeground slot).2 }.takeInherited slot) slot .parent .parent
    have taken : Aside k ({ k.setAllocator allocator with
        input := (k.input.claimForeground slot).2 }.takeInherited slot) :=
      .of_processes rfl rfl rfl id
    exact (taken.trans gone.aside).trans (push_aside ((gone.depth slot).trans_lt shallow) _)

theorem exit_aside {interrupted : Bool} (ended : k.exit slot interrupted = some t) : Aside k t := by
  unfold exit at ended
  split at ended
  · rename_i p rest eq
    obtain ⟨-, ended⟩ := Option.ite_none_right_eq_some.mp ended
    obtain rfl := Option.some.inj ended
    refine Aside.trans ?_ (goes _ slot _ _).aside
    refine ⟨id, fun other => ?_, rfl, rfl⟩
    by_cases same : other = slot
    · subst same
      show (Function.update k.processes other rest other).length ≤ _
      rw [Function.update_self, eq, List.length_cons]
      omega
    · show (Function.update k.processes slot rest other).length ≤ _
      rw [Function.update_of_ne same]
      exact Nat.le_max_left _ _
  · cases ended

theorem spawnReturns_aside {ret : Ret} (returned : k.spawnReturns slot ret = some t) :
    Aside k t := by
  unfold spawnReturns at returned
  split at returned
  · split at returned
    · refine Aside.trans ?_ (leaves returned).aside
      exact .of_processes rfl rfl rfl id
    · exact (leaves returned).aside
  · exact (leaves returned).aside
  · cases returned

theorem detachedBegins_aside (begun : k.detachedBegins = some t) : Aside k t := by
  unfold detachedBegins at begun
  obtain ⟨-, begun⟩ := Option.ite_none_right_eq_some.mp begun
  split at begun
  · cases begun
  · exact Option.some.inj begun ▸ .of_processes rfl rfl rfl id
  · exact Option.some.inj begun ▸ .of_processes rfl rfl rfl id

theorem resume_aside (resumed : k.resume slot = some t) : Aside k t := by
  unfold resume at resumed
  split at resumed
  · rename_i loop waiting
    exact (k.round_ordinary waiting).2.aside.trans (leaves resumed).aside
  · obtain ⟨-, left⟩ := Option.ite_none_right_eq_some.mp resumed
    exact (leaves left).aside
  · cases resumed

theorem step_aside {a : Action} (next : k.step a = some t) :
    Aside k t ∨ t = k.tick ∨ ∃ bits, k.detachedEnds bits = some t := by
  cases a with
  | call slot c =>
    obtain ⟨⟨ready, user⟩, left⟩ := Option.ite_none_right_eq_some.mp next
    have top : k.processes slot ≠ [] := by
      intro empty
      rw [doing, empty] at user
      cases user
    exact .inl ((syscall_aside top ready).trans (leaves left).aside)
  | resume slot => exact .inl (resume_aside (Option.ite_none_right_eq_some.mp next).2)
  | load slot outcome => exact .inl (load_aside (Option.ite_none_right_eq_some.mp next).2)
  | exit slot interrupted => exact .inl (exit_aside (Option.ite_none_right_eq_some.mp next).2)
  | spawnReturns slot ret => exact .inl (spawnReturns_aside (Option.ite_none_right_eq_some.mp next).2)
  | detachedBegins => exact .inl (detachedBegins_aside (Option.ite_none_right_eq_some.mp next).2)
  | detachedEnds bits => exact .inr (.inr ⟨bits, (Option.ite_none_right_eq_some.mp next).2⟩)
  | tick => exact .inr (.inl (Option.some.inj next).symm)
  | key code => exact Option.some.inj next ▸ .inl (.of_processes rfl rfl rfl id)
  | drainKeyboard => exact Option.some.inj next ▸ .inl (.of_processes rfl rfl rfl id)
  | setInteractive interactive => exact Option.some.inj next ▸ .inl (.of_processes rfl rfl rfl id)

theorem detachedEnds_processes {bits : Nat} (ended : k.detachedEnds bits = some t) :
    t.processes = k.processes ∧ t.pendingStdin = k.pendingStdin ∧ t.ticks = k.ticks ∧
    t.status = some (Scheduler.ring3TaskHandle k.generation, bits) := by
  unfold detachedEnds at ended
  obtain ⟨-, ended⟩ := Option.ite_none_right_eq_some.mp ended
  split at ended
  · exact Option.some.inj ended ▸ ⟨rfl, rfl, rfl, rfl⟩
  · exact Option.some.inj ended ▸ ⟨rfl, rfl, rfl, rfl⟩

theorem step_generation {a : Action} (next : k.step a = some t) : t.generation = k.generation ∨
    k.tasks detachedSlot = .uninitialized ∧ ∃ slot, k.tasks slot = .ready := by
  cases a with
  | call slot c =>
    obtain ⟨⟨ready, user⟩, left⟩ := Option.ite_none_right_eq_some.mp next
    have top : k.processes slot ≠ [] := by
      intro empty
      rw [doing, empty] at user
      cases user
    have same : (k.syscall slot c).2.generation = k.generation →
        t.generation = k.generation := (leaves left).generation.trans
    cases spawns : c.spawns with
    | false => exact .inl (same (k.syscall_ordinary c top spawns).2.generation)
    | true =>
      cases c with
      | spawnDetached flags args =>
        rcases k.spawnDetachedFromRing3_cases slot flags args with ⟨control, -⟩ | ⟨starts, -⟩
        · exact .inl (same control.generation)
        · exact .inr ⟨starts.free, slot, ready⟩
      | spawnWithPipedStdin args =>
        rcases k.spawnWithPipedStdinFromRing3_cases slot args with ⟨control, -⟩ | ⟨k₁, pipe, control, eq⟩
        · exact .inl (same control.generation)
        · refine .inl (same ?_)
          rw [System.syscall, eq]
          exact control.generation
      | _ => cases spawns
  | resume slot =>
    obtain ⟨-, resumed⟩ := Option.ite_none_right_eq_some.mp next
    unfold System.resume at resumed
    split at resumed
    · rename_i loop waiting
      exact .inl ((leaves resumed).generation.trans (k.round_ordinary waiting).2.generation)
    · obtain ⟨-, left⟩ := Option.ite_none_right_eq_some.mp resumed
      exact .inl (leaves left).generation
    · cases resumed
  | load slot outcome =>
    obtain ⟨-, loaded⟩ := Option.ite_none_right_eq_some.mp next
    rcases load_cases loaded with ⟨allocator, rfl⟩ | ⟨-, allocator, space, rfl | ⟨imageEnd, rfl⟩⟩
    · exact .inl (goes _ slot _ _).generation
    · exact .inl (goes _ slot _ _).generation
    · exact .inl (goes _ slot _ _).generation
  | exit slot interrupted =>
    obtain ⟨-, ended⟩ := Option.ite_none_right_eq_some.mp next
    unfold System.exit at ended
    split at ended
    · obtain ⟨-, ended⟩ := Option.ite_none_right_eq_some.mp ended
      exact Option.some.inj ended ▸ .inl (goes _ slot _ _).generation
    · cases ended
  | spawnReturns slot ret =>
    obtain ⟨-, returned⟩ := Option.ite_none_right_eq_some.mp next
    unfold System.spawnReturns at returned
    split at returned
    · split at returned
      · exact .inl (leaves returned).generation
      · exact .inl (leaves returned).generation
    · exact .inl (leaves returned).generation
    · cases returned
  | detachedBegins =>
    obtain ⟨-, begun⟩ := Option.ite_none_right_eq_some.mp next
    unfold System.detachedBegins at begun
    obtain ⟨-, begun⟩ := Option.ite_none_right_eq_some.mp begun
    split at begun
    · cases begun
    · exact Option.some.inj begun ▸ .inl rfl
    · exact Option.some.inj begun ▸ .inl rfl
  | detachedEnds bits =>
    obtain ⟨-, ended⟩ := Option.ite_none_right_eq_some.mp next
    unfold System.detachedEnds at ended
    obtain ⟨-, ended⟩ := Option.ite_none_right_eq_some.mp ended
    split at ended <;> exact Option.some.inj ended ▸ .inl rfl
  | _ => exact Option.some.inj next ▸ .inl rfl

/-- Programs are nested no deeper than `spawn` goes. -/
def Shallow (k : System) : Prop := ∀ slot, (k.processes slot).length ≤ maxExcursionDepth

theorem step_pending {a : Action} (none : k.pendingStdin detachedSlot = none)
    (next : k.step a = some t) : t.pendingStdin detachedSlot = .none := by
  rcases step_aside next with aside | rfl | ⟨bits, ended⟩
  · exact aside.pending none
  · exact none
  · rw [(detachedEnds_processes ended).2.1]
    exact none

end System

end Zaytos.Kernel
