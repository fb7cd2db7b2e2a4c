import Zaytos.Kernel.CallFollow

set_option autoImplicit false

/-! What the steps of the system do to the ledger. -/
namespace Zaytos.Kernel

variable {outcome : Outcome} {file : File} {ends : InheritedEnds} {pipe bits : Nat} {event : Event}
  {ret : Ret} {a : Action}

namespace System

variable {k k' t : System} {slot : Slot}

/-- Who may be where. Without this the ends that wait for a program could be overwritten. -/
structure Coherent (k : System) : Prop where
  stopped : k.Stopped → k.detached = .idle
  empty : k.detached ≠ .parent → k.processes detachedSlot = []
  requested : k.detached = .requested → ∃ handle, k.doing 0 = some (.starting handle)
  stdin : ∀ slot, (k.inherited slot).stdin ≠ none →
    k.doing slot = some (.spawning true) ∨ k.doing slot = some (.returning true)
  stdout : ∀ slot, (k.inherited slot).stdout ≠ none →
    slot = detachedSlot ∧ (k.detached = .spawning ∨ k.detached = .returning)

theorem coherent_init (allocator : FrameAllocator) (root : Bytes) (us : Bool) :
    (init allocator root us).Coherent where
  stopped _ := rfl
  empty _ := rfl
  requested isRequested := by cases isRequested
  stdin _ some := absurd rfl some
  stdout _ some := absurd rfl some

theorem Coherent.not_requested (coherent : k.Coherent) (user : k.doing slot = some .user) :
    k.detached ≠ .requested := by
  intro isRequested
  obtain ⟨handle, starting⟩ := coherent.requested isRequested
  have none : k.processes detachedSlot = [] := coherent.empty (by rw [isRequested]; decide)
  by_cases first : slot = 0
  · subst first
    rw [starting] at user
    cases user
  · obtain rfl : slot = detachedSlot := Fin.eq_one_of_ne_zero slot first
    rw [doing, none] at user
    cases user

theorem Coherent.stdin_none (coherent : k.Coherent) (user : k.doing slot = some .user) :
    (k.inherited slot).stdin = none := by
  by_contra some
  rcases coherent.stdin slot some with spawning | returning
  · rw [user] at spawning
    cases spawning
  · rw [user] at returning
    cases returning

section Leave

theorem ledger_modifyTop {f : Process → Process} (same : ∀ p, (f p).files = p.files) :
    (k.modifyTop slot f).ledger = k.ledger :=
  congrArg (Ledger.mk · _ _) (held_modifyTop_of_files same)

theorem leave_ledger (left : k.leave slot outcome = some t) : t.ledger = k.ledger := by
  cases outcome with
  | done ret => exact Option.some.inj left ▸ ledger_modifyTop fun _ => rfl
  | waits set loop => exact Option.some.inj left ▸ ledger_modifyTop fun _ => rfl
  | goes doing => exact Option.some.inj left ▸ ledger_modifyTop fun _ => rfl
  | panics => cases left

theorem leave_tasks (left : k.leave slot outcome = some t) {other : Slot}
    {set : WaitSet} (waits : t.tasks other = .waiting set) :
    k.tasks other = .waiting set ∨ other = slot ∧ ∃ loop, outcome = .waits set loop := by
  cases outcome with
  | done ret =>
    obtain rfl := Option.some.inj left
    exact .inl waits
  | goes doing =>
    obtain rfl := Option.some.inj left
    exact .inl waits
  | panics => cases left
  | waits set' loop =>
    obtain rfl := Option.some.inj left
    by_cases same : other = slot
    · subst same
      have waits' : Function.update k.tasks other (.waiting set') other = .waiting set := waits
      rw [Function.update_self] at waits'
      obtain rfl := TaskState.waiting.inj waits'
      exact .inr ⟨rfl, loop, rfl⟩
    · have waits' : Function.update k.tasks slot (.waiting set') other = .waiting set := waits
      rw [Function.update_of_ne same] at waits'
      exact .inl waits'

end Leave

section Programs

theorem spawnGoes_ledger {next : Bool → Doing} {detached : Detached}
    (other : k.processes slot = [] → slot = detachedSlot →
      k.detached ≠ .requested ∧ detached ≠ .requested) :
    (k.spawnGoes slot next detached).ledger = k.ledger := by
  unfold spawnGoes
  split
  · exact ledger_modifyTop fun _ => rfl
  · rename_i empty
    split
    · rename_i isDetached
      obtain ⟨before, after⟩ := other empty isDetached
      have none : ∀ k : System, k.detached ≠ .requested → k.requestedEnd = none := by
        intro k other
        unfold requestedEnd
        rw [if_neg other]
      have held := held_of_requested { k with detached } (none k before) rfl rfl
        (none { k with detached } after)
      exact congrArg (Ledger.mk · _ _) (held.trans (zero_add _))
    · rfl

theorem spawnGoes_tasks (k : System) (slot : Slot) (next : Bool → Doing) (detached : Detached) :
    (k.spawnGoes slot next detached).tasks = k.tasks := by
  unfold spawnGoes
  split
  · rfl
  · split <;> rfl

theorem loadTable_files (ends : InheritedEnds) :
    (loadTable ends).files = [(ends.stdin.map File.pipeRead).getD (.terminal false),
      (ends.stdout.map File.pipeWrite).getD (.terminal false), .terminal true] := by
  obtain ⟨stdin, stdout⟩ := ends
  cases stdin <;> cases stdout <;> rfl

theorem loadTable_count (ends : InheritedEnds) (other : file.isPlain = false) :
    ((loadTable ends).files : Multiset File).count file = (heldByEnds ends).count file := by
  have terminal : ∀ errors, File.terminal errors ≠ file := by
    rintro errors rfl
    cases other
  obtain ⟨stdin, stdout⟩ := ends
  rw [loadTable_files, heldByEnds]
  cases stdin <;> cases stdout <;>
    simp [List.count_cons, Multiset.count_cons, Multiset.count_singleton, terminal, @eq_comm _ file]

theorem loadTable_isSocket (ends : InheritedEnds) :
    ∀ file ∈ (loadTable ends).files, file.isSocket = false := by
  obtain ⟨stdin, stdout⟩ := ends
  rw [loadTable_files]
  cases stdin <;> cases stdout <;> simp [File.isSocket]

theorem takeInherited_count (k : System) (slot : Slot) (file : File) :
    (k.takeInherited slot).held.count file + (heldByEnds (k.inherited slot)).count file =
      k.held.count file := by
  have held := congrArg (Multiset.count file) (k.held_setInherited slot ⟨none, none⟩)
  rw [Multiset.count_add, Multiset.count_add] at held
  exact held

theorem push_ledger (k : System) (slot : Slot) (p : Process) :
    (k.push slot p).ledger =
      { k.ledger with held := (p.files.files : Multiset File) + k.held } := by
  have held := k.held_update slot (p :: k.processes slot)
  rw [heldByTask_cons, ← add_assoc] at held
  refine congrArg (Ledger.mk · _ _) ?_
  rw [add_comm]
  exact add_right_cancel held

def NotRequested (k : System) (slot : Slot) : Prop :=
  k.processes slot = [] → slot = detachedSlot → k.detached ≠ .requested

theorem loadFails_ledger (base : k.NotRequested slot) : (k.loadFails slot).ledger = k.ledger :=
  spawnGoes_ledger fun empty isDetached => ⟨base empty isDetached, by decide⟩

theorem loadFails_tasks (k : System) (slot : Slot) : (k.loadFails slot).tasks = k.tasks :=
  k.spawnGoes_tasks slot _ _

theorem unload_moves (space : AddressSpace)
    (base : k.NotRequested slot) :
    ∃ wakes, k.ledger.Moves wakes (k.unload slot space).ledger ∧
      Woken k.tasks wakes (k.unload slot space).tasks := by
  have table : k.ledger.Move [] { k.ledger with
      held := (loadTable (k.inherited slot)).files + (k.takeInherited slot).held } := by
    refine .plain fun file other => ?_
    have taken := k.takeInherited_count slot file
    rw [Multiset.count_add, loadTable_count _ other]
    show _ = k.held.count file
    omega
  have dropped := (Ledger.Moves.one table).trans (.releaseAll (loadTable_isSocket _) rfl)
  refine ⟨(k.objects.releaseAll (loadTable (k.inherited slot)).files).2, ?_, ?_⟩
  · have fails := loadFails_ledger
      (k := ((k.takeInherited slot).dropTable (loadTable (k.inherited slot))).retire slot space) base
    unfold unload
    rw [fails]
    exact dropped
  · unfold unload
    rw [loadFails_tasks]
    exact woken_wake _ _

theorem enter_moves (space : AddressSpace) (imageEnd : Nat)
    (base : k.NotRequested slot) : k.ledger.Moves [] (k.enter slot space imageEnd).ledger ∧
      Woken k.tasks [] (k.enter slot space imageEnd).tasks := by
  have gone : ((({ k with input := (k.input.claimForeground slot).2 }.takeInherited slot).spawnGoes slot
      .parent .parent).ledger = _) :=
    spawnGoes_ledger fun empty isDetached => ⟨base empty isDetached, by decide⟩
  have held := congrArg Ledger.held gone
  refine ⟨?_, ?_⟩
  · unfold enter
    rw [push_ledger, gone]
    refine .one (.plain fun file other => ?_)
    have taken := k.takeInherited_count slot file
    rw [Multiset.count_add, loadTable_count _ other]
    have same := congrArg (Multiset.count file) held
    show _ + Multiset.count file (spawnGoes _ _ _ _).ledger.held = k.held.count file
    rw [same]
    show _ + (k.takeInherited slot).held.count file = k.held.count file
    omega
  · show Woken k.tasks [] (spawnGoes _ _ _ _).tasks
    rw [spawnGoes_tasks]
    exact .refl _

theorem load_follows {outcome : LoadOutcome} (loading : k.loading slot = true)
    (loaded : k.load slot outcome = some t) : Follows k .quiet t := by
  have base : k.NotRequested slot := by
    rintro empty rfl
    rw [System.loading, doing, empty] at loading
    have spawning : k.detached = .spawning := by simpa using loading
    rw [spawning]
    decide
  have frames : ∀ allocator wakes, (k.setAllocator allocator).ledger.Moves wakes t.ledger →
      Woken k.tasks wakes t.tasks → Follows k .quiet t := fun allocator wakes moves woken =>
    ⟨wakes, .quiet (.step (.frames allocator) moves), woken⟩
  rcases load_cases loaded with ⟨allocator, rfl⟩ | ⟨-, allocator, space, rfl | ⟨imageEnd, rfl⟩⟩
  · refine frames allocator [] ?_ ?_
    · rw [loadFails_ledger (k := k.setAllocator allocator) base]
      exact .refl _
    · rw [loadFails_tasks]
      exact .refl _
  · obtain ⟨wakes, moves, woken⟩ := unload_moves (k := k.setAllocator allocator) space base
    exact frames allocator wakes moves woken
  · obtain ⟨moves, woken⟩ := enter_moves (k := k.setAllocator allocator) space imageEnd base
    exact frames allocator [] moves woken

theorem exit_follows {interrupted : Bool} (coherent : k.Coherent)
    (ended : k.exit slot interrupted = some t) :
    Follows k (k.event (.exit slot interrupted)) t := by
  unfold exit at ended
  split at ended
  · rename_i p rest eq
    obtain ⟨-, ended⟩ := Option.ite_none_right_eq_some.mp ended
    obtain rfl := Option.some.inj ended
    have current : (k.files slot).files = p.files.files := by
      unfold System.files
      rw [eq]
    have event : k.event (.exit slot interrupted) = .closed p.files.files := by
      rw [← current]
      rfl
    have update := k.held_update slot rest
    rw [eq, heldByTask_cons, ← add_assoc] at update
    have held : k.ledger.held = p.files.files +
        { k with processes := Function.update k.processes slot rest }.held := by
      rw [add_comm]
      exact (add_right_cancel update).symm
    have goes : ∀ k' : System, k'.detached = k.detached →
        (k'.spawnGoes slot .returning .returning).ledger = k'.ledger := by
      intro k' same
      refine spawnGoes_ledger fun _ isDetached => ⟨?_, by decide⟩
      rw [same]
      intro isRequested
      have none := coherent.empty (by rw [isRequested]; decide)
      rw [← isDetached, eq] at none
      cases none
    rw [event]
    refine ⟨(k.objects.releaseAll p.files.files).2, ?_, ?_⟩
    · rw [goes]
      · exact .closed held
      · rfl
    · rw [spawnGoes_tasks]
      exact woken_wake _ _
  · cases ended

theorem untaken (other : file.isSocket = false)
    (held : heldByEnds (k.inherited slot) = file ::ₘ heldByEnds ends) :
    Follows k .quiet ((k.setInherited slot ends).release file) := by
  have sum := k.held_setInherited slot ends
  rw [held, Multiset.add_cons, ← Multiset.cons_add] at sum
  exact ⟨_, .quiet (.one (.release other (add_right_cancel sum).symm)), woken_wake _ _⟩

theorem heldByEnds_stdin (stdin : ends.stdin = some pipe) :
    heldByEnds ends = .pipeRead pipe ::ₘ heldByEnds { ends with stdin := none } := by
  unfold heldByEnds
  rw [stdin]
  exact (congrArg _ (zero_add _)).symm

theorem heldByEnds_stdout (stdout : ends.stdout = some pipe) :
    heldByEnds ends = .pipeWrite pipe ::ₘ heldByEnds { ends with stdout := none } := by
  unfold heldByEnds
  rw [stdout]
  exact (add_comm _ _).trans (congrArg _ (add_zero _).symm)

theorem Follows.done (follows : Follows k event k')
    (left : k'.leave slot (.done ret) = some t) : Follows k event t := by
  obtain ⟨wakes, change, woken⟩ := follows
  refine ⟨wakes, ?_, ?_⟩
  · rw [leave_ledger left]
    exact change
  · obtain rfl := Option.some.inj left
    exact woken

theorem spawnReturns_follows (returned : k.spawnReturns slot ret = some t) :
    Follows k .quiet t := by
  unfold spawnReturns at returned
  split at returned
  · split at returned
    · rename_i pipe stdin
      exact (untaken rfl (heldByEnds_stdin stdin)).done returned
    · exact (Quiet.refl k).follows.done returned
  · exact (Quiet.refl k).follows.done returned
  · cases returned

theorem detachedBegins_follows (coherent : k.Coherent) (begun : k.detachedBegins = some t) :
    Follows k .quiet t := by
  unfold detachedBegins at begun
  obtain ⟨isRequested, begun⟩ := Option.ite_none_right_eq_some.mp begun
  have same : t.ledger = k.ledger ∧ t.tasks = k.tasks := by
    split at begun
    · cases begun
    · rename_i request
      obtain rfl := Option.some.inj begun
      have none : k.requestedEnd = none := by
        unfold requestedEnd
        rw [if_pos isRequested, request]
        rfl
      have held := held_of_requested { k with detached := .spawning } none rfl rfl rfl
      exact ⟨congrArg (Ledger.mk · _ _) (held.trans (zero_add _)), rfl⟩
    · rename_i pipe request
      obtain rfl := Option.some.inj begun
      have requested : k.requestedEnd = some pipe := by
        unfold requestedEnd
        rw [if_pos isRequested, request]
        rfl
      have noStdout : (k.inherited detachedSlot).stdout = none := by
        by_contra some
        rcases (coherent.stdout _ some).2 with spawning | returning
        · exact absurd (isRequested.symm.trans spawning) (by decide)
        · exact absurd (isRequested.symm.trans returning) (by decide)
      have waits : heldByEnds { k.inherited detachedSlot with stdout := some pipe } =
          heldByEnds (k.inherited detachedSlot) + {.pipeWrite pipe} := by
        unfold heldByEnds
        rw [noStdout, add_assoc]
        rfl
      have sum := sum_update_add heldByEnds k.inherited detachedSlot
        { k.inherited detachedSlot with stdout := some pipe }
      rw [waits, ← add_assoc, add_right_comm] at sum
      refine ⟨congrArg (Ledger.mk · _ _) ?_, rfl⟩
      show _ + ∑ slot, heldByEnds (Function.update k.inherited detachedSlot _ slot) + _ =
        _ + _ + ((k.requestedEnd.map File.pipeWrite).toList : Multiset File)
      rw [add_right_cancel sum, requested, ← add_assoc]
      exact add_zero _
  refine ⟨[], .quiet ?_, ?_⟩
  · rw [same.1]
    exact .refl _
  · rw [same.2]
    exact .refl _

theorem detachedFinish_ledger (other : k.detached ≠ .requested) :
    (k.detachedFinish bits).ledger = k.ledger := by
  have none : k.requestedEnd = none := if_neg other
  have held := held_of_requested (k.detachedFinish bits) none rfl rfl rfl
  exact congrArg (Ledger.mk · _ _) (held.trans (zero_add _))

theorem detachedFinish_tasks (k : System) (bits : Nat) :
    Woken k.tasks [.child (Scheduler.ring3TaskHandle k.generation)] (k.detachedFinish bits).tasks :=
  (Woken.update k.tasks detachedSlot rfl).trans (woken_wake { k with tasks := _ } _)

theorem detachedEnds_follows (ended : k.detachedEnds bits = some t) :
    Follows k .quiet t ∧ Woken k.tasks [.child (Scheduler.ring3TaskHandle k.generation)] t.tasks := by
  unfold detachedEnds at ended
  obtain ⟨returning, ended⟩ := Option.ite_none_right_eq_some.mp ended
  have finish : ∀ k' : System, k'.detached = k.detached → k'.generation = k.generation →
      Follows k .quiet k' → Follows k .quiet (k'.detachedFinish bits) ∧
        Woken k.tasks [.child (Scheduler.ring3TaskHandle k.generation)]
          (k'.detachedFinish bits).tasks := by
    rintro k' detached generation ⟨wakes, change, woken⟩
    have finished := k'.detachedFinish_tasks bits
    rw [generation] at finished
    refine ⟨⟨wakes, ?_, fun slot set waits => woken slot set (finished slot set waits).1⟩, ?_⟩
    · rw [detachedFinish_ledger (by rw [detached, returning]; decide)]
      exact change
    · intro slot set waits
      obtain ⟨waited, quiet⟩ := finished slot set waits
      exact ⟨(woken slot set waited).1, quiet⟩
  split at ended
  · rename_i pipe stdout
    obtain rfl := Option.some.inj ended
    exact finish _ rfl rfl (untaken rfl (heldByEnds_stdout stdout))
  · obtain rfl := Option.some.inj ended
    exact finish k rfl rfl (Quiet.refl k).follows

end Programs

section Steps

def attempt (k : System) : Action → Option (Slot × Outcome × System)
  | .call slot c => some (slot, k.syscall slot c)
  | .resume slot =>
    match k.doing slot with
    | some (.waiting loop) => some (slot, k.round slot loop)
    | _ => none
  | _ => none

/-- The tasks that wait after a step waited before and nothing woke them, or the step is the one
in which they began to. -/
def Waiting (k : System) (a : Action) (wakes : List Wait) (t : System) : Prop :=
  ∀ slot set, t.tasks slot = .waiting set →
    (k.tasks slot = .waiting set ∧ ∀ on ∈ wakes, on ∉ set.reasons) ∨
    ∃ loop k', k.attempt a = some (slot, .waits set loop, k') ∧ k'.leave slot (.waits set loop) = some t

theorem Woken.waiting {wakes : List Wait} (woken : Woken k.tasks wakes t.tasks) (a : Action) :
    Waiting k a wakes t :=
  fun slot set waits => .inl (woken slot set waits)

theorem Follows.waiting (follows : Follows k event t) :
    ∃ wakes, Ledger.Change event k.ledger wakes t.ledger ∧ Waiting k a wakes t := by
  obtain ⟨wakes, change, woken⟩ := follows
  exact ⟨wakes, change, woken.waiting a⟩

theorem Follows.attempt
    (attempt : k.attempt a = some (slot, outcome, k')) (follows : Follows k event k')
    (left : k'.leave slot outcome = some t) :
    ∃ wakes, Ledger.Change event k.ledger wakes t.ledger ∧ Waiting k a wakes t := by
  obtain ⟨wakes, change, woken⟩ := follows
  refine ⟨wakes, ?_, fun other set waits => ?_⟩
  · rw [leave_ledger left]
    exact change
  · rcases leave_tasks left waits with same | ⟨rfl, loop, rfl⟩
    · exact .inl (woken other set same)
    · exact .inr ⟨loop, k', attempt, left⟩

theorem tick_waiting : Woken k.tasks [] k.tick.tasks := by
  intro slot set waits
  refine ⟨?_, fun _ mem => absurd mem List.not_mem_nil⟩
  have expired : (k.tasks slot).wakeExpired (k.ticks + 1) = .waiting set := waits
  unfold TaskState.wakeExpired at expired
  split at expired
  · split at expired
    · split at expired
      · cases expired
      · exact expired
    · exact expired
  · exact expired

theorem step_follows (coherent : k.Coherent) (next : k.step a = some t) :
    ∃ wakes, Ledger.Change (k.event a) k.ledger wakes t.ledger ∧ Waiting k a wakes t := by
  cases a with
  | call slot c =>
    obtain ⟨⟨-, user⟩, left⟩ := Option.ite_none_right_eq_some.mp next
    have top : k.processes slot ≠ [] := by
      intro empty
      rw [doing, empty] at user
      cases user
    exact (k.syscall_follows c top (coherent.not_requested user) (coherent.stdin_none user)).attempt
      rfl left
  | resume slot =>
    obtain ⟨-, next⟩ := Option.ite_none_right_eq_some.mp next
    unfold System.resume at next
    split at next
    · rename_i loop waiting
      exact (k.round_ordinary waiting).1.attempt (by simp only [System.attempt, waiting]) next
    · rename_i handle starting
      obtain ⟨-, left⟩ := Option.ite_none_right_eq_some.mp next
      have event : k.event (.resume slot) = .quiet := by simp only [System.event, accepting, starting]
      rw [event]
      exact ((Quiet.refl k).follows.done left).waiting
    · cases next
  | load slot outcome =>
    obtain ⟨⟨-, loading⟩, next⟩ := Option.ite_none_right_eq_some.mp next
    exact (load_follows loading next).waiting
  | exit slot interrupted =>
    obtain ⟨-, next⟩ := Option.ite_none_right_eq_some.mp next
    exact (exit_follows coherent next).waiting
  | spawnReturns slot ret =>
    obtain ⟨-, next⟩ := Option.ite_none_right_eq_some.mp next
    exact (spawnReturns_follows next).waiting
  | detachedBegins =>
    obtain ⟨-, next⟩ := Option.ite_none_right_eq_some.mp next
    exact (detachedBegins_follows coherent next).waiting
  | detachedEnds bits =>
    obtain ⟨-, next⟩ := Option.ite_none_right_eq_some.mp next
    exact (detachedEnds_follows next).1.waiting
  | tick =>
    obtain rfl := Option.some.inj next
    exact ⟨[], .quiet (.refl _), tick_waiting.waiting _⟩
  | key code =>
    obtain rfl := Option.some.inj next
    have woken := woken_wake { k with input := k.input.record code } [.keyboard]
    exact ⟨[], .quiet (.refl _), fun slot set waits =>
      .inl ⟨(woken slot set waits).1, fun _ mem => absurd mem List.not_mem_nil⟩⟩
  | drainKeyboard =>
    obtain rfl := Option.some.inj next
    exact Follows.waiting ⟨[], .quiet (.refl _), .refl _⟩
  | setInteractive interactive =>
    obtain rfl := Option.some.inj next
    exact Follows.waiting ⟨[], .quiet (.refl _), .refl _⟩

end Steps

end System

end Zaytos.Kernel
