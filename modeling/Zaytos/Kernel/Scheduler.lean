import Mathlib.Algebra.Group.Nat.Defs
import Zaytos.Kernel.Wait
import Zaytos.Lib.Transition

set_option autoImplicit false

/-! The scheduler: six tasks on two processors, each task owned by one of them. -/
namespace Zaytos.Kernel

abbrev maxCpus : Nat := 2

abbrev bootstrapProcessorSlot : Nat := 0

abbrev apIdleTaskOwner : Nat := 1

abbrev workerCount : Nat := 2

abbrev taskCount : Nat := workerCount + 4

abbrev mainTask : Nat := 0

abbrev apIdleTask : Nat := workerCount + 1

abbrev ring3Task : Nat := workerCount + 2

abbrev bspIdleTask : Nat := taskCount - 1

def defaultTaskFor (cpu : Nat) : Nat :=
  if cpu = bootstrapProcessorSlot then mainTask else apIdleTask

def idleTaskFor (cpu : Nat) : Nat :=
  if cpu = bootstrapProcessorSlot then bspIdleTask else apIdleTask

def isRunningOnAnotherCpu (task cpu : Nat) (currents : Nat → Nat) : Bool :=
  (List.range maxCpus).any fun other => other != cpu && currents other == task

/-- The worker that the rotation looks at, `offset` places after the current task. -/
def candidate (current offset : Nat) : Nat :=
  if current = 0 then (offset - 1) % workerCount + 1
  else (current - 1 + offset) % workerCount + 1

def isCandidate (states : Nat → TaskState) (owners currents : Nat → Nat) (cpu task : Nat) : Bool :=
  owners task == cpu && !isRunningOnAnotherCpu task cpu currents && (states task).isRunnable

/-- `pick_next`: the workers in turn, then the extra task, then where the processor falls
back to. -/
def pickNext (states : Nat → TaskState) (owners currents : Nat → Nat) (cpu current : Nat) : Nat :=
  match ((List.range' 1 workerCount).map (candidate current)).find?
      (isCandidate states owners currents cpu) with
  | some task => task
  | none =>
    if current ≠ ring3Task ∧ isCandidate states owners currents cpu ring3Task = true then ring3Task
    else if (states (defaultTaskFor cpu)).isWaiting then idleTaskFor cpu
    else defaultTaskFor cpu

/-- The part of the task table that the scheduler decides by, and `CURRENT` of each
processor. -/
structure Scheduler where
  states : Nat → TaskState
  owners : Nat → Nat
  currents : Nat → Nat
  /-- `RING3_TASK_GENERATION`. -/
  generation : Nat

namespace Scheduler

/-- What `setup_tasks` and the start of the second processor leave. -/
def booted : Scheduler where
  states task :=
    if task = mainTask then .blocked
    else if task = ring3Task then .uninitialized
    else .ready
  owners task := if task = apIdleTask then apIdleTaskOwner else bootstrapProcessorSlot
  currents := defaultTaskFor
  generation := 0

def setState (s : Scheduler) (task : Nat) (state : TaskState) : Scheduler :=
  { s with states := Function.update s.states task state }

/-- `wake_tasks_waiting_on`. -/
def wake (s : Scheduler) (on : Wait) : Scheduler :=
  { s with states := fun task => (s.states task).wake on }

/-- `wake_expired_timers`. -/
def wakeExpired (s : Scheduler) (now : Nat) : Scheduler :=
  { s with states := fun task => (s.states task).wakeExpired now }

def ring3TaskHandle (generation : Nat) : Nat := generation * 2 ^ 8 % 2 ^ 64 + 1

def handleIsCurrent (s : Scheduler) (handle : Nat) : Bool := handle == ring3TaskHandle s.generation

/-- The task that `schedule_switch` goes to. -/
def pick (s : Scheduler) (cpu : Nat) : Nat :=
  pickNext s.states s.owners s.currents cpu (s.currents cpu)

def scheduleSwitch (s : Scheduler) (cpu : Nat) : Scheduler :=
  { s with currents := Function.update s.currents cpu (s.pick cpu) }

/-- The workers lose their turn at the deadline of the demo (`on_timer_tick`). -/
def blockWorkers (s : Scheduler) : Scheduler :=
  { s with states := fun task =>
      if 1 ≤ task ∧ task ≤ workerCount then .blocked else s.states task }

def startRing3Task (s : Scheduler) : Option Nat × Scheduler :=
  if s.states ring3Task = .uninitialized then
    (some (ring3TaskHandle (s.generation + 1)),
      { s with
        generation := s.generation + 1
        states := Function.update s.states ring3Task .ready
        owners := Function.update s.owners ring3Task bootstrapProcessorSlot })
  else (none, s)

def reapRing3Task (s : Scheduler) (handle : Nat) : Bool × Scheduler :=
  if s.states ring3Task = .finished ∧ s.handleIsCurrent handle = true then
    (true, s.setState ring3Task .uninitialized)
  else (false, s)

/-- The end of the task a processor runs: `ring3_task_main` or `worker_done_and_yield`. -/
def finish (s : Scheduler) (cpu : Nat) : Option Scheduler :=
  if s.currents cpu = ring3Task then
    some ((s.setState ring3Task .finished).wake (.child (ring3TaskHandle s.generation)))
  else if 1 ≤ s.currents cpu ∧ s.currents cpu ≤ workerCount then
    some (s.setState (s.currents cpu) .finished)
  else none

inductive Action where
  | scheduleSwitch (cpu : Nat)
  | wait (cpu : Nat) (set : WaitSet)
  | wake (on : Wait)
  | wakeExpired (now : Nat)
  | blockWorkers
  | finish (cpu : Nat)
  | start
  | reap (handle : Nat)

def step (s : Scheduler) : Action → Option Scheduler
  | .scheduleSwitch cpu => if cpu < maxCpus then some (s.scheduleSwitch cpu) else none
  | .wait cpu set => if cpu < maxCpus then some (s.setState (s.currents cpu) (.waiting set)) else none
  | .wake on => some (s.wake on)
  | .wakeExpired now => some (s.wakeExpired now)
  | .blockWorkers => some s.blockWorkers
  | .finish cpu => if cpu < maxCpus then s.finish cpu else none
  | .start => some s.startRing3Task.2
  | .reap handle => some (s.reapRing3Task handle).2

end Scheduler

theorem candidate_worker (current offset : Nat) :
    1 ≤ candidate current offset ∧ candidate current offset ≤ workerCount := by
  have small : ∀ n, n % workerCount < workerCount := fun n => Nat.mod_lt n (by decide)
  unfold candidate
  split
  · exact ⟨Nat.le_add_left 1 _, small _⟩
  · exact ⟨Nat.le_add_left 1 _, small _⟩

theorem exists_candidate (current : Nat) {worker : Nat} (first : 1 ≤ worker)
    (last : worker ≤ workerCount) :
    ∃ offset ∈ List.range' 1 workerCount, candidate current offset = worker := by
  have offsets : ∀ n, n = 1 ∨ n = 2 → n ∈ List.range' 1 workerCount := by
    rintro n (rfl | rfl) <;> decide
  unfold candidate
  simp only [workerCount] at last ⊢
  by_cases main : current = 0
  · simp only [if_pos main]
    exact ⟨worker, offsets worker (by omega), by omega⟩
  · simp only [if_neg main]
    by_cases same : (current - 1 + 1) % 2 + 1 = worker
    · exact ⟨1, offsets 1 (.inl rfl), same⟩
    · exact ⟨2, offsets 2 (.inr rfl), by omega⟩

section Pick

variable (states : Nat → TaskState) (owners currents : Nat → Nat) (cpu current : Nat)

theorem pickNext_cases :
    (∃ worker, 1 ≤ worker ∧ worker ≤ workerCount ∧
      isCandidate states owners currents cpu worker = true ∧
      pickNext states owners currents cpu current = worker) ∨
    (∀ worker, 1 ≤ worker → worker ≤ workerCount →
      isCandidate states owners currents cpu worker = false) ∧
    ((current ≠ ring3Task ∧ isCandidate states owners currents cpu ring3Task = true ∧
        pickNext states owners currents cpu current = ring3Task) ∨
      (current = ring3Task ∨ isCandidate states owners currents cpu ring3Task = false) ∧
      pickNext states owners currents cpu current =
        if (states (defaultTaskFor cpu)).isWaiting then idleTaskFor cpu else defaultTaskFor cpu) := by
  unfold pickNext
  split
  · rename_i worker found
    have mem := List.mem_of_find?_eq_some found
    obtain ⟨offset, -, rfl⟩ := List.mem_map.mp mem
    have isWorker := candidate_worker current offset
    exact .inl ⟨_, isWorker.1, isWorker.2, List.find?_some found, rfl⟩
  · rename_i none
    refine .inr ⟨fun worker first last => ?_, ?_⟩
    · obtain ⟨offset, mem, rfl⟩ := exists_candidate current first last
      exact Bool.eq_false_iff.mpr (List.find?_eq_none.mp none _ (List.mem_map_of_mem mem))
    · split
      · rename_i extra
        exact .inl ⟨extra.1, extra.2, rfl⟩
      · rename_i notExtra
        refine .inr ⟨?_, rfl⟩
        rw [Bool.eq_false_iff]
        tauto

end Pick

variable {s t : Scheduler} {task : Nat}

namespace Scheduler

/-- Every processor runs a task of its own. The owners are those of the start. -/
structure Ok (s : Scheduler) : Prop where
  owners : ∀ task, s.owners task = booted.owners task
  own : ∀ cpu < maxCpus, s.owners (s.currents cpu) = cpu

theorem ok_booted : booted.Ok := ⟨fun _ => rfl, by decide⟩

theorem owner_fallback {cpu : Nat} (small : cpu < maxCpus) :
    booted.owners (defaultTaskFor cpu) = cpu ∧ booted.owners (idleTaskFor cpu) = cpu := by
  revert cpu
  decide

theorem Ok.owner_pick (ok : s.Ok) {cpu : Nat} (small : cpu < maxCpus) :
    s.owners (s.pick cpu) = cpu := by
  have owned : ∀ task, isCandidate s.states s.owners s.currents cpu task = true →
      s.owners task = cpu := by
    intro task can
    simp only [isCandidate, Bool.and_eq_true, beq_iff_eq] at can
    exact can.1.1
  unfold pick
  rcases pickNext_cases s.states s.owners s.currents cpu (s.currents cpu) with ⟨worker, -, -, can, eq⟩ | ⟨-, ⟨-, can, eq⟩ | ⟨-, eq⟩⟩
  · rw [eq]
    exact owned worker can
  · rw [eq]
    exact owned ring3Task can
  · rw [eq, ok.owners]
    have fallback := owner_fallback small
    split
    · exact fallback.2
    · exact fallback.1

theorem Ok.of_states (ok : s.Ok) (owners : t.owners = s.owners)
    (currents : t.currents = s.currents) : t.Ok :=
  ⟨by rw [owners]; exact ok.owners, by rw [owners, currents]; exact ok.own⟩

theorem Ok.scheduleSwitch (ok : s.Ok) {cpu : Nat} (small : cpu < maxCpus) :
    (s.scheduleSwitch cpu).Ok where
  owners := ok.owners
  own other smallOther := by
    show s.owners (Function.update s.currents cpu (s.pick cpu) other) = other
    by_cases same : other = cpu
    · subst same
      rw [Function.update_self]
      exact ok.owner_pick small
    · rw [Function.update_of_ne same]
      exact ok.own other smallOther

theorem Ok.start {s : Scheduler} (ok : s.Ok) : s.startRing3Task.2.Ok := by
  unfold startRing3Task
  split
  · have same : Function.update s.owners ring3Task bootstrapProcessorSlot = s.owners := by
      rw [Function.update_eq_self_iff, ok.owners]
      rfl
    exact ok.of_states same rfl
  · exact ok

theorem Ok.step {a : Action} (ok : s.Ok) (next : s.step a = some t) : t.Ok := by
  cases a with
  | scheduleSwitch cpu =>
    obtain ⟨small, next⟩ := Option.ite_none_right_eq_some.mp next
    exact Option.some.inj next ▸ ok.scheduleSwitch small
  | wait cpu set =>
    obtain ⟨-, next⟩ := Option.ite_none_right_eq_some.mp next
    exact Option.some.inj next ▸ ok.of_states rfl rfl
  | wake on => exact Option.some.inj next ▸ ok.of_states rfl rfl
  | wakeExpired now => exact Option.some.inj next ▸ ok.of_states rfl rfl
  | blockWorkers => exact Option.some.inj next ▸ ok.of_states rfl rfl
  | finish cpu =>
    obtain ⟨-, next⟩ := Option.ite_none_right_eq_some.mp next
    unfold Scheduler.finish at next
    split at next
    · exact Option.some.inj next ▸ ok.of_states rfl rfl
    · obtain ⟨-, next⟩ := Option.ite_none_right_eq_some.mp next
      exact Option.some.inj next ▸ ok.of_states rfl rfl
  | start => exact Option.some.inj next ▸ ok.start
  | reap handle =>
    obtain rfl := Option.some.inj next
    unfold reapRing3Task
    split
    · exact ok.of_states rfl rfl
    · exact ok

theorem ok_of_reachable (reach : Reachable Scheduler.step booted s) : s.Ok :=
  reach.invariant ok_booted fun _ _ _ ok next => ok.step next

def Exclusive (s : Scheduler) : Prop :=
  (∀ cpu < maxCpus, ∀ other < maxCpus, s.currents cpu = s.currents other → cpu = other) ∧
  ∀ cpu < maxCpus, s.owners (s.currents cpu) = cpu

def PicksRunnable (s : Scheduler) : Prop :=
  ∀ cpu < maxCpus, (s.states (s.pick cpu)).isRunnable = true ∨
    s.pick cpu = defaultTaskFor cpu ∨ s.pick cpu = idleTaskFor cpu

/-- The idle task is picked only when no other task of the processor can run. -/
def IdlesLast (s : Scheduler) : Prop :=
  ∀ cpu < maxCpus, s.pick cpu = idleTaskFor cpu → ∀ task < taskCount, s.owners task = cpu →
    task ≠ idleTaskFor cpu → (s.states task).isRunnable = false

/-- The extra task is the only one that can run, and is running: its turn is over all the
same, and the main task waits. -/
def ExtraTaskAlone (s : Scheduler) : Prop :=
  s.currents bootstrapProcessorSlot = ring3Task ∧ (s.states ring3Task).isRunnable = true ∧
  (s.states mainTask).isWaiting = true ∧
  ∀ worker, 1 ≤ worker → worker ≤ workerCount → (s.states worker).isRunnable = false

theorem Ok.exclusive (ok : s.Ok) : s.Exclusive := by
  refine ⟨fun cpu small other smallOther same => ?_, ok.own⟩
  rw [← ok.own cpu small, same, ok.own other smallOther]

theorem picksRunnable (s : Scheduler) : s.PicksRunnable := by
  intro cpu _
  have runs : ∀ task, isCandidate s.states s.owners s.currents cpu task = true →
      (s.states task).isRunnable = true := by
    intro task can
    rw [isCandidate, Bool.and_eq_true] at can
    exact can.2
  unfold pick
  rcases pickNext_cases s.states s.owners s.currents cpu (s.currents cpu) with ⟨worker, -, -, can, eq⟩ | ⟨-, ⟨-, can, eq⟩ | ⟨-, eq⟩⟩
  · rw [eq]
    exact .inl (runs worker can)
  · rw [eq]
    exact .inl (runs ring3Task can)
  · rw [eq]
    split
    · exact .inr (.inr rfl)
    · exact .inr (.inl rfl)

theorem Ok.isCandidate_eq (ok : s.Ok) {cpu task : Nat} (own : s.owners task = cpu) :
    isCandidate s.states s.owners s.currents cpu task = (s.states task).isRunnable := by
  have alone : isRunningOnAnotherCpu task cpu s.currents = false := by
    rw [isRunningOnAnotherCpu, List.any_eq_false]
    intro other mem both
    simp only [Bool.and_eq_true, bne_iff_ne, beq_iff_eq] at both
    have elsewhere := ok.own other (List.mem_range.mp mem)
    rw [both.2, own] at elsewhere
    exact both.1 elsewhere.symm
  rw [isCandidate, own, alone]
  simp

theorem Ok.tasks (ok : s.Ok) (small : task < taskCount)
    (own : s.owners task = bootstrapProcessorSlot) :
    task = mainTask ∨ (1 ≤ task ∧ task ≤ workerCount) ∨ task = ring3Task ∨ task = bspIdleTask := by
  rw [ok.owners] at own
  revert task
  decide

theorem Ok.owner_eq (ok : s.Ok) (other : task ≠ apIdleTask) :
    s.owners task = bootstrapProcessorSlot := by
  rw [ok.owners]
  exact if_neg other

theorem Ok.idle_of_second (ok : s.Ok)
    (own : s.owners task = apIdleTaskOwner) : task = idleTaskFor apIdleTaskOwner := by
  by_contra other
  rw [ok.owner_eq other] at own
  cases own

/-- When the first processor goes idle: no worker can run, the main task waits, and the
extra task cannot run or has just run. -/
theorem Ok.pick_idle_iff (ok : s.Ok) : s.pick bootstrapProcessorSlot = bspIdleTask ↔
      (∀ worker, 1 ≤ worker → worker ≤ workerCount → (s.states worker).isRunnable = false) ∧
      (s.currents bootstrapProcessorSlot = ring3Task ∨ (s.states ring3Task).isRunnable = false) ∧
      (s.states mainTask).isWaiting = true := by
  have workers : ∀ worker, 1 ≤ worker → worker ≤ workerCount →
      isCandidate s.states s.owners s.currents bootstrapProcessorSlot worker =
        (s.states worker).isRunnable := by
    intro worker _ last
    exact ok.isCandidate_eq (ok.owner_eq (Nat.ne_of_lt (Nat.lt_succ_of_le last)))
  have extra := ok.isCandidate_eq (ok.owner_eq (show ring3Task ≠ apIdleTask by decide))
  have main : defaultTaskFor bootstrapProcessorSlot = mainTask := rfl
  have idle : idleTaskFor bootstrapProcessorSlot = bspIdleTask := rfl
  unfold pick
  rcases pickNext_cases s.states s.owners s.currents bootstrapProcessorSlot
      (s.currents bootstrapProcessorSlot) with
    ⟨worker, first, last, can, eq⟩ | ⟨none, ⟨other, can, eq⟩ | ⟨turn, eq⟩⟩
  · rw [workers worker first last] at can
    refine iff_of_false ?_ fun all => ?_
    · rw [eq]
      exact Nat.ne_of_lt (Nat.lt_of_le_of_lt last (by decide))
    · rw [all.1 worker first last] at can
      cases can
  · rw [extra] at can
    refine iff_of_false (by rw [eq]; decide) fun all => ?_
    rcases all.2.1 with same | cannot
    · exact other same
    · rw [cannot] at can
      cases can
  · rw [eq, main, idle]
    rw [extra] at turn
    have noWorker : ∀ worker, 1 ≤ worker → worker ≤ workerCount →
        (s.states worker).isRunnable = false := by
      intro worker first last
      rw [← workers worker first last]
      exact none worker first last
    constructor
    · intro same
      refine ⟨noWorker, turn, ?_⟩
      by_contra running
      rw [if_neg running] at same
      cases same
    · intro all
      rw [if_pos all.2.2]

theorem Ok.idlesLast_iff (ok : s.Ok) : s.IdlesLast ↔ ¬ s.ExtraTaskAlone := by
  constructor
  · rintro last ⟨current, can, waits, workers⟩
    have idle := ok.pick_idle_iff.mpr ⟨workers, .inl current, waits⟩
    have cannot := last bootstrapProcessorSlot (by decide) idle ring3Task (by decide)
      (ok.owner_eq (by decide)) (by decide)
    rw [cannot] at can
    cases can
  · intro notAlone cpu small idle task smallTask own other
    by_cases second : cpu = apIdleTaskOwner
    · subst second
      exact absurd (ok.idle_of_second own) other
    · have first : cpu = bootstrapProcessorSlot := by
        simp only [maxCpus, apIdleTaskOwner, bootstrapProcessorSlot] at small second ⊢
        omega
      subst first
      obtain ⟨workers, turn, waits⟩ := ok.pick_idle_iff.mp idle
      rcases ok.tasks smallTask own with rfl | isWorker | rfl | rfl
      · cases state : s.states mainTask with
        | waiting set => rfl
        | _ => rw [state] at waits; cases waits
      · exact workers task isWorker.1 isWorker.2
      · by_contra can
        rw [Bool.not_eq_false] at can
        rcases turn with current | cannot
        · exact notAlone ⟨current, can, waits, workers⟩
        · rw [cannot] at can
          cases can
      · exact absurd rfl other

/-- In every state that steps of the scheduler lead to, no task runs on two processors, each
processor runs a task of its own, and what is picked can run or is a fallback. The idle task
comes last unless the extra task alone can run and has the processor already. -/
theorem scheduler_idles_last_iff {s : Scheduler} (reach : Reachable Scheduler.step booted s) :
    s.Exclusive ∧ s.PicksRunnable ∧ (s.IdlesLast ↔ ¬ s.ExtraTaskAlone) :=
  have ok := ok_of_reachable reach
  ⟨ok.exclusive, s.picksRunnable, ok.idlesLast_iff⟩

def startAndWait : List Action :=
  [.blockWorkers, .start, .wait 0 (.single (.child (ring3TaskHandle 1)))]

theorem scheduler_idles_last_iff_before_switch : ∃ s, Reachable Scheduler.step booted s ∧
    s.pick 0 = ring3Task ∧ s.IdlesLast := by
  have run : ((runSteps Scheduler.step startAndWait booted).map fun s =>
      (s.pick 0, s.currents 0)) = some (ring3Task, mainTask) := by decide
  obtain ⟨s, run, eq⟩ := Option.map_eq_some_iff.mp run
  obtain ⟨picked, current⟩ := Prod.mk.inj eq
  have reach := Reachable.refl.of_runSteps _ run
  refine ⟨s, reach, picked, (scheduler_idles_last_iff reach).2.2.mpr fun alone => ?_⟩
  rw [alone.1] at current
  cases current

/-- The next tick takes the processor from the extra task, which can run, and idles. -/
theorem scheduler_idles_before_extra_task : ∃ s, Reachable Scheduler.step booted s ∧
    ¬ s.IdlesLast := by
  have run : ((runSteps Scheduler.step (startAndWait ++ [.scheduleSwitch 0]) booted).map fun s =>
      (s.pick 0, (s.states ring3Task).isRunnable, s.owners ring3Task)) =
      some (bspIdleTask, true, 0) := by decide
  obtain ⟨s, run, eq⟩ := Option.map_eq_some_iff.mp run
  simp only [Prod.mk.injEq] at eq
  refine ⟨s, Reachable.refl.of_runSteps _ run, fun last => ?_⟩
  have cannot := last 0 (by decide) eq.1 ring3Task (by decide) eq.2.2 (by decide)
  rw [eq.2.1] at cannot
  cases cannot

end Scheduler

end Zaytos.Kernel
