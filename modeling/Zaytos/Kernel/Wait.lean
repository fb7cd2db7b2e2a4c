import Mathlib.Data.List.Basic

set_option autoImplicit false

/-! What a task waits for, and who wakes it. -/
namespace Zaytos.Kernel

inductive Side where
  | client
  | server
  deriving DecidableEq, Repr

def Side.peer : Side → Side
  | .client => .server
  | .server => .client

@[simp] theorem Side.peer_peer (side : Side) : side.peer.peer = side := by
  cases side <;> rfl

theorem Side.peer_ne (side : Side) : side.peer ≠ side := by
  cases side <;> decide

inductive Wait where
  | keyboard
  | child (handle : Nat)
  | pipeReadable (pipe : Nat)
  | pipeWritable (pipe : Nat)
  | timer (deadline : Nat)
  | socketAcceptable (listener : Nat)
  | socketReadable (conn : Nat) (side : Side)
  | socketWritable (conn : Nat) (side : Side)
  deriving DecidableEq, Repr

abbrev maxWaitReasons : Nat := 4

/-- The reasons a task waits for, in the order they were given. Any of them wakes it. -/
structure WaitSet where
  reasons : List Wait
  few : reasons.length ≤ maxWaitReasons
  deriving DecidableEq

namespace WaitSet

def single (on : Wait) : WaitSet := ⟨[on], Nat.le_add_left 1 3⟩

def empty : WaitSet := ⟨[], by decide⟩

def contains (set : WaitSet) (on : Wait) : Bool := set.reasons.contains on

/-- `push`. A set that is full takes no further reason. -/
def push (set : WaitSet) (on : Wait) : Option WaitSet :=
  if set.contains on then some set
  else if full : set.reasons.length = maxWaitReasons then none
  else some ⟨set.reasons ++ [on], by
    have := set.few
    rw [List.length_append, List.length_singleton]
    omega⟩

/-- `timer_deadline`: of the first timer in the set. -/
def timerDeadline (set : WaitSet) : Option Nat :=
  set.reasons.findSome? fun reason =>
    match reason with
    | .timer deadline => some deadline
    | _ => none

end WaitSet

inductive TaskState where
  | uninitialized
  | ready
  | blocked
  | waiting (set : WaitSet)
  | finished
  deriving DecidableEq

namespace TaskState

def isRunnable (state : TaskState) : Bool := state = .ready

def isWaiting : TaskState → Bool
  | .waiting _ => true
  | _ => false

def waitsOn (state : TaskState) (on : Wait) : Bool :=
  match state with
  | .waiting set => set.contains on
  | _ => false

/-- The state a task has after `wake_tasks_waiting_on`. -/
def wake (on : Wait) (state : TaskState) : TaskState :=
  if state.waitsOn on then .ready else state

/-- The state a task has after `wake_expired_timers`. -/
def wakeExpired (now : Nat) (state : TaskState) : TaskState :=
  match state with
  | .waiting set =>
    match set.timerDeadline with
    | some deadline => if deadline ≤ now then .ready else state
    | none => state
  | _ => state

end TaskState

end Zaytos.Kernel
