import Zaytos.Kernel.TypedInput

set_option autoImplicit false

/-! No wake-up is lost: whoever waits, waits for what has not come. -/
namespace Zaytos.Kernel

/-- A reason of `poll` that nobody wakes for: the connection is gone, or the listener lets nobody
in while a connection is left there. -/
def Sockets.stale (s : Sockets) : Wait → Bool
  | .socketReadable conn _ => !(decide (conn < maxConnections) && (s.connections conn).inUse)
  | .socketAcceptable listener =>
    !(decide (listener < maxListeners) && (s.listeners listener).inUse &&
        (s.listeners listener).listening) &&
      (List.range maxConnections).any (s.isPending listener)
  | _ => false

namespace System

variable {k k' t : System} {slot : Slot} {a : Action} {loop : Loop} {set : WaitSet}

def Unmet (k : System) : Wait → Prop
  | .keyboard => k.input.ring.codes = []
  | .timer deadline => k.ticks < deadline
  | .child handle => k.handleIsCurrent handle = true ∧ ∀ bits, k.status ≠ some (handle, bits)
  | on => k.objects.Unmet on

def NoneMissed (k : System) : Prop :=
  ∀ slot set, k.tasks slot = .waiting set → ∀ on ∈ set.reasons, k.Unmet on

def ended (k : System) (handle : Nat) : Bool := k.status.any fun stored => stored.1 == handle

/-- The reasons for which a step is to wait in `poll`. -/
def polling (k : System) : Action → Option (List Wait)
  | .call slot (.poll fds timeout valid) =>
    if fds.length = 0 ∨ maxWaitReasons < fds.length ∨ timeout ≠ -1 ∨ valid = false then none
    else
      match k.pollReasons slot fds with
      | .ok reasons => some reasons
      | .error _ => none
  | .resume slot =>
    match k.doing slot with
    | some (.waiting (.poll reasons)) => some reasons
    | _ => none
  | _ => none

def awaiting (k : System) : Action → Option Nat
  | .call _ (.waitChild handle) => some handle
  | .resume slot =>
    match k.doing slot with
    | some (.waiting (.child handle)) => some handle
    | _ => none
  | _ => none

/-- The step waits for what nobody wakes it for: for a stale reason in `poll`, or for a child that
has ended and was reaped. -/
def misses (k : System) (a : Action) : Bool :=
  match k.polling a, k.awaiting a with
  | some reasons, _ => k.interactive && reasons.all (fun on => !k.pollIsReady on) &&
      reasons.any k.objects.sockets.stale
  | none, some handle => k.handleIsCurrent handle && decide (k.tasks detachedSlot ≠ .finished) &&
      k.ended handle
  | none, none => false

section Begin

theorem unmet_polled (idle : k.objects.sockets.Idle) {on : Wait} (polled : on.isPolled = true)
    (notReady : k.pollIsReady on = false) : k.Unmet on ↔ k.objects.sockets.stale on = false := by
  cases on with
  | keyboard =>
    have empty : k.input.ring.codes = [] := by
      rw [pollIsReady, Bool.not_eq_false'] at notReady
      exact List.isEmpty_iff.mp notReady
    exact ⟨fun _ => rfl, fun _ => empty⟩
  | socketReadable conn side =>
    cases used : decide (conn < maxConnections) && (k.objects.sockets.connections conn).inUse with
    | true =>
      rw [pollIsReady, Sockets.readable, used, Bool.true_and, Bool.or_eq_false_iff,
        Bool.not_eq_false', Bool.not_eq_false'] at notReady
      have small := of_decide_eq_true (Bool.and_eq_true_iff.mp used).1
      refine ⟨fun _ => ?_, fun _ => ⟨small, (Ring.isEmpty_iff _).mp notReady.1, notReady.2⟩⟩
      rw [Sockets.stale, used]
      rfl
    | false =>
      refine ⟨fun unmet => ?_, fun fresh => ?_⟩
      · obtain ⟨small, starved⟩ := unmet
        rw [decide_eq_true small, Bool.true_and] at used
        rw [idle conn used] at starved
        cases starved.2
      · rw [Sockets.stale, used] at fresh
        cases fresh
  | socketAcceptable listener =>
    cases waits : (List.range maxConnections).any (k.objects.sockets.isPending listener) with
    | true =>
      have listening : (decide (listener < maxListeners) && (k.objects.sockets.listeners listener).inUse &&
          (k.objects.sockets.listeners listener).listening) = false := by
        rw [pollIsReady, Sockets.acceptable, waits, Bool.and_true] at notReady
        exact notReady
      refine ⟨fun unmet => ?_, fun fresh => ?_⟩
      · obtain ⟨conn, mem, pending⟩ := List.any_eq_true.mp waits
        have not : k.objects.sockets.isPending listener conn = false :=
          unmet conn (List.mem_range.mp mem)
        cases not.symm.trans pending
      · rw [Sockets.stale, listening, waits] at fresh
        cases fresh
    | false =>
      refine ⟨fun _ => ?_, fun _ conn small => ?_⟩
      · rw [Sockets.stale, waits, Bool.and_false]
      · exact Bool.eq_false_of_not_eq_true
          (List.any_eq_false.mp waits conn (List.mem_range.mpr small))
  | _ => cases polled

theorem attempt_polling {reasons : List Wait} (looping : k.Looping)
    (polling : k.polling a = some reasons) :
    (Loop.poll reasons).Sound ∧ ∃ slot, k.attempt a = some (slot, k.pollLoop reasons) := by
  cases a with
  | call slot c =>
    cases c with
    | poll fds timeout valid =>
      rw [System.polling] at polling
      obtain ⟨given, polling⟩ := Option.ite_none_left_eq_some.mp polling
      simp only [not_or, not_lt, ne_eq, not_not, Bool.not_eq_false] at given
      obtain ⟨some, few, forever, writable⟩ := given
      split at polling
      · rename_i found ok
        obtain rfl := Option.some.inj polling
        obtain ⟨polled, length⟩ := pollReasons_sound ok
        refine ⟨⟨polled, by omega⟩, slot, ?_⟩
        show Option.some (slot, k.pollFromRing3 slot fds timeout valid) = _
        unfold pollFromRing3
        rw [if_neg (by omega), if_neg (by omega), if_neg (by rw [writable]; decide), ok]
        dsimp only
        rw [if_neg (by omega)]
      · cases polling
    | _ => cases polling
  | resume slot =>
    rw [System.polling] at polling
    split at polling
    · rename_i found waiting
      obtain rfl := Option.some.inj polling
      refine ⟨looping.of_doing waiting, slot, ?_⟩
      simp only [attempt, waiting]
      rfl
    · cases polling
  | _ => cases polling

theorem wake_finished (k : System) (wakes : List Wait) (slot : Slot) :
    (k.wake wakes).tasks slot = .finished ↔ k.tasks slot = .finished := by
  have fold : ∀ state : TaskState, wakes.foldl (fun state on => state.wake on) state = .finished ↔
      state = .finished := by
    induction wakes with
    | nil => exact fun state => Iff.rfl
    | cons on rest ih =>
      intro state
      rw [List.foldl_cons, ih]
      unfold TaskState.wake
      split
      · rename_i waits
        refine ⟨nofun, fun finished => ?_⟩
        rw [finished] at waits
        cases waits
      · exact Iff.rfl
  exact fold _

theorem attempt_awaiting {handle : Nat} (awaiting : k.awaiting a = some handle) :
    ∃ (slot : Slot) (k₁ : System), k.attempt a = some (slot, k₁.childLoop handle) ∧ k₁.status = k.status ∧
      k₁.generation = k.generation ∧
      (k₁.tasks detachedSlot = .finished ↔ k.tasks detachedSlot = .finished) := by
  cases a with
  | call slot c =>
    cases c with
    | waitChild handle' =>
      obtain rfl := Option.some.inj awaiting
      simp only [attempt, syscall, waitChildFromRing3]
      split
      · exact ⟨slot, k, rfl, rfl, rfl, Iff.rfl⟩
      · exact ⟨slot, _, rfl, rfl, rfl, wake_finished _ _ _⟩
    | _ => cases awaiting
  | resume slot =>
    rw [System.awaiting] at awaiting
    split at awaiting
    · rename_i found waiting
      obtain rfl := Option.some.inj awaiting
      refine ⟨slot, k, ?_, rfl, rfl, Iff.rfl⟩
      simp only [attempt, waiting]
      rfl
    · cases awaiting
  | _ => cases awaiting

theorem polling_or_awaiting (attempt : k.attempt a = some (slot, .waits set loop, k'))
    (looping : k.Looping) : (loop.kind = .poll → k.polling a ≠ none) ∧
      (loop.kind = .child → k.awaiting a ≠ none) := by
  cases a with
  | call slot c =>
    obtain ⟨rfl, same⟩ := Prod.mk.inj (Option.some.inj attempt)
    have out : (k.syscall slot c).1 = .waits set loop := congrArg Prod.fst same
    obtain ⟨kind, begins, comes⟩ := k.syscall_waits out
    refine ⟨fun isPoll none => ?_, fun isChild none => ?_⟩
    · rw [← begins.kind, isPoll] at comes
      obtain ⟨fds, timeout, valid, rfl⟩ := comes
      have out : (k.pollFromRing3 slot fds timeout valid).1 = .waits set loop := out
      rw [System.polling] at none
      unfold pollFromRing3 at out
      split at out
      · cases out
      split at out
      · cases out
      split at out
      · cases out
      split at out
      · cases out
      · rename_i few limit writable _ reasons ok
        split at out
        · cases out
        · rename_i forever
          have given : ¬ (fds.length = 0 ∨ maxWaitReasons < fds.length ∨ timeout ≠ -1 ∨ valid = false) := by
            rintro (empty | many | other | unwritable)
            · exact few (.inl empty)
            · exact few (.inr many)
            · exact limit ⟨other, forever⟩
            · exact writable unwritable
          rw [if_neg given, ok] at none
          cases none
    · rw [← begins.kind, isChild] at comes
      obtain ⟨handle, rfl⟩ := comes
      cases none
  | resume slot =>
    rw [System.attempt] at attempt
    split at attempt
    · rename_i before waiting
      obtain ⟨rfl, same⟩ := Prod.mk.inj (Option.some.inj attempt)
      have out : (k.round slot before).1 = .waits set loop := congrArg Prod.fst same
      have begins := k.round_waits (looping.of_doing waiting) out
      refine ⟨fun isPoll none => ?_, fun isChild none => ?_⟩
      · have same := begins.kind.symm.trans isPoll
        cases before with
        | poll reasons =>
          simp only [System.polling, waiting] at none
          cases none
        | _ => cases same
      · have same := begins.kind.symm.trans isChild
        cases before with
        | child handle =>
          simp only [System.awaiting, waiting] at none
          cases none
        | _ => cases same
    · cases attempt
  | _ => cases attempt

theorem unmet_single {on : Wait} : (∀ other ∈ (WaitSet.single on).reasons, k.Unmet other) ↔
    k.Unmet on := by
  simp only [WaitSet.single, List.mem_singleton, forall_eq]

theorem attempt_unmet (looping : k.Looping) (idle : k.objects.sockets.Idle)
    (attempt : k.attempt a = some (slot, .waits set loop, k')) :
    (∀ on ∈ set.reasons, k'.Unmet on) ↔ k.misses a = false := by
  cases polling : k.polling a with
  | some reasons =>
    obtain ⟨sound, slot', same⟩ := attempt_polling looping polling
    obtain ⟨-, same⟩ := Prod.mk.inj (Option.some.inj (attempt.symm.trans same))
    have out : (k.pollLoop reasons).1 = .waits set loop := congrArg Prod.fst same.symm
    have after : k' = k := (congrArg Prod.snd same).trans (k.pollLoop_snd reasons)
    subst after
    unfold pollLoop at out
    dsimp only at out
    split at out
    · cases out
    · rename_i none
      split at out
      · cases out
      · rename_i interactive
        split at out
        · cases out
        · rename_i isSet
          cases out
          have notReady : ∀ on ∈ reasons, k'.pollIsReady on = false := fun on mem =>
            Bool.eq_false_iff.mpr (List.countP_eq_zero.mp (Nat.eq_zero_of_not_pos none) on mem)
          have all : reasons.all (fun on => !k'.pollIsReady on) = true :=
            List.all_eq_true.mpr fun on mem => by rw [notReady on mem]; rfl
          rw [Bool.not_eq_false] at interactive
          rw [misses, polling]
          dsimp only
          rw [interactive, all, Bool.true_and, Bool.true_and, List.any_eq_false]
          refine forall_congr' fun on => ?_
          rw [mem_waitSetOf isSet]
          refine forall_congr' fun mem => ?_
          rw [unmet_polled idle (sound.1 on mem) (notReady on mem), Bool.not_eq_true]
  | none =>
    cases awaiting : k.awaiting a with
    | some handle =>
      obtain ⟨slot', k₁, same, status, generation, finished⟩ := attempt_awaiting awaiting
      obtain ⟨-, same⟩ := Prod.mk.inj (Option.some.inj (attempt.symm.trans same))
      unfold childLoop at same
      split at same
      · rename_i current
        split at same
        · cases congrArg Prod.fst same
        · rename_i running
          obtain ⟨out, rfl⟩ := Prod.mk.inj same
          cases out
          have isCurrent : k.handleIsCurrent handle = true := by
            unfold handleIsCurrent at current ⊢
            rwa [generation] at current
          have isRunning : decide (k.tasks detachedSlot ≠ .finished) = true :=
            decide_eq_true fun stopped => running (finished.mpr stopped)
          rw [unmet_single, misses, polling, awaiting]
          dsimp only
          rw [isCurrent, isRunning, Bool.true_and, Bool.true_and, ended]
          show _ ∧ (∀ bits, k'.status ≠ some (handle, bits)) ↔ _
          rw [status]
          refine ⟨fun unmet => ?_, fun unknown => ⟨current, fun bits same => ?_⟩⟩
          · cases known : k.status with
            | none => rfl
            | some stored =>
              refine beq_eq_false_iff_ne.mpr fun same => ?_
              exact unmet.2 stored.2 (by rw [known, ← same])
          · rw [same, Option.any_some, beq_self_eq_true] at unknown
            cases unknown
      · cases congrArg Prod.fst same
    | none =>
      have met : k.misses a = false := by rw [misses, polling, awaiting]
      rw [met]
      refine iff_of_true ?_ rfl
      obtain ⟨kind, begins⟩ := looping.begins attempt
      obtain ⟨notPoll, notChild⟩ := polling_or_awaiting attempt looping
      cases begins.waits with
      | pipeRead starved => exact unmet_single.mpr starved
      | pipeWrite stuffed => exact unmet_single.mpr stuffed
      | socketRead small starved => exact unmet_single.mpr ⟨small, starved⟩
      | socketWrite small stuffed => exact unmet_single.mpr ⟨small, stuffed⟩
      | recvmsg small starved => exact unmet_single.mpr ⟨small, starved⟩
      | accept none => exact unmet_single.mpr none
      | poll isSet notReady => exact absurd polling (notPoll rfl)
      | terminal empty => exact unmet_single.mpr empty
      | input empty => exact unmet_single.mpr empty
      | sleep early => exact unmet_single.mpr early
      | child current running => exact absurd awaiting (notChild rfl)

theorem misses_waits (looping : k.Looping) (misses : k.misses a = true) :
    ∃ slot set loop k', k.attempt a = some (slot, .waits set loop, k') := by
  cases polling : k.polling a with
  | some reasons =>
    obtain ⟨sound, slot, attempt⟩ := attempt_polling looping polling
    rw [System.misses, polling] at misses
    dsimp only at misses
    simp only [Bool.and_eq_true, List.all_eq_true, Bool.not_eq_true'] at misses
    obtain ⟨⟨interactive, notReady⟩, -⟩ := misses
    obtain ⟨set, isSet⟩ := waitSetOf_isSome sound.2
    refine ⟨slot, set, .poll reasons, k, attempt.trans ?_⟩
    unfold pollLoop
    dsimp only
    rw [if_neg, if_neg, isSet]
    · rw [interactive]
      decide
    · rw [not_lt, Nat.le_zero, List.countP_eq_zero]
      intro on mem
      rw [notReady on mem]
      decide
  | none =>
    cases awaiting : k.awaiting a with
    | some handle =>
      obtain ⟨slot, k₁, attempt, status, generation, finished⟩ := attempt_awaiting awaiting
      rw [System.misses, polling, awaiting] at misses
      dsimp only at misses
      simp only [Bool.and_eq_true, decide_eq_true_eq] at misses
      obtain ⟨⟨current, running⟩, -⟩ := misses
      refine ⟨slot, .single (.child handle), .child handle, k₁, attempt.trans ?_⟩
      unfold childLoop
      have current₁ : k₁.handleIsCurrent handle = true := by
        unfold handleIsCurrent at current ⊢
        rwa [generation]
      rw [if_pos current₁, if_neg fun stopped => running (finished.mp stopped)]
    | none =>
      rw [System.misses, polling, awaiting] at misses
      cases misses

end Begin

section Runs

def Timed (k : System) : Prop :=
  ∀ slot set, k.tasks slot = .waiting set → ∀ deadline, .timer deadline ∈ set.reasons →
    set.timerDeadline = some deadline

theorem Begins.timed {kind : LoopKind} (begins : Begins k kind set loop) {deadline : Nat}
    (mem : .timer deadline ∈ set.reasons) : set.timerDeadline = some deadline := by
  cases begins.waits with
  | sleep early =>
    cases List.mem_singleton.mp mem
    rfl
  | poll isSet notReady =>
    have polled := begins.sound.1 _ ((mem_waitSetOf isSet).mp mem)
    cases polled
  | _ => cases List.mem_singleton.mp mem

theorem Timed.step (timed : k.Timed) (coherent : k.Coherent) (looping : k.Looping)
    (next : k.step a = some t) : t.Timed := by
  intro slot set waits deadline mem
  obtain ⟨wakes, -, waiting⟩ := step_follows coherent next
  rcases waiting slot set waits with ⟨waited, -⟩ | ⟨loop, k', attempt, -⟩
  · exact timed slot set waited deadline mem
  · obtain ⟨kind, begins⟩ := looping.begins attempt
    exact begins.timed mem

theorem unmet_kept (pipesHeld : k.ledger.PipesHeld)
    (idle : k.objects.sockets.Idle) (timed : k.Timed) (next : k.step a = some t) {wakes : List Wait}
    (change : Ledger.Change (k.event a) k.ledger wakes t.ledger)
    (waited : k.tasks slot = .waiting set) (waits : t.tasks slot = .waiting set)
    (quiet : ∀ on ∈ wakes, on ∉ set.reasons) {on : Wait} (mem : on ∈ set.reasons)
    (unmet : k.Unmet on) : t.Unmet on := by
  have keeps : k.objects.Unmet on → t.objects.Unmet on := fun unmet =>
    Ledger.unmet_change pipesHeld idle change on unmet fun woken => quiet on woken mem
  cases on with
  | pipeReadable pipe => exact keeps unmet
  | pipeWritable pipe => exact keeps unmet
  | socketReadable conn side => exact keeps unmet
  | socketWritable conn side => exact keeps unmet
  | socketAcceptable listener => exact keeps unmet
  | keyboard =>
    have empty : k.input.ring.codes = [] := unmet
    by_cases isKey : ∃ code, a = .key code
    · obtain ⟨code, rfl⟩ := isKey
      obtain rfl := Option.some.inj next
      exact absurd mem ((woken_wake _ _ slot set waits).2 .keyboard (List.mem_singleton.mpr rfl))
    · have fewer := step_codes next fun code same => isKey ⟨code, same⟩
      rw [empty] at fewer
      exact List.suffix_nil.mp fewer
  | timer deadline =>
    have early : k.ticks < deadline := unmet
    rcases step_aside next with aside | rfl | ⟨bits, ended⟩
    · exact early.trans_eq' aside.ticks.symm
    · have expired : (k.tasks slot).wakeExpired (k.ticks + 1) = .waiting set := waits
      rw [waited] at expired
      unfold TaskState.wakeExpired at expired
      dsimp only at expired
      rw [timed slot set waited deadline mem] at expired
      dsimp only at expired
      split at expired
      · cases expired
      · rename_i later
        exact Nat.lt_of_not_le later
    · exact early.trans_eq' (detachedEnds_processes ended).2.2.1.symm
  | child handle =>
    obtain ⟨current, unknown⟩ := unmet
    have same : t.generation = k.generation := by
      rcases step_generation next with same | ⟨free, other, ready⟩
      · exact same
      · exfalso
        have first : ∀ slot, k.tasks slot ≠ .uninitialized → slot = 0 := by
          intro slot running
          by_contra ne
          exact running (Fin.eq_one_of_ne_zero slot ne ▸ free)
        have isFirst := first slot (by rw [waited]; nofun)
        have otherFirst := first other (by rw [ready]; nofun)
        rw [isFirst] at waited
        rw [otherFirst, waited] at ready
        cases ready
    have stillCurrent : t.handleIsCurrent handle = true := by
      unfold handleIsCurrent at current ⊢
      rwa [same]
    rcases step_aside next with aside | rfl | ⟨bits, ended⟩
    · exact ⟨stillCurrent, fun bits => aside.status ▸ unknown bits⟩
    · exact ⟨stillCurrent, unknown⟩
    · have woken := (detachedEnds_follows ended).2 slot set waits
      refine absurd mem (woken.2 _ (List.mem_singleton.mpr ?_))
      exact congrArg _ (beq_iff_eq.mp current)

theorem leave_unmet {outcome : Outcome} (left : k.leave slot outcome = some t) {on : Wait} :
    t.Unmet on ↔ k.Unmet on := by
  cases outcome with
  | panics => cases left
  | _ =>
    obtain rfl := Option.some.inj left
    cases on <;> exact Iff.rfl

theorem step_attempt {outcome : Outcome} (attempt : k.attempt a = some (slot, outcome, k'))
    (next : k.step a = some t) : k'.leave slot outcome = some t := by
  cases a with
  | call slot c =>
    obtain ⟨-, left⟩ := Option.ite_none_right_eq_some.mp next
    obtain ⟨rfl, same⟩ := Prod.mk.inj (Option.some.inj attempt)
    rwa [same] at left
  | resume slot =>
    obtain ⟨-, next⟩ := Option.ite_none_right_eq_some.mp next
    rw [System.attempt] at attempt
    split at attempt
    · rename_i loop waiting
      obtain ⟨rfl, same⟩ := Prod.mk.inj (Option.some.inj attempt)
      unfold System.resume at next
      rw [waiting] at next
      dsimp only at next
      rwa [same] at next
    · cases attempt
  | _ => cases attempt

theorem NoneMissed.step_iff (missed : k.NoneMissed) (coherent : k.Coherent)
    (pipesHeld : k.ledger.PipesHeld) (idle : k.objects.sockets.Idle) (looping : k.Looping)
    (timed : k.Timed) (next : k.step a = some t) : t.NoneMissed ↔ k.misses a = false := by
  constructor
  · intro none
    by_contra misses
    rw [Bool.not_eq_false] at misses
    obtain ⟨slot, set, loop, k', attempt⟩ := misses_waits looping misses
    have left := step_attempt attempt next
    have waits : t.tasks slot = .waiting set := by
      obtain rfl := Option.some.inj left
      exact Function.update_self _ _ _
    have unmet := (attempt_unmet looping idle attempt).mp fun on mem =>
      (leave_unmet left).mp (none slot set waits on mem)
    cases unmet.symm.trans misses
  · intro met slot set waits on mem
    obtain ⟨wakes, change, waiting⟩ := step_follows coherent next
    rcases waiting slot set waits with ⟨waited, quiet⟩ | ⟨loop, k', attempt, left⟩
    · exact unmet_kept pipesHeld idle timed next change waited waits quiet mem
        (missed slot set waited on mem)
    · exact (leave_unmet left).mpr ((attempt_unmet looping idle attempt).mpr met on mem)

variable {allocator : FrameAllocator} {root : Bytes} {us : Bool}

def attentiveStep (k : System) (a : Action) : Option System :=
  if k.misses a then none else k.step a

theorem timed_of_reachable (reach : Reachable step (init allocator root us) k) : k.Timed := by
  refine (reach.invariant (P := fun k => k.Coherent ∧ k.Looping ∧ k.Timed)
    ⟨coherent_init allocator root us, fun _ _ mem => absurd mem List.not_mem_nil, ?_⟩ ?_).2.2
  · intro slot set waits
    unfold init at waits
    dsimp only at waits
    split at waits <;> cases waits
  · rintro k a t ⟨coherent, looping, timed⟩ next
    exact ⟨coherent.step next, looping.step next, timed.step coherent looping next⟩

theorem reachable_of_attentive (reach : Reachable attentiveStep (init allocator root us) k) :
    Reachable step (init allocator root us) k :=
  reach.mono fun _ _ _ next => (Option.ite_none_left_eq_some.mp next).2

theorem step_missed_iff (reach : Reachable step (init allocator root us) k) (missed : k.NoneMissed)
    (next : k.step a = some t) : t.NoneMissed ↔ k.misses a = false :=
  missed.step_iff (coherent_of_reachable reach) (pipesHeld_of_reachable reach)
    (idle_of_reachable reach) (looping_of_reachable reach) (timed_of_reachable reach) next

/-- In every run in which nobody waits for a stale reason in `poll` or for a child that was reaped,
whoever waits, waits for what has not come. Whether a further step keeps this is exactly whether it
is no such wait. -/
theorem no_wake_up_lost (reach : Reachable attentiveStep (init allocator root us) k) :
    k.NoneMissed ∧ ∀ a t, k.step a = some t → (t.NoneMissed ↔ k.misses a = false) := by
  have missed : k.NoneMissed := by
    refine (reach.invariant (P := fun k => Reachable step (init allocator root us) k ∧ k.NoneMissed)
      ⟨.refl, ?_⟩ ?_).2
    · intro slot set waits
      unfold init at waits
      dsimp only at waits
      split at waits <;> cases waits
    · rintro k a t ⟨reach, missed⟩ next
      obtain ⟨met, next⟩ := Option.ite_none_left_eq_some.mp next
      exact ⟨reach.step a next,
        (step_missed_iff reach missed next).mpr (Bool.eq_false_of_not_eq_true met)⟩
  exact ⟨missed, fun a t next => step_missed_iff (reachable_of_attentive reach) missed next⟩

/-- A program waits for what its peer is to write. -/
theorem no_wake_up_lost_reader : ∃ k,
    Reachable attentiveStep (init ⟨4, [⟨1, 100⟩]⟩ ⟨0, fun _ => 0⟩ true) k ∧
    k.tasks 0 = .waiting (.single (.socketReadable 0 .client)) ∧ k.NoneMissed := by
  have run : ((runSteps attentiveStep [.load 0 (.runs [1024] 4194304), .call 0 (.socket 1 1 0),
      .call 0 (.bind 3 (.ok [97])), .call 0 (.listen 3), .call 0 (.socket 1 1 0),
      .call 0 (.connect 4 (.ok [97])), .call 0 (.read 4 1 true)]
      (init ⟨4, [⟨1, 100⟩]⟩ ⟨0, fun _ => 0⟩ true)).map fun k => k.tasks 0) =
        some (.waiting (.single (.socketReadable 0 .client))) := by
    decide
  obtain ⟨k, run, waits⟩ := Option.map_eq_some_iff.mp run
  have reach := Reachable.refl.of_runSteps _ run
  exact ⟨k, reach, waits, (no_wake_up_lost reach).1⟩

/-- A listener goes while a connection waits at it, and its slot is bound again: `poll` waits for a
connection while one is there. And who waits a second time for a child waits for ever. -/
theorem wake_ups_lost :
    (∃ k, Reachable step (init ⟨4, [⟨1, 100⟩]⟩ ⟨0, fun _ => 0⟩ true) k ∧
      k.tasks 0 = .waiting (.single (.socketAcceptable 0)) ∧ ¬ k.NoneMissed) ∧
    (∃ k, Reachable step (init ⟨4, [⟨1, 100⟩]⟩ ⟨0, fun _ => 0⟩ true) k ∧
      k.tasks 0 = .waiting (.single (.child 257)) ∧ ¬ k.NoneMissed) := by
  constructor
  · have run : ((runSteps step [.setInteractive true, .load 0 (.runs [1024] 4194304),
        .call 0 (.socket 1 1 0), .call 0 (.bind 3 (.ok [97])), .call 0 (.listen 3),
        .call 0 (.socket 1 1 0), .call 0 (.connect 4 (.ok [97])), .call 0 (.close 3),
        .call 0 (.socket 1 1 0), .call 0 (.bind 3 (.ok [97])), .call 0 (.poll [⟨3, 1⟩] (-1) true)]
        (init ⟨4, [⟨1, 100⟩]⟩ ⟨0, fun _ => 0⟩ true)).map fun k =>
          (k.tasks 0, k.objects.sockets.isPending 0 0)) =
        some (.waiting (.single (.socketAcceptable 0)), true) := by
      decide
    obtain ⟨k, run, eq⟩ := Option.map_eq_some_iff.mp run
    obtain ⟨waits, pending⟩ := Prod.mk.inj eq
    refine ⟨k, Reachable.refl.of_runSteps _ run, waits, fun missed => ?_⟩
    have none : k.objects.sockets.isPending 0 0 = false :=
      missed 0 _ waits _ (List.mem_singleton.mpr rfl) 0 (by decide)
    cases none.symm.trans pending
  · have run : ((runSteps step [.load 0 (.runs [1024] 4194304), .call 0 (.spawnDetached 0 (.ok ())),
        .detachedBegins, .load 1 (.runs [1024] 4194304), .resume 0, .exit 1 false, .detachedEnds 0,
        .call 0 (.waitChild 257), .call 0 (.waitChild 257)]
        (init ⟨4, [⟨1, 100⟩]⟩ ⟨0, fun _ => 0⟩ true)).map fun k => (k.tasks 0, k.status)) =
        some (.waiting (.single (.child 257)), some (257, 0)) := by
      decide
    obtain ⟨k, run, eq⟩ := Option.map_eq_some_iff.mp run
    obtain ⟨waits, ended⟩ := Prod.mk.inj eq
    refine ⟨k, Reachable.refl.of_runSteps _ run, waits, fun missed => ?_⟩
    exact (missed 0 _ waits _ (List.mem_singleton.mpr rfl)).2 0 ended

end Runs

end System

end Zaytos.Kernel
