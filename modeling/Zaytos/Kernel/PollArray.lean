import Zaytos.Kernel.Machine

set_option autoImplicit false

/-! The array of `poll`: what the call reads of it, and what it writes back. -/
namespace Zaytos.Kernel

abbrev pollfdLen : Nat := 8

/-- `parse_pollfd`, of the entry at this place. -/
def parsePollfd (raw : Bytes) (index : Nat) : PollFd where
  fd := (BitVec.ofNat 32 (raw.u32 (index * pollfdLen))).toInt
  events := raw.u16 (index * pollfdLen + 4)

/-- `revents` of the entry at this place. -/
def reventsAt (raw : Bytes) (index : Nat) : Nat := raw.u16 (index * pollfdLen + 6)

def setPollfdRevents (raw : Bytes) (index revents : Nat) : Bytes :=
  raw.putU16 (index * pollfdLen + 6) revents

/-- `revents` of the entries from a place on. -/
def setRevents (raw : Bytes) (index : Nat) : List Nat → Bytes
  | [] => raw
  | revents :: rest => setRevents (setPollfdRevents raw index revents) (index + 1) rest

def pollTimeout (timeout : Nat) : Int := (BitVec.ofNat 32 timeout).toInt

namespace System

def pollRequests (raw : Bytes) (nfds : Nat) : List PollFd := (List.range nfds).map (parsePollfd raw)

/-- `revents` of the entries with these reasons. -/
def pollRevents (k : System) (reasons : List Wait) : List Nat :=
  reasons.map fun on => if k.pollIsReady on then pollin else 0

/-- A round of the loop in `poll_from_ring3`. The state is that of the system and the array of the
caller; `raw` is the copy of the array. -/
def pollRound (raw : Bytes) (timeout : Int) (s : System × Bytes) (reasons : List Wait) :
    Outcome × (System × Bytes) :=
  let ready := reasons.countP s.1.pollIsReady
  if 0 < ready then
    (.done (.value ready), s.1, setRevents raw 0 (s.1.pollRevents reasons))
  else if timeout = 0 then (.done (.value 0), s)
  else if s.1.interactive = false then (.done (.error .eagain), s)
  else
    match waitSetOf reasons with
    | none => (.done (.error .einval), s)
    | some set => (.waits set (.poll reasons), s)

def pollAgain (raw : Bytes) (timeout : Int) (s : System × Bytes) : Loop → Outcome × (System × Bytes)
  | .poll reasons => pollRound raw timeout s reasons
  | _ => (.panics, s)

/-- `poll_from_ring3`, with the array of the caller. -/
def pollCall (slot : Slot) (nfds timeout : Nat) (valid : Bool) (s : System × Bytes) :
    Outcome × (System × Bytes) :=
  if nfds = 0 ∨ maxWaitReasons < nfds then (.done (.error .einval), s)
  else if pollTimeout timeout ≠ -1 ∧ pollTimeout timeout ≠ 0 then (.done (.error .einval), s)
  else if valid = false then (.done (.error .efault), s)
  else
    match s.1.pollReasons slot (pollRequests s.2 nfds) with
    | .error errno => (.done (.error errno), s)
    | .ok reasons => pollRound s.2 (pollTimeout timeout) s reasons

section

variable {k : System} {slot : Slot} {raw : Bytes} {timeout : Int} {reasons : List Wait}

theorem pollRound_fst (s : System × Bytes) (reasons : List Wait) :
    (pollRound raw (-1) s reasons).1 = (s.1.pollLoop reasons).1 := by
  rw [pollRound, pollLoop]
  split
  · rfl
  · rw [if_neg (by decide)]
    split
    · rfl
    · cases waitSetOf reasons <;> rfl

theorem pollCall_fst (slot : Slot) (nfds limit : Nat) (valid : Bool) (s : System × Bytes) :
    (pollCall slot nfds limit valid s).1 =
      (s.1.pollFromRing3 slot (pollRequests s.2 nfds) (pollTimeout limit) valid).1 := by
  have length : (pollRequests s.2 nfds).length = nfds := by simp [pollRequests]
  rw [pollCall, pollFromRing3, length]
  split
  · rfl
  split
  · rfl
  · rename_i few known
    split
    · rfl
    · cases found : s.1.pollReasons slot (pollRequests s.2 nfds) with
      | error errno => rfl
      | ok reasons =>
        dsimp only
        by_cases none : pollTimeout limit = 0
        · rw [if_pos none, none, pollRound]
          split
          · rfl
          · rename_i nobody
            rw [if_pos rfl, Nat.le_zero.mp (not_lt.mp nobody)]
        · have endless : pollTimeout limit = -1 := by
            by_contra other
            exact known ⟨other, none⟩
          rw [if_neg none, endless, pollRound_fst]

/-! The array that is written. -/

theorem setRevents_len (values : List Nat) (raw : Bytes) (index : Nat) :
    (setRevents raw index values).len = raw.len := by
  induction values generalizing raw index with
  | nil => rfl
  | cons value rest ih => exact ih _ _

theorem setRevents_get (values : List Nat) (raw : Bytes) (index : Nat) {i : Nat}
    (apart : i < index * 8 + 6 ∨ i % 8 < 6) : (setRevents raw index values).get i = raw.get i := by
  induction values generalizing raw index with
  | nil => rfl
  | cons value rest ih =>
    rw [setRevents, ih _ _ (by omega)]
    exact Bytes.get_put_outside _ (show i < index * 8 + 6 ∨ index * 8 + 6 + 2 ≤ i by omega)

theorem reventsAt_setRevents (values : List Nat) (raw : Bytes) (index : Nat)
    (small : ∀ value ∈ values, value < 2 ^ 16) (i : Nat) (inside : i < values.length) :
    reventsAt (setRevents raw index values) (index + i) = values[i] := by
  induction values generalizing raw index i with
  | nil => exact absurd inside (Nat.not_lt_zero i)
  | cons value rest ih =>
    have sizes := List.forall_mem_cons.mp small
    cases i with
    | zero =>
      have same : Bytes.SameOn (setPollfdRevents raw index value)
          (setRevents (setPollfdRevents raw index value) (index + 1) rest) (index * 8 + 6) 2 := by
        intro j lower upper
        exact setRevents_get rest _ (index + 1) (by omega)
      show Bytes.u16 _ (index * 8 + 6) = value
      rw [setRevents, same.u16 (le_rfl) (le_rfl)]
      show (raw.putU16 (index * 8 + 6) value).u16 (index * 8 + 6) = value
      rw [Bytes.u16_putU16, Nat.mod_eq_of_lt sizes.1]
    | succ i =>
      rw [setRevents, show index + (i + 1) = index + 1 + i by omega]
      exact ih _ (index + 1) sizes.2 i (Nat.lt_of_succ_lt_succ inside)

/-- `revents` of all entries, in their order. -/
def reventsOf (raw : Bytes) (nfds : Nat) : List Nat := (List.range nfds).map (reventsAt raw)

/-- The array agrees with the count. The reasons are those of the descriptors when the call began:
a task that waits keeps its table, and `k` is the state in which the call went on last. -/
structure PollAgrees (began k : System) (slot : Slot) (nfds : Nat) (before after : Bytes)
    (count : Nat) : Prop where
  counts : (reventsOf after nfds).countP (· ≠ 0) = count
  ready : ∀ i < nfds, (reventsAt after i).testBit 0 = true ↔
    ∃ on, began.pollReasonOf slot (parsePollfd before i).fd.toNat = some on ∧
      k.pollIsReady on = true
  rest : ∀ i < nfds, ∀ j < 6, after.get (i * pollfdLen + j) = before.get (i * pollfdLen + j)

structure PollAccepts (k : System) (slot : Slot) (nfds timeout : Nat) (valid : Bool) (raw : Bytes) :
    Prop where
  few : 0 < nfds ∧ nfds ≤ maxWaitReasons
  limit : pollTimeout timeout = -1 ∨ pollTimeout timeout = 0
  writable : valid = true
  reasons : ∃ reasons, k.pollReasons slot (pollRequests raw nfds) = .ok reasons

def SomeReady (k : System) (slot : Slot) (raw : Bytes) (nfds : Nat) : Prop :=
  ∃ i < nfds, ∃ on, k.pollReasonOf slot (parsePollfd raw i).fd.toNat = some on ∧
    k.pollIsReady on = true

theorem pollReasons_forall {fds : List PollFd} (ok : k.pollReasons slot fds = .ok reasons) :
    fds.Forall₂ (fun request on => k.pollReasonOf slot request.fd.toNat = some on) reasons := by
  induction fds generalizing reasons with
  | nil =>
    cases ok
    exact List.Forall₂.nil
  | cons request rest ih =>
    rw [pollReasons] at ok
    split at ok
    · cases ok
    · cases reason : k.pollReasonOf slot request.fd.toNat with
      | none =>
        rw [reason] at ok
        cases ok
      | some on =>
        cases others : k.pollReasons slot rest with
        | error errno =>
          rw [reason, others] at ok
          cases ok
        | ok more =>
          rw [reason, others] at ok
          cases ok
          exact List.Forall₂.cons reason (ih others)

theorem pollReasons_entry {nfds : Nat}
    (ok : k.pollReasons slot (pollRequests raw nfds) = .ok reasons) : reasons.length = nfds ∧
      ∀ i (inside : i < reasons.length),
        k.pollReasonOf slot (parsePollfd raw i).fd.toNat = some reasons[i] := by
  have all := pollReasons_forall ok
  have length := all.length_eq
  simp only [pollRequests, List.length_map, List.length_range] at length
  apply And.intro length.symm
  intro i inside
  have entry := List.Forall₂.get all (i := i) (by simpa [pollRequests, length] using inside) inside
  simpa [pollRequests] using entry

theorem reventsOf_setRevents (values : List Nat) (raw : Bytes)
    (small : ∀ value ∈ values, value < 2 ^ 16) :
    reventsOf (setRevents raw 0 values) values.length = values := by
  apply List.ext_getElem
  · simp [reventsOf]
  · intro i _ inside
    have value := reventsAt_setRevents values raw 0 small i inside
    rw [zero_add] at value
    simp only [reventsOf, List.getElem_map, List.getElem_range, value]

theorem pollRevents_small (k : System) (reasons : List Wait) :
    ∀ value ∈ k.pollRevents reasons, value < 2 ^ 16 := by
  intro value mem
  apply Exists.elim (List.mem_map.mp mem)
  intro on made
  rw [← made.2]
  split <;> decide

theorem agrees_of_written {began : System} {nfds : Nat}
    (ok : began.pollReasons slot (pollRequests raw nfds) = .ok reasons) :
    PollAgrees began k slot nfds raw (setRevents raw 0 (k.pollRevents reasons))
      (reasons.countP k.pollIsReady) := by
  have entries := pollReasons_entry ok
  have small := k.pollRevents_small reasons
  have size : (k.pollRevents reasons).length = nfds := by
    rw [pollRevents, List.length_map, entries.1]
  constructor
  · have written := reventsOf_setRevents (k.pollRevents reasons) raw small
    rw [size] at written
    rw [written, pollRevents, List.countP_map]
    apply List.countP_congr
    intro on _
    cases ready : k.pollIsReady on <;> simp [ready, pollin]
  · intro i inside
    have value := reventsAt_setRevents (k.pollRevents reasons) raw 0 small i (size.symm ▸ inside)
    have reason := entries.2 i (entries.1.symm ▸ inside)
    rw [zero_add] at value
    rw [value, reason]
    simp only [pollRevents, List.getElem_map, Option.some.injEq, exists_eq_left']
    cases k.pollIsReady reasons[i] <;> simp [pollin]
  · intro i _ j less
    exact setRevents_get _ _ 0 (show i * 8 + j < 0 * 8 + 6 ∨ (i * 8 + j) % 8 < 6 by omega)

theorem agrees_nobody_iff {nfds : Nat} (nobody : ¬ SomeReady k slot raw nfds) :
    PollAgrees k k slot nfds raw raw 0 ↔ ∀ i < nfds, reventsAt raw i = 0 := by
  constructor
  · intro agrees i inside
    have zero := List.countP_eq_zero.mp agrees.counts (reventsAt raw i)
      (List.mem_map_of_mem (List.mem_range.mpr inside))
    simpa using zero
  · intro clean
    constructor
    · rw [List.countP_eq_zero]
      intro value mem
      apply Exists.elim (List.mem_map.mp mem)
      intro i entry
      rw [← entry.2, clean i (List.mem_range.mp entry.1)]
      decide
    · intro i inside
      apply iff_of_false
      · rw [clean i inside]
        decide
      · intro ready
        exact nobody ⟨i, inside, ready⟩
    · intro i _ j _
      rfl

theorem someReady_iff {nfds : Nat} (ok : k.pollReasons slot (pollRequests raw nfds) = .ok reasons) :
    SomeReady k slot raw nfds ↔ 0 < reasons.countP k.pollIsReady := by
  have entries := pollReasons_entry ok
  rw [List.countP_pos_iff]
  constructor
  · intro some
    apply Exists.elim some
    intro i entry
    have inside : i < reasons.length := entries.1.symm ▸ entry.1
    apply Exists.elim entry.2
    intro on ready
    rw [entries.2 i inside, Option.some.injEq] at ready
    exact ⟨reasons[i], List.getElem_mem inside, ready.1 ▸ ready.2⟩
  · intro some
    apply Exists.elim some
    intro on ready
    apply Exists.elim (List.getElem_of_mem ready.1)
    intro i place
    apply Exists.elim place
    intro inside same
    refine ⟨i, entries.1 ▸ inside, on, ?_, ready.2⟩
    rw [entries.2 i inside, same]

theorem agrees_of_round {began : System} {nfds count : Nat} {s : System × Bytes}
    (ok : began.pollReasons slot (pollRequests raw nfds) = .ok reasons)
    (returns : (pollRound raw (-1) s reasons).1 = .done (.value count)) :
    PollAgrees began s.1 slot nfds raw (pollRound raw (-1) s reasons).2.2 count := by
  rw [pollRound] at returns ⊢
  by_cases some : 0 < reasons.countP s.1.pollIsReady
  · rw [if_pos some] at returns ⊢
    cases returns
    exact agrees_of_written ok
  · rw [if_neg some, if_neg (by decide)] at returns
    split at returns
    · cases returns
    · split at returns <;> cases returns

theorem agrees_of_rounds {began : System} {nfds : Nat} {set : WaitSet}
    {steps : List ((System × Bytes) × (System × Bytes))} {ret : Ret}
    (ok : began.pollReasons slot (pollRequests raw nfds) = .ok reasons)
    (rounds : Rounds (pollAgain raw (-1)) (.waits set (.poll reasons)) steps ret) :
    steps ≠ [] ∧ ∀ count, ret = .value count → ∀ last, steps.getLast? = some last →
      PollAgrees began last.1.1 slot nfds raw last.2.2 count := by
  apply rounds.induct (P := fun loop => loop = .poll reasons) (Q := fun steps ret => steps ≠ [] ∧
    ∀ count, ret = .value count → ∀ last, steps.getLast? = some last →
      PollAgrees began last.1.1 slot nfds raw last.2.2 count) _ _ _ rfl
  · intro loop s ret kind returns
    apply And.intro (List.cons_ne_nil _ _)
    intro count same last ended
    cases ended
    rw [kind, same] at returns
    rw [kind]
    exact agrees_of_round ok returns
  · intro loop s set next rest ret _ _ later
    apply And.intro (List.cons_ne_nil _ _)
    intro count same last ended
    rw [List.getLast?_cons_of_ne_nil later.1] at ended
    exact later.2 count same last ended
  · intro loop s set next kind out
    rw [kind] at out
    have out : (pollRound raw (-1) s reasons).1 = .waits set next := out
    rw [pollRound] at out
    split at out
    · cases out
    · rw [if_neg (by decide)] at out
      split at out
      · cases out
      · split at out
        · cases out
        · cases out
          rfl

end

section

variable {k : System} {slot : Slot} {raw : Bytes} {nfds timeout : Nat} {valid : Bool}

/-- Of a call that is accepted, the array agrees with the count it returns, whatever the others do
while it waits, exactly when it waits, or finds somebody ready at once, or found nothing in
`revents` when it began. -/
theorem poll_agrees_iff (accepted : PollAccepts k slot nfds timeout valid raw) :
    (∀ steps count last,
      OwnSteps (pollAgain raw (pollTimeout timeout)) (k, raw)
        (pollCall slot nfds timeout valid (k, raw)) steps (.value count) →
      steps.getLast? = some last →
      PollAgrees k last.1.1 slot nfds raw last.2.2 count) ↔
    (pollTimeout timeout = 0 → SomeReady k slot raw nfds ∨ ∀ i < nfds, reventsAt raw i = 0) := by
  apply Exists.elim accepted.reasons
  intro reasons ok
  have call : pollCall slot nfds timeout valid (k, raw) =
      pollRound raw (pollTimeout timeout) (k, raw) reasons := by
    have few := accepted.few
    have known : ¬ (pollTimeout timeout ≠ -1 ∧ pollTimeout timeout ≠ 0) := by
      intro other
      exact accepted.limit.elim other.1 other.2
    rw [pollCall, if_neg (by omega), if_neg known, accepted.writable, if_neg (by decide)]
    dsimp only
    rw [ok]
  rw [call]
  cases accepted.limit with
  | inl endless =>
    rw [endless]
    apply iff_of_true _ (fun impossible => absurd impossible (by decide))
    intro steps count last own ended
    exact (agrees_of_rounds ok
      (@OwnSteps.rounds _ (pollAgain raw (-1)) (k, raw) (.poll reasons) steps (.value count) own
        .empty)).2 count rfl last ended
  | inr none =>
    rw [none]
    by_cases some : SomeReady k slot raw nfds
    · apply iff_of_true _ fun _ => Or.inl some
      intro steps count last own ended
      have ready := (someReady_iff ok).mp some
      have round : pollRound raw 0 (k, raw) reasons =
          (.done (.value (reasons.countP k.pollIsReady)), k,
            setRevents raw 0 (k.pollRevents reasons)) := if_pos ready
      rw [round] at own
      have done := own.of_done rfl
      rw [done.1] at ended
      cases ended
      cases done.2
      exact agrees_of_written ok
    · have nobody : ¬ 0 < reasons.countP k.pollIsReady := (someReady_iff ok).not.mp some
      have round : pollRound raw 0 (k, raw) reasons = (.done (.value 0), k, raw) := by
        rw [pollRound, if_neg nobody, if_pos rfl]
      rw [round]
      constructor
      · intro all _
        have own : OwnSteps (pollAgain raw 0) (k, raw) (.done (.value 0), k, raw)
            [((k, raw), (k, raw))] (.value 0) := ⟨[], rfl, Rounds.returns _⟩
        exact Or.inr ((agrees_nobody_iff some).mp (all _ _ _ own rfl))
      · intro clean steps count last own ended
        have done := own.of_done rfl
        rw [done.1] at ended
        cases ended
        cases done.2
        exact (agrees_nobody_iff some).mpr ((clean rfl).resolve_left some)

/-- An array for the descriptor 3. Something is left in its `revents` from before. -/
def staleArray : Bytes := ⟨8, fun i => [3, 0, 0, 0, 1, 0, 1, 0].getD i 0⟩

theorem listens_alone : ∃ k, Reachable step (init ⟨4, [⟨1, 100⟩]⟩ ⟨0, fun _ => 0⟩ true) k ∧
    k.pollReasons 0 (pollRequests staleArray 1) = .ok [.socketAcceptable 0] ∧
    k.pollIsReady (.socketAcceptable 0) = false := by
  have run : ((runSteps step [.load 0 (.runs [1024] 4194304), .call 0 (.socket 1 1 0),
      .call 0 (.bind 3 (.ok [97])), .call 0 (.listen 3)]
      (init ⟨4, [⟨1, 100⟩]⟩ ⟨0, fun _ => 0⟩ true)).map fun k =>
        (k.pollReasonOf 0 3, k.objects.sockets.acceptable 0)) =
      some (some (.socketAcceptable 0), false) := by
    decide
  apply Exists.elim (Option.map_eq_some_iff.mp run)
  intro k reached
  have seen := Prod.mk.inj reached.2
  have requests : pollRequests staleArray 1 = [⟨3, 1⟩] := rfl
  refine ⟨k, Reachable.refl.of_runSteps _ reached.1, ?_, seen.2⟩
  rw [requests, pollReasons, if_neg (by decide)]
  have reason : k.pollReasonOf 0 (3 : Int).toNat = some (.socketAcceptable 0) := seen.1
  dsimp only
  rw [reason]
  rfl

/-- A program that waits for somebody to connect. -/
theorem poll_agrees_listener : ∃ k,
    Reachable step (init ⟨4, [⟨1, 100⟩]⟩ ⟨0, fun _ => 0⟩ true) k ∧
    ∀ steps count last,
      OwnSteps (pollAgain staleArray (pollTimeout 0xFFFFFFFF)) (k, staleArray)
        (pollCall 0 1 0xFFFFFFFF true (k, staleArray)) steps (.value count) →
      steps.getLast? = some last → PollAgrees k last.1.1 0 1 staleArray last.2.2 count := by
  apply Exists.elim listens_alone
  intro k listens
  have accepted : PollAccepts k 0 1 0xFFFFFFFF true staleArray :=
    ⟨by decide, by decide, rfl, _, listens.2.1⟩
  exact ⟨k, listens.1, (poll_agrees_iff accepted).mpr fun none => absurd none (by decide)⟩

/-- The same program does not wait. The call returns 0, and what was left in `revents` is there
still. -/
theorem poll_leaves_stale : ∃ k steps last,
    Reachable step (init ⟨4, [⟨1, 100⟩]⟩ ⟨0, fun _ => 0⟩ true) k ∧
    PollAccepts k 0 1 0 true staleArray ∧
    OwnSteps (pollAgain staleArray (pollTimeout 0)) (k, staleArray)
      (pollCall 0 1 0 true (k, staleArray)) steps (.value 0) ∧
    steps.getLast? = some last ∧ (reventsOf last.2.2 1).countP (· ≠ 0) = 1 := by
  apply Exists.elim listens_alone
  intro k listens
  have accepted : PollAccepts k 0 1 0 true staleArray :=
    ⟨by decide, by decide, rfl, _, listens.2.1⟩
  have nobody : [Wait.socketAcceptable 0].countP k.pollIsReady = 0 := by
    rw [List.countP_eq_zero]
    intro on mem
    rw [List.mem_singleton.mp mem, listens.2.2]
    decide
  have call : pollCall 0 1 0 true (k, staleArray) = (.done (.value 0), k, staleArray) := by
    rw [pollCall, if_neg (by decide), if_neg (by decide), if_neg (by decide)]
    dsimp only
    rw [listens.2.1]
    dsimp only
    rw [pollRound, nobody, if_neg (lt_irrefl 0), if_pos (by decide)]
  have left : (reventsOf staleArray 1).countP (· ≠ 0) = 1 := by decide
  refine ⟨k, [((k, staleArray), (k, staleArray))], _, listens.1, accepted, ?_, rfl, left⟩
  rw [call]
  exact ⟨[], rfl, Rounds.returns _⟩

end

end System

end Zaytos.Kernel
