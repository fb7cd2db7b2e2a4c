import Mathlib.Data.List.Basic

set_option autoImplicit false

/-! A waiting queue kept in a table of slots: the first slot that waits is the head of the
queue as long as the queue has the slots in the order of the table. -/
namespace Zaytos.SlotQueue

variable {n : Nat} {waits after : Nat → Bool} {queue : List Nat}

def Ordered (n : Nat) (waits : Nat → Bool) (queue : List Nat) : Prop :=
  queue = (List.range n).filter waits

theorem Ordered.mem_iff (ordered : Ordered n waits queue) {slot : Nat} :
    slot ∈ queue ↔ slot < n ∧ waits slot = true := by
  rw [ordered, List.mem_filter, List.mem_range]

theorem Ordered.find?_eq (ordered : Ordered n waits queue) :
    (List.range n).find? waits = queue.head? := by
  rw [ordered, List.head?_filter]

theorem Ordered.leave (ordered : Ordered n waits queue)
    (fewer : ∀ slot < n, after slot = true → waits slot = true) :
    Ordered n after (queue.filter after) := by
  unfold Ordered at *
  rw [ordered, List.filter_filter]
  apply List.filter_congr
  intro slot mem
  have fewer := fewer slot (List.mem_range.mp mem)
  cases still : after slot with
  | false => simp
  | true => simp [fewer still]

theorem Ordered.join (ordered : Ordered n waits queue) {new : Nat} (small : new < n)
    (behind : ∀ slot ∈ queue, slot < new) (joins : after new = true)
    (others : ∀ slot < n, slot ≠ new → after slot = waits slot) :
    Ordered n after (queue ++ [new]) := by
  unfold Ordered at *
  subst ordered
  induction n with
  | zero => omega
  | succ n ih =>
    have last : waits n = true → n < new := fun waiting =>
      behind n (List.mem_filter.mpr ⟨List.mem_range.mpr (Nat.lt_succ_self n), waiting⟩)
    have free : waits n = false := by
      cases waiting : waits n with
      | false => rfl
      | true => exact absurd (last waiting) (by omega)
    rw [List.range_succ, List.filter_append, List.filter_append, List.filter_singleton,
      List.filter_singleton, free]
    rcases Nat.lt_succ_iff_lt_or_eq.mp small with earlier | same
    · have later : after n = false := by
        rw [others n (Nat.lt_succ_self n) (by omega), free]
      rw [later]
      simp only [cond_false, List.append_nil]
      apply ih earlier
      · intro slot less
        exact others slot (by omega)
      · intro slot mem
        apply behind
        rw [List.range_succ, List.filter_append]
        exact List.mem_append_left _ mem
    · subst same
      rw [joins]
      simp only [cond_false, cond_true, List.append_nil]
      apply congrArg (· ++ [new])
      apply List.filter_congr
      intro slot mem
      have less := List.mem_range.mp mem
      exact (others slot (by omega) (by omega)).symm

end Zaytos.SlotQueue
