import Mathlib.Data.List.Destutter

set_option autoImplicit false

/-! The elements of a sequence without immediate repetitions, and the newest of them. -/
namespace Zaytos.Recent

variable {α : Type}

def newest (n : Nat) (xs : List α) : List α := xs.reverse.take n

theorem newest_drop (n : Nat) (xs : List α) : newest n (xs.drop (xs.length - n)) = newest n xs := by
  rw [newest, newest, ← List.take_reverse, List.take_take, Nat.min_self]

variable [DecidableEq α]

def kept (asked : α → Bool) (xs : List α) : List α := (xs.filter asked).destutter (· ≠ ·)

theorem destutter'_concat (a x : α) (xs : List α) :
    (xs ++ [x]).destutter' (· ≠ ·) a =
      if (xs.destutter' (· ≠ ·) a).getLast? = some x then xs.destutter' (· ≠ ·) a
      else xs.destutter' (· ≠ ·) a ++ [x] := by
  induction xs generalizing a with
  | nil => by_cases same : a = x <;> simp [List.destutter', same]
  | cons b xs ih =>
    rw [List.cons_append, List.destutter'_cons, List.destutter'_cons]
    by_cases differ : a ≠ b
    · have last := List.getLast?_eq_some_getLast (List.destutter'_ne_nil xs (· ≠ ·) (a := b))
      rw [if_pos differ, if_pos differ, ih b, List.getLast?_cons, last, Option.getD_some]
      split <;> simp
    · rw [if_neg differ, if_neg differ, ih a]

variable {asked : α → Bool} {xs : List α} {x : α}

theorem kept_concat : kept asked (xs ++ [x]) =
    if asked x = true ∧ (kept asked xs).getLast? ≠ some x then kept asked xs ++ [x]
    else kept asked xs := by
  unfold kept
  rw [List.filter_append, List.filter_singleton]
  cases wanted : asked x with
  | false => simp
  | true =>
    cases filtered : xs.filter asked with
    | nil => simp
    | cons a rest =>
      rw [cond_true, List.cons_append, List.destutter_cons', List.destutter_cons',
        destutter'_concat]
      by_cases same : (rest.destutter' (· ≠ ·) a).getLast? = some x
      · rw [if_pos same, if_neg (fun both => both.2 same)]
      · rw [if_neg same, if_pos ⟨rfl, same⟩]

theorem kept_drop_kept (n : Nat) :
    kept asked ((kept asked xs).drop n) = (kept asked xs).drop n := by
  have all : ((kept asked xs).drop n).filter asked = (kept asked xs).drop n := by
    rw [List.filter_eq_self]
    intro a mem
    exact (List.mem_filter.mp ((List.destutter_sublist _ _).subset (List.mem_of_mem_drop mem))).2
  rw [kept, all]
  exact List.destutter_of_isChain _ _ ((List.isChain_destutter _ _).drop n)

theorem asked_of_mem_kept (mem : x ∈ kept asked xs) : asked x = true ∧ x ∈ xs := by
  have found := List.mem_filter.mp ((List.destutter_sublist _ _).subset mem)
  exact ⟨found.2, found.1⟩

end Zaytos.Recent
