import Mathlib.Algebra.BigOperators.Group.Finset.Basic
import Mathlib.Data.Fintype.BigOperators
import Mathlib.Data.Nat.Count
import Mathlib.Order.Interval.Finset.Nat
import Mathlib.Tactic.Abel

set_option autoImplicit false

/-! Counts and sums of which one term changes. -/
namespace Zaytos

open Finset

/-- A count of free things after one of them was taken (`used`) or given back. -/
def moved (used : Bool) (n : Nat) : Nat := if used then n - 1 else n + 1

theorem moved_moved {used : Bool} {n : Nat} (pos : used = true → 0 < n) :
    moved (!used) (moved used n) = n := by
  cases used
  · simp [moved]
  · have := pos rfl
    simp only [moved, Bool.not_true, Bool.false_eq_true, ↓reduceIte]
    omega

section Count

variable {p q : Nat → Prop} [DecidablePred p] [DecidablePred q] {n x : Nat}

theorem count_congr (same : ∀ j < n, p j ↔ q j) : Nat.count p n = Nat.count q n := by
  rw [Nat.count_eq_card_filter_range, Nat.count_eq_card_filter_range]
  congr 1
  apply Finset.filter_congr
  intro j hj
  exact same j (Finset.mem_range.mp hj)

theorem count_flip (small : x < n) (holds : p x) (fails : ¬ q x)
    (same : ∀ j < n, j ≠ x → (p j ↔ q j)) : Nat.count p n = Nat.count q n + 1 := by
  induction n with
  | zero => omega
  | succ n ih =>
    rw [Nat.count_succ, Nat.count_succ]
    by_cases last : x = n
    · subst last
      have before : Nat.count p x = Nat.count q x :=
        count_congr fun j hj => same j (by omega) (by omega)
      rw [before, if_pos holds, if_neg fails]
    · have before := ih (by omega) fun j hj => same j (by omega)
      have atEnd := same n (by omega) (Ne.symm last)
      simp only [before, atEnd]
      omega

theorem count_moved {used : Bool} (small : x < n) (before : p x ↔ used = true)
    (after : q x ↔ used = false) (same : ∀ j < n, j ≠ x → (q j ↔ p j)) :
    Nat.count q n = moved used (Nat.count p n) := by
  cases used
  · exact count_flip small (after.mpr rfl) (by simp [before]) same
  · have flip := count_flip small (before.mpr rfl) (by simp [after]) fun j hj ne => (same j hj ne).symm
    simp only [moved, ↓reduceIte]
    omega

theorem count_pos (small : x < n) (holds : p x) : 0 < Nat.count p n := by
  rw [Nat.count_eq_card_filter_range, Finset.card_pos]
  exact ⟨x, Finset.mem_filter.mpr ⟨Finset.mem_range.mpr small, holds⟩⟩

end Count

section Sum

variable {ι : Type} [DecidableEq ι] {s : Finset ι} {f g : ι → Nat} {x : ι}

theorem sum_flip (mem : x ∈ s) (same : ∀ j ∈ s, j ≠ x → f j = g j) :
    ∑ j ∈ s, f j + g x = ∑ j ∈ s, g j + f x := by
  rw [← Finset.add_sum_erase s f mem, ← Finset.add_sum_erase s g mem]
  have rest : ∑ j ∈ s.erase x, f j = ∑ j ∈ s.erase x, g j := by
    apply Finset.sum_congr rfl
    intro j hj
    exact same j (Finset.mem_of_mem_erase hj) (Finset.ne_of_mem_erase hj)
  rw [rest]
  omega

theorem le_sum_of_mem (mem : x ∈ s) : f x ≤ ∑ j ∈ s, f j := by
  rw [← Finset.add_sum_erase s f mem]
  exact Nat.le_add_right _ _

end Sum

section Update

variable {ι α M : Type} [Fintype ι] [DecidableEq ι] [AddCommMonoid M]

theorem sum_update_add (g : α → M) (f : ι → α) (i : ι) (a : α) :
    ∑ j, g (Function.update f i a j) + g (f i) = ∑ j, g (f j) + g a := by
  rw [← Finset.add_sum_erase univ (fun j => g (Function.update f i a j)) (mem_univ i),
    ← Finset.add_sum_erase univ (fun j => g (f j)) (mem_univ i)]
  have rest : ∑ j ∈ univ.erase i, g (Function.update f i a j) = ∑ j ∈ univ.erase i, g (f j) := by
    apply Finset.sum_congr rfl
    intro j mem
    rw [Function.update_of_ne (Finset.ne_of_mem_erase mem)]
  simp only [rest, Function.update_self]
  abel

end Update

end Zaytos
