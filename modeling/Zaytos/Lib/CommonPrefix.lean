import Mathlib.Data.List.Basic

set_option autoImplicit false

/-! The longest common prefix of lists. -/
namespace Zaytos.CommonPrefix

variable {α : Type} [DecidableEq α]

def ofTwo : List α → List α → List α
  | a :: as, b :: bs => if a = b then a :: ofTwo as bs else []
  | _, _ => []

def ofAll : List (List α) → List α
  | [] => []
  | xs :: lists => lists.foldl ofTwo xs

variable {p xs ys : List α} {lists others : List (List α)}

theorem prefix_ofTwo_iff : p <+: ofTwo xs ys ↔ p <+: xs ∧ p <+: ys := by
  induction xs generalizing p ys with
  | nil =>
    rw [ofTwo]
    · constructor
      · intro whole
        rw [List.prefix_nil.mp whole]
        exact ⟨List.nil_prefix, List.nil_prefix⟩
      · intro both
        exact both.1
    · intro a as b bs same
      cases same
  | cons a as ih =>
    cases ys with
    | nil =>
      rw [ofTwo]
      · constructor
        · intro whole
          rw [List.prefix_nil.mp whole]
          exact ⟨List.nil_prefix, List.nil_prefix⟩
        · intro both
          exact both.2
      · intro a as b bs _ same
        cases same
    | cons b bs =>
      cases p with
      | nil => simp
      | cons c cs =>
        rw [ofTwo]
        by_cases same : a = b
        · rw [if_pos same, List.cons_prefix_cons, List.cons_prefix_cons, List.cons_prefix_cons, ih,
            ← same]
          tauto
        · rw [if_neg same]
          simp only [List.prefix_nil, List.cons_prefix_cons, reduceCtorEq, false_iff, not_and]
          intro left right
          exact absurd (left.1.symm.trans right) same

theorem prefix_foldl_iff : p <+: lists.foldl ofTwo xs ↔ p <+: xs ∧ ∀ ys ∈ lists, p <+: ys := by
  induction lists generalizing xs with
  | nil => simp
  | cons ys lists ih =>
    rw [List.foldl_cons, ih, prefix_ofTwo_iff, List.forall_mem_cons, and_assoc]

theorem prefix_ofAll_iff (some : lists ≠ []) : p <+: ofAll lists ↔ ∀ xs ∈ lists, p <+: xs := by
  cases lists with
  | nil => exact absurd rfl some
  | cons xs lists => rw [ofAll, prefix_foldl_iff, List.forall_mem_cons]

theorem ofAll_prefix (mem : xs ∈ lists) : ofAll lists <+: xs :=
  (prefix_ofAll_iff (List.ne_nil_of_mem mem)).mp (List.prefix_refl _) xs mem

theorem ofAll_prefix_ofAll (some : lists ≠ []) (fewer : ∀ xs ∈ lists, xs ∈ others) :
    ofAll others <+: ofAll lists := by
  apply (prefix_ofAll_iff some).mpr
  intro xs mem
  exact ofAll_prefix (fewer xs mem)

theorem ofAll_congr (same : ∀ xs, xs ∈ lists ↔ xs ∈ others) : ofAll lists = ofAll others := by
  cases lists with
  | nil =>
    cases others with
    | nil => rfl
    | cons ys others => exact absurd ((same ys).mpr List.mem_cons_self) List.not_mem_nil
  | cons xs lists =>
    have there := (same xs).mp List.mem_cons_self
    have fewer := ofAll_prefix_ofAll (List.cons_ne_nil xs lists) fun ys mem => (same ys).mp mem
    have more := ofAll_prefix_ofAll (List.ne_nil_of_mem there) fun ys mem => (same ys).mpr mem
    exact more.eq_of_length_le fewer.length_le

theorem ofAll_concat (some : lists ≠ []) : ofAll (lists ++ [xs]) = ofTwo (ofAll lists) xs := by
  cases lists with
  | nil => exact absurd rfl some
  | cons ys lists => rw [List.cons_append, ofAll, ofAll, List.foldl_append, List.foldl_cons,
      List.foldl_nil]

end Zaytos.CommonPrefix
