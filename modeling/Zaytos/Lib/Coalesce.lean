import Mathlib.Data.List.Range

set_option autoImplicit false

/-! Cells of several widths, each with a tag, and how cells that touch are joined into runs. -/
namespace Zaytos.Coalesce

structure Run (τ : Type) where
  start : Nat
  count : Nat
  tag : τ

variable {τ : Type} (width : τ → Nat)

namespace Run

def stop (r : Run τ) : Nat := r.start + r.count * width r.tag

def cells (r : Run τ) : List (Nat × τ) :=
  (List.range r.count).map fun i => (r.start + i * width r.tag, r.tag)

end Run

def Before (p q : Nat × τ) : Prop := p.1 + width p.2 ≤ q.1

def Apart (r s : Run τ) : Prop := r.stop width ≤ s.start ∧ (r.stop width = s.start → r.tag ≠ s.tag)

def Within (low high : Nat) (cells : List (Nat × τ)) : Prop :=
  cells.Pairwise (Before width) ∧ ∀ c ∈ cells, low ≤ c.1 ∧ c.1 + width c.2 ≤ high

variable {width} {r s : Run τ} {c : Nat × τ} {cells : List (Nat × τ)} {low high : Nat}

theorem mem_cells : c ∈ r.cells width ↔
    c.2 = r.tag ∧ ∃ i < r.count, c.1 = r.start + i * width r.tag := by
  rw [Run.cells, List.mem_map]
  constructor
  · intro found
    obtain ⟨i, small, rfl⟩ := found
    exact ⟨rfl, i, List.mem_range.mp small, rfl⟩
  · intro both
    obtain ⟨tag, i, small, place⟩ := both
    exact ⟨i, List.mem_range.mpr small, Prod.ext place.symm tag.symm⟩

theorem last_mem_cells (some : 0 < r.count) :
    (r.start + (r.count - 1) * width r.tag, r.tag) ∈ r.cells width ∧
      r.start + (r.count - 1) * width r.tag + width r.tag = r.stop width := by
  refine ⟨mem_cells.mpr ⟨rfl, r.count - 1, by omega, rfl⟩, ?_⟩
  obtain ⟨n, eq⟩ := Nat.exists_eq_add_of_lt some
  rw [Run.stop, eq, Nat.zero_add, Nat.add_sub_cancel, Nat.succ_mul, Nat.add_assoc]

theorem cells_grow : ({ r with count := r.count + 1 } : Run τ).cells width =
    r.cells width ++ [(r.stop width, r.tag)] := by
  rw [Run.cells, Run.cells, List.range_succ, List.map_append]
  rfl

theorem cells_one : (⟨c.1, 1, c.2⟩ : Run τ).cells width = [c] := by
  simp [Run.cells]

theorem stop_le (some : 0 < r.count) {place : Nat}
    (before : ∀ c ∈ r.cells width, c.1 + width c.2 ≤ place) : r.stop width ≤ place := by
  have last := @last_mem_cells τ width r some
  rw [← last.2]
  exact before _ last.1

theorem one_side (some : 0 < r.count) (gap : low < high)
    (sides : ∀ c ∈ r.cells width, c.1 + width c.2 ≤ low ∨ high ≤ c.1) :
    r.stop width ≤ low ∨ high ≤ r.start := by
  have cell : ∀ i < r.count, (r.start + i * width r.tag, r.tag) ∈ r.cells width :=
    fun i small => mem_cells.mpr ⟨rfl, i, small, rfl⟩
  rcases Nat.lt_or_ge r.start high with below | above
  · have all : ∀ i < r.count, r.start + i * width r.tag + width r.tag ≤ low := by
      intro i
      induction i with
      | zero =>
        intro small
        have side := sides _ (cell 0 small)
        rw [Nat.zero_mul] at side ⊢
        dsimp only at side
        omega
      | succ i ih =>
        intro small
        have side := sides _ (cell (i + 1) small)
        have front := ih (by omega)
        rw [Nat.succ_mul] at side ⊢
        dsimp only at side
        omega
    apply Or.inl
    apply stop_le some
    intro c mem
    obtain ⟨tag, i, small, place⟩ := mem_cells.mp mem
    rw [place, tag]
    exact all i small
  · exact .inr above

namespace Within

theorem nil (low high : Nat) : Within width low high [] :=
  ⟨List.Pairwise.nil, fun _ mem => absurd mem List.not_mem_nil⟩

theorem single (lower : low ≤ c.1) (upper : c.1 + width c.2 ≤ high) : Within width low high [c] :=
  ⟨List.pairwise_singleton _ c, fun _ mem => by
    rw [List.mem_singleton.mp mem]
    exact ⟨lower, upper⟩⟩

theorem flatMap {indices : List Nat} (sorted : indices.Pairwise (· < ·))
    {group : Nat → List (Nat × τ)} (place : Nat → Nat) (span : Nat)
    (inside : ∀ i ∈ indices, Within width (place i) (place i + span) (group i))
    (steps : ∀ i ∈ indices, ∀ j ∈ indices, i < j → place i + span ≤ place j)
    (bounds : ∀ i ∈ indices, low ≤ place i ∧ place i + span ≤ high) :
    Within width low high (indices.flatMap group) := by
  constructor
  · rw [List.pairwise_flatMap]
    constructor
    · intro i mem
      exact (inside i mem).1
    · apply sorted.imp_of_mem
      intro i j memI memJ less c memC d memD
      have first := (inside i memI).2 c memC
      have second := (inside j memJ).2 d memD
      have step := steps i memI j memJ less
      rw [Before]
      omega
  · intro c mem
    obtain ⟨i, memI, there⟩ := List.mem_flatMap.mp mem
    have part := (inside i memI).2 c there
    have whole := bounds i memI
    omega

theorem table {group : Nat → List (Nat × τ)} {place span n size : Nat} (parts : n * span = size)
    (inside : ∀ i < n, Within width (place + i * span) (place + i * span + span) (group i)) :
    Within width place (place + size) ((List.range n).flatMap group) := by
  rw [← parts]
  apply flatMap List.pairwise_lt_range (fun i => place + i * span) span
  · intro i mem
    exact inside i (List.mem_range.mp mem)
  · intro i _ j _ less
    have step := Nat.mul_le_mul_right span (Nat.succ_le_of_lt less)
    rw [Nat.succ_mul] at step
    omega
  · intro i mem
    have step := Nat.mul_le_mul_right span (Nat.succ_le_of_lt (List.mem_range.mp mem))
    rw [Nat.succ_mul] at step
    omega

end Within

structure Covers (width : τ → Nat) (runs : List (Run τ)) (cells : List (Nat × τ)) : Prop where
  cells : runs.flatMap (Run.cells width) = cells
  apart : runs.Pairwise (Apart width)
  some : ∀ r ∈ runs, 0 < r.count

namespace Covers

variable {runs : List (Run τ)}

theorem mem_iff (covers : Covers width runs cells) : c ∈ cells ↔ ∃ r ∈ runs, c ∈ r.cells width := by
  rw [← covers.cells, List.mem_flatMap]

theorem stop_le (covers : Covers width runs cells) (after : ∀ d ∈ cells, Before width d c)
    (mem : r ∈ runs) : r.stop width ≤ c.1 := by
  apply Coalesce.stop_le (covers.some r mem)
  intro d there
  exact after d (covers.mem_iff.mpr ⟨r, mem, there⟩)

theorem append (covers : Covers width runs cells) (wide : ∀ tag, 0 < width tag)
    (after : ∀ d ∈ cells, Before width d c)
    (unlike : ∀ r ∈ runs.getLast?, r.stop width = c.1 → r.tag ≠ c.2) :
    Covers width (runs ++ [⟨c.1, 1, c.2⟩]) (cells ++ [c]) := by
  have front : ∀ r ∈ runs, r.stop width ≤ c.1 := fun r mem => covers.stop_le after mem
  constructor
  · rw [List.flatMap_append, covers.cells, List.flatMap_singleton, cells_one]
  · rw [List.pairwise_append]
    apply And.intro covers.apart
    apply And.intro (List.pairwise_singleton _ _)
    intro r mem s isNew
    rw [List.mem_singleton.mp isNew]
    apply And.intro (front r mem)
    intro touch
    -- only the last run can touch what comes after all of them
    rcases List.eq_nil_or_concat runs with empty | ⟨done, last, whole⟩
    · rw [empty] at mem
      exact absurd mem List.not_mem_nil
    · subst whole
      rw [List.concat_eq_append] at covers mem unlike front
      rcases List.mem_append.mp mem with early | late
      · have order := (List.pairwise_append.mp covers.apart).2.2 r early last (by simp)
        have behind := front last (by simp)
        have grown := Nat.mul_pos (covers.some last (by simp)) (wide last.tag)
        have ends : last.stop width = last.start + last.count * width last.tag := rfl
        have first := order.1
        dsimp only at touch
        omega
      · rw [List.mem_singleton.mp late] at touch ⊢
        exact unlike last (by simp) touch
  · intro r mem
    rcases List.mem_append.mp mem with old | isNew
    · exact covers.some r old
    · rw [List.mem_singleton.mp isNew]
      exact Nat.one_pos

theorem grow {done : List (Run τ)} (covers : Covers width (done ++ [r]) cells) :
    Covers width (done ++ [{ r with count := r.count + 1 }])
      (cells ++ [(r.stop width, r.tag)]) := by
  constructor
  · rw [← covers.cells, List.flatMap_append, List.flatMap_append, List.flatMap_singleton,
      List.flatMap_singleton, cells_grow, List.append_assoc]
  · have apart := List.pairwise_append.mp covers.apart
    rw [List.pairwise_append]
    apply And.intro apart.1
    apply And.intro (List.pairwise_singleton _ _)
    intro s mem grown isLast
    rw [List.mem_singleton.mp isLast]
    exact apart.2.2 s mem r List.mem_cons_self
  · intro s mem
    rcases List.mem_append.mp mem with old | isLast
    · exact covers.some s (List.mem_append_left _ old)
    · rw [List.mem_singleton.mp isLast]
      exact Nat.succ_pos _

theorem apart_or (covers : Covers width runs cells) (memR : r ∈ runs) (memS : s ∈ runs) :
    r = s ∨ Apart width r s ∨ Apart width s r := by
  have either : Std.Symm fun x y : Run τ => x = y ∨ Apart width x y ∨ Apart width y x := by
    constructor
    intro x y order
    rcases order with same | before | behind
    · exact .inl same.symm
    · exact .inr (.inr before)
    · exact .inr (.inl behind)
  have ordered : runs.Pairwise fun x y => x = y ∨ Apart width x y ∨ Apart width y x := by
    apply covers.apart.imp
    intro x y before
    exact .inr (.inl before)
  apply ordered.forall_of_forall _ memR memS
  intro x _
  exact .inl rfl

theorem start_le (inside : c ∈ r.cells width) :
    r.start ≤ c.1 ∧ c.1 + width c.2 ≤ r.stop width := by
  obtain ⟨tag, i, small, place⟩ := mem_cells.mp inside
  have step := Nat.mul_le_mul_right (width r.tag) (Nat.succ_le_of_lt small)
  rw [Nat.succ_mul] at step
  rw [tag, place, Run.stop]
  omega

theorem mem_span (wide : ∀ tag, 0 < width tag) {n : Nat} : r.start ≤ n ∧ n < r.stop width ↔
    ∃ c ∈ r.cells width, c.1 ≤ n ∧ n < c.1 + width c.2 := by
  have size := wide r.tag
  constructor
  · intro inside
    have split := Nat.mod_add_div' (n - r.start) (width r.tag)
    have rest := Nat.mod_lt (n - r.start) size
    have small : (n - r.start) / width r.tag < r.count := by
      apply Nat.div_lt_of_lt_mul
      rw [Nat.mul_comm]
      have ends : r.stop width = r.start + r.count * width r.tag := rfl
      omega
    apply Exists.intro (r.start + (n - r.start) / width r.tag * width r.tag, r.tag)
    constructor
    · exact mem_cells.mpr ⟨rfl, _, small, rfl⟩
    · dsimp only
      omega
  · intro found
    obtain ⟨c, inside, there⟩ := found
    have place := start_le inside
    omega

theorem exists_iff (covers : Covers width runs cells) (wide : ∀ tag, 0 < width tag) {n : Nat}
    {P : τ → Prop} : (∃ r ∈ runs, (r.start ≤ n ∧ n < r.stop width) ∧ P r.tag) ↔
      ∃ c ∈ cells, (c.1 ≤ n ∧ n < c.1 + width c.2) ∧ P c.2 := by
  constructor
  · intro found
    obtain ⟨r, mem, inside, holds⟩ := found
    obtain ⟨c, there, place⟩ := (mem_span wide).mp inside
    rw [← (mem_cells.mp there).1] at holds
    exact ⟨c, covers.mem_iff.mpr ⟨r, mem, there⟩, place, holds⟩
  · intro found
    obtain ⟨c, mem, place, holds⟩ := found
    obtain ⟨r, there, inside⟩ := covers.mem_iff.mp mem
    rw [(mem_cells.mp inside).1] at holds
    exact ⟨r, there, (mem_span wide).mpr ⟨c, inside, place⟩, holds⟩

theorem maximal (covers : Covers width runs cells) (wide : ∀ tag, 0 < width tag)
    (mem : r ∈ runs) (there : c ∈ cells) (tag : c.2 = r.tag) :
    c.1 ≠ r.stop width ∧ c.1 + width c.2 ≠ r.start := by
  obtain ⟨s, memS, inside⟩ := covers.mem_iff.mp there
  have place := start_le inside
  have same := (mem_cells.mp inside).1
  have size := wide c.2
  have grown := Nat.mul_pos (covers.some r mem) (wide r.tag)
  have ends : r.stop width = r.start + r.count * width r.tag := rfl
  rcases covers.apart_or mem memS with rfl | before | behind
  · omega
  · constructor
    · intro touch
      apply before.2 _ (tag.symm.trans same)
      have order := before.1
      omega
    · have order := before.1
      omega
  · constructor
    · have order := behind.1
      omega
    · intro touch
      apply behind.2 _ (same.symm.trans tag)
      have order := behind.1
      omega

end Covers

end Zaytos.Coalesce
