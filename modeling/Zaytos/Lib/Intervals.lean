import Mathlib.Data.List.Chain
import Mathlib.Data.List.TakeWhile
import Mathlib.Data.Set.Basic

set_option autoImplicit false

/-! Sorted lists of intervals with a gap between any two, as a form of the set they cover. -/
namespace Zaytos

theorem eq_takeWhile_append {α : Type} {l after : List α} {x : α} {p : α → Bool}
    (dropped : l.dropWhile p = x :: after) :
    l = l.takeWhile p ++ x :: after ∧ p x = false := by
  refine ⟨by rw [← dropped, List.takeWhile_append_dropWhile], ?_⟩
  induction l with
  | nil => cases dropped
  | cons first rest ih =>
    rw [List.dropWhile_cons] at dropped
    split at dropped
    · exact ih dropped
    · rename_i stops
      cases dropped
      exact Bool.not_eq_true _ ▸ stops

/-- An interval of naturals: from `lo` up to, not including, `hi`. -/
class Extent (α : Type) where
  lo : α → Nat
  hi : α → Nat

namespace Extent

variable {α : Type} [Extent α]

def covered (l : List α) : Set Nat := {n | ∃ x ∈ l, lo x ≤ n ∧ n < hi x}

structure Tidy (l : List α) : Prop where
  nonempty : ∀ x ∈ l, lo x < hi x
  apart : l.Pairwise fun x y => hi x < lo y

variable {l before after : List α} {x z : α} {n s e : Nat}

@[simp] theorem mem_covered_nil : n ∈ covered ([] : List α) ↔ False :=
  iff_of_false (fun ⟨_, mem, _⟩ => absurd mem List.not_mem_nil) id

@[simp] theorem mem_covered_cons : n ∈ covered (x :: l) ↔ (lo x ≤ n ∧ n < hi x) ∨ n ∈ covered l := by
  constructor
  · rintro ⟨y, mem, inside⟩
    rcases List.mem_cons.mp mem with rfl | mem
    · exact .inl inside
    · exact .inr ⟨y, mem, inside⟩
  · rintro (inside | ⟨y, mem, inside⟩)
    · exact ⟨x, List.mem_cons_self, inside⟩
    · exact ⟨y, List.mem_cons_of_mem x mem, inside⟩

@[simp] theorem mem_covered_append :
    n ∈ covered (before ++ after) ↔ n ∈ covered before ∨ n ∈ covered after := by
  induction before with
  | nil => rw [List.nil_append, mem_covered_nil, false_or]
  | cons x before ih => rw [List.cons_append, mem_covered_cons, mem_covered_cons, ih, or_assoc]

theorem tidy_nil : Tidy ([] : List α) := ⟨fun _ mem => absurd mem List.not_mem_nil, .nil⟩

theorem tidy_cons : Tidy (x :: l) ↔ lo x < hi x ∧ (∀ y ∈ l, hi x < lo y) ∧ Tidy l := by
  constructor
  · rintro ⟨nonempty, apart⟩
    rw [List.pairwise_cons] at apart
    exact ⟨nonempty x List.mem_cons_self, apart.1,
      fun y mem => nonempty y (List.mem_cons_of_mem x mem), apart.2⟩
  · rintro ⟨first, above, rest⟩
    refine ⟨fun y mem => ?_, List.pairwise_cons.mpr ⟨above, rest.apart⟩⟩
    rcases List.mem_cons.mp mem with rfl | mem
    · exact first
    · exact rest.nonempty y mem

theorem tidy_append :
    Tidy (before ++ after) ↔
      Tidy before ∧ Tidy after ∧ ∀ x ∈ before, ∀ y ∈ after, hi x < lo y := by
  constructor
  · rintro ⟨nonempty, apart⟩
    rw [List.pairwise_append] at apart
    exact ⟨⟨fun x mem => nonempty x (List.mem_append_left _ mem), apart.1⟩,
      ⟨fun x mem => nonempty x (List.mem_append_right _ mem), apart.2.1⟩, apart.2.2⟩
  · rintro ⟨left, right, across⟩
    refine ⟨fun x mem => ?_, List.pairwise_append.mpr ⟨left.apart, right.apart, across⟩⟩
    rcases List.mem_append.mp mem with mem | mem
    · exact left.nonempty x mem
    · exact right.nonempty x mem

theorem Tidy.around (tidy : Tidy (before ++ x :: after)) :
    Tidy (before ++ after) ∧ lo x < hi x ∧ (∀ y ∈ before, hi y < lo x) ∧
    ∀ y ∈ after, hi x < lo y := by
  obtain ⟨left, right, across⟩ := tidy_append.mp tidy
  obtain ⟨nonempty, above, rest⟩ := tidy_cons.mp right
  exact ⟨tidy_append.mpr ⟨left, rest, fun y mem z mem' =>
      across y mem z (List.mem_cons_of_mem x mem')⟩, nonempty,
    fun y mem => across y mem x List.mem_cons_self, above⟩

theorem Tidy.put (tidy : Tidy (before ++ after)) (nonempty : lo x < hi x)
    (left : ∀ y ∈ before, hi y < lo x) (right : ∀ y ∈ after, hi x < lo y) :
    Tidy (before ++ x :: after) := by
  obtain ⟨low, high, across⟩ := tidy_append.mp tidy
  refine tidy_append.mpr ⟨low, tidy_cons.mpr ⟨nonempty, right, high⟩, fun y mem z mem' => ?_⟩
  rcases List.mem_cons.mp mem' with rfl | mem'
  · exact left y mem
  · exact across y mem z mem'

theorem Tidy.refine {mid : List α} (tidy : Tidy (before ++ x :: after)) (parts : Tidy mid)
    (within : ∀ y ∈ mid, lo x ≤ lo y ∧ hi y ≤ hi x) : Tidy (before ++ mid ++ after) := by
  obtain ⟨apart, _, left, right⟩ := tidy.around
  obtain ⟨low, high, across⟩ := tidy_append.mp apart
  refine tidy_append.mpr ⟨tidy_append.mpr ⟨low, parts, fun y mem z mem' => ?_⟩, high,
    fun y mem z mem' => ?_⟩
  · have := left y mem
    have := (within z mem').1
    omega
  · rcases List.mem_append.mp mem with mem | mem
    · exact across y mem z mem'
    · have := right z mem'
      have := (within y mem).2
      omega

theorem Tidy.beside (tidy : Tidy l) (some : s < e) (clear : ∀ n, s ≤ n → n < e → n ∉ covered l)
    (mem : x ∈ l) : hi x ≤ s ∨ e ≤ lo x := by
  have nonempty := tidy.nonempty x mem
  by_contra inside
  push Not at inside
  -- The larger of the two lower ends is in both.
  refine clear (max s (lo x)) (le_max_left s (lo x)) ?_ ⟨x, mem, le_max_right s (lo x), ?_⟩ <;> omega

theorem Tidy.divide (tidy : Tidy l) (s : Nat) :
    (∀ x ∈ l.takeWhile fun x => decide (lo x ≤ s), lo x ≤ s) ∧
    ∀ x ∈ l.dropWhile fun x => decide (lo x ≤ s), s < lo x := by
  refine ⟨fun x mem => ?_, ?_⟩
  · have low := List.mem_takeWhile_imp mem
    exact of_decide_eq_true low
  induction l with
  | nil => exact fun x mem => absurd mem List.not_mem_nil
  | cons first rest ih =>
    obtain ⟨nonempty, above, tidyRest⟩ := tidy_cons.mp tidy
    rw [List.dropWhile_cons]
    split
    · exact ih tidyRest
    · rename_i low
      rw [decide_eq_true_eq] at low
      intro x mem
      rcases List.mem_cons.mp mem with rfl | mem
      · omega
      · have := above x mem
        omega

theorem Tidy.le_of_mem_covered (tidy : Tidy (x :: l)) (mem : n ∈ covered (x :: l)) : lo x ≤ n := by
  obtain ⟨nonempty, above, _⟩ := tidy_cons.mp tidy
  rcases mem_covered_cons.mp mem with inside | ⟨y, mem, inside⟩
  · exact inside.1
  · have := above y mem
    omega

theorem Tidy.lo_mem_covered (tidy : Tidy l) (mem : x ∈ l) : lo x ∈ covered l :=
  ⟨x, mem, le_rfl, tidy.nonempty x mem⟩

end Extent

end Zaytos

/-! Lists of intervals that fill a stretch of numbers from one end to the other. -/
namespace Zaytos.Extent

variable {α : Type} [Extent α]

/-- The intervals follow one another from `s` to `e`, and none is empty. -/
def Tiles : Nat → List α → Nat → Prop
  | s, [], e => s = e
  | s, x :: l, e => lo x = s ∧ lo x < hi x ∧ Tiles (hi x) l e

variable {l before after : List α} {x y : α} {n s e : Nat} {p : α → Bool}

theorem tiles_cons : Tiles s (x :: l) e ↔ lo x = s ∧ lo x < hi x ∧ Tiles (hi x) l e := Iff.rfl

theorem tiles_append :
    Tiles s (before ++ after) e ↔ ∃ m, Tiles s before m ∧ Tiles m after e := by
  induction before generalizing s with
  | nil => exact ⟨fun tiles => ⟨s, rfl, tiles⟩, fun ⟨_, same, tiles⟩ => same ▸ tiles⟩
  | cons x before ih =>
    rw [List.cons_append, tiles_cons, ih]
    constructor
    · rintro ⟨start, nonempty, m, left, right⟩
      exact ⟨m, ⟨start, nonempty, left⟩, right⟩
    · rintro ⟨m, ⟨start, nonempty, left⟩, right⟩
      exact ⟨start, nonempty, m, left, right⟩

theorem tiles_middle :
    Tiles s (before ++ x :: after) e ↔ Tiles s before (lo x) ∧ lo x < hi x ∧ Tiles (hi x) after e := by
  rw [tiles_append]
  constructor
  · rintro ⟨m, left, start, nonempty, right⟩
    exact ⟨start ▸ left, nonempty, right⟩
  · rintro ⟨left, nonempty, right⟩
    exact ⟨lo x, left, rfl, nonempty, right⟩

theorem Tiles.le (tiles : Tiles s l e) : s ≤ e := by
  induction l generalizing s with
  | nil => exact tiles.le
  | cons x l ih =>
    obtain ⟨start, nonempty, rest⟩ := tiles
    have := ih rest
    omega

theorem Tiles.end_unique {e' : Nat} (tiles : Tiles s l e) (tiles' : Tiles s l e') : e = e' := by
  induction l generalizing s with
  | nil => exact tiles.symm.trans tiles'
  | cons x l ih => exact ih tiles.2.2 tiles'.2.2

theorem Tiles.start_unique {s' : Nat} (tiles : Tiles s l e) (tiles' : Tiles s' l e) : s = s' := by
  cases l with
  | nil => exact Eq.trans tiles tiles'.symm
  | cons x l => exact tiles.1.symm.trans tiles'.1

theorem Tiles.within (tiles : Tiles s l e) (mem : x ∈ l) : s ≤ lo x ∧ lo x < hi x ∧ hi x ≤ e := by
  obtain ⟨before, after, rfl⟩ := List.append_of_mem mem
  obtain ⟨left, nonempty, right⟩ := tiles_middle.mp tiles
  exact ⟨left.le, nonempty, right.le⟩

theorem Tiles.length_le (tiles : Tiles s l e) : s + l.length ≤ e := by
  induction l generalizing s with
  | nil => exact tiles.le
  | cons x l ih =>
    obtain ⟨start, nonempty, rest⟩ := tiles
    have := ih rest
    rw [List.length_cons]
    omega

theorem Tiles.ordered (tiles : Tiles s l e) : l.Pairwise fun x y => hi x ≤ lo y := by
  induction l generalizing s with
  | nil => exact .nil
  | cons x l ih =>
    obtain ⟨_, _, rest⟩ := tiles
    exact List.pairwise_cons.mpr ⟨fun y mem => (rest.within mem).1, ih rest⟩

theorem Tiles.covered_iff (tiles : Tiles s l e) : n ∈ covered l ↔ s ≤ n ∧ n < e := by
  induction l generalizing s with
  | nil =>
    have same : s = e := tiles
    exact iff_of_false (fun mem => mem_covered_nil.mp mem) (by omega)
  | cons x l ih =>
    obtain ⟨start, nonempty, rest⟩ := tiles
    have := rest.le
    rw [mem_covered_cons, ih rest]
    omega

theorem Tiles.tidy_filter (tiles : Tiles s l e)
    (apart : l.IsChain fun x y => ¬ (p x = true ∧ p y = true)) : Tidy (l.filter p) := by
  induction l generalizing s with
  | nil => exact tidy_nil
  | cons x l ih =>
    obtain ⟨_, nonempty, rest⟩ := tiles
    rw [List.isChain_cons] at apart
    have tidy := ih rest apart.2
    rw [List.filter_cons]
    split
    · rename_i kind
      refine tidy_cons.mpr ⟨nonempty, fun y mem => ?_, tidy⟩
      rw [List.mem_filter] at mem
      cases l with
      | nil => exact absurd mem.1 List.not_mem_nil
      | cons z l =>
        obtain ⟨start, nonempty', rest⟩ := rest
        have other : ¬ p z = true := fun also => apart.1 z rfl ⟨kind, also⟩
        rcases List.mem_cons.mp mem.1 with rfl | below
        · exact absurd mem.2 other
        · have := (rest.within below).1
          omega
    · exact tidy

theorem Tiles.lt_of_head (tiles : Tiles s l e) (first : ∀ y ∈ l.head?, ¬ p y = true)
    (mem : x ∈ l.filter p) : s < lo x := by
  rw [List.mem_filter] at mem
  cases l with
  | nil => exact absurd mem.1 List.not_mem_nil
  | cons y l =>
    obtain ⟨start, nonempty, rest⟩ := tiles
    rcases List.mem_cons.mp mem.1 with rfl | below
    · exact absurd mem.2 (first x rfl)
    · have := (rest.within below).1
      omega

theorem Tiles.lt_of_last (tiles : Tiles s l e) (last : ∀ y ∈ l.getLast?, ¬ p y = true)
    (mem : x ∈ l.filter p) : hi x < e := by
  rw [List.mem_filter] at mem
  rcases List.eq_nil_or_concat l with rfl | ⟨l, y, rfl⟩
  · exact absurd mem.1 List.not_mem_nil
  · rw [List.concat_eq_append] at *
    obtain ⟨left, nonempty, right⟩ := tiles_middle.mp tiles
    have ends : hi y = e := right
    rcases List.mem_append.mp mem.1 with above | same
    · have := (left.within above).2.2
      omega
    · rw [List.mem_singleton] at same
      subst same
      exact absurd mem.2 (last x (by simp))

end Zaytos.Extent
