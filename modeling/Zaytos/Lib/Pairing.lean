import Zaytos.Lib.Raster

set_option autoImplicit false

/-! Rows of cells of which some belong together in pairs, a left half and a right half, and what
writing over a part of a row does to the pairs. -/
namespace Zaytos

variable {α : Type} {right left : α → Prop}

structure PairedRow (right left : α → Prop) (row : Nat → Option α) : Prop where
  first : ∀ b, row 0 = some b → ¬ right b
  next : ∀ x a b, row x = some a → row (x + 1) = some b → (right b ↔ left a)

def RightAt (right : α → Prop) (row : Nat → Option α) (x : Nat) : Prop :=
  ∃ b, row x = some b ∧ right b

def Unbroken (row : Nat → Option α) : Prop :=
  ∀ x, (row (x + 1)).isSome = true → (row x).isSome = true

/-- A part of a row written over with cells that are paired among themselves. -/
structure Overwrites (right left : α → Prop) (row row' : Nat → Option α) (start count : Nat) :
    Prop where
  outside : ∀ x, x < start ∨ start + count ≤ x → row' x = row x
  there : ∀ x, (row' x).isSome = (row x).isSome
  first : ∀ b, row' start = some b → ¬ right b
  inner : ∀ x a b, start ≤ x → x + 1 < start + count → row' x = some a → row' (x + 1) = some b →
    (right b ↔ left a)
  last : ∀ a, row' (start + count - 1) = some a → ¬ left a

variable {row row' : Nat → Option α} {start count x : Nat}

theorem PairedRow.left_of (paired : PairedRow right left row) (unbroken : Unbroken row) {b : α}
    (there : row x = some b) (half : right b) :
    ∃ y a, x = y + 1 ∧ row y = some a ∧ left a := by
  cases x with
  | zero => exact absurd half (paired.first b there)
  | succ y =>
    have before := unbroken y (by rw [there]; rfl)
    obtain ⟨a, found⟩ := Option.isSome_iff_exists.mp before
    exact ⟨y, a, rfl, found, (paired.next y a b found there).mp half⟩

theorem Overwrites.paired_iff (writes : Overwrites right left row row' start count)
    (nonempty : 0 < count) (unbroken : Unbroken row) (paired : PairedRow right left row) :
    PairedRow right left row' ↔
      ¬ RightAt right row start ∧ ¬ RightAt right row (start + count) := by
  have unbroken' : Unbroken row' := by
    intro x there
    rw [writes.there] at there ⊢
    exact unbroken x there
  constructor
  · intro paired'
    constructor
    · intro half
      obtain ⟨b, there, isRight⟩ := half
      obtain ⟨y, a, rfl, before, isLeft⟩ := paired.left_of unbroken there isRight
      have kept : row' y = some a := by rw [writes.outside y (.inl (by omega)), before]
      have present : (row' (y + 1)).isSome = true := by rw [writes.there, there]; rfl
      obtain ⟨b', there'⟩ := Option.isSome_iff_exists.mp present
      exact writes.first b' there' ((paired'.next y a b' kept there').mpr isLeft)
    · intro half
      obtain ⟨b, there, isRight⟩ := half
      rw [← writes.outside (start + count) (.inr (le_rfl))] at there
      obtain ⟨y, a, next, before, isLeft⟩ := paired'.left_of unbroken' there isRight
      apply writes.last a _ isLeft
      rw [next, Nat.add_sub_cancel]
      exact before
  · intro clear
    constructor
    · intro b there
      by_cases own : start = 0
      · rw [← own] at there
        exact writes.first b there
      · rw [writes.outside 0 (.inl (by omega))] at there
        exact paired.first b there
    · intro x a b here there
      by_cases before : x + 1 < start
      · rw [writes.outside x (.inl (by omega))] at here
        rw [writes.outside (x + 1) (.inl before)] at there
        exact paired.next x a b here there
      by_cases edge : x + 1 = start
      · -- The first cell that was written over had no left half before it.
        have notRight : ¬ right b := writes.first b (edge ▸ there)
        have present : (row (x + 1)).isSome = true := by rw [← writes.there, there]; rfl
        obtain ⟨b₀, there₀⟩ := Option.isSome_iff_exists.mp present
        rw [writes.outside x (.inl (by omega))] at here
        have notLeft : ¬ left a := by
          intro isLeft
          apply clear.1
          rw [← edge]
          exact ⟨b₀, there₀, (paired.next x a b₀ here there₀).mpr isLeft⟩
        exact ⟨fun h => absurd h notRight, fun h => absurd h notLeft⟩
      by_cases inside : x + 1 < start + count
      · exact writes.inner x a b (by omega) inside here there
      rw [writes.outside (x + 1) (.inr (by omega))] at there
      by_cases last : x + 1 = start + count
      · have notLeft : ¬ left a := by
          apply writes.last
          rw [← last, Nat.add_sub_cancel]
          exact here
        have notRight : ¬ right b := fun isRight => clear.2 ⟨b, last ▸ there, isRight⟩
        exact ⟨fun h => absurd h notRight, fun h => absurd h notLeft⟩
      · rw [writes.outside x (.inr (by omega))] at here
        exact paired.next x a b here there

theorem pairedRow_plain (plain : ∀ x a, row x = some a → ¬ right a ∧ ¬ left a) :
    PairedRow right left row := by
  constructor
  · intro b there
    exact (plain 0 b there).1
  · intro x a b here there
    exact ⟨fun h => absurd h (plain _ b there).1, fun h => absurd h (plain _ a here).2⟩

namespace Raster

variable {p : Raster α} {w h top n : Nat} {value : α}

def Paired (right left : α → Prop) (p : Raster α) : Prop :=
  ∀ y, PairedRow right left fun x => p x y

theorem Sized.unbroken (sized : p.Sized w h) (y : Nat) : Unbroken fun x => p x y := by
  intro x there
  have inside := (sized (x + 1) y).mp there
  exact (sized x y).mpr ⟨by omega, inside.2⟩

theorem Paired.replace_iff {q : Raster α} {y : Nat} (paired : p.Paired right left)
    (same : ∀ x j, j ≠ y → q x j = p x j) :
    q.Paired right left ↔ PairedRow right left fun x => q x y := by
  constructor
  · intro all
    exact all y
  · intro one j
    by_cases own : j = y
    · rw [own]
      exact one
    · have rows : (fun x => q x j) = fun x => p x j := funext fun x => same x j own
      rw [rows]
      exact paired j

theorem Paired.of_row {q q' : Raster α} {y : Nat} (paired : p.Paired right left)
    (same : ∀ x j, j ≠ y → q x j = p x j) (seen : ∀ x, q' x y = q x y)
    (paired' : q'.Paired right left) : q.Paired right left := by
  apply (paired.replace_iff same).mpr
  have row := paired' y
  have rows : (fun x => q' x y) = fun x => q x y := funext seen
  rwa [rows] at row

theorem blank_paired (plain : ¬ right value ∧ ¬ left value) :
    (p.blank value).Paired right left := by
  intro y
  apply pairedRow_plain
  intro x a there
  have all : (p.blank value).All fun a => ¬ right a ∧ ¬ left a := All.blank plain
  exact all x y a there

theorem plain_paired (blank : ¬ right value ∧ ¬ left value) :
    (plain w h value).Paired right left := by
  intro y
  apply pairedRow_plain
  intro x a there
  have all : (plain w h value).All fun a => ¬ right a ∧ ¬ left a := plain_all blank
  exact all x y a there

theorem Paired.of_rows {q : Raster α} (paired : p.Paired right left)
    (plain : ¬ right value ∧ ¬ left value)
    (rows : ∀ y, (∃ j, ∀ x, q x y = p x j) ∨ ∀ x a, q x y = some a → a = value) :
    q.Paired right left := by
  intro y
  cases rows y with
  | inl moved =>
    obtain ⟨j, same⟩ := moved
    have row : (fun x => q x y) = fun x => p x j := funext same
    rw [row]
    exact paired j
  | inr blank =>
    apply pairedRow_plain
    intro x a there
    rw [blank x a there]
    exact plain

theorem Paired.deleteRows (paired : p.Paired right left) (sized : p.Sized w h)
    (plain : ¬ right value ∧ ¬ left value) : (p.deleteRows top n value).Paired right left := by
  apply paired.of_rows plain
  intro y
  unfold Raster.deleteRows
  by_cases above : y < top
  · exact .inl ⟨y, fun x => if_pos above⟩
  by_cases later : y + n < h
  · apply Or.inl
    refine ⟨y + n, fun x => ?_⟩
    rw [if_neg above]
    by_cases column : x < w
    · obtain ⟨a, there⟩ := sized.exists_eq column later
      rw [there, Option.some_or]
    · rw [sized.eq_none (i := x) (j := y) (by omega), Option.map_none, Option.or_none]
  · apply Or.inr
    intro x a there
    rw [if_neg above, sized.eq_none (by omega), Option.none_or, Option.map_eq_some_iff] at there
    obtain ⟨_, _, rfl⟩ := there
    rfl

theorem Paired.insertRows (paired : p.Paired right left) (sized : p.Sized w h)
    (plain : ¬ right value ∧ ¬ left value) : (p.insertRows top n value).Paired right left := by
  apply paired.of_rows plain
  intro y
  unfold Raster.insertRows
  by_cases above : y < top
  · exact .inl ⟨y, fun x => if_pos above⟩
  by_cases new : y < top + n
  · apply Or.inr
    intro x a there
    rw [if_neg above, if_pos new, Option.map_eq_some_iff] at there
    obtain ⟨_, _, rfl⟩ := there
    rfl
  by_cases row : y < h
  · apply Or.inl
    refine ⟨y - n, fun x => ?_⟩
    rw [if_neg above, if_neg new]
    by_cases column : x < w
    · obtain ⟨a, there⟩ := sized.exists_eq column row
      rw [there, Option.bind_some]
    · rw [sized.eq_none (i := x) (j := y) (by omega), Option.bind_none,
        sized.eq_none (by omega)]
  · apply Or.inr
    intro x a there
    rw [if_neg above, if_neg new, sized.eq_none (by omega)] at there
    cases there

theorem Paired.fill_rows (paired : p.Paired right left) (sized : p.Sized w h)
    (plain : ¬ right value ∧ ¬ left value) : (p.fill 0 top w n value).Paired right left := by
  apply paired.of_rows plain
  intro y
  by_cases inside : top ≤ y ∧ y < top + n
  · apply Or.inr
    intro x a there
    by_cases column : x < w
    · have present : (p x y).isSome = true := by
        rw [← @Sized.fill _ _ _ _ 0 top w n sized value x y |>.trans
          (sized x y).symm |> Bool.eq_iff_iff.mpr, there]
        rfl
      rw [fill_inside ⟨by omega, inside⟩ present] at there
      exact (Option.some.inj there).symm
    · rw [fill_none (sized.eq_none (by omega))] at there
      cases there
  · exact .inl ⟨y, fun x => fill_outside fun within => inside within.2⟩

theorem Paired.fill_iff (paired : p.Paired right left) (sized : p.Sized w h)
    (plain : ¬ right value ∧ ¬ left value) {column row count : Nat} (nonempty : 0 < count) :
    (p.fill column row count 1 value).Paired right left ↔
      ¬ RightAt right (fun x => p x row) column ∧
        ¬ RightAt right (fun x => p x row) (column + count) := by
  have same : ∀ x j, j ≠ row → p.fill column row count 1 value x j = p x j := by
    intro x j other
    apply fill_outside
    unfold Within
    omega
  rw [paired.replace_iff same]
  have new : ∀ x a, column ≤ x → x < column + count →
      p.fill column row count 1 value x row = some a → ¬ right a ∧ ¬ left a := by
    intro x a low high there
    unfold Raster.fill Raster.draw at there
    rw [if_pos ⟨⟨low, high⟩, by omega, by omega⟩, Option.map_eq_some_iff] at there
    obtain ⟨_, _, rfl⟩ := there
    exact plain
  apply Overwrites.paired_iff _ nonempty (sized.unbroken row) (paired row)
  constructor
  · intro x outside
    apply fill_outside
    unfold Within
    omega
  · intro x
    rw [Bool.eq_iff_iff]
    exact (sized.fill value x row).trans (sized x row).symm
  · intro b there
    exact (new column b (le_rfl) (by omega) there).1
  · intro x a b low high here there
    have notRight := (new (x + 1) b (by omega) high there).1
    have notLeft := (new x a low (by omega) here).2
    exact ⟨fun h => absurd h notRight, fun h => absurd h notLeft⟩
  · intro a there
    exact (new _ a (by omega) (by omega) there).2

theorem Paired.fill_pair_iff (paired : p.Paired right left) (sized : p.Sized w h) {head tail : α}
    (headLeft : left head) (headRight : ¬ right head) (tailRight : right tail)
    (tailLeft : ¬ left tail) {column row : Nat} :
    ((p.fill column row 1 1 head).fill (column + 1) row 1 1 tail).Paired right left ↔
      ¬ RightAt right (fun x => p x row) column ∧
        ¬ RightAt right (fun x => p x row) (column + 2) := by
  have same : ∀ x j, j ≠ row →
      (p.fill column row 1 1 head).fill (column + 1) row 1 1 tail x j = p x j := by
    intro x j other
    rw [fill_outside, fill_outside]
    · unfold Within
      omega
    · unfold Within
      omega
  rw [paired.replace_iff same]
  have first : ∀ a, (p.fill column row 1 1 head).fill (column + 1) row 1 1 tail column row =
      some a → a = head := by
    intro a there
    rw [fill_outside (by unfold Within; omega)] at there
    unfold Raster.fill Raster.draw at there
    rw [if_pos ⟨by omega, by omega⟩, Option.map_eq_some_iff] at there
    obtain ⟨_, _, rfl⟩ := there
    rfl
  have second : ∀ b, (p.fill column row 1 1 head).fill (column + 1) row 1 1 tail (column + 1) row =
      some b → b = tail := by
    intro b there
    unfold Raster.fill Raster.draw at there
    rw [if_pos ⟨by omega, by omega⟩, Option.map_eq_some_iff] at there
    obtain ⟨_, _, rfl⟩ := there
    rfl
  apply Overwrites.paired_iff _ (by omega) (sized.unbroken row) (paired row)
  constructor
  · intro x outside
    rw [fill_outside, fill_outside]
    · unfold Within
      omega
    · unfold Within
      omega
  · intro x
    rw [Bool.eq_iff_iff]
    exact ((sized.fill head).fill tail x row).trans (sized x row).symm
  · intro b there
    rw [first b there]
    exact headRight
  · intro x a b low high here there
    have own : x = column := by omega
    rw [own] at here there
    rw [first a here, second b there]
    exact ⟨fun _ => headLeft, fun _ => tailRight⟩
  · intro a there
    rw [second a there]
    exact tailLeft

end Raster

end Zaytos
