import Mathlib.Algebra.Order.Ring.Nat
import Mathlib.Tactic.Ring
import Zaytos.Lib.Slices

set_option autoImplicit false

/-! Rectangles of points, the changes made to them by rectangles and by whole rows, and the rows
of a slice as such a rectangle. -/
namespace Zaytos

/-- The points of a rectangle, by column and row; `none` outside of it. -/
abbrev Raster (α : Type) := Nat → Nat → Option α

namespace Raster

variable {α : Type} {p q : Raster α} {value : α} {x y i j w h stride top n : Nat}

/-- The points are those of `w` columns and `h` rows. -/
def Sized (p : Raster α) (w h : Nat) : Prop := ∀ x y, (p x y).isSome = true ↔ x < w ∧ y < h

/-- The point lies in the rectangle with its corner at `(x, y)`. -/
def Within (x y w h i j : Nat) : Prop := (x ≤ i ∧ i < x + w) ∧ y ≤ j ∧ j < y + h

instance : Decidable (Within x y w h i j) := inferInstanceAs (Decidable (_ ∧ _))

/-- A picture drawn with its corner at `(x, y)`, cut off at the edges. -/
def draw (p : Raster α) (x y w h : Nat) (image : Nat → Nat → α) : Raster α := fun i j =>
  if Within x y w h i j then (p i j).map fun _ => image (i - x) (j - y) else p i j

def fill (p : Raster α) (x y w h : Nat) (value : α) : Raster α := p.draw x y w h fun _ _ => value

def blank (p : Raster α) (value : α) : Raster α := fun i j => (p i j).map fun _ => value

def plain (w h : Nat) (value : α) : Raster α := fun i j => if i < w ∧ j < h then some value else none

def copy (p q : Raster α) (x y w h : Nat) : Raster α := fun i j =>
  if Within x y w h i j then q i j else p i j

/-- The rows from `top` on, `n` of them, take one value. -/
def blankRows (p : Raster α) (top n : Nat) (value : α) : Raster α := fun i j =>
  if top ≤ j ∧ j < top + n then (p i j).map fun _ => value else p i j

/-- The rows from `top` on go up by `n`, and what comes in from below is one value. -/
def deleteRows (p : Raster α) (top n : Nat) (value : α) : Raster α := fun i j =>
  if j < top then p i j else (p i (j + n)).or ((p i j).map fun _ => value)

/-- The rows from `top` on go down by `n`, and what comes in is one value. -/
def insertRows (p : Raster α) (top n : Nat) (value : α) : Raster α := fun i j =>
  if j < top then p i j
  else if j < top + n then (p i j).map fun _ => value
  else (p i j).bind fun _ => p i (j - n)

theorem Sized.eq_none (sized : p.Sized w h) (outside : ¬ (i < w ∧ j < h)) : p i j = none := by
  rw [← Option.not_isSome_iff_eq_none]
  exact mt (sized i j).mp outside

theorem Sized.exists_eq (sized : p.Sized w h) (column : i < w) (row : j < h) :
    ∃ value, p i j = some value :=
  Option.isSome_iff_exists.mp ((sized i j).mpr ⟨column, row⟩)

theorem Sized.of_some (sized : p.Sized w h) (point : p i j = some value) : i < w ∧ j < h :=
  (sized i j).mp (by rw [point]; rfl)

section Sizes

theorem Sized.draw {x y w' h' : Nat} (sized : p.Sized w h) (image : Nat → Nat → α) :
    (p.draw x y w' h' image).Sized w h := by
  intro i j
  unfold Raster.draw
  split
  · simpa using sized i j
  · exact sized i j

theorem Sized.fill {x y w' h' : Nat} (sized : p.Sized w h) (value : α) :
    (p.fill x y w' h' value).Sized w h :=
  sized.draw _

theorem Sized.blank (sized : p.Sized w h) (value : α) : (p.blank value).Sized w h := by
  intro i j
  simpa [Raster.blank] using sized i j

theorem Sized.deleteRows (sized : p.Sized w h) (top n : Nat) (value : α) :
    (p.deleteRows top n value).Sized w h := by
  intro i j
  unfold Raster.deleteRows
  split
  · exact sized i j
  · have there := sized i j
    have later := sized i (j + n)
    cases other : p i (j + n) with
    | none => simpa using there
    | some value =>
      rw [other, Option.isSome_some] at later
      have inside := later.mp rfl
      simp
      omega

theorem Sized.insertRows (sized : p.Sized w h) (top n : Nat) (value : α) :
    (p.insertRows top n value).Sized w h := by
  intro i j
  unfold Raster.insertRows
  split
  · exact sized i j
  · split
    · simpa using sized i j
    · have there := sized i j
      have earlier := sized i (j - n)
      cases here : p i j with
      | none => simpa [here] using there
      | some value =>
        rw [here, Option.isSome_some] at there
        rw [Option.bind_some, earlier]
        have inside := there.mp rfl
        omega

end Sizes

section Edges

theorem draw_outside {image : Nat → Nat → α} (outside : ¬ Within x y w h i j) :
    p.draw x y w h image i j = p i j := if_neg outside

theorem draw_inside {image : Nat → Nat → α} (inside : Within x y w h i j) (there : (p i j).isSome = true) :
    p.draw x y w h image i j = some (image (i - x) (j - y)) := by
  obtain ⟨value, point⟩ := Option.isSome_iff_exists.mp there
  rw [draw, if_pos inside, point, Option.map_some]

theorem fill_outside (outside : ¬ Within x y w h i j) : p.fill x y w h value i j = p i j :=
  draw_outside outside

theorem fill_inside (inside : Within x y w h i j) (there : (p i j).isSome = true) :
    p.fill x y w h value i j = some value :=
  draw_inside inside there

theorem draw_none {image : Nat → Nat → α} (gone : p i j = none) : p.draw x y w h image i j = none := by
  unfold draw
  split <;> simp [gone]

theorem fill_none (gone : p i j = none) : p.fill x y w h value i j = none :=
  draw_none gone

theorem fill_empty (p : Raster α) (x y h : Nat) (value : α) : p.fill x y 0 h value = p := by
  funext i j
  apply fill_outside
  unfold Within
  omega

theorem fill_flat (p : Raster α) (x y w : Nat) (value : α) : p.fill x y w 0 value = p := by
  funext i j
  apply fill_outside
  unfold Within
  omega

theorem Sized.fill_past {x y w' h' : Nat} (sized : p.Sized w h) (past : w ≤ x ∨ h ≤ y) :
    p.fill x y w' h' value = p := by
  funext i j
  by_cases within : Within x y w' h' i j
  · unfold Within at within
    have gone : p i j = none := sized.eq_none (by omega)
    rw [fill_none gone, gone]
  · exact fill_outside within

theorem Sized.fill_min {x y w' h' : Nat} (sized : p.Sized w h) :
    p.fill x y (min w' (w - x)) (min h' (h - y)) value = p.fill x y w' h' value := by
  funext i j
  by_cases inside : i < w ∧ j < h
  · have same : Within x y (min w' (w - x)) (min h' (h - y)) i j ↔ Within x y w' h' i j := by
      unfold Within
      omega
    unfold Raster.fill Raster.draw
    simp only [same]
  · have gone := sized.eq_none inside
    rw [fill_none gone, fill_none gone]

theorem fill_fill {other : α} (p : Raster α) :
    (p.fill x y w h value).fill x y w h other = p.fill x y w h other := by
  funext i j
  unfold Raster.fill Raster.draw
  split
  · cases p i j <;> rfl
  · rfl

theorem plain_fill {w' h' : Nat} :
    (plain w' h' value).fill x y w h value = plain w' h' value := by
  funext i j
  unfold Raster.fill Raster.draw plain
  split
  · split <;> rfl
  · rfl

theorem fill_right {n m : Nat} (p : Raster α) :
    (p.fill x y n h value).fill (x + n) y m h value = p.fill x y (n + m) h value := by
  funext i j
  unfold Raster.fill Raster.draw Within
  by_cases rows : y ≤ j ∧ j < y + h
  · by_cases first : x ≤ i ∧ i < x + n
    · simp [rows, first, show ¬ x + n ≤ i by omega, show i < x + (n + m) by omega]
    · by_cases second : x + n ≤ i ∧ i < x + n + m
      · simp [rows, second, show ¬ i < x + n by omega, show x ≤ i by omega,
          show i < x + (n + m) by omega]
      · simp [first, second, show ¬ (x ≤ i ∧ i < x + (n + m)) by omega]
  · simp [rows]

theorem fill_below {n m : Nat} (p : Raster α) :
    (p.fill x y w n value).fill x (y + n) w m value = p.fill x y w (n + m) value := by
  funext i j
  unfold Raster.fill Raster.draw Within
  by_cases columns : x ≤ i ∧ i < x + w
  · by_cases first : y ≤ j ∧ j < y + n
    · simp [columns, first, show ¬ y + n ≤ j by omega, show j < y + (n + m) by omega]
    · by_cases second : y + n ≤ j ∧ j < y + n + m
      · simp [columns, second, show ¬ j < y + n by omega, show y ≤ j by omega,
          show j < y + (n + m) by omega]
      · simp [first, second, show ¬ (y ≤ j ∧ j < y + (n + m)) by omega]
  · simp [columns]

theorem draw_below {n m : Nat} {image : Nat → Nat → α} (p : Raster α) :
    (p.draw x y w n image).draw x (y + n) w m (fun i j => image i (n + j)) =
      p.draw x y w (n + m) image := by
  funext i j
  unfold Raster.draw Within
  by_cases columns : x ≤ i ∧ i < x + w
  · by_cases first : y ≤ j ∧ j < y + n
    · simp [columns, first, show ¬ y + n ≤ j by omega, show j < y + (n + m) by omega]
    · by_cases second : y + n ≤ j ∧ j < y + n + m
      · simp [columns, second, show ¬ j < y + n by omega, show y ≤ j by omega,
          show j < y + (n + m) by omega, show n + (j - (y + n)) = j - y by omega]
      · simp [first, second, show ¬ (y ≤ j ∧ j < y + (n + m)) by omega]
  · simp [columns]

theorem draw_flat (p : Raster α) (x y w : Nat) (image : Nat → Nat → α) :
    p.draw x y w 0 image = p := by
  funext i j
  apply draw_outside
  unfold Within
  omega

theorem copy_flat (p q : Raster α) (x y w : Nat) : p.copy q x y w 0 = p := by
  funext i j
  apply if_neg
  unfold Within
  omega

theorem copy_below {n m : Nat} (p q : Raster α) :
    (p.copy q x y w n).copy q x (y + n) w m = p.copy q x y w (n + m) := by
  funext i j
  unfold copy Within
  by_cases columns : x ≤ i ∧ i < x + w
  · by_cases first : y ≤ j ∧ j < y + n
    · simp [columns, first, show j < y + (n + m) by omega]
    · by_cases second : y + n ≤ j ∧ j < y + n + m
      · simp [columns, second, show y ≤ j by omega, show j < y + (n + m) by omega]
      · simp [first, second, show ¬ (y ≤ j ∧ j < y + (n + m)) by omega]
  · simp [columns]

theorem deleteRows_zero (p : Raster α) (top : Nat) (value : α) : p.deleteRows top 0 value = p := by
  funext i j
  unfold deleteRows
  split
  · rfl
  · cases p i j <;> simp

theorem insertRows_zero (p : Raster α) (top : Nat) (value : α) : p.insertRows top 0 value = p := by
  funext i j
  unfold insertRows
  split
  · rfl
  · rw [if_neg (by omega)]
    cases p i j <;> simp

theorem Sized.deleteRows_past (sized : p.Sized w h) (past : h ≤ top) :
    p.deleteRows top n value = p := by
  funext i j
  unfold Raster.deleteRows
  split
  · rfl
  · rw [sized.eq_none (by omega), sized.eq_none (by omega)]
    rfl

theorem Sized.insertRows_past (sized : p.Sized w h) (past : h ≤ top) :
    p.insertRows top n value = p := by
  funext i j
  unfold Raster.insertRows
  split
  · rfl
  · rw [sized.eq_none (by omega)]
    split <;> rfl

theorem Sized.deleteRows_min (sized : p.Sized w h) :
    p.deleteRows top n value = p.deleteRows top (min n (h - top)) value := by
  by_cases few : n ≤ h - top
  · rw [Nat.min_eq_left few]
  · rw [Nat.min_eq_right (by omega)]
    funext i j
    unfold Raster.deleteRows
    split
    · rfl
    · rw [sized.eq_none (j := j + n) (by omega), sized.eq_none (j := j + (h - top)) (by omega)]

theorem Sized.blank_eq (sized : p.Sized w h) (value : α) : p.blank value = plain w h value := by
  funext i j
  unfold Raster.blank plain
  by_cases inside : i < w ∧ j < h
  · obtain ⟨there, point⟩ := sized.exists_eq inside.1 inside.2
    rw [if_pos inside, point, Option.map_some]
  · rw [if_neg inside, sized.eq_none inside, Option.map_none]

theorem plain_sized (w h : Nat) (value : α) : (plain w h value).Sized w h := by
  intro i j
  unfold plain
  by_cases inside : i < w ∧ j < h <;> simp [inside]

theorem Sized.deleteRows_all (sized : p.Sized w h) (all : h ≤ n) :
    p.deleteRows 0 n value = p.blank value := by
  funext i j
  rw [Raster.deleteRows, if_neg (by omega), sized.eq_none (j := j + n) (by omega)]
  rfl

theorem Sized.insertRows_min (sized : p.Sized w h) :
    p.insertRows top n value = p.insertRows top (min n (h - top)) value := by
  by_cases few : n ≤ h - top
  · rw [Nat.min_eq_left few]
  · rw [Nat.min_eq_right (by omega)]
    funext i j
    unfold Raster.insertRows
    split
    · rfl
    · by_cases inside : j < h
      · rw [if_pos (by omega), if_pos (by omega)]
      · rw [sized.eq_none (by omega)]
        split <;> split <;> rfl

theorem Sized.fill_rows (sized : p.Sized w h) :
    p.fill 0 top w n value = p.blankRows top n value := by
  funext i j
  unfold Raster.fill Raster.draw Raster.blankRows Within
  by_cases column : i < w
  · simp only [Nat.zero_le, Nat.zero_add, column, and_self, true_and]
  · rw [sized.eq_none (fun inside => column inside.1)]
    simp

theorem Sized.fill_all (sized : p.Sized w h) (value : α) : p.fill 0 0 w h value = p.blank value := by
  funext i j
  unfold Raster.fill Raster.draw Raster.blank
  split
  case isTrue => rfl
  case isFalse outside =>
    rw [sized.eq_none]
    · rfl
    · intro inside
      apply outside
      unfold Within
      omega

end Edges

section Values

def All (p : Raster α) (holds : α → Prop) : Prop := ∀ i j value, p i j = some value → holds value

variable {holds : α → Prop}

theorem All.draw (all : p.All holds) {image : Nat → Nat → α} (drawn : ∀ i j, holds (image i j)) :
    (p.draw x y w h image).All holds := by
  intro i j value point
  unfold Raster.draw at point
  split at point
  · cases there : p i j with
    | none =>
      rw [there] at point
      cases point
    | some old =>
      rw [there] at point
      cases point
      exact drawn _ _
  · exact all i j value point

theorem All.fill (all : p.All holds) (new : holds value) : (p.fill x y w h value).All holds :=
  all.draw fun _ _ => new

theorem All.fill_none (all : p.All holds) (x y h : Nat) (value : α) :
    (p.fill x y 0 h value).All holds := by
  rw [fill_empty]
  exact all

theorem plain_all (new : holds value) : (plain w h value).All holds := by
  intro i j value' point
  unfold plain at point
  split at point <;> cases point
  exact new

theorem All.blank (new : holds value) : (p.blank value).All holds := by
  intro i j value' point
  unfold Raster.blank at point
  cases there : p i j with
  | none =>
    rw [there] at point
    cases point
  | some old =>
    rw [there] at point
    cases point
    exact new

theorem All.deleteRows (all : p.All holds) (new : holds value) (top n : Nat) :
    (p.deleteRows top n value).All holds := by
  intro i j value' point
  unfold Raster.deleteRows at point
  split at point
  · exact all i j value' point
  · cases later : p i (j + n) with
    | some old =>
      rw [later] at point
      cases point
      exact all i (j + n) value' later
    | none =>
      rw [later, Option.none_or] at point
      exact All.blank (p := p) new i j value' point

theorem All.insertRows (all : p.All holds) (new : holds value) (top n : Nat) :
    (p.insertRows top n value).All holds := by
  intro i j value' point
  unfold Raster.insertRows at point
  split at point
  · exact all i j value' point
  · split at point
    · exact All.blank (p := p) new i j value' point
    · cases there : p i j with
      | none =>
        rw [there] at point
        cases point
      | some old =>
        rw [there, Option.bind_some] at point
        exact all i (j - n) value' point

def left (p : Raster α) (n : Nat) : Raster α := fun i j => if i < n then p i j else none

theorem left_draw (p : Raster α) (image : Nat → Nat → α) :
    (p.draw x y w h image).left n = (p.left n).draw x y w h image := by
  funext i j
  unfold left draw
  by_cases column : i < n <;> simp [column]

theorem left_blank (p : Raster α) (value : α) : (p.blank value).left n = (p.left n).blank value := by
  funext i j
  unfold left blank
  by_cases column : i < n <;> simp [column]

theorem left_deleteRows (p : Raster α) (top count : Nat) (value : α) :
    (p.deleteRows top count value).left n = (p.left n).deleteRows top count value := by
  funext i j
  unfold left deleteRows
  by_cases column : i < n <;> simp [column]

theorem left_insertRows (p : Raster α) (top count : Nat) (value : α) :
    (p.insertRows top count value).left n = (p.left n).insertRows top count value := by
  funext i j
  unfold left insertRows
  by_cases column : i < n <;> simp [column]

theorem left_blankRows (p : Raster α) (top count : Nat) (value : α) :
    (p.blankRows top count value).left n = (p.left n).blankRows top count value := by
  funext i j
  unfold left blankRows
  by_cases column : i < n <;> simp [column]

theorem All.blankRows (all : p.All holds) (new : holds value) (top n : Nat) :
    (p.blankRows top n value).All holds := by
  intro i j value' point
  unfold Raster.blankRows at point
  split at point
  · exact All.blank (p := p) new i j value' point
  · exact all i j value' point

end Values

section Shifts

theorem Sized.fill_moved_up (sized : p.Sized w h) (fits : top + n ≤ h)
    (moved : ∀ i j, q i j = if top ≤ j ∧ j + n < h then p i (j + n) else p i j) :
    q.fill 0 (h - n) w n value = p.deleteRows top n value := by
  funext i j
  by_cases inside : i < w ∧ j < h
  · obtain ⟨point, here⟩ := sized.exists_eq inside.1 inside.2
    by_cases last : h - n ≤ j
    · rw [fill_inside ⟨by omega, by omega⟩]
      · rw [Raster.deleteRows, if_neg (by omega), sized.eq_none (j := j + n) (by omega), here]
        rfl
      · rw [moved, if_neg (by omega), here]
        rfl
    · rw [fill_outside (fun within => last within.2.1), moved, Raster.deleteRows]
      by_cases above : j < top
      · rw [if_neg (by omega), if_pos above]
      · obtain ⟨later, there⟩ := sized.exists_eq (j := j + n) inside.1 (by omega)
        rw [if_pos (by omega), if_neg above, there]
        rfl
  · have gone : q i j = none := by
      rw [moved]
      split
      · exact sized.eq_none (by omega)
      · exact sized.eq_none inside
    rw [fill_none gone, (sized.deleteRows top n value).eq_none inside]

theorem Sized.fill_moved_down (sized : p.Sized w h)
    (moved : ∀ i j, q i j = if top + n ≤ j ∧ j < h then p i (j - n) else p i j) :
    q.fill 0 top w n value = p.insertRows top n value := by
  funext i j
  by_cases inside : i < w ∧ j < h
  · obtain ⟨point, here⟩ := sized.exists_eq inside.1 inside.2
    unfold Raster.insertRows
    by_cases above : j < top
    · rw [if_pos above, fill_outside (fun within => by have := within.2.1; omega), moved,
        if_neg (by omega)]
    rw [if_neg above]
    by_cases blanked : j < top + n
    · rw [if_pos blanked, fill_inside ⟨by omega, by omega⟩, here]
      · rfl
      · rw [moved, if_neg (by omega), here]
        rfl
    · rw [if_neg blanked, fill_outside (fun within => blanked within.2.2), moved,
        if_pos (by omega), here]
      rfl
  · have gone : q i j = none := by
      rw [moved]
      split
      · exact sized.eq_none (by omega)
      · exact sized.eq_none inside
    rw [fill_none gone, (sized.insertRows top n value).eq_none inside]

end Shifts

section Rows

/-- The slice read by rows of `stride` values, `w` of them shown. -/
def ofRows (xs : List α) (w h stride : Nat) : Raster α := fun x y =>
  if x < w ∧ y < h then xs[y * stride + x]? else none

variable {xs ys : List α}

theorem row_index (y top : Nat) (column : x < stride) : y * stride + x < top * stride ↔ y < top := by
  constructor
  · intro before
    by_contra not
    have : top * stride ≤ y * stride := Nat.mul_le_mul_right _ (by omega)
    omega
  · intro before
    have : (y + 1) * stride ≤ top * stride := Nat.mul_le_mul_right _ before
    have : (y + 1) * stride = y * stride + stride := by ring
    omega

theorem le_row_index (y top : Nat) (column : x < stride) : top * stride ≤ y * stride + x ↔ top ≤ y := by
  rw [← not_lt, row_index _ _ column, not_lt]

theorem span_index (y j : Nat) (column : i < stride) (fits : x + n ≤ stride) :
    y * stride + x ≤ j * stride + i ∧ j * stride + i < y * stride + x + n ↔
      j = y ∧ x ≤ i ∧ i < x + n := by
  by_cases empty : n = 0
  · omega
  rcases Nat.lt_trichotomy j y with before | rfl | after
  · have := (row_index _ _ column).mpr before
    omega
  · omega
  · have := (row_index y j (show x + n - 1 < stride by omega)).mpr after
    omega

theorem index_lt (narrow : w ≤ stride) (column : x < w) (row : y < h)
    (room : h * stride ≤ xs.length) : y * stride + x < xs.length := by
  have := (row_index y h (show x < stride by omega)).mpr row
  omega

theorem ofRows_sized (narrow : w ≤ stride) (room : h * stride ≤ xs.length) :
    (ofRows xs w h stride).Sized w h := by
  intro x y
  unfold ofRows
  split
  case isTrue inside =>
    rw [List.getElem?_eq_getElem (index_lt narrow inside.1 inside.2 room)]
    simp [inside]
  case isFalse outside => simp [outside]

theorem ofRows_copy {source : List α} {start count : Nat} (bound : start + count ≤ source.length)
    (hits : ∀ i j, i < w → j < h → (start ≤ j * stride + i ∧ j * stride + i < start + count ↔
      Within x y n top i j))
    (written : Slices.write xs start ((source.drop start).take count) = some ys) :
    ofRows ys w h stride =
      (ofRows xs w h stride).copy (ofRows source w h stride) x y n top := by
  funext i j
  unfold copy ofRows
  by_cases inside : i < w ∧ j < h
  · have length : ((source.drop start).take count).length = count := by
      rw [List.length_take, List.length_drop]
      omega
    have hit := hits i j inside.1 inside.2
    rw [if_pos inside, if_pos inside, if_pos inside, Slices.getElem?_write written, length]
    by_cases within : Within x y n top i j
    · have range := hit.mpr within
      rw [if_pos range, if_pos within, List.getElem?_take_of_lt (by omega), List.getElem?_drop]
      congr 1
      omega
    · rw [if_neg (mt hit.mp within), if_neg within]
  · simp [inside]

theorem ofRows_write (values : List α) {image : Nat → Nat → α} (narrow : w ≤ stride)
    (fits : x + values.length ≤ w)
    (same : ∀ k, k < values.length → values[k]? = some (image k 0))
    (room : h * stride ≤ xs.length)
    (written : Slices.write xs (y * stride + x) values = some ys) :
    ofRows ys w h stride = (ofRows xs w h stride).draw x y values.length 1 image := by
  funext i j
  by_cases inside : i < w ∧ j < h
  · have span := span_index y j (show i < stride by omega)
      (show x + values.length ≤ stride by omega)
    by_cases within : Within x y values.length 1 i j
    · have onRow : j = y := by
        have := within.2
        omega
      rw [draw_inside within ((ofRows_sized narrow room i j).mpr inside), ofRows, if_pos inside,
        Slices.getElem?_write written, if_pos (span.mpr ⟨onRow, within.1⟩)]
      subst onRow
      have column : j * stride + i - (j * stride + x) = i - x := by omega
      have shown := same (i - x) (by have := within.1; omega)
      rw [column, shown, Nat.sub_self]
    · rw [draw_outside within, ofRows, if_pos inside, Slices.getElem?_write written, if_neg,
        ofRows, if_pos inside]
      intro hit
      have := span.mp hit
      apply within
      unfold Within
      omega
  · have gone : ofRows xs w h stride i j = none := if_neg inside
    rw [ofRows, if_neg inside, draw_none gone]

theorem ofRows_fill_span (narrow : w ≤ stride) (fits : x + n ≤ w) (room : h * stride ≤ xs.length)
    (filled : Slices.fill xs (y * stride + x) (y * stride + x + n) value = some ys) :
    ofRows ys w h stride = (ofRows xs w h stride).fill x y n 1 value := by
  funext i j
  by_cases inside : i < w ∧ j < h
  · have span := span_index y j (show i < stride by omega) (show x + n ≤ stride by omega)
    rw [ofRows, if_pos inside, Slices.getElem?_fill filled]
    by_cases within : Within x y n 1 i j
    · have onRow : j = y := by
        have := within.2
        omega
      rw [if_pos (span.mpr ⟨onRow, within.1⟩),
        fill_inside within ((ofRows_sized narrow room i j).mpr inside)]
    · rw [fill_outside within, if_neg, ofRows, if_pos inside]
      intro hit
      have := span.mp hit
      apply within
      unfold Within
      omega
  · have gone : ofRows xs w h stride i j = none := if_neg inside
    rw [ofRows, if_neg inside, fill_none gone]

theorem ofRows_fill_rows (narrow : w ≤ stride) (room : h * stride ≤ xs.length)
    (filled : Slices.fill xs (top * stride) (top * stride + n * stride) value = some ys) :
    ofRows ys w h stride = (ofRows xs w h stride).fill 0 top w n value := by
  funext i j
  have split : top * stride + n * stride = (top + n) * stride := by ring
  rw [split] at filled
  by_cases inside : i < w ∧ j < h
  · rw [ofRows, if_pos inside, Slices.getElem?_fill filled]
    have before := le_row_index j top (show i < stride by omega)
    have after := row_index j (top + n) (show i < stride by omega)
    by_cases within : Within 0 top w n i j
    · have rows := within.2
      rw [if_pos ⟨before.mpr rows.1, after.mpr rows.2⟩,
        fill_inside within ((ofRows_sized narrow room i j).mpr inside)]
    · rw [fill_outside within, if_neg, ofRows, if_pos inside]
      intro hit
      apply within
      exact ⟨by omega, before.mp hit.1, after.mp hit.2⟩
  · have gone : ofRows xs w h stride i j = none := if_neg inside
    rw [ofRows, if_neg inside, fill_none gone]

theorem ofRows_copy_up (narrow : w ≤ stride) (fits : top + n ≤ h)
    (copied : Slices.copyWithin xs ((top + n) * stride) (h * stride) (top * stride) = some ys)
    (i j : Nat) : ofRows ys w h stride i j =
      if top ≤ j ∧ j + n < h then ofRows xs w h stride i (j + n) else ofRows xs w h stride i j := by
  by_cases inside : i < w ∧ j < h
  · have before := le_row_index j top (show i < stride by omega)
    have after := row_index j (h - n) (show i < stride by omega)
    have stops : top * stride + (h * stride - (top + n) * stride) = (h - n) * stride := by
      rw [← Nat.sub_mul, ← Nat.add_mul]
      congr 1
      omega
    unfold ofRows
    rw [if_pos inside, if_pos inside, Slices.getElem?_copyWithin copied, stops]
    by_cases moved : top ≤ j ∧ j + n < h
    · rw [if_pos ⟨before.mpr moved.1, after.mpr (by omega)⟩, if_pos moved, if_pos (by omega)]
      congr 1
      have left : (j + n) * stride = j * stride + n * stride := by ring
      have right : (top + n) * stride = top * stride + n * stride := by ring
      have := before.mpr moved.1
      omega
    · rw [if_neg moved, if_neg]
      intro hit
      have := before.mp hit.1
      have := after.mp hit.2
      omega
  · unfold ofRows
    rw [if_neg inside, if_neg inside]
    split
    · rw [if_neg (by omega)]
    · rfl

theorem ofRows_copy_down (narrow : w ≤ stride) (fits : top + n ≤ h)
    (copied : Slices.copyWithin xs (top * stride) (top * stride + (h * stride - (top + n) * stride))
      ((top + n) * stride) = some ys) (i j : Nat) : ofRows ys w h stride i j =
      if top + n ≤ j ∧ j < h then ofRows xs w h stride i (j - n) else ofRows xs w h stride i j := by
  by_cases inside : i < w ∧ j < h
  · have before := le_row_index j (top + n) (show i < stride by omega)
    have after := row_index j h (show i < stride by omega)
    have within : (top + n) * stride ≤ h * stride := Nat.mul_le_mul_right _ fits
    unfold ofRows
    rw [if_pos inside, if_pos inside, Slices.getElem?_copyWithin copied]
    by_cases moved : top + n ≤ j ∧ j < h
    · have here := before.mpr moved.1
      have bound := after.mpr moved.2
      rw [if_pos (by omega), if_pos moved, if_pos (by omega)]
      congr 1
      have left : j * stride = (j - n) * stride + n * stride := by
        rw [← Nat.add_mul]
        congr 1
        omega
      have right : (top + n) * stride = top * stride + n * stride := by ring
      omega
    · rw [if_neg moved, if_neg]
      intro hit
      have := before.mp hit.1
      omega
  · unfold ofRows
    rw [if_neg inside, if_neg inside]
    split
    · rw [if_neg (by omega)]
    · rfl

end Rows

end Raster

end Zaytos
