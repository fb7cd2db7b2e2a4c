import Zaytos.Lib.Bytes

set_option autoImplicit false

/-! A slice cut into named areas that do not overlap.

`view` reads the slice area by area, and a write inside one area changes the view of that
area alone. `Holds` says that a slice is what a base slice becomes when its areas are
given new contents, so a slice is known once its areas are. -/
namespace Zaytos

/-- The intervals `[p, p + n)` and `[q, q + m)` have no position in common. -/
def Apart (p n q m : Nat) : Prop := n = 0 ∨ m = 0 ∨ p + n ≤ q ∨ q + m ≤ p

instance (p n q m : Nat) : Decidable (Apart p n q m) := by
  unfold Apart
  infer_instance

variable {p n q m k : Nat} {base : Bytes}

theorem Apart.symm (h : Apart p n q m) : Apart q m p n := by
  unfold Apart at h ⊢
  omega

theorem Apart.mono {p' n' q' m' : Nat} (h : Apart p n q m) (left : p ≤ p')
    (leftEnd : p' + n' ≤ p + n) (right : q ≤ q') (rightEnd : q' + m' ≤ q + m) :
    Apart p' n' q' m' := by
  unfold Apart at h ⊢
  omega

/-- Areas of a slice: where each begins, how long it is, and which names are in use. -/
structure Carving (ι : Type) where
  pos : ι → Nat
  len : ι → Nat
  valid : ι → Prop
  apart : ∀ a b, valid a → valid b → a ≠ b → Apart (pos a) (len a) (pos b) (len b)

namespace Carving

variable {ι : Type} (C : Carving ι)

/-- Every area lies in the first `n` bytes. -/
def Fits (n : Nat) : Prop := ∀ a, C.valid a → C.pos a + C.len a ≤ n

open Classical in
/-- The contents of the areas. Past its end an area reads as zero, and so does a name that
is not in use, so that two slices with the same areas have the same view. -/
noncomputable def view (d : Bytes) (a : ι) : Bytes :=
  if C.valid a then ⟨C.len a, fun k => if k < C.len a then d.get (C.pos a + k) else 0⟩
  else ⟨0, fun _ => 0⟩

variable {C} {d : Bytes} {a b : ι}

theorem view_of_valid (valid : C.valid a) :
    C.view d a = ⟨C.len a, fun k => if k < C.len a then d.get (C.pos a + k) else 0⟩ :=
  if_pos valid

theorem len_view (valid : C.valid a) : (C.view d a).len = C.len a := by
  rw [view_of_valid valid]

theorem get_view (valid : C.valid a) (inside : k < C.len a) :
    (C.view d a).get k = d.get (C.pos a + k) := by
  rw [view_of_valid valid]
  exact if_pos inside

theorem u16_view (valid : C.valid a) (inside : k + 2 ≤ C.len a) :
    (C.view d a).u16 k = d.u16 (C.pos a + k) := by
  unfold Bytes.u16
  rw [get_view valid (by omega), get_view valid (by omega), add_assoc]

theorem u32_view (valid : C.valid a) (inside : k + 4 ≤ C.len a) :
    (C.view d a).u32 k = d.u32 (C.pos a + k) := by
  unfold Bytes.u32
  rw [u16_view valid (by omega), u16_view valid (by omega), add_assoc]

theorem listView_view (valid : C.valid a) (inside : k + n ≤ C.len a) :
    (C.view d a).view k n = d.view (C.pos a + k) n := by
  unfold Bytes.view
  apply List.map_congr_left
  intro j hj
  have small := List.mem_range.mp hj
  rw [get_view valid (by omega), add_assoc]

theorem view_put [DecidableEq ι] {o n : Nat} (f : Nat → UInt8) (valid : C.valid a)
    (inside : o + n ≤ C.len a) :
    C.view (d.put (C.pos a + o) n f) = Function.update (C.view d) a ((C.view d a).put o n f) := by
  funext b
  by_cases same : b = a
  · subst same
    rw [Function.update_self]
    refine Bytes.ext_get ?_ fun k => ?_
    · rw [Bytes.len_put, len_view valid, len_view valid]
    by_cases small : k < C.len b
    · rw [get_view valid small]
      unfold Bytes.put
      dsimp only
      rw [get_view valid small]
      congr 1
      · exact propext (by omega)
      · congr 1
        omega
    · rw [view_of_valid valid, view_of_valid valid, Bytes.get_put_outside f (by omega)]
      simp only [if_neg small]
  · rw [Function.update_of_ne same]
    by_cases validB : C.valid b
    · have apart := C.apart a b valid validB (Ne.symm same)
      rw [view_of_valid validB, view_of_valid validB]
      congr 1
      funext k
      split
      · rename_i small
        rw [Bytes.get_put_outside f (by unfold Apart at apart; omega)]
      · rfl
    · unfold view
      rw [if_neg validB, if_neg validB]

variable (C) in
/-- Position `i` is in no area. -/
def Outside (i : Nat) : Prop := ∀ a, C.valid a → i < C.pos a ∨ C.pos a + C.len a ≤ i

variable (C) in
/-- The slice `d` is `base` with the contents `m` in its areas. -/
structure Holds (base d : Bytes) (m : ι → Bytes) : Prop where
  len : d.len = base.len
  rest : ∀ i, C.Outside i → d.get i = base.get i
  view : C.view d = m

theorem Holds.self (base : Bytes) : C.Holds base base (C.view base) := ⟨rfl, fun _ _ => rfl, rfl⟩

theorem Holds.u16 {m : ι → Bytes} (holds : C.Holds base d m)
    (valid : C.valid a) (inside : k + 2 ≤ C.len a) : d.u16 (C.pos a + k) = (m a).u16 k := by
  rw [← holds.view, u16_view valid inside]

theorem Holds.u32 {m : ι → Bytes} (holds : C.Holds base d m)
    (valid : C.valid a) (inside : k + 4 ≤ C.len a) : d.u32 (C.pos a + k) = (m a).u32 k := by
  rw [← holds.view, u32_view valid inside]

theorem Holds.get {m : ι → Bytes} (holds : C.Holds base d m)
    (valid : C.valid a) (inside : k < C.len a) : d.get (C.pos a + k) = (m a).get k := by
  rw [← holds.view, get_view valid inside]

theorem Holds.listView {m : ι → Bytes} (holds : C.Holds base d m)
    (valid : C.valid a) (inside : k + n ≤ C.len a) : d.view (C.pos a + k) n = (m a).view k n := by
  rw [← holds.view, listView_view valid inside]

theorem Holds.put [DecidableEq ι] {m : ι → Bytes} (holds : C.Holds base d m)
    {o : Nat} (f : Nat → UInt8) (valid : C.valid a) (inside : o + n ≤ C.len a) :
    C.Holds base (d.put (C.pos a + o) n f) (Function.update m a ((m a).put o n f)) where
  len := holds.len
  rest := by
    intro i outside
    have := outside a valid
    rw [Bytes.get_put_outside f (by omega)]
    exact holds.rest i outside
  view := by
    rw [view_put f valid inside, holds.view]

theorem Holds.unique {d' : Bytes} {m : ι → Bytes} (holds : C.Holds base d m)
    (holds' : C.Holds base d' m) : d = d' := by
  refine Bytes.ext_get (holds.len.trans holds'.len.symm) fun i => ?_
  by_cases outside : C.Outside i
  · rw [holds.rest i outside, holds'.rest i outside]
  · simp only [Outside, not_forall, not_or, not_lt, not_le] at outside
    obtain ⟨a, valid, lower, upper⟩ := outside
    have small : i - C.pos a < C.len a := by omega
    have place : C.pos a + (i - C.pos a) = i := by omega
    calc d.get i = d.get (C.pos a + (i - C.pos a)) := by rw [place]
      _ = (m a).get (i - C.pos a) := holds.get valid small
      _ = d'.get (C.pos a + (i - C.pos a)) := (holds'.get valid small).symm
      _ = d'.get i := by rw [place]

end Carving

end Zaytos
