import Mathlib.Data.List.Perm.Basic
import Mathlib.Data.List.Range
import Mathlib.Logic.Function.Basic

set_option autoImplicit false

/-! Trees of tables in a store: a walk goes from a table to the one that its entry leads to, one
height lower each time, until an entry leads nowhere. -/
namespace Zaytos

abbrev Store (I E : Type) := Nat → I → E

/-- How entries are understood, by the height of the table they are in: the table they lead to, what
a walk that ends there comes to, and what an entry on the way makes of that. -/
structure Radix (E R : Type) where
  link : Nat → E → Option Nat
  read : Nat → E → R
  pass : Nat → E → R → R

namespace Radix

variable {I E R : Type} (F : Radix E R) (m : Store I E) (path : Nat → I)

/-- From a table at a height, by the index that the path has for each height. -/
def walk : Nat → Nat → R
  | 0, t => F.read 0 (m t (path 0))
  | h + 1, t =>
    match F.link (h + 1) (m t (path (h + 1))) with
    | some child => F.pass (h + 1) (m t (path (h + 1))) (walk h child)
    | none => F.read (h + 1) (m t (path (h + 1)))

/-- The walk from `t` at height `h` comes to `u` at height `k`. -/
inductive Leads : Nat → Nat → Nat → Nat → Prop
  | here (h t : Nat) : Leads h t h t
  | down {h t child k u : Nat} (link : F.link (h + 1) (m t (path (h + 1))) = some child)
      (rest : Leads h child k u) : Leads (h + 1) t k u

variable {F m path} {m' : Store I E} {path' : Nat → I} {h t k u j v : Nat}

theorem walk_some {child : Nat} (link : F.link (h + 1) (m t (path (h + 1))) = some child) :
    F.walk m path (h + 1) t = F.pass (h + 1) (m t (path (h + 1))) (F.walk m path h child) := by
  rw [walk, link]

theorem walk_none (link : F.link (h + 1) (m t (path (h + 1))) = none) :
    F.walk m path (h + 1) t = F.read (h + 1) (m t (path (h + 1))) := by
  rw [walk, link]

theorem Leads.le (leads : F.Leads m path h t k u) : k ≤ h := by
  induction leads with
  | here => exact le_rfl
  | down _ _ ih => exact ih.trans (Nat.le_succ _)

theorem Leads.trans (leads : F.Leads m path h t j v) (more : F.Leads m path j v k u) :
    F.Leads m path h t k u := by
  induction leads with
  | here => exact more
  | down link _ ih => exact .down link (ih more)

theorem Leads.child (leads : F.Leads m path h t (k + 1) u) {child : Nat}
    (link : F.link (k + 1) (m u (path (k + 1))) = some child) : F.Leads m path h t k child :=
  leads.trans (.down link (.here _ _))

theorem Leads.walk_view {S : Type} {view : R → S} (kept : ∀ i e r, view (F.pass i e r) = view r)
    (leads : F.Leads m path h t k u) : view (F.walk m path h t) = view (F.walk m path k u) := by
  induction leads with
  | here => rfl
  | down link _ ih => rw [walk_some link, kept, ih]

theorem walk_congr (same : ∀ k u, F.Leads m path h t k u → m' u (path' k) = m u (path k)) :
    F.walk m' path' h t = F.walk m path h t := by
  induction h generalizing t with
  | zero => rw [walk, walk, same 0 t (.here _ _)]
  | succ h ih =>
    have first := same (h + 1) t (.here _ _)
    cases link : F.link (h + 1) (m t (path (h + 1))) with
    | none => rw [walk_none link, walk_none (first ▸ link), first]
    | some child =>
      rw [walk_some link, walk_some (first ▸ link), first,
        ih fun k u leads => same k u (.down link leads)]

theorem Leads.congr (leads : F.Leads m path h t k u)
    (same : ∀ j v, k < j → F.Leads m path h t j v → m' v (path j) = m v (path j)) :
    F.Leads m' path h t k u := by
  induction leads with
  | here => exact .here _ _
  | down link rest ih =>
    refine .down ?_ (ih fun j v above leads => same j v above (.down link leads))
    rw [same _ _ (Nat.lt_succ_of_le rest.le) (.here _ _)]
    exact link

structure Edit (m m' : Store I E) (p : Nat) (i : I) (fresh : Nat → Prop) : Prop where
  same : ∀ u j, (u ≠ p ∨ j ≠ i) → ¬fresh u → m' u j = m u j

section Edit

variable {p : Nat} {i : I} {fresh : Nat → Prop}

theorem Edit.walk_rel {rel : R → R → Prop} (refl : ∀ r, rel r r)
    (up : ∀ n e r r', rel r r' → rel (F.pass n e r) (F.pass n e r')) (edit : Edit m m' p i fresh)
    (clear : ∀ k u, F.Leads m path h t k u → ¬fresh u)
    (there : ∀ k, F.Leads m path h t k p → path k = i →
      rel (F.walk m' path k p) (F.walk m path k p)) :
    rel (F.walk m' path h t) (F.walk m path h t) := by
  induction h generalizing t with
  | zero =>
    by_cases changed : t = p ∧ path 0 = i
    · obtain ⟨rfl, index⟩ := changed
      exact there 0 (.here _ _) index
    · rw [Radix.walk, Radix.walk, edit.same t (path 0) (by tauto) (clear 0 t (.here _ _))]
      exact refl _
  | succ h ih =>
    by_cases changed : t = p ∧ path (h + 1) = i
    · obtain ⟨rfl, index⟩ := changed
      exact there (h + 1) (.here _ _) index
    · have first := edit.same t (path (h + 1)) (by tauto) (clear (h + 1) t (.here _ _))
      cases link : F.link (h + 1) (m t (path (h + 1))) with
      | none =>
        rw [walk_none link, walk_none (first ▸ link), first]
        exact refl _
      | some child =>
        rw [walk_some link, walk_some (first ▸ link), first]
        exact up _ _ _ _ (ih (fun k u leads => clear k u (.down link leads))
          fun k leads => there k (.down link leads))

theorem Edit.walk (edit : Edit m m' p i fresh) (clear : ∀ k u, F.Leads m path h t k u → ¬fresh u)
    (there : ∀ k, F.Leads m path h t k p → path k = i → F.walk m' path k p = F.walk m path k p) :
    F.walk m' path h t = F.walk m path h t :=
  edit.walk_rel (fun _ => rfl) (fun n e _ _ => congrArg (F.pass n e)) clear there

theorem Edit.leads (edit : Edit m m' p i fresh) (clear : ∀ k u, F.Leads m path h t k u → ¬fresh u)
    (leads : F.Leads m path h t k u) (past : ∀ j, k < j → F.Leads m path h t j p → path j ≠ i) :
    F.Leads m' path h t k u := by
  refine leads.congr fun j v above leads => edit.same v (path j) ?_ (clear j v leads)
  by_cases eq : v = p
  · exact .inr (past j above (eq ▸ leads))
  · exact .inl eq

theorem Edit.leads_cases (edit : Edit m m' p i fresh)
    (clear : ∀ k u, F.Leads m path h t k u → ¬fresh u) (leads : F.Leads m' path h t k u) :
    F.Leads m path h t k u ∨
    ∃ j, k ≤ j ∧ F.Leads m path h t (j + 1) p ∧ path (j + 1) = i ∧
      ∃ child, F.link (j + 1) (m' p i) = some child ∧ F.Leads m' path j child k u := by
  induction leads with
  | here => exact .inl (.here _ _)
  | @down h t child k u link rest ih =>
    by_cases changed : t = p ∧ path (h + 1) = i
    · obtain ⟨rfl, rfl⟩ := changed
      exact .inr ⟨h, rest.le, .here _ _, rfl, child, link, rest⟩
    · have first := edit.same t (path (h + 1)) (by tauto) (clear (h + 1) t (.here _ _))
      rw [first] at link
      rcases ih fun k u leads => clear k u (.down link leads) with
        before | ⟨j, le, leads, index, child', link', rest'⟩
      · exact .inl (.down link before)
      · exact .inr ⟨j, le, .down link leads, index, child', link', rest'⟩

end Edit

end Radix

end Zaytos
