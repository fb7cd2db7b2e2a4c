import Mathlib.Data.List.Infix

set_option autoImplicit false

/-! Lists of lines that bind a name to a value, with a separator between the two. The first line
that binds a name decides. -/
namespace Zaytos.Bindings

variable {α : Type} [DecidableEq α]

def binds (sep : α) (name line : List α) : Bool := (name ++ [sep]).isPrefixOf line

def valueOf (sep : α) (name : List α) (lines : List (List α)) : Option (List α) :=
  (lines.find? (binds sep name)).map (List.drop (name.length + 1))

/-- The line in the place of the first one that binds the name, or behind all the others. -/
def rebind (sep : α) (name line : List α) : List (List α) → List (List α)
  | [] => [line]
  | first :: rest =>
    if binds sep name first then line :: rest else first :: rebind sep name line rest

variable {sep : α} {name other line value : List α}

theorem binds_iff : binds sep name line = true ↔ ∃ value, line = name ++ sep :: value := by
  rw [binds, List.isPrefixOf_iff_prefix]
  constructor
  · intro part
    obtain ⟨value, eq⟩ := part
    exact ⟨value, by rw [← eq, List.append_assoc]; rfl⟩
  · intro found
    obtain ⟨value, eq⟩ := found
    exact ⟨value, by rw [eq, List.append_assoc]; rfl⟩

theorem binds_append (sep : α) (name value : List α) :
    binds sep name (name ++ sep :: value) = true :=
  binds_iff.mpr ⟨value, rfl⟩

theorem binds_other (binding : binds sep name line = true) (plain : sep ∉ name) (ne : other ≠ name)
    (apart : ¬ name ++ [sep] <+: other) : binds sep other line = false := by
  rw [Bool.eq_false_iff]
  intro both
  rw [binds, List.isPrefixOf_iff_prefix] at binding both
  rcases List.prefix_or_prefix_of_prefix binding both with longer | shorter
  · rcases List.prefix_concat_iff.mp longer with same | inside
    · exact ne (List.append_cancel_right same).symm
    · exact apart inside
  · rcases List.prefix_concat_iff.mp shorter with same | inside
    · exact ne (List.append_cancel_right same)
    · exact plain (inside.subset (by simp))

theorem rebind_of_findIdx?_none {lines : List (List α)}
    (absent : lines.findIdx? (binds sep name) = none) :
    rebind sep name line lines = lines ++ [line] := by
  induction lines with
  | nil => rfl
  | cons first rest ih =>
    rw [List.findIdx?_cons] at absent
    by_cases here : binds sep name first = true
    · simp [here] at absent
    · rw [if_neg here, Option.map_eq_none_iff] at absent
      rw [rebind, if_neg here, ih absent]
      rfl

theorem rebind_of_findIdx?_some {lines : List (List α)} {i : Nat}
    (found : lines.findIdx? (binds sep name) = some i) :
    rebind sep name line lines = lines.set i line := by
  induction lines generalizing i with
  | nil => simp at found
  | cons first rest ih =>
    rw [List.findIdx?_cons] at found
    by_cases here : binds sep name first = true
    · rw [if_pos here] at found
      cases found
      rw [rebind, if_pos here]
      rfl
    · rw [if_neg here, Option.map_eq_some_iff] at found
      obtain ⟨j, found, rfl⟩ := found
      rw [rebind, if_neg here, ih found]
      rfl

theorem valueOf_rebind_self (lines : List (List α)) :
    valueOf sep name (rebind sep name (name ++ sep :: value) lines) = some value := by
  have found : (rebind sep name (name ++ sep :: value) lines).find? (binds sep name) =
      some (name ++ sep :: value) := by
    induction lines with
    | nil => simp [rebind, binds_append]
    | cons first rest ih =>
      rw [rebind]
      split
      case isTrue => simp [binds_append]
      case isFalse here => simpa [here] using ih
  rw [valueOf, found]
  simp

theorem valueOf_rebind_other (binding : binds sep name line = true) (plain : sep ∉ name)
    (ne : other ≠ name) (apart : ¬ name ++ [sep] <+: other) (lines : List (List α)) :
    valueOf sep other (rebind sep name line lines) = valueOf sep other lines := by
  have skip := binds_other binding plain ne apart
  apply congrArg (Option.map _)
  induction lines with
  | nil => simp [rebind, skip]
  | cons first rest ih =>
    rw [rebind]
    split
    case isTrue here => simp [skip, binds_other here plain ne apart]
    case isFalse here =>
      rw [List.find?_cons, List.find?_cons, ih]

end Zaytos.Bindings
