import Mathlib.Order.Basic

set_option autoImplicit false

/-! Things in use and the places that point to them.

Every thing in use that may have an owner has exactly one place pointing to it, and no place
points to anything else. Places can be filled with things that were free, and emptied again,
any number at a time. -/
namespace Zaytos

variable {ι β : Type}

/-- The places point to exactly the owned things in use, each to a different one. -/
structure Owns (owned used : β → Prop) (points : ι → Option β) : Prop where
  hits : ∀ i b, points i = some b → owned b ∧ used b
  inj : ∀ i j b, points i = some b → points j = some b → i = j
  onto : ∀ b, owned b → used b → ∃ i, points i = some b

namespace Owns

variable {owned used used' : β → Prop} {points points' : ι → Option β}

theorem extend (owns : Owns owned used points) (P : ι → Prop)
    (same : ∀ i, ¬ P i → points' i = points i) (empty : ∀ i, P i → points i = none)
    (fresh : ∀ i b, P i → points' i = some b → owned b ∧ ¬ used b)
    (distinct : ∀ i j b, P i → P j → points' i = some b → points' j = some b → i = j)
    (grown : ∀ b, owned b → (used' b ↔ used b ∨ ∃ i, P i ∧ points' i = some b)) :
    Owns owned used' points' where
  hits i b point := by
    by_cases new : P i
    · have free := fresh i b new point
      exact ⟨free.1, (grown b free.1).mpr (.inr ⟨i, new, point⟩)⟩
    · have old := owns.hits i b (by rwa [← same i new])
      exact ⟨old.1, (grown b old.1).mpr (.inl old.2)⟩
  inj i j b pointI pointJ := by
    by_cases newI : P i
    · by_cases newJ : P j
      · exact distinct i j b newI newJ pointI pointJ
      · rw [same j newJ] at pointJ
        exact absurd (owns.hits j b pointJ).2 (fresh i b newI pointI).2
    · rw [same i newI] at pointI
      by_cases newJ : P j
      · exact absurd (owns.hits i b pointI).2 (fresh j b newJ pointJ).2
      · rw [same j newJ] at pointJ
        exact owns.inj i j b pointI pointJ
  onto b isOwned isUsed := by
    rcases (grown b isOwned).mp isUsed with old | ⟨i, -, point⟩
    · obtain ⟨i, point⟩ := owns.onto b isOwned old
      have notNew : ¬ P i := by
        intro new
        rw [empty i new] at point
        cases point
      exact ⟨i, by rw [same i notNew, point]⟩
    · exact ⟨i, point⟩

theorem shrink (owns : Owns owned used points) (P : ι → Prop)
    (same : ∀ i, ¬ P i → points' i = points i) (emptied : ∀ i, P i → points' i = none)
    (left : ∀ b, owned b → (used' b ↔ used b ∧ ∀ i, P i → points i ≠ some b)) :
    Owns owned used' points' where
  hits i b point := by
    have notGone : ¬ P i := by
      intro gone
      rw [emptied i gone] at point
      cases point
    rw [same i notGone] at point
    obtain ⟨isOwned, isUsed⟩ := owns.hits i b point
    refine ⟨isOwned, (left b isOwned).mpr ⟨isUsed, fun j gone pointJ => ?_⟩⟩
    exact notGone (owns.inj i j b point pointJ ▸ gone)
  inj i j b pointI pointJ := by
    have notGone : ∀ x, points' x = some b → ¬ P x := by
      intro x point gone
      rw [emptied x gone] at point
      cases point
    rw [same i (notGone i pointI)] at pointI
    rw [same j (notGone j pointJ)] at pointJ
    exact owns.inj i j b pointI pointJ
  onto b isOwned isUsed := by
    obtain ⟨wasUsed, notGone⟩ := (left b isOwned).mp isUsed
    obtain ⟨i, point⟩ := owns.onto b isOwned wasUsed
    exact ⟨i, by rw [same i fun gone => notGone i gone point, point]⟩

theorem congr (owns : Owns owned used points) (same : ∀ i, points' i = points i)
    (bits : ∀ b, owned b → (used' b ↔ used b)) : Owns owned used' points' :=
  owns.shrink (fun _ => False) (fun i _ => same i) (fun _ no => no.elim)
    (fun b isOwned => (bits b isOwned).trans (iff_of_eq (by simp)))

end Owns

end Zaytos
