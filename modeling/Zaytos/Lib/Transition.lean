import Mathlib.Order.Basic

set_option autoImplicit false

/-! Runs of a system that takes one step after another. -/
namespace Zaytos

variable {σ α : Type}

/-- The states that steps lead to from `init`. A step that is not possible in a state has no
outcome there. -/
inductive Reachable (step : σ → α → Option σ) (init : σ) : σ → Prop
  | refl : Reachable step init init
  | step {s t : σ} (a : α) (reach : Reachable step init s) (next : step s a = some t) :
      Reachable step init t

theorem Reachable.invariant {step : σ → α → Option σ} {init s : σ} {P : σ → Prop}
    (start : P init) (keeps : ∀ s a t, P s → step s a = some t → P t)
    (reach : Reachable step init s) : P s := by
  induction reach with
  | refl => exact start
  | step a _ next ih => exact keeps _ a _ ih next

theorem Reachable.mono {step more : σ → α → Option σ} {init s : σ}
    (fewer : ∀ s a t, step s a = some t → more s a = some t) (reach : Reachable step init s) :
    Reachable more init s :=
  reach.invariant .refl fun _ a _ reach next => reach.step a (fewer _ _ _ next)

def runSteps (step : σ → α → Option σ) : List α → σ → Option σ
  | [], s => some s
  | a :: rest, s => (step s a).bind (runSteps step rest)

theorem Reachable.of_runSteps {step : σ → α → Option σ} {init s : σ} (actions : List α) {t : σ}
    (reach : Reachable step init s) (run : runSteps step actions s = some t) :
    Reachable step init t := by
  induction actions generalizing s with
  | nil => exact Option.some.inj run ▸ reach
  | cons a rest ih =>
    obtain ⟨middle, next, run⟩ := Option.bind_eq_some_iff.mp run
    exact ih (.step a reach next) run

theorem Reachable.last_step {step : σ → α → Option σ} {init s : σ} {β : Type} (actions : List α)
    {a : α} {see : σ → σ → β} {x : β} (reach : Reachable step init s)
    (run : ((runSteps step actions s).bind fun k => (step k a).map (see k)) = some x) :
    ∃ k t, Reachable step init k ∧ step k a = some t ∧ see k t = x := by
  obtain ⟨k, run, stepped⟩ := Option.bind_eq_some_iff.mp run
  obtain ⟨t, next, seen⟩ := Option.map_eq_some_iff.mp stepped
  exact ⟨k, t, reach.of_runSteps actions run, next, seen⟩

end Zaytos
