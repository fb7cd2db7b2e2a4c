import Mathlib.Order.Basic
import Mathlib.Tactic.Ring

set_option autoImplicit false

/-! Machine arithmetic on naturals: `none` where the operation overflows its width, borrows
or divides by zero. -/
namespace Zaytos

def add32 (a b : Nat) : Option Nat := if a + b < 2 ^ 32 then some (a + b) else none
def mul32 (a b : Nat) : Option Nat := if a * b < 2 ^ 32 then some (a * b) else none
def add64 (a b : Nat) : Option Nat := if a + b < 2 ^ 64 then some (a + b) else none
def mul64 (a b : Nat) : Option Nat := if a * b < 2 ^ 64 then some (a * b) else none
def sub (a b : Nat) : Option Nat := if b ≤ a then some (a - b) else none
def div (a b : Nat) : Option Nat := if b = 0 then none else some (a / b)
def rem (a b : Nat) : Option Nat := if b = 0 then none else some (a % b)

/-- `div_ceil`, on a divisor that the caller has checked. -/
def divCeil (a b : Nat) : Nat := (a + b - 1) / b

variable {a b : Nat}

theorem add32_of_lt (h : a + b < 2 ^ 32) : add32 a b = some (a + b) := if_pos h
theorem mul32_of_lt (h : a * b < 2 ^ 32) : mul32 a b = some (a * b) := if_pos h
theorem add64_of_lt (h : a + b < 2 ^ 64) : add64 a b = some (a + b) := if_pos h
theorem mul64_of_lt (h : a * b < 2 ^ 64) : mul64 a b = some (a * b) := if_pos h
theorem sub_of_le (h : b ≤ a) : sub a b = some (a - b) := if_pos h
theorem div_of_ne (h : b ≠ 0) : div a b = some (a / b) := if_neg h
theorem rem_of_ne (h : b ≠ 0) : rem a b = some (a % b) := if_neg h

theorem add32_eq_some {c : Nat} : add32 a b = some c ↔ a + b < 2 ^ 32 ∧ c = a + b := by
  unfold add32
  split <;> simp_all [eq_comm]

theorem mul32_eq_some {c : Nat} : mul32 a b = some c ↔ a * b < 2 ^ 32 ∧ c = a * b := by
  unfold mul32
  split <;> simp_all [eq_comm]

theorem add64_eq_some {c : Nat} : add64 a b = some c ↔ a + b < 2 ^ 64 ∧ c = a + b := by
  unfold add64
  split <;> simp_all [eq_comm]

theorem mul64_eq_some {c : Nat} : mul64 a b = some c ↔ a * b < 2 ^ 64 ∧ c = a * b := by
  unfold mul64
  split <;> simp_all [eq_comm]

theorem sub_eq_some {c : Nat} : sub a b = some c ↔ b ≤ a ∧ c = a - b := by
  unfold sub
  split <;> simp_all [eq_comm]

theorem divCeil_mul (k : Nat) (pos : 0 < b) : divCeil (k * b) b = k := by
  unfold divCeil
  rw [Nat.div_eq_of_lt_le]
  · omega
  · rw [Nat.succ_mul]
    omega

theorem divCeil_le_iff {k : Nat} (pos : 0 < b) : divCeil a b ≤ k ↔ a ≤ k * b := by
  unfold divCeil
  rw [Nat.div_le_iff_le_mul_add_pred pos, mul_comm b k]
  omega

theorem lt_divCeil_iff {k : Nat} (pos : 0 < b) : k < divCeil a b ↔ k * b < a := by
  rw [← not_le, divCeil_le_iff pos, not_le]

theorem divCeil_eq_div (pos : 0 < b) (multiple : b ∣ a) : divCeil a b = a / b := by
  obtain ⟨k, rfl⟩ := multiple
  rw [mul_comm, divCeil_mul k pos, Nat.mul_div_cancel k pos]

theorem divCeil_le_of_le {c : Nat} (pos : 0 < b) (le : a ≤ c) : divCeil a b ≤ divCeil c b :=
  (divCeil_le_iff pos).mpr (le_trans le ((divCeil_le_iff pos).mp (le_rfl)))

@[simp] theorem divCeil_zero (pos : 0 < b) : divCeil 0 b = 0 := by
  unfold divCeil
  exact Nat.div_eq_of_lt (by omega)

end Zaytos
