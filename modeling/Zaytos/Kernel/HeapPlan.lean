import Zaytos.Lib.Checked
import Zaytos.Lib.Exec
import Mathlib.Data.Nat.Bitwise

set_option autoImplicit false

/-! Where an allocation goes in a free block, and which free blocks join. -/
namespace Zaytos.Kernel

structure AllocPlan where
  headerAddr : Nat
  userAddr : Nat
  blockStart : Nat
  blockSize : Nat
  trailingSplit : Option (Nat × Nat)
  deriving DecidableEq, Repr

/-- `align_up`: the bits of `align - 1` are cleared after it was added. -/
def alignUp (addr align : Nat) : Option Nat := do
  let sum ← add64 addr align
  let mask ← sub align 1
  return (sum - 1) &&& (2 ^ 64 - 1 - mask)

/-- `plan_allocation`. The error stands for `None`. -/
def planAllocation (regionStart regionEnd headerSize headerAlign requestedSize requestedAlign
    minBlockSize : Nat) : Result Unit AllocPlan := do
  let effectiveAlign := max requestedAlign headerAlign
  Result.rejectIf (2 ^ 64 ≤ regionStart + headerSize) ()
  let userAddr ← alignUp (regionStart + headerSize) effectiveAlign
  Result.rejectIf (userAddr < headerSize) ()
  let headerAddr := userAddr - headerSize
  -- `debug_assert!`
  if headerAddr < regionStart then Result.fault
  else
    Result.rejectIf (2 ^ 64 ≤ userAddr + requestedSize) ()
    let allocEnd ← alignUp (userAddr + requestedSize) headerAlign
    Result.rejectIf (regionEnd < allocEnd) ()
    let leftover := regionEnd - allocEnd
    if minBlockSize ≤ leftover then
      return { headerAddr, userAddr, blockStart := regionStart, blockSize := allocEnd - regionStart,
               trailingSplit := some (allocEnd, leftover) }
    else
      return { headerAddr, userAddr, blockStart := regionStart, blockSize := regionEnd - regionStart,
               trailingSplit := none }

/-- `merge_adjacent`. It has no answer when an end or the sum of the sizes overflows. -/
def mergeAdjacent (aStart aSize bStart bSize : Nat) : Option (Option (Nat × Nat)) := do
  let aEnd ← add64 aStart aSize
  if aEnd = bStart then
    let size ← add64 aSize bSize
    return some (aStart, size)
  else
    let bEnd ← add64 bStart bSize
    if bEnd = aStart then
      let size ← add64 aSize bSize
      return some (bStart, size)
    else return none

theorem and_mask {x k : Nat} (small : x < 2 ^ 64) (fits : 2 ^ k ≤ 2 ^ 64) :
    x &&& (2 ^ 64 - 1 - (2 ^ k - 1)) = x / 2 ^ k * 2 ^ k := by
  have pos : 0 < 2 ^ k := Nat.two_pow_pos k
  apply Nat.eq_of_testBit_eq
  intro i
  rw [Nat.testBit_and, show 2 ^ 64 - 1 - (2 ^ k - 1) = 2 ^ 64 - (2 ^ k - 1 + 1) by omega,
    Nat.testBit_two_pow_sub_succ (by omega), Nat.testBit_two_pow_sub_one,
    Nat.testBit_mul_two_pow, Nat.testBit_div_two_pow]
  by_cases low : k ≤ i
  · rw [Nat.sub_add_cancel low]
    by_cases high : i < 64
    · simp [high, low]
    · have zero : x.testBit i = false := Nat.testBit_lt_two_pow
        (lt_of_lt_of_le small (Nat.pow_le_pow_right (by omega) (by omega)))
      simp [zero]
  · simp [low, Nat.lt_of_not_le low]

theorem alignUp_eq_some {addr k r : Nat} (up : alignUp addr (2 ^ k) = some r) :
    2 ^ k ∣ r ∧ addr ≤ r ∧ r < addr + 2 ^ k ∧ addr + 2 ^ k < 2 ^ 64 := by
  have pos : 0 < 2 ^ k := Nat.two_pow_pos k
  simp only [alignUp, Option.bind_eq_bind, Option.bind_eq_some_iff, add64_eq_some, sub_eq_some,
    Option.pure_def, Option.some.injEq] at up
  obtain ⟨_, ⟨fits, rfl⟩, _, ⟨_, rfl⟩, rfl⟩ := up
  rw [and_mask (by omega) (by omega)]
  have split := Nat.div_add_mod (addr + 2 ^ k - 1) (2 ^ k)
  have low := Nat.mod_lt (addr + 2 ^ k - 1) pos
  rw [mul_comm] at split
  exact ⟨Nat.dvd_mul_left _ _, by omega, by omega, fits⟩

theorem dvd_max_two_pow (j k : Nat) : 2 ^ j ∣ max (2 ^ j) (2 ^ k) ∧ 2 ^ k ∣ max (2 ^ j) (2 ^ k) := by
  rcases Nat.le_total j k with le | le
  · rw [Nat.max_eq_right (Nat.pow_le_pow_right (by omega) le)]
    exact ⟨Nat.pow_dvd_pow 2 le, Nat.dvd_refl _⟩
  · rw [Nat.max_eq_left (Nat.pow_le_pow_right (by omega) le)]
    exact ⟨Nat.dvd_refl _, Nat.pow_dvd_pow 2 le⟩

theorem max_two_pow (j k : Nat) : ∃ i, max (2 ^ j) (2 ^ k) = 2 ^ i := by
  rcases Nat.le_total (2 ^ j) (2 ^ k) with le | le
  · exact ⟨k, Nat.max_eq_right le⟩
  · exact ⟨j, Nat.max_eq_left le⟩

/-- A plan that keeps to the free block from `regionStart` to `regionEnd`. -/
structure Planned (regionStart regionEnd requestedSize requestedAlign : Nat) (plan : AllocPlan) :
    Prop where
  blockStart : plan.blockStart = regionStart
  header : plan.headerAddr + 32 = plan.userAddr
  gap : regionStart ≤ plan.headerAddr
  asked : requestedAlign ∣ plan.userAddr
  words : 8 ∣ plan.userAddr
  room : plan.userAddr + requestedSize ≤ plan.blockStart + plan.blockSize
  split : (plan.trailingSplit = none ∧ plan.blockStart + plan.blockSize = regionEnd) ∨
    ∃ s, plan.trailingSplit = some (s, regionEnd - s) ∧ plan.blockStart + plan.blockSize = s ∧
      8 ∣ s ∧ s + 16 ≤ regionEnd

theorem planAllocation_ok {regionStart regionEnd requestedSize k : Nat} {plan : AllocPlan}
    (planned : planAllocation regionStart regionEnd 32 8 requestedSize (2 ^ k) 16 = .ok plan) :
    Planned regionStart regionEnd requestedSize (2 ^ k) plan := by
  obtain ⟨i, effective⟩ := max_two_pow k 3
  obtain ⟨asked, words⟩ := dvd_max_two_pow k 3
  rw [effective] at asked words
  simp only [planAllocation, show (8 : Nat) = 2 ^ 3 from rfl, effective] at planned
  rw [Result.rejectIf_bind_eq_ok, Result.bind_eq_ok] at planned
  obtain ⟨_, userAddr, user, planned⟩ := planned
  obtain ⟨userAligned, above, _, _⟩ := alignUp_eq_some (Result.lift_eq_ok.mp user)
  rw [Result.rejectIf_bind_eq_ok] at planned
  obtain ⟨_, planned⟩ := planned
  split at planned
  · cases planned
  rw [Result.rejectIf_bind_eq_ok, Result.bind_eq_ok] at planned
  obtain ⟨_, allocEnd, ends, planned⟩ := planned
  obtain ⟨endAligned, past, _, _⟩ := alignUp_eq_some (Result.lift_eq_ok.mp ends)
  rw [Result.rejectIf_bind_eq_ok] at planned
  obtain ⟨inside, planned⟩ := planned
  split at planned
  · rename_i large
    cases planned
    refine ⟨rfl, by dsimp only; omega, by dsimp only; omega, asked.trans userAligned,
      words.trans userAligned, by dsimp only; omega, .inr ⟨allocEnd, rfl, by dsimp only; omega,
        endAligned, by omega⟩⟩
  · cases planned
    refine ⟨rfl, by dsimp only; omega, by dsimp only; omega, asked.trans userAligned,
      words.trans userAligned, by dsimp only; omega, .inl ⟨rfl, by dsimp only; omega⟩⟩

theorem mergeAdjacent_before {aStart aSize bStart bSize : Nat} {merged : Option (Nat × Nat)}
    (merge : mergeAdjacent aStart aSize bStart bSize = some merged) (order : aStart < bStart) :
    (aStart + aSize = bStart ∧ merged = some (aStart, aSize + bSize)) ∨
    (aStart + aSize ≠ bStart ∧ merged = none) := by
  simp only [mergeAdjacent, Option.bind_eq_bind, Option.bind_eq_some_iff, add64_eq_some] at merge
  obtain ⟨_, ⟨_, rfl⟩, merge⟩ := merge
  split at merge
  · rename_i touches
    rw [Option.bind_eq_some_iff] at merge
    obtain ⟨_, sum, merge⟩ := merge
    rw [add64_eq_some] at sum
    obtain ⟨_, rfl⟩ := sum
    exact .inl ⟨touches, (Option.some.inj merge).symm⟩
  · rename_i apart
    rw [Option.bind_eq_some_iff] at merge
    obtain ⟨_, sum, merge⟩ := merge
    rw [add64_eq_some] at sum
    obtain ⟨_, rfl⟩ := sum
    rw [if_neg (by omega)] at merge
    exact .inr ⟨apart, (Option.some.inj merge).symm⟩

end Zaytos.Kernel
