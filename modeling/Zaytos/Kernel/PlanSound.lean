import Zaytos.Kernel.HeapPlan

set_option autoImplicit false

/-! What a plan for an allocation promises, for all words, and when a step of it overflows. -/
namespace Zaytos.Kernel

/-- The least multiple of `align` from `addr` on. -/
def ceilTo (addr align : Nat) : Nat := (addr + align - 1) / align * align

section

variable {addr align x k : Nat}

theorem le_ceilTo (pos : 0 < align) : addr ≤ ceilTo addr align := by
  have split := Nat.div_add_mod (addr + align - 1) align
  have low := Nat.mod_lt (addr + align - 1) pos
  rw [mul_comm] at split
  rw [ceilTo]
  omega

theorem ceilTo_lt (pos : 0 < align) : ceilTo addr align < addr + align := by
  have := Nat.div_mul_le_self (addr + align - 1) align
  rw [ceilTo]
  omega

theorem dvd_ceilTo (addr align : Nat) : align ∣ ceilTo addr align := Nat.dvd_mul_left _ _

theorem ceilTo_le (above : addr ≤ x) (aligned : align ∣ x) (pos : 0 < align) :
    ceilTo addr align ≤ x := by
  have below := @ceilTo_lt addr _ pos
  by_contra beyond
  have := Nat.le_of_dvd (by omega) (Nat.dvd_sub (dvd_ceilTo addr align) aligned)
  omega

theorem alignUp_of_lt (fits : addr + 2 ^ k < 2 ^ 64) :
    alignUp addr (2 ^ k) = some (ceilTo addr (2 ^ k)) := by
  have pos : 0 < 2 ^ k := Nat.two_pow_pos k
  rw [alignUp, add64_of_lt fits, sub_of_le pos]
  exact congrArg some (and_mask (by omega) (by omega))

theorem alignUp_of_ge (overflows : 2 ^ 64 ≤ addr + 2 ^ k) : alignUp addr (2 ^ k) = none := by
  rw [alignUp, add64, if_neg (not_lt.mpr overflows)]
  rfl

end

/-- What is asked of `plan_allocation`. All numbers are words, and alignments powers of two. -/
structure PlanRequest where
  regionStart : Nat
  regionEnd : Nat
  headerSize : Nat
  headerAlign : Nat
  requestedSize : Nat
  requestedAlign : Nat
  minBlockSize : Nat
  order : regionStart ≤ regionEnd
  words : regionEnd < 2 ^ 64 ∧ headerSize < 2 ^ 64 ∧ requestedSize < 2 ^ 64 ∧ minBlockSize < 2 ^ 64
  headerPower : ∃ k < 64, headerAlign = 2 ^ k
  requestedPower : ∃ k < 64, requestedAlign = 2 ^ k

namespace PlanRequest

variable (q : PlanRequest)

def plan : Result Unit AllocPlan :=
  planAllocation q.regionStart q.regionEnd q.headerSize q.headerAlign q.requestedSize
    q.requestedAlign q.minBlockSize

/-- The plan stays inside the free block, and what it splits off is the rest of that. -/
structure Sound (plan : AllocPlan) : Prop where
  start : q.regionStart ≤ plan.headerAddr
  header : plan.headerAddr + q.headerSize = plan.userAddr
  headerAligned : q.headerAlign ∣ plan.userAddr
  aligned : q.requestedAlign ∣ plan.userAddr
  block : plan.blockStart = q.regionStart
  room : plan.userAddr + q.requestedSize ≤ plan.blockStart + plan.blockSize
  inside : plan.blockStart + plan.blockSize ≤ q.regionEnd
  split : ∀ start size, plan.trailingSplit = some (start, size) →
    start = plan.blockStart + plan.blockSize ∧ start + size = q.regionEnd ∧ q.minBlockSize ≤ size

/-- A place for the allocation in the free block, by the rule of alignment: what is returned is
aligned for the request and the header, and the end of the block for the header. -/
structure Placement (userAddr allocEnd : Nat) : Prop where
  start : q.regionStart + q.headerSize ≤ userAddr
  headerAligned : q.headerAlign ∣ userAddr
  aligned : q.requestedAlign ∣ userAddr
  endAligned : q.headerAlign ∣ allocEnd
  room : userAddr + q.requestedSize ≤ allocEnd
  inside : allocEnd ≤ q.regionEnd

def Holds : Prop := q.plan.Sat q.Sound fun _ => ∀ userAddr allocEnd, ¬q.Placement userAddr allocEnd

/-- What `plan_allocation` rounds up does not come within an alignment of the end of the words. -/
def Fits : Prop :=
  q.regionStart + q.headerSize < 2 ^ 64 →
    let align := max q.requestedAlign q.headerAlign
    let userAddr := ceilTo (q.regionStart + q.headerSize) align
    q.regionStart + q.headerSize + align < 2 ^ 64 ∧
      (userAddr + q.requestedSize < 2 ^ 64 → userAddr + q.requestedSize + q.headerAlign < 2 ^ 64)

variable {q}

theorem plan_eq {j k : Nat} (power : max q.requestedAlign q.headerAlign = 2 ^ k)
    (headerPower : q.headerAlign = 2 ^ j)
    (start : q.regionStart + q.headerSize < 2 ^ 64)
    (rounds : q.regionStart + q.headerSize + 2 ^ k < 2 ^ 64) :
    q.plan =
      let userAddr := ceilTo (q.regionStart + q.headerSize) (2 ^ k)
      if 2 ^ 64 ≤ userAddr + q.requestedSize then .err ()
      else if 2 ^ 64 ≤ userAddr + q.requestedSize + 2 ^ j then .fault
      else
        let allocEnd := ceilTo (userAddr + q.requestedSize) (2 ^ j)
        if q.regionEnd < allocEnd then .err ()
        else if q.minBlockSize ≤ q.regionEnd - allocEnd then
          .ok ⟨userAddr - q.headerSize, userAddr, q.regionStart, allocEnd - q.regionStart,
            some (allocEnd, q.regionEnd - allocEnd)⟩
        else
          .ok ⟨userAddr - q.headerSize, userAddr, q.regionStart, q.regionEnd - q.regionStart,
            none⟩ := by
  have above := @le_ceilTo (q.regionStart + q.headerSize) _ (Nat.two_pow_pos k)
  rw [plan, planAllocation, power, headerPower]
  simp only [Result.rejectIf_bind, alignUp_of_lt rounds, Result.lift_some, Result.ok_bind]
  rw [if_neg (by omega), if_neg (by omega), if_neg (by omega)]
  split
  · rfl
  · split
    · rename_i overflows
      rw [alignUp_of_ge overflows]
      rfl
    · rename_i fits
      rw [alignUp_of_lt (by omega)]
      rfl

theorem align_power (q : PlanRequest) : ∃ k, max q.requestedAlign q.headerAlign = 2 ^ k ∧
    q.requestedAlign ∣ 2 ^ k ∧ q.headerAlign ∣ 2 ^ k ∧
    ∀ x, q.requestedAlign ∣ x → q.headerAlign ∣ x → 2 ^ k ∣ x := by
  apply Exists.elim q.requestedPower
  intro i requested
  apply Exists.elim q.headerPower
  intro j header
  rw [requested.2, header.2]
  have both := dvd_max_two_pow i j
  apply Exists.elim (max_two_pow i j)
  intro k power
  rw [power] at both
  refine ⟨k, power, both.1, both.2, fun x first second => ?_⟩
  rw [← power]
  cases le_total (2 ^ i) (2 ^ j) with
  | inl le => rwa [max_eq_right le]
  | inr le => rwa [max_eq_left le]

theorem holds_of_beyond (beyond : 2 ^ 64 ≤ q.regionStart + q.headerSize) : q.Holds := by
  have words := q.words
  rw [Holds, plan, planAllocation, Result.rejectIf_bind, if_pos beyond]
  intro userAddr allocEnd place
  have start := place.start
  have room := place.room
  have inside := place.inside
  omega

theorem holds_of_fits {j k : Nat} (power : max q.requestedAlign q.headerAlign = 2 ^ k)
    (headerPower : q.headerAlign = 2 ^ j)
    (both : q.requestedAlign ∣ 2 ^ k ∧ q.headerAlign ∣ 2 ^ k)
    (common : ∀ x, q.requestedAlign ∣ x → q.headerAlign ∣ x → 2 ^ k ∣ x)
    (start : q.regionStart + q.headerSize < 2 ^ 64)
    (rounds : q.regionStart + q.headerSize + 2 ^ k < 2 ^ 64)
    (ends : ceilTo (q.regionStart + q.headerSize) (2 ^ k) + q.requestedSize < 2 ^ 64 →
      ceilTo (q.regionStart + q.headerSize) (2 ^ k) + q.requestedSize + 2 ^ j < 2 ^ 64) :
    q.Holds := by
  have words := q.words
  have above := @le_ceilTo (q.regionStart + q.headerSize) _ (Nat.two_pow_pos k)
  have least : ∀ userAddr allocEnd, q.Placement userAddr allocEnd →
      ceilTo (q.regionStart + q.headerSize) (2 ^ k) ≤ userAddr := by
    intro userAddr allocEnd place
    exact ceilTo_le place.start (common _ place.aligned place.headerAligned) (Nat.two_pow_pos k)
  have aligned := dvd_ceilTo (q.regionStart + q.headerSize) (2 ^ k)
  rw [Holds, plan_eq power headerPower start rounds]
  generalize ceilTo (q.regionStart + q.headerSize) (2 ^ k) = userAddr at *
  dsimp only
  split
  · rename_i beyond
    intro other allocEnd place
    have := least other allocEnd place
    have room := place.room
    have inside := place.inside
    omega
  · rename_i within
    rw [if_neg (by omega)]
    have past := @le_ceilTo (userAddr + q.requestedSize) _ (Nat.two_pow_pos j)
    have first : ∀ other allocEnd, q.Placement other allocEnd →
        ceilTo (userAddr + q.requestedSize) (2 ^ j) ≤ allocEnd := by
      intro other allocEnd place
      have := least other allocEnd place
      have room := place.room
      exact ceilTo_le (by omega) (headerPower ▸ place.endAligned) (Nat.two_pow_pos j)
    generalize ceilTo (userAddr + q.requestedSize) (2 ^ j) = allocEnd at *
    split
    · rename_i small
      intro other last place
      have := first other last place
      have inside := place.inside
      omega
    · rename_i large
      split
      · rename_i left
        apply Sound.mk
        · show q.regionStart ≤ userAddr - q.headerSize
          omega
        · show userAddr - q.headerSize + q.headerSize = userAddr
          omega
        · exact both.2.trans aligned
        · exact both.1.trans aligned
        · rfl
        · show userAddr + q.requestedSize ≤ q.regionStart + (allocEnd - q.regionStart)
          omega
        · show q.regionStart + (allocEnd - q.regionStart) ≤ q.regionEnd
          omega
        · intro start size rest
          cases rest
          refine ⟨?_, ?_, left⟩
          · show allocEnd = q.regionStart + (allocEnd - q.regionStart)
            omega
          · omega
      · apply Sound.mk
        · show q.regionStart ≤ userAddr - q.headerSize
          omega
        · show userAddr - q.headerSize + q.headerSize = userAddr
          omega
        · exact both.2.trans aligned
        · exact both.1.trans aligned
        · rfl
        · show userAddr + q.requestedSize ≤ q.regionStart + (q.regionEnd - q.regionStart)
          omega
        · show q.regionStart + (q.regionEnd - q.regionStart) ≤ q.regionEnd
          omega
        · intro start size rest
          cases rest

/-- Exactly when no step overflows a plan is sound, and without one there is no place. -/
theorem plan_holds_iff (q : PlanRequest) : q.Holds ↔ q.Fits := by
  apply Exists.elim q.headerPower
  intro j header
  apply Exists.elim q.align_power
  intro k power
  by_cases start : q.regionStart + q.headerSize < 2 ^ 64
  · rw [Fits, power.1, header.2]
    dsimp only
    constructor
    · intro holds _
      by_cases rounds : q.regionStart + q.headerSize + 2 ^ k < 2 ^ 64
      · apply And.intro rounds
        intro user
        rw [Holds, plan_eq power.1 header.2 start rounds] at holds
        dsimp only at holds
        rw [if_neg (not_le.mpr user)] at holds
        split at holds
        · exact absurd holds (Result.sat_fault _ _)
        · omega
      · have fault : q.plan = .fault := by
          rw [plan, planAllocation, power.1, Result.rejectIf_bind, if_neg (not_le.mpr start),
            alignUp_of_ge (not_lt.mp rounds)]
          rfl
        rw [Holds, fault] at holds
        exact absurd holds (Result.sat_fault _ _)
    · intro fits
      have rounds := fits start
      exact holds_of_fits power.1 header.2 ⟨power.2.1, power.2.2.1⟩ power.2.2.2 start rounds.1
        rounds.2
  · exact iff_of_true (holds_of_beyond (not_lt.mp start)) fun within => absurd within start

/-- A request of the heap, whose blocks lie in the upper half: a size that ends with the words. -/
def wholeHalf : PlanRequest where
  regionStart := 0xFFFF800001000000
  regionEnd := 0xFFFF800001100000
  headerSize := 32
  headerAlign := 8
  requestedSize := 0x7FFFFEFFFFDC
  requestedAlign := 1
  minBlockSize := 16
  order := by decide
  words := by decide
  headerPower := ⟨3, by decide, rfl⟩
  requestedPower := ⟨0, by decide, rfl⟩

theorem plan_overflows : wholeHalf.plan = .fault ∧ ¬wholeHalf.Holds := by
  have fault : wholeHalf.plan = .fault := by decide
  refine ⟨fault, ?_⟩
  rw [Holds, fault]
  exact Result.sat_fault _ _

end PlanRequest

end Zaytos.Kernel
