import Zaytos.Kernel.Syscall

set_option autoImplicit false

/-! The counter of ticks beside the real time, and how long a sleep takes. -/
namespace Zaytos.Kernel

abbrev nanosPerSecond : Nat := 1000000000

structure InvalidTimespec where
  deriving DecidableEq, Repr

/-- `timespec_from_ticks`: seconds and nanoseconds. -/
def timespecFromTicks (ticks hz : Nat) : Nat × Nat :=
  (ticks / hz, ticks % hz * (nanosPerSecond / hz))

def ticksForDuration (seconds nanos : Int) (hz : Nat) : Except InvalidTimespec Nat :=
  if seconds < 0 ∨ nanos < 0 ∨ nanosPerSecond ≤ nanos.toNat then .error {}
  else
    match mul64 seconds.toNat hz with
    | none => .error {}
    | some whole =>
      match add64 whole (divCeil nanos.toNat (nanosPerSecond / hz)) with
      | none => .error {}
      | some ticks => .ok ticks

def ticksAt (hz time : Nat) : Nat := time / (nanosPerSecond / hz)

/-- What `clock_gettime` answers. -/
def clockGettime (hz : Nat) (k : System) : Nat × Nat := timespecFromTicks k.ticks hz

/-- When the loop of `sys_nanosleep` ends. It looks at the counter at these times, each of them
with the system as it is then. -/
def sleepUntil (deadline : Nat) : List (Nat × System) → Option Nat
  | [] => none
  | (time, k) :: later =>
    match (k.sleepLoop deadline).1 with
    | .done _ => some time
    | _ => sleepUntil deadline later

/-- When `sys_nanosleep` returns, for a number of ticks. -/
def nanosleepReturns (k : System) (ticks : Nat) (rounds : List (Nat × System)) : Option Nat :=
  sleepUntil (min (2 ^ 64 - 1) (k.ticks + ticks)) rounds

/-- Looks at the counter at real times from the start on, one after the other. -/
structure Looks (hz start : Nat) (rounds : List (Nat × System)) : Prop where
  ordered : (start :: rounds.map Prod.fst).Pairwise (· ≤ ·)
  clocked : ∀ round ∈ rounds, round.2.ticks = ticksAt hz round.1

variable {hz ticks deadline time : Nat} {seconds nanos : Int} {k : System}

theorem nanosPerTick_pos (divides : hz ∣ nanosPerSecond) : 0 < nanosPerSecond / hz :=
  Nat.div_pos (Nat.le_of_dvd (by decide) divides) (Nat.pos_of_dvd_of_pos divides (by decide))

theorem ticksForDuration_eq_ok : ticksForDuration seconds nanos hz = .ok ticks ↔
    0 ≤ seconds ∧ 0 ≤ nanos ∧ nanos < nanosPerSecond ∧ ticks < 2 ^ 64 ∧
      ticks = seconds.toNat * hz + divCeil nanos.toNat (nanosPerSecond / hz) := by
  rw [ticksForDuration]
  by_cases outside : seconds < 0 ∨ nanos < 0 ∨ nanosPerSecond ≤ nanos.toNat
  · rw [if_pos outside]
    apply iff_of_false (by simp)
    intro inside
    omega
  rw [if_neg outside]
  have inside : 0 ≤ seconds ∧ 0 ≤ nanos ∧ nanos < nanosPerSecond := by omega
  simp only [inside, true_and]
  by_cases whole : seconds.toNat * hz < 2 ^ 64
  · rw [mul64_of_lt whole]
    dsimp only
    by_cases sum : seconds.toNat * hz + divCeil nanos.toNat (nanosPerSecond / hz) < 2 ^ 64
    · rw [add64_of_lt sum]
      simp only [Except.ok.injEq]
      constructor
      · intro same
        exact ⟨same ▸ sum, same.symm⟩
      · intro same
        exact same.2.symm
    · rw [add64, if_neg sum]
      apply iff_of_false (by simp)
      intro fits
      omega
  · rw [mul64, if_neg whole]
    apply iff_of_false (by simp)
    intro fits
    omega

theorem ticksForDuration_eq_error : ticksForDuration seconds nanos hz = .error {} ↔
    seconds < 0 ∨ nanos < 0 ∨ nanosPerSecond ≤ nanos ∨
      2 ^ 64 ≤ seconds.toNat * hz + divCeil nanos.toNat (nanosPerSecond / hz) := by
  constructor
  · intro refused
    by_contra inside
    have ok := (@ticksForDuration_eq_ok hz _ seconds nanos).mpr
      ⟨by omega, by omega, by omega, by omega, rfl⟩
    rw [refused] at ok
    cases ok
  · intro outside
    cases answer : ticksForDuration seconds nanos hz with
    | error e => rfl
    | ok ticks =>
      have inside := ticksForDuration_eq_ok.mp answer
      omega

theorem divCeil_mul_eq (n : Nat) {p : Nat} (pos : 0 < p) :
    divCeil n p * p = n + (p - n % p) % p := by
  have split := Nat.div_add_mod n p
  have small := Nat.mod_lt n pos
  by_cases whole : n % p = 0
  · rw [divCeil_eq_div pos (Nat.dvd_of_mod_eq_zero whole), whole, Nat.sub_zero, Nat.mod_self,
      mul_comm]
    omega
  · have up : divCeil n p = n / p + 1 := by
      apply le_antisymm
      · rw [divCeil_le_iff pos, add_mul, mul_comm (n / p) p]
        omega
      · apply (lt_divCeil_iff pos).mpr
        rw [mul_comm]
        omega
    rw [up, Nat.mod_eq_of_lt (by omega), add_mul, mul_comm (n / p) p]
    omega

theorem sleepLoop_done : (∃ ret, (k.sleepLoop deadline).1 = .done ret) ↔ deadline ≤ k.ticks := by
  rw [System.sleepLoop]
  split <;> simp <;> omega

theorem sleepUntil_eq_some {rounds : List (Nat × System)}
    (ends : sleepUntil deadline rounds = some time) :
    ∃ k, (time, k) ∈ rounds ∧ deadline ≤ k.ticks := by
  induction rounds with
  | nil => cases ends
  | cons round later ih =>
    rw [sleepUntil] at ends
    split at ends
    · rename_i ret done
      cases ends
      exact ⟨round.2, List.mem_cons_self, sleepLoop_done.mp ⟨ret, done⟩⟩
    · apply Exists.imp _ (ih ends)
      intro k found
      exact ⟨List.mem_cons_of_mem _ found.1, found.2⟩

theorem le_ticksAt (pos : 0 < nanosPerSecond / hz) :
    ticks ≤ ticksAt hz time ↔ ticks * (nanosPerSecond / hz) ≤ time :=
  Nat.le_div_iff_mul_le pos

theorem ticks_length (divides : hz ∣ nanosPerSecond)
    (accepted : ticksForDuration seconds nanos hz = .ok ticks) :
    ticks * (nanosPerSecond / hz) = seconds.toNat * nanosPerSecond + nanos.toNat +
      (nanosPerSecond / hz - nanos.toNat % (nanosPerSecond / hz)) % (nanosPerSecond / hz) := by
  have inside := ticksForDuration_eq_ok.mp accepted
  have second : hz * (nanosPerSecond / hz) = nanosPerSecond := Nat.mul_div_cancel' divides
  rw [inside.2.2.2.2, add_mul, divCeil_mul_eq _ (nanosPerTick_pos divides), mul_assoc,
    second]
  omega

theorem timespecFromTicks_length (divides : hz ∣ nanosPerSecond) (ticks : Nat) :
    (timespecFromTicks ticks hz).1 * nanosPerSecond + (timespecFromTicks ticks hz).2 =
        ticks * (nanosPerSecond / hz) ∧
      (timespecFromTicks ticks hz).2 < nanosPerSecond := by
  have second : hz * (nanosPerSecond / hz) = nanosPerSecond := Nat.mul_div_cancel' divides
  have pos := nanosPerTick_pos divides
  have small : ticks % hz < hz := Nat.mod_lt _ (Nat.pos_of_dvd_of_pos divides (by decide))
  constructor
  · calc ticks / hz * nanosPerSecond + ticks % hz * (nanosPerSecond / hz)
        = (hz * (ticks / hz) + ticks % hz) * (nanosPerSecond / hz) := by
          rw [← second, Nat.mul_div_cancel_left _ (by omega)]
          ring
      _ = ticks * (nanosPerSecond / hz) := by rw [Nat.div_add_mod]
  · calc ticks % hz * (nanosPerSecond / hz) < hz * (nanosPerSecond / hz) :=
          Nat.mul_lt_mul_of_pos_right small pos
      _ = nanosPerSecond := second

theorem clockGettime_mono (divides : hz ∣ nanosPerSecond) {k later : System} {time after : Nat}
    (now : k.ticks = ticksAt hz time) (andThen : later.ticks = ticksAt hz after)
    (order : time ≤ after) :
    (clockGettime hz k).1 < (clockGettime hz later).1 ∨
      (clockGettime hz k).1 = (clockGettime hz later).1 ∧
        (clockGettime hz k).2 ≤ (clockGettime hz later).2 := by
  have more : k.ticks ≤ later.ticks := by
    rw [now, andThen]
    exact Nat.div_le_div_right order
  have length := timespecFromTicks_length divides k.ticks
  have length' := timespecFromTicks_length divides later.ticks
  have longer := Nat.mul_le_mul_right (nanosPerSecond / hz) more
  rw [← length.1, ← length'.1] at longer
  simp only [clockGettime, nanosPerSecond] at *
  omega

theorem nanosleepReturns_ge (divides : hz ∣ nanosPerSecond) {start : Nat}
    (fits : k.ticks + ticks < 2 ^ 64 - 1) {rounds : List (Nat × System)}
    (goes : Looks hz start rounds) (ends : nanosleepReturns k ticks rounds = some time) :
    start ≤ time ∧ (k.ticks + ticks) * (nanosPerSecond / hz) ≤ time := by
  rw [nanosleepReturns, min_eq_right (by omega)] at ends
  apply Exists.elim (sleepUntil_eq_some ends)
  intro later found
  have clock := goes.clocked _ found.1
  apply And.intro
  · exact (List.pairwise_cons.mp goes.ordered).1 time (List.mem_map_of_mem found.1)
  · apply (le_ticksAt (nanosPerTick_pos divides)).mp
    rw [← clock]
    exact found.2

theorem nanosleepReturns_at (divides : hz ∣ nanosPerSecond) {start : Nat}
    (fits : k.ticks + ticks < 2 ^ 64 - 1) : ∃ rounds, Looks hz start rounds ∧
      nanosleepReturns k ticks rounds =
        some (max start ((k.ticks + ticks) * (nanosPerSecond / hz))) := by
  let time := max start ((k.ticks + ticks) * (nanosPerSecond / hz))
  let woken : System := { k with ticks := ticksAt hz time }
  have passed : k.ticks + ticks ≤ woken.ticks :=
    (le_ticksAt (nanosPerTick_pos divides)).mpr (Nat.le_max_right _ _)
  refine ⟨[(time, woken)], ⟨?_, ?_⟩, ?_⟩
  · simp [time]
  · intro round mem
    rw [List.mem_singleton.mp mem]
  · rw [nanosleepReturns, min_eq_right (by omega), sleepUntil, System.sleepLoop,
      if_neg (by omega)]

/-- A sleep that is accepted is never short exactly when it begins no later in its tick than what
the rounding adds. What is not accepted is negative, out of range or too long, and the clock does
not go back. -/
theorem never_short_iff (divides : hz ∣ nanosPerSecond) :
    (∀ (start ticks : Nat) (seconds nanos : Int) (k : System), k.ticks = ticksAt hz start →
      ticksForDuration seconds nanos hz = .ok ticks → k.ticks + ticks < 2 ^ 64 - 1 →
      ((∀ rounds time, Looks hz start rounds → nanosleepReturns k ticks rounds = some time →
          seconds.toNat * nanosPerSecond + nanos.toNat ≤ time - start) ↔
        seconds = 0 ∧ nanos = 0 ∨
          start % (nanosPerSecond / hz) ≤
            (nanosPerSecond / hz - nanos.toNat % (nanosPerSecond / hz)) %
              (nanosPerSecond / hz))) ∧
    (∀ seconds nanos : Int, ticksForDuration seconds nanos hz = .error {} ↔
      seconds < 0 ∨ nanos < 0 ∨ nanosPerSecond ≤ nanos ∨
        2 ^ 64 ≤ seconds.toNat * hz + divCeil nanos.toNat (nanosPerSecond / hz)) ∧
    ∀ (k later : System) (time after : Nat), k.ticks = ticksAt hz time →
      later.ticks = ticksAt hz after → time ≤ after →
      (clockGettime hz k).1 < (clockGettime hz later).1 ∨
        (clockGettime hz k).1 = (clockGettime hz later).1 ∧
          (clockGettime hz k).2 ≤ (clockGettime hz later).2 := by
  refine ⟨?_, fun _ _ => ticksForDuration_eq_error,
    fun _ _ _ _ now andThen => clockGettime_mono divides now andThen⟩
  intro start ticks seconds nanos k now accepted fits
  have inside := ticksForDuration_eq_ok.mp accepted
  have length := ticks_length divides accepted
  have phase : k.ticks * (nanosPerSecond / hz) + start % (nanosPerSecond / hz) = start := by
    rw [now, ticksAt, mul_comm]
    exact Nat.div_add_mod _ _
  have whole := add_mul k.ticks ticks (nanosPerSecond / hz)
  constructor
  · intro long
    apply Exists.elim (@nanosleepReturns_at hz ticks k divides start fits)
    intro rounds returns
    have enough := long rounds _ returns.1 returns.2
    simp only [nanosPerSecond] at *
    omega
  · intro early rounds time goes ends
    have waits := nanosleepReturns_ge divides fits goes ends
    simp only [nanosPerSecond] at *
    omega

def atTwoTicks : System := { System.init (.new 0) ⟨0, fun _ => 0⟩ false with ticks := 2 }

theorem never_short_iff_hundred :
    nanosleepReturns atTwoTicks 1 [(30000000, { atTwoTicks with ticks := 3 })] = some 30000000 ∧
      1 ≤ 30000000 - 20000000 := by
  apply And.intro rfl
  apply (((@never_short_iff 100 (by decide)).1 20000000 1 0 1 atTwoTicks (by decide) (by rfl)
    (by decide)).mpr (.inr (by decide))) [(30000000, { atTwoTicks with ticks := 3 })] 30000000 _ rfl
  constructor
  · simp
  · intro round mem
    rw [List.mem_singleton.mp mem]
    decide

/-- Ten milliseconds that last one nanosecond: the call comes just before the tick. -/
theorem sleeps_short : ∃ (k : System) (ticks : Nat) (rounds : List (Nat × System)) (time : Nat),
    k.ticks = ticksAt 100 9999999 ∧ ticksForDuration 0 10000000 100 = .ok ticks ∧
      k.ticks + ticks < 2 ^ 64 - 1 ∧ Looks 100 9999999 rounds ∧
      nanosleepReturns k ticks rounds = some time ∧ time - 9999999 = 1 := by
  let k : System := System.init (.new 0) ⟨0, fun _ => 0⟩ false
  let woken : System := { k with ticks := 1 }
  refine ⟨k, 1, [(10000000, woken)], 10000000, by decide, rfl, by decide, ⟨?_, ?_⟩, rfl, rfl⟩
  · simp
  · intro round mem
    rw [List.mem_singleton.mp mem]
    decide

end Zaytos.Kernel
