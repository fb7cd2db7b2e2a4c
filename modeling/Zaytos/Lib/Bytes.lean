import Mathlib.Data.Nat.Bitwise
import Mathlib.Tactic.IntervalCases

set_option autoImplicit false

/-! Byte slices, little-endian fields and bitmaps.

A slice is its length and its bytes. The byte function is total; the checked accessors
(`readU8`, `readU16`, `readU32`, `readU64`, `slice`) look at positions below the length only and
return `none` where the language would stop, so what the function says past the length is
never observed. Writes are one operation, `put`, which replaces an interval. -/
namespace Zaytos

structure Bytes where
  len : Nat
  get : Nat → UInt8

/-- Byte `k` of the little-endian form of `v`. -/
def leByte (v k : Nat) : UInt8 := UInt8.ofNat (v / 256 ^ k)

/-- The little-endian form of `v` in `n` bytes. -/
def leBytes (n v : Nat) : List UInt8 := (List.range n).map (leByte v)

/-- The byte with exactly bit `k` set. -/
def bitMask (k : Nat) : UInt8 := 1 <<< UInt8.ofNat k

variable {d d' : Bytes} {pos lo n m at' v k : Nat}

namespace Bytes

def u16 (d : Bytes) (pos : Nat) : Nat := (d.get pos).toNat + 256 * (d.get (pos + 1)).toNat

def u32 (d : Bytes) (pos : Nat) : Nat := d.u16 pos + 65536 * d.u16 (pos + 2)

def u64 (d : Bytes) (pos : Nat) : Nat := d.u32 pos + 4294967296 * d.u32 (pos + 4)

/-- The bytes `[pos, pos + n)` as a list. -/
def view (d : Bytes) (pos n : Nat) : List UInt8 := (List.range n).map fun k => d.get (pos + k)

def bit (d : Bytes) (pos k : Nat) : Bool := (d.get pos).toNat.testBit k

def readU8 (d : Bytes) (pos : Nat) : Option UInt8 :=
  if pos < d.len then some (d.get pos) else none

def readU16 (d : Bytes) (pos : Nat) : Option Nat :=
  if pos + 2 ≤ d.len then some (d.u16 pos) else none

def readU32 (d : Bytes) (pos : Nat) : Option Nat :=
  if pos + 4 ≤ d.len then some (d.u32 pos) else none

def readU64 (d : Bytes) (pos : Nat) : Option Nat :=
  if pos + 8 ≤ d.len then some (d.u64 pos) else none

/-- `&d[lo..hi]`. -/
def slice (d : Bytes) (lo hi : Nat) : Option Bytes :=
  if lo ≤ hi ∧ hi ≤ d.len then some ⟨hi - lo, fun k => d.get (lo + k)⟩ else none

/-- Replace the interval `[pos, pos + n)`. -/
def put (d : Bytes) (pos n : Nat) (f : Nat → UInt8) : Bytes where
  len := d.len
  get i := if pos ≤ i ∧ i < pos + n then f (i - pos) else d.get i

def putU16 (d : Bytes) (pos v : Nat) : Bytes := d.put pos 2 (leByte v)

def putU32 (d : Bytes) (pos v : Nat) : Bytes := d.put pos 4 (leByte v)

def putU64 (d : Bytes) (pos v : Nat) : Bytes := d.put pos 8 (leByte v)

/-- Set or clear bit `j` of a bitmap. -/
def setBit (d : Bytes) (j : Nat) (v : Bool) : Bytes :=
  d.put (j / 8) 1 fun _ =>
    if v then d.get (j / 8) ||| bitMask (j % 8) else d.get (j / 8) &&& ~~~bitMask (j % 8)

/-- A slice of `len` bytes that are zero outside of the given runs. -/
def ofRuns (len : Nat) (runs : List (Nat × List UInt8)) : Bytes where
  len := len
  get i := (runs.findSome? fun run => if run.1 ≤ i then run.2[i - run.1]? else none).getD 0

def runByte (i : Nat) (run : Nat × List UInt8) (rest : UInt8) : UInt8 :=
  bif Nat.ble run.1 i && Nat.blt i (run.1 + run.2.length) then run.2.getD (i - run.1) 0 else rest

/-- All `n` bytes of the slice as a list. -/
def toList (d : Bytes) : List UInt8 := d.view 0 d.len

/-- The two slices hold the same bytes in `[pos, pos + n)`. -/
def SameOn (d d' : Bytes) (pos n : Nat) : Prop := ∀ i, pos ≤ i → i < pos + n → d'.get i = d.get i

@[simp] theorem len_put (d : Bytes) (pos n : Nat) (f : Nat → UInt8) : (d.put pos n f).len = d.len :=
  rfl

@[simp] theorem len_putU16 (d : Bytes) (pos v : Nat) : (d.putU16 pos v).len = d.len := rfl

@[simp] theorem len_putU32 (d : Bytes) (pos v : Nat) : (d.putU32 pos v).len = d.len := rfl

theorem ext_get (len : d.len = d'.len) (get : ∀ i, d.get i = d'.get i) : d = d' := by
  cases d
  cases d'
  simp_all [funext_iff]

theorem u16_lt (d : Bytes) (pos : Nat) : d.u16 pos < 2 ^ 16 := by
  have low := (d.get pos).toNat_lt
  have high := (d.get (pos + 1)).toNat_lt
  unfold u16
  omega

theorem u32_lt (d : Bytes) (pos : Nat) : d.u32 pos < 2 ^ 32 := by
  have low := d.u16_lt pos
  have high := d.u16_lt (pos + 2)
  unfold u32
  omega

theorem u16_shift (d : Bytes) (n pos q : Nat) :
    (⟨n, fun k => d.get (pos + k)⟩ : Bytes).u16 q = d.u16 (pos + q) := rfl

theorem u32_shift (d : Bytes) (n pos q : Nat) :
    (⟨n, fun k => d.get (pos + k)⟩ : Bytes).u32 q = d.u32 (pos + q) := rfl

theorem toList_shift (d : Bytes) (n pos : Nat) :
    (⟨n, fun k => d.get (pos + k)⟩ : Bytes).toList = d.view pos n := by
  simp [toList, view]

@[simp] theorem length_view (d : Bytes) (pos n : Nat) : (d.view pos n).length = n := by
  simp [view]

@[simp] theorem getElem_view (d : Bytes) (pos n k : Nat) (h : k < (d.view pos n).length) :
    (d.view pos n)[k] = d.get (pos + k) := by
  simp [view]

theorem view_add (d : Bytes) (pos m n : Nat) :
    d.view pos (m + n) = d.view pos m ++ d.view (pos + m) n := by
  simp only [view, List.range_add, List.map_append, List.map_map, Function.comp_def, Nat.add_assoc]

theorem readU8_of_lt (h : pos < d.len) : d.readU8 pos = some (d.get pos) :=
  if_pos h

theorem readU16_of_le (h : pos + 2 ≤ d.len) : d.readU16 pos = some (d.u16 pos) := if_pos h

theorem readU32_of_le (h : pos + 4 ≤ d.len) : d.readU32 pos = some (d.u32 pos) := if_pos h

theorem readU64_of_le (h : pos + 8 ≤ d.len) : d.readU64 pos = some (d.u64 pos) := if_pos h

theorem slice_of_le {hi : Nat} (order : lo ≤ hi) (bound : hi ≤ d.len) :
    d.slice lo hi = some ⟨hi - lo, fun k => d.get (lo + k)⟩ := if_pos ⟨order, bound⟩

theorem ofRuns_eq (len : Nat) (runs : List (Nat × List UInt8)) :
    ofRuns len runs = ⟨len, fun i => runs.foldr (runByte i) 0⟩ := by
  rw [ofRuns, Bytes.mk.injEq]
  apply And.intro rfl
  funext i
  induction runs with
  | nil => rfl
  | cons run rest ih =>
    rw [List.findSome?_cons, List.foldr_cons, ← ih, runByte]
    by_cases starts : run.1 ≤ i
    · have begun : Nat.ble run.1 i = true := Nat.ble_eq_true_of_le starts
      by_cases ends : i < run.1 + run.2.length
      · have inside : i - run.1 < run.2.length := by omega
        have stops : Nat.blt i (run.1 + run.2.length) = true := Nat.ble_eq_true_of_le ends
        simp [starts, begun, stops, inside]
      · have outside : run.2.length ≤ i - run.1 := by omega
        have past : Nat.blt i (run.1 + run.2.length) = false :=
          Bool.eq_false_of_not_eq_true fun less => ends (Nat.le_of_ble_eq_true less)
        simp [starts, past, outside]
    · have ahead : Nat.ble run.1 i = false :=
        Bool.eq_false_of_not_eq_true fun less => starts (Nat.le_of_ble_eq_true less)
      simp [starts, ahead]

theorem get_put_inside {d : Bytes} {pos n i : Nat} (f : Nat → UInt8) (lower : pos ≤ i)
    (upper : i < pos + n) : (d.put pos n f).get i = f (i - pos) := if_pos ⟨lower, upper⟩

theorem get_put_outside {i : Nat} (f : Nat → UInt8)
    (outside : i < pos ∨ pos + n ≤ i) : (d.put pos n f).get i = d.get i :=
  if_neg (by omega)

theorem put_sameOn (f : Nat → UInt8)
    (apart : lo + m ≤ pos ∨ pos + n ≤ lo) : SameOn d (d.put pos n f) lo m := by
  intro i lower upper
  exact get_put_outside f (by omega)

theorem SameOn.refl (d : Bytes) (pos n : Nat) : SameOn d d pos n := fun _ _ _ => rfl

theorem SameOn.trans {d'' : Bytes} (first : SameOn d d' pos n)
    (second : SameOn d' d'' pos n) : SameOn d d'' pos n := by
  intro i lower upper
  rw [second i lower upper, first i lower upper]

theorem SameOn.mono (same : SameOn d d' pos n)
    (lower : pos ≤ lo) (upper : lo + m ≤ pos + n) : SameOn d d' lo m := by
  intro i hl hu
  exact same i (by omega) (by omega)

theorem SameOn.u16 (same : SameOn d d' pos n)
    (lower : pos ≤ at') (upper : at' + 2 ≤ pos + n) : d'.u16 at' = d.u16 at' := by
  unfold Bytes.u16
  rw [same at' (by omega) (by omega), same (at' + 1) (by omega) (by omega)]

theorem SameOn.u32 (same : SameOn d d' pos n)
    (lower : pos ≤ at') (upper : at' + 4 ≤ pos + n) : d'.u32 at' = d.u32 at' := by
  unfold Bytes.u32
  rw [same.u16 (by omega) (by omega), same.u16 (by omega) (by omega)]

theorem SameOn.u64 (same : SameOn d d' pos n)
    (lower : pos ≤ at') (upper : at' + 8 ≤ pos + n) : d'.u64 at' = d.u64 at' := by
  unfold Bytes.u64
  rw [same.u32 (by omega) (by omega), same.u32 (by omega) (by omega)]

theorem SameOn.view (same : SameOn d d' pos n)
    (lower : pos ≤ lo) (upper : lo + m ≤ pos + n) : d'.view lo m = d.view lo m := by
  apply List.map_congr_left
  intro k hk
  have small := List.mem_range.mp hk
  exact same (lo + k) (by omega) (by omega)

theorem u16_put_outside (f : Nat → UInt8)
    (apart : at' + 2 ≤ pos ∨ pos + n ≤ at') : (d.put pos n f).u16 at' = d.u16 at' := by
  have same : SameOn d (d.put pos n f) at' 2 := put_sameOn f apart
  exact same.u16 (Nat.le_refl _) (Nat.le_refl _)

theorem u32_put_outside (f : Nat → UInt8)
    (apart : at' + 4 ≤ pos ∨ pos + n ≤ at') : (d.put pos n f).u32 at' = d.u32 at' := by
  have same : SameOn d (d.put pos n f) at' 4 := put_sameOn f apart
  exact same.u32 (Nat.le_refl _) (Nat.le_refl _)

theorem u64_put_outside (f : Nat → UInt8)
    (apart : at' + 8 ≤ pos ∨ pos + n ≤ at') : (d.put pos n f).u64 at' = d.u64 at' := by
  have same : SameOn d (d.put pos n f) at' 8 := put_sameOn f apart
  exact same.u64 (Nat.le_refl _) (Nat.le_refl _)

theorem u64_putU64_outside (apart : at' + 8 ≤ pos ∨ pos + 8 ≤ at') :
    (d.putU64 pos v).u64 at' = d.u64 at' :=
  u64_put_outside _ apart

theorem view_put_outside (f : Nat → UInt8)
    (apart : lo + m ≤ pos ∨ pos + n ≤ lo) : (d.put pos n f).view lo m = d.view lo m := by
  have same : SameOn d (d.put pos n f) lo m := put_sameOn f apart
  exact same.view (Nat.le_refl _) (Nat.le_refl _)

theorem view_put_list (d : Bytes) (pos : Nat) (bytes : List UInt8) :
    (d.put pos bytes.length fun k => bytes.getD k 0).view pos bytes.length = bytes := by
  apply List.ext_getElem
  · simp
  intro k small small'
  rw [getElem_view, get_put_inside _ (by omega) (by omega), show pos + k - pos = k by omega,
    List.getD_eq_getElem _ _ small']

theorem leByte_toNat (v k : Nat) : (leByte v k).toNat = v / 256 ^ k % 256 := by
  simp [leByte]

theorem u16_put_leByte (width : 2 ≤ n) : (d.put pos n (leByte v)).u16 pos = v % 2 ^ 16 := by
  unfold u16
  rw [get_put_inside _ (by omega) (by omega), get_put_inside _ (by omega) (by omega)]
  simp only [Nat.sub_self, Nat.add_sub_cancel_left, leByte_toNat, Nat.pow_zero, Nat.pow_one]
  omega

theorem u32_put_leByte : (d.put pos 4 (leByte v)).u32 pos = v % 2 ^ 32 := by
  unfold u32
  rw [u16_put_leByte (by omega)]
  unfold u16
  rw [get_put_inside _ (by omega) (by omega), get_put_inside _ (by omega) (by omega)]
  simp only [leByte_toNat, show pos + 2 - pos = 2 by omega, show pos + 2 + 1 - pos = 3 by omega]
  omega

@[simp] theorem u16_putU16 (d : Bytes) (pos v : Nat) : (d.putU16 pos v).u16 pos = v % 2 ^ 16 :=
  u16_put_leByte (Nat.le_refl 2)

@[simp] theorem u32_putU32 (d : Bytes) (pos v : Nat) : (d.putU32 pos v).u32 pos = v % 2 ^ 32 :=
  u32_put_leByte

@[simp] theorem u64_putU64 (d : Bytes) (pos v : Nat) : (d.putU64 pos v).u64 pos = v % 2 ^ 64 := by
  unfold putU64 u64 u32
  rw [u16_put_leByte (by omega)]
  unfold u16
  rw [get_put_inside _ (by omega) (by omega), get_put_inside _ (by omega) (by omega),
    get_put_inside _ (by omega) (by omega), get_put_inside _ (by omega) (by omega),
    get_put_inside _ (by omega) (by omega), get_put_inside _ (by omega) (by omega)]
  simp only [leByte_toNat, show pos + 2 - pos = 2 by omega, show pos + 2 + 1 - pos = 3 by omega,
    show pos + 4 - pos = 4 by omega, show pos + 4 + 1 - pos = 5 by omega,
    show pos + 4 + 2 - pos = 6 by omega, show pos + 4 + 2 + 1 - pos = 7 by omega, Nat.reducePow]
  omega

theorem leByte_u16 (d : Bytes) (pos k : Nat) (small : k < 2) :
    leByte (d.u16 pos) k = d.get (pos + k) := by
  have low := (d.get pos).toNat_lt
  have high := (d.get (pos + 1)).toNat_lt
  apply UInt8.toNat_inj.mp
  rw [leByte_toNat, u16]
  obtain rfl | rfl : k = 0 ∨ k = 1 := by omega
  · simp only [Nat.pow_zero, Nat.add_zero]
    omega
  · simp only [Nat.pow_one]
    omega

theorem leByte_u32 (d : Bytes) (pos k : Nat) (small : k < 4) :
    leByte (d.u32 pos) k = d.get (pos + k) := by
  have b0 := (d.get pos).toNat_lt
  have b1 := (d.get (pos + 1)).toNat_lt
  have b2 := (d.get (pos + 2)).toNat_lt
  have b3 := (d.get (pos + 3)).toNat_lt
  apply UInt8.toNat_inj.mp
  rw [leByte_toNat, u32, u16, u16, show pos + 2 + 1 = pos + 3 by omega]
  obtain rfl | rfl | rfl | rfl : k = 0 ∨ k = 1 ∨ k = 2 ∨ k = 3 := by omega
  all_goals
    simp only [Nat.pow_zero, Nat.add_zero, Nat.reducePow]
    omega

end Bytes

section Bits

theorem testBit_byte_high (b : UInt8) {j : Nat} (high : 8 ≤ j) : b.toNat.testBit j = false := by
  apply Nat.testBit_lt_two_pow
  calc b.toNat < 2 ^ 8 := b.toNat_lt
    _ ≤ 2 ^ j := Nat.pow_le_pow_right (by omega) high

theorem bitMask_toNat (h : k < 8) : (bitMask k).toNat = 2 ^ k := by
  interval_cases k <;> rfl

theorem testBit_or_bitMask (b : UInt8) (j : Nat) (h : k < 8) :
    (b ||| bitMask k).toNat.testBit j = (b.toNat.testBit j || decide (k = j)) := by
  rw [UInt8.toNat_or, Nat.testBit_or, bitMask_toNat h, Nat.testBit_two_pow]

theorem testBit_and_not_bitMask (b : UInt8) (j : Nat) (h : k < 8) :
    (b &&& ~~~bitMask k).toNat.testBit j = (b.toNat.testBit j && !decide (k = j)) := by
  by_cases small : j < 8
  · have inner : (~~~bitMask k).toNat.testBit j = !decide (k = j) := by
      interval_cases k <;> interval_cases j <;> rfl
    rw [UInt8.toNat_and, Nat.testBit_and, inner]
  · rw [testBit_byte_high _ (by omega), testBit_byte_high _ (by omega), Bool.false_and]

theorem and_bitMask_eq_zero (b : UInt8) (h : k < 8) :
    b &&& bitMask k = 0 ↔ b.toNat.testBit k = false := by
  rw [← UInt8.toNat_inj, UInt8.toNat_and, bitMask_toNat h, Nat.and_two_pow]
  cases b.toNat.testBit k <;> simp

theorem byte_eq_of_testBit {b c : UInt8} (same : ∀ j < 8, b.toNat.testBit j = c.toNat.testBit j) :
    b = c := by
  apply UInt8.toNat_inj.mp
  apply Nat.eq_of_testBit_eq
  intro j
  by_cases small : j < 8
  · exact same j small
  · rw [testBit_byte_high _ (by omega), testBit_byte_high _ (by omega)]

namespace Bytes

theorem bit_setBit (d : Bytes) (i j : Nat) (v : Bool) :
    (d.setBit j v).bit (i / 8) (i % 8) = if i = j then v else d.bit (i / 8) (i % 8) := by
  have small : j % 8 < 8 := Nat.mod_lt _ (by omega)
  unfold bit setBit
  by_cases byte : i / 8 = j / 8
  · have same : j % 8 = i % 8 ↔ i = j := by omega
    rw [byte, get_put_inside _ (Nat.le_refl _) (by omega)]
    cases v
    · simp only [Bool.false_eq_true, ↓reduceIte]
      rw [testBit_and_not_bitMask _ _ small]
      by_cases eq : i = j
      · simp [eq]
      · simp [eq, same]
    · simp only [↓reduceIte]
      rw [testBit_or_bitMask _ _ small]
      by_cases eq : i = j
      · simp [eq]
      · simp [eq, same]
  · rw [get_put_outside _ (by omega), if_neg (by omega)]

theorem setBit_setBit (d : Bytes) (j : Nat) (v : Bool) (old : d.bit (j / 8) (j % 8) = !v) :
    (d.setBit j v).setBit j (!v) = d := by
  refine ext_get rfl fun i => ?_
  by_cases byte : i = j / 8
  · apply byte_eq_of_testBit
    intro k small
    have restored := bit_setBit (d.setBit j v) (8 * i + k) j (!v)
    have flipped := bit_setBit d (8 * i + k) j v
    rw [show (8 * i + k) / 8 = i by omega, show (8 * i + k) % 8 = k by omega] at restored flipped
    show ((d.setBit j v).setBit j (!v)).bit i k = d.bit i k
    rw [restored, flipped]
    by_cases same : 8 * i + k = j
    · have place : i = j / 8 ∧ k = j % 8 := by omega
      rw [if_pos same, place.1, place.2, old]
    · rw [if_neg same, if_neg same]
  · have outside : i < j / 8 ∨ j / 8 + 1 ≤ i := by omega
    unfold setBit
    rw [get_put_outside _ outside, get_put_outside _ outside]

theorem putU16_putU16 (d : Bytes) (pos v : Nat) : (d.putU16 pos v).putU16 pos (d.u16 pos) = d := by
  refine ext_get rfl fun i => ?_
  by_cases inside : pos ≤ i ∧ i < pos + 2
  · unfold putU16
    rw [get_put_inside _ inside.1 inside.2, leByte_u16 d pos (i - pos) (by omega)]
    congr 1
    omega
  · unfold putU16
    rw [get_put_outside _ (by omega), get_put_outside _ (by omega)]

theorem putU32_putU32 (d : Bytes) (pos v : Nat) : (d.putU32 pos v).putU32 pos (d.u32 pos) = d := by
  refine ext_get rfl fun i => ?_
  by_cases inside : pos ≤ i ∧ i < pos + 4
  · unfold putU32
    rw [get_put_inside _ inside.1 inside.2, leByte_u32 d pos (i - pos) (by omega)]
    congr 1
    omega
  · unfold putU32
    rw [get_put_outside _ (by omega), get_put_outside _ (by omega)]

end Bytes

end Bits

end Zaytos
