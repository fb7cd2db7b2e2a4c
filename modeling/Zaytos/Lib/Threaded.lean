import Zaytos.Lib.Bytes
import Zaytos.Lib.Intervals

set_option autoImplicit false

/-! Lists threaded through the intervals of memory that they list.

Each interval begins with two words: its length, and the address of the next interval, which
is zero where there is none. -/
namespace Zaytos

def nonNull (word : Nat) : Option Nat := if word = 0 then none else some word

def addressOf (link : Option Nat) : Nat := link.getD 0

def Addressable (link : Option Nat) : Prop := ∀ a ∈ link, 0 < a ∧ a < 2 ^ 64

theorem nonNull_of_pos {word : Nat} (pos : 0 < word) : nonNull word = some word :=
  if_neg (by omega)

theorem nonNull_addressOf {link : Option Nat} (fits : Addressable link) :
    nonNull (addressOf link % 2 ^ 64) = link := by
  cases link with
  | none => rfl
  | some a =>
    obtain ⟨pos, small⟩ := fits a rfl
    show nonNull (a % 2 ^ 64) = some a
    rw [Nat.mod_eq_of_lt small, nonNull_of_pos pos]

theorem addressable_none : Addressable none := fun _ mem => nomatch mem

namespace Threaded

open Extent

variable {α : Type} [Extent α]

/-- From `head` the memory lists the intervals, and the last of them leads to `tail`. -/
def Segment (m : Bytes) : Option Nat → List α → Option Nat → Prop
  | head, [], tail => head = tail
  | head, x :: l, tail =>
    head = some (lo x) ∧ m.u64 (lo x) = hi x - lo x ∧ Segment m (nonNull (m.u64 (lo x + 8))) l tail

variable {m m' : Bytes} {l before after : List α} {x : α} {head tail mid : Option Nat}

theorem segment_cons :
    Segment m head (x :: l) tail ↔
      head = some (lo x) ∧ m.u64 (lo x) = hi x - lo x ∧
      Segment m (nonNull (m.u64 (lo x + 8))) l tail := Iff.rfl

theorem segment_append :
    Segment m head (before ++ after) tail ↔
      ∃ mid, Segment m head before mid ∧ Segment m mid after tail := by
  induction before generalizing head with
  | nil => exact ⟨fun list => ⟨head, rfl, list⟩, fun ⟨_, same, list⟩ => same ▸ list⟩
  | cons x before ih =>
    rw [List.cons_append, segment_cons, ih]
    constructor
    · rintro ⟨start, size, mid, left, right⟩
      exact ⟨mid, ⟨start, size, left⟩, right⟩
    · rintro ⟨mid, ⟨start, size, left⟩, right⟩
      exact ⟨start, size, mid, left, right⟩

theorem Segment.head_eq (list : Segment m head l tail) : head = (l.head?.map lo).or tail := by
  cases l with
  | nil => exact list
  | cons x l => exact list.1

theorem Segment.frame (list : Segment m head l tail) (same : ∀ x ∈ l, m.SameOn m' (lo x) 16) :
    Segment m' head l tail := by
  induction l generalizing head with
  | nil => exact list
  | cons x l ih =>
    obtain ⟨start, size, rest⟩ := list
    have first := same x List.mem_cons_self
    refine ⟨start, ?_, ?_⟩
    · rw [first.u64 (by omega) (by omega), size]
    · rw [first.u64 (by omega) (by omega)]
      exact ih rest fun y mem => same y (List.mem_cons_of_mem x mem)

theorem Segment.write {size : Nat} {next : Option Nat} (start : lo x + size = hi x)
    (small : size < 2 ^ 64) (fits : Addressable next)
    (list : Segment ((m.putU64 (lo x) size).putU64 (lo x + 8) (addressOf next)) next l tail) :
    Segment ((m.putU64 (lo x) size).putU64 (lo x + 8) (addressOf next)) (some (lo x)) (x :: l)
      tail := by
  refine ⟨rfl, ?_, ?_⟩
  · rw [Bytes.u64_putU64_outside (by omega), Bytes.u64_putU64, Nat.mod_eq_of_lt small]
    omega
  · rw [Bytes.u64_putU64, nonNull_addressOf fits]
    exact list

theorem Segment.relink {next : Option Nat} (list : Segment m head (before ++ [x]) tail)
    (tidy : Tidy (before ++ [x])) (wide : ∀ y ∈ before ++ [x], lo y + 16 ≤ hi y)
    (fits : Addressable next) :
    Segment (m.putU64 (lo x + 8) (addressOf next)) head (before ++ [x]) next := by
  obtain ⟨mid, left, start, size, _⟩ := segment_append.mp list
  obtain ⟨_, _, above, _⟩ := tidy.around
  refine segment_append.mpr ⟨mid, left.frame fun y mem => ?_, start, ?_, ?_⟩
  · have := above y mem
    have := wide y (List.mem_append_left _ mem)
    exact Bytes.put_sameOn _ (by omega)
  · rw [Bytes.u64_putU64_outside (by omega), size]
  · rw [Bytes.u64_putU64, nonNull_addressOf fits]
    rfl

end Threaded

end Zaytos
