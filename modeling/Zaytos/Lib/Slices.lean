import Mathlib.Order.Basic

set_option autoImplicit false

/-! Slices of memory as lists: `none` where a range leaves the slice. -/
namespace Zaytos.Slices

variable {α : Type}

/-- `slice[start..stop]`. -/
def slice (xs : List α) (start stop : Nat) : Option (List α) :=
  if start ≤ stop ∧ stop ≤ xs.length then some ((xs.take stop).drop start) else none

/-- `slice[start..stop].fill(value)`. -/
def fill (xs : List α) (start stop : Nat) (value : α) : Option (List α) :=
  if start ≤ stop ∧ stop ≤ xs.length then
    some (xs.take start ++ (List.replicate (stop - start) value ++ xs.drop stop))
  else none

/-- `slice[start..start + values.len()].copy_from_slice(values)`. -/
def write (xs : List α) (start : Nat) (values : List α) : Option (List α) :=
  if start + values.length ≤ xs.length then
    some (xs.take start ++ (values ++ xs.drop (start + values.length)))
  else none

/-- `slice.copy_within(start..stop, dest)`. -/
def copyWithin (xs : List α) (start stop dest : Nat) : Option (List α) :=
  if start ≤ stop ∧ stop ≤ xs.length ∧ dest + (stop - start) ≤ xs.length then
    write xs dest ((xs.take stop).drop start)
  else none

variable {xs ys values : List α} {start stop dest i n : Nat} {value : α}

theorem slice_append (before middle after : List α) :
    slice (before ++ (middle ++ after)) before.length (before.length + middle.length) =
      some middle := by
  rw [slice, if_pos (by simp), List.take_length_add_append, List.drop_left, List.take_left]

theorem slice_replicate (few : stop ≤ n) :
    slice (List.replicate n value) 0 stop = some (List.replicate stop value) := by
  simp [slice, few]

theorem fill_of_le (order : start ≤ stop) (bound : stop ≤ xs.length) :
    ∃ ys, fill xs start stop value = some ys := by
  rw [fill, if_pos ⟨order, bound⟩]
  exact ⟨_, rfl⟩

theorem write_of_le (bound : start + values.length ≤ xs.length) :
    ∃ ys, write xs start values = some ys := by
  rw [write, if_pos bound]
  exact ⟨_, rfl⟩

theorem length_fill (filled : fill xs start stop value = some ys) : ys.length = xs.length := by
  unfold fill at filled
  split at filled
  · cases filled
    simp
    omega
  · cases filled

theorem length_write (written : write xs start values = some ys) : ys.length = xs.length := by
  unfold write at written
  split at written
  · cases written
    simp
    omega
  · cases written

theorem getElem?_fill (filled : fill xs start stop value = some ys) (i : Nat) :
    ys[i]? = if start ≤ i ∧ i < stop then some value else xs[i]? := by
  unfold fill at filled
  split at filled
  case isFalse => cases filled
  case isTrue bounds =>
    cases filled
    by_cases early : i < start
    · rw [if_neg (by omega), List.getElem?_append_left (by simp; omega),
        List.getElem?_take_of_lt early]
    rw [List.getElem?_append_right (by simp; omega), List.length_take,
      Nat.min_eq_left (by omega)]
    by_cases late : stop ≤ i
    · rw [if_neg (by omega), List.getElem?_append_right (by simp; omega), List.length_replicate,
        List.getElem?_drop]
      congr 1
      omega
    · rw [if_pos (by omega), List.getElem?_append_left (by simp; omega),
        List.getElem?_replicate_of_lt (by omega)]

theorem getElem?_write (written : write xs start values = some ys) (i : Nat) :
    ys[i]? = if start ≤ i ∧ i < start + values.length then values[i - start]? else xs[i]? := by
  unfold write at written
  split at written
  case isFalse => cases written
  case isTrue bounds =>
    cases written
    by_cases early : i < start
    · rw [if_neg (by omega), List.getElem?_append_left (by simp; omega),
        List.getElem?_take_of_lt early]
    rw [List.getElem?_append_right (by simp; omega), List.length_take,
      Nat.min_eq_left (by omega)]
    by_cases late : start + values.length ≤ i
    · rw [if_neg (by omega), List.getElem?_append_right (by omega), List.getElem?_drop]
      congr 1
      omega
    · rw [if_pos (by omega), List.getElem?_append_left (by omega)]

theorem write_singleton (inside : i < xs.length) : write xs i [value] = some (xs.set i value) := by
  have fits : i + [value].length ≤ xs.length := inside
  rw [write, if_pos fits, List.set_eq_take_append_cons_drop, if_pos inside]
  rfl

theorem write_start (fits : values.length ≤ xs.length) :
    write xs 0 values = some (values ++ xs.drop values.length) := by
  simp [write, fits]

theorem write_append (before middle after : List α) (same : values.length = middle.length) :
    write (before ++ (middle ++ after)) before.length values = some (before ++ (values ++ after)) := by
  rw [write, if_pos (by simp; omega), List.take_left, same, ← List.drop_drop, List.drop_left,
    List.drop_left]

theorem copyWithin_back (before middle after rest : List α) :
    ∃ junk, copyWithin (before ++ (middle ++ (after ++ rest))) (before.length + middle.length)
        (before.length + middle.length + after.length) before.length =
      some (before ++ (after ++ junk)) := by
  have whole : before ++ (middle ++ (after ++ rest)) = before ++ (middle ++ after ++ rest) := by simp
  have moved : (((before ++ (middle ++ (after ++ rest))).take
      (before.length + middle.length + after.length)).drop (before.length + middle.length)) =
      after := by
    rw [← List.append_assoc, ← List.append_assoc, List.take_left' (by simp; omega),
      List.drop_left' (by simp)]
  refine ⟨(middle ++ after ++ rest).drop after.length, ?_⟩
  rw [copyWithin, if_pos (by simp; omega), moved, whole, write, if_pos (by simp; omega),
    List.take_left, ← List.drop_drop, List.drop_left]

theorem copyWithin_on (before after rest : List α) (room : rest ≠ []) :
    ∃ first junk, copyWithin (before ++ (after ++ rest)) before.length
        (before.length + after.length) (before.length + 1) =
      some (before ++ (first :: (after ++ junk))) := by
  have more : 0 < rest.length := List.length_pos_iff.mpr room
  have moved : ((before ++ (after ++ rest)).take (before.length + after.length)).drop
      before.length = after := by
    rw [List.take_length_add_append, List.drop_left, List.take_left]
  have next : ∃ first others, after ++ rest = first :: others := by
    apply List.exists_cons_of_ne_nil
    simp [room]
  obtain ⟨first, others, next⟩ := next
  refine ⟨first, others.drop after.length, ?_⟩
  rw [copyWithin, if_pos (by simp; omega), moved, write, if_pos (by simp; omega), next,
    List.take_length_add_append, ← List.drop_drop, ← List.drop_drop, List.drop_left,
    List.append_assoc]
  rfl

theorem copyWithin_of_le (order : start ≤ stop) (source : stop ≤ xs.length)
    (target : dest + (stop - start) ≤ xs.length) :
    ∃ ys, copyWithin xs start stop dest = some ys := by
  rw [copyWithin, if_pos ⟨order, source, target⟩]
  apply write_of_le
  simp
  omega

theorem length_copyWithin (copied : copyWithin xs start stop dest = some ys) :
    ys.length = xs.length := by
  unfold copyWithin at copied
  split at copied
  · exact length_write copied
  · cases copied

theorem getElem?_copyWithin (copied : copyWithin xs start stop dest = some ys) (i : Nat) :
    ys[i]? = if dest ≤ i ∧ i < dest + (stop - start) then xs[start + (i - dest)]? else xs[i]? := by
  unfold copyWithin at copied
  split at copied
  case isFalse => cases copied
  case isTrue bounds =>
    have count : ((xs.take stop).drop start).length = stop - start := by
      simp
      omega
    rw [getElem?_write copied, count]
    by_cases inside : dest ≤ i ∧ i < dest + (stop - start)
    · rw [if_pos inside, if_pos inside, List.getElem?_drop, List.getElem?_take_of_lt (by omega)]
    · rw [if_neg inside, if_neg inside]

end Zaytos.Slices
