import Mathlib.Data.List.Basic
import Mathlib.Data.Nat.ModEq
import Mathlib.Logic.Function.Basic

set_option autoImplicit false

/-! The ring of bytes that pipes and sockets share. -/
namespace Zaytos.Kernel

/-- A ring of at most `N` bytes: `len` bytes from `head` on, around the end. -/
structure Ring (N : Nat) where
  buf : Nat → UInt8
  head : Nat
  len : Nat
  head_lt : head < N
  len_le : len ≤ N

variable {head len i : Nat} {buf : Nat → UInt8}

namespace Ring

variable {N : Nat}

def empty (pos : 0 < N) : Ring N := ⟨fun _ => 0, 0, 0, pos, Nat.zero_le _⟩

def isEmpty (r : Ring N) : Bool := r.len == 0

def room (r : Ring N) : Nat := N - r.len

/-- The loop of `take`: the bytes it copies out, and where `head` ends up. -/
def takeLoop (N : Nat) (buf : Nat → UInt8) : Nat → Nat → List UInt8 × Nat
  | 0, head => ([], head)
  | count + 1, head =>
    let rest := takeLoop N buf count ((head + 1) % N)
    (buf head :: rest.1, rest.2)

/-- The loop of `put`: the buffer it leaves. -/
def putLoop (N head : Nat) (buf : Nat → UInt8) (len : Nat) : List UInt8 → Nat → UInt8
  | [] => buf
  | byte :: rest => putLoop N head (Function.update buf ((head + len) % N) byte) (len + 1) rest

theorem takeLoop_head_lt (count : Nat) (small : head < N) : (takeLoop N buf count head).2 < N := by
  induction count generalizing head with
  | zero => exact small
  | succ count ih => exact ih (Nat.mod_lt _ (lt_of_le_of_lt (Nat.zero_le _) small))

/-- `take` into a buffer of `want` bytes: the bytes copied, and the ring left. -/
def take (r : Ring N) (want : Nat) : List UInt8 × Ring N :=
  let out := takeLoop N r.buf (min want r.len) r.head
  (out.1, ⟨r.buf, out.2, r.len - min want r.len, takeLoop_head_lt _ r.head_lt,
    le_trans (Nat.sub_le _ _) r.len_le⟩)

/-- `put`: how many bytes went in, and the ring left. -/
def put (r : Ring N) (src : List UInt8) : Nat × Ring N :=
  let count := min src.length r.room
  (count, ⟨putLoop N r.head r.buf r.len (src.take count), r.head, r.len + count, r.head_lt, by
    have := r.len_le
    have : count ≤ r.room := min_le_right _ _
    unfold room at this
    omega⟩)

def contents (r : Ring N) : List UInt8 := (List.range r.len).map fun i => r.buf ((r.head + i) % N)

@[simp] theorem length_contents (r : Ring N) : r.contents.length = r.len := by
  simp [contents]

@[simp] theorem contents_empty (pos : 0 < N) : (empty pos).contents = [] := rfl

theorem isEmpty_iff (r : Ring N) : r.isEmpty = true ↔ r.contents = [] := by
  rw [← List.length_eq_zero_iff, length_contents]
  exact beq_iff_eq

theorem takeLoop_fst (count : Nat) (small : head < N) :
    (takeLoop N buf count head).1 = (List.range count).map fun i => buf ((head + i) % N) := by
  induction count generalizing head with
  | zero => rfl
  | succ count ih =>
    have pos : 0 < N := lt_of_le_of_lt (Nat.zero_le _) small
    have rest := ih (Nat.mod_lt (head + 1) pos)
    rw [takeLoop, List.range_succ_eq_map, List.map_cons, List.map_map]
    refine congrArg₂ List.cons ?_ ?_
    · rw [add_zero, Nat.mod_eq_of_lt small]
    · rw [rest]
      refine List.map_congr_left fun i _ => congrArg buf ?_
      rw [Nat.mod_add_mod, add_assoc, add_comm 1 i]

theorem takeLoop_snd (count : Nat) (small : head < N) :
    (takeLoop N buf count head).2 = (head + count) % N := by
  induction count generalizing head with
  | zero => exact (Nat.mod_eq_of_lt small).symm
  | succ count ih =>
    have pos : 0 < N := lt_of_le_of_lt (Nat.zero_le _) small
    show (takeLoop N buf count ((head + 1) % N)).2 = _
    rw [ih (Nat.mod_lt _ pos), Nat.mod_add_mod, add_assoc, add_comm 1 count]

theorem take_fst (r : Ring N) (want : Nat) : (r.take want).1 = r.contents.take want := by
  show (takeLoop N r.buf (min want r.len) r.head).1 = _
  rw [takeLoop_fst _ r.head_lt]
  unfold contents
  rw [← List.map_take, List.take_range]

theorem contents_take (r : Ring N) (want : Nat) : (r.take want).2.contents = r.contents.drop want := by
  refine List.ext_getElem ?_ fun i _ _ => ?_
  · simp only [length_contents, List.length_drop]
    show r.len - min want r.len = r.len - want
    omega
  · have pos : 0 < N := lt_of_le_of_lt (Nat.zero_le _) r.head_lt
    have within : i < r.len - want := by
      simpa [List.length_drop] using ‹i < (r.contents.drop want).length›
    have all : min want r.len = want := by omega
    simp only [contents, List.getElem_map, List.getElem_range, List.getElem_drop]
    show r.buf (((takeLoop N r.buf (min want r.len) r.head).2 + i) % N) = _
    rw [takeLoop_snd _ r.head_lt, all, Nat.mod_add_mod, add_assoc]

theorem putLoop_of_lt (src : List UInt8) (fits : len + src.length ≤ N) (old : i < len) :
    putLoop N head buf len src ((head + i) % N) = buf ((head + i) % N) := by
  induction src generalizing buf len with
  | nil => rfl
  | cons byte rest ih =>
    rw [List.length_cons] at fits
    rw [putLoop, ih (by omega) (by omega), Function.update_of_ne]
    -- Two places in the ring that are less than `N` apart are different.
    intro same
    have apart : i % N = len % N := Nat.ModEq.add_left_cancel' head same
    rw [Nat.mod_eq_of_lt (by omega), Nat.mod_eq_of_lt (by omega)] at apart
    omega

theorem putLoop_of_ge (src : List UInt8) (fits : len + src.length ≤ N) (small : i < src.length) :
    putLoop N head buf len src ((head + (len + i)) % N) = src[i] := by
  induction src generalizing buf len i with
  | nil => cases small
  | cons byte rest ih =>
    rw [List.length_cons] at fits small
    rw [putLoop]
    cases i with
    | zero =>
      rw [putLoop_of_lt rest (by omega) (by omega), add_zero, Function.update_self]
      rfl
    | succ i =>
      rw [show len + (i + 1) = len + 1 + i by omega, ih (by omega) (by omega)]
      rfl

theorem put_fst (r : Ring N) (src : List UInt8) : (r.put src).1 = min src.length r.room := rfl

theorem contents_put (r : Ring N) (src : List UInt8) :
    (r.put src).2.contents = r.contents ++ src.take (r.put src).1 := by
  have lenLe := r.len_le
  have countLe : min src.length r.room ≤ r.room := min_le_right _ _
  have room : r.room = N - r.len := rfl
  have length : (src.take (min src.length r.room)).length = min src.length r.room := by
    rw [List.length_take]
    omega
  refine List.ext_getElem ?_ fun i small _ => ?_
  · rw [List.length_append, length_contents, length_contents, put_fst, length]
    rfl
  · have bound : i < r.len + min src.length r.room := by
      rw [length_contents] at small
      exact small
    rw [List.getElem_append]
    simp only [contents, List.getElem_map, List.getElem_range, List.length_map, List.length_range]
    show putLoop N r.head r.buf r.len (src.take (min src.length r.room)) ((r.head + i) % N) = _
    by_cases old : i < r.len
    · rw [dif_pos old, putLoop_of_lt _ (by rw [length]; omega) old]
    · rw [dif_neg old]
      have place : r.head + i = r.head + (r.len + (i - r.len)) := by omega
      rw [place, putLoop_of_ge _ (by rw [length]; omega) (by rw [length]; omega)]
      rfl

end Ring

end Zaytos.Kernel

/-! The ring is a bounded queue: whatever is put and taken, it answers like a list. -/
namespace Zaytos.Kernel

inductive RingCall where
  | put (src : List UInt8)
  | take (dst : List UInt8)

structure RingReply where
  count : Nat
  slice : List UInt8
  deriving DecidableEq

/-- Copy `bytes` to the front of `dst`. -/
def copiedInto (dst bytes : List UInt8) : List UInt8 := bytes ++ dst.drop bytes.length

namespace Ring

variable {N : Nat}

def call (r : Ring N) : RingCall → RingReply × Ring N
  | .put src => (⟨(r.put src).1, src⟩, (r.put src).2)
  | .take dst =>
    let out := r.take dst.length
    (⟨out.1.length, copiedInto dst out.1⟩, out.2)

def calls (r : Ring N) : List RingCall → List RingReply × Ring N
  | [] => ([], r)
  | first :: rest =>
    let after := (r.call first).2.calls rest
    ((r.call first).1 :: after.1, after.2)

end Ring

/-- A list that is used as a queue of at most `capacity` bytes. -/
structure ByteQueue (capacity : Nat) where
  bytes : List UInt8
  length_le : bytes.length ≤ capacity

namespace ByteQueue

variable {capacity : Nat}

def empty : ByteQueue capacity := ⟨[], Nat.zero_le _⟩

/-- What of `src` there is place for: its longest part from the front that fits. -/
def fitting (q : ByteQueue capacity) (src : List UInt8) : List UInt8 :=
  src.take (capacity - q.bytes.length)

theorem length_fitting (q : ByteQueue capacity) (src : List UInt8) :
    (q.fitting src).length = min (capacity - q.bytes.length) src.length := by
  simp [fitting]

def call (q : ByteQueue capacity) : RingCall → RingReply × ByteQueue capacity
  | .put src =>
    (⟨(q.fitting src).length, src⟩, ⟨q.bytes ++ q.fitting src, by
      have full := q.length_le
      rw [List.length_append, length_fitting]
      omega⟩)
  | .take dst =>
    (⟨(q.bytes.take dst.length).length, copiedInto dst (q.bytes.take dst.length)⟩,
      ⟨q.bytes.drop dst.length, by
        have full := q.length_le
        rw [List.length_drop]
        omega⟩)

def calls (q : ByteQueue capacity) : List RingCall → List RingReply × ByteQueue capacity
  | [] => ([], q)
  | first :: rest =>
    let after := (q.call first).2.calls rest
    ((q.call first).1 :: after.1, after.2)

end ByteQueue

namespace Ring

variable {N : Nat}

theorem room_add_len (r : Ring N) : r.room + r.len = N := Nat.sub_add_cancel r.len_le

def queue (r : Ring N) : ByteQueue N := ⟨r.contents, by
  rw [length_contents]
  exact r.len_le⟩

theorem fitting_queue (r : Ring N) (src : List UInt8) :
    r.queue.fitting src = src.take (r.put src).1 := by
  show src.take (N - r.contents.length) = src.take (min src.length (N - r.len))
  rw [length_contents]
  simp [Nat.min_comm]

theorem call_queue (r : Ring N) (c : RingCall) :
    r.queue.call c = ((r.call c).1, (r.call c).2.queue) := by
  cases c with
  | put src =>
    have count : (src.take (r.put src).1).length = (r.put src).1 := by
      simp [put_fst]
    simp only [ByteQueue.call, fitting_queue, count]
    simp only [call, queue, contents_put]
  | take dst =>
    simp only [ByteQueue.call, call, queue, take_fst, contents_take]

theorem calls_queue (cs : List RingCall) (r : Ring N) :
    r.queue.calls cs = ((r.calls cs).1, (r.calls cs).2.queue) := by
  induction cs generalizing r with
  | nil => rfl
  | cons first rest ih =>
    rw [ByteQueue.calls, call_queue]
    simp only [ih]
    rfl

/-- From the empty ring on, every run of calls is answered as by a list that is used as a queue,
and the ring stands for that list when it ends. -/
theorem answers_as_queue (pos : 0 < N) (cs : List RingCall) :
    let queue := (ByteQueue.empty : ByteQueue N).calls cs
    let ring := ((empty pos).calls cs).2
    ((empty pos).calls cs).1 = queue.1 ∧ ring.contents = queue.2.bytes ∧
      ring.len = queue.2.bytes.length ∧ ring.head < N ∧ ring.len ≤ N ∧
      ring.room + ring.len = N := by
  intro queue ring
  have same : queue = (((empty pos).calls cs).1, ring.queue) := calls_queue cs (empty pos)
  have bytes : ring.contents = queue.2.bytes := by
    rw [same]
    rfl
  refine ⟨?_, bytes, ?_, ring.head_lt, ring.len_le, ring.room_add_len⟩
  · rw [same]
  · rw [← bytes, length_contents]

/-- Around the end of a ring of four bytes, with more bytes than there is room for. -/
theorem answers_as_queue_four :
    let cs := [.put [1, 2, 3], .take [0, 0], .put [4, 5, 6, 7], .take [0, 0, 0, 0, 9]]
    ((empty (by decide : 0 < 4)).calls cs).1 =
      [⟨3, [1, 2, 3]⟩, ⟨2, [1, 2]⟩, ⟨3, [4, 5, 6, 7]⟩, ⟨4, [3, 4, 5, 6, 9]⟩] := by
  intro cs
  have answers := (answers_as_queue (by decide : 0 < 4) cs).1
  rw [answers]
  decide

end Ring

end Zaytos.Kernel
