import Mathlib.Data.List.Infix
import Zaytos.Kernel.Keyboard
import Zaytos.Kernel.Ring
import Zaytos.Lib.Transition

set_option autoImplicit false

/-! What is typed reaches the reader whole and in order, however the reads cut it. -/
namespace Zaytos.Kernel

namespace Decoder

def events (us : Bool) : Decoder → List UInt8 → List KeyEvent
  | _, [] => []
  | d, code :: rest => (d.feed us code).1.toList ++ events us (d.feed us code).2 rest

def typed (us : Bool) (d : Decoder) (codes : List UInt8) : List UInt8 :=
  (d.events us codes).flatMap bytesForEvent

theorem events_append (us : Bool) (d : Decoder) (codes more : List UInt8) :
    d.events us (codes ++ more) = d.events us codes ++ (d.feedAll us codes).events us more := by
  induction codes generalizing d with
  | nil => rfl
  | cons code rest ih =>
    rw [List.cons_append, events, events, ih, List.append_assoc]
    rfl

theorem typed_append (us : Bool) (d : Decoder) (codes more : List UInt8) :
    d.typed us (codes ++ more) = d.typed us codes ++ (d.feedAll us codes).typed us more := by
  simp only [typed, events_append, List.flatMap_append]

theorem typed_singleton (us : Bool) (d : Decoder) (code : UInt8) :
    d.typed us [code] = (d.feed us code).1.toList.flatMap bytesForEvent := by
  simp [typed, events]

end Decoder

theorem bytesForEvent_length_le (event : KeyEvent) : (bytesForEvent event).length ≤ 4 := by
  cases event with
  | char c =>
    simp only [bytesForEvent]
    split <;> simp
  | _ => simp [bytesForEvent]

namespace Input

theorem deliver_of_fits {room : Nat} {out pending : List UInt8} (bytes : List UInt8)
    (fits : out.length ≤ room)
    (enough : out.length + pending.length + bytes.length ≤ room + pendingCapacity)
    (first : pending = [] ∨ out.length = room) :
    (deliver room out pending bytes).1 = out ++ bytes.take (room - out.length) ∧
      (deliver room out pending bytes).2 = pending ++ bytes.drop (room - out.length) := by
  induction bytes generalizing out pending with
  | nil => simp [deliver]
  | cons byte rest ih =>
    rw [List.length_cons] at enough
    by_cases space : out.length < room
    · have none : pending = [] := first.resolve_right (by omega)
      have more : room - out.length = (room - (out ++ [byte]).length) + 1 := by
        rw [List.length_append, List.length_singleton]
        omega
      have copied := @ih (out ++ [byte]) pending
        (by rw [List.length_append, List.length_singleton]; omega)
        (by rw [List.length_append, List.length_singleton]; omega) (.inl none)
      rw [deliver, if_pos space, more, List.take_succ_cons, List.drop_succ_cons]
      simpa using copied
    · have full : room - out.length = 0 := by omega
      have waits : pending.length < pendingCapacity := by omega
      have copied := @ih out (pending ++ [byte]) fits
        (by rw [List.length_append, List.length_singleton]; omega) (.inr (by omega))
      rw [deliver, if_neg space, if_pos waits]
      rw [full] at copied ⊢
      simpa using copied

end Input

/-- The array behind `ScancodeRing`: `len` codes from `tail` on, around the end. -/
structure ScancodeSlots where
  storage : Nat → UInt8
  head : Nat
  tail : Nat
  len : Nat
  head_eq : head = (tail + len) % scancodeCapacity
  tail_lt : tail < scancodeCapacity
  len_le : len ≤ scancodeCapacity

theorem ScancodeRing.drop_drop (r : ScancodeRing) (count : Nat) :
    (r.drop 1).drop count = r.drop (count + 1) := by
  simp [ScancodeRing.drop]

inductive ScancodeCall where
  | push (code : UInt8)
  | pop

/-- What calls of a bounded list answer: a `push` whether there was room, a `pop` the code. -/
def ScancodeRing.answers : ScancodeRing → List ScancodeCall → List (Bool ⊕ Option UInt8)
  | _, [] => []
  | r, .push code :: rest => .inl (r.push code).1 :: answers (r.push code).2 rest
  | r, .pop :: rest => .inr r.codes.head? :: answers (r.drop 1) rest

namespace ScancodeSlots

def new : ScancodeSlots := ⟨fun _ => 0, 0, 0, 0, rfl, by decide, by decide⟩

def push (s : ScancodeSlots) (code : UInt8) : Bool × ScancodeSlots :=
  if full : s.len = scancodeCapacity then (false, s)
  else (true, ⟨Function.update s.storage s.head code, (s.head + 1) % scancodeCapacity, s.tail,
    s.len + 1, by rw [s.head_eq, Nat.mod_add_mod, add_assoc], s.tail_lt,
    Nat.lt_of_le_of_ne s.len_le full⟩)

def pop (s : ScancodeSlots) : Option UInt8 × ScancodeSlots :=
  if empty : s.len = 0 then (none, s)
  else (some (s.storage s.tail), ⟨s.storage, s.head, (s.tail + 1) % scancodeCapacity, s.len - 1, by
    rw [s.head_eq, Nat.mod_add_mod]
    congr 1
    omega, Nat.mod_lt _ (by decide), le_trans (Nat.sub_le _ _) s.len_le⟩)

def ring (s : ScancodeSlots) : Ring scancodeCapacity := ⟨s.storage, s.tail, s.len, s.tail_lt, s.len_le⟩

def codes (s : ScancodeSlots) : ScancodeRing :=
  ⟨s.ring.contents, by rw [Ring.length_contents]; exact s.len_le⟩

@[simp] theorem length_codes (s : ScancodeSlots) : s.codes.codes.length = s.len :=
  s.ring.length_contents

theorem push_codes (s : ScancodeSlots) (code : UInt8) :
    (s.push code).1 = (s.codes.push code).1 ∧ (s.push code).2.codes = (s.codes.push code).2 := by
  have isFull : s.codes.isFull = true ↔ s.len = scancodeCapacity := by
    rw [ScancodeRing.isFull, length_codes, beq_iff_eq]
  unfold push ScancodeRing.push
  by_cases full : s.len = scancodeCapacity
  · rw [dif_pos full, dif_pos (isFull.mpr full)]
    exact ⟨rfl, rfl⟩
  · rw [dif_neg full, dif_neg (isFull.not.mpr full)]
    apply And.intro rfl
    have room : 1 ≤ s.ring.room := by
      have := s.len_le
      show 1 ≤ scancodeCapacity - s.len
      omega
    have count : (s.ring.put [code]).1 = 1 := min_eq_left room
    have put : (s.ring.put [code]).2.contents = s.ring.contents ++ [code] := by
      rw [Ring.contents_put, count]
      rfl
    have written : [code].take (min [code].length s.ring.room) = [code] := by
      rw [List.length_singleton, min_eq_left room]
      rfl
    rw [ScancodeRing.mk.injEq]
    show Ring.contents _ = s.ring.contents ++ [code]
    rw [← put]
    apply congrArg Ring.contents
    rw [Ring.put, ring, Ring.mk.injEq, written]
    exact ⟨congrArg (Function.update s.storage · code) s.head_eq, rfl,
      congrArg (s.len + ·) count.symm⟩

theorem pop_codes (s : ScancodeSlots) :
    s.pop.1 = s.codes.codes.head? ∧ s.pop.2.codes = s.codes.drop 1 := by
  unfold pop
  by_cases empty : s.len = 0
  · have none : s.codes.codes = [] := List.length_eq_zero_iff.mp (s.length_codes.trans empty)
    rw [dif_pos empty, none]
    apply And.intro rfl
    rw [ScancodeRing.drop, ScancodeRing.mk.injEq, none]
    rfl
  · have some : min 1 s.ring.len = 1 := min_eq_left (Nat.pos_of_ne_zero empty)
    have first : s.ring.contents.take 1 = [s.storage s.tail] := by
      rw [← Ring.take_fst]
      show (Ring.takeLoop _ _ (min 1 s.ring.len) _).1 = _
      rw [some]
      rfl
    rw [dif_neg empty]
    apply And.intro
    · show _ = s.ring.contents.head?
      have same := @List.head?_take _ s.ring.contents 1
      rw [first, if_neg Nat.one_ne_zero] at same
      exact same
    · rw [ScancodeRing.drop, ScancodeRing.mk.injEq]
      show Ring.contents _ = s.ring.contents.drop 1
      rw [← Ring.contents_take]
      apply congrArg Ring.contents
      simp only [Ring.take, ring, Ring.mk.injEq, true_and]
      rw [show min 1 s.len = 1 from some]
      exact ⟨rfl, rfl⟩

def answers : ScancodeSlots → List ScancodeCall → List (Bool ⊕ Option UInt8)
  | _, [] => []
  | s, .push code :: rest => .inl (s.push code).1 :: answers (s.push code).2 rest
  | s, .pop :: rest => .inr s.pop.1 :: answers s.pop.2 rest

theorem answers_codes (s : ScancodeSlots) (calls : List ScancodeCall) :
    s.answers calls = s.codes.answers calls := by
  induction calls generalizing s with
  | nil => rfl
  | cons call rest ih =>
    cases call with
    | push code =>
      rw [answers, ScancodeRing.answers, ih, (s.push_codes code).1, (s.push_codes code).2]
    | pop => rw [answers, ScancodeRing.answers, ih, s.pop_codes.1, s.pop_codes.2]

/-- The array with its two ends is a bounded queue, whatever is pushed and popped. -/
theorem slots_queue (calls : List ScancodeCall) :
    new.answers calls = ScancodeRing.empty.answers calls :=
  answers_codes new calls

end ScancodeSlots

/-- A call of `read_bytes` that is under way. -/
structure ReadCall where
  room : Nat
  out : List UInt8

structure Delivery where
  input : Input
  call : Option ReadCall
  arrived : List UInt8
  returned : List UInt8
  /-- How many bytes found `PENDING` full. -/
  dropped : Nat

inductive Delivering where
  | arrives (code : UInt8)
  | calls (room : Nat)
  /-- A turn of the loop of `read_bytes`, or its return. -/
  | turns

namespace Delivery

def start (decoder : Decoder) : Delivery := ⟨⟨true, .empty, decoder, [], .new⟩, none, [], [], 0⟩

def out (s : Delivery) : List UInt8 := (s.call.map ReadCall.out).getD []

def returns (s : Delivery) : Delivery :=
  { s with call := none, returned := s.returned ++ s.out }

def takes (us : Bool) (s : Delivery) (call : ReadCall) (code : UInt8) : Delivery :=
  let fed := s.input.decoder.feed us code
  let bytes := match fed.1 with
    | none => []
    | some event => bytesForEvent event
  let copied := Input.deliver call.room call.out s.input.pending bytes
  { s with
    input := { s.input with
      ring := s.input.ring.drop 1
      decoder := fed.2
      pending := copied.2 }
    call := some ⟨call.room, copied.1⟩
    dropped := s.dropped + ((call.out.length + s.input.pending.length + bytes.length) -
      (copied.1.length + copied.2.length)) }

/-- One step. The ring is never full when a scancode comes, and only one call is under way. -/
def step (us : Bool) (s : Delivery) : Delivering → Option Delivery
  | .arrives code =>
    if s.input.ring.isFull then none
    else some { s with input := s.input.record code, arrived := s.arrived ++ [code] }
  | .calls room =>
    if s.call.isSome || room == 0 then none
    else some { s with
      input := { s.input with pending := s.input.pending.drop room }
      call := some ⟨room, s.input.pending.take room⟩ }
  | .turns =>
    match s.call with
    | none => none
    | some call =>
      if call.out.length < call.room then
        match s.input.ring.codes with
        | [] => some s.returns
        | code :: _ => some (s.takes us call code)
      else some s.returns

variable {us : Bool} {d : Decoder} {s t : Delivery} {call : ReadCall} {code : UInt8}

@[simp] theorem out_none : out { s with call := none } = [] := rfl

@[simp] theorem out_some : out { s with call := some call } = call.out := rfl

theorem out_of_call (under : s.call = some call) : s.out = call.out := by
  simp [out, under]

theorem out_of_none (idle : s.call = none) : s.out = [] := by
  simp [out, idle]

/-- The bytes of the scancodes that the decoder was fed are where the reader finds them in their
order: returned, in the buffer, or waiting. At most the rest of one control sequence waits, and
only when the buffer is full. -/
structure Exact (us : Bool) (d : Decoder) (s : Delivery) : Prop where
  fed : ∃ codes, s.arrived = codes ++ s.input.ring.codes ∧
    s.input.decoder = d.feedAll us codes ∧
    s.returned ++ s.out ++ s.input.pending = d.typed us codes
  few : s.input.pending.length ≤ 3
  fits : ∀ call, s.call = some call → call.out.length ≤ call.room ∧ 0 < call.room
  clear : ∀ call, s.call = some call → call.out.length < call.room → s.input.pending = []
  kept : s.dropped = 0

theorem start_exact : Exact us d (start d) where
  fed := ⟨[], rfl, rfl, rfl⟩
  few := Nat.zero_le _
  fits := by intro call under; cases under
  clear := by intro call under; cases under
  kept := rfl

theorem Exact.arrives (exact : Exact us d s) (code : UInt8) (space : s.input.ring.isFull = false) :
    Exact us d { s with input := s.input.record code, arrived := s.arrived ++ [code] } := by
  have codes : (s.input.record code).ring.codes = s.input.ring.codes ++ [code] := by
    simp [Input.record, ScancodeRing.push, space]
  exact
    { fed := by
        apply exact.fed.imp
        intro fed holds
        apply And.intro _ holds.2
        show s.arrived ++ [code] = fed ++ (s.input.record code).ring.codes
        rw [codes, holds.1, List.append_assoc]
      few := exact.few
      fits := exact.fits
      clear := exact.clear
      kept := exact.kept }

theorem Exact.calls (exact : Exact us d s) {room : Nat} (idle : s.call = none) (pos : 0 < room) :
    Exact us d { s with
      input := { s.input with pending := s.input.pending.drop room }
      call := some ⟨room, s.input.pending.take room⟩ } where
  fed := by
    apply exact.fed.imp
    intro codes holds
    apply And.intro holds.1 (And.intro holds.2.1 _)
    rw [← holds.2.2, out_of_none idle]
    show s.returned ++ s.input.pending.take room ++ s.input.pending.drop room = _
    rw [List.append_assoc, List.take_append_drop, List.append_nil]
  few := by
    have few := exact.few
    show (s.input.pending.drop room).length ≤ 3
    rw [List.length_drop]
    omega
  fits := by
    intro call under
    cases under
    exact ⟨List.length_take_le _ _, pos⟩
  clear := by
    intro call under
    cases under
    intro less
    apply List.drop_eq_nil_of_le
    have less : (s.input.pending.take room).length < room := less
    rw [List.length_take] at less
    omega
  kept := exact.kept

theorem Exact.returns (exact : Exact us d s) : Exact us d s.returns where
  fed := by
    apply exact.fed.imp
    intro codes holds
    apply And.intro holds.1 (And.intro holds.2.1 _)
    rw [← holds.2.2]
    show s.returned ++ s.out ++ [] ++ s.input.pending = _
    rw [List.append_nil]
  few := exact.few
  fits := by intro call under; cases under
  clear := by intro call under; cases under
  kept := exact.kept

theorem Exact.takes (exact : Exact us d s) (under : s.call = some call)
    (space : call.out.length < call.room) {rest : List UInt8}
    (waits : s.input.ring.codes = code :: rest) : Exact us d (s.takes us call code) := by
  have none := exact.clear call under space
  generalize bytesEq : (match (s.input.decoder.feed us code).1 with
    | Option.none => []
    | some event => bytesForEvent event) = bytes
  have typed : s.input.decoder.typed us [code] = bytes := by
    rw [Decoder.typed_singleton, ← bytesEq]
    cases (s.input.decoder.feed us code).1 <;> simp
  have short : bytes.length ≤ 4 := by
    rw [← bytesEq]
    split
    · exact Nat.zero_le _
    · exact bytesForEvent_length_le _
  have room : pendingCapacity = 8 := rfl
  have copied := @Input.deliver_of_fits call.room call.out [] bytes (le_of_lt space)
    (by rw [List.length_nil]; omega) (.inl rfl)
  have state : s.takes us call code = { s with
      input := { s.input with
        ring := s.input.ring.drop 1
        decoder := (s.input.decoder.feed us code).2
        pending := bytes.drop (call.room - call.out.length) }
      call := some ⟨call.room, call.out ++ bytes.take (call.room - call.out.length)⟩ } := by
    rw [Delivery.takes]
    simp only [bytesEq, none, copied, List.nil_append, List.length_append, List.length_take,
      List.length_drop, List.length_nil]
    congr 1
    omega
  rw [state]
  constructor
  · apply Exists.elim exact.fed
    intro codes holds
    have rest' : (s.input.ring.drop 1).codes = rest := congrArg (List.drop 1) waits
    refine ⟨codes ++ [code], ?_, ?_, ?_⟩
    · show s.arrived = codes ++ [code] ++ (s.input.ring.drop 1).codes
      rw [holds.1, waits, rest', List.append_assoc, List.singleton_append]
    · show (s.input.decoder.feed us code).2 = _
      rw [Decoder.feedAll_append, ← holds.2.1]
      rfl
    · rw [Decoder.typed_append, ← holds.2.1, typed, ← holds.2.2, none, out_of_call under]
      show s.returned ++ (call.out ++ bytes.take (call.room - call.out.length)) ++
        bytes.drop (call.room - call.out.length) = _
      simp [List.append_assoc]
  · show (bytes.drop (call.room - call.out.length)).length ≤ 3
    rw [List.length_drop]
    omega
  · intro other same
    cases same
    apply And.intro _ (exact.fits call under).2
    show (call.out ++ bytes.take (call.room - call.out.length)).length ≤ call.room
    rw [List.length_append, List.length_take]
    omega
  · intro other same
    cases same
    intro less
    apply List.drop_eq_nil_of_le
    have less : (call.out ++ bytes.take (call.room - call.out.length)).length < call.room := less
    rw [List.length_append, List.length_take] at less
    omega
  · exact exact.kept

theorem Exact.next (exact : Exact us d s) {a : Delivering} (stepped : step us s a = some t) :
    Exact us d t := by
  cases a with
  | arrives code =>
    rw [step] at stepped
    split at stepped
    · cases stepped
    · rename_i space
      cases stepped
      exact exact.arrives code (Bool.eq_false_of_not_eq_true space)
  | calls room =>
    rw [step] at stepped
    split at stepped
    · cases stepped
    · rename_i able
      cases stepped
      simp only [Bool.or_eq_true, Option.isSome_iff_ne_none, beq_iff_eq, not_or, not_not] at able
      exact exact.calls able.1 (by omega)
  | turns =>
    rw [step] at stepped
    split at stepped
    · cases stepped
    rename_i call under
    split at stepped
    · rename_i space
      split at stepped
      · cases stepped
        exact exact.returns
      · rename_i code rest waits
        cases stepped
        exact exact.takes under space waits
    · cases stepped
      exact exact.returns

theorem exact_of_reachable (reach : Reachable (step us) (start d) s) : Exact us d s :=
  reach.invariant (P := Exact us d) start_exact fun _ _ _ exact stepped => exact.next stepped

theorem Exact.returned_prefix (exact : Exact us d s) : s.returned <+: d.typed us s.arrived := by
  apply Exists.elim exact.fed
  intro codes holds
  rw [holds.1, Decoder.typed_append, ← holds.2.2, List.append_assoc, List.append_assoc]
  exact List.prefix_append _ _

theorem Exact.returns_nothing (exact : Exact us d s) (under : s.call = some call)
    (nothing : call.out = []) (next : step us s .turns = some t) (ends : t.call = none) :
    t.returned = d.typed us t.arrived := by
  have space : call.out.length < call.room := by
    rw [nothing]
    exact (exact.fits call under).2
  rw [step, under] at next
  dsimp only at next
  rw [if_pos space] at next
  split at next
  · rename_i empty
    cases next
    apply Exists.elim exact.fed
    intro codes holds
    have all := holds.2.2
    rw [exact.clear call under space, List.append_nil] at all
    show s.returned ++ s.out = d.typed us s.arrived
    rw [all, holds.1, empty, List.append_nil]
  · cases next
    cases ends

theorem step_returned {a : Delivering} (next : step us s a = some t) :
    s.returned <+: t.returned := by
  cases a with
  | arrives code =>
    rw [step] at next
    split at next <;> cases next
    exact List.prefix_rfl
  | calls room =>
    rw [step] at next
    split at next <;> cases next
    exact List.prefix_rfl
  | turns =>
    rw [step] at next
    split at next
    · cases next
    split at next
    · split at next <;> cases next
      · exact List.prefix_append _ _
      · exact List.prefix_rfl
    · cases next
      exact List.prefix_append _ _

theorem returned_of_reachable (reach : Reachable (step us) s t) : s.returned <+: t.returned :=
  reach.invariant (P := fun t => s.returned <+: t.returned) List.prefix_rfl
    fun _ _ _ before next => before.trans (step_returned next)

theorem turns_readLoop (codes : List UInt8) (waits : s.input.ring.codes = codes)
    (under : s.call = some call) :
    ∃ n t, runSteps (step us) (List.replicate n .turns) s = some t ∧
      t.call = none ∧ t.arrived = s.arrived ∧
      t.returned = s.returned ++
        (Input.readLoop us call.room codes s.input.decoder call.out s.input.pending).out ∧
      t.input = { s.input with
        ring := s.input.ring.drop
          (Input.readLoop us call.room codes s.input.decoder call.out s.input.pending).taken
        decoder :=
          (Input.readLoop us call.room codes s.input.decoder call.out s.input.pending).decoder
        pending :=
          (Input.readLoop us call.room codes s.input.decoder call.out s.input.pending).pending } := by
  have ends : s.returns.returned = s.returned ++ call.out :=
    congrArg (s.returned ++ ·) (out_of_call under)
  induction codes generalizing s call with
  | nil =>
    refine ⟨1, s.returns, ?_, rfl, rfl, ends, rfl⟩
    simp [runSteps, step, under, waits]
  | cons code rest ih =>
    rw [Input.readLoop]
    by_cases space : call.out.length < call.room
    · rw [if_pos space]
      have left : (s.takes us call code).input.ring.codes = rest := congrArg (List.drop 1) waits
      apply Exists.elim (@ih (s.takes us call code) _ left rfl rfl)
      intro n more
      apply Exists.elim more
      intro t holds
      refine ⟨n + 1, t, ?_, holds.2.1, holds.2.2.1, holds.2.2.2.1, ?_⟩
      · rw [List.replicate_succ, runSteps]
        have first : step us s .turns = some (s.takes us call code) := by
          simp [step, under, waits, space]
        rw [first]
        exact holds.1
      · rw [holds.2.2.2.2]
        show Input.mk _ ((s.input.ring.drop 1).drop _) _ _ _ = _
        rw [ScancodeRing.drop_drop]
        rfl
    · rw [if_neg space]
      refine ⟨1, s.returns, ?_, rfl, rfl, ends, rfl⟩
      simp [runSteps, step, under, space]

/-- The loop of `read_bytes`, taken turn by turn, does what the call computes. -/
theorem run_readBytes (idle : s.call = none) {room : Nat} (pos : 0 < room) :
    ∃ n t, runSteps (step us) (.calls room :: List.replicate n .turns) s = some t ∧
      t.call = none ∧ t.arrived = s.arrived ∧
      t.returned = s.returned ++ (s.input.readBytes us room).1 ∧
      t.input = (s.input.readBytes us room).2 := by
  have begins : step us s (.calls room) = some { s with
      input := { s.input with pending := s.input.pending.drop room }
      call := some ⟨room, s.input.pending.take room⟩ } := by
    rw [step, if_neg]
    simp [idle]
    omega
  simp only [runSteps, begins, Option.bind_some]
  exact @turns_readLoop us _ ⟨room, s.input.pending.take room⟩ _ rfl rfl

theorem run_readBytes_letter : ∃ n t, runSteps (step true) (.calls 4 :: List.replicate n .turns)
    { start .new with input := ⟨true, ⟨[0x1E], by decide⟩, .new, [], .new⟩ } = some t ∧
    t.call = none ∧ t.returned = [0x61] := by
  obtain ⟨n, t, ran, ended, -, returned, -⟩ := @run_readBytes true
    { start .new with input := ⟨true, ⟨[0x1E], by decide⟩, .new, [], .new⟩ } rfl 4 (by decide)
  exact ⟨n, t, ran, ended, returned.trans (by decide)⟩

/-- The keyboard's bytes reach the reader in order, none is dropped, and a call that returns
nothing leaves nothing out. The bytes of one event stand together. -/
theorem delivery_exact (reach : Reachable (step us) (start d) s) :
    s.returned <+: d.typed us s.arrived ∧
    (∀ call t, s.call = some call → call.out = [] → step us s .turns = some t → t.call = none →
      ∀ u, Reachable (step us) t u → u.arrived = t.arrived → u.returned = d.typed us u.arrived) ∧
    s.dropped = 0 ∧
    ∀ before event after, d.events us s.arrived = before ++ event :: after →
      (s.returned.drop (before.flatMap bytesForEvent).length).take (bytesForEvent event).length <+:
        bytesForEvent event := by
  have exact := exact_of_reachable reach
  refine ⟨exact.returned_prefix, ?_, exact.kept, ?_⟩
  · intro call t under nothing next ends u more same
    have all := exact.returns_nothing under nothing next ends
    have later : Exact us d u :=
      more.invariant (P := Exact us d) (exact.next next) fun _ _ _ exact next => exact.next next
    have whole := returned_of_reachable more
    have front := later.returned_prefix
    rw [all] at whole
    rw [same] at front ⊢
    exact front.eq_of_length_le whole.length_le
  · intro before event after events
    have front := exact.returned_prefix
    rw [Decoder.typed, events, List.flatMap_append, List.flatMap_cons] at front
    have rest := List.IsPrefix.take (List.IsPrefix.drop front (before.flatMap bytesForEvent).length)
      (bytesForEvent event).length
    rwa [List.drop_left, List.take_left] at rest

def arrowRun : List Delivering :=
  [.arrives 0xE0, .arrives 0x4B, .calls 1, .turns, .arrives 0x1E, .turns, .turns]

theorem delivery_exact_arrow :
    ∃ s, runSteps (step true) arrowRun (start .new) = some s ∧ s.returned = [0x1B] ∧
      s.input.pending = [0x5B, 0x44] ∧ s.returned <+: Decoder.new.typed true s.arrived := by
  have stops : (runSteps (step true) arrowRun (start .new)).isSome = true := by decide
  have runs := (Option.some_get stops).symm
  exact ⟨_, runs, rfl, rfl, (delivery_exact (Reachable.refl.of_runSteps _ runs)).1⟩

end Delivery

end Zaytos.Kernel
