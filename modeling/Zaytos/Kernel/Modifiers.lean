import Zaytos.Kernel.Keyboard
import Zaytos.Lib.Transition

set_option autoImplicit false

/-! Which keys the foreground decoder takes to be held, while others take scancodes too. -/
namespace Zaytos.Kernel

inductive Stroke where
  | plain (code : Fin 128) (released : Bool) (single : code ≠ 0x60 ∧ code ≠ 0x61)
  | extended (code : Fin 128) (released : Bool)
  | pause
  deriving DecidableEq

namespace Stroke

def byte (code : Fin 128) (released : Bool) : UInt8 :=
  UInt8.ofNat (code.val + if released then 128 else 0)

def bytes : Stroke → List UInt8
  | .plain code released _ => [byte code released]
  | .extended code released => [extendedPrefix, byte code released]
  | .pause => [pausePrefix, 0x1D, 0x45, pausePrefix, 0x9D, 0xC5]

abbrev Keys := Bool → Fin 128 → Bool

def after (keys : Keys) : Stroke → Keys
  | .plain code released _ => Function.update keys false (Function.update (keys false) code !released)
  | .extended code released => Function.update keys true (Function.update (keys true) code !released)
  | .pause => keys

def held (strokes : List Stroke) : Keys := strokes.foldl after fun _ _ => false

theorem byte_plain (code : Fin 128) (released : Bool) (single : code ≠ 0x60 ∧ code ≠ 0x61) :
    byte code released ≠ extendedPrefix ∧ byte code released ≠ pausePrefix ∧
    (byte code released &&& breakBit != 0) = released ∧
    byte code released &&& ~~~breakBit = UInt8.ofNat code.val := by
  revert code released
  decide

theorem byte_extended (code : Fin 128) (released : Bool) :
    (byte code released &&& breakBit == 0) = !released ∧
    byte code released &&& ~~~breakBit = UInt8.ofNat code.val := by
  revert code released
  decide

theorem ofNat_code_inj {code other : Fin 128} (same : UInt8.ofNat code.val = UInt8.ofNat other.val) :
    code = other := by
  have value : ∀ code : Fin 128, (UInt8.ofNat code.val).toNat = code.val := by decide
  have values := congrArg UInt8.toNat same
  rw [value, value] at values
  exact Fin.ext values

end Stroke

namespace Decoder

structure Agrees (d : Decoder) (keys : Stroke.Keys) : Prop where
  idle : d.sequence = .idle
  shiftLeft : d.shiftLeft = keys false 0x2A
  shiftRight : d.shiftRight = keys false 0x36
  ctrl : d.ctrl = true → keys false 0x1D = true ∨ keys true 0x1D = true

variable (us : Bool) {d : Decoder} {keys : Stroke.Keys}

theorem Agrees.plain (agrees : d.Agrees keys) (code : Fin 128) (released : Bool)
    (single : code ≠ 0x60 ∧ code ≠ 0x61) :
    (d.feedAll us (Stroke.plain code released single).bytes).Agrees
      (Stroke.after keys (.plain code released single)) := by
  obtain ⟨notExtended, notPause, released', key⟩ := Stroke.byte_plain code released single
  have fed : d.feedAll us (Stroke.plain code released single).bytes =
      (d.feedIdle us (Stroke.byte code released)).2 := by
    show (d.feed us (Stroke.byte code released)).2 = _
    rw [feed, agrees.idle]
  have other : ∀ k : Fin 128, code ≠ k →
      Stroke.after keys (.plain code released single) false k = keys false k := by
    intro k ne
    rw [Stroke.after, Function.update_self, Function.update_of_ne ne.symm]
  have same : Stroke.after keys (.plain code released single) false code = !released := by
    rw [Stroke.after, Function.update_self, Function.update_self]
  have extended : Stroke.after keys (.plain code released single) true = keys true := by
    rw [Stroke.after, Function.update_of_ne (by decide)]
  have isCode : ∀ k : Fin 128, code ≠ k → UInt8.ofNat code.val ≠ UInt8.ofNat k.val :=
    fun k ne eq => ne (Stroke.ofNat_code_inj eq)
  rw [fed, feedIdle, if_neg notExtended, if_neg notPause, released', key]
  dsimp only
  -- The code is that of a modifier or of another key.
  by_cases left : code = 0x2A
  · subst left
    exact ⟨agrees.idle, same.symm, by rw [other _ (by decide)]; exact agrees.shiftRight,
      by rw [other _ (by decide), extended]; exact agrees.ctrl⟩
  · rw [if_neg (show UInt8.ofNat code.val ≠ scancodeLeftShift from isCode 0x2A left)]
    by_cases right : code = 0x36
    · subst right
      exact ⟨agrees.idle, by rw [other _ (by decide)]; exact agrees.shiftLeft, same.symm,
        by rw [other _ (by decide), extended]; exact agrees.ctrl⟩
    · rw [if_neg (show UInt8.ofNat code.val ≠ scancodeRightShift from isCode 0x36 right)]
      by_cases ctrl : code = 0x1D
      · subst ctrl
        refine ⟨agrees.idle, by rw [other _ (by decide)]; exact agrees.shiftLeft,
          by rw [other _ (by decide)]; exact agrees.shiftRight, fun held => .inl ?_⟩
        rw [same]
        exact held
      · rw [if_neg (show UInt8.ofNat code.val ≠ scancodeCtrl from isCode 0x1D ctrl)]
        have kept : d.Agrees (Stroke.after keys (.plain code released single)) :=
          ⟨agrees.idle, by rw [other _ left]; exact agrees.shiftLeft,
            by rw [other _ right]; exact agrees.shiftRight,
            by rw [other _ ctrl, extended]; exact agrees.ctrl⟩
        split
        · cases released
          · exact ⟨kept.idle, kept.shiftLeft, kept.shiftRight, kept.ctrl⟩
          · exact kept
        · split <;> exact kept

theorem feedExtended_snd (d : Decoder) (code : UInt8) :
    (d.feedExtended code).2 =
      if code &&& ~~~breakBit = scancodeCtrl then
        { d with sequence := .idle, ctrl := code &&& breakBit == 0 }
      else { d with sequence := .idle } := by
  by_cases ctrl : code &&& ~~~breakBit = scancodeCtrl
  · have others : code ≠ scancodeArrowLeft ∧ code ≠ scancodeArrowRight ∧ code ≠ scancodeArrowUp ∧
        code ≠ scancodeArrowDown ∧ code ≠ scancodeDelete ∧ code ≠ scancodeHome ∧
        code ≠ scancodeEnd := by
      refine ⟨?_, ?_, ?_, ?_, ?_, ?_, ?_⟩ <;>
      · rintro rfl
        revert ctrl
        decide
    obtain ⟨left, right, up, down, delete, home, last⟩ := others
    rw [feedExtended, if_neg left, if_neg right, if_neg up, if_neg down, if_neg delete, if_neg home,
      if_neg last, if_pos ctrl, if_pos ctrl]
  · rw [if_neg ctrl, feedExtended]
    split_ifs <;> rfl

theorem Agrees.extended (agrees : d.Agrees keys) (code : Fin 128) (released : Bool) :
    (d.feedAll us (Stroke.extended code released).bytes).Agrees
      (Stroke.after keys (.extended code released)) := by
  obtain ⟨released', key⟩ := Stroke.byte_extended code released
  have fed : d.feedAll us (Stroke.extended code released).bytes =
      ({ d with sequence := .extended }.feedExtended (Stroke.byte code released)).2 := by
    have first : (d.feed us extendedPrefix).2 = { d with sequence := .extended } := by
      rw [feed, agrees.idle]
      rfl
    show (((d.feed us extendedPrefix).2).feed us (Stroke.byte code released)).2 = _
    rw [first]
    rfl
  have plain : Stroke.after keys (.extended code released) false = keys false := by
    rw [Stroke.after, Function.update_of_ne (by decide)]
  have kept : code ≠ 0x1D →
      { d with sequence := .idle }.Agrees (Stroke.after keys (.extended code released)) := by
    intro ne
    refine ⟨rfl, by rw [plain]; exact agrees.shiftLeft, by rw [plain]; exact agrees.shiftRight, ?_⟩
    rw [plain, Stroke.after, Function.update_self, Function.update_of_ne ne.symm]
    exact agrees.ctrl
  rw [fed, feedExtended_snd]
  by_cases ctrl : code = 0x1D
  · subst ctrl
    rw [if_pos (show Stroke.byte 0x1D released &&& ~~~breakBit = scancodeCtrl from key), released']
    refine ⟨rfl, by rw [plain]; exact agrees.shiftLeft, by rw [plain]; exact agrees.shiftRight,
      fun held => .inr ?_⟩
    rw [Stroke.after, Function.update_self, Function.update_self]
    exact held
  · have other : UInt8.ofNat code.val ≠ scancodeCtrl := fun eq =>
      ctrl (Stroke.ofNat_code_inj (show _ = UInt8.ofNat (0x1D : Fin 128).val from eq))
    rw [key, if_neg other]
    exact kept ctrl

theorem Agrees.pause (agrees : d.Agrees keys) :
    (d.feedAll us Stroke.pause.bytes).Agrees (Stroke.after keys .pause) := by
  have fed : d.feedAll us Stroke.pause.bytes = d := by
    obtain ⟨shiftLeft, shiftRight, capsLock, ctrl, sequence⟩ := d
    obtain rfl : sequence = .idle := agrees.idle
    rfl
  rw [fed]
  exact agrees

theorem Agrees.strokes (agrees : d.Agrees keys) (strokes : List Stroke) :
    (d.feedAll us (strokes.flatMap Stroke.bytes)).Agrees (strokes.foldl Stroke.after keys) := by
  induction strokes generalizing d keys with
  | nil => exact agrees
  | cons stroke rest ih =>
    rw [List.flatMap_cons, feedAll_append, List.foldl_cons]
    refine ih ?_
    cases stroke with
    | plain code released single => exact agrees.plain us code released single
    | extended code released => exact agrees.extended us code released
    | pause => exact agrees.pause us

theorem new_agrees : Decoder.new.Agrees fun _ _ => false :=
  ⟨rfl, rfl, rfl, fun held => Bool.noConfusion held⟩

theorem new_feedAll_of_released {strokes : List Stroke}
    (released : ∀ extended code, Stroke.held strokes extended code = false) :
    (new.feedAll us (strokes.flatMap Stroke.bytes)).ctrl = false ∧
    (new.feedAll us (strokes.flatMap Stroke.bytes)).shift = false ∧
    (new.feedAll us (strokes.flatMap Stroke.bytes)).sequence = .idle := by
  have agrees := new_agrees.strokes us strokes
  refine ⟨Bool.eq_false_iff.mpr fun held => ?_, ?_, agrees.idle⟩
  · rcases agrees.ctrl held with left | right
    · exact Bool.noConfusion (left.symm.trans (released false 0x1D))
    · exact Bool.noConfusion (right.symm.trans (released true 0x1D))
  · rw [shift, agrees.shiftLeft, agrees.shiftRight]
    exact Bool.or_eq_false_iff.mpr ⟨released false 0x2A, released false 0x36⟩

end Decoder

/-- The keyboard input and, to compare with, what has been received and who took it. -/
structure InputSystem where
  input : Input
  received : List UInt8
  skipped : List UInt8
  decodes : List (Decoder × Nat)

namespace InputSystem

def init : InputSystem := ⟨.init, [], [], []⟩

inductive Action where
  | key (code : UInt8)
  | readBytes (room : Nat)
  | readEvents (sec usec room : Nat)
  | discardTypedInput
  | drainKeyboard
  | claimForeground (slot : Nat)
  | releaseForeground

variable (us : Bool)

def position (s : InputSystem) : Nat := s.received.length - s.input.ring.codes.length

/-- The bytes that `read_bytes` decodes. -/
def decoded (s : InputSystem) (room : Nat) : List (Decoder × Nat) :=
  (List.range (s.input.reading us room).taken).map fun i =>
    (s.input.decoder.feedAll us (s.input.ring.codes.take i), s.position + i)

/-- Another consumer takes what is missing from the ring of `input`. -/
def skip (s : InputSystem) (input : Input) : InputSystem :=
  { s with
    input
    skipped := s.skipped ++
      s.input.ring.codes.take (s.input.ring.codes.length - input.ring.codes.length) }

def step (s : InputSystem) : Action → Option InputSystem
  | .key code =>
    if s.input.ring.isFull then none
    else some { s with input := s.input.record code, received := s.received ++ [code] }
  | .readBytes room => some { s with
      input := (s.input.readBytes us room).2
      skipped := if (s.input.reading us room).taken = 0 then s.skipped else []
      decodes := s.decodes ++ s.decoded us room }
  | .readEvents sec usec room => some (s.skip (s.input.readEvents sec usec room).2)
  | .discardTypedInput => some (s.skip s.input.discardTypedInput)
  | .drainKeyboard => some (s.skip (s.input.drainKeyboard us))
  | .claimForeground slot => some { s with input := (s.input.claimForeground slot).2 }
  | .releaseForeground => some { s with input := s.input.releaseForeground }

/-- Whenever a byte was decoded, the decoder was that of someone who saw every byte before. -/
def InStep (s : InputSystem) : Prop :=
  ∀ entry ∈ s.decodes, entry.1 = Decoder.new.feedAll us (s.received.take entry.2)

/-- When a byte is decoded, what others took in between makes no difference to the decoder. -/
def Careful (s : InputSystem) : Action → Prop
  | .readBytes room => (s.input.reading us room).taken ≠ 0 →
      s.input.decoder.feedAll us s.skipped = s.input.decoder
  | _ => True

instance (s : InputSystem) : (a : Action) → Decidable (Careful us s a)
  | .readBytes room => inferInstanceAs (Decidable ((s.input.reading us room).taken ≠ 0 →
      s.input.decoder.feedAll us s.skipped = s.input.decoder))
  | .key _ | .readEvents .. | .discardTypedInput | .drainKeyboard | .claimForeground _
  | .releaseForeground => .isTrue trivial

def carefulStep (s : InputSystem) (a : Action) : Option InputSystem :=
  if Careful us s a then s.step us a else none

/-- The decoder has seen what came before, up to what others took since it last decoded. -/
structure Ok (s : InputSystem) : Prop where
  split : ∃ seen, s.received = seen ++ s.skipped ++ s.input.ring.codes ∧
    s.input.decoder = Decoder.new.feedAll us seen
  inStep : s.InStep us
  within : ∀ entry ∈ s.decodes, entry.2 ≤ s.received.length

variable {us} {s t : InputSystem}

theorem ok_init : init.Ok us :=
  ⟨⟨[], rfl, rfl⟩, fun _ mem => absurd mem List.not_mem_nil, fun _ mem => absurd mem List.not_mem_nil⟩

theorem Ok.key (ok : s.Ok us) {code : UInt8} (next : s.step us (.key code) = some t) : t.Ok us := by
  obtain ⟨seen, received, decoder⟩ := ok.split
  rw [step] at next
  split at next
  · cases next
  · rename_i room
    obtain rfl := Option.some.inj next
    have pushed : (s.input.record code).ring.codes = s.input.ring.codes ++ [code] := by
      unfold Input.record ScancodeRing.push
      rw [dif_neg room]
    refine ⟨⟨seen, ?_, decoder⟩, fun entry mem => ?_, fun entry mem => ?_⟩
    · show s.received ++ [code] = seen ++ s.skipped ++ (s.input.record code).ring.codes
      rw [pushed, received, List.append_assoc]
    · show entry.1 = Decoder.new.feedAll us ((s.received ++ [code]).take entry.2)
      rw [List.take_append_of_le_length (ok.within entry mem)]
      exact ok.inStep entry mem
    · have := ok.within entry mem
      show entry.2 ≤ (s.received ++ [code]).length
      rw [List.length_append]
      omega

theorem Ok.skip (ok : s.Ok us) {input : Input} (count : Nat)
    (codes : input.ring.codes = s.input.ring.codes.drop count)
    (decoder : input.decoder = s.input.decoder) : (s.skip input).Ok us := by
  obtain ⟨seen, received, fed⟩ := ok.split
  refine ⟨⟨seen, ?_, decoder.trans fed⟩, ok.inStep, ok.within⟩
  show s.received = seen ++ (s.skipped ++ s.input.ring.codes.take
    (s.input.ring.codes.length - input.ring.codes.length)) ++ input.ring.codes
  have taken : s.input.ring.codes.length - input.ring.codes.length =
      min count s.input.ring.codes.length := by
    rw [codes, List.length_drop]
    omega
  have whole : s.input.ring.codes.take (min count s.input.ring.codes.length) =
      s.input.ring.codes.take count := by
    rw [← List.take_take, List.take_length]
  rw [received, taken, whole, codes]
  simp only [List.append_assoc, List.take_append_drop]

theorem Ok.of_input (ok : s.Ok us) {input : Input} (ring : input.ring = s.input.ring)
    (decoder : input.decoder = s.input.decoder) : ({ s with input }).Ok us := by
  obtain ⟨seen, received, fed⟩ := ok.split
  refine ⟨⟨seen, ?_, decoder.trans fed⟩, ok.inStep, ok.within⟩
  show s.received = seen ++ s.skipped ++ input.ring.codes
  rw [ring]
  exact received

theorem Ok.decoded (ok : s.Ok us) (room : Nat) (harmless : s.Careful us (.readBytes room)) :
    ∀ entry ∈ s.decoded us room,
      entry.1 = Decoder.new.feedAll us (s.received.take entry.2) ∧
        entry.2 ≤ s.received.length := by
  intro entry mem
  obtain ⟨i, small, rfl⟩ := List.mem_map.mp mem
  rw [List.mem_range] at small
  have bound : (s.input.reading us room).taken ≤ s.input.ring.codes.length :=
    Input.readLoop_taken_le _ _ _ _ _ _
  obtain ⟨seen, received, decoder⟩ := ok.split
  have length := congrArg List.length received
  rw [List.length_append] at length
  have place : s.position + i = (seen ++ s.skipped).length + i := by
    unfold position
    omega
  have before : s.received.take (s.position + i) =
      seen ++ s.skipped ++ s.input.ring.codes.take i := by
    rw [place, received, List.take_length_add_append]
  refine ⟨?_, ?_⟩
  · dsimp only
    rw [before, Decoder.feedAll_append, Decoder.feedAll_append, ← decoder,
      harmless (by omega)]
  · dsimp only
    omega

theorem Ok.readBytes (ok : s.Ok us) {room : Nat} (harmless : s.Careful us (.readBytes room))
    (next : s.step us (.readBytes room) = some t) : t.Ok us := by
  obtain ⟨seen, received, decoder⟩ := ok.split
  obtain rfl := Option.some.inj next
  have fed : (s.input.reading us room).decoder = s.input.decoder.feedAll us
      (s.input.ring.codes.take (s.input.reading us room).taken) :=
    Input.readLoop_decoder _ _ _ _ _ _
  have new := ok.decoded room harmless
  refine ⟨?_, fun entry mem => ?_, fun entry mem => ?_⟩
  · show ∃ seen, s.received = seen ++ (if (s.input.reading us room).taken = 0 then s.skipped else []) ++
      s.input.ring.codes.drop (s.input.reading us room).taken ∧
      (s.input.reading us room).decoder = Decoder.new.feedAll us seen
    by_cases none : (s.input.reading us room).taken = 0
    · refine ⟨seen, ?_, ?_⟩
      · rw [if_pos none, none, List.drop_zero]
        exact received
      · rw [fed, none, List.take_zero, decoder]
        rfl
    · refine ⟨seen ++ s.skipped ++ s.input.ring.codes.take (s.input.reading us room).taken, ?_, ?_⟩
      · rw [if_neg none, List.append_nil, List.append_assoc _ (List.take _ _), List.take_append_drop]
        exact received
      · rw [fed, Decoder.feedAll_append, Decoder.feedAll_append, ← decoder, harmless none]
  · rcases List.mem_append.mp mem with old | isNew
    · exact ok.inStep entry old
    · exact (new entry isNew).1
  · rcases List.mem_append.mp mem with old | isNew
    · exact ok.within entry old
    · exact (new entry isNew).2

theorem Ok.step (ok : s.Ok us) {a : Action} (next : s.carefulStep us a = some t) : t.Ok us := by
  obtain ⟨harmless, next⟩ := Option.ite_none_right_eq_some.mp next
  cases a with
  | key code => exact ok.key next
  | readBytes room => exact ok.readBytes harmless next
  | readEvents sec usec room => exact Option.some.inj next ▸ ok.skip _ rfl rfl
  | discardTypedInput =>
    exact Option.some.inj next ▸ ok.skip s.input.ring.codes.length List.drop_length.symm rfl
  | drainKeyboard =>
    obtain rfl := Option.some.inj next
    unfold Input.drainKeyboard
    split
    · exact ok.skip 0 rfl rfl
    · exact ok.skip s.input.ring.codes.length List.drop_length.symm rfl
  | claimForeground slot =>
    obtain rfl := Option.some.inj next
    unfold Input.claimForeground
    split
    · exact ok
    · split
      · exact ok
      · exact ok.of_input rfl rfl
  | releaseForeground => exact Option.some.inj next ▸ ok.of_input rfl rfl

theorem Ok.careful_of_inStep (ok : s.Ok us) {room : Nat}
    (next : s.step us (.readBytes room) = some t) (inStep : t.InStep us) :
    s.Careful us (.readBytes room) := by
  intro some
  obtain rfl := Option.some.inj next
  obtain ⟨seen, received, decoder⟩ := ok.split
  have length := congrArg List.length received
  rw [List.length_append] at length
  have first : (s.input.decoder, s.position) ∈ s.decodes ++ s.decoded us room := by
    refine List.mem_append_right _ (List.mem_map.mpr ⟨0, List.mem_range.mpr ?_, rfl⟩)
    exact Nat.pos_of_ne_zero some
  have same := inStep _ first
  dsimp only at same
  have place : s.position = (seen ++ s.skipped).length := by
    unfold position
    omega
  rw [place, received, List.take_left, Decoder.feedAll_append, ← decoder] at same
  exact same.symm

/-- In every run in which others take nothing that matters, each byte is decoded with the
modifiers of someone who saw every byte before it. Whether the next read keeps this is
exactly whether what others took since the last one mattered. When every key is up, nothing
is taken to be held, and no key of two bytes is split. -/
theorem modifiers_in_step (reach : Reachable (carefulStep us) init s) :
    s.InStep us ∧
    (∀ room t, s.step us (.readBytes room) = some t →
      (t.InStep us ↔ s.Careful us (.readBytes room))) ∧
    ∀ entry ∈ s.decodes, ∀ strokes : List Stroke,
      s.received.take entry.2 = strokes.flatMap Stroke.bytes →
      (∀ extended code, Stroke.held strokes extended code = false) →
      entry.1.ctrl = false ∧ entry.1.shift = false ∧ entry.1.sequence = .idle := by
  have ok : s.Ok us := reach.invariant ok_init fun _ _ _ ok next => ok.step next
  refine ⟨ok.inStep, fun room t next => ⟨ok.careful_of_inStep next, fun harmless => ?_⟩,
    fun entry mem strokes codes released => ?_⟩
  · exact (ok.readBytes harmless next).inStep
  · rw [ok.inStep entry mem, codes]
    exact Decoder.new_feedAll_of_released us released

/-- Ctrl goes down and is decoded, and is up again when `a` is decoded. -/
theorem modifiers_in_step_ctrl : ∃ s, Reachable (carefulStep false) init s ∧
    s.decodes.length = 3 ∧ s.InStep false := by
  have run : ((runSteps (carefulStep false) [.claimForeground 0, .key 0x1D, .readBytes 1,
      .key 0x9D, .key 0x1E, .readBytes 1] init).map fun s => s.decodes.length) = some 3 := by
    decide
  obtain ⟨s, run, length⟩ := Option.map_eq_some_iff.mp run
  have reach := Reachable.refl.of_runSteps _ run
  exact ⟨s, reach, length, (modifiers_in_step reach).1⟩

/-- Ctrl goes down and is decoded; its release is thrown away with the rest of what was typed,
and `a` is decoded as if Ctrl were held. -/
theorem modifiers_stick : ∃ s, Reachable (step false) init s ∧ ¬ s.InStep false := by
  have run : ((runSteps (step false) [.claimForeground 0, .key 0x1D, .readBytes 1, .key 0x9D,
      .discardTypedInput, .key 0x1E, .readBytes 1] init).map fun s =>
        (s.decodes.getLast?.map fun entry => (entry.1.ctrl, entry.2), s.received)) =
      some (some (true, 2), [0x1D, 0x9D, 0x1E]) := by
    decide
  obtain ⟨s, run, eq⟩ := Option.map_eq_some_iff.mp run
  obtain ⟨last, received⟩ := Prod.mk.inj eq
  obtain ⟨entry, isLast, fields⟩ := Option.map_eq_some_iff.mp last
  obtain ⟨ctrl, place⟩ := Prod.mk.inj fields
  refine ⟨s, Reachable.refl.of_runSteps _ run, fun inStep => ?_⟩
  have same := inStep entry (List.mem_of_getLast? isLast)
  rw [place, received] at same
  rw [same] at ctrl
  revert ctrl
  decide

end InputSystem

end Zaytos.Kernel
