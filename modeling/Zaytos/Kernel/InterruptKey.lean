import Zaytos.Kernel.Modifiers

set_option autoImplicit false

/-! The interrupt side looks for Ctrl+C in the scancodes by itself, beside the decoder. -/
namespace Zaytos.Kernel

abbrev scancodeC : UInt8 := 0x2E
abbrev ctrlCByte : UInt8 := 0x03

/-- The flags `note_scancode_for_interrupt` keeps. -/
structure InterruptKey where
  interruptRequested : Bool
  ctrlDown : Bool
  extendedPending : Bool
  pauseRemaining : Nat
  deriving DecidableEq, Repr

namespace InterruptKey

def init : InterruptKey := ⟨false, false, false, 0⟩

/-- `note_scancode_for_interrupt`. -/
def noteScancode (s : InterruptKey) (code : UInt8) : InterruptKey :=
  if 0 < s.pauseRemaining then { s with pauseRemaining := s.pauseRemaining - 1 }
  else if code = pausePrefix then { s with pauseRemaining := pauseTrailingBytes }
  else if code = extendedPrefix then { s with extendedPending := true }
  else
    -- The prefix is forgotten here, whatever the key.
    let s := { s with extendedPending := false }
    let released := code &&& breakBit != 0
    let key := code &&& ~~~breakBit
    if key = scancodeCtrl then { s with ctrlDown := !released }
    else if !released && key == scancodeC && s.ctrlDown then { s with interruptRequested := true }
    else s

def takeInterruptRequest (s : InterruptKey) : Bool × InterruptKey :=
  (s.interruptRequested, { s with interruptRequested := false })

/-- This scancode sets `INTERRUPT_REQUESTED`, also when it was taken just before. -/
def requests (s : InterruptKey) (code : UInt8) : Bool :=
  (s.takeInterruptRequest.2.noteScancode code).interruptRequested

def noteAll (s : InterruptKey) (codes : List UInt8) : InterruptKey := codes.foldl noteScancode s

theorem noteAll_append (s : InterruptKey) (codes more : List UInt8) :
    s.noteAll (codes ++ more) = (s.noteAll codes).noteAll more :=
  List.foldl_append

end InterruptKey

namespace Decoder

variable (us : Bool) (d : Decoder)

def emitsCtrlC (code : UInt8) : Bool :=
  (d.feed us code).1 == some (.char (Char.ofNat ctrlCByte.toNat))

/-- The scancode is none that the two sides take differently: after the prefix of an extended
key that of Pause, or, with Ctrl held, the code that C has without the prefix. -/
def Alike (code : UInt8) : Prop :=
  d.sequence = .extended → code ≠ pausePrefix ∧ ¬(d.ctrl = true ∧ code = scancodeC)

instance (code : UInt8) : Decidable (d.Alike code) :=
  inferInstanceAs (Decidable (_ → _ ∧ ¬(_ ∧ _)))

variable {us d}

theorem forall_byte {P : UInt8 → Prop} (all : ∀ n : Fin 256, P (UInt8.ofNat n.val)) (code : UInt8) :
    P code := by
  have := all ⟨code.toNat, code.toNat_lt⟩
  rwa [UInt8.ofNat_toNat] at this

theorem controlByteFor_eq_ctrlC (key : UInt8) :
    controlByteFor us key = some ctrlCByte ↔ key = scancodeC := by
  revert key
  apply forall_byte
  revert us
  decide +kernel

theorem characterFor_ne_ctrlC (key : UInt8) :
    d.characterFor us key ≠ some (Char.ofNat ctrlCByte.toNat) := by
  have all : ∀ us left right caps : Bool, ∀ n : Fin 256,
      (⟨left, right, caps, false, .idle⟩ : Decoder).characterFor us (UInt8.ofNat n.val) ≠
        some (Char.ofNat ctrlCByte.toNat) := by decide +kernel
  exact forall_byte
    (P := fun key => (⟨d.shiftLeft, d.shiftRight, d.capsLock, false, .idle⟩ : Decoder).characterFor
      us key ≠ some (Char.ofNat ctrlCByte.toNat))
    (all us d.shiftLeft d.shiftRight d.capsLock) key

theorem pressed_eq_ctrlC (key : UInt8) :
    d.pressed us key = .char (Char.ofNat ctrlCByte.toNat) ↔ d.ctrl = true ∧ key = scancodeC := by
  have byteOf : ∀ byte : UInt8,
      Char.ofNat byte.toNat = Char.ofNat ctrlCByte.toNat ↔ byte = ctrlCByte := by
    apply forall_byte
    decide +kernel
  rw [pressed]
  cases control : if d.ctrl then controlByteFor us key else none with
  | some byte =>
    cases held : d.ctrl with
    | false => rw [held] at control; cases control
    | true =>
      rw [held, if_pos rfl] at control
      show KeyEvent.char (Char.ofNat byte.toNat) = .char (Char.ofNat ctrlCByte.toNat) ↔ _
      rw [KeyEvent.char.injEq, byteOf, ← controlByteFor_eq_ctrlC, control,
        Option.some.injEq]
      exact ⟨fun c => ⟨rfl, c⟩, And.right⟩
  | none =>
    -- Without a control byte the key is not C, and no other key gives the character.
    have other : ¬(d.ctrl = true ∧ key = scancodeC) := by
      rintro ⟨held, c⟩
      rw [held, if_pos rfl, (controlByteFor_eq_ctrlC key).mpr c] at control
      cases control
    refine iff_of_false (fun event => ?_) other
    dsimp only at event
    split_ifs at event
    · exact absurd event (by decide)
    · split at event
      · rename_i character found
        rw [KeyEvent.char.injEq] at event
        exact characterFor_ne_ctrlC key (event ▸ found)
      · cases event

theorem feedIdle_emits (code : UInt8) (single : code ≠ extendedPrefix ∧ code ≠ pausePrefix) :
    (d.feedIdle us code).1 = some (.char (Char.ofNat ctrlCByte.toNat)) ↔
      (code &&& breakBit != 0) = false ∧ code &&& ~~~breakBit = scancodeC ∧ d.ctrl = true := by
  rw [feedIdle, if_neg single.1, if_neg single.2]
  dsimp only
  by_cases c : code &&& ~~~breakBit = scancodeC
  · rw [c, if_neg (by decide), if_neg (by decide), if_neg (by decide), if_neg (by decide)]
    cases released : (code &&& breakBit != 0)
    · rw [if_neg (by decide), Option.some.injEq, pressed_eq_ctrlC]
      simp
    · rw [if_pos rfl]
      exact iff_of_false (by simp) (by simp)
  · refine iff_of_false (fun emitted => ?_) (fun held => c held.2.1)
    split_ifs at emitted
    rw [Option.some.injEq, pressed_eq_ctrlC] at emitted
    exact c emitted.2

variable (us) in
theorem feedIdle_state (code : UInt8) (single : code ≠ extendedPrefix ∧ code ≠ pausePrefix) :
    (d.feedIdle us code).2.sequence = d.sequence ∧
    (d.feedIdle us code).2.ctrl =
      if code &&& ~~~breakBit = scancodeCtrl then !(code &&& breakBit != 0) else d.ctrl := by
  rw [feedIdle, if_neg single.1, if_neg single.2]
  dsimp only
  by_cases ctrl : code &&& ~~~breakBit = scancodeCtrl
  · rw [ctrl, if_neg (by decide), if_neg (by decide), if_pos rfl, if_pos rfl]
    exact ⟨rfl, rfl⟩
  · rw [if_neg ctrl]
    split_ifs <;> exact ⟨rfl, rfl⟩

theorem feedExtended_emits (code : UInt8) :
    (d.feedExtended code).1 ≠ some (.char (Char.ofNat ctrlCByte.toNat)) := by
  rw [feedExtended]
  split_ifs <;> simp

end Decoder

/-- The flags are those of someone who followed the same bytes as the decoder. -/
structure InStep (s : InterruptKey) (d : Decoder) : Prop where
  ctrl : s.ctrlDown = d.ctrl
  pause : d.sequence = .pause s.pauseRemaining ∧ 0 < s.pauseRemaining ∨
    s.pauseRemaining = 0 ∧ (d.sequence = .idle ∨ d.sequence = .extended)

namespace InterruptKey

variable {us : Bool} {s : InterruptKey} {d : Decoder}

theorem noteScancode_pausing (pausing : 0 < s.pauseRemaining) (code : UInt8) :
    s.noteScancode code = { s with pauseRemaining := s.pauseRemaining - 1 } := by
  rw [noteScancode, if_pos pausing]

theorem noteScancode_pause (still : s.pauseRemaining = 0) :
    s.noteScancode pausePrefix = { s with pauseRemaining := pauseTrailingBytes } := by
  rw [noteScancode, if_neg (by omega), if_pos rfl]

theorem noteScancode_extended (still : s.pauseRemaining = 0) :
    s.noteScancode extendedPrefix = { s with extendedPending := true } := by
  rw [noteScancode, if_neg (by omega), if_neg (by decide), if_pos rfl]

theorem noteScancode_single (still : s.pauseRemaining = 0) {code : UInt8}
    (single : code ≠ extendedPrefix ∧ code ≠ pausePrefix) :
    (s.noteScancode code).pauseRemaining = 0 ∧
    (s.noteScancode code).ctrlDown =
      if code &&& ~~~breakBit = scancodeCtrl then !(code &&& breakBit != 0) else s.ctrlDown := by
  rw [noteScancode, if_neg (by omega), if_neg single.2, if_neg single.1]
  dsimp only
  by_cases ctrl : code &&& ~~~breakBit = scancodeCtrl
  · rw [if_pos ctrl, if_pos ctrl]
    exact ⟨still, rfl⟩
  · rw [if_neg ctrl, if_neg ctrl]
    split <;> exact ⟨still, rfl⟩

theorem requests_single (still : s.pauseRemaining = 0) {code : UInt8}
    (single : code ≠ extendedPrefix ∧ code ≠ pausePrefix) :
    s.requests code = true ↔
      (code &&& breakBit != 0) = false ∧ code &&& ~~~breakBit = scancodeC ∧ s.ctrlDown = true := by
  rw [requests, takeInterruptRequest, noteScancode, if_neg (by dsimp only; omega), if_neg single.2,
    if_neg single.1]
  dsimp only
  by_cases ctrl : code &&& ~~~breakBit = scancodeCtrl
  · rw [if_pos ctrl, ctrl]
    exact iff_of_false Bool.false_ne_true (fun ⟨_, c, _⟩ => absurd c (by decide))
  · rw [if_neg ctrl]
    split
    · rename_i asked
      rw [Bool.and_eq_true, Bool.and_eq_true, Bool.not_eq_true', beq_iff_eq] at asked
      exact iff_of_true rfl ⟨asked.1.1, asked.1.2, asked.2⟩
    · rename_i not
      refine iff_of_false (by nofun) fun ⟨pressed, c, held⟩ => not ?_
      rw [pressed, c, held]
      rfl

theorem requests_prefix {code : UInt8} (double : code = extendedPrefix ∨ code = pausePrefix) :
    s.requests code = false := by
  rw [requests, takeInterruptRequest, noteScancode]
  rcases double with rfl | rfl <;> split_ifs <;> rfl

theorem requests_pausing (pausing : 0 < s.pauseRemaining) (code : UInt8) :
    s.requests code = false := by
  rw [requests, takeInterruptRequest, noteScancode, if_pos pausing]

end InterruptKey

namespace InStep

variable {us : Bool} {s : InterruptKey} {d : Decoder}

theorem pausing (inStep : InStep s d) {remaining : Nat} (sequence : d.sequence = .pause remaining)
    (code : UInt8) :
    s.requests code = d.emitsCtrlC us code ∧ InStep (s.noteScancode code) (d.feed us code).2 := by
  rcases inStep.pause with ⟨pause, positive⟩ | ⟨_, idle | extended⟩
  · obtain rfl : remaining = s.pauseRemaining := by
      rw [sequence] at pause
      exact Sequence.pause.inj pause
    rw [InterruptKey.requests_pausing positive, Decoder.emitsCtrlC, Decoder.feed, sequence,
      InterruptKey.noteScancode_pausing positive]
    dsimp only
    split
    · rename_i last
      exact ⟨rfl, inStep.ctrl, .inr ⟨last, .inl rfl⟩⟩
    · rename_i more
      exact ⟨rfl, inStep.ctrl, .inl ⟨rfl, by show 0 < s.pauseRemaining - 1; omega⟩⟩
  · rw [sequence] at idle
    cases idle
  · rw [sequence] at extended
    cases extended

theorem still (inStep : InStep s d) (sequence : ∀ remaining, d.sequence ≠ .pause remaining) :
    s.pauseRemaining = 0 := by
  rcases inStep.pause with ⟨pause, _⟩ | ⟨still, _⟩
  · exact absurd pause (sequence _)
  · exact still

theorem idle (inStep : InStep s d) (sequence : d.sequence = .idle) (code : UInt8) :
    s.requests code = d.emitsCtrlC us code ∧ InStep (s.noteScancode code) (d.feed us code).2 := by
  have still := inStep.still fun _ pause => by rw [sequence] at pause; cases pause
  rw [Decoder.emitsCtrlC, Decoder.feed, sequence]
  dsimp only
  by_cases extended : code = extendedPrefix
  · subst extended
    rw [InterruptKey.requests_prefix (.inl rfl), InterruptKey.noteScancode_extended still]
    exact ⟨rfl, inStep.ctrl, .inr ⟨still, .inr rfl⟩⟩
  by_cases pause : code = pausePrefix
  · subst pause
    rw [InterruptKey.requests_prefix (.inr rfl), InterruptKey.noteScancode_pause still]
    exact ⟨rfl, inStep.ctrl, .inl ⟨rfl, Nat.succ_pos 4⟩⟩
  have state := d.feedIdle_state us code ⟨extended, pause⟩
  have noted := InterruptKey.noteScancode_single still ⟨extended, pause⟩
  refine ⟨?_, ?_, .inr ⟨noted.1, .inl (state.1.trans sequence)⟩⟩
  · rw [Bool.eq_iff_iff, InterruptKey.requests_single still ⟨extended, pause⟩, beq_iff_eq,
      d.feedIdle_emits code ⟨extended, pause⟩, inStep.ctrl]
  · rw [noted.2, state.2, inStep.ctrl]

theorem extended (inStep : InStep s d) (sequence : d.sequence = .extended) {code : UInt8}
    (alike : d.Alike code) :
    s.requests code = d.emitsCtrlC us code ∧ InStep (s.noteScancode code) (d.feed us code).2 := by
  have still := inStep.still fun _ pause => by rw [sequence] at pause; cases pause
  obtain ⟨notPause, notC⟩ := alike sequence
  have emits : d.emitsCtrlC us code = false := by
    rw [Decoder.emitsCtrlC, Decoder.feed, sequence]
    exact beq_eq_false_iff_ne.mpr (d.feedExtended_emits code)
  have fed : (d.feed us code).2 = (d.feedExtended code).2 := by
    rw [Decoder.feed, sequence]
  rw [emits, fed, d.feedExtended_snd code]
  by_cases again : code = extendedPrefix
  · subst again
    rw [InterruptKey.requests_prefix (.inl rfl), InterruptKey.noteScancode_extended still]
    exact ⟨rfl, inStep.ctrl, .inr ⟨still, .inl rfl⟩⟩
  have noted := InterruptKey.noteScancode_single still ⟨again, notPause⟩
  refine ⟨?_, ?_, .inr ⟨noted.1, .inl ?_⟩⟩
  · rw [← Bool.not_eq_true, InterruptKey.requests_single still ⟨again, notPause⟩]
    rintro ⟨pressed, c, held⟩
    have whole : ∀ code : UInt8, (code &&& breakBit != 0) = false → code &&& ~~~breakBit = code := by
      apply Decoder.forall_byte
      decide +kernel
    exact notC ⟨inStep.ctrl ▸ held, whole code pressed ▸ c⟩
  · rw [noted.2, inStep.ctrl]
    split
    · exact Bool.not_not _
    · rfl
  · split <;> rfl

theorem step (inStep : InStep s d) {code : UInt8} (alike : d.Alike code) :
    s.requests code = d.emitsCtrlC us code ∧ InStep (s.noteScancode code) (d.feed us code).2 := by
  cases sequence : d.sequence with
  | idle => exact inStep.idle sequence code
  | extended => exact inStep.extended sequence alike
  | pause remaining => exact inStep.pausing sequence code

end InStep

namespace Decoder

variable (us : Bool)

def AllAlike (codes : List UInt8) : Prop :=
  ∀ i (_ : i < codes.length), (new.feedAll us (codes.take i)).Alike codes[i]

instance (codes : List UInt8) : Decidable (AllAlike us codes) :=
  inferInstanceAs (Decidable (∀ i (_ : i < codes.length), _))

/-- Both sides see Ctrl+C in the same bytes, and after every byte both take Ctrl to be down or
neither does. -/
def SameCtrlC (codes : List UInt8) : Prop :=
  ∀ i (_ : i < codes.length),
    (InterruptKey.init.noteAll (codes.take i)).requests codes[i] =
      (new.feedAll us (codes.take i)).emitsCtrlC us codes[i] ∧
    (InterruptKey.init.noteAll (codes.take (i + 1))).ctrlDown =
      (new.feedAll us (codes.take (i + 1))).ctrl

instance (codes : List UInt8) : Decidable (SameCtrlC us codes) :=
  inferInstanceAs (Decidable (∀ i (_ : i < codes.length), _ ∧ _))

variable {us}

theorem AllAlike.inStep {codes : List UInt8} (alike : AllAlike us codes) {n : Nat}
    (within : n ≤ codes.length) :
    InStep (InterruptKey.init.noteAll (codes.take n)) (new.feedAll us (codes.take n)) := by
  induction n with
  | zero => exact ⟨rfl, .inr ⟨rfl, .inl rfl⟩⟩
  | succ n ih =>
    rw [List.take_succ_eq_append_getElem within, InterruptKey.noteAll_append, feedAll_append]
    exact ((ih (by omega)).step (alike n within)).2

variable {codes : List UInt8}

theorem c_differs
    (inStep : InStep (InterruptKey.init.noteAll codes) (new.feedAll us codes))
    (extended : (new.feedAll us codes).sequence = .extended)
    (held : (new.feedAll us codes).ctrl = true) : ¬SameCtrlC us (codes ++ [scancodeC]) := by
  intro same
  have within : codes.length < (codes ++ [scancodeC]).length := by simp
  have agrees := (same codes.length within).1
  rw [List.take_left, List.getElem_concat_length rfl, Decoder.emitsCtrlC, Decoder.feed,
    extended] at agrees
  have still := inStep.still fun _ pause => by rw [extended] at pause; cases pause
  rw [(InterruptKey.requests_single still (by decide)).mpr ⟨rfl, rfl, inStep.ctrl.trans held⟩]
    at agrees
  exact absurd agrees (by rw [Bool.true_eq, beq_iff_eq]; exact Decoder.feedExtended_emits _)

/-- After the prefix of an extended key that of Pause makes only one side skip what follows: the
other one takes Ctrl to change with the next byte. -/
theorem pause_differs
    (inStep : InStep (InterruptKey.init.noteAll codes) (new.feedAll us codes))
    (extended : (new.feedAll us codes).sequence = .extended) :
    ∃ more, ¬SameCtrlC us (codes ++ pausePrefix :: more) := by
  refine ⟨[if (new.feedAll us codes).ctrl then 0x9D else 0x1D], fun same => ?_⟩
  have still := inStep.still fun _ pause => by rw [extended] at pause; cases pause
  have agrees := (same (codes.length + 1) (by simp)).2
  rw [List.take_of_length_le (by simp), InterruptKey.noteAll_append, feedAll_append] at agrees
  generalize InterruptKey.init.noteAll codes = s at *
  generalize new.feedAll us codes = d at *
  have skipped : ∀ code, (s.noteAll [pausePrefix, code]).ctrlDown = s.ctrlDown := by
    intro code
    show ((s.noteScancode pausePrefix).noteScancode code).ctrlDown = _
    rw [InterruptKey.noteScancode_pause still,
      InterruptKey.noteScancode_pausing (by exact Nat.succ_pos 4)]
  have changed : ∀ code : UInt8, code = 0x1D ∨ code = 0x9D →
      (d.feedAll us [pausePrefix, code]).ctrl = (code == 0x1D) := by
    intro code ctrl
    have first : (d.feed us pausePrefix).2 = { d with sequence := .idle } := by
      rw [Decoder.feed, extended]
      rfl
    show ((d.feed us pausePrefix).2.feed us code).2.ctrl = _
    rw [first]
    rcases ctrl with rfl | rfl <;> rfl
  rw [skipped, inStep.ctrl] at agrees
  cases held : d.ctrl
  · rw [held, if_neg Bool.false_ne_true, changed _ (.inl rfl)] at agrees
    cases agrees
  · rw [held, if_pos rfl, changed _ (.inr rfl)] at agrees
    cases agrees

/-- While no byte is taken differently, an interrupt is requested by exactly the bytes that the
decoder makes Ctrl+C of. The first byte that is taken differently shows, at once or after a byte. -/
theorem same_ctrl_c (us : Bool) (codes : List UInt8) :
    (AllAlike us codes → SameCtrlC us codes) ∧
    ∀ code, AllAlike us codes → ¬(new.feedAll us codes).Alike code →
      ∃ more, ¬SameCtrlC us (codes ++ code :: more) := by
  refine ⟨fun alike i within => ⟨?_, (alike.inStep (n := i + 1) within).ctrl⟩, ?_⟩
  · exact ((alike.inStep within.le).step (alike i within)).1
  · intro code alike not
    have inStep := alike.inStep le_rfl
    rw [List.take_length] at inStep
    rw [Alike, Classical.not_imp] at not
    obtain ⟨extended, differs⟩ := not
    by_cases pause : code = pausePrefix
    · exact pause ▸ pause_differs inStep extended
    · have c : (new.feedAll us codes).ctrl = true ∧ code = scancodeC := by
        by_contra other
        exact differs ⟨pause, other⟩
      exact ⟨[], c.2 ▸ c_differs inStep extended c.1⟩

/-- Right Ctrl, C, Pause and an arrow; then, with Ctrl held, Volume Down. -/
theorem same_ctrl_c_right_ctrl :
    let codes := [0xE0, 0x1D, 0x2E, 0xAE, 0xE1, 0x1D, 0x45, 0xE1, 0x9D, 0xC5, 0xE0, 0x4B, 0xE0]
    SameCtrlC false codes ∧ ∃ more, ¬SameCtrlC false (codes ++ scancodeC :: more) :=
  ⟨(same_ctrl_c false _).1 (by decide),
    (same_ctrl_c false _).2 _ (by decide) (by decide)⟩

theorem ctrl_c_differs : ¬∀ us codes, SameCtrlC us codes := by
  intro same
  exact absurd (same true [0x1D, 0xE0, 0x2E]) (by decide)

end Decoder

end Zaytos.Kernel
