import Zaytos.Kernel.PipeRuns
import Zaytos.Kernel.SocketSpec
import Zaytos.Kernel.Touches

set_option autoImplicit false

/-! The calls that receive something, and what those that fail have taken. -/
namespace Zaytos.Kernel

/-- `ZDIAG_LEN` and `ZDIAG_TEXT`: what `TIOCZTAKE` writes, and the text in it. -/
abbrev zdiagLen : Nat := 256

abbrev zdiagTextLen : Nat := 252

/-- The messages for errors that wait for a full screen program to take them. -/
structure Pending where
  text : List UInt8
  few : text.length ≤ zdiagTextLen
  /-- How many bytes found no room, as far as a `u16` counts them. -/
  dropped : Nat

namespace Pending

def empty : Pending := ⟨[], by decide, 0⟩

/-- `push`: what there is room for. The rest is counted. -/
def push (p : Pending) (bytes : List UInt8) : Pending where
  text := p.text ++ bytes.take (zdiagTextLen - p.text.length)
  few := by
    have := p.few
    rw [List.length_append, List.length_take]
    omega
  dropped :=
    let lost := bytes.length - (zdiagTextLen - p.text.length)
    if 0 < lost then min (2 ^ 16 - 1) (p.dropped + min lost (2 ^ 16 - 1)) else p.dropped

/-- `write_zdiag`, into a buffer of zeros. -/
def zdiag (p : Pending) : List UInt8 :=
  leBytes 2 p.text.length ++ leBytes 2 p.dropped ++ p.text ++
    List.replicate (zdiagTextLen - p.text.length) 0

def takeInto (p : Pending) : List UInt8 × Pending := (p.zdiag, empty)

end Pending

namespace Input

theorem inputEventBytes_ne_nil (sec usec : Nat) (code : UInt8) :
    inputEventBytes sec usec code ≠ [] := by
  unfold inputEventBytes
  simp [leBytes]

theorem readEvents_eq_nil {s : Input} {sec usec room : Nat} (roomy : inputEventLen ≤ room)
    (none : (s.readEvents sec usec room).1 = []) : s.ring.codes = [] := by
  unfold readEvents at none
  rw [List.flatMap_eq_nil_iff] at none
  cases codes : s.ring.codes with
  | nil => rfl
  | cons code rest =>
    have one : 0 < room / inputEventLen := Nat.div_pos roomy (by decide)
    have first : code ∈ s.ring.codes.take (min (room / inputEventLen) s.ring.codes.length) := by
      rw [codes, List.length_cons]
      obtain ⟨count, eq⟩ := Nat.exists_eq_succ_of_ne_zero
        (show min (room / inputEventLen) (rest.length + 1) ≠ 0 by omega)
      rw [eq]
      exact List.mem_cons_self
    exact absurd (none code first) (inputEventBytes_ne_nil sec usec code)

def decodedBytes (us : Bool) : Decoder → List UInt8 → List UInt8
  | _, [] => []
  | decoder, code :: rest =>
    let fed := decoder.feed us code
    (match fed.1 with
      | none => []
      | some event => bytesForEvent event) ++ decodedBytes us fed.2 rest

def Silent (us : Bool) (s : Input) : Prop :=
  s.pending = [] ∧ decodedBytes us s.decoder s.ring.codes = []

theorem deliver_fst_eq_nil {room : Nat} (roomy : 0 < room) (out pending bytes : List UInt8) :
    (deliver room out pending bytes).1 = [] ↔ out = [] ∧ bytes = [] := by
  induction bytes generalizing out pending with
  | nil => simp [deliver]
  | cons byte rest ih =>
    rw [deliver]
    split
    · simp [ih]
    · rename_i full
      have some : out ≠ [] := by
        intro none
        rw [none] at full
        exact full roomy
      split <;> simp [ih, some]

/-- The loop of `read_bytes` finds no byte exactly when there is none in the scancodes, and then
it has taken all of them. -/
theorem readLoop_out_eq_nil (us : Bool) {room : Nat} (roomy : 0 < room) (codes : List UInt8)
    (decoder : Decoder) (out pending : List UInt8) :
    ((readLoop us room codes decoder out pending).out = [] ↔
      out = [] ∧ decodedBytes us decoder codes = []) ∧
    ((readLoop us room codes decoder out pending).out = [] →
      (readLoop us room codes decoder out pending).taken = codes.length ∧
      (readLoop us room codes decoder out pending).pending = pending) := by
  induction codes generalizing decoder out pending with
  | nil => simp [readLoop, decodedBytes]
  | cons code rest ih =>
    rw [readLoop]
    split
    · rw [decodedBytes]
      generalize decoder.feed us code = fed
      have step : ∀ bytes, ((readLoop us room rest fed.2 (deliver room out pending bytes).1
          (deliver room out pending bytes).2).out = [] ↔
            out = [] ∧ bytes ++ decodedBytes us fed.2 rest = []) ∧
          ((readLoop us room rest fed.2 (deliver room out pending bytes).1
              (deliver room out pending bytes).2).out = [] →
            (readLoop us room rest fed.2 (deliver room out pending bytes).1
              (deliver room out pending bytes).2).taken + 1 = rest.length + 1 ∧
            (readLoop us room rest fed.2 (deliver room out pending bytes).1
              (deliver room out pending bytes).2).pending = pending) := by
        intro bytes
        obtain ⟨foundIff, taken⟩ := ih fed.2 (deliver room out pending bytes).1
          (deliver room out pending bytes).2
        rw [deliver_fst_eq_nil roomy] at foundIff
        refine ⟨foundIff.trans ?_, fun none => ?_⟩
        · rw [List.append_eq_nil_iff, and_assoc]
        · obtain ⟨⟨-, noBytes⟩, -⟩ := foundIff.mp none
          obtain ⟨all, kept⟩ := taken none
          rw [all, kept, noBytes]
          exact ⟨rfl, rfl⟩
      obtain ⟨event, decoder⟩ := fed
      cases event with
      | none => exact step []
      | some event => exact step (bytesForEvent event)
    · rename_i full
      have some : out ≠ [] := by
        intro none
        rw [none] at full
        exact full roomy
      simp [some]

end Input

structure Sources where
  system : System
  /-- `PENDING` of the console. -/
  messages : Pending

inductive Receive where
  | recvmsg (fd : Nat) (msg : Except Errno Message)
  | read (fd count : Nat) (valid : Bool)
  /-- `ioctl` with `TIOCZTAKE`. -/
  | takePending (fd : Nat) (valid : Bool)

namespace Sources

def ioctlTakePending (s : Sources) (valid : Bool) : Outcome × Sources :=
  let out := s.messages.takeInto
  (.done (if valid then .bytes out.1 else .error .efault), { s with messages := out.2 })

/-- `sys_ioctl` with `TIOCZTAKE`. -/
def sysIoctl (s : Sources) (slot : Slot) (fd : Nat) (valid : Bool) : Outcome × Sources :=
  match (s.system.files slot).get fd with
  | .error error => (.done (.error error.errno), s)
  | .ok file =>
    if file.isTerminal then s.ioctlTakePending valid else (.done (.error .enotty), s)

def become (s : Sources) (out : Outcome × System) : Outcome × Sources :=
  (out.1, { s with system := out.2 })

def call (s : Sources) (slot : Slot) : Receive → Outcome × Sources
  | .recvmsg fd msg => s.become (s.system.syscall slot (.recvmsg fd msg))
  | .read fd count valid => s.become (s.system.syscall slot (.read fd count valid))
  | .takePending fd valid => s.sysIoctl slot fd valid

def round (slot : Slot) (s : Sources) (loop : Loop) : Outcome × Sources :=
  s.become (s.system.round slot loop)

/-- Nothing has gone from where it can be received, and the caller has no other files. -/
structure NothingTaken (slot : Slot) (s t : Sources) : Prop where
  rings : ∀ conn side, (t.system.objects.sockets.connections conn).rings side =
    (s.system.objects.sockets.connections conn).rings side
  pendingFd : ∀ conn side, (t.system.objects.sockets.connections conn).pendingFd side =
    (s.system.objects.sockets.connections conn).pendingFd side
  pipes : ∀ pipe, (t.system.objects.pipes pipe).ring = (s.system.objects.pipes pipe).ring
  codes : t.system.input.ring = s.system.input.ring
  pendingKeys : t.system.input.pending = s.system.input.pending
  messages : t.messages = s.messages
  files : t.system.files slot = s.system.files slot
  refs : ∀ shm, (t.system.objects.memory.shms shm).refs = (s.system.objects.memory.shms shm).refs

def LosesNothing (slot : Slot) (steps : List (Sources × Sources)) (ret : Ret) : Prop :=
  (∃ errno, ret = .error errno) → ∀ step ∈ steps, NothingTaken slot step.1 step.2

variable {s t : Sources} {slot : Slot}

theorem NothingTaken.of_same (objects : t.system.objects = s.system.objects)
    (codes : t.system.input.ring = s.system.input.ring)
    (pending : t.system.input.pending = s.system.input.pending) (messages : t.messages = s.messages)
    (processes : t.system.processes = s.system.processes) : NothingTaken slot s t := by
  constructor
  all_goals simp [objects, codes, pending, messages, processes, System.files]

theorem NothingTaken.refl (slot : Slot) (s : Sources) : NothingTaken slot s s :=
  .of_same rfl rfl rfl rfl rfl

inductive Steady : Loop → Prop
  | pipe (pipe want : Nat) : Steady (.pipeRead pipe want)
  | socket (conn : Nat) (side : Side) (want : Nat) : Steady (.socketRead conn side want)
  | input (fd : Nat) {cap : Nat} (roomy : inputEventLen ≤ cap) : Steady (.input fd cap)

structure Harmless (slot : Slot) (s : Sources) (first : Outcome × Sources) : Prop where
  fails : ∀ errno, first.1 = .done (.error errno) → NothingTaken slot s first.2
  waits : ∀ set loop, first.1 = .waits set loop → Steady loop ∧ NothingTaken slot s first.2

theorem Harmless.of_value {out : Outcome × System} {ret : Ret} (done : out.1 = .done ret)
    (value : ∀ errno, ret ≠ .error errno) : Harmless slot s (s.become out) where
  fails errno failed := absurd (Outcome.done.inj (done.symm.trans failed)) (value errno)
  waits set loop waits := by cases done.symm.trans waits

theorem Harmless.of_error {out : Outcome × System} {errno : Errno}
    (done : out.1 = .done (.error errno)) (kept : NothingTaken slot s { s with system := out.2 }) :
    Harmless slot s (s.become out) where
  fails _ _ := kept
  waits set loop waits := by cases done.symm.trans waits

theorem Harmless.of_waits {out : Outcome × System} {set : WaitSet} {loop : Loop}
    (waits : out.1 = .waits set loop) (steady : Steady loop)
    (kept : NothingTaken slot s { s with system := out.2 }) : Harmless slot s (s.become out) where
  fails errno failed := by cases waits.symm.trans failed
  waits set' loop' waits' := by
    obtain ⟨-, rfl⟩ := Outcome.waits.inj (waits.symm.trans waits')
    exact ⟨steady, kept⟩

theorem Harmless.of_panic {out : Outcome × System} (panics : out.1 = .panics) :
    Harmless slot s (s.become out) where
  fails errno failed := by cases panics.symm.trans failed
  waits set loop waits := by cases panics.symm.trans waits

theorem harmless_pipeReadLoop (s : Sources) (pipe want : Nat) :
    Harmless slot s (s.become (s.system.pipeReadLoop pipe want)) := by
  unfold System.pipeReadLoop
  rcases PipeSystem.readInto_cases s.system.objects.pipes pipe want with
    ⟨outcome, eq, noBytes, -⟩ | ⟨-, ring, wakes, eq, -⟩
  · rw [eq]
    cases outcome with
    | bytes data => exact absurd rfl (noBytes data)
    | eof => exact .of_value rfl nofun
    | empty => exact .of_waits rfl (.pipe pipe want) (.of_same rfl rfl rfl rfl rfl)
  · rw [eq]
    exact .of_value rfl nofun

theorem harmless_readFromPipe (s : Sources) (pipe count : Nat) (valid : Bool) :
    Harmless slot s (s.become (s.system.readFromPipe pipe count valid)) := by
  unfold System.readFromPipe
  split
  · exact .of_value rfl nofun
  split
  · exact harmless_pipeReadLoop s pipe _
  · exact .of_error rfl (.refl slot s)

theorem harmless_socketReadLoop (s : Sources) (conn : Nat) (side : Side) (want : Nat) :
    Harmless slot s (s.become (s.system.socketReadLoop conn side want)) := by
  unfold System.socketReadLoop
  rcases s.system.objects.sockets.readInto_cases conn side want with
    ⟨outcome, eq, noBytes, -⟩ | ⟨-, -, ring, eq, -⟩
  · rw [eq]
    cases outcome with
    | bytes data => exact absurd rfl (noBytes data)
    | eof => exact .of_value rfl nofun
    | empty => exact .of_waits rfl (.socket conn side want) (.of_same rfl rfl rfl rfl rfl)
    | noConnection => exact .of_error rfl (.of_same rfl rfl rfl rfl rfl)
  · rw [eq]
    exact .of_value rfl nofun

theorem harmless_readFromSocket (s : Sources) (conn : Nat) (side : Side) (count : Nat)
    (valid : Bool) : Harmless slot s (s.become (s.system.readFromSocket conn side count valid)) := by
  unfold System.readFromSocket
  split
  · exact .of_value rfl nofun
  split
  · exact harmless_socketReadLoop s conn side _
  · exact .of_error rfl (.refl slot s)

theorem harmless_inputLoop (s : Sources) (fd : Nat) {cap : Nat} (roomy : inputEventLen ≤ cap) :
    Harmless slot s (s.become (s.system.inputLoop fd cap)) := by
  have kept : (s.system.input.readEvents (s.system.ticks / timerFrequencyHz)
      (s.system.ticks % timerFrequencyHz * (1000000000 / timerFrequencyHz) / 1000) cap).1 = [] →
      NothingTaken slot s { s with system := (s.system.inputLoop fd cap).2 } := by
    intro none
    have noCodes := Input.readEvents_eq_nil roomy none
    refine .of_same rfl ?_ rfl rfl rfl
    show s.system.input.ring.drop (min _ s.system.input.ring.codes.length) = s.system.input.ring
    rw [noCodes, List.length_nil, Nat.min_zero]
    rfl
  unfold System.inputLoop at kept ⊢
  dsimp only at kept ⊢
  split
  · exact .of_value rfl nofun
  · rename_i none
    have kept := kept (not_not.mp none)
    split
    · exact .of_error rfl kept
    · exact .of_waits rfl (.input fd roomy) kept

theorem harmless_readInputEvents (s : Sources) (fd count : Nat) (valid : Bool) :
    Harmless slot s (s.become (s.system.readInputEvents fd count valid)) := by
  unfold System.readInputEvents
  split
  · exact .of_value rfl nofun
  split
  · exact .of_error rfl (.refl slot s)
  split
  · exact .of_error rfl (.refl slot s)
  · rename_i enough _
    apply harmless_inputLoop s fd
    unfold inputEventLen inputReadMax at *
    omega

theorem harmless_readRegular (s : Sources) (fd : Nat) (inode : Fs.Inode) (offset : Nat)
    (writable : Bool) (count : Nat) (valid : Bool) : Harmless slot s
      (s.become (s.system.readRegular slot fd inode offset writable count valid)) := by
  unfold System.readRegular
  split
  · exact .of_error rfl (.refl slot s)
  split
  · exact .of_error rfl (.refl slot s)
  dsimp only
  split
  · exact .of_value rfl nofun
  split
  · exact .of_error rfl (.refl slot s)
  split
  · exact .of_panic rfl
  · exact .of_error rfl (.refl slot s)
  split
  · exact .of_panic rfl
  · exact .of_error rfl (.refl slot s)
  · exact .of_value rfl nofun

theorem harmless_sysRead (s : Sources) {fd : Nat} (count : Nat) (valid : Bool)
    (elsewhere : ∀ file, (s.system.files slot).get fd = .ok file → file.readsKeys = true →
      file = .input) : Harmless slot s (s.become (s.system.sysRead slot fd count valid)) := by
  unfold System.sysRead
  cases found : (s.system.files slot).get fd with
  | error error => exact .of_error rfl (.refl slot s)
  | ok file =>
    cases file with
    | regular inode offset writable => exact harmless_readRegular s fd inode offset writable count valid
    | pipeRead pipe => exact harmless_readFromPipe s pipe count valid
    | socket state =>
      cases state with
      | stream conn side => exact harmless_readFromSocket s conn side count valid
      | _ => exact .of_error rfl (.refl slot s)
    | input => exact harmless_readInputEvents s fd count valid
    | screen => exact .of_error rfl (.refl slot s)
    | _ => cases elsewhere _ found rfl

theorem harmless_round (s : Sources) {loop : Loop} (steady : Steady loop) :
    Harmless slot s (round slot s loop) := by
  cases steady with
  | pipe pipe want => exact harmless_pipeReadLoop s pipe want
  | socket conn side want => exact harmless_socketReadLoop s conn side want
  | @input fd cap roomy =>
    show Harmless slot s (s.become (s.system.afterKeyboard (s.system.inputLoop fd cap)))
    unfold System.afterKeyboard
    split
    · exact harmless_inputLoop s fd roomy
    · exact .of_error rfl (.refl slot s)

/-- A program has the keyboard, and something that was typed has a byte in it. -/
def Hears (s : Sources) : Prop :=
  s.system.input.foreground = true ∧ ¬ s.system.input.Silent s.system.us

def Unstruck (s : Sources) : Prop :=
  s.system.input.foreground = true → s.system.input.ring.codes = []

theorem terminalRound_cases (s : Sources) (fd : Nat) {want : Nat} (some : 0 < want) :
    (s.Hears ∧ ∃ data, (round slot s (.terminal fd want)).1 = .done (.bytes data)) ∨
    (¬ s.Hears ∧ ((∃ errno, (round slot s (.terminal fd want)).1 = .done (.error errno)) ∨
      ∃ set, (round slot s (.terminal fd want)).1 = .waits set (.terminal fd want)) ∧
      (NothingTaken slot s (round slot s (.terminal fd want)).2 ↔ s.Unstruck)) := by
  cases front : s.system.input.foreground with
  | false =>
    have lost : round slot s (.terminal fd want) = (.done (.error .ebadf), s) := by
      show s.become (s.system.afterKeyboard _) = _
      unfold System.afterKeyboard
      rw [front]
      rfl
    rw [lost]
    refine .inr ⟨fun hears => ?_, .inl ⟨_, rfl⟩, fun _ => ?_, fun _ => .refl slot s⟩
    · exact Bool.false_ne_true (front.symm.trans hears.1)
    · intro front'
      exact absurd (front.symm.trans front') Bool.false_ne_true
  | true =>
    have looks : round slot s (.terminal fd want) =
        s.become (s.system.terminalLoop fd want) := by
      show s.become (s.system.afterKeyboard _) = _
      unfold System.afterKeyboard
      rw [if_pos front]
    obtain ⟨foundIff, taken⟩ := Input.readLoop_out_eq_nil s.system.us some
      s.system.input.ring.codes s.system.input.decoder (s.system.input.pending.take want)
      (s.system.input.pending.drop want)
    have silentIff : (s.system.input.readBytes s.system.us want).1 = [] ↔
        s.system.input.Silent s.system.us := by
      refine foundIff.trans (and_congr_left fun _ => ?_)
      rw [List.take_eq_nil_iff]
      exact or_iff_right (by omega)
    rw [looks]
    by_cases silent : s.system.input.Silent s.system.us
    · have none := silentIff.mpr silent
      obtain ⟨all, kept⟩ := taken none
      have pendingKeys : (s.system.input.readBytes s.system.us want).2.pending =
          s.system.input.pending := by
        refine kept.trans ?_
        rw [silent.1, List.drop_nil]
      refine .inr ⟨fun hears => hears.2 silent, ?_, fun nothing _ => ?_, fun unstruck => ?_⟩
      · show (∃ errno, (s.system.terminalLoop fd want).1 = _) ∨
          ∃ set, (s.system.terminalLoop fd want).1 = _
        unfold System.terminalLoop
        dsimp only
        rw [if_neg (not_not.mpr none)]
        cases s.system.interactive with
        | false => exact .inl ⟨_, rfl⟩
        | true => exact .inr ⟨_, rfl⟩
      · have codes : (s.system.input.ring.drop _).codes = s.system.input.ring.codes :=
          congrArg ScancodeRing.codes nothing.codes
        rw [← codes]
        show s.system.input.ring.codes.drop _ = []
        exact List.drop_eq_nil_iff.mpr all.ge
      · refine .of_same rfl ?_ pendingKeys rfl rfl
        show s.system.input.ring.drop _ = s.system.input.ring
        rw [show (s.system.input.reading s.system.us want).taken = 0 from
          all.trans (by rw [unstruck front]; rfl)]
        rfl
    · refine .inl ⟨⟨front, silent⟩, ?_⟩
      show ∃ data, (s.system.terminalLoop fd want).1 = _
      unfold System.terminalLoop
      dsimp only
      rw [if_pos fun none => silent (silentIff.mp none)]
      exact ⟨_, rfl⟩

theorem terminal_rounds {set : WaitSet} {fd want : Nat} (some : 0 < want)
    {steps : List (Sources × Sources)} {ret : Ret}
    (rounds : Rounds (round slot) (.waits set (.terminal fd want)) steps ret) :
    LosesNothing slot steps ret ↔
      (∃ step ∈ steps, step.1.Hears) ∨ ∀ step ∈ steps, step.1.Unstruck := by
  have steps_spec : ((∃ errno, ret = .error errno) ↔ ¬ ∃ step ∈ steps, step.1.Hears) ∧
      ∀ step ∈ steps, ¬ step.1.Hears → (NothingTaken slot step.1 step.2 ↔ step.1.Unstruck) := by
    apply rounds.induct (P := (· = .terminal fd want)) ?_ ?_ ?_ rfl
    · intro loop s ret same out
      subst same
      simp only [List.mem_singleton, exists_eq_left, forall_eq]
      rcases terminalRound_cases s fd some with
        ⟨hears, data, eq⟩ | ⟨deaf, ⟨errno, eq⟩ | ⟨set, eq⟩, taken⟩
      · obtain rfl := Outcome.done.inj (eq.symm.trans out)
        have value : ¬ ∃ errno, Ret.bytes data = .error errno := by
          intro failed
          obtain ⟨errno, failed⟩ := failed
          cases failed
        exact ⟨⟨fun failed => absurd failed value, fun deaf => absurd hears deaf⟩,
          fun deaf => absurd hears deaf⟩
      · obtain rfl := Outcome.done.inj (eq.symm.trans out)
        exact ⟨⟨fun _ => deaf, fun _ => ⟨errno, rfl⟩⟩, fun _ => taken⟩
      · cases eq.symm.trans out
    · intro loop s set next rest ret same out ⟨failsIff, later⟩
      subst same
      simp only [List.mem_cons, exists_eq_or_imp, forall_eq_or_imp]
      rcases terminalRound_cases s fd some with
        ⟨hears, data, eq⟩ | ⟨deaf, ⟨errno, eq⟩ | -, taken⟩
      · cases eq.symm.trans out
      · cases eq.symm.trans out
      · refine ⟨?_, fun _ => taken, later⟩
        rw [failsIff]
        simp [deaf]
    · intro loop s set next same out
      subst same
      rcases terminalRound_cases s fd some with
        ⟨hears, data, eq⟩ | ⟨deaf, ⟨errno, eq⟩ | ⟨set, eq⟩, taken⟩
      · cases eq.symm.trans out
      · cases eq.symm.trans out
      · exact (Outcome.waits.inj (eq.symm.trans out)).2.symm
  obtain ⟨failsIff, taken⟩ := steps_spec
  unfold LosesNothing
  rw [failsIff]
  by_cases hears : ∃ step ∈ steps, step.1.Hears
  · exact ⟨fun _ => .inl hears, fun _ deaf => absurd hears deaf⟩
  · have deaf : ∀ step ∈ steps, ¬ step.1.Hears := fun step mem heard => hears ⟨step, mem, heard⟩
    refine ⟨fun nothing => .inr ?_, fun whole _ => ?_⟩
    · intro step mem
      exact (taken step mem (deaf step mem)).mp (nothing hears step mem)
    · intro step mem
      have unstruck := whole.resolve_left hears
      exact (taken step mem (deaf step mem)).mpr (unstruck step mem)

theorem Harmless.losesNothing {first : Outcome × Sources} {steps : List (Sources × Sources)}
    {ret : Ret} (harmless : Harmless slot s first) (own : OwnSteps (round slot) s first steps ret) :
    LosesNothing slot steps ret := by
  cases out : first.1 with
  | done ret' =>
    obtain ⟨rfl, rfl⟩ := own.of_done out
    intro failed
    obtain ⟨errno, rfl⟩ := failed
    exact List.forall_mem_singleton.mpr (harmless.fails errno out)
  | waits set loop =>
    obtain ⟨rest, rfl, rounds⟩ := own
    rw [out] at rounds
    obtain ⟨steady, kept⟩ := harmless.waits set loop out
    have later : LosesNothing slot rest ret := by
      apply rounds.induct (P := Steady) ?_ ?_ ?_ steady
      · intro loop s ret steady out failed
        obtain ⟨errno, rfl⟩ := failed
        exact List.forall_mem_singleton.mpr ((harmless_round s steady).fails errno out)
      · intro loop s set next rest ret steady out kept failed
        have first := ((harmless_round s steady).waits set next out).2
        exact List.forall_mem_cons.mpr ⟨first, kept failed⟩
      · intro loop s set next steady out
        exact ((harmless_round s steady).waits set next out).1
    exact fun failed => List.forall_mem_cons.mpr ⟨kept, later failed⟩
  | _ =>
    obtain ⟨rest, rfl, rounds⟩ := own
    rw [out] at rounds
    cases rounds

end Sources

end Zaytos.Kernel
