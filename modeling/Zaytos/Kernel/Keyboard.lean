import Mathlib.Data.List.Basic
import Zaytos.Lib.Bytes

set_option autoImplicit false

/-! Scancodes: the ring they wait in, and the state machine that makes keys of them. -/
namespace Zaytos.Kernel

inductive KeyEvent where
  | char (c : Char)
  | enter
  | backspace
  | arrowLeft
  | arrowRight
  | arrowUp
  | delete
  | arrowDown
  | home
  | «end»
  | escape
  | unsupported (code : UInt8)
  deriving DecidableEq, Repr

abbrev breakBit : UInt8 := 0x80
abbrev extendedPrefix : UInt8 := 0xE0
abbrev pausePrefix : UInt8 := 0xE1
/-- What follows `pausePrefix`. -/
abbrev pauseTrailingBytes : Nat := 5
abbrev scancodeLeftShift : UInt8 := 0x2A
abbrev scancodeRightShift : UInt8 := 0x36
abbrev scancodeCapsLock : UInt8 := 0x3A
abbrev scancodeCtrl : UInt8 := 0x1D
abbrev scancodeBackspace : UInt8 := 0x0E
abbrev scancodeArrowLeft : UInt8 := 0x4B
abbrev scancodeArrowRight : UInt8 := 0x4D
abbrev scancodeArrowUp : UInt8 := 0x48
abbrev scancodeArrowDown : UInt8 := 0x50
abbrev scancodeDelete : UInt8 := 0x53
abbrev scancodeHome : UInt8 := 0x47
abbrev scancodeEnd : UInt8 := 0x4F
abbrev scancodeEsc : UInt8 := 0x01
abbrev scancodeTab : UInt8 := 0x0F
abbrev scancodeEnter : UInt8 := 0x1C
abbrev scancodeJisRo : UInt8 := 0x73
abbrev scancodeJisYen : UInt8 := 0x7D

/-- The characters of the keys, by scancode. A key without one has the character zero. -/
def jisUnshifted : List Char :=
  ['\x00', '\x00', '1', '2', '3', '4', '5', '6',
   '7', '8', '9', '0', '-', '^', '\x00', '\x00',
   'q', 'w', 'e', 'r', 't', 'y', 'u', 'i',
   'o', 'p', '@', '[', '\x00', '\x00', 'a', 's',
   'd', 'f', 'g', 'h', 'j', 'k', 'l', ';',
   ':', '\x00', '\x00', ']', 'z', 'x', 'c', 'v',
   'b', 'n', 'm', ',', '.', '/', '\x00', '\x00',
   '\x00', ' ', '\x00', '\x00', '\x00', '\x00', '\x00', '\x00']

def jisShifted : List Char :=
  ['\x00', '\x00', '!', '\x22', '#', '$', '%', '&',
   '\x27', '(', ')', '\x00', '=', '~', '\x00', '\x00',
   'Q', 'W', 'E', 'R', 'T', 'Y', 'U', 'I',
   'O', 'P', '\x60', '\x7b', '\x00', '\x00', 'A', 'S',
   'D', 'F', 'G', 'H', 'J', 'K', 'L', '+',
   '*', '\x00', '\x00', '\x7d', 'Z', 'X', 'C', 'V',
   'B', 'N', 'M', '<', '>', '?', '\x00', '\x00',
   '\x00', ' ', '\x00', '\x00', '\x00', '\x00', '\x00', '\x00']

def usUnshifted : List Char :=
  ['\x00', '\x00', '1', '2', '3', '4', '5', '6',
   '7', '8', '9', '0', '-', '=', '\x00', '\x00',
   'q', 'w', 'e', 'r', 't', 'y', 'u', 'i',
   'o', 'p', '[', ']', '\x00', '\x00', 'a', 's',
   'd', 'f', 'g', 'h', 'j', 'k', 'l', ';',
   '\x27', '\x60', '\x00', '\x5c', 'z', 'x', 'c', 'v',
   'b', 'n', 'm', ',', '.', '/', '\x00', '\x00',
   '\x00', ' ', '\x00', '\x00', '\x00', '\x00', '\x00', '\x00']

def usShifted : List Char :=
  ['\x00', '\x00', '!', '@', '#', '$', '%', '^',
   '&', '*', '(', ')', '_', '+', '\x00', '\x00',
   'Q', 'W', 'E', 'R', 'T', 'Y', 'U', 'I',
   'O', 'P', '\x7b', '\x7d', '\x00', '\x00', 'A', 'S',
   'D', 'F', 'G', 'H', 'J', 'K', 'L', ':',
   '\x22', '~', '\x00', '|', 'Z', 'X', 'C', 'V',
   'B', 'N', 'M', '<', '>', '?', '\x00', '\x00',
   '\x00', ' ', '\x00', '\x00', '\x00', '\x00', '\x00', '\x00']

/-- The two layouts: `us` is what `set_us_layout` was given. -/
def unshifted (us : Bool) : List Char := if us then usUnshifted else jisUnshifted

def shifted (us : Bool) : List Char := if us then usShifted else jisShifted

/-- Keys beyond the tables: the scancode, and the character without and with Shift. -/
def jisOnlyKeys (us : Bool) : List (UInt8 × Char × Char) :=
  if us then [] else [(scancodeJisRo, '\x5c', '_'), (scancodeJisYen, '\x5c', '|')]

def controlByteFor (us : Bool) (key : UInt8) : Option UInt8 :=
  match (unshifted us)[key.toNat]? with
  | none => none
  | some c => if c.isLower then some (UInt8.ofNat (c.toNat - 'a'.toNat + 1)) else none

inductive Sequence where
  | idle
  | extended
  | pause (remaining : Nat)
  deriving DecidableEq, Repr

structure Decoder where
  shiftLeft : Bool
  shiftRight : Bool
  capsLock : Bool
  ctrl : Bool
  sequence : Sequence
  deriving DecidableEq, Repr

namespace Decoder

def new : Decoder := ⟨false, false, false, false, .idle⟩

def shift (d : Decoder) : Bool := d.shiftLeft || d.shiftRight

def characterFor (us : Bool) (d : Decoder) (key : UInt8) : Option Char :=
  match (jisOnlyKeys us).find? fun entry => entry.1 == key with
  | some (_, plain, shifted) => some (if d.shift then shifted else plain)
  | none =>
    match (unshifted us)[key.toNat]? with
    | none => none
    | some base =>
      if base = '\x00' then none
      else
        let useShifted := if base.isAlpha then d.shift != d.capsLock else d.shift
        let character := if useShifted then (shifted us).getD key.toNat '\x00' else base
        if character = '\x00' then none else some character

/-- The end of `feed_idle`: a key that is no modifier is pressed. -/
def pressed (us : Bool) (d : Decoder) (key : UInt8) : KeyEvent :=
  match if d.ctrl then controlByteFor us key else none with
  | some byte => .char (Char.ofNat byte.toNat)
  | none =>
    if key = scancodeEnter then .enter
    else if key = scancodeBackspace then .backspace
    else if key = scancodeTab then .char '\t'
    else if key = scancodeEsc then .escape
    else
      match d.characterFor us key with
      | some character => .char character
      | none => .unsupported key

def feedIdle (us : Bool) (d : Decoder) (code : UInt8) : Option KeyEvent × Decoder :=
  if code = extendedPrefix then (none, { d with sequence := .extended })
  else if code = pausePrefix then (none, { d with sequence := .pause pauseTrailingBytes })
  else
    let released := code &&& breakBit != 0
    let key := code &&& ~~~breakBit
    if key = scancodeLeftShift then (none, { d with shiftLeft := !released })
    else if key = scancodeRightShift then (none, { d with shiftRight := !released })
    else if key = scancodeCtrl then (none, { d with ctrl := !released })
    else if key = scancodeCapsLock then
      (none, if released then d else { d with capsLock := !d.capsLock })
    else if released then (none, d)
    else (some (d.pressed us key), d)

def feedExtended (d : Decoder) (code : UInt8) : Option KeyEvent × Decoder :=
  let d := { d with sequence := .idle }
  if code = scancodeArrowLeft then (some .arrowLeft, d)
  else if code = scancodeArrowRight then (some .arrowRight, d)
  else if code = scancodeArrowUp then (some .arrowUp, d)
  else if code = scancodeArrowDown then (some .arrowDown, d)
  else if code = scancodeDelete then (some .delete, d)
  else if code = scancodeHome then (some .home, d)
  else if code = scancodeEnd then (some .end, d)
  else if code &&& ~~~breakBit = scancodeCtrl then (none, { d with ctrl := code &&& breakBit == 0 })
  else if code &&& breakBit == 0 then (some (.unsupported code), d)
  else (none, d)

def feed (us : Bool) (d : Decoder) (code : UInt8) : Option KeyEvent × Decoder :=
  match d.sequence with
  | .pause remaining =>
    if remaining - 1 = 0 then (some (.unsupported pausePrefix), { d with sequence := .idle })
    else (none, { d with sequence := .pause (remaining - 1) })
  | .extended => d.feedExtended code
  | .idle => d.feedIdle us code

def feedAll (us : Bool) (d : Decoder) (codes : List UInt8) : Decoder :=
  codes.foldl (fun d code => (d.feed us code).2) d

theorem feedAll_append (us : Bool) (d : Decoder) (codes more : List UInt8) :
    d.feedAll us (codes ++ more) = (d.feedAll us codes).feedAll us more :=
  List.foldl_append

end Decoder

/-- `bytes_for_event`: nothing, one byte, or a control sequence. -/
def bytesForEvent : KeyEvent → List UInt8
  | .char c => if c.toNat < 128 then [UInt8.ofNat c.toNat] else []
  | .enter => [0x0A]
  | .backspace => [0x08]
  | .escape => [0x1B]
  | .delete => [0x1B, 0x5B, 0x33, 0x7E]
  | .arrowLeft => [0x1B, 0x5B, 0x44]
  | .arrowRight => [0x1B, 0x5B, 0x43]
  | .arrowUp => [0x1B, 0x5B, 0x41]
  | .arrowDown => [0x1B, 0x5B, 0x42]
  | .home => [0x1B, 0x5B, 0x31, 0x7E]
  | .end => [0x1B, 0x5B, 0x34, 0x7E]
  | .unsupported _ => []

abbrev scancodeCapacity : Nat := 128

/-- `ScancodeRing`: the codes that wait, the oldest first. -/
structure ScancodeRing where
  codes : List UInt8
  few : codes.length ≤ scancodeCapacity

namespace ScancodeRing

def empty : ScancodeRing := ⟨[], by decide⟩

def isFull (r : ScancodeRing) : Bool := r.codes.length == scancodeCapacity

/-- `push`. A ring that is full drops the code. -/
def push (r : ScancodeRing) (code : UInt8) : Bool × ScancodeRing :=
  if full : r.isFull = true then (false, r)
  else (true, ⟨r.codes ++ [code], by
    have := r.few
    rw [isFull, beq_iff_eq] at full
    rw [List.length_append, List.length_singleton]
    omega⟩)

/-- The ring after `count` times `pop`. -/
def drop (r : ScancodeRing) (count : Nat) : ScancodeRing :=
  ⟨r.codes.drop count, le_trans (by simp) r.few⟩

end ScancodeRing

end Zaytos.Kernel

/-! Who gets what is typed: the foreground reader, or the kernel's own loop. -/
namespace Zaytos.Kernel

abbrev inputEventLen : Nat := 24

abbrev evKey : Nat := 1

/-- The room of `PendingBytes`. -/
abbrev pendingCapacity : Nat := 8

structure Input where
  /-- `FOREGROUND`: a Ring 3 program has the keyboard. -/
  foreground : Bool
  /-- `SCANCODES`. -/
  ring : ScancodeRing
  /-- The decoder of `read_bytes`. -/
  decoder : Decoder
  /-- `PENDING`: decoded bytes that the last reader had no room for. -/
  pending : List UInt8
  /-- The decoder of `run_timer_loop`. -/
  kernelDecoder : Decoder

namespace Input

def init : Input := ⟨false, .empty, .new, [], .new⟩

/-- `record`: what the keyboard interrupt does with a scancode. -/
def record (s : Input) (code : UInt8) : Input := { s with ring := (s.ring.push code).2 }

/-- `claim_foreground` by the program in a task slot. -/
def claimForeground (s : Input) (slot : Nat) : Bool × Input :=
  if slot ≠ 0 then (false, s)
  else if s.foreground then (false, s)
  else (true, { s with foreground := true })

def releaseForeground (s : Input) : Input := { s with foreground := false, pending := [] }

def callerIsForeground (s : Input) (slot : Nat) : Bool := s.foreground && slot == 0

def discardTypedInput (s : Input) : Input := { s with ring := .empty, pending := [] }

/-- `input_event_bytes` of a scancode that is read at the time `sec`, `usec`. -/
def inputEventBytes (sec usec : Nat) (code : UInt8) : List UInt8 :=
  leBytes 8 sec ++ leBytes 8 usec ++ leBytes 2 evKey ++ leBytes 2 (code &&& 0x7F).toNat ++
    leBytes 4 (if code &&& 0x80 != 0 then 0 else 1)

/-- `read_events` into a buffer of `room` bytes: the bytes written. -/
def readEvents (s : Input) (sec usec room : Nat) : List UInt8 × Input :=
  let count := min (room / inputEventLen) s.ring.codes.length
  ((s.ring.codes.take count).flatMap (inputEventBytes sec usec), { s with ring := s.ring.drop count })

/-- The bytes of one key: into the buffer while there is room, the others to `PENDING`. -/
def deliver (room : Nat) (out pending : List UInt8) : List UInt8 → List UInt8 × List UInt8
  | [] => (out, pending)
  | byte :: rest =>
    if out.length < room then deliver room (out ++ [byte]) pending rest
    else if pending.length < pendingCapacity then deliver room out (pending ++ [byte]) rest
    else deliver room out pending rest

/-- What the loop of `read_bytes` leaves. -/
structure Reading where
  taken : Nat
  decoder : Decoder
  out : List UInt8
  pending : List UInt8

/-- The loop of `read_bytes`: a scancode at a time, until the buffer is full. -/
def readLoop (us : Bool) (room : Nat) :
    List UInt8 → Decoder → List UInt8 → List UInt8 → Reading
  | [], decoder, out, pending => ⟨0, decoder, out, pending⟩
  | code :: rest, decoder, out, pending =>
    if out.length < room then
      let fed := decoder.feed us code
      let bytes := match fed.1 with
        | none => []
        | some event => bytesForEvent event
      let copied := deliver room out pending bytes
      let reading := readLoop us room rest fed.2 copied.1 copied.2
      { reading with taken := reading.taken + 1 }
    else ⟨0, decoder, out, pending⟩

/-- What `read_bytes` does with a buffer of `room` bytes. What is pending goes first. -/
def reading (us : Bool) (s : Input) (room : Nat) : Reading :=
  readLoop us room s.ring.codes s.decoder (s.pending.take room) (s.pending.drop room)

def readBytes (us : Bool) (s : Input) (room : Nat) : List UInt8 × Input :=
  let r := s.reading us room
  (r.out, { s with ring := s.ring.drop r.taken, decoder := r.decoder, pending := r.pending })

/-- `drain_keyboard`. It echoes the keys, which nothing here reads. -/
def drainKeyboard (us : Bool) (s : Input) : Input :=
  if s.foreground then s
  else { s with ring := .empty, kernelDecoder := s.kernelDecoder.feedAll us s.ring.codes }

theorem readLoop_decoder (us : Bool) (room : Nat) (codes : List UInt8) (decoder : Decoder)
    (out pending : List UInt8) :
    (readLoop us room codes decoder out pending).decoder =
      decoder.feedAll us (codes.take (readLoop us room codes decoder out pending).taken) := by
  induction codes generalizing decoder out pending with
  | nil => rfl
  | cons code rest ih =>
    rw [readLoop]
    split
    · exact ih _ _ _
    · rfl

theorem readLoop_taken_le (us : Bool) (room : Nat) (codes : List UInt8) (decoder : Decoder)
    (out pending : List UInt8) :
    (readLoop us room codes decoder out pending).taken ≤ codes.length := by
  induction codes generalizing decoder out pending with
  | nil => exact Nat.zero_le _
  | cons code rest ih =>
    rw [readLoop]
    split
    · exact Nat.succ_le_succ (ih _ _ _)
    · exact Nat.zero_le _

end Input

end Zaytos.Kernel
