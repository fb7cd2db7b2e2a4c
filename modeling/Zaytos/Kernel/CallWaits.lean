import Zaytos.Kernel.Waits

set_option autoImplicit false

/-! What the calls have found when they begin to wait. -/
namespace Zaytos.Kernel

variable {fd deadline handle want count cap pipe conn : Nat} {reasons : List Wait}
  {fds : List PollFd} {valid : Bool} {bytes : List UInt8} {c : Call} {before : Loop} {side : Side}

namespace System

variable (k : System) {slot : Slot} {set : WaitSet} {loop : Loop}

section Others

variable {k}

theorem pollReasonOf_polled {on : Wait} (reason : k.pollReasonOf slot fd = some on) :
    on.isPolled = true := by
  unfold pollReasonOf at reason
  split at reason
  · exact Option.some.inj reason ▸ rfl
  · exact Option.some.inj reason ▸ rfl
  · exact Option.some.inj reason ▸ rfl
  · cases reason

theorem pollReasons_sound (ok : k.pollReasons slot fds = .ok reasons) :
    (∀ on ∈ reasons, on.isPolled = true) ∧ reasons.length = fds.length := by
  induction fds generalizing reasons with
  | nil =>
    obtain rfl := Except.ok.inj ok
    exact ⟨fun _ mem => absurd mem List.not_mem_nil, rfl⟩
  | cons request rest ih =>
    unfold pollReasons at ok
    split at ok
    · cases ok
    · split at ok
      · cases ok
      · rename_i reason found
        cases others : k.pollReasons slot rest with
        | error errno =>
          rw [others] at ok
          cases ok
        | ok more =>
          rw [others] at ok
          obtain rfl := Except.ok.inj ok
          obtain ⟨polled, length⟩ := ih others
          refine ⟨fun on mem => ?_, congrArg (· + 1) length⟩
          rcases List.mem_cons.mp mem with rfl | mem
          · exact pollReasonOf_polled found
          · exact polled on mem

theorem pollLoop_waits (sound : (Loop.poll reasons).Sound)
    (out : (k.pollLoop reasons).1 = .waits set loop) : Begins (k.pollLoop reasons).2 .poll set loop := by
  rw [pollLoop_snd]
  unfold pollLoop at out
  dsimp only at out
  split at out
  · cases out
  · rename_i none
    split at out
    · cases out
    · split at out
      · cases out
      · rename_i isSet
        cases out
        refine ⟨.poll isSet fun on mem => ?_, sound, rfl⟩
        have noReady := List.countP_eq_zero.mp (Nat.eq_zero_of_not_pos none) on mem
        exact Bool.eq_false_iff.mpr noReady

theorem pollFromRing3_waits {timeout : Int}
    (out : (k.pollFromRing3 slot fds timeout valid).1 = .waits set loop) :
    Begins (k.pollFromRing3 slot fds timeout valid).2 .poll set loop := by
  unfold pollFromRing3 at out ⊢
  split at out
  · cases out
  · rename_i few
    rw [if_neg few]
    split at out
    · cases out
    · rename_i limit
      rw [if_neg limit]
      split at out
      · cases out
      · rename_i writable
        rw [if_neg writable]
        split at out
        · cases out
        · rename_i reasons ok
          split at out
          · cases out
          · rename_i forever
            rw [if_neg forever]
            obtain ⟨polled, length⟩ := pollReasons_sound ok
            exact pollLoop_waits ⟨polled, by omega⟩ out

theorem sleepLoop_waits (out : (k.sleepLoop deadline).1 = .waits set loop) :
    Begins (k.sleepLoop deadline).2 .plain set loop := by
  rw [sleepLoop_snd]
  unfold sleepLoop at out
  split at out
  · rename_i early
    cases out
    exact ⟨.sleep early, trivial, rfl⟩
  · cases out

theorem sysNanosleep_waits {request : Except Errno Nat}
    (out : (k.sysNanosleep request).1 = .waits set loop) :
    Begins (k.sysNanosleep request).2 .plain set loop := by
  unfold sysNanosleep at out ⊢
  split at out
  · cases out
  · exact sleepLoop_waits out

theorem childLoop_waits (out : (k.childLoop handle).1 = .waits set loop) :
    Begins (k.childLoop handle).2 .child set loop := by
  unfold childLoop at out ⊢
  split at out
  · rename_i current
    rw [if_pos current]
    split at out
    · cases out
    · rename_i running
      rw [if_neg running]
      cases out
      exact ⟨.child current running, trivial, rfl⟩
  · cases out

theorem waitChildFromRing3_waits (out : (k.waitChildFromRing3 slot handle).1 = .waits set loop) :
    Begins (k.waitChildFromRing3 slot handle).2 .child set loop := by
  unfold waitChildFromRing3 at out ⊢
  split at out
  · exact childLoop_waits out
  · exact childLoop_waits out

theorem terminalLoop_waits (room : 0 < want) (out : (k.terminalLoop fd want).1 = .waits set loop) :
    Begins (k.terminalLoop fd want).2 (.keys fd) set loop := by
  unfold terminalLoop at out ⊢
  dsimp only at out ⊢
  split at out
  · cases out
  · rename_i none
    split at out
    · cases out
    · cases out
      exact ⟨.terminal (Input.readBytes_none (not_not.mp none) room), room, rfl⟩

theorem readTerminal_waits (out : (k.readTerminal fd count valid).1 = .waits set loop) :
    Begins (k.readTerminal fd count valid).2 (.keys fd) set loop := by
  unfold readTerminal at out ⊢
  split at out
  · cases out
  · rename_i foreground
    rw [if_neg foreground]
    split at out
    · cases out
    · rename_i some
      rw [if_neg some]
      split at out
      · cases out
      · rename_i writable
        rw [if_neg writable]
        exact terminalLoop_waits (Nat.lt_min.mpr ⟨Nat.pos_of_ne_zero some, by decide⟩) out

theorem inputLoop_waits (room : inputEventLen ≤ cap)
    (out : (k.inputLoop fd cap).1 = .waits set loop) :
    Begins (k.inputLoop fd cap).2 (.keys fd) set loop := by
  unfold inputLoop at out ⊢
  dsimp only at out ⊢
  split at out
  · cases out
  · rename_i none
    split at out
    · cases out
    · cases out
      exact ⟨.input (Input.readEvents_none (not_not.mp none) room), room, rfl⟩

theorem readInputEvents_waits (out : (k.readInputEvents fd count valid).1 = .waits set loop) :
    Begins (k.readInputEvents fd count valid).2 (.keys fd) set loop := by
  unfold readInputEvents at out ⊢
  split at out
  · cases out
  · rename_i some
    rw [if_neg some]
    split at out
    · cases out
    · rename_i enough
      rw [if_neg enough]
      split at out
      · cases out
      · rename_i writable
        rw [if_neg writable]
        have room : 24 ≤ min count 96 / 24 * 24 := by
          have : 24 ≤ count := Nat.le_of_not_lt enough
          omega
        exact inputLoop_waits room out

theorem readRegular_waits {offset : Nat} {inode : Fs.Inode} {writable : Bool} :
    (k.readRegular slot fd inode offset writable count valid).1 ≠ .waits set loop := by
  unfold readRegular
  split
  · nofun
  split
  · nofun
  dsimp only
  split
  · nofun
  split
  · nofun
  split
  · nofun
  · nofun
  split <;> nofun

theorem sysRead_waits (out : (k.sysRead slot fd count valid).1 = .waits set loop) :
    Begins (k.sysRead slot fd count valid).2 .plain set loop ∨
    Begins (k.sysRead slot fd count valid).2 (.keys fd) set loop ∧
      ∃ file, (k.files slot).get fd = .ok file ∧ file.readsKeys = true := by
  unfold sysRead at out ⊢
  split at out
  · cases out
  · rename_i file found
    cases file with
    | regular inode offset writable => exact absurd out readRegular_waits
    | pipeRead pipe => exact .inl (readFromPipe_waits out)
    | socket state =>
      cases state with
      | stream conn side => exact .inl (readFromSocket_waits out)
      | _ => cases out
    | screen => cases out
    | input => exact .inr ⟨readInputEvents_waits out, _, found, rfl⟩
    | _ => exact .inr ⟨readTerminal_waits out, _, found, rfl⟩

theorem sysWrite_waits {other : Ret × Bytes}
    (out : (k.sysWrite slot fd count bytes other).1 = .waits set loop) :
    Begins (k.sysWrite slot fd count bytes other).2 .plain set loop := by
  unfold sysWrite at out ⊢
  split at out
  · cases out
  · split at out
    · exact writeToPipe_waits out
    · split at out
      · exact writeToSocket_waits out
      · cases out
      · cases out

theorem syscall_never_waits (never : c.mayWait = false) :
    (k.syscall slot c).1.doing ≠ .waiting loop := by
  cases c with
  | socket domain kind protocol =>
    show (k.socketFromRing3 slot domain kind protocol).1.doing ≠ _
    unfold socketFromRing3
    split
    · nofun
    split
    · nofun
    split
    · nofun
    split <;> nofun
  | bind fd name =>
    show (k.bindFromRing3 slot fd name).1.doing ≠ _
    unfold bindFromRing3
    split
    · split
      · nofun
      split <;> nofun
    · nofun
    · nofun
  | listen fd =>
    show (k.listenFromRing3 slot fd).1.doing ≠ _
    unfold listenFromRing3
    split
    · split <;> nofun
    · nofun
    · nofun
  | connect fd name =>
    show (k.connectFromRing3 slot fd name).1.doing ≠ _
    unfold connectFromRing3
    split
    · split
      · nofun
      split <;> nofun
    · nofun
    · nofun
    · nofun
  | memfdCreate =>
    show (k.memfdCreateFromRing3 slot).1.doing ≠ _
    unfold memfdCreateFromRing3
    split
    · nofun
    split <;> nofun
  | ftruncate fd size =>
    show (k.ftruncateFromRing3 slot fd size).1.doing ≠ _
    unfold ftruncateFromRing3
    split
    · nofun
    dsimp only
    split <;> nofun
  | mmap len exec fd offset =>
    show (k.mmapFromRing3 slot len exec fd offset).1.doing ≠ _
    unfold mmapFromRing3
    split
    · nofun
    split
    · nofun
    split
    · nofun
    split
    · nofun
    split
    · nofun
    dsimp only
    split
    · nofun
    dsimp only
    split <;> nofun
  | brk requested =>
    show (k.sysBrk slot requested).1.doing ≠ _
    unfold sysBrk
    split
    · nofun
    dsimp only
    split
    · nofun
    split
    · nofun
    split
    · nofun
    split
    · nofun
    split
    · split <;> nofun
    · nofun
  | opens found root =>
    show (k.sysOpen slot found root).1.doing ≠ _
    unfold sysOpen
    split
    · nofun
    split <;> nofun
  | openInput =>
    show (k.openInputFromRing3 slot).1.doing ≠ _
    unfold openInputFromRing3
    split
    · split <;> nofun
    · nofun
  | openScreen entered =>
    show (k.openScreenFromRing3 slot entered).1.doing ≠ _
    unfold openScreenFromRing3
    split
    · split
      · nofun
      split <;> nofun
    · nofun
  | close fd =>
    show (k.sysClose slot fd).1.doing ≠ _
    unfold sysClose
    split <;> nofun
  | spawn args => cases args <;> nofun
  | spawnDetached flags args =>
    show (k.spawnDetachedFromRing3 slot flags args).1.doing ≠ _
    unfold spawnDetachedFromRing3
    split
    · nofun
    split
    · nofun
    split
    · split <;> nofun
    · split
      · nofun
      split <;> nofun
  | spawnWithPipedStdin args =>
    show (k.spawnWithPipedStdinFromRing3 slot args).1.doing ≠ _
    unfold spawnWithPipedStdinFromRing3
    split
    · nofun
    split
    · nofun
    dsimp only
    split <;> nofun
  | _ => cases never

end Others

def ComesTo (k : System) (slot : Slot) (c : Call) : LoopKind → Prop
  | .plain => (∀ fds timeout valid, c ≠ .poll fds timeout valid) ∧ ∀ handle, c ≠ .waitChild handle
  | .keys fd => ∃ count valid file, c = .read fd count valid ∧ (k.files slot).get fd = .ok file ∧
      file.readsKeys = true
  | .poll => ∃ fds timeout valid, c = .poll fds timeout valid
  | .child => ∃ handle, c = .waitChild handle

theorem syscall_waits (out : (k.syscall slot c).1 = .waits set loop) :
    ∃ kind, Begins (k.syscall slot c).2 kind set loop ∧ k.ComesTo slot c kind := by
  cases may : c.mayWait with
  | false => exact absurd (congrArg Outcome.doing out) (syscall_never_waits may)
  | true =>
    cases c with
    | accept fd addr => exact ⟨_, acceptFromRing3_waits out, nofun, nofun⟩
    | read fd count valid =>
      rcases sysRead_waits out with begins | ⟨begins, file, found, reads⟩
      · exact ⟨_, begins, nofun, nofun⟩
      · exact ⟨_, begins, count, valid, file, rfl, found, reads⟩
    | write fd count bytes other => exact ⟨_, sysWrite_waits out, nofun, nofun⟩
    | sendmsg fd msg => exact ⟨_, sendmsgFromRing3_waits out, nofun, nofun⟩
    | recvmsg fd msg => exact ⟨_, recvmsgFromRing3_waits out, nofun, nofun⟩
    | poll fds timeout valid => exact ⟨_, pollFromRing3_waits out, fds, timeout, valid, rfl⟩
    | nanosleep request => exact ⟨_, sysNanosleep_waits out, nofun, nofun⟩
    | waitChild handle => exact ⟨_, waitChildFromRing3_waits out, handle, rfl⟩
    | _ => cases may

theorem round_waits (sound : before.Sound) (out : (k.round slot before).1 = .waits set loop) :
    Begins (k.round slot before).2 before.kind set loop := by
  have keys : ∀ {round : Outcome × System} {kind : LoopKind},
      (round.1 = .waits set loop → Begins round.2 kind set loop) →
      (k.afterKeyboard round).1 = .waits set loop → Begins (k.afterKeyboard round).2 kind set loop := by
    intro round kind begins out
    unfold afterKeyboard at out ⊢
    split at out
    · rename_i foreground
      rw [if_pos foreground]
      exact begins out
    · cases out
  cases before with
  | pipeRead pipe want => exact pipeReadLoop_waits out
  | pipeWrite pipe src => exact pipeWriteLoop_waits sound out
  | socketRead conn side want => exact socketReadLoop_waits out
  | socketWrite conn side src => exact socketWriteLoop_waits sound out
  | recvmsg conn side control count valid => exact recvmsgLoop_waits out
  | accept listener => exact acceptLoop_waits out
  | poll reasons => exact pollLoop_waits sound out
  | terminal fd want => exact keys (terminalLoop_waits sound) out
  | input fd cap => exact keys (inputLoop_waits sound) out
  | sleep deadline => exact sleepLoop_waits out
  | child handle => exact childLoop_waits out

section Stays

variable {k} {doing : Doing}

theorem readFromPipe_stays : (k.readFromPipe pipe count valid).1 ≠ .goes doing := by
  unfold readFromPipe pipeReadLoop
  dsimp only
  (repeat' split) <;> nofun

theorem writeToPipe_stays : (k.writeToPipe pipe count bytes).1 ≠ .goes doing := by
  unfold writeToPipe pipeWriteLoop
  dsimp only
  (repeat' split) <;> nofun

theorem readFromSocket_stays : (k.readFromSocket conn side count valid).1 ≠ .goes doing := by
  unfold readFromSocket socketReadLoop
  dsimp only
  (repeat' split) <;> nofun

theorem writeToSocket_stays : (k.writeToSocket conn side count bytes).1 ≠ .goes doing := by
  unfold writeToSocket socketWriteLoop
  dsimp only
  (repeat' split) <;> nofun

theorem recvmsgLoop_stays {control : ControlBuffer} :
    (k.recvmsgLoop slot conn side control count valid).1 ≠ .goes doing := by
  unfold recvmsgLoop
  split
  · split
    · exact readFromSocket_stays
    · split
      · nofun
      split
      · nofun
      split
      · nofun
      · exact readFromSocket_stays
  · nofun

theorem acceptLoop_stays {listener : Nat} : (k.acceptLoop slot listener).1 ≠ .goes doing := by
  unfold acceptLoop
  (repeat' split) <;> nofun

theorem pollLoop_stays : (k.pollLoop reasons).1 ≠ .goes doing := by
  unfold pollLoop
  dsimp only
  (repeat' split) <;> nofun

theorem childLoop_stays : (k.childLoop handle).1 ≠ .goes doing := by
  unfold childLoop
  (repeat' split) <;> nofun

theorem sleepLoop_stays : (k.sleepLoop deadline).1 ≠ .goes doing := by
  unfold sleepLoop
  split <;> nofun

theorem terminalLoop_stays : (k.terminalLoop fd want).1 ≠ .goes doing := by
  unfold terminalLoop
  dsimp only
  (repeat' split) <;> nofun

theorem inputLoop_stays : (k.inputLoop fd cap).1 ≠ .goes doing := by
  unfold inputLoop
  dsimp only
  (repeat' split) <;> nofun

theorem sysRead_stays : (k.sysRead slot fd count valid).1 ≠ .goes doing := by
  unfold sysRead readInputEvents readTerminal readRegular
  split
  · nofun
  split
  · exact readFromPipe_stays
  split
  · exact readFromSocket_stays
  · nofun
  split
  · (repeat' split) <;> first | exact inputLoop_stays | nofun
  split
  · nofun
  split
  · (repeat' split) <;> first | exact terminalLoop_stays | nofun
  · dsimp only
    (repeat' split) <;> nofun

theorem mayWait_stays (may : c.mayWait = true) : (k.syscall slot c).1 ≠ .goes doing := by
  cases c with
  | accept fd addr =>
    show (k.acceptFromRing3 slot fd addr).1 ≠ _
    unfold acceptFromRing3
    (repeat' split) <;> first | exact acceptLoop_stays | nofun
  | read fd count valid => exact sysRead_stays
  | write fd count bytes other =>
    show (k.sysWrite slot fd count bytes other).1 ≠ _
    unfold sysWrite
    (repeat' split) <;> first | exact writeToPipe_stays | exact writeToSocket_stays | nofun
  | sendmsg fd msg =>
    show (k.sendmsgFromRing3 slot fd msg).1 ≠ _
    unfold sendmsgFromRing3
    (repeat' split) <;> first | exact writeToSocket_stays | nofun
  | recvmsg fd msg =>
    show (k.recvmsgFromRing3 slot fd msg).1 ≠ _
    unfold recvmsgFromRing3
    (repeat' split) <;> first | exact recvmsgLoop_stays | nofun
  | poll fds timeout valid =>
    show (k.pollFromRing3 slot fds timeout valid).1 ≠ _
    unfold pollFromRing3
    (repeat' split) <;> first | exact pollLoop_stays | nofun
  | nanosleep request =>
    show (k.sysNanosleep request).1 ≠ _
    unfold sysNanosleep
    split
    · nofun
    · exact sleepLoop_stays
  | waitChild handle =>
    show (k.waitChildFromRing3 slot handle).1 ≠ _
    unfold waitChildFromRing3
    split <;> exact childLoop_stays
  | _ => cases may

theorem round_stays : (k.round slot loop).1 ≠ .goes doing := by
  have keys : ∀ {round : Outcome × System}, round.1 ≠ .goes doing →
      (k.afterKeyboard round).1 ≠ .goes doing := by
    intro round stays
    unfold afterKeyboard
    split
    · exact stays
    · nofun
  cases loop with
  | pipeRead pipe want =>
    show (k.pipeReadLoop pipe want).1 ≠ _
    unfold pipeReadLoop
    dsimp only
    split <;> nofun
  | pipeWrite pipe src =>
    show (k.pipeWriteLoop pipe src).1 ≠ _
    unfold pipeWriteLoop
    dsimp only
    split <;> nofun
  | socketRead conn side want =>
    show (k.socketReadLoop conn side want).1 ≠ _
    unfold socketReadLoop
    dsimp only
    split <;> nofun
  | socketWrite conn side src =>
    show (k.socketWriteLoop conn side src).1 ≠ _
    unfold socketWriteLoop
    dsimp only
    split <;> nofun
  | recvmsg conn side control count valid => exact recvmsgLoop_stays
  | accept listener => exact acceptLoop_stays
  | poll reasons => exact pollLoop_stays
  | terminal fd want => exact keys terminalLoop_stays
  | input fd cap => exact keys inputLoop_stays
  | sleep deadline => exact sleepLoop_stays
  | child handle => exact childLoop_stays

theorem syscall_doing (waits : (k.syscall slot c).1.doing = .waiting loop) :
    ∃ set, (k.syscall slot c).1 = .waits set loop := by
  cases may : c.mayWait with
  | false => exact absurd waits (syscall_never_waits may)
  | true =>
    cases out : (k.syscall slot c).1 with
    | waits set loop' =>
      rw [out] at waits
      cases waits
      exact ⟨set, rfl⟩
    | goes doing => exact absurd out (mayWait_stays may)
    | _ =>
      rw [out] at waits
      cases waits

theorem round_doing (waits : (k.round slot before).1.doing = .waiting loop) :
    ∃ set, (k.round slot before).1 = .waits set loop := by
  cases out : (k.round slot before).1 with
  | waits set loop' =>
    rw [out] at waits
    cases waits
    exact ⟨set, rfl⟩
  | goes doing => exact absurd out round_stays
  | _ =>
    rw [out] at waits
    cases waits

end Stays

end System

end Zaytos.Kernel
