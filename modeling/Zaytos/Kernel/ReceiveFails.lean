import Zaytos.Kernel.Receives
import Zaytos.Kernel.SendFd
import Zaytos.Kernel.TypedInput

set_option autoImplicit false

/-! When a call that receives, and fails, has lost something. -/
namespace Zaytos.Kernel

namespace FileTable

def HasRoom (t : FileTable) : Prop := ∃ fd, t.slots fd = none

theorem insert_cases (t : FileTable) (file : File) :
    (t.HasRoom ∧ ∃ fd t', t.insert file = .ok (fd, t')) ∨
    ¬ t.HasRoom ∧ t.insert file = .error .noFreeDescriptor := by
  unfold insert
  split
  · rename_i fd found
    have free := List.find?_some found
    exact .inl ⟨⟨fd, Option.isNone_iff_eq_none.mp free⟩, _, _, rfl⟩
  · rename_i none
    refine .inr ⟨fun room => ?_, rfl⟩
    obtain ⟨fd, free⟩ := room
    have used := List.find?_eq_none.mp none fd (List.mem_finRange fd)
    rw [free] at used
    exact used rfl

end FileTable

namespace Sockets

variable (s : Sockets) {conn : Nat} {side : Side}

theorem readInto_of_readable (want : Nat) (readable : s.readableOrGone conn side = true) :
    (s.readInto conn side want).1 ≠ .empty ∧
    (conn < maxConnections → (s.connections conn).inUse = true →
      (s.readInto conn side want).1 ≠ .noConnection) := by
  unfold readInto
  unfold readableOrGone at readable
  split
  · rename_i used
    split
    · rename_i empty
      cases isOpen : (s.connections conn).isOpen side.peer with
      | false => exact ⟨nofun, fun _ _ => nofun⟩
      | true =>
        rw [isOpen, empty, used.2] at readable
        simp only [Bool.not_true, Bool.or_false, decide_eq_true_eq] at readable
        omega
    · exact ⟨nofun, fun _ _ => nofun⟩
  · rename_i unused
    exact ⟨nofun, fun small used => absurd ⟨small, used⟩ unused⟩

end Sockets

namespace System

variable (k : System) {conn : Nat} {side : Side}

theorem socketReadLoop_of_readable (want : Nat)
    (readable : k.objects.sockets.readableOrGone conn side = true) :
    (∃ ret, (k.socketReadLoop conn side want).1 = .done ret) ∧
    (conn < maxConnections → (k.objects.sockets.connections conn).inUse = true →
      ∀ errno, (k.socketReadLoop conn side want).1 ≠ .done (.error errno)) := by
  obtain ⟨notEmpty, there⟩ := k.objects.sockets.readInto_of_readable want readable
  unfold socketReadLoop
  dsimp only
  cases outcome : (k.objects.sockets.readInto conn side want).1 with
  | bytes data => exact ⟨⟨_, rfl⟩, fun _ _ _ => nofun⟩
  | eof => exact ⟨⟨_, rfl⟩, fun _ _ _ => nofun⟩
  | empty => exact absurd outcome notEmpty
  | noConnection => exact ⟨⟨_, rfl⟩, fun small used => absurd outcome (there small used)⟩

theorem readFromSocket_of_readable (count : Nat) (valid : Bool)
    (readable : k.objects.sockets.readableOrGone conn side = true) :
    (∃ ret, (k.readFromSocket conn side count valid).1 = .done ret) ∧
    (conn < maxConnections → (k.objects.sockets.connections conn).inUse = true →
      ((∃ errno, (k.readFromSocket conn side count valid).1 = .done (.error errno)) ↔
        ¬ (count = 0 ∨ valid = true))) := by
  obtain ⟨returns, value⟩ := k.socketReadLoop_of_readable (min count socketRing) readable
  unfold readFromSocket
  by_cases none : count = 0
  · rw [if_pos none]
    refine ⟨⟨_, rfl⟩, fun _ _ => ?_⟩
    simp [none]
  rw [if_neg none]
  cases valid with
  | false =>
    refine ⟨⟨_, rfl⟩, fun _ _ => ?_⟩
    simp [none]
  | true =>
    refine ⟨returns, fun small used => ?_⟩
    simp only [if_true, or_true, not_true, iff_false, not_exists]
    exact value small used

theorem readFromSocket_pendingFd (conn : Nat) (side : Side) (count : Nat) (valid : Bool)
    (other : Nat) :
    ((k.readFromSocket conn side count valid).2.objects.sockets.connections other).pendingFd =
      (k.objects.sockets.connections other).pendingFd := by
  unfold readFromSocket
  split
  · rfl
  split
  · unfold socketReadLoop
    rcases k.objects.sockets.readInto_cases conn side (min count socketRing) with
      ⟨outcome, eq, -⟩ | ⟨-, -, ring, eq, -⟩
    · rw [eq]
      rfl
    · rw [eq]
      show ((k.objects.sockets.setConnection conn _).connections other).pendingFd = _
      rw [Sockets.setConnection_apply]
      split
      · rename_i same
        rw [same]
      · rfl
  · rfl

end System

namespace Sources

variable {s t : Sources} {slot : Slot} {conn : Nat} {side : Side}

/-- A `recvmsg` would go on now, and take a descriptor. -/
def Delivers (s : Sources) (conn : Nat) (side : Side) : Prop :=
  s.system.objects.sockets.readableOrGone conn side = true ∧ conn < maxConnections ∧
    (s.system.objects.sockets.connections conn).inUse = true ∧
    (s.system.objects.sockets.connections conn).pendingFd side ≠ none

/-- What a `recvmsg` that takes a descriptor needs: a number for it, room to say which, and a
buffer for the bytes. -/
def Ready (slot : Slot) (control : ControlBuffer) (count : Nat) (valid : Bool) (s : Sources) :
    Prop :=
  (s.system.files slot).HasRoom ∧ control.roomy = true ∧ control.valid = true ∧
    (count = 0 ∨ valid = true)

theorem LosesNothing.cons_iff {steps : List (Sources × Sources)} {ret : Ret}
    (first : NothingTaken slot s t) :
    LosesNothing slot ((s, t) :: steps) ret ↔ LosesNothing slot steps ret := by
  unfold LosesNothing
  simp only [List.forall_mem_cons]
  exact ⟨fun all failed => (all failed).2, fun rest failed => ⟨first, rest failed⟩⟩

/-- A round of `recvmsg`: it waits, or no descriptor comes, or whether it fails is up to what it
needs for the descriptor. -/
theorem recvmsgRound_cases (s : Sources) (conn : Nat) (side : Side) (control : ControlBuffer)
    (count : Nat) (valid : Bool) :
    (¬ s.Delivers conn side ∧
      ((∃ set, (s.system.recvmsgLoop slot conn side control count valid) =
          (.waits set (.recvmsg conn side control count valid), s.system)) ∨
        (∃ ret, (s.system.recvmsgLoop slot conn side control count valid).1 = .done ret) ∧
        Harmless slot s (s.become (s.system.recvmsgLoop slot conn side control count valid)))) ∨
    s.Delivers conn side ∧
      (∃ ret, (s.system.recvmsgLoop slot conn side control count valid).1 = .done ret) ∧
      ((∃ errno, (s.system.recvmsgLoop slot conn side control count valid).1 = .done (.error errno)) ↔
        ¬ s.Ready slot control count valid) ∧
      ¬ NothingTaken slot s
        (s.become (s.system.recvmsgLoop slot conn side control count valid)).2 := by
  unfold System.recvmsgLoop
  split
  · rename_i readable
    rcases s.system.objects.sockets.takeFd_cases conn side with eq | ⟨small, inUse, shm, named, eq⟩
    · left
      have nothing : ¬ s.Delivers conn side := by
        intro delivers
        have taken : (s.system.objects.sockets.takeFd conn side).1 =
            (s.system.objects.sockets.connections conn).pendingFd side := by
          unfold Sockets.takeFd
          rw [if_pos ⟨delivers.2.1, delivers.2.2.1⟩]
        rw [eq] at taken
        exact delivers.2.2.2 taken.symm
      rw [eq]
      refine ⟨nothing, .inr ⟨?_, harmless_readFromSocket s conn side count valid⟩⟩
      exact (s.system.readFromSocket_of_readable count valid readable).1
    · right
      have delivers : s.Delivers conn side := ⟨readable, small, inUse, by simp [named]⟩
      refine ⟨delivers, ?_⟩
      rw [eq]
      dsimp only
      have gone : ∀ out : Outcome × System,
          (out.2.objects.sockets.connections conn).pendingFd side = none →
          ¬ NothingTaken slot s (s.become out).2 := by
        intro out none nothing
        cases none.symm.trans ((nothing.pendingFd conn side).trans named)
      have taken : ((s.system.objects.sockets.setConnection conn
          { s.system.objects.sockets.connections conn with
            pendingFd := Function.update
              (s.system.objects.sockets.connections conn).pendingFd side none }).connections conn) =
          { s.system.objects.sockets.connections conn with
            pendingFd := Function.update
              (s.system.objects.sockets.connections conn).pendingFd side none } := by
        rw [Sockets.setConnection_apply, if_pos rfl]
      generalize s.system.objects.sockets.setConnection conn _ = sockets at taken ⊢
      have still : sockets.readableOrGone conn side = true := by
        unfold Sockets.readableOrGone at readable ⊢
        rw [taken]
        exact readable
      have none : (sockets.connections conn).pendingFd side = none := by
        rw [taken]
        exact Function.update_self _ _ _
      rcases (s.system.files slot).insert_cases (.shm shm) with ⟨room, fd, t, ok⟩ | ⟨full, error⟩
      · have inserted : (s.system.setSockets sockets).insertFile slot (.shm shm) =
            .ok (fd, (s.system.setSockets sockets).setFiles slot t) := by
          have table : (s.system.setSockets sockets).files slot = s.system.files slot := rfl
          rw [System.insertFile, table, ok]
        rw [inserted]
        dsimp only
        cases roomy : control.roomy with
        | false =>
          rw [if_pos rfl]
          refine ⟨⟨_, rfl⟩, ?_, gone _ none⟩
          refine ⟨fun _ ready => ?_, fun _ => ⟨_, rfl⟩⟩
          cases roomy.symm.trans ready.2.1
        | true =>
          rw [if_neg (by decide)]
          cases writable : control.valid with
          | false =>
            rw [if_pos rfl]
            refine ⟨⟨_, rfl⟩, ?_, gone _ none⟩
            refine ⟨fun _ ready => ?_, fun _ => ⟨_, rfl⟩⟩
            cases writable.symm.trans ready.2.2.1
          | true =>
            rw [if_neg (by decide)]
            obtain ⟨returns, failsIff⟩ := System.readFromSocket_of_readable
              ((s.system.setSockets sockets).setFiles slot t) count valid still
            have there : (sockets.connections conn).inUse = true := by
              rw [taken]
              exact inUse
            refine ⟨returns, ?_, gone _ ?_⟩
            · rw [failsIff small there]
              refine not_congr ⟨fun whole => ⟨room, roomy, writable, whole⟩, fun ready => ready.2.2.2⟩
            · rw [System.readFromSocket_pendingFd]
              exact none
      · have refused : (s.system.setSockets sockets).insertFile slot (.shm shm) =
            .error .emfile := by
          have table : (s.system.setSockets sockets).files slot = s.system.files slot := rfl
          rw [System.insertFile, table, error]
          rfl
        rw [refused]
        refine ⟨⟨_, rfl⟩, ⟨fun _ ready => full ready.1, fun _ => ⟨_, rfl⟩⟩, gone _ none⟩
  · rename_i waits
    left
    exact ⟨fun delivers => waits delivers.1, .inl ⟨_, rfl⟩⟩

theorem recvmsg_rounds {set : WaitSet} {control : ControlBuffer} {count : Nat} {valid : Bool}
    {steps : List (Sources × Sources)} {ret : Ret}
    (rounds : Rounds (round slot) (.waits set (.recvmsg conn side control count valid)) steps ret) :
    LosesNothing slot steps ret ↔
      ∀ step ∈ steps, step.1.Delivers conn side → step.1.Ready slot control count valid := by
  apply rounds.induct (P := (· = .recvmsg conn side control count valid)) ?_ ?_ ?_ rfl
  · intro loop s ret same out
    subst same
    change (s.system.recvmsgLoop slot conn side control count valid).1 = .done ret at out
    simp only [List.mem_singleton, forall_eq]
    rcases recvmsgRound_cases s conn side control count valid with
      ⟨nothing, ⟨set, eq⟩ | ⟨-, harmless⟩⟩ | ⟨delivers, -, failsIff, taken⟩
    · rw [eq] at out
      cases out
    · refine ⟨fun _ delivers => absurd delivers nothing, fun _ failed => ?_⟩
      obtain ⟨errno, rfl⟩ := failed
      exact List.forall_mem_singleton.mpr (harmless.fails errno out)
    · refine ⟨fun loses _ => ?_, fun ready failed => ?_⟩
      · by_contra notReady
        obtain ⟨errno, failed⟩ := failsIff.mpr notReady
        have same := Outcome.done.inj (out.symm.trans failed)
        exact taken (loses ⟨errno, same⟩ _ (List.mem_singleton.mpr rfl))
      · obtain ⟨errno, rfl⟩ := failed
        exact absurd (ready delivers) (failsIff.mp ⟨errno, out⟩)
  · intro loop s set next rest ret same out later
    subst same
    change (s.system.recvmsgLoop slot conn side control count valid).1 = .waits set next at out
    rcases recvmsgRound_cases s conn side control count valid with
      ⟨nothing, ⟨set, eq⟩ | ⟨⟨ret, eq⟩, -⟩⟩ | ⟨-, ⟨ret, eq⟩, -⟩
    · have kept : (round slot s (.recvmsg conn side control count valid)).2 = s := by
        show (s.become (s.system.recvmsgLoop slot conn side control count valid)).2 = s
        rw [eq]
        rfl
      rw [kept, LosesNothing.cons_iff (.refl slot s), later, List.forall_mem_cons]
      exact ⟨fun all => ⟨fun delivers => absurd delivers nothing, all⟩, fun all => all.2⟩
    · cases eq.symm.trans out
    · cases eq.symm.trans out
  · intro loop s set next same out
    subst same
    change (s.system.recvmsgLoop slot conn side control count valid).1 = .waits set next at out
    rcases recvmsgRound_cases s conn side control count valid with
      ⟨-, ⟨set, eq⟩ | ⟨⟨ret, eq⟩, -⟩⟩ | ⟨-, ⟨ret, eq⟩, -⟩
    · rw [eq] at out
      exact (Outcome.waits.inj out).2.symm
    · cases eq.symm.trans out
    · cases eq.symm.trans out

end Sources

/-- When a call that receives loses nothing if it fails, for the states in which it looks.
A `recvmsg` needs what a descriptor needs if one comes. A read of the terminal hears something, or
finds no scancode at all. The messages go to a buffer that can be written, or there are none. -/
def Receive.Careful (slot : Slot) (s : Sources) (states : List Sources) : Receive → Prop
  | .recvmsg fd msg => ∀ conn side m, s.system.socketStateOf slot fd = .ok (.stream conn side) →
      msg = .ok m → ∀ t ∈ states, t.Delivers conn side → t.Ready slot m.control m.count m.valid
  | .read fd count valid => ∀ file, (s.system.files slot).get fd = .ok file →
      file.readsKeys = true → file ≠ .input → count = 0 ∨ valid = false ∨
        (∃ t ∈ states, t.Hears) ∨ ∀ t ∈ states, t.Unstruck
  | .takePending fd valid => ∀ file, (s.system.files slot).get fd = .ok file →
      file.isTerminal = true → valid = true ∨ s.messages = .empty

namespace Sources

variable {s : Sources} {slot : Slot} {steps : List (Sources × Sources)} {ret : Ret}

theorem losesNothing_of_kept {ret' : Ret} {first : Outcome × Sources}
    (own : OwnSteps (round slot) s first steps ret) (kept : first = (.done ret', s)) :
    LosesNothing slot steps ret := by
  subst kept
  obtain ⟨rfl, -⟩ := own.of_done rfl
  exact fun _ => List.forall_mem_singleton.mpr (.refl slot s)

theorem recvmsg_losesNothing_iff {fd : Nat} {msg : Except Errno Message}
    (own : OwnSteps (round slot) s (s.call slot (.recvmsg fd msg)) steps ret) :
    LosesNothing slot steps ret ↔
      (Receive.recvmsg fd msg).Careful slot s (steps.map Prod.fst) := by
  change OwnSteps _ s (s.become (s.system.recvmsgFromRing3 slot fd msg)) steps ret at own
  dsimp only [Receive.Careful]
  unfold System.recvmsgFromRing3 at own
  cases state : s.system.socketStateOf slot fd with
  | error errno =>
    rw [state] at own
    exact ⟨fun _ => nofun, fun _ => losesNothing_of_kept own rfl⟩
  | ok state' =>
    rw [state] at own
    cases state' with
    | unbound => exact ⟨fun _ => nofun, fun _ => losesNothing_of_kept own rfl⟩
    | listener _ => exact ⟨fun _ => nofun, fun _ => losesNothing_of_kept own rfl⟩
    | stream conn side =>
      cases msg with
      | error errno => exact ⟨fun _ => nofun, fun _ => losesNothing_of_kept own rfl⟩
      | ok m =>
        have rounds := OwnSteps.rounds (.recvmsg conn side m.control m.count m.valid) own
          (.single .keyboard)
        rw [recvmsg_rounds rounds]
        simp only [List.forall_mem_map]
        refine ⟨fun all conn' side' m' here same => ?_, fun all => all conn side m rfl rfl⟩
        cases here
        cases same
        exact all

theorem read_losesNothing_iff {fd count : Nat} {valid : Bool}
    (own : OwnSteps (round slot) s (s.call slot (.read fd count valid)) steps ret) :
    LosesNothing slot steps ret ↔
      (Receive.read fd count valid).Careful slot s (steps.map Prod.fst) := by
  change OwnSteps _ s (s.become (s.system.sysRead slot fd count valid)) steps ret at own
  dsimp only [Receive.Careful]
  by_cases keys : ∃ file, (s.system.files slot).get fd = .ok file ∧ file.readsKeys = true ∧
      file ≠ .input
  · obtain ⟨file, found, reads, other⟩ := keys
    have terminal : s.become (s.system.sysRead slot fd count valid) =
        s.become (s.system.readTerminal fd count valid) := by
      rw [System.sysRead_terminal found reads other]
    rw [terminal] at own
    have unique : ∀ {P : Prop}, (∀ file, (s.system.files slot).get fd = .ok file →
        file.readsKeys = true → file ≠ .input → P) ↔ P :=
      ⟨fun all => all file found reads other, fun holds _ _ _ _ => holds⟩
    rw [unique]
    unfold System.readTerminal at own
    by_cases none : count = 0
    · rw [if_pos none] at own
      refine iff_of_true ?_ (.inl none)
      split at own <;> exact losesNothing_of_kept own rfl
    by_cases unwritable : valid = false
    · rw [if_neg none, if_pos unwritable] at own
      refine iff_of_true ?_ (.inr (.inl unwritable))
      split at own <;> exact losesNothing_of_kept own rfl
    rw [if_neg none, if_neg unwritable] at own
    have looks : OwnSteps (round slot) s (round slot s (.terminal fd (min count terminalReadMax)))
        steps ret := by
      change OwnSteps _ s (s.become (s.system.afterKeyboard _)) steps ret
      unfold System.afterKeyboard
      cases front : s.system.input.foreground with
      | false =>
        rw [if_pos front] at own
        exact own
      | true =>
        rw [if_neg (by rw [front]; nofun)] at own
        exact own
    have some : 0 < min count terminalReadMax := by
      unfold terminalReadMax
      omega
    rw [terminal_rounds some (looks.rounds _ (.single .keyboard))]
    simp [none, unwritable]
  · push Not at keys
    refine ⟨fun _ file found reads other => absurd (keys file found reads) other, fun _ => ?_⟩
    exact (harmless_sysRead s count valid keys).losesNothing own

theorem takePending_losesNothing_iff {fd : Nat} {valid : Bool}
    (own : OwnSteps (round slot) s (s.call slot (.takePending fd valid)) steps ret) :
    LosesNothing slot steps ret ↔
      (Receive.takePending fd valid).Careful slot s (steps.map Prod.fst) := by
  change OwnSteps _ s (s.sysIoctl slot fd valid) steps ret at own
  dsimp only [Receive.Careful]
  unfold sysIoctl at own
  cases found : (s.system.files slot).get fd with
  | error error =>
    rw [found] at own
    exact ⟨fun _ => nofun, fun _ => losesNothing_of_kept own rfl⟩
  | ok file =>
    rw [found] at own
    dsimp only at own
    cases terminal : file.isTerminal with
    | false =>
      rw [terminal, if_neg Bool.false_ne_true] at own
      refine ⟨fun _ other here isTerminal => ?_, fun _ => losesNothing_of_kept own rfl⟩
      obtain rfl := Except.ok.inj here
      cases terminal.symm.trans isTerminal
    | true =>
      rw [terminal, if_pos rfl] at own
      obtain ⟨rfl, rfl⟩ := own.of_done rfl
      refine ⟨fun loses other here _ => ?_, fun careful failed => ?_⟩
      · cases writable : valid with
        | true => exact .inl rfl
        | false =>
          rw [writable] at loses
          have kept := loses ⟨_, rfl⟩ _ (List.mem_singleton.mpr rfl)
          exact .inr kept.messages.symm
      · obtain ⟨errno, failed⟩ := failed
        refine List.forall_mem_singleton.mpr (.of_same rfl rfl rfl ?_ rfl)
        rcases careful file rfl terminal with writable | empty
        · rw [writable] at failed
          cases failed
        · exact empty.symm

end Sources

end Zaytos.Kernel
