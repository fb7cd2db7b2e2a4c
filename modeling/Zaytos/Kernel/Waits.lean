import Zaytos.Kernel.Unmet

set_option autoImplicit false

/-! What a task has found that begins to wait. -/
namespace Zaytos.Kernel

/-- The reasons that `poll` has for its descriptors. -/
def Wait.isPolled : Wait → Bool
  | .keyboard | .socketReadable .. | .socketAcceptable _ => true
  | _ => false

def Call.mayWait : Call → Bool
  | .accept .. | .read .. | .write .. | .sendmsg .. | .recvmsg .. | .poll .. | .nanosleep _
  | .waitChild _ => true
  | _ => false

inductive LoopKind where
  | plain
  | keys (fd : Nat)
  | poll
  | child

def Loop.kind : Loop → LoopKind
  | .terminal fd _ | .input fd _ => .keys fd
  | .poll _ => .poll
  | .child _ => .child
  | _ => .plain

variable {fd room : Nat} {pipes : Pipes} {s : Sockets} {us valid : Bool} {on : Wait}
  {reasons : List Wait} {bytes : List UInt8} {msg : Except Errno Message}

theorem Loop.readsKeys_eq {loop : Loop} : loop.readsKeys = some fd ↔ loop.kind = .keys fd := by
  cases loop with
  | terminal other want =>
    exact ⟨fun same => congrArg _ (Option.some.inj same), fun same => congrArg _ (LoopKind.keys.inj same)⟩
  | input other cap =>
    exact ⟨fun same => congrArg _ (Option.some.inj same), fun same => congrArg _ (LoopKind.keys.inj same)⟩
  | _ => exact ⟨nofun, nofun⟩

def Loop.Sound : Loop → Prop
  | .pipeWrite _ src | .socketWrite _ _ src => src ≠ []
  | .poll reasons => (∀ on ∈ reasons, on.isPolled = true) ∧ reasons.length ≤ maxWaitReasons
  | .terminal _ want => 0 < want
  | .input _ cap => inputEventLen ≤ cap
  | _ => True

section Objects

variable {pipe want conn : Nat} {side : Side} {src : List UInt8}

theorem Pipes.readInto_empty (empty : (pipes.readInto pipe want).1 = .empty) :
    (pipes pipe).Starved ∧ (pipes.readInto pipe want).2.1 = pipes := by
  unfold Pipes.readInto at empty ⊢
  split at empty
  · rename_i small
    rw [if_pos small]
    split at empty
    · rename_i none
      rw [if_pos none]
      refine ⟨⟨(Ring.isEmpty_iff _).mp none, fun noWriter => ?_⟩, rfl⟩
      rw [noWriter] at empty
      cases empty
    · cases empty
  · cases empty

theorem Pipes.writeFrom_full (some : src ≠ []) (full : (pipes.writeFrom pipe src).1 = .full) :
    (pipes pipe).Stuffed ∧ (pipes.writeFrom pipe src).2.1 = pipes := by
  unfold Pipes.writeFrom at full ⊢
  split at full
  · rename_i small
    rw [if_pos small]
    split at full
    · cases full
    · rename_i reader
      rw [if_neg reader]
      dsimp only at full ⊢
      split at full
      · rename_i none
        rw [if_pos none, Ring.put_of_zero none, Function.update_eq_self]
        refine ⟨⟨(Ring.full_of_put_zero none).resolve_left some, ?_⟩, rfl⟩
        by_contra neither
        rw [not_or, not_not, Bool.not_eq_true] at neither
        exact reader neither
      · cases full
  · cases full

theorem Sockets.readInto_empty (empty : (s.readInto conn side want).1 = .empty) :
    conn < maxConnections ∧ (s.connections conn).Starved side ∧
      (s.readInto conn side want).2.1 = s := by
  unfold Sockets.readInto at empty ⊢
  split at empty
  · rename_i used
    rw [if_pos used]
    split at empty
    · rename_i none
      rw [if_pos none]
      refine ⟨used.1, ⟨(Ring.isEmpty_iff _).mp none, ?_⟩, rfl⟩
      by_contra gone
      rw [if_neg gone] at empty
      cases empty
    · cases empty
  · cases empty

theorem Sockets.writeFrom_full (some : src ≠ []) (full : (s.writeFrom conn side src).1 = .full) :
    conn < maxConnections ∧ (s.connections conn).Stuffed side ∧
      (s.writeFrom conn side src).2.1 = s := by
  rcases s.writeFrom_cases conn side src with ⟨outcome, eq, -, found⟩ | ⟨-, -, -, count, ring, eq, -⟩
  · obtain ⟨small, -, isOpen, none | stuffed⟩ := found ((congrArg Prod.fst eq).symm.trans full)
    · exact absurd none some
    · exact ⟨small, ⟨stuffed, isOpen⟩, congrArg (fun out => out.2.1) eq⟩
  · cases (congrArg Prod.fst eq).symm.trans full

theorem Sockets.not_readableOrGone (not : s.readableOrGone conn side ≠ true) :
    conn < maxConnections ∧ (s.connections conn).Starved side := by
  unfold Sockets.readableOrGone at not
  simp only [ne_eq, Bool.or_eq_true, decide_eq_true_eq, Bool.not_eq_true', not_or, Bool.not_eq_false]
    at not
  obtain ⟨⟨⟨small, -⟩, empty⟩, isOpen⟩ := not
  exact ⟨by omega, (Ring.isEmpty_iff _).mp empty, isOpen⟩

end Objects

namespace Input

theorem readLoop_none {codes : List UInt8} {decoder : Decoder}
    {out pending : List UInt8} (none : (readLoop us room codes decoder out pending).out = [])
    (some : 0 < room) : (readLoop us room codes decoder out pending).taken = codes.length := by
  have kept : ∀ {bytes out pending : List UInt8}, (deliver room out pending bytes).1 = [] → out = [] := by
    intro bytes
    induction bytes with
    | nil => exact fun none => none
    | cons byte rest ih =>
      intro out pending none
      unfold deliver at none
      split at none
      · exact absurd (ih none) (by simp)
      split at none
      · exact ih none
      · exact ih none
  have starts : ∀ {codes decoder out pending},
      (readLoop us room codes decoder out pending).out = [] → out = [] := by
    intro codes
    induction codes with
    | nil => exact fun none => none
    | cons code rest ih =>
      intro decoder out pending none
      unfold readLoop at none
      split at none
      · exact kept (ih none)
      · exact none
  induction codes generalizing decoder out pending with
  | nil => rfl
  | cons code rest ih =>
    have empty := starts none
    subst empty
    unfold readLoop at none ⊢
    rw [if_pos (show ([] : List UInt8).length < room from some)] at none ⊢
    exact congrArg (· + 1) (ih none)

theorem readBytes_none {s : Input} (none : (s.readBytes us room).1 = [])
    (some : 0 < room) : (s.readBytes us room).2.ring.codes = [] := by
  have taken := readLoop_none none some
  show s.ring.codes.drop _ = []
  exact List.drop_eq_nil_of_le (le_of_eq taken.symm)

theorem readEvents_none {s : Input} {sec usec : Nat}
    (none : (s.readEvents sec usec room).1 = []) (some : inputEventLen ≤ room) :
    (s.readEvents sec usec room).2.ring.codes = [] := by
  have one : 1 ≤ room / inputEventLen := (Nat.one_le_div_iff (by decide)).mpr some
  cases codes : s.ring.codes with
  | nil =>
    show s.ring.codes.drop _ = []
    rw [codes, List.drop_nil]
  | cons code rest =>
    exfalso
    unfold readEvents at none
    obtain ⟨count, min⟩ : ∃ count, min (room / inputEventLen) s.ring.codes.length = count + 1 :=
      ⟨_, (Nat.succ_pred_eq_of_pos (by rw [codes, List.length_cons]; omega)).symm⟩
    rw [min, codes] at none
    simp [inputEventBytes, leBytes] at none

end Input

namespace WaitSet

theorem mem_push {set more : WaitSet} {other : Wait} (pushed : set.push on = some more) :
    other ∈ more.reasons ↔ other ∈ set.reasons ∨ other = on := by
  unfold push at pushed
  split at pushed
  · rename_i contained
    obtain rfl := Option.some.inj pushed
    have mem : on ∈ set.reasons := List.contains_iff_mem.mp contained
    constructor
    · exact .inl
    · rintro (old | rfl)
      · exact old
      · exact mem
  · split at pushed
    · cases pushed
    · obtain rfl := Option.some.inj pushed
      simp only [List.mem_append, List.mem_singleton]

theorem push_isSome {set : WaitSet} (few : set.reasons.length < maxWaitReasons) :
    ∃ more, set.push on = some more ∧ more.reasons.length ≤ set.reasons.length + 1 := by
  unfold push
  split
  · exact ⟨set, rfl, Nat.le_succ _⟩
  · rw [dif_neg (by omega)]
    exact ⟨_, rfl, by rw [List.length_append, List.length_singleton]⟩

end WaitSet

namespace System

theorem foldl_push {start set : WaitSet}
    (pushed : reasons.foldl (fun set on => set.bind (·.push on)) (some start) = some set) :
    on ∈ set.reasons ↔ on ∈ start.reasons ∨ on ∈ reasons := by
  induction reasons generalizing start with
  | nil =>
    obtain rfl := Option.some.inj pushed
    simp only [List.not_mem_nil, or_false]
  | cons first rest ih =>
    rw [List.foldl_cons, Option.bind_some] at pushed
    cases more : start.push first with
    | none =>
      have none : rest.foldl (fun set on => set.bind (·.push on)) (none : Option WaitSet) = none := by
        clear pushed ih
        induction rest with
        | nil => rfl
        | cons _ _ ih => exact ih
      rw [more, none] at pushed
      cases pushed
    | some next =>
      rw [more] at pushed
      rw [ih pushed, WaitSet.mem_push more, List.mem_cons, or_assoc]

theorem foldl_push_isSome {start : WaitSet}
    (few : start.reasons.length + reasons.length ≤ maxWaitReasons) :
    ∃ set, reasons.foldl (fun set on => set.bind (·.push on)) (some start) = some set := by
  induction reasons generalizing start with
  | nil => exact ⟨start, rfl⟩
  | cons first rest ih =>
    rw [List.length_cons] at few
    obtain ⟨more, pushed, length⟩ := start.push_isSome (by omega)
    rw [List.foldl_cons, Option.bind_some, pushed]
    exact ih (by omega)

theorem mem_waitSetOf {set : WaitSet} (isSet : waitSetOf reasons = some set) :
    on ∈ set.reasons ↔ on ∈ reasons := by
  unfold waitSetOf at isSet
  split at isSet
  · obtain rfl := Option.some.inj isSet
    rfl
  · rw [foldl_push isSet]
    exact or_iff_right List.not_mem_nil

theorem waitSetOf_isSome (few : reasons.length ≤ maxWaitReasons) :
    ∃ set, waitSetOf reasons = some set := by
  unfold waitSetOf
  split
  · exact ⟨_, rfl⟩
  · exact foldl_push_isSome (by rwa [show WaitSet.empty.reasons.length = 0 from rfl, zero_add])

inductive Waits (k : System) : WaitSet → Loop → Prop
  | pipeRead {pipe want : Nat} (starved : (k.objects.pipes pipe).Starved) :
      Waits k (.single (.pipeReadable pipe)) (.pipeRead pipe want)
  | pipeWrite {pipe : Nat} {src : List UInt8} (stuffed : (k.objects.pipes pipe).Stuffed) :
      Waits k (.single (.pipeWritable pipe)) (.pipeWrite pipe src)
  | socketRead {conn want : Nat} {side : Side} (small : conn < maxConnections)
      (starved : (k.objects.sockets.connections conn).Starved side) :
      Waits k (.single (.socketReadable conn side)) (.socketRead conn side want)
  | socketWrite {conn : Nat} {side : Side} {src : List UInt8} (small : conn < maxConnections)
      (stuffed : (k.objects.sockets.connections conn).Stuffed side) :
      Waits k (.single (.socketWritable conn side)) (.socketWrite conn side src)
  | recvmsg {conn count : Nat} {side : Side} {control : ControlBuffer} {valid : Bool}
      (small : conn < maxConnections)
      (starved : (k.objects.sockets.connections conn).Starved side) :
      Waits k (.single (.socketReadable conn side)) (.recvmsg conn side control count valid)
  | accept {listener : Nat}
      (none : ∀ conn < maxConnections, k.objects.sockets.isPending listener conn = false) :
      Waits k (.single (.socketAcceptable listener)) (.accept listener)
  | poll {reasons : List Wait} {set : WaitSet} (isSet : waitSetOf reasons = some set)
      (notReady : ∀ on ∈ reasons, k.pollIsReady on = false) : Waits k set (.poll reasons)
  | terminal {fd want : Nat} (empty : k.input.ring.codes = []) :
      Waits k (.single .keyboard) (.terminal fd want)
  | input {fd cap : Nat} (empty : k.input.ring.codes = []) :
      Waits k (.single .keyboard) (.input fd cap)
  | sleep {deadline : Nat} (early : k.ticks < deadline) :
      Waits k (.single (.timer deadline)) (.sleep deadline)
  | child {handle : Nat} (current : k.handleIsCurrent handle = true)
      (running : k.tasks detachedSlot ≠ .finished) :
      Waits k (.single (.child handle)) (.child handle)

structure Begins (k : System) (kind : LoopKind) (set : WaitSet) (loop : Loop) : Prop where
  waits : Waits k set loop
  sound : loop.Sound
  kind : loop.kind = kind

variable (k : System) {slot : Slot} {set : WaitSet} {loop : Loop}

section Streams

variable {k}

theorem pipeReadLoop_waits {pipe want : Nat} (out : (k.pipeReadLoop pipe want).1 = .waits set loop) :
    Begins (k.pipeReadLoop pipe want).2 .plain set loop := by
  unfold pipeReadLoop at out ⊢
  dsimp only at out ⊢
  split at out
  · cases out
  · cases out
  · rename_i empty
    obtain ⟨starved, same⟩ := Pipes.readInto_empty empty
    rw [same]
    cases out
    exact ⟨.pipeRead starved, trivial, rfl⟩

theorem readFromPipe_waits {pipe count : Nat}
    (out : (k.readFromPipe pipe count valid).1 = .waits set loop) :
    Begins (k.readFromPipe pipe count valid).2 .plain set loop := by
  unfold readFromPipe at out ⊢
  split at out
  · cases out
  · rename_i some
    rw [if_neg some]
    split at out
    · rename_i writable
      rw [if_pos writable]
      exact pipeReadLoop_waits out
    · cases out

theorem pipeWriteLoop_waits {pipe : Nat} {src : List UInt8} (some : src ≠ [])
    (out : (k.pipeWriteLoop pipe src).1 = .waits set loop) :
    Begins (k.pipeWriteLoop pipe src).2 .plain set loop := by
  unfold pipeWriteLoop at out ⊢
  dsimp only at out ⊢
  split at out
  · cases out
  · cases out
  · rename_i full
    obtain ⟨stuffed, same⟩ := Pipes.writeFrom_full some full
    rw [same]
    cases out
    exact ⟨.pipeWrite stuffed, some, rfl⟩

theorem writeToPipe_waits {pipe count : Nat}
    (out : (k.writeToPipe pipe count bytes).1 = .waits set loop) :
    Begins (k.writeToPipe pipe count bytes).2 .plain set loop := by
  unfold writeToPipe at out ⊢
  split at out
  · cases out
  · rename_i some
    rw [if_neg some]
    split at out
    · cases out
    · rename_i reached
      rw [if_neg reached]
      exact pipeWriteLoop_waits (fun none => reached (by rw [none]; rfl)) out

theorem socketReadLoop_waits {conn want : Nat} {side : Side}
    (out : (k.socketReadLoop conn side want).1 = .waits set loop) :
    Begins (k.socketReadLoop conn side want).2 .plain set loop := by
  unfold socketReadLoop at out ⊢
  dsimp only at out ⊢
  split at out
  · cases out
  · cases out
  · cases out
  · rename_i empty
    obtain ⟨small, starved, same⟩ := Sockets.readInto_empty empty
    rw [same]
    cases out
    exact ⟨.socketRead small starved, trivial, rfl⟩

theorem readFromSocket_waits {conn count : Nat} {side : Side}
    (out : (k.readFromSocket conn side count valid).1 = .waits set loop) :
    Begins (k.readFromSocket conn side count valid).2 .plain set loop := by
  unfold readFromSocket at out ⊢
  split at out
  · cases out
  · rename_i some
    rw [if_neg some]
    split at out
    · rename_i writable
      rw [if_pos writable]
      exact socketReadLoop_waits out
    · cases out

theorem socketWriteLoop_waits {conn : Nat} {side : Side} {src : List UInt8} (some : src ≠ [])
    (out : (k.socketWriteLoop conn side src).1 = .waits set loop) :
    Begins (k.socketWriteLoop conn side src).2 .plain set loop := by
  unfold socketWriteLoop at out ⊢
  dsimp only at out ⊢
  split at out
  · cases out
  · cases out
  · cases out
  · rename_i full
    obtain ⟨small, stuffed, same⟩ := Sockets.writeFrom_full some full
    rw [same]
    cases out
    exact ⟨.socketWrite small stuffed, some, rfl⟩

theorem writeToSocket_waits {conn count : Nat} {side : Side}
    (out : (k.writeToSocket conn side count bytes).1 = .waits set loop) :
    Begins (k.writeToSocket conn side count bytes).2 .plain set loop := by
  unfold writeToSocket at out ⊢
  split at out
  · cases out
  · rename_i some
    rw [if_neg some]
    split at out
    · cases out
    · rename_i reached
      rw [if_neg reached]
      exact socketWriteLoop_waits (fun none => reached (by rw [none]; rfl)) out

theorem acceptLoop_waits {listener : Nat} (out : (k.acceptLoop slot listener).1 = .waits set loop) :
    Begins (k.acceptLoop slot listener).2 .plain set loop := by
  unfold acceptLoop at out ⊢
  split at out
  · split at out <;> cases out
  · cases out
  · rename_i sockets empty
    rcases k.objects.sockets.accept_cases listener with ⟨outcome, eq, -, none⟩ | ⟨conn, -, -, -, -, -, eq⟩
    · cases out
      refine ⟨.accept (none ?_), trivial, rfl⟩
      exact (Prod.mk.inj (eq.symm.trans empty)).1
    · cases (Prod.mk.inj (eq.symm.trans empty)).1

theorem acceptFromRing3_waits {addr : Nat}
    (out : (k.acceptFromRing3 slot fd addr).1 = .waits set loop) :
    Begins (k.acceptFromRing3 slot fd addr).2 .plain set loop := by
  unfold acceptFromRing3 at out ⊢
  split at out
  · split at out
    · cases out
    · rename_i noAddr
      rw [if_neg noAddr]
      exact acceptLoop_waits out
  · cases out
  · cases out

theorem sendmsgFromRing3_waits (out : (k.sendmsgFromRing3 slot fd msg).1 = .waits set loop) :
    Begins (k.sendmsgFromRing3 slot fd msg).2 .plain set loop := by
  unfold sendmsgFromRing3 at out ⊢
  split at out
  · split at out
    · cases out
    · split at out
      · exact writeToSocket_waits out
      · split at out
        · cases out
        · exact writeToSocket_waits out
  · cases out
  · cases out

theorem recvmsgLoop_waits {conn count : Nat} {side : Side} {control : ControlBuffer}
    (out : (k.recvmsgLoop slot conn side control count valid).1 = .waits set loop) :
    Begins (k.recvmsgLoop slot conn side control count valid).2 .plain set loop := by
  unfold recvmsgLoop at out ⊢
  split at out
  · rename_i ready
    rw [if_pos ready]
    split at out
    · exact readFromSocket_waits out
    · split at out
      · cases out
      · split at out
        · cases out
        · rename_i roomy
          rw [if_neg roomy]
          split at out
          · cases out
          · rename_i writable
            rw [if_neg writable]
            exact readFromSocket_waits out
  · rename_i waits
    rw [if_neg waits]
    cases out
    obtain ⟨small, starved⟩ := Sockets.not_readableOrGone waits
    exact ⟨.recvmsg small starved, trivial, rfl⟩

theorem recvmsgFromRing3_waits (out : (k.recvmsgFromRing3 slot fd msg).1 = .waits set loop) :
    Begins (k.recvmsgFromRing3 slot fd msg).2 .plain set loop := by
  unfold recvmsgFromRing3 at out ⊢
  split at out
  · split at out
    · cases out
    · exact recvmsgLoop_waits out
  · cases out
  · cases out

end Streams

end System

end Zaytos.Kernel
