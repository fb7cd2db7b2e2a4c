import Zaytos.Kernel.SocketStreams
import Zaytos.Lib.SlotQueue

set_option autoImplicit false

/-! The order in which the connections that wait at a listener are accepted. -/
namespace Zaytos.Kernel

namespace Connection

/-- A connection `d` that waits to be accepted was waiting as `c`, at the same listener. -/
def Waited (c d : Connection) : Prop :=
  d.inUse = true → d.accepted = false →
    c.inUse = true ∧ c.accepted = false ∧ c.listener = d.listener

theorem Waited.refl (c : Connection) : Waited c c := fun used waits => ⟨used, waits, rfl⟩

theorem Waited.dropEnd (c : Connection) (side : Side) : Waited c (Sockets.dropEnd c side) := by
  intro used waits
  unfold Sockets.dropEnd Sockets.closed at used waits ⊢
  split at used
  · rename_i isOpen
    rw [if_pos isOpen] at waits ⊢
    split at used
    · rename_i peer
      rw [if_pos peer] at waits ⊢
      exact ⟨used, waits, rfl⟩
    · cases used
  · rename_i isClosed
    rw [if_neg isClosed] at waits ⊢
    exact ⟨used, waits, rfl⟩

end Connection

namespace Sockets

/-- No connection of `t` has begun to wait since `s`. -/
def NoneCame (s t : Sockets) : Prop := ∀ conn, (s.connections conn).Waited (t.connections conn)

variable {s t : Sockets}

theorem NoneCame.of_connections (same : t.connections = s.connections) : s.NoneCame t := by
  intro conn
  rw [same]
  exact .refl _

theorem NoneCame.setConnection {conn : Nat} {c : Connection}
    (waited : (s.connections conn).Waited c) : s.NoneCame (s.setConnection conn c) := by
  intro other
  rw [setConnection_apply]
  split
  · rename_i same
    rw [same]
    exact waited
  · exact .refl _

theorem NoneCame.closeEnd (conn : Nat) (side : Side) : s.NoneCame (s.closeEnd conn side).1 := by
  intro other
  rw [closeEnd_connections]
  split
  · rename_i closes
    rw [closes.1]
    exact .dropEnd _ side
  · exact .refl _

theorem NoneCame.closeListener (listener : Nat) : s.NoneCame (s.closeListener listener).1 := by
  rcases s.closeListener_cases listener with eq | ⟨-, -, -, connections, -⟩
  · rw [eq]
    exact .of_connections rfl
  · intro conn
    rw [connections]
    split
    · exact .dropEnd _ .server
    · exact .refl _

theorem NoneCame.pending (came : s.NoneCame t) {listener conn : Nat}
    (pending : t.isPending listener conn = true) : s.isPending listener conn = true := by
  obtain ⟨used, there, waits⟩ := isPending_iff.mp pending
  obtain ⟨used, waits, same⟩ := came conn used waits
  exact isPending_iff.mpr ⟨used, same.trans there, waits⟩

theorem isPending_fresh (listener conn other slot : Nat) :
    (s.setConnection conn (fresh listener)).isPending other slot =
      if slot = conn then decide (listener = other) else s.isPending other slot := by
  unfold isPending
  rw [setConnection_apply]
  split
  · simp [fresh, Connection.empty, beq_eq_decide]
  · rfl

theorem connect_found {name : List UInt8} {conn : Nat}
    (connected : (s.connect name).1 = .connected conn) : ∃ listener, listener < maxListeners ∧
    (s.listeners listener).inUse = true ∧ (s.listeners listener).listening = true ∧
    (s.listeners listener).name = name ∧ conn < maxConnections ∧
    (s.connections conn).inUse = false ∧
    (s.connect name).2.1 = s.setConnection conn (fresh listener) := by
  unfold connect at connected ⊢
  split
  · rename_i noListener
    rw [noListener] at connected
    cases connected
  · rename_i listener foundListener
    rw [foundListener] at connected
    dsimp only at connected ⊢
    split
    · rename_i noRoom
      rw [noRoom] at connected
      cases connected
    · rename_i slot foundConn
      rw [foundConn] at connected
      obtain rfl := ConnectResult.connected.inj connected
      have isListener := List.find?_some foundListener
      have isFree := List.find?_some foundConn
      simp only [Bool.and_eq_true, Bool.not_eq_true', beq_iff_eq] at isListener isFree
      exact ⟨listener, List.mem_range.mp (List.mem_of_find?_eq_some foundListener),
        isListener.1.1, isListener.1.2, isListener.2,
        List.mem_range.mp (List.mem_of_find?_eq_some foundConn), isFree, rfl⟩

end Sockets

/-- The socket tables, with the connections that wait at each listener in the order in which
their `connect` succeeded. -/
structure ListenQueues where
  system : SocketSystem
  waiting : Nat → List Nat

namespace ListenQueues

open SocketSystem (Action)

def init : ListenQueues := ⟨.init, fun _ => []⟩

def made (s : Sockets) : Action → Option Nat
  | .connect name =>
    match (s.connect name).1 with
    | .connected conn => some conn
    | _ => none
  | _ => none

/-- A step. Who was accepted, or gave its slot back, has left its queue, and who has connected
is the last of its queue. -/
def step (s : ListenQueues) (a : Action) : Option ListenQueues :=
  (s.system.step a).map fun t => ⟨t, fun listener =>
    (s.waiting listener ++ (made s.system.sockets a).toList).filter (t.sockets.isPending listener)⟩

/-- A `connect` that finds an unused slot below one that waits at the same listener. -/
def overtakes (s : Sockets) : Action → Bool
  | .connect name => (List.range maxListeners).any fun listener =>
      (s.listeners listener).inUse && (s.listeners listener).listening &&
        (s.listeners listener).name == name &&
      (List.range maxConnections).any fun conn => s.isPending listener conn &&
        (List.range conn).any fun slot => !(s.connections slot).inUse
  | _ => false

/-- A step that is no such `connect`. -/
def orderedStep (s : ListenQueues) (a : Action) : Option ListenQueues :=
  if overtakes s.system.sockets a then none else s.step a

/-- What `accept` gives is the head of the queue. -/
def FirstOut (s : ListenQueues) : Prop :=
  ∀ listener, match (s.system.sockets.accept listener).1 with
    | .connection conn => (s.waiting listener).head? = some conn
    | .empty => s.waiting listener = []
    | .noListener => True

def Ordered (s : ListenQueues) : Prop :=
  ∀ listener, SlotQueue.Ordered maxConnections (s.system.sockets.isPending listener)
    (s.waiting listener)

variable {s t : ListenQueues}

theorem ordered_init : init.Ordered := fun _ => rfl

theorem Ordered.firstOut (ordered : s.Ordered) : s.FirstOut := by
  intro listener
  rcases s.system.sockets.accept_cases listener with
    ⟨outcome, eq, noConn, none⟩ | ⟨conn, -, -, -, -, found, eq⟩
  · rw [eq]
    cases outcome with
    | connection conn => exact absurd rfl (noConn conn)
    | empty =>
      rw [ordered listener, List.filter_eq_nil_iff]
      intro conn mem
      rw [none rfl conn (List.mem_range.mp mem)]
      exact Bool.false_ne_true
    | noListener => trivial
  · rw [eq]
    exact (ordered listener).find?_eq ▸ found

theorem Ordered.leave (ordered : s.Ordered) {system : SocketSystem}
    (came : s.system.sockets.NoneCame system.sockets) :
    Ordered ⟨system, fun listener =>
      (s.waiting listener).filter (system.sockets.isPending listener)⟩ := by
  intro listener
  apply (ordered listener).leave
  intro slot _ pending
  exact came.pending pending

theorem Ordered.join (ordered : s.Ordered) {listener conn : Nat} (small : conn < maxConnections)
    (unused : (s.system.sockets.connections conn).inUse = false)
    (behind : ∀ other < maxConnections, s.system.sockets.isPending listener other = true →
      other < conn) (system : SocketSystem)
    (sockets : system.sockets =
      s.system.sockets.setConnection conn (Sockets.fresh listener)) :
    Ordered ⟨system, fun at' =>
      (s.waiting at' ++ [conn]).filter (system.sockets.isPending at')⟩ := by
  intro other
  dsimp only
  rw [sockets, List.filter_append]
  have free : ∀ at', s.system.sockets.isPending at' conn = false := by
    intro at'
    unfold Sockets.isPending
    rw [unused]
    rfl
  have still : ∀ slot, slot ≠ conn →
      (s.system.sockets.setConnection conn (Sockets.fresh listener)).isPending other slot =
        s.system.sockets.isPending other slot := by
    intro slot ne
    rw [Sockets.isPending_fresh, if_neg ne]
  by_cases same : listener = other
  · subst same
    have joins : (s.system.sockets.setConnection conn (Sockets.fresh listener)).isPending
        listener conn = true := by
      rw [Sockets.isPending_fresh, if_pos rfl]
      exact decide_eq_true rfl
    have kept : (s.waiting listener).filter
        ((s.system.sockets.setConnection conn (Sockets.fresh listener)).isPending listener) =
          s.waiting listener := by
      apply List.filter_eq_self.mpr
      intro slot mem
      have waits := ((ordered listener).mem_iff.mp mem).2
      rw [still slot fun eq => by rw [eq, free] at waits; cases waits]
      exact waits
    rw [kept, List.filter_singleton, joins]
    apply (ordered listener).join small
    · intro slot mem
      have waits := (ordered listener).mem_iff.mp mem
      exact behind slot waits.1 waits.2
    · exact joins
    · intro slot _ ne
      exact still slot ne
  · have elsewhere : (s.system.sockets.setConnection conn (Sockets.fresh listener)).isPending
        other conn = false := by
      rw [Sockets.isPending_fresh, if_pos rfl]
      exact decide_eq_false same
    rw [List.filter_singleton, elsewhere, cond_false, List.append_nil]
    apply (ordered other).leave
    intro slot _ pending
    by_cases eq : slot = conn
    · rw [eq, elsewhere] at pending
      cases pending
    · rwa [still slot eq] at pending

theorem not_overtakes {sockets : Sockets} {name : List UInt8} {listener conn : Nat}
    (small : listener < maxListeners) (inUse : (sockets.listeners listener).inUse = true)
    (listening : (sockets.listeners listener).listening = true)
    (named : (sockets.listeners listener).name = name)
    (unused : (sockets.connections conn).inUse = false)
    (orderly : overtakes sockets (.connect name) = false) :
    ∀ other < maxConnections, sockets.isPending listener other = true → other < conn := by
  intro other less pending
  by_contra notBehind
  have ne : other ≠ conn := by
    intro same
    rw [same, Sockets.isPending_iff, unused] at pending
    cases pending.1
  apply Bool.false_ne_true
  rw [← orderly]
  unfold overtakes
  simp only [List.any_eq_true, List.mem_range, Bool.and_eq_true, beq_iff_eq, Bool.not_eq_true']
  exact ⟨listener, small, ⟨⟨inUse, listening⟩, named⟩, other, less, pending, conn, by omega, unused⟩

theorem step_noneCame {s t : SocketSystem} {a : Action} (next : s.step a = some t)
    (none : made s.sockets a = none) : s.sockets.NoneCame t.sockets := by
  cases a with
  | bind name =>
    obtain rfl := Option.some.inj next
    apply Sockets.NoneCame.of_connections
    rcases s.sockets.bind_cases name with ⟨outcome, eq, -⟩ | ⟨listener, -, -, eq⟩
    · rw [eq]
    · rw [eq]
      rfl
  | listen listener =>
    obtain rfl := Option.some.inj next
    apply Sockets.NoneCame.of_connections
    rcases s.sockets.listen_cases listener with eq | ⟨-, -, eq⟩
    · rw [eq]
    · rw [eq]
      rfl
  | connect name =>
    rw [SocketSystem.step] at next
    rcases s.sockets.connect_cases name with ⟨outcome, eq, noConn⟩ | ⟨_, conn, -, -, -, -, -, eq⟩
    · rw [eq] at next
      cases outcome with
      | connected conn => exact absurd rfl (noConn conn)
      | noListener => exact Option.some.inj next ▸ .of_connections rfl
      | noRoom => exact Option.some.inj next ▸ .of_connections rfl
    · simp only [made, eq, reduceCtorEq] at none
  | accept listener =>
    obtain rfl := Option.some.inj next
    rcases s.sockets.accept_cases listener with ⟨outcome, eq, -⟩ | ⟨conn, -, -, -, -, -, eq⟩
    · exact .of_connections (by rw [eq])
    · dsimp only
      rw [eq]
      apply Sockets.NoneCame.setConnection
      intro used waits
      cases waits
  | readInto conn side want =>
    rw [SocketSystem.step] at next
    rcases s.sockets.readInto_cases conn side want with ⟨outcome, eq, noBytes, -⟩ | ⟨-, -, ring, eq, -⟩
    · rw [eq] at next
      cases outcome with
      | bytes data => exact absurd rfl (noBytes data)
      | eof => exact Option.some.inj next ▸ .of_connections rfl
      | empty => exact Option.some.inj next ▸ .of_connections rfl
      | noConnection => exact Option.some.inj next ▸ .of_connections rfl
    · rw [eq] at next
      obtain rfl := Option.some.inj next
      exact .setConnection fun used waits => ⟨used, waits, rfl⟩
  | writeFrom conn side src =>
    rw [SocketSystem.step] at next
    rcases s.sockets.writeFrom_cases conn side src with
      ⟨outcome, eq, noBytes, -⟩ | ⟨-, -, -, count, ring, eq, -⟩
    · rw [eq] at next
      cases outcome with
      | bytes count => exact absurd rfl (noBytes count)
      | full => exact Option.some.inj next ▸ .of_connections rfl
      | peerClosed => exact Option.some.inj next ▸ .of_connections rfl
      | noConnection => exact Option.some.inj next ▸ .of_connections rfl
    · rw [eq] at next
      obtain rfl := Option.some.inj next
      exact .setConnection fun used waits => ⟨used, waits, rfl⟩
  | closeEnd conn side =>
    obtain rfl := Option.some.inj next
    exact .closeEnd conn side
  | closeListener listener =>
    obtain rfl := Option.some.inj next
    exact .closeListener listener
  | queueFd conn side shm =>
    obtain rfl := Option.some.inj next
    rcases s.sockets.queueFd_cases conn side shm with eq | ⟨-, -, -, eq⟩
    · exact .of_connections (by rw [eq])
    · dsimp only
      rw [eq]
      exact .setConnection fun used waits => ⟨used, waits, rfl⟩
  | takeFd conn side =>
    obtain rfl := Option.some.inj next
    rcases s.sockets.takeFd_cases conn side with eq | ⟨-, -, shm, -, eq⟩
    · exact .of_connections (by rw [eq])
    · dsimp only
      rw [eq]
      exact .setConnection fun used waits => ⟨used, waits, rfl⟩

theorem made_some {s t : SocketSystem} {a : Action} {conn : Nat} (next : s.step a = some t)
    (connects : made s.sockets a = some conn) : ∃ name, a = .connect name ∧
    (s.sockets.connect name).1 = .connected conn ∧
    t.sockets = (s.sockets.connect name).2.1 := by
  cases a with
  | connect name =>
    rw [SocketSystem.step] at next
    simp only [made] at connects
    rcases s.sockets.connect_cases name with ⟨outcome, eq, noConn⟩ | ⟨_, slot, -, -, -, -, -, eq⟩
    · rw [eq] at connects
      cases outcome with
      | connected conn => exact absurd rfl (noConn conn)
      | noListener => cases connects
      | noRoom => cases connects
    · rw [eq] at next connects
      obtain rfl := Option.some.inj connects
      obtain rfl := Option.some.inj next
      exact ⟨name, rfl, by rw [eq], by rw [eq]; rfl⟩
  | _ => cases connects

theorem Ordered.step {a : Action} (ordered : s.Ordered) (next : s.step a = some t)
    (orderly : overtakes s.system.sockets a = false) : t.Ordered := by
  obtain ⟨system, stepped, rfl⟩ := Option.map_eq_some_iff.mp next
  cases connects : made s.system.sockets a with
  | none =>
    simp only [Option.toList_none, List.append_nil]
    exact ordered.leave (step_noneCame stepped connects)
  | some conn =>
    obtain ⟨name, rfl, connected, after⟩ := made_some stepped connects
    obtain ⟨listener, small, inUse, listening, named, fits, unused, eq⟩ :=
      Sockets.connect_found connected
    have behind := not_overtakes small inUse listening named unused orderly
    exact ordered.join fits unused behind system (after.trans eq)

theorem not_firstOut {a : Action} (ordered : s.Ordered)
    (overtaking : overtakes s.system.sockets a = true) (next : s.step a = some t) :
    ¬ t.FirstOut := by
  obtain ⟨system, stepped, rfl⟩ := Option.map_eq_some_iff.mp next
  cases a with
  | connect name =>
    unfold overtakes at overtaking
    simp only [List.any_eq_true, List.mem_range, Bool.and_eq_true, beq_iff_eq,
      Bool.not_eq_true'] at overtaking
    obtain ⟨listener, small, ⟨⟨inUse, listening⟩, named⟩, conn, few, waits, slot, less, unused⟩ :=
      overtaking
    have few : conn < 2 := few
    obtain rfl : listener = 0 := Nat.lt_one_iff.mp small
    obtain rfl : conn = 1 := by omega
    obtain rfl : slot = 0 := by omega
    have free : s.system.sockets.isPending 0 0 = false := by
      unfold Sockets.isPending
      rw [unused]
      rfl
    have queue : s.waiting 0 = [1] := by
      rw [ordered 0]
      show (List.range 2).filter _ = [1]
      rw [List.range_succ, List.range_one, List.filter_append, List.filter_singleton,
        List.filter_singleton, free, waits]
      rfl
    have connects : s.system.sockets.connect name = (.connected 0,
        s.system.sockets.setConnection 0 (Sockets.fresh 0), [.socketAcceptable 0]) := by
      unfold Sockets.connect
      simp [List.range_succ, inUse, listening, named, unused]
    have after : system.sockets = s.system.sockets.setConnection 0 (Sockets.fresh 0) := by
      rw [SocketSystem.step, connects] at stepped
      rw [← Option.some.inj stepped]
      rfl
    have accepts : (system.sockets.accept 0).1 = .connection 0 := by
      unfold Sockets.accept
      rw [after]
      simp [List.range_succ, inUse, listening, Sockets.isPending_fresh]
    intro firstOut
    have first := firstOut 0
    dsimp only at first
    rw [accepts, queue, after] at first
    simp [made, connects, Sockets.isPending_fresh, waits] at first
  | _ => cases overtaking

/-- In every run in which no `connect` finds an unused slot below one that waits at the same
listener, `accept` gives the connections of a listener in the order in which they were made.
Whether a further step keeps this is exactly whether it is no such `connect`. -/
theorem accept_first_out (reach : Reachable orderedStep init s) :
    s.FirstOut ∧ ∀ a t, s.step a = some t →
      (t.FirstOut ↔ overtakes s.system.sockets a = false) := by
  have ordered : s.Ordered := by
    refine reach.invariant ordered_init fun s a t ordered next => ?_
    unfold orderedStep at next
    split at next
    · cases next
    · rename_i orderly
      exact ordered.step next (Bool.eq_false_of_not_eq_true orderly)
  refine ⟨ordered.firstOut, fun a t next => ⟨fun firstOut => ?_, fun orderly => ?_⟩⟩
  · by_contra overtaking
    exact not_firstOut ordered (Bool.eq_true_of_not_eq_false overtaking) next firstOut
  · exact (ordered.step next orderly).firstOut

/-- Two that have connected are accepted in that order. -/
theorem accept_first_out_pair : ∃ s, Reachable orderedStep init s ∧ s.waiting 0 = [0, 1] ∧
    (s.system.sockets.accept 0).1 = .connection 0 ∧ s.FirstOut := by
  have run : ((runSteps orderedStep [.bind [97], .listen 0, .connect [97], .connect [97]] init).map
      fun s => (s.waiting 0, (s.system.sockets.accept 0).1)) = some ([0, 1], .connection 0) := by
    decide
  obtain ⟨s, run, seen⟩ := Option.map_eq_some_iff.mp run
  have reach := Reachable.refl.of_runSteps _ run
  exact ⟨s, reach, congrArg Prod.fst seen, congrArg Prod.snd seen, (accept_first_out reach).1⟩

/-- The first of two connections is accepted and closed at both ends. A third takes its slot and
is accepted before the second. -/
theorem accept_last_first : ∃ s, Reachable step init s ∧ s.waiting 0 = [1, 0] ∧
    (s.system.sockets.accept 0).1 = .connection 0 ∧ ¬ s.FirstOut := by
  have run : ((runSteps step [.bind [97], .listen 0, .connect [97], .connect [97], .accept 0,
      .closeEnd 0 .client, .closeEnd 0 .server, .connect [97]] init).map
        fun s => (s.waiting 0, (s.system.sockets.accept 0).1)) = some ([1, 0], .connection 0) := by
    decide
  obtain ⟨s, run, seen⟩ := Option.map_eq_some_iff.mp run
  have waits : s.waiting 0 = [1, 0] := congrArg Prod.fst seen
  have accepts : (s.system.sockets.accept 0).1 = .connection 0 := congrArg Prod.snd seen
  refine ⟨s, Reachable.refl.of_runSteps _ run, waits, accepts, fun firstOut => ?_⟩
  have first := firstOut 0
  rw [accepts, waits] at first
  cases first

end ListenQueues

end Zaytos.Kernel
