import Zaytos.Kernel.SocketSpec

set_option autoImplicit false

/-! Runs of the socket tables: the bytes that have gone through each connection. -/
namespace Zaytos.Kernel

/-- The bytes of a connection since `connect`: accepted from each side, and read by it. -/
structure SocketLog where
  sent : Side → List UInt8
  got : Side → List UInt8

def SocketLog.empty : SocketLog := ⟨fun _ => [], fun _ => []⟩

structure SocketSystem where
  sockets : Sockets
  logs : Nat → SocketLog

variable {log : SocketLog} {c d : Connection} {s t : SocketSystem} {conn : Nat} {side : Side}

namespace SocketSystem

def init : SocketSystem := ⟨.init, fun _ => .empty⟩

inductive Action where
  | bind (name : List UInt8)
  | listen (listener : Nat)
  | connect (name : List UInt8)
  | accept (listener : Nat)
  | readInto (conn : Nat) (side : Side) (want : Nat)
  | writeFrom (conn : Nat) (side : Side) (src : List UInt8)
  | closeEnd (conn : Nat) (side : Side)
  | closeListener (listener : Nat)
  | queueFd (conn : Nat) (side : Side) (shm : Nat)
  | takeFd (conn : Nat) (side : Side)

def update (s : SocketSystem) (sockets : Sockets) (conn : Nat) (log : SocketLog) : SocketSystem :=
  ⟨sockets, Function.update s.logs conn log⟩

def step (s : SocketSystem) : Action → Option SocketSystem
  | .bind name => some { s with sockets := (s.sockets.bind name).2 }
  | .listen listener => some { s with sockets := (s.sockets.listen listener).2 }
  | .connect name =>
    match s.sockets.connect name with
    | (.connected conn, sockets, _) => some (s.update sockets conn .empty)
    | (_, sockets, _) => some { s with sockets }
  | .accept listener => some { s with sockets := (s.sockets.accept listener).2 }
  | .readInto conn side want =>
    match s.sockets.readInto conn side want with
    | (.bytes data, sockets, _) => some (s.update sockets conn { s.logs conn with
        got := Function.update (s.logs conn).got side ((s.logs conn).got side ++ data) })
    | (_, sockets, _) => some { s with sockets }
  | .writeFrom conn side src =>
    match s.sockets.writeFrom conn side src with
    | (.bytes count, sockets, _) => some (s.update sockets conn { s.logs conn with
        sent := Function.update (s.logs conn).sent side ((s.logs conn).sent side ++ src.take count) })
    | (_, sockets, _) => some { s with sockets }
  | .closeEnd conn side => some { s with sockets := (s.sockets.closeEnd conn side).1 }
  | .closeListener listener => some { s with sockets := (s.sockets.closeListener listener).1 }
  | .queueFd conn side shm => some { s with sockets := (s.sockets.queueFd conn side shm).2.1 }
  | .takeFd conn side => some { s with sockets := (s.sockets.takeFd conn side).2 }

/-- How a connection and its log belong together. Bytes are lost only when the slot goes
back with bytes in the ring. -/
structure Ok (c : Connection) (log : SocketLog) : Prop where
  before : ∀ side, log.got side <+: log.sent side.peer
  few : ∀ side, (log.sent side.peer).length ≤ (log.got side).length + socketRing
  between : c.inUse = true → ∀ side, log.sent side.peer = log.got side ++ (c.rings side).contents

def Inv (s : SocketSystem) : Prop := ∀ conn, Ok (s.sockets.connections conn) (s.logs conn)

theorem Ok.of_between
    (between : ∀ side, log.sent side.peer = log.got side ++ (c.rings side).contents) : Ok c log where
  before side := by
    rw [between side]
    exact List.prefix_append _ _
  few side := by
    rw [between side, List.length_append, Ring.length_contents]
    exact Nat.add_le_add_left (c.rings side).len_le _
  between _ := between

theorem Ok.of_unused (ok : Ok c log) (unused : d.inUse = false) : Ok d log :=
  ⟨ok.before, ok.few, fun used => Bool.noConfusion (used.symm.trans unused)⟩

theorem Ok.of_rings (ok : Ok c log) (used : d.inUse = c.inUse)
    (rings : d.rings = c.rings) : Ok d log :=
  ⟨ok.before, ok.few, by rw [used, rings]; exact ok.between⟩

theorem inv_init : init.Inv := fun _ =>
  ⟨fun _ => List.prefix_rfl, fun _ => Nat.zero_le _, fun used => Bool.noConfusion used⟩

theorem Inv.set (inv : s.Inv) (conn : Nat)
    (ok : Ok c log) : (s.update (s.sockets.setConnection conn c) conn log).Inv := by
  intro other
  show Ok ((s.sockets.setConnection conn c).connections other) (Function.update s.logs conn log other)
  rw [Sockets.setConnection_apply, Function.update_apply]
  by_cases same : other = conn
  · rw [if_pos same, if_pos same]
    exact ok
  · rw [if_neg same, if_neg same]
    exact inv other

theorem Inv.setConnection (inv : s.Inv)
    (ok : Ok c (s.logs conn)) : ({ s with sockets := s.sockets.setConnection conn c }).Inv := by
  have all := inv.set conn ok
  unfold update at all
  rwa [Function.update_eq_self] at all

theorem Inv.of_connections (inv : s.Inv) {sockets : Sockets}
    (same : sockets.connections = s.sockets.connections) : ({ s with sockets }).Inv := by
  intro conn
  rw [show sockets.connections conn = s.sockets.connections conn by rw [same]]
  exact inv conn

theorem Inv.connect (inv : s.Inv) {name : List UInt8}
    (next : s.step (.connect name) = some t) : t.Inv := by
  rw [step] at next
  rcases s.sockets.connect_cases name with ⟨outcome, eq, refused⟩ | ⟨listener, conn, -, -, -, -, -, eq⟩
  · rw [eq] at next
    cases outcome with
    | connected conn => exact absurd rfl (refused conn)
    | noListener => exact Option.some.inj next ▸ inv
    | noRoom => exact Option.some.inj next ▸ inv
  · rw [eq] at next
    exact Option.some.inj next ▸ inv.set conn (.of_between fun _ => rfl)

theorem Inv.readInto (inv : s.Inv) {want : Nat}
    (next : s.step (.readInto conn side want) = some t) : t.Inv := by
  have ok := inv conn
  rw [step] at next
  rcases s.sockets.readInto_cases conn side want with ⟨outcome, eq, noBytes, -⟩ | ⟨-, used, ring, eq, left⟩
  · rw [eq] at next
    cases outcome with
    | bytes data => exact absurd rfl (noBytes data)
    | eof => exact Option.some.inj next ▸ inv
    | empty => exact Option.some.inj next ▸ inv
    | noConnection => exact Option.some.inj next ▸ inv
  · rw [eq] at next
    obtain rfl := Option.some.inj next
    refine inv.set conn (.of_between fun other => ?_)
    have old := ok.between used other
    dsimp only
    by_cases same : other = side
    · subst same
      rw [Function.update_self, Function.update_self, left, old, List.append_assoc,
        List.take_append_drop]
    · rw [Function.update_of_ne same, Function.update_of_ne same]
      exact old

theorem Inv.writeFrom (inv : s.Inv)
    {src : List UInt8} (next : s.step (.writeFrom conn side src) = some t) : t.Inv := by
  have ok := inv conn
  rw [step] at next
  rcases s.sockets.writeFrom_cases conn side src with
    ⟨outcome, eq, noBytes, -⟩ | ⟨-, used, -, count, ring, eq, contents⟩
  · rw [eq] at next
    cases outcome with
    | bytes count => exact absurd rfl (noBytes count)
    | full => exact Option.some.inj next ▸ inv
    | peerClosed => exact Option.some.inj next ▸ inv
    | noConnection => exact Option.some.inj next ▸ inv
  · rw [eq] at next
    obtain rfl := Option.some.inj next
    refine inv.set conn (.of_between fun other => ?_)
    have old := ok.between used other
    dsimp only
    by_cases same : other = side.peer
    · subst same
      rw [Side.peer_peer] at old ⊢
      rw [Function.update_self, Function.update_self, contents, old, List.append_assoc]
    · have notSide : other.peer ≠ side := fun peer => same (by rw [← peer, Side.peer_peer])
      rw [Function.update_of_ne same, Function.update_of_ne notSide]
      exact old

theorem Inv.closeEnd (inv : s.Inv) (conn : Nat) (side : Side) :
    ({ s with sockets := (s.sockets.closeEnd conn side).1 }).Inv := by
  rcases s.sockets.closeEnd_cases conn side with ⟨eq, -⟩ | ⟨-, used, -, eq⟩
  · rw [eq]
    exact inv
  · rw [eq]
    refine inv.setConnection ?_
    unfold Sockets.closed
    split
    · exact (inv conn).of_rings rfl rfl
    · exact (inv conn).of_unused rfl

theorem Inv.closeServers (inv : s.Inv) (conns : List Nat) :
    ({ s with sockets := (s.sockets.closeServers conns).1 }).Inv := by
  induction conns generalizing s with
  | nil => exact inv
  | cons conn rest ih => exact ih (inv.closeEnd conn .server)

theorem Inv.step {a : Action} (inv : s.Inv) (next : s.step a = some t) : t.Inv := by
  cases a with
  | bind name =>
    obtain rfl := Option.some.inj next
    refine inv.of_connections ?_
    unfold Sockets.bind
    split
    · rfl
    · split <;> rfl
  | listen listener =>
    obtain rfl := Option.some.inj next
    refine inv.of_connections ?_
    unfold Sockets.listen
    split <;> rfl
  | connect name => exact inv.connect next
  | accept listener =>
    obtain rfl := Option.some.inj next
    rcases s.sockets.accept_cases listener with ⟨outcome, eq, -⟩ | ⟨conn, -, -, -, -, -, eq⟩
    · rw [eq]
      exact inv
    · rw [eq]
      exact inv.setConnection ((inv conn).of_rings rfl rfl)
  | readInto conn side want => exact inv.readInto next
  | writeFrom conn side src => exact inv.writeFrom next
  | closeEnd conn side => exact Option.some.inj next ▸ inv.closeEnd conn side
  | closeListener listener =>
    obtain rfl := Option.some.inj next
    unfold Sockets.closeListener
    split
    · have unbound : ({ s with sockets := s.sockets.setListener listener .empty }).Inv :=
        inv.of_connections rfl
      exact unbound.closeServers _
    · exact inv
  | queueFd conn side shm =>
    obtain rfl := Option.some.inj next
    rcases s.sockets.queueFd_cases conn side shm with eq | ⟨-, -, -, eq⟩
    · rw [eq]
      exact inv
    · rw [eq]
      exact inv.setConnection ((inv conn).of_rings rfl rfl)
  | takeFd conn side =>
    obtain rfl := Option.some.inj next
    rcases s.sockets.takeFd_cases conn side with eq | ⟨-, -, shm, -, eq⟩
    · rw [eq]
      exact inv
    · rw [eq]
      exact inv.setConnection ((inv conn).of_rings rfl rfl)

theorem inv_of_reachable (reach : Reachable SocketSystem.step init s) : s.Inv :=
  reach.invariant inv_init fun _ _ _ inv next => inv.step next

/-- In every state that calls lead to: what a side has read is a prefix of what was accepted
from the other, at most a ring behind it, the end of the bytes is reported only when
everything was read and the other end is closed, and a new connection holds no byte. -/
theorem socket_streams {s : SocketSystem} (reach : Reachable SocketSystem.step init s)
    (conn : Nat) (side : Side) :
    (s.logs conn).got side <+: (s.logs conn).sent side.peer ∧
    ((s.logs conn).sent side.peer).length - ((s.logs conn).got side).length ≤ socketRing ∧
    (∀ want, (s.sockets.readInto conn side want).1 = .eof →
      (s.logs conn).got side = (s.logs conn).sent side.peer ∧
      (s.sockets.connections conn).isOpen side.peer = false) ∧
    ∀ name t, s.step (.connect name) = some t → (s.sockets.connect name).1 = .connected conn →
      (t.sockets.connections conn).rings side = .empty (by decide) ∧
      (t.logs conn).sent side = [] ∧ (t.logs conn).got side = [] := by
  have ok := inv_of_reachable reach conn
  have few := ok.few side
  refine ⟨ok.before side, by omega, fun want eof => ?_, fun name t next connected => ?_⟩
  · rcases s.sockets.readInto_cases conn side want with ⟨outcome, eq, -, ended⟩ | ⟨-, -, ring, eq, -⟩
    · rw [eq] at eof
      obtain rfl : outcome = .eof := eof
      obtain ⟨used, empty, isOpen⟩ := ended (.inl rfl)
      refine ⟨?_, Bool.eq_false_iff.mpr fun still => by cases isOpen.mp still⟩
      rw [ok.between used side, empty, List.append_nil]
    · rw [eq] at eof
      cases eof
  · rw [step] at next
    rcases s.sockets.connect_cases name with ⟨outcome, eq, refused⟩ | ⟨listener, new, -, -, -, -, -, eq⟩
    · rw [eq] at connected
      exact absurd connected (refused conn)
    · rw [eq] at connected next
      obtain rfl : new = conn := ConnectResult.connected.inj connected
      obtain rfl := Option.some.inj next
      have log : (s.update (s.sockets.setConnection new (Sockets.fresh listener)) new .empty).logs new =
          .empty := Function.update_self _ _ _
      rw [log]
      refine ⟨?_, rfl, rfl⟩
      show ((s.sockets.setConnection new (Sockets.fresh listener)).connections new).rings side = _
      rw [Sockets.setConnection_apply, if_pos rfl]
      rfl

theorem socket_streams_two_bytes : ∃ s, Reachable SocketSystem.step init s ∧
    (s.logs 0).sent .client = [7, 8] ∧ (s.logs 0).got .server <+: (s.logs 0).sent .client := by
  have bytes : ((runSteps SocketSystem.step [.bind [97], .listen 0, .connect [97], .accept 0,
      .writeFrom 0 .client [7, 8], .readInto 0 .server 1] init).map fun s =>
        (s.logs 0).sent .client) = some [7, 8] := by decide
  obtain ⟨s, run, sent⟩ := Option.map_eq_some_iff.mp bytes
  have reach := Reachable.refl.of_runSteps _ run
  exact ⟨s, reach, sent, (socket_streams reach 0 .server).1⟩

end SocketSystem

end Zaytos.Kernel
