import Zaytos.Kernel.Ring
import Zaytos.Kernel.Wait
import Zaytos.Lib.Transition

set_option autoImplicit false

/-! Stream sockets: named listeners, and connections with a ring for each direction. -/
namespace Zaytos.Kernel

abbrev socketRing : Nat := 1024

abbrev maxListeners : Nat := 1

abbrev maxConnections : Nat := 2

structure Listener where
  inUse : Bool
  listening : Bool
  name : List UInt8
  deriving DecidableEq

def Listener.empty : Listener := ⟨false, false, []⟩

structure Connection where
  inUse : Bool
  listener : Nat
  accepted : Bool
  isOpen : Side → Bool
  rings : Side → Ring socketRing
  pendingFd : Side → Option Nat

def Connection.empty : Connection :=
  ⟨false, 0, false, fun _ => false, fun _ => .empty (by decide), fun _ => none⟩

/-- The tables `LISTENERS` and `CONNECTIONS`. Only the indices below `maxListeners` and
`maxConnections` are looked at. -/
structure Sockets where
  listeners : Nat → Listener
  connections : Nat → Connection

inductive BindResult where
  | bound (listener : Nat)
  | nameTaken
  | noRoom
  deriving DecidableEq, Repr

inductive ConnectResult where
  | connected (conn : Nat)
  | noListener
  | noRoom
  deriving DecidableEq, Repr

inductive AcceptResult where
  | connection (conn : Nat)
  | empty
  | noListener
  deriving DecidableEq, Repr

inductive SocketRead where
  | bytes (data : List UInt8)
  | eof
  | empty
  | noConnection
  deriving DecidableEq, Repr

inductive SocketWrite where
  | bytes (count : Nat)
  | full
  | peerClosed
  | noConnection
  deriving DecidableEq, Repr

namespace Sockets

def init : Sockets := ⟨fun _ => .empty, fun _ => .empty⟩

def setListener (s : Sockets) (listener : Nat) (l : Listener) : Sockets :=
  { s with listeners := Function.update s.listeners listener l }

def setConnection (s : Sockets) (conn : Nat) (c : Connection) : Sockets :=
  { s with connections := Function.update s.connections conn c }

@[simp] theorem setListener_connections (s : Sockets) (listener : Nat) (l : Listener) :
    (s.setListener listener l).connections = s.connections := rfl

@[simp] theorem setConnection_listeners (s : Sockets) (conn : Nat) (c : Connection) :
    (s.setConnection conn c).listeners = s.listeners := rfl

theorem setConnection_apply (s : Sockets) (conn other : Nat) (c : Connection) :
    (s.setConnection conn c).connections other = if other = conn then c else s.connections other := by
  unfold setConnection
  exact Function.update_apply _ _ _ _

theorem setListener_apply (s : Sockets) (listener other : Nat) (l : Listener) :
    (s.setListener listener l).listeners other = if other = listener then l else s.listeners other := by
  unfold setListener
  exact Function.update_apply _ _ _ _

def bind (s : Sockets) (name : List UInt8) : BindResult × Sockets :=
  if (List.range maxListeners).any fun index =>
      (s.listeners index).inUse && (s.listeners index).name == name then (.nameTaken, s)
  else
    match (List.range maxListeners).find? fun index => !(s.listeners index).inUse with
    | some index => (.bound index, s.setListener index ⟨true, false, name⟩)
    | none => (.noRoom, s)

def listen (s : Sockets) (listener : Nat) : Bool × Sockets :=
  if listener < maxListeners ∧ (s.listeners listener).inUse = true then
    (true, s.setListener listener { s.listeners listener with listening := true })
  else (false, s)

/-- A connection as `connect` makes it. -/
def fresh (listener : Nat) : Connection :=
  { Connection.empty with inUse := true, listener, isOpen := fun _ => true }

/-- `connect`, and whom it wakes. -/
def connect (s : Sockets) (name : List UInt8) : ConnectResult × Sockets × List Wait :=
  match (List.range maxListeners).find? fun index => (s.listeners index).inUse &&
      (s.listeners index).listening && (s.listeners index).name == name with
  | none => (.noListener, s, [])
  | some listener =>
    match (List.range maxConnections).find? fun index => !(s.connections index).inUse with
    | none => (.noRoom, s, [])
    | some conn =>
      (.connected conn, s.setConnection conn (fresh listener), [.socketAcceptable listener])

def isPending (s : Sockets) (listener conn : Nat) : Bool :=
  (s.connections conn).inUse && (s.connections conn).listener == listener &&
    !(s.connections conn).accepted

def accept (s : Sockets) (listener : Nat) : AcceptResult × Sockets :=
  if listener < maxListeners ∧ (s.listeners listener).inUse = true ∧
      (s.listeners listener).listening = true then
    match (List.range maxConnections).find? (s.isPending listener) with
    | some conn =>
      (.connection conn, s.setConnection conn { s.connections conn with accepted := true })
    | none => (.empty, s)
  else (.noListener, s)

/-- `acceptable`: what `accept` would not wait for. -/
def acceptable (s : Sockets) (listener : Nat) : Bool :=
  decide (listener < maxListeners) && (s.listeners listener).inUse &&
    (s.listeners listener).listening && (List.range maxConnections).any (s.isPending listener)

/-- `readable`. The end of the bytes can be read, too. -/
def readable (s : Sockets) (conn : Nat) (side : Side) : Bool :=
  decide (conn < maxConnections) && (s.connections conn).inUse &&
    (!((s.connections conn).rings side).isEmpty || !(s.connections conn).isOpen side.peer)

def readableOrGone (s : Sockets) (conn : Nat) (side : Side) : Bool :=
  decide (maxConnections ≤ conn) || !(s.connections conn).inUse ||
    !((s.connections conn).rings side).isEmpty || !(s.connections conn).isOpen side.peer

/-- `read_into` a buffer of `want` bytes. -/
def readInto (s : Sockets) (conn : Nat) (side : Side) (want : Nat) :
    SocketRead × Sockets × List Wait :=
  if conn < maxConnections ∧ (s.connections conn).inUse = true then
    if ((s.connections conn).rings side).isEmpty then
      (if (s.connections conn).isOpen side.peer then .empty else .eof, s, [])
    else
      let out := ((s.connections conn).rings side).take want
      (.bytes out.1, s.setConnection conn { s.connections conn with
        rings := Function.update (s.connections conn).rings side out.2 },
        [.socketWritable conn side.peer])
  else (.noConnection, s, [])

def writeFrom (s : Sockets) (conn : Nat) (side : Side) (src : List UInt8) :
    SocketWrite × Sockets × List Wait :=
  if conn < maxConnections ∧ (s.connections conn).inUse = true then
    if (s.connections conn).isOpen side.peer then
      let out := ((s.connections conn).rings side.peer).put src
      let s := s.setConnection conn { s.connections conn with
        rings := Function.update (s.connections conn).rings side.peer out.2 }
      if out.1 = 0 then (.full, s, []) else (.bytes out.1, s, [.socketReadable conn side.peer])
    else (.peerClosed, s, [])
  else (.noConnection, s, [])

/-- A connection of which end `side` is closed. The slot goes back with the last end, and
with it whatever the connection held. -/
def closed (c : Connection) (side : Side) : Connection :=
  if c.isOpen side.peer then { c with isOpen := Function.update c.isOpen side false }
  else Connection.empty

def closeEnd (s : Sockets) (conn : Nat) (side : Side) : Sockets × List Wait :=
  if conn < maxConnections ∧ (s.connections conn).inUse = true ∧
      (s.connections conn).isOpen side = true then
    (s.setConnection conn (closed (s.connections conn) side),
      [.socketReadable conn side.peer, .socketWritable conn side.peer])
  else (s, [])

/-- The loop of `close_listener` over the connections that were pending. -/
def closeServers (s : Sockets) : List Nat → Sockets × List Wait
  | [] => (s, [])
  | conn :: rest =>
    let first := s.closeEnd conn .server
    let others := first.1.closeServers rest
    (others.1, first.2 ++ others.2)

def closeListener (s : Sockets) (listener : Nat) : Sockets × List Wait :=
  if listener < maxListeners ∧ (s.listeners listener).inUse = true then
    (s.setListener listener .empty).closeServers
      ((List.range maxConnections).filter (s.isPending listener))
  else (s, [])

def queueFd (s : Sockets) (conn : Nat) (side : Side) (shm : Nat) : Bool × Sockets × List Wait :=
  if conn < maxConnections ∧ (s.connections conn).inUse = true ∧
      (s.connections conn).pendingFd side.peer = none then
    (true, s.setConnection conn { s.connections conn with
      pendingFd := Function.update (s.connections conn).pendingFd side.peer (some shm) },
      [.socketReadable conn side.peer])
  else (false, s, [])

def takeFd (s : Sockets) (conn : Nat) (side : Side) : Option Nat × Sockets :=
  if conn < maxConnections ∧ (s.connections conn).inUse = true then
    ((s.connections conn).pendingFd side, s.setConnection conn { s.connections conn with
      pendingFd := Function.update (s.connections conn).pendingFd side none })
  else (none, s)

end Sockets

end Zaytos.Kernel
