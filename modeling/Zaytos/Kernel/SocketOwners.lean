import Zaytos.Kernel.PipeHolders

set_option autoImplicit false

/-! Who owns the ends of connections. A connection remembers only the index of its listener, so
which binding of the listener it was made to is kept beside the system. -/
namespace Zaytos.Kernel

structure SocketHistory where
  bindings : Nat → Nat
  madeTo : Nat → Nat
  /-- For each connection that `accept` took, the binding it was made to, and that of the
  listener at the time. -/
  accepts : List (Nat × Nat)

namespace SocketHistory

def init : SocketHistory := ⟨fun _ => 0, fun _ => 0, []⟩

def note (h : SocketHistory) : Event → SocketHistory
  | .bound listener =>
    { h with bindings := Function.update h.bindings listener (h.bindings listener + 1) }
  | .connected conn listener =>
    { h with madeTo := Function.update h.madeTo conn (h.bindings listener) }
  | .accepted listener conn | .refused listener conn =>
    { h with accepts := h.accepts ++ [(h.madeTo conn, h.bindings listener)] }
  | .quiet | .sent _ | .closed _ => h

end SocketHistory

variable {c : Connection} {wakes : List Wait} {sockets : Sockets} {side : Side}
  {held : Multiset File} {name : List UInt8} {slot : Slot}

namespace Sockets

/-- The ends of the connections are the same, and so are the listeners in use. -/
structure SameEnds (s s' : Sockets) : Prop where
  listening : ∀ listener, (s'.listeners listener).inUse = (s.listeners listener).inUse
  inUse : ∀ conn, (s'.connections conn).inUse = (s.connections conn).inUse
  listener : ∀ conn, (s'.connections conn).listener = (s.connections conn).listener
  accepted : ∀ conn, (s'.connections conn).accepted = (s.connections conn).accepted
  isOpen : ∀ conn, (s'.connections conn).isOpen = (s.connections conn).isOpen

variable {s : Sockets}

theorem SameEnds.refl (s : Sockets) : SameEnds s s :=
  ⟨fun _ => rfl, fun _ => rfl, fun _ => rfl, fun _ => rfl, fun _ => rfl⟩

theorem SameEnds.isPending {s' : Sockets} (same : SameEnds s s') (listener conn : Nat) :
    s'.isPending listener conn = s.isPending listener conn := by
  unfold Sockets.isPending
  rw [same.inUse, same.listener, same.accepted]

theorem SameEnds.setConnection (conn : Nat) (inUse : c.inUse = (s.connections conn).inUse)
    (listener : c.listener = (s.connections conn).listener)
    (accepted : c.accepted = (s.connections conn).accepted)
    (isOpen : c.isOpen = (s.connections conn).isOpen) : SameEnds s (s.setConnection conn c) := by
  refine ⟨fun _ => rfl, fun other => ?_, fun other => ?_, fun other => ?_, fun other => ?_⟩ <;>
    · rw [setConnection_apply]
      split
      · rename_i same
        subst same
        assumption
      · rfl

theorem readInto_sameEnds (s : Sockets) (conn : Nat) (side : Side) (want : Nat) :
    SameEnds s (s.readInto conn side want).2.1 := by
  rcases s.readInto_cases conn side want with ⟨outcome, eq, -⟩ | ⟨-, -, ring, eq, -⟩
  · rw [eq]
    exact .refl s
  · rw [eq]
    exact .setConnection conn rfl rfl rfl rfl

theorem writeFrom_sameEnds (s : Sockets) (conn : Nat) (side : Side) (src : List UInt8) :
    SameEnds s (s.writeFrom conn side src).2.1 := by
  rcases s.writeFrom_cases conn side src with ⟨outcome, eq, -⟩ | ⟨-, -, -, count, ring, eq, -⟩
  · rw [eq]
    exact .refl s
  · rw [eq]
    exact .setConnection conn rfl rfl rfl rfl

theorem queueFd_sameEnds {conn shm : Nat}
    (queued : s.queueFd conn side shm = (true, sockets, wakes)) : SameEnds s sockets := by
  rcases s.queueFd_cases conn side shm with eq | ⟨-, -, -, eq⟩
  · cases queued.symm.trans eq
  · obtain ⟨-, rfl, -⟩ := Prod.mk.inj (queued.symm.trans eq)
    exact .setConnection conn rfl rfl rfl rfl

theorem takeFd_sameEnds (s : Sockets) (conn : Nat) (side : Side) :
    SameEnds s (s.takeFd conn side).2 := by
  rcases s.takeFd_cases conn side with eq | ⟨-, -, shm, -, eq⟩
  · rw [eq]
    exact .refl s
  · rw [eq]
    exact .setConnection conn rfl rfl rfl rfl

theorem listen_sameEnds (s : Sockets) (listener : Nat) : SameEnds s (s.listen listener).2 := by
  rcases s.listen_cases listener with eq | ⟨-, inUse, eq⟩
  · rw [eq]
    exact .refl s
  · rw [eq]
    refine ⟨fun other => ?_, fun _ => rfl, fun _ => rfl, fun _ => rfl, fun _ => rfl⟩
    rw [setListener_apply]
    split
    · rename_i same
      subst same
      rfl
    · rfl

theorem dropEnd_cases (c : Connection) (side : Side) :
    (c.isOpen side = false ∧ dropEnd c side = c) ∨
    (c.isOpen side = true ∧ c.isOpen side.peer = true ∧
      dropEnd c side = { c with isOpen := Function.update c.isOpen side false }) ∨
    c.isOpen side = true ∧ c.isOpen side.peer = false ∧ dropEnd c side = .empty := by
  unfold dropEnd
  cases isOpen : c.isOpen side with
  | false => exact .inl ⟨rfl, rfl⟩
  | true =>
    rw [if_pos rfl]
    unfold closed
    cases peer : c.isOpen side.peer with
    | true => exact .inr (.inl ⟨rfl, rfl, rfl⟩)
    | false => exact .inr (.inr ⟨rfl, rfl, rfl⟩)

theorem dropEnd_peer (inUse : c.inUse = true)
    (peer : c.isOpen side.peer = true) : (dropEnd c side).inUse = true ∧
    (dropEnd c side).isOpen side.peer = true ∧ (dropEnd c side).isOpen side = false ∧
    (dropEnd c side).accepted = c.accepted ∧ (dropEnd c side).listener = c.listener := by
  rcases dropEnd_cases c side with ⟨isClosed, eq⟩ | ⟨-, -, eq⟩ | ⟨-, isClosed, -⟩
  · rw [eq]
    exact ⟨inUse, peer, isClosed, rfl, rfl⟩
  · rw [eq]
    exact ⟨inUse, (Function.update_of_ne side.peer_ne _ _).trans peer, Function.update_self _ _ _,
      rfl, rfl⟩
  · cases peer.symm.trans isClosed

end Sockets

namespace Ledger

/-- Every end that a descriptor names is its own, and the connections that wait at a listener in
use and still have their server end are those made to its present binding. -/
structure Owned (h : SocketHistory) (l : Ledger) : Prop where
  stream : ∀ conn side, .socket (.stream conn side) ∈ l.held → conn < maxConnections ∧
    (l.objects.sockets.connections conn).inUse = true ∧
    (l.objects.sockets.connections conn).isOpen side = true ∧
    (side = .server → (l.objects.sockets.connections conn).accepted = true)
  listener : ∀ listener, .socket (.listener listener) ∈ l.held → listener < maxListeners ∧
    (l.objects.sockets.listeners listener).inUse = true
  once : ∀ state, state ≠ .unbound → l.held.count (.socket state) ≤ 1
  older : ∀ listener conn, conn < maxConnections →
    l.objects.sockets.isPending listener conn = true → h.madeTo conn ≤ h.bindings listener
  current : ∀ listener conn, conn < maxConnections →
    l.objects.sockets.isPending listener conn = true →
    (l.objects.sockets.listeners listener).inUse = true →
    ((l.objects.sockets.connections conn).isOpen .server = true ↔
      h.madeTo conn = h.bindings listener)
  abandoned : ∀ listener conn, conn < maxConnections →
    l.objects.sockets.isPending listener conn = true →
    (l.objects.sockets.listeners listener).inUse = false →
    (l.objects.sockets.connections conn).isOpen .server = false

namespace Owned

variable {h : SocketHistory} {l m : Ledger}

theorem of_same (owned : l.Owned h)
    (held : ∀ state, state ≠ .unbound → m.held.count (.socket state) = l.held.count (.socket state))
    (same : l.objects.sockets.SameEnds m.objects.sockets) : m.Owned h := by
  have mem : ∀ state, state ≠ .unbound → (.socket state ∈ m.held ↔ .socket state ∈ l.held) := by
    intro state other
    rw [← Multiset.count_pos, held state other, Multiset.count_pos]
  refine ⟨fun conn side has => ?_, fun listener has => ?_, fun state other => ?_,
    fun listener conn small pending => ?_, fun listener conn small pending inUse => ?_,
    fun listener conn small pending free => ?_⟩
  · rw [same.inUse, same.isOpen, same.accepted]
    exact owned.stream conn side ((mem (.stream conn side) nofun).mp has)
  · rw [same.listening]
    exact owned.listener listener ((mem (.listener listener) nofun).mp has)
  · rw [held state other]
    exact owned.once state other
  · exact owned.older listener conn small (same.isPending listener conn ▸ pending)
  · rw [same.isOpen]
    exact owned.current listener conn small (same.isPending listener conn ▸ pending)
      (same.listening listener ▸ inUse)
  · rw [same.isOpen]
    exact owned.abandoned listener conn small (same.isPending listener conn ▸ pending)
      (same.listening listener ▸ free)

theorem move (owned : l.Owned h) {wakes : List Wait} (move : l.Move wakes m) : m.Owned h := by
  have more : ∀ {file : File}, file.isSocket = false → ∀ state : SocketState,
      Multiset.count (.socket state) (file ::ₘ l.held) = l.held.count (.socket state) := by
    intro file other state
    refine Multiset.count_cons_of_ne ?_ _
    rintro rfl
    cases other
  cases move with
  | plain same =>
    refine owned.of_same (fun state other => same _ ?_) (.refl _)
    cases state <;> first | rfl | exact absurd rfl other
  | @release held file other was =>
    have sockets : (l.objects.releaseEnd file).1.sockets = l.objects.sockets := by
      cases file <;> first | rfl | cases other
    refine owned.of_same (fun state _ => ?_) ?_
    · rw [was, Multiset.count_cons_of_ne]
      rintro rfl
      cases other
    · show l.objects.sockets.SameEnds (l.objects.releaseEnd file).1.sockets
      rw [sockets]
      exact .refl _
  | pipeRead pipe want => exact owned.of_same (fun _ _ => rfl) (.refl _)
  | pipeWrite pipe src => exact owned.of_same (fun _ _ => rfl) (.refl _)
  | pipeCreate made was => exact owned.of_same (fun state _ => more rfl state) (.refl _)
  | dropReservation was => exact owned.of_same (fun _ _ => rfl) (.refl _)
  | claim was claimed => exact owned.of_same (fun state _ => more rfl state) (.refl _)
  | noClaim was refused => exact owned.of_same (fun _ _ => rfl) (.refl _)
  | listen listener => exact owned.of_same (fun _ _ => rfl) (Sockets.listen_sameEnds _ _)
  | socketRead conn side want =>
    exact owned.of_same (fun _ _ => rfl) (Sockets.readInto_sameEnds _ _ _ _)
  | socketWrite conn side src =>
    exact owned.of_same (fun _ _ => rfl) (Sockets.writeFrom_sameEnds _ _ _ _)
  | @takeFd conn shm side sockets taken =>
    have same := l.objects.sockets.takeFd_sameEnds conn side
    rw [taken] at same
    exact owned.of_same (fun state _ => more rfl state) same
  | shmCreate made => exact owned.of_same (fun state _ => more rfl state) (.refl _)
  | setSize shm size => exact owned.of_same (fun _ _ => rfl) (.refl _)
  | frames allocator => exact owned.of_same (fun _ _ => rfl) (.refl _)

theorem moves (owned : l.Owned h) {wakes : List Wait} (moves : l.Moves wakes m) : m.Owned h :=
  moves.keeps (fun _ _ _ move owned => owned.move move) owned

theorem releaseStream (owned : l.Owned h) {conn : Nat}
    (was : l.held = .socket (.stream conn side) ::ₘ held) :
    { l with held, objects := { l.objects with
      sockets := (l.objects.sockets.closeEnd conn side).1 } }.Owned h := by
  obtain ⟨small, inUse, isOpen, accepted⟩ := owned.stream conn side (was ▸ Multiset.mem_cons_self _ _)
  have connections : ∀ other, (l.objects.sockets.closeEnd conn side).1.connections other =
      if other = conn then Sockets.dropEnd (l.objects.sockets.connections conn) side
      else l.objects.sockets.connections other := by
    intro other
    rw [Sockets.closeEnd_connections]
    simp only [small, inUse, and_self, and_true]
  have listeners := Sockets.closeEnd_listeners (s := l.objects.sockets) conn side
  have gone : .socket (.stream conn side) ∉ held := by
    intro again
    have count := owned.once (.stream conn side) nofun
    rw [was, Multiset.count_cons_self] at count
    have := Multiset.count_pos.mpr again
    omega
  have fewer : ∀ {file : File}, file ∈ held → file ∈ l.held :=
    fun mem => was ▸ Multiset.mem_cons_of_mem mem
  -- A connection that waits for `accept` lost its client end, or none.
  have kept : ∀ listener other, (l.objects.sockets.closeEnd conn side).1.isPending listener other = true →
      l.objects.sockets.isPending listener other = true ∧
      ((l.objects.sockets.closeEnd conn side).1.connections other).isOpen .server =
        (l.objects.sockets.connections other).isOpen .server := by
    intro listener other pending
    rw [Sockets.isPending_iff, connections] at pending
    rw [connections, Sockets.isPending_iff]
    by_cases same : other = conn
    · subst same
      rw [if_pos rfl] at pending ⊢
      rcases Sockets.dropEnd_cases (l.objects.sockets.connections other) side with
        ⟨isClosed, -⟩ | ⟨-, -, eq⟩ | ⟨-, -, eq⟩
      · cases isOpen.symm.trans isClosed
      · rw [eq] at pending ⊢
        refine ⟨⟨inUse, pending.2⟩, Function.update_of_ne ?_ _ _⟩
        rintro rfl
        cases (accepted rfl).symm.trans pending.2.2
      · rw [eq] at pending
        cases pending.1
    · rw [if_neg same] at pending ⊢
      exact ⟨pending, rfl⟩
  refine ⟨fun other side' mem => ?_, fun listener mem => ?_, fun state other => ?_,
    fun listener other small pending => ?_, fun listener other small pending inUse => ?_,
    fun listener other small pending free => ?_⟩
  · obtain ⟨small', inUse', isOpen', accepted'⟩ := owned.stream other side' (fewer mem)
    show other < maxConnections ∧ ((l.objects.sockets.closeEnd conn side).1.connections other).inUse =
      true ∧ ((l.objects.sockets.closeEnd conn side).1.connections other).isOpen side' = true ∧
      (side' = .server → ((l.objects.sockets.closeEnd conn side).1.connections other).accepted = true)
    rw [connections]
    by_cases same : other = conn
    · subst same
      have peer : side' = side.peer := by
        have ne : side' ≠ side := fun eq => gone (eq ▸ mem)
        cases side' <;> cases side <;> first | rfl | exact absurd rfl ne
      subst peer
      obtain ⟨inUse'', isOpen'', -, accepted'', -⟩ := Sockets.dropEnd_peer inUse isOpen'
      rw [if_pos rfl, accepted'']
      exact ⟨small', inUse'', isOpen'', accepted'⟩
    · rw [if_neg same]
      exact ⟨small', inUse', isOpen', accepted'⟩
  · show listener < maxListeners ∧
      ((l.objects.sockets.closeEnd conn side).1.listeners listener).inUse = true
    rw [listeners]
    exact owned.listener listener (fewer mem)
  · have count := owned.once state other
    rw [was] at count
    exact (Multiset.count_le_count_cons _ _ _).trans count
  · exact owned.older listener other small (kept listener other pending).1
  · obtain ⟨pending, isOpen⟩ := kept listener other pending
    show ((l.objects.sockets.closeEnd conn side).1.connections other).isOpen .server = true ↔ _
    rw [isOpen]
    exact owned.current listener other small pending (by
      have same := congrFun listeners listener
      exact same ▸ inUse)
  · obtain ⟨pending, isOpen⟩ := kept listener other pending
    show ((l.objects.sockets.closeEnd conn side).1.connections other).isOpen .server = false
    rw [isOpen]
    exact owned.abandoned listener other small pending (by
      have same := congrFun listeners listener
      exact same ▸ free)

theorem releaseListener (owned : l.Owned h) {listener : Nat}
    (was : l.held = .socket (.listener listener) ::ₘ held) :
    { l with held, objects := { l.objects with
      sockets := (l.objects.sockets.closeListener listener).1 } }.Owned h := by
  obtain ⟨small, inUse⟩ := owned.listener listener (was ▸ Multiset.mem_cons_self _ _)
  rcases Sockets.closeListener_cases (s := l.objects.sockets) listener with
    eq | ⟨-, -, listeners, connections, -⟩
  · -- It was in use, so it is closed.
    have closes : (l.objects.sockets.closeListener listener).1.listeners listener = .empty := by
      unfold Sockets.closeListener
      rw [if_pos ⟨small, inUse⟩, Sockets.closeServers_listeners]
      exact Function.update_self _ _ _
    rw [eq] at closes
    rw [closes] at inUse
    cases inUse
  have gone : .socket (.listener listener) ∉ held := by
    intro again
    have count := owned.once (.listener listener) nofun
    rw [was, Multiset.count_cons_self] at count
    have := Multiset.count_pos.mpr again
    omega
  have fewer : ∀ {file : File}, file ∈ held → file ∈ l.held :=
    fun mem => was ▸ Multiset.mem_cons_of_mem mem
  -- What still waits was there before. What waits here lost its server end.
  have kept : ∀ other conn, conn < maxConnections →
      (l.objects.sockets.closeListener listener).1.isPending other conn = true →
      l.objects.sockets.isPending other conn = true ∧
      if other = listener then
        ((l.objects.sockets.closeListener listener).1.connections conn).isOpen .server = false
      else
        (l.objects.sockets.closeListener listener).1.connections conn =
          l.objects.sockets.connections conn := by
    intro other conn smallConn pending
    rw [Sockets.isPending_iff, connections] at pending
    rw [connections]
    split at pending
    · rename_i waits
      rw [if_pos waits]
      obtain ⟨-, isListener, notAccepted⟩ := Sockets.isPending_iff.mp waits.2
      rcases Sockets.dropEnd_cases (l.objects.sockets.connections conn) .server with
        ⟨isClosed, eq⟩ | ⟨-, -, eq⟩ | ⟨-, -, eq⟩
      · rw [eq] at pending ⊢
        obtain rfl : other = listener := pending.2.1.symm.trans isListener
        rw [if_pos rfl]
        exact ⟨waits.2, isClosed⟩
      · rw [eq] at pending ⊢
        obtain rfl : other = listener := pending.2.1.symm.trans isListener
        rw [if_pos rfl]
        exact ⟨waits.2, by simp only [Function.update_self]⟩
      · rw [eq] at pending
        cases pending.1
    · rename_i notHere
      rw [if_neg notHere]
      have ne : other ≠ listener := by
        rintro rfl
        exact notHere ⟨smallConn, Sockets.isPending_iff.mpr pending⟩
      rw [if_neg ne]
      exact ⟨Sockets.isPending_iff.mpr pending, rfl⟩
  have others : ∀ other, other ≠ listener →
      (l.objects.sockets.closeListener listener).1.listeners other =
        l.objects.sockets.listeners other := by
    intro other ne
    rw [listeners, Function.update_of_ne ne]
  refine ⟨fun conn side mem => ?_, fun other mem => ?_, fun state other => ?_,
    fun other conn small pending => ?_, fun other conn small pending inUse => ?_,
    fun other conn small pending free => ?_⟩
  · obtain ⟨small', inUse', isOpen', accepted'⟩ := owned.stream conn side (fewer mem)
    show conn < maxConnections ∧
      ((l.objects.sockets.closeListener listener).1.connections conn).inUse = true ∧
      ((l.objects.sockets.closeListener listener).1.connections conn).isOpen side = true ∧
      (side = .server →
        ((l.objects.sockets.closeListener listener).1.connections conn).accepted = true)
    rw [connections]
    split
    · rename_i waits
      obtain ⟨-, -, notAccepted⟩ := Sockets.isPending_iff.mp waits.2
      have isClient : side = .client := by
        cases side with
        | client => rfl
        | server => cases (accepted' rfl).symm.trans notAccepted
      subst isClient
      have peer : Connection.isOpen _ Side.server.peer = true := isOpen'
      obtain ⟨inUse'', isOpen'', -⟩ := Sockets.dropEnd_peer inUse' peer
      exact ⟨small', inUse'', isOpen'', nofun⟩
    · exact ⟨small', inUse', isOpen', accepted'⟩
  · have ne : other ≠ listener := by
      rintro rfl
      exact gone mem
    show other < maxListeners ∧
      ((l.objects.sockets.closeListener listener).1.listeners other).inUse = true
    rw [others other ne]
    exact owned.listener other (fewer mem)
  · have count := owned.once state other
    rw [was] at count
    exact (Multiset.count_le_count_cons _ _ _).trans count
  · exact owned.older other conn small (kept other conn small pending).1
  · have ne : other ≠ listener := by
      rintro rfl
      have gone : (l.objects.sockets.closeListener other).1.listeners other = .empty := by
        rw [listeners, Function.update_self]
      have isEmpty := congrArg Listener.inUse gone
      cases inUse.symm.trans isEmpty
    obtain ⟨pending, same⟩ := kept other conn small pending
    rw [if_neg ne] at same
    show ((l.objects.sockets.closeListener listener).1.connections conn).isOpen .server = true ↔ _
    rw [same]
    refine owned.current other conn small pending ?_
    rw [← others other ne]
    exact inUse
  · obtain ⟨pending, same⟩ := kept other conn small pending
    show ((l.objects.sockets.closeListener listener).1.connections conn).isOpen .server = false
    split at same
    · exact same
    · rename_i ne
      rw [same]
      refine owned.abandoned other conn small pending ?_
      rw [← others other ne]
      exact free

theorem release (owned : l.Owned h) {held : Multiset File} {file : File}
    (was : l.held = file ::ₘ held) :
    { l with held, objects := (l.objects.releaseEnd file).1 }.Owned h := by
  cases isSocket : file.isSocket with
  | false => exact owned.move (.release isSocket was)
  | true =>
    cases file with
    | socket state =>
      cases state with
      | unbound =>
        refine owned.of_same (fun state other => ?_) (.refl _)
        rw [was, Multiset.count_cons_of_ne]
        intro eq
        exact other (File.socket.inj eq)
      | listener listener => exact owned.releaseListener was
      | stream conn side => exact owned.releaseStream was
    | _ => cases isSocket

theorem releaseAll (owned : l.Owned h) {files : List File} (was : l.held = files + held) :
    { l with held, objects := (l.objects.releaseAll files).1 }.Owned h := by
  induction files generalizing l with
  | nil =>
    obtain rfl : l.held = held := was.trans (zero_add held)
    exact owned
  | cons file rest ih =>
    have first : l.held = file ::ₘ (rest + held) := was.trans (Multiset.cons_add file rest held)
    exact ih (owned.release first) rfl

theorem bind (owned : l.Owned h) {listener : Nat}
    (bound : l.objects.sockets.bind name = (.bound listener, sockets)) :
    ((l.setSockets sockets).hold (.socket (.listener listener))).Owned (h.note (.bound listener)) := by
  rcases l.objects.sockets.bind_cases name with ⟨outcome, eq, other⟩ | ⟨listener', hasSlot, free, eq⟩
  · rw [eq] at bound
    exact absurd (Prod.mk.inj bound).1 (other listener)
  obtain ⟨same, rfl⟩ := Prod.mk.inj (eq.symm.trans bound)
  obtain rfl := BindResult.bound.inj same
  have unheld : .socket (.listener listener') ∉ l.held := by
    intro mem
    cases (owned.listener listener' mem).2.symm.trans free
  refine ⟨fun conn side mem => ?_, fun other mem => ?_, fun state other => ?_,
    fun other conn small pending => ?_, fun other conn small pending inUse => ?_,
    fun other conn small pending isFree => ?_⟩
  · rcases Multiset.mem_cons.mp mem with eq | mem
    · cases eq
    · exact owned.stream conn side mem
  · show other < maxListeners ∧ (((l.objects.sockets.setListener listener' ⟨true, false, name⟩).listeners
      other)).inUse = true
    rw [Sockets.setListener_apply]
    split
    · rename_i same
      exact ⟨same ▸ hasSlot, rfl⟩
    · rename_i ne
      rcases Multiset.mem_cons.mp mem with eq | mem
      · exact absurd (SocketState.listener.inj (File.socket.inj eq)) ne
      · exact owned.listener other mem
  · show Multiset.count _ (_ ::ₘ l.held) ≤ 1
    rw [Multiset.count_cons]
    split
    · rename_i same
      obtain rfl := File.socket.inj same
      rw [Multiset.count_eq_zero.mpr unheld]
    · exact owned.once state other
  · have before := owned.older other conn small pending
    show h.madeTo conn ≤ Function.update h.bindings listener' (h.bindings listener' + 1) other
    rw [Function.update_apply]
    split
    · rename_i same
      subst same
      omega
    · exact before
  · show (l.objects.sockets.connections conn).isOpen .server = true ↔
      h.madeTo conn = Function.update h.bindings listener' (h.bindings listener' + 1) other
    rw [Function.update_apply]
    split
    · rename_i same
      subst same
      have before := owned.older other conn small pending
      have isClosed := owned.abandoned other conn small pending free
      rw [isClosed]
      constructor
      · nofun
      · omega
    · rename_i ne
      refine owned.current other conn small pending ?_
      have same : (l.objects.sockets.setListener listener' ⟨true, false, name⟩).listeners other =
          l.objects.sockets.listeners other := by
        rw [Sockets.setListener_apply, if_neg ne]
      exact same ▸ inUse
  · have same : (l.objects.sockets.setListener listener' ⟨true, false, name⟩).listeners other =
        if other = listener' then ⟨true, false, name⟩ else l.objects.sockets.listeners other :=
      Sockets.setListener_apply _ _ _ _
    have isFree' : ((l.objects.sockets.setListener listener' ⟨true, false, name⟩).listeners
      other).inUse = false := isFree
    rw [same] at isFree'
    split at isFree'
    · cases isFree'
    · exact owned.abandoned other conn small pending isFree'

theorem connect (owned : l.Owned h) {conn listener : Nat}
    (made : l.objects.sockets.connect name = (.connected conn, sockets, wakes))
    (target : (sockets.connections conn).listener = listener) :
    ((l.setSockets sockets).hold (.socket (.stream conn .client))).Owned
      (h.note (.connected conn listener)) := by
  rcases l.objects.sockets.connect_cases name with
    ⟨outcome, eq, other⟩ | ⟨listener', conn', -, listening, -, small, free, eq⟩
  · rw [eq] at made
    exact absurd (Prod.mk.inj made).1 (other conn)
  obtain ⟨same, rest⟩ := Prod.mk.inj (eq.symm.trans made)
  obtain ⟨rfl, rfl⟩ := Prod.mk.inj rest
  obtain rfl := ConnectResult.connected.inj same
  have isListener : listener' = listener := by
    rw [← target, Sockets.setConnection_apply, if_pos rfl]
    rfl
  subst isListener
  have unheld : ∀ side, .socket (.stream conn' side) ∉ l.held := by
    intro side mem
    cases (owned.stream conn' side mem).2.1.symm.trans free
  have connections : ∀ other, (l.objects.sockets.setConnection conn'
      (Sockets.fresh listener')).connections other =
        if other = conn' then Sockets.fresh listener' else l.objects.sockets.connections other :=
    fun other => Sockets.setConnection_apply _ _ _ _
  -- What waits is the new connection, or was there before.
  have kept : ∀ other conn, (l.objects.sockets.setConnection conn'
      (Sockets.fresh listener')).isPending other conn = true →
      if conn = conn' then other = listener' else l.objects.sockets.isPending other conn = true := by
    intro other conn pending
    rw [Sockets.isPending_iff, connections] at pending
    split
    · rename_i same
      rw [if_pos same] at pending
      exact pending.2.1.symm
    · rename_i ne
      rw [if_neg ne] at pending
      exact Sockets.isPending_iff.mpr pending
  refine ⟨fun other side mem => ?_, fun other mem => ?_, fun state other => ?_,
    fun other conn small pending => ?_, fun other conn small pending inUse => ?_,
    fun other conn small pending isFree => ?_⟩
  · show other < maxConnections ∧ ((l.objects.sockets.setConnection conn'
      (Sockets.fresh listener')).connections other).inUse = true ∧ ((l.objects.sockets.setConnection
      conn' (Sockets.fresh listener')).connections other).isOpen side = true ∧ (side = .server →
        ((l.objects.sockets.setConnection conn' (Sockets.fresh listener')).connections
          other).accepted = true)
    rw [connections]
    rcases Multiset.mem_cons.mp mem with eq | mem
    · obtain ⟨rfl, rfl⟩ := SocketState.stream.inj (File.socket.inj eq)
      rw [if_pos rfl]
      exact ⟨small, rfl, rfl, nofun⟩
    · have ne : other ≠ conn' := by
        rintro rfl
        exact unheld side mem
      rw [if_neg ne]
      exact owned.stream other side mem
  · rcases Multiset.mem_cons.mp mem with eq | mem
    · cases eq
    · exact owned.listener other mem
  · show Multiset.count _ (_ ::ₘ l.held) ≤ 1
    rw [Multiset.count_cons]
    split
    · rename_i same
      obtain rfl := File.socket.inj same
      rw [Multiset.count_eq_zero.mpr (unheld _)]
    · exact owned.once state other
  · have before := kept other conn pending
    show Function.update h.madeTo conn' (h.bindings listener') conn ≤ h.bindings other
    rw [Function.update_apply]
    split at before
    · rw [if_pos (by assumption), before]
    · rw [if_neg (by assumption)]
      exact owned.older other conn small before
  · have before := kept other conn pending
    show ((l.objects.sockets.setConnection conn' (Sockets.fresh listener')).connections
      conn).isOpen .server = true ↔
      Function.update h.madeTo conn' (h.bindings listener') conn = h.bindings other
    rw [Function.update_apply, connections]
    split at before
    · rw [if_pos (by assumption), if_pos (by assumption), before]
      exact ⟨fun _ => rfl, fun _ => rfl⟩
    · rw [if_neg (by assumption), if_neg (by assumption)]
      exact owned.current other conn small before inUse
  · have before := kept other conn pending
    show ((l.objects.sockets.setConnection conn' (Sockets.fresh listener')).connections
      conn).isOpen .server = false
    rw [connections]
    split at before
    · subst before
      cases listening.symm.trans isFree
    · rw [if_neg (by assumption)]
      exact owned.abandoned other conn small before isFree

theorem of_history (owned : l.Owned h) {h' : SocketHistory} (bindings : h'.bindings = h.bindings)
    (madeTo : h'.madeTo = h.madeTo) : l.Owned h' := by
  refine ⟨owned.stream, owned.listener, owned.once, ?_, ?_, owned.abandoned⟩
  · rw [bindings, madeTo]
    exact owned.older
  · rw [bindings, madeTo]
    exact owned.current

theorem accept_current (owned : l.Owned h) {listener conn : Nat}
    (taken : l.objects.sockets.accept listener = (.connection conn, sockets)) :
    (l.objects.sockets.connections conn).isOpen .server = true ↔
      h.madeTo conn = h.bindings listener := by
  rcases l.objects.sockets.accept_cases listener with
    ⟨outcome, eq, other, -⟩ | ⟨conn', inUse, -, small, pending, -, eq⟩
  · rw [eq] at taken
    exact absurd (Prod.mk.inj taken).1 (other conn)
  obtain ⟨same, -⟩ := Prod.mk.inj (eq.symm.trans taken)
  obtain rfl := AcceptResult.connection.inj same
  exact owned.current listener conn' small pending inUse

theorem accept (owned : l.Owned h) {listener conn : Nat}
    (taken : l.objects.sockets.accept listener = (.connection conn, sockets))
    (isOpen : (l.objects.sockets.connections conn).isOpen .server = true) :
    ((l.setSockets sockets).hold (.socket (.stream conn .server))).Owned h := by
  rcases l.objects.sockets.accept_cases listener with
    ⟨outcome, eq, other, -⟩ | ⟨conn', -, -, small, pending, -, eq⟩
  · rw [eq] at taken
    exact absurd (Prod.mk.inj taken).1 (other conn)
  obtain ⟨same, rfl⟩ := Prod.mk.inj (eq.symm.trans taken)
  obtain rfl := AcceptResult.connection.inj same
  obtain ⟨inUse, isListener, notAccepted⟩ := Sockets.isPending_iff.mp pending
  have unheld : .socket (.stream conn' .server) ∉ l.held := by
    intro mem
    cases ((owned.stream conn' .server mem).2.2.2 rfl).symm.trans notAccepted
  have connections : ∀ other, (l.objects.sockets.setConnection conn'
      { l.objects.sockets.connections conn' with accepted := true }).connections other =
        if other = conn' then { l.objects.sockets.connections conn' with accepted := true }
        else l.objects.sockets.connections other :=
    fun other => Sockets.setConnection_apply _ _ _ _
  have kept : ∀ other conn, (l.objects.sockets.setConnection conn'
      { l.objects.sockets.connections conn' with accepted := true }).isPending other conn = true →
      conn ≠ conn' ∧ l.objects.sockets.isPending other conn = true := by
    intro other conn pending
    rw [Sockets.isPending_iff, connections] at pending
    split at pending
    · cases pending.2.2
    · rename_i ne
      exact ⟨ne, Sockets.isPending_iff.mpr pending⟩
  refine ⟨fun other side mem => ?_, fun other mem => ?_, fun state other => ?_,
    fun other conn small pending => owned.older other conn small (kept other conn pending).2,
    fun other conn small pending inUse => ?_, fun other conn small pending isFree => ?_⟩
  · show other < maxConnections ∧ ((l.objects.sockets.setConnection conn'
      { l.objects.sockets.connections conn' with accepted := true }).connections other).inUse = true ∧
      ((l.objects.sockets.setConnection conn'
        { l.objects.sockets.connections conn' with accepted := true }).connections other).isOpen side =
          true ∧
      (side = .server → ((l.objects.sockets.setConnection conn'
        { l.objects.sockets.connections conn' with accepted := true }).connections other).accepted =
          true)
    rw [connections]
    rcases Multiset.mem_cons.mp mem with eq | mem
    · obtain ⟨rfl, rfl⟩ := SocketState.stream.inj (File.socket.inj eq)
      rw [if_pos rfl]
      exact ⟨small, inUse, isOpen, fun _ => rfl⟩
    · obtain ⟨small', inUse', isOpen', accepted'⟩ := owned.stream other side mem
      split
      · rename_i same
        subst same
        exact ⟨small', inUse', isOpen', fun _ => rfl⟩
      · exact ⟨small', inUse', isOpen', accepted'⟩
  · rcases Multiset.mem_cons.mp mem with eq | mem
    · cases eq
    · exact owned.listener other mem
  · show Multiset.count _ (_ ::ₘ l.held) ≤ 1
    rw [Multiset.count_cons]
    split
    · rename_i same
      obtain rfl := File.socket.inj same
      rw [Multiset.count_eq_zero.mpr unheld]
    · exact owned.once state other
  · obtain ⟨ne, before⟩ := kept other conn pending
    show ((l.objects.sockets.setConnection conn' _).connections conn).isOpen .server = true ↔ _
    rw [connections, if_neg ne]
    exact owned.current other conn small before inUse
  · obtain ⟨ne, before⟩ := kept other conn pending
    show ((l.objects.sockets.setConnection conn' _).connections conn).isOpen .server = false
    rw [connections, if_neg ne]
    exact owned.abandoned other conn small before isFree

theorem change (owned : l.Owned h) {event : Event} {wakes : List Wait}
    (change : Change event l wakes m)
    (open' : ∀ listener conn, event = .accepted listener conn ∨ event = .refused listener conn →
      (l.objects.sockets.connections conn).isOpen .server = true) : m.Owned (h.note event) := by
  cases change with
  | quiet moves => exact owned.moves moves
  | bound bound rest => exact (owned.bind bound).move rest
  | connected made target rest => exact (owned.connect made target).move rest
  | accepted taken => exact (owned.accept taken (open' _ _ (.inl rfl))).of_history rfl rfl
  | refused taken =>
    exact ((owned.accept taken (open' _ _ (.inr rfl))).releaseStream rfl).of_history rfl rfl
  | sent mem queued rest =>
    have same := Sockets.queueFd_sameEnds queued
    refine rest.keeps (fun _ _ _ move owned => Owned.move owned move) ?_
    exact owned.of_same (fun _ _ => rfl) same
  | closed was => exact owned.releaseAll was

end Owned

end Ledger

namespace System

/-- An action is an `accept` that finds a connection whose server end is closed: it was made to a
listener that is gone. -/
def acceptsStale (k : System) (a : Action) : Bool :=
  match k.accepting a with
  | some (_, listener) =>
    decide (listener < maxListeners) && (k.objects.sockets.listeners listener).inUse &&
      (k.objects.sockets.listeners listener).listening &&
      match (List.range maxConnections).find? (k.objects.sockets.isPending listener) with
      | some conn => !(k.objects.sockets.connections conn).isOpen .server
      | none => false
  | none => false

variable {k : System} {a : Action} {listener conn : Nat}

theorem event_accepts (accepts : k.event a = .accepted listener conn ∨ k.event a = .refused listener conn) :
    ∃ slot sockets, k.accepting a = some (slot, listener) ∧
      k.objects.sockets.accept listener = (.connection conn, sockets) := by
  unfold event at accepts
  split at accepts
  · rename_i slot listener' accepting
    rcases taken : k.objects.sockets.accept listener' with ⟨result, sockets⟩
    rw [taken] at accepts
    cases result with
    | connection conn' =>
      dsimp only at accepts
      split at accepts
      · rcases accepts with same | same
        · obtain ⟨rfl, rfl⟩ := Event.accepted.inj same
          exact ⟨slot, sockets, accepting, taken⟩
        · cases same
      · rcases accepts with same | same
        · cases same
        · obtain ⟨rfl, rfl⟩ := Event.refused.inj same
          exact ⟨slot, sockets, accepting, taken⟩
    | _ => rcases accepts with same | same <;> cases same
  · split at accepts
    · split at accepts <;> rcases accepts with same | same <;> cases same
    · split at accepts <;> rcases accepts with same | same <;> cases same
    · split at accepts
      · split at accepts <;> rcases accepts with same | same <;> cases same
      · rcases accepts with same | same <;> cases same
    · split at accepts <;> rcases accepts with same | same <;> cases same
    · rcases accepts with same | same <;> cases same
    · rcases accepts with same | same <;> cases same

theorem acceptsStale_eq (accepting : k.accepting a = some (slot, listener))
    (taken : k.objects.sockets.accept listener = (.connection conn, sockets)) :
    k.acceptsStale a = !(k.objects.sockets.connections conn).isOpen .server := by
  unfold Sockets.accept at taken
  split at taken
  · rename_i ready
    split at taken
    · rename_i conn' found
      obtain ⟨same, -⟩ := Prod.mk.inj taken
      obtain rfl := AcceptResult.connection.inj same
      unfold acceptsStale
      rw [accepting]
      dsimp only
      rw [found, ready.2.1, ready.2.2, decide_eq_true ready.1]
      rfl
    · cases (Prod.mk.inj taken).1
  · cases (Prod.mk.inj taken).1

theorem event_of_stale (stale : k.acceptsStale a = true) : ∃ listener conn,
    (k.event a = .accepted listener conn ∨ k.event a = .refused listener conn) ∧
    (k.objects.sockets.connections conn).isOpen .server = false := by
  unfold acceptsStale at stale
  split at stale
  · rename_i slot listener accepting
    simp only [Bool.and_eq_true, decide_eq_true_eq] at stale
    obtain ⟨⟨⟨small, inUse⟩, listening⟩, stale⟩ := stale
    split at stale
    · rename_i conn found
      have taken : k.objects.sockets.accept listener = (.connection conn, k.objects.sockets.setConnection
          conn { k.objects.sockets.connections conn with accepted := true }) := by
        unfold Sockets.accept
        rw [if_pos ⟨small, inUse, listening⟩, found]
      refine ⟨listener, conn, ?_, (Bool.not_eq_true' _).mp stale⟩
      rcases inserted : (k.files slot).insert (.socket (.stream conn .server)) with error | ok
      · exact .inr (by simp only [event, accepting, taken, inserted])
      · exact .inl (by simp only [event, accepting, taken, inserted])
    · cases stale
  · cases stale

end System

structure SocketWorld where
  system : System
  history : SocketHistory

namespace SocketWorld

def init (allocator : FrameAllocator) (root : Bytes) (us : Bool) : SocketWorld :=
  ⟨.init allocator root us, .init⟩

def step (w : SocketWorld) (a : Action) : Option SocketWorld :=
  (w.system.step a).map fun t => ⟨t, w.history.note (w.system.event a)⟩

/-- A step in which `accept` takes no connection that was made to a listener that is gone. -/
def freshStep (w : SocketWorld) (a : Action) : Option SocketWorld :=
  if w.system.acceptsStale a then none else w.step a

/-- Every descriptor of a stream has an open end of its own, and `accept` took only what was
made to its listener's binding of that time. -/
structure OwnedOnce (w : SocketWorld) : Prop where
  stream : ∀ slot, ∀ p ∈ w.system.processes slot, ∀ conn side,
    .socket (.stream conn side) ∈ p.files.files → conn < maxConnections ∧
    (w.system.objects.sockets.connections conn).inUse = true ∧
    (w.system.objects.sockets.connections conn).isOpen side = true
  once : ∀ conn side, w.system.inTables (.socket (.stream conn side)) ≤ 1
  accepted : ∀ entry ∈ w.history.accepts, entry.1 = entry.2

structure Ok (w : SocketWorld) : Prop where
  coherent : w.system.Coherent
  owned : w.system.ledger.Owned w.history
  accepted : ∀ entry ∈ w.history.accepts, entry.1 = entry.2

variable {w t : SocketWorld} {allocator : FrameAllocator} {root : Bytes} {us : Bool}

theorem ok_init (allocator : FrameAllocator) (root : Bytes) (us : Bool) :
    (init allocator root us).Ok := by
  refine ⟨System.coherent_init allocator root us, ?_, fun entry mem => absurd mem List.not_mem_nil⟩
  show (System.init allocator root us).ledger.Owned _
  rw [System.ledger_init]
  refine ⟨fun conn side mem => absurd mem (Multiset.notMem_zero _),
    fun listener mem => absurd mem (Multiset.notMem_zero _), fun state _ => Nat.zero_le _,
    fun listener conn _ pending => ?_, fun listener conn _ pending => ?_,
    fun listener conn _ pending => ?_⟩ <;> cases pending

theorem inTables_le (k : System) (file : File) : k.inTables file ≤ k.held.count file := by
  unfold System.inTables System.held
  rw [Multiset.count_add, Multiset.count_add, Multiset.count_sum']
  simp only [System.count_heldByTask]
  omega

theorem mem_held {k : System} {p : Process} {file : File}
    (inSlot : p ∈ k.processes slot) (inTable : file ∈ p.files.files) : file ∈ k.held := by
  have inTask : ∀ processes : List Process, p ∈ processes → file ∈ System.heldByTask processes := by
    intro processes mem
    induction processes with
    | nil => cases mem
    | cons q rest ih =>
      rw [System.heldByTask_cons]
      rcases List.mem_cons.mp mem with rfl | later
      · exact Multiset.mem_add.mpr (.inl (Multiset.mem_coe.mpr inTable))
      · exact Multiset.mem_add.mpr (.inr (ih later))
  have inTables : file ∈ ∑ slot, System.heldByTask (k.processes slot) :=
    Multiset.mem_sum.mpr ⟨slot, Finset.mem_univ _, inTask _ inSlot⟩
  exact Multiset.mem_add.mpr (.inl (Multiset.mem_add.mpr (.inl inTables)))

theorem Ok.ownedOnce (ok : w.Ok) : w.OwnedOnce where
  stream slot p inSlot conn side inTable := by
    obtain ⟨small, inUse, isOpen, -⟩ := ok.owned.stream conn side (mem_held inSlot inTable)
    exact ⟨small, inUse, isOpen⟩
  once conn side := (inTables_le _ _).trans (ok.owned.once (.stream conn side) nofun)
  accepted := ok.accepted

theorem Ok.step {a : Action} (ok : w.Ok) (fresh : w.system.acceptsStale a = false)
    (next : w.step a = some t) : t.Ok := by
  obtain ⟨k, stepped, rfl⟩ := Option.map_eq_some_iff.mp next
  obtain ⟨wakes, change, -⟩ := System.step_follows ok.coherent stepped
  have open' : ∀ listener conn, w.system.event a = .accepted listener conn ∨
      w.system.event a = .refused listener conn →
      (w.system.ledger.objects.sockets.connections conn).isOpen .server = true := by
    intro listener conn accepts
    obtain ⟨slot, sockets, accepting, taken⟩ := System.event_accepts accepts
    rw [System.acceptsStale_eq accepting taken] at fresh
    exact (Bool.not_eq_false' _).mp fresh
  refine ⟨ok.coherent.step stepped, ok.owned.change change open', fun entry mem => ?_⟩
  have took : ∀ listener conn, w.system.event a = .accepted listener conn ∨
      w.system.event a = .refused listener conn →
      entry ∈ w.history.accepts ++ [(w.history.madeTo conn, w.history.bindings listener)] →
      entry.1 = entry.2 := by
    intro listener conn accepts mem
    rcases List.mem_append.mp mem with mem | mem
    · exact ok.accepted entry mem
    · obtain ⟨slot, sockets, -, taken⟩ := System.event_accepts accepts
      rw [List.mem_singleton.mp mem]
      exact (ok.owned.accept_current taken).mp (open' listener conn accepts)
  cases event : w.system.event a with
  | accepted listener conn =>
    rw [event] at mem
    exact took listener conn (.inl event) mem
  | refused listener conn =>
    rw [event] at mem
    exact took listener conn (.inr event) mem
  | _ =>
    rw [event] at mem
    exact ok.accepted entry mem

theorem Ok.stale {a : Action} (ok : w.Ok) (stale : w.system.acceptsStale a = true)
    (next : w.step a = some t) : ¬ t.OwnedOnce := by
  obtain ⟨k, next, rfl⟩ := Option.map_eq_some_iff.mp next
  obtain ⟨listener, conn, accepts, isClosed⟩ := System.event_of_stale stale
  obtain ⟨slot, sockets, -, taken⟩ := System.event_accepts accepts
  intro ownedOnce
  have mem : (w.history.madeTo conn, w.history.bindings listener) ∈
      (w.history.note (w.system.event a)).accepts := by
    rcases accepts with event | event <;>
      · rw [event]
        exact List.mem_append_right _ (List.mem_singleton.mpr rfl)
  have same := (ok.owned.accept_current taken).mpr (ownedOnce.accepted _ mem)
  cases isClosed.symm.trans same

/-- In every run in which `accept` takes no connection made to a listener that is gone, each end is
owned once, and what `accept` took was made to the binding it was taken from. Whether a further
step keeps this is exactly whether it is no such `accept`. -/
theorem ends_owned_once (reach : Reachable freshStep (init allocator root us) w) :
    w.OwnedOnce ∧ ∀ a t, w.step a = some t → (t.OwnedOnce ↔ w.system.acceptsStale a = false) := by
  have ok : w.Ok := by
    refine reach.invariant (ok_init allocator root us) fun w a t ok next => ?_
    unfold freshStep at next
    split at next
    · cases next
    · rename_i fresh
      exact ok.step (Bool.eq_false_of_not_eq_true fresh) next
  refine ⟨ok.ownedOnce, fun a t next => ⟨fun ownedOnce => ?_, fun fresh => ?_⟩⟩
  · by_contra stale
    exact ok.stale (Bool.eq_true_of_not_eq_false stale) next ownedOnce
  · exact (ok.step fresh next).ownedOnce

/-- A program binds a name, connects to it and accepts. -/
theorem ends_owned_once_pair : ∃ w, Reachable freshStep (init ⟨4, [⟨1, 100⟩]⟩ ⟨0, fun _ => 0⟩ true) w ∧
    w.history.accepts = [(1, 1)] ∧ w.OwnedOnce := by
  have run : ((runSteps freshStep [.load 0 (.runs [1024] 4194304), .call 0 (.socket 1 1 0), .call 0 (.bind 3 (.ok [97])),
      .call 0 (.listen 3), .call 0 (.socket 1 1 0), .call 0 (.connect 4 (.ok [97])),
      .call 0 (.accept 3 0)] (init ⟨4, [⟨1, 100⟩]⟩ ⟨0, fun _ => 0⟩ true)).map fun w => w.history.accepts) =
        some [(1, 1)] := by
    decide
  obtain ⟨w, run, accepts⟩ := Option.map_eq_some_iff.mp run
  have reach := Reachable.refl.of_runSteps _ run
  exact ⟨w, reach, accepts, (ends_owned_once reach).1⟩

/-- The listener goes while a connection waits at it. Bound and listened to again, its slot hands
out that connection, of which the server end is closed. -/
theorem accept_takes_stale : ∃ w, Reachable step (init ⟨4, [⟨1, 100⟩]⟩ ⟨0, fun _ => 0⟩ true) w ∧
    ¬ w.OwnedOnce := by
  have run : ((runSteps step [.load 0 (.runs [1024] 4194304), .call 0 (.socket 1 1 0), .call 0 (.bind 3 (.ok [97])),
      .call 0 (.listen 3), .call 0 (.socket 1 1 0), .call 0 (.connect 4 (.ok [97])),
      .call 0 (.close 3), .call 0 (.socket 1 1 0), .call 0 (.bind 3 (.ok [97])),
      .call 0 (.listen 3), .call 0 (.accept 3 0)]
        (init ⟨4, [⟨1, 100⟩]⟩ ⟨0, fun _ => 0⟩ true)).map fun w => w.history.accepts) = some [(1, 2)] := by
    decide
  obtain ⟨w, run, accepts⟩ := Option.map_eq_some_iff.mp run
  refine ⟨w, Reachable.refl.of_runSteps _ run, fun ownedOnce => ?_⟩
  have same := ownedOnce.accepted (1, 2) (by rw [accepts]; exact List.mem_singleton.mpr rfl)
  cases same

end SocketWorld

end Zaytos.Kernel
