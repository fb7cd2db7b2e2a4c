import Zaytos.Kernel.Socket

set_option autoImplicit false

/-! What each operation on the sockets does: it leaves the tables as they are, or it changes
one connection in one way. -/
namespace Zaytos.Kernel

namespace Ring

variable {N : Nat}

theorem put_of_zero {r : Ring N} {src : List UInt8} (none : (r.put src).1 = 0) :
    (r.put src).2 = r := by
  rw [put_fst] at none
  unfold put
  simp only [none, List.take_zero]
  rfl

theorem full_of_put_zero {r : Ring N} {src : List UInt8} (none : (r.put src).1 = 0) :
    src = [] ∨ r.len = N := by
  have bound := r.len_le
  rw [put_fst, room] at none
  rcases Nat.min_eq_zero_iff.mp none with empty | full
  · exact .inl (List.length_eq_zero_iff.mp empty)
  · exact .inr (by omega)

end Ring

namespace Sockets

variable (s : Sockets)

theorem setConnection_self (conn : Nat) : s.setConnection conn (s.connections conn) = s := by
  unfold setConnection
  rw [Function.update_eq_self]

theorem connect_cases (name : List UInt8) :
    (∃ outcome, s.connect name = (outcome, s, []) ∧ ∀ conn, outcome ≠ .connected conn) ∨
    ∃ listener conn, listener < maxListeners ∧ (s.listeners listener).inUse = true ∧
      (s.listeners listener).listening = true ∧ conn < maxConnections ∧
      (s.connections conn).inUse = false ∧
      s.connect name =
        (.connected conn, s.setConnection conn (fresh listener), [.socketAcceptable listener]) := by
  unfold connect
  split
  · exact .inl ⟨_, rfl, by simp⟩
  · rename_i listener foundListener
    split
    · exact .inl ⟨_, rfl, by simp⟩
    · rename_i conn foundConn
      have isListener := List.find?_some foundListener
      have isFree := List.find?_some foundConn
      simp only [Bool.and_eq_true, Bool.not_eq_true'] at isListener isFree
      exact .inr ⟨listener, conn, List.mem_range.mp (List.mem_of_find?_eq_some foundListener),
        isListener.1.1, isListener.1.2, List.mem_range.mp (List.mem_of_find?_eq_some foundConn),
        isFree, rfl⟩

theorem accept_cases (listener : Nat) :
    (∃ outcome, s.accept listener = (outcome, s) ∧ (∀ conn, outcome ≠ .connection conn) ∧
      (outcome = .empty → ∀ conn < maxConnections, s.isPending listener conn = false)) ∨
    ∃ conn, (s.listeners listener).inUse = true ∧ (s.listeners listener).listening = true ∧
      conn < maxConnections ∧ s.isPending listener conn = true ∧
      (List.range maxConnections).find? (s.isPending listener) = some conn ∧
      s.accept listener = (.connection conn,
        s.setConnection conn { s.connections conn with accepted := true }) := by
  unfold accept
  split
  · rename_i ready
    split
    · rename_i conn found
      exact .inr ⟨conn, ready.2.1, ready.2.2, List.mem_range.mp (List.mem_of_find?_eq_some found),
        List.find?_some found, found, rfl⟩
    · rename_i none
      refine .inl ⟨_, rfl, by simp, fun _ conn small => ?_⟩
      exact Bool.eq_false_iff.mpr (List.find?_eq_none.mp none conn (List.mem_range.mpr small))
  · exact .inl ⟨_, rfl, by simp, by simp⟩

theorem readInto_cases (conn : Nat) (side : Side) (want : Nat) :
    (∃ outcome, s.readInto conn side want = (outcome, s, []) ∧ (∀ data, outcome ≠ .bytes data) ∧
      (outcome = .eof ∨ outcome = .empty → (s.connections conn).inUse = true ∧
        ((s.connections conn).rings side).contents = [] ∧
        ((s.connections conn).isOpen side.peer = true ↔ outcome = .empty))) ∨
    conn < maxConnections ∧ (s.connections conn).inUse = true ∧ ∃ ring,
      s.readInto conn side want = (.bytes (((s.connections conn).rings side).contents.take want),
        s.setConnection conn { s.connections conn with
          rings := Function.update (s.connections conn).rings side ring },
        [.socketWritable conn side.peer]) ∧
      ring.contents = ((s.connections conn).rings side).contents.drop want := by
  unfold readInto
  split
  · rename_i used
    split
    · rename_i empty
      refine .inl ⟨_, rfl, ?_, fun _ => ⟨used.2, (Ring.isEmpty_iff _).mp empty, ?_⟩⟩
      · intro data
        split <;> simp
      · split <;> simp_all
    · refine .inr ⟨used.1, used.2, (((s.connections conn).rings side).take want).2, ?_,
        Ring.contents_take _ want⟩
      rw [← Ring.take_fst]
  · exact .inl ⟨_, rfl, by simp, by simp⟩

theorem writeFrom_cases (conn : Nat) (side : Side) (src : List UInt8) :
    (∃ outcome, s.writeFrom conn side src = (outcome, s, []) ∧ (∀ count, outcome ≠ .bytes count) ∧
      (outcome = .full → conn < maxConnections ∧ (s.connections conn).inUse = true ∧
        (s.connections conn).isOpen side.peer = true ∧
        (src = [] ∨ ((s.connections conn).rings side.peer).len = socketRing))) ∨
    conn < maxConnections ∧ (s.connections conn).inUse = true ∧
      (s.connections conn).isOpen side.peer = true ∧ ∃ count ring,
      s.writeFrom conn side src = (.bytes count, s.setConnection conn { s.connections conn with
          rings := Function.update (s.connections conn).rings side.peer ring },
        [.socketReadable conn side.peer]) ∧
      ring.contents = ((s.connections conn).rings side.peer).contents ++ src.take count := by
  unfold writeFrom
  split
  · rename_i used
    split
    · rename_i isOpen
      dsimp only
      split
      · rename_i none
        rw [Ring.put_of_zero none, Function.update_eq_self, setConnection_self]
        exact .inl ⟨_, rfl, by simp, fun _ => ⟨used.1, used.2, isOpen, Ring.full_of_put_zero none⟩⟩
      · exact .inr ⟨used.1, used.2, isOpen, _, _, rfl, Ring.contents_put _ src⟩
    · exact .inl ⟨_, rfl, by simp, by simp⟩
  · exact .inl ⟨_, rfl, by simp, by simp⟩

theorem closeEnd_cases (conn : Nat) (side : Side) :
    (s.closeEnd conn side = (s, []) ∧ ¬ (conn < maxConnections ∧ (s.connections conn).inUse = true ∧
      (s.connections conn).isOpen side = true)) ∨
    conn < maxConnections ∧ (s.connections conn).inUse = true ∧
      (s.connections conn).isOpen side = true ∧
      s.closeEnd conn side = (s.setConnection conn (closed (s.connections conn) side),
        [.socketReadable conn side.peer, .socketWritable conn side.peer]) := by
  unfold closeEnd
  split
  · rename_i ready
    exact .inr ⟨ready.1, ready.2.1, ready.2.2, rfl⟩
  · rename_i notReady
    exact .inl ⟨rfl, notReady⟩

theorem queueFd_cases (conn : Nat) (side : Side) (shm : Nat) :
    s.queueFd conn side shm = (false, s, []) ∨
    conn < maxConnections ∧ (s.connections conn).inUse = true ∧
      (s.connections conn).pendingFd side.peer = none ∧
      s.queueFd conn side shm = (true, s.setConnection conn { s.connections conn with
          pendingFd := Function.update (s.connections conn).pendingFd side.peer (some shm) },
        [.socketReadable conn side.peer]) := by
  unfold queueFd
  split
  · rename_i ready
    exact .inr ⟨ready.1, ready.2.1, ready.2.2, rfl⟩
  · exact .inl rfl

theorem takeFd_cases (conn : Nat) (side : Side) :
    s.takeFd conn side = (none, s) ∨
    conn < maxConnections ∧ (s.connections conn).inUse = true ∧ ∃ shm,
      (s.connections conn).pendingFd side = some shm ∧
      s.takeFd conn side = (some shm, s.setConnection conn { s.connections conn with
        pendingFd := Function.update (s.connections conn).pendingFd side none }) := by
  unfold takeFd
  split
  · rename_i used
    cases pending : (s.connections conn).pendingFd side with
    | none =>
      have same : Function.update (s.connections conn).pendingFd side none =
          (s.connections conn).pendingFd := by
        rw [Function.update_eq_self_iff, pending]
      rw [same, setConnection_self]
      exact .inl rfl
    | some shm => exact .inr ⟨used.1, used.2, shm, rfl, rfl⟩
  · exact .inl rfl

theorem bind_cases (name : List UInt8) :
    (∃ outcome, s.bind name = (outcome, s) ∧ ∀ listener, outcome ≠ .bound listener) ∨
    ∃ listener, listener < maxListeners ∧ (s.listeners listener).inUse = false ∧
      s.bind name = (.bound listener, s.setListener listener ⟨true, false, name⟩) := by
  unfold bind
  split
  · exact .inl ⟨_, rfl, by simp⟩
  · split
    · rename_i listener found
      have isFree := List.find?_some found
      simp only [Bool.not_eq_true'] at isFree
      exact .inr ⟨listener, List.mem_range.mp (List.mem_of_find?_eq_some found), isFree, rfl⟩
    · exact .inl ⟨_, rfl, by simp⟩

theorem listen_cases (listener : Nat) :
    s.listen listener = (false, s) ∨
    listener < maxListeners ∧ (s.listeners listener).inUse = true ∧
      s.listen listener =
        (true, s.setListener listener { s.listeners listener with listening := true }) := by
  unfold listen
  split
  · rename_i ready
    exact .inr ⟨ready.1, ready.2, rfl⟩
  · exact .inl rfl

def dropEnd (c : Connection) (side : Side) : Connection :=
  if c.isOpen side then closed c side else c

variable {s}

theorem closeEnd_connections (conn : Nat) (side : Side) (other : Nat) :
    (s.closeEnd conn side).1.connections other =
      if other = conn ∧ conn < maxConnections ∧ (s.connections conn).inUse = true then
        dropEnd (s.connections conn) side
      else s.connections other := by
  unfold closeEnd dropEnd
  split
  · rename_i ready
    rw [setConnection_apply]
    by_cases same : other = conn
    · rw [if_pos same, if_pos ⟨same, ready.1, ready.2.1⟩, if_pos ready.2.2]
    · rw [if_neg same, if_neg fun all => same all.1]
  · rename_i notReady
    split
    · rename_i used
      rw [if_neg fun isOpen => notReady ⟨used.2.1, used.2.2, isOpen⟩, used.1]
    · rfl

theorem closeEnd_listeners (conn : Nat) (side : Side) :
    (s.closeEnd conn side).1.listeners = s.listeners := by
  unfold closeEnd
  split <;> rfl

theorem closeEnd_wakes {conn : Nat} {side : Side} (small : conn < maxConnections)
    (inUse : (s.connections conn).inUse = true) (isOpen : (s.connections conn).isOpen side = true) :
    (s.closeEnd conn side).2 = [.socketReadable conn side.peer, .socketWritable conn side.peer] := by
  unfold closeEnd
  rw [if_pos ⟨small, inUse, isOpen⟩]

theorem closeServers_listeners (conns : List Nat) :
    (s.closeServers conns).1.listeners = s.listeners := by
  induction conns generalizing s with
  | nil => rfl
  | cons conn rest ih => exact ih.trans (closeEnd_listeners conn .server)

theorem closeServers_connections {conns : List Nat} (distinct : conns.Nodup) (other : Nat) :
    (s.closeServers conns).1.connections other =
      if other ∈ conns then (s.closeEnd other .server).1.connections other
      else s.connections other := by
  induction conns generalizing s with
  | nil => rw [if_neg List.not_mem_nil]; rfl
  | cons conn rest ih =>
    obtain ⟨notLater, distinct⟩ := List.nodup_cons.mp distinct
    show ((s.closeEnd conn .server).1.closeServers rest).1.connections other = _
    rw [ih distinct]
    by_cases same : other = conn
    · subst same
      rw [if_neg notLater, if_pos List.mem_cons_self]
    · have untouched : (s.closeEnd conn .server).1.connections other = s.connections other := by
        rw [closeEnd_connections, if_neg fun all => same all.1]
      by_cases later : other ∈ rest
      · rw [if_pos later, if_pos (List.mem_cons_of_mem _ later)]
        rw [closeEnd_connections other, untouched, ← closeEnd_connections other]
      · rw [if_neg later, if_neg fun mem => (List.mem_cons.mp mem).elim same later, untouched]

theorem mem_closeServers_wakes {conns : List Nat} (distinct : conns.Nodup) {conn : Nat} {on : Wait}
    (mem : conn ∈ conns) (woken : on ∈ (s.closeEnd conn .server).2) :
    on ∈ (s.closeServers conns).2 := by
  induction conns generalizing s with
  | nil => cases mem
  | cons first rest ih =>
    obtain ⟨notLater, distinct⟩ := List.nodup_cons.mp distinct
    show on ∈ (s.closeEnd first .server).2 ++ ((s.closeEnd first .server).1.closeServers rest).2
    rcases List.mem_cons.mp mem with rfl | later
    · exact List.mem_append_left _ woken
    · refine List.mem_append_right _ (ih distinct later ?_)
      have ne : conn ≠ first := fun same => notLater (same ▸ later)
      have untouched : (s.closeEnd first .server).1.connections conn = s.connections conn := by
        rw [closeEnd_connections, if_neg fun all => ne all.1]
      unfold closeEnd at woken ⊢
      unfold closeEnd at untouched
      rw [untouched]
      split at woken
      · rename_i ready
        rw [if_pos ready]
        exact woken
      · cases woken

theorem isPending_iff {listener conn : Nat} : s.isPending listener conn = true ↔
    (s.connections conn).inUse = true ∧ (s.connections conn).listener = listener ∧
      (s.connections conn).accepted = false := by
  unfold isPending
  simp only [Bool.and_eq_true, beq_iff_eq, Bool.not_eq_true', and_assoc]

theorem closeListener_cases (listener : Nat) :
    s.closeListener listener = (s, []) ∨
    listener < maxListeners ∧ (s.listeners listener).inUse = true ∧
      (s.closeListener listener).1.listeners = Function.update s.listeners listener .empty ∧
      (∀ conn, (s.closeListener listener).1.connections conn =
        if conn < maxConnections ∧ s.isPending listener conn = true then
          dropEnd (s.connections conn) .server
        else s.connections conn) ∧
      ∀ conn, conn < maxConnections → s.isPending listener conn = true →
        (s.connections conn).isOpen .server = true →
        .socketReadable conn .client ∈ (s.closeListener listener).2 ∧
        .socketWritable conn .client ∈ (s.closeListener listener).2 := by
  unfold closeListener
  split
  · rename_i ready
    have distinct : ((List.range maxConnections).filter (s.isPending listener)).Nodup :=
      List.nodup_range.filter _
    refine .inr ⟨ready.1, ready.2, closeServers_listeners _, fun conn => ?_,
      fun conn small pending isOpen => ?_⟩
    · rw [closeServers_connections distinct, closeEnd_connections]
      simp only [List.mem_filter, List.mem_range]
      split
      · rename_i waits
        exact if_pos ⟨trivial, waits.1, (isPending_iff.mp waits.2).1⟩
      · rfl
    · have inUse := (isPending_iff.mp pending).1
      have mem : conn ∈ (List.range maxConnections).filter (s.isPending listener) :=
        List.mem_filter.mpr ⟨List.mem_range.mpr small, pending⟩
      have wakes := closeEnd_wakes (s := s.setListener listener .empty) small inUse
        isOpen
      refine ⟨mem_closeServers_wakes distinct mem ?_, mem_closeServers_wakes distinct mem ?_⟩
      · rw [wakes]
        exact List.mem_cons_self
      · rw [wakes]
        exact List.mem_cons_of_mem _ List.mem_cons_self
  · exact .inl rfl

end Sockets

end Zaytos.Kernel
