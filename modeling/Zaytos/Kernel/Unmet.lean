import Zaytos.Kernel.Idle
import Zaytos.Kernel.PipeHolders

set_option autoImplicit false

/-! Reasons to wait that have not come true, and that every change of the ledger wakes whoever
waits for one that it makes come true. -/
namespace Zaytos.Kernel

namespace Pipe

def Starved (p : Pipe) : Prop := p.ring.contents = [] ∧ p.writers ≠ 0

def Stuffed (p : Pipe) : Prop :=
  p.ring.len = pipeRing ∧ (p.readers ≠ 0 ∨ p.reservedReader = true)

variable {p : Pipe}

theorem Starved.release (starved : p.Starved) : p.releaseIfUnused.Starved := by
  unfold releaseIfUnused
  rw [if_neg fun unused => starved.2 unused.2.1]
  exact starved

theorem Stuffed.release (stuffed : p.Stuffed) : p.releaseIfUnused.Stuffed := by
  unfold releaseIfUnused
  rw [if_neg fun unused => ?_]
  · exact stuffed
  · rcases stuffed.2 with reader | reserved
    · exact reader unused.1
    · exact Bool.noConfusion (reserved.symm.trans unused.2.2)

theorem Stuffed.put_zero (stuffed : p.Stuffed) (src : List UInt8) : (p.ring.put src).1 = 0 := by
  rw [Ring.put_fst, Ring.room, stuffed.1]
  omega

end Pipe

namespace Connection

def Starved (c : Connection) (side : Side) : Prop :=
  (c.rings side).contents = [] ∧ c.isOpen side.peer = true

def Stuffed (c : Connection) (side : Side) : Prop :=
  (c.rings side.peer).len = socketRing ∧ c.isOpen side.peer = true

def waitsAt (c : Connection) (listener : Nat) : Bool :=
  c.inUse && c.listener == listener && !c.accepted

end Connection

namespace Objects

def Unmet (o : Objects) : Wait → Prop
  | .pipeReadable pipe => (o.pipes pipe).Starved
  | .pipeWritable pipe => (o.pipes pipe).Stuffed
  | .socketReadable conn side => conn < maxConnections ∧ (o.sockets.connections conn).Starved side
  | .socketWritable conn side => conn < maxConnections ∧ (o.sockets.connections conn).Stuffed side
  | .socketAcceptable listener =>
    ∀ conn < maxConnections, (o.sockets.connections conn).waitsAt listener = false
  | .keyboard | .timer _ | .child _ => True

def Keeps (o : Objects) (wakes : List Wait) (o' : Objects) : Prop :=
  ∀ on, o.Unmet on → on ∉ wakes → o'.Unmet on

namespace Keeps

variable {o o' o'' : Objects} {wakes others : List Wait}

theorem of_same (pipes : o'.pipes = o.pipes) (connections : o'.sockets.connections =
    o.sockets.connections) : o.Keeps wakes o' := by
  intro on unmet _
  cases on <;> simp only [Unmet, pipes, connections] at unmet ⊢ <;> exact unmet

theorem trans (first : o.Keeps wakes o') (rest : o'.Keeps others o'') :
    o.Keeps (wakes ++ others) o'' := by
  intro on unmet quiet
  rw [List.mem_append, not_or] at quiet
  exact rest on (first on unmet quiet.1) quiet.2

theorem pipe (pipe : Nat) {p : Pipe}
    (starved : (o.pipes pipe).Starved → .pipeReadable pipe ∉ wakes → p.Starved)
    (stuffed : (o.pipes pipe).Stuffed → .pipeWritable pipe ∉ wakes → p.Stuffed) :
    o.Keeps wakes { o with pipes := Function.update o.pipes pipe p } := by
  intro on unmet quiet
  cases on with
  | pipeReadable other =>
    show (Function.update o.pipes pipe p other).Starved
    by_cases same : other = pipe
    · subst same
      rw [Function.update_self]
      exact starved unmet quiet
    · rw [Function.update_of_ne same]
      exact unmet
  | pipeWritable other =>
    show (Function.update o.pipes pipe p other).Stuffed
    by_cases same : other = pipe
    · subst same
      rw [Function.update_self]
      exact stuffed unmet quiet
    · rw [Function.update_of_ne same]
      exact unmet
  | _ => exact unmet

theorem connection (conn : Nat) {c : Connection}
    (starved : ∀ side, (o.sockets.connections conn).Starved side →
      .socketReadable conn side ∉ wakes → c.Starved side)
    (stuffed : ∀ side, (o.sockets.connections conn).Stuffed side →
      .socketWritable conn side ∉ wakes → c.Stuffed side)
    (waits : ∀ listener, (o.sockets.connections conn).waitsAt listener = false →
      .socketAcceptable listener ∉ wakes → c.waitsAt listener = false) :
    o.Keeps wakes { o with sockets := o.sockets.setConnection conn c } := by
  intro on unmet quiet
  cases on with
  | socketReadable other side =>
    refine ⟨unmet.1, ?_⟩
    show ((o.sockets.setConnection conn c).connections other).Starved side
    rw [Sockets.setConnection_apply]
    split
    · rename_i same
      subst same
      exact starved side unmet.2 quiet
    · exact unmet.2
  | socketWritable other side =>
    refine ⟨unmet.1, ?_⟩
    show ((o.sockets.setConnection conn c).connections other).Stuffed side
    rw [Sockets.setConnection_apply]
    split
    · rename_i same
      subst same
      exact stuffed side unmet.2 quiet
    · exact unmet.2
  | socketAcceptable listener =>
    intro other small
    show ((o.sockets.setConnection conn c).connections other).waitsAt listener = false
    rw [Sockets.setConnection_apply]
    split
    · rename_i same
      subst same
      exact waits listener (unmet other small) quiet
    · exact unmet other small
  | _ => exact unmet

end Keeps

variable {o : Objects}

section Pipes

theorem readInto_keeps (o : Objects) (pipe want : Nat) :
    o.Keeps (o.pipes.readInto pipe want).2.2
      { o with pipes := (o.pipes.readInto pipe want).2.1 } := by
  unfold Pipes.readInto
  split
  · split
    · exact .of_same rfl rfl
    · rename_i some
      refine .pipe pipe (fun starved _ => ?_) fun _ quiet => ?_
      · exact absurd (((o.pipes pipe).ring.isEmpty_iff).mpr starved.1) some
      · exact absurd (List.mem_singleton.mpr rfl) quiet
  · exact .of_same rfl rfl

theorem writeFrom_keeps (o : Objects) (pipe : Nat) (src : List UInt8) :
    o.Keeps (o.pipes.writeFrom pipe src).2.2
      { o with pipes := (o.pipes.writeFrom pipe src).2.1 } := by
  unfold Pipes.writeFrom
  split
  · split
    · exact .of_same rfl rfl
    · dsimp only
      split
      · rename_i none
        rw [Ring.put_of_zero none, Function.update_eq_self]
        exact .of_same rfl rfl
      · rename_i some
        refine .pipe pipe (fun _ quiet => ?_) fun stuffed _ => ?_
        · exact absurd (List.mem_singleton.mpr rfl) quiet
        · exact absurd (stuffed.put_zero src) some
  · exact .of_same rfl rfl

theorem closeReadEnd_keeps (o : Objects) (pipe : Nat) :
    o.Keeps (o.pipes.closeReadEnd pipe).2 { o with pipes := (o.pipes.closeReadEnd pipe).1 } := by
  unfold Pipes.closeReadEnd
  split
  · dsimp only
    refine .pipe pipe (fun starved _ => Pipe.Starved.release starved) fun stuffed quiet => ?_
    refine Pipe.Stuffed.release ⟨stuffed.1, .inl fun noReader => quiet ?_⟩
    rw [if_pos noReader]
    exact List.mem_singleton.mpr rfl
  · exact .of_same rfl rfl

theorem closeWriteEnd_keeps (o : Objects) (pipe : Nat) :
    o.Keeps (o.pipes.closeWriteEnd pipe).2 { o with pipes := (o.pipes.closeWriteEnd pipe).1 } := by
  unfold Pipes.closeWriteEnd
  split
  · dsimp only
    refine .pipe pipe (fun starved quiet => ?_) fun stuffed _ => Pipe.Stuffed.release stuffed
    refine Pipe.Starved.release ⟨starved.1, fun noWriter => quiet ?_⟩
    rw [if_pos noWriter]
    exact List.mem_singleton.mpr rfl
  · exact .of_same rfl rfl

theorem dropReservation_keeps (o : Objects) (pipe : Nat) :
    o.Keeps (o.pipes.dropReservation pipe).2.2
      { o with pipes := (o.pipes.dropReservation pipe).2.1 } := by
  unfold Pipes.dropReservation
  split
  · refine .pipe pipe (fun starved _ => Pipe.Starved.release starved) fun _ quiet => ?_
    exact absurd (List.mem_singleton.mpr rfl) quiet
  · exact .of_same rfl rfl

theorem claim_keeps {pipe : Nat} {pipes : Pipes} {wakes : List Wait}
    (claimed : o.pipes.claimReservedReader pipe = (true, pipes)) :
    o.Keeps wakes { o with pipes } := by
  unfold Pipes.claimReservedReader at claimed
  split at claimed
  · obtain ⟨-, rfl⟩ := Prod.mk.inj claimed
    refine .pipe pipe (fun starved _ => starved) fun stuffed _ => ⟨stuffed.1, .inl ?_⟩
    show min 255 ((o.pipes pipe).readers + 1) ≠ 0
    omega
  · cases (Prod.mk.inj claimed).1

theorem create_keeps {pipe : Nat} {pipes : Pipes} {wakes : List Wait}
    (made : o.pipes.create true = some (pipe, pipes))
    (unused : (o.pipes pipe).readers = 0 ∧ (o.pipes pipe).writers = 0 ∧
      (o.pipes pipe).reservedReader = false) : o.Keeps wakes { o with pipes } := by
  obtain ⟨-, -, rfl⟩ := Pipes.create_ok made
  refine .pipe pipe (fun starved _ => absurd unused.2.1 starved.2) fun stuffed _ => ?_
  rcases stuffed.2 with reader | reserved
  · exact absurd unused.1 reader
  · exact Bool.noConfusion (reserved.symm.trans unused.2.2)

end Pipes

section Sockets

theorem socketRead_keeps (o : Objects) (conn : Nat) (side : Side) (want : Nat) :
    o.Keeps (o.sockets.readInto conn side want).2.2
      { o with sockets := (o.sockets.readInto conn side want).2.1 } := by
  unfold Sockets.readInto
  split
  · split
    · exact .of_same rfl rfl
    · rename_i some
      refine .connection conn (fun other starved _ => ?_) (fun other stuffed quiet => ?_)
        fun _ waits _ => waits
      · have ne : other ≠ side := by
          rintro rfl
          exact some (((o.sockets.connections conn).rings other).isEmpty_iff.mpr starved.1)
        refine ⟨?_, starved.2⟩
        dsimp only
        rw [Function.update_of_ne ne]
        exact starved.1
      · have ne : other.peer ≠ side := by
          rintro rfl
          rw [Side.peer_peer] at quiet
          exact quiet (List.mem_singleton.mpr rfl)
        refine ⟨?_, stuffed.2⟩
        dsimp only
        rw [Function.update_of_ne ne]
        exact stuffed.1
  · exact .of_same rfl rfl

theorem socketWrite_keeps (o : Objects) (conn : Nat) (side : Side) (src : List UInt8) :
    o.Keeps (o.sockets.writeFrom conn side src).2.2
      { o with sockets := (o.sockets.writeFrom conn side src).2.1 } := by
  unfold Sockets.writeFrom
  split
  · split
    · dsimp only
      split
      · rename_i none
        rw [Ring.put_of_zero none, Function.update_eq_self, Sockets.setConnection_self]
        exact .of_same rfl rfl
      · rename_i some
        refine .connection conn (fun other starved quiet => ?_) (fun other stuffed _ => ?_)
          fun _ waits _ => waits
        · have ne : other ≠ side.peer := by
            rintro rfl
            exact quiet (List.mem_singleton.mpr rfl)
          refine ⟨?_, starved.2⟩
          dsimp only
          rw [Function.update_of_ne ne]
          exact starved.1
        · have ne : other.peer ≠ side.peer := by
            intro same
            have full := stuffed.1
            rw [same] at full
            refine some ?_
            rw [Ring.put_fst, Ring.room, full]
            omega
          refine ⟨?_, stuffed.2⟩
          dsimp only
          rw [Function.update_of_ne ne]
          exact stuffed.1
    · exact .of_same rfl rfl
  · exact .of_same rfl rfl

theorem waitsAt_closed {c : Connection} {side : Side} {listener : Nat}
    (waits : c.waitsAt listener = false) : (Sockets.closed c side).waitsAt listener = false := by
  unfold Sockets.closed
  split
  · exact waits
  · rfl

theorem closeEnd_keeps (o : Objects) (conn : Nat) (side : Side) :
    o.Keeps (o.sockets.closeEnd conn side).2 { o with sockets := (o.sockets.closeEnd conn side).1 } := by
  have own : ∀ other, other ≠ side.peer → other = side := by
    intro other ne
    cases other <;> cases side <;> first | rfl | exact absurd rfl ne
  unfold Sockets.closeEnd
  split
  · refine .connection conn (fun other starved quiet => ?_) (fun other stuffed quiet => ?_)
      fun _ waits _ => waitsAt_closed waits
    · obtain rfl : other = side := own other fun same => quiet (by rw [same]; exact List.mem_cons_self)
      unfold Sockets.closed
      rw [if_pos starved.2]
      refine ⟨starved.1, ?_⟩
      dsimp only
      rw [Function.update_of_ne (Side.peer_ne other)]
      exact starved.2
    · obtain rfl : other = side := own other fun same =>
        quiet (by rw [same]; exact List.mem_cons_of_mem _ List.mem_cons_self)
      unfold Sockets.closed
      rw [if_pos stuffed.2]
      refine ⟨stuffed.1, ?_⟩
      dsimp only
      rw [Function.update_of_ne (Side.peer_ne other)]
      exact stuffed.2
  · exact .of_same rfl rfl

theorem closeServers_keeps (o : Objects) (conns : List Nat) :
    o.Keeps (o.sockets.closeServers conns).2
      { o with sockets := (o.sockets.closeServers conns).1 } := by
  induction conns generalizing o with
  | nil => exact .of_same rfl rfl
  | cons conn rest ih =>
    exact (o.closeEnd_keeps conn .server).trans
      (ih { o with sockets := (o.sockets.closeEnd conn .server).1 })

theorem closeListener_keeps (o : Objects) (listener : Nat) :
    o.Keeps (o.sockets.closeListener listener).2
      { o with sockets := (o.sockets.closeListener listener).1 } := by
  unfold Sockets.closeListener
  split
  · have gone : o.Keeps [] { o with sockets := o.sockets.setListener listener .empty } :=
      .of_same rfl rfl
    exact gone.trans (closeServers_keeps { o with sockets := o.sockets.setListener listener .empty } _)
  · exact .of_same rfl rfl

theorem connect_keeps {name : List UInt8} {conn : Nat} {sockets : Sockets} {wakes : List Wait}
    (idle : o.sockets.Idle) (made : o.sockets.connect name = (.connected conn, sockets, wakes)) :
    o.Keeps wakes { o with sockets } := by
  rcases o.sockets.connect_cases name with ⟨outcome, eq, none⟩ | ⟨listener, conn', -, -, -, -, free, eq⟩
  · exact absurd (Prod.mk.inj (eq.symm.trans made)).1 (none conn)
  · obtain ⟨-, rest⟩ := Prod.mk.inj (eq.symm.trans made)
    obtain ⟨rfl, rfl⟩ := Prod.mk.inj rest
    have nobody : ∀ side, (o.sockets.connections conn').isOpen side = false := by
      intro side
      rw [idle conn' free]
      rfl
    refine .connection conn' (fun side starved _ => ?_) (fun side stuffed _ => ?_)
      fun other _ quiet => ?_
    · exact Bool.noConfusion ((nobody _).symm.trans starved.2)
    · exact Bool.noConfusion ((nobody _).symm.trans stuffed.2)
    · have ne : listener ≠ other := by
        rintro rfl
        exact quiet (List.mem_singleton.mpr rfl)
      simp [Connection.waitsAt, Sockets.fresh, ne]

theorem accept_keeps {listener conn : Nat} {sockets : Sockets} {wakes : List Wait}
    (taken : o.sockets.accept listener = (.connection conn, sockets)) :
    o.Keeps wakes { o with sockets } := by
  rcases o.sockets.accept_cases listener with ⟨outcome, eq, none, -⟩ | ⟨conn', -, -, -, -, -, eq⟩
  · exact absurd (Prod.mk.inj (eq.symm.trans taken)).1 (none conn)
  · obtain ⟨-, rfl⟩ := Prod.mk.inj (eq.symm.trans taken)
    refine .connection conn' (fun _ starved _ => starved) (fun _ stuffed _ => stuffed) fun _ _ _ => ?_
    simp [Connection.waitsAt]

theorem queueFd_keeps {conn shm : Nat} {side : Side} {sockets : Sockets} {wakes others : List Wait}
    (queued : o.sockets.queueFd conn side shm = (true, sockets, wakes)) :
    o.Keeps others { o with sockets } := by
  rcases o.sockets.queueFd_cases conn side shm with eq | ⟨-, -, -, eq⟩
  · cases (Prod.mk.inj (eq.symm.trans queued)).1
  · obtain ⟨-, rest⟩ := Prod.mk.inj (eq.symm.trans queued)
    obtain ⟨rfl, -⟩ := Prod.mk.inj rest
    exact .connection conn (fun _ starved _ => starved) (fun _ stuffed _ => stuffed)
      fun _ waits _ => waits

theorem takeFd_keeps {conn shm : Nat} {side : Side} {sockets : Sockets} {others : List Wait}
    (taken : o.sockets.takeFd conn side = (some shm, sockets)) : o.Keeps others { o with sockets } := by
  rcases o.sockets.takeFd_cases conn side with eq | ⟨-, -, shm', -, eq⟩
  · cases (Prod.mk.inj (eq.symm.trans taken)).1
  · obtain ⟨-, rfl⟩ := Prod.mk.inj (eq.symm.trans taken)
    exact .connection conn (fun _ starved _ => starved) (fun _ stuffed _ => stuffed)
      fun _ waits _ => waits

end Sockets

theorem releaseEnd_keeps (o : Objects) (file : File) :
    o.Keeps (o.releaseEnd file).2 (o.releaseEnd file).1 := by
  cases file with
  | pipeRead pipe => exact o.closeReadEnd_keeps pipe
  | pipeWrite pipe => exact o.closeWriteEnd_keeps pipe
  | shm shm => exact .of_same rfl rfl
  | socket state =>
    cases state with
    | unbound => exact .of_same rfl rfl
    | listener listener => exact o.closeListener_keeps listener
    | stream conn side => exact o.closeEnd_keeps conn side
  | _ => exact .of_same rfl rfl

theorem releaseAll_keeps (o : Objects) (files : List File) :
    o.Keeps (o.releaseAll files).2 (o.releaseAll files).1 := by
  induction files generalizing o with
  | nil => exact .of_same rfl rfl
  | cons file rest ih => exact (o.releaseEnd_keeps file).trans (ih _)

end Objects

namespace Ledger

variable {l m : Ledger}

theorem unmet_move {wakes : List Wait} (pipesHeld : l.PipesHeld) (move : l.Move wakes m) :
    l.objects.Keeps wakes m.objects := by
  cases move with
  | release other was => exact l.objects.releaseEnd_keeps _
  | pipeRead pipe want => exact l.objects.readInto_keeps pipe want
  | pipeWrite pipe src => exact l.objects.writeFrom_keeps pipe src
  | @pipeCreate pipe pipes old reservations made was =>
    refine Objects.create_keeps made ?_
    obtain ⟨small, free, -⟩ := Pipes.create_ok made
    have held := pipesHeld.held pipe small
    obtain ⟨noReaders, noWriters, notReserved⟩ := held.free free
    refine ⟨held.isReaders.trans noReaders, held.isWriters.trans noWriters, ?_⟩
    have one := held.isReserved
    rw [notReserved] at one
    cases reserved : (l.objects.pipes pipe).reservedReader with
    | false => rfl
    | true =>
      rw [reserved] at one
      cases one
  | dropReservation was => exact l.objects.dropReservation_keeps _
  | claim was claimed => exact Objects.claim_keeps claimed
  | listen listener => exact .of_same rfl (Sockets.listen_connections _ listener)
  | socketRead conn side want => exact l.objects.socketRead_keeps conn side want
  | socketWrite conn side src => exact l.objects.socketWrite_keeps conn side src
  | takeFd taken => exact Objects.takeFd_keeps taken
  | _ => exact .of_same rfl rfl

theorem unmet_moves {wakes : List Wait} (pipesHeld : l.PipesHeld) (moves : l.Moves wakes m) :
    l.objects.Keeps wakes m.objects := by
  induction moves with
  | refl => exact .of_same rfl rfl
  | step first _ ih => exact (unmet_move pipesHeld first).trans (ih (pipesHeld.move first))

theorem unmet_then {o : Objects} {wakes others : List Wait} (moves : l.Moves others m)
    (first : o.Keeps wakes l.objects) (pipesHeld : l.PipesHeld) :
    o.Keeps (wakes ++ others) m.objects :=
  first.trans (unmet_moves pipesHeld moves)

theorem unmet_quietly {o : Objects} {wakes : List Wait} (moves : l.Moves wakes m)
    (first : o.Keeps [] l.objects) (pipesHeld : l.PipesHeld) : o.Keeps wakes m.objects :=
  unmet_then moves first pipesHeld

theorem unmet_change {event : Event} {wakes : List Wait} (pipesHeld : l.PipesHeld)
    (idle : l.objects.sockets.Idle) (change : Change event l wakes m) :
    l.objects.Keeps wakes m.objects := by
  cases change with
  | quiet moves => exact unmet_moves pipesHeld moves
  | bound bound rest =>
    have same := (congrArg (fun out => out.2.connections) bound).symm.trans
      (Sockets.bind_connections _ _)
    exact unmet_quietly (o := l.objects) (.one rest) (.of_same rfl same)
      (pipesHeld.of_cons rfl ⟨rfl, rfl⟩ rfl rfl)
  | connected made target rest =>
    have both := unmet_then (.one rest) (Objects.connect_keeps idle made)
      (pipesHeld.of_cons rfl ⟨rfl, rfl⟩ rfl rfl)
    rwa [List.append_nil] at both
  | accepted taken => exact Objects.accept_keeps taken
  | refused taken =>
    have accepts : l.objects.Keeps [] _ := Objects.accept_keeps taken
    exact accepts.trans (Objects.closeEnd_keeps _ _ .server)
  | sent mem queued rest =>
    exact unmet_then rest (Objects.queueFd_keeps queued)
      (pipesHeld.of_same (fun _ _ => rfl) rfl rfl)
  | closed was => exact l.objects.releaseAll_keeps _

end Ledger

end Zaytos.Kernel
