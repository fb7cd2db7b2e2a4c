import Zaytos.Kernel.Coherence

set_option autoImplicit false

/-! Connections that are not in use hold nothing. -/
namespace Zaytos.Kernel

namespace Sockets

def Idle (s : Sockets) : Prop :=
  ∀ conn, (s.connections conn).inUse = false → s.connections conn = Connection.empty

variable {s : Sockets}

theorem bind_connections (s : Sockets) (name : List UInt8) :
    (s.bind name).2.connections = s.connections := by
  rcases s.bind_cases name with ⟨outcome, eq, -⟩ | ⟨listener, -, -, eq⟩
  · rw [eq]
  · rw [eq]
    rfl

theorem listen_connections (s : Sockets) (listener : Nat) :
    (s.listen listener).2.connections = s.connections := by
  rcases s.listen_cases listener with eq | ⟨-, -, eq⟩
  · rw [eq]
  · rw [eq]
    rfl

namespace Idle

theorem of_same {s' : Sockets} (idle : s.Idle) (same : s'.connections = s.connections) : s'.Idle := by
  intro conn free
  rw [same] at free ⊢
  exact idle conn free

theorem setConnection (idle : s.Idle) (conn : Nat) {c : Connection}
    (used : c.inUse = true ∨ c = Connection.empty) : (s.setConnection conn c).Idle := by
  intro other free
  rw [setConnection_apply] at free ⊢
  split
  · rename_i same
    rw [if_pos same] at free
    rcases used with used | empty
    · exact Bool.noConfusion (used.symm.trans free)
    · exact empty
  · rename_i ne
    rw [if_neg ne] at free
    exact idle other free

theorem readInto (idle : s.Idle) (conn : Nat) (side : Side) (want : Nat) :
    (s.readInto conn side want).2.1.Idle := by
  rcases s.readInto_cases conn side want with ⟨outcome, eq, -⟩ | ⟨-, used, ring, eq, -⟩
  · rw [eq]
    exact idle
  · rw [eq]
    exact idle.setConnection conn (.inl used)

theorem writeFrom (idle : s.Idle) (conn : Nat) (side : Side) (src : List UInt8) :
    (s.writeFrom conn side src).2.1.Idle := by
  rcases s.writeFrom_cases conn side src with ⟨outcome, eq, -⟩ | ⟨-, used, -, count, ring, eq, -⟩
  · rw [eq]
    exact idle
  · rw [eq]
    exact idle.setConnection conn (.inl used)

theorem closeEnd (idle : s.Idle) (conn : Nat) (side : Side) : (s.closeEnd conn side).1.Idle := by
  rcases s.closeEnd_cases conn side with ⟨eq, -⟩ | ⟨-, used, -, eq⟩
  · rw [eq]
    exact idle
  · rw [eq]
    refine idle.setConnection conn ?_
    unfold closed
    split
    · exact .inl used
    · exact .inr rfl

theorem closeServers (idle : s.Idle) (conns : List Nat) : (s.closeServers conns).1.Idle := by
  induction conns generalizing s with
  | nil => exact idle
  | cons conn rest ih => exact ih (idle.closeEnd conn .server)

theorem closeListener (idle : s.Idle) (listener : Nat) : (s.closeListener listener).1.Idle := by
  unfold Sockets.closeListener
  split
  · refine closeServers ?_ _
    exact idle.of_same rfl
  · exact idle

theorem connect (idle : s.Idle) (name : List UInt8) : (s.connect name).2.1.Idle := by
  rcases s.connect_cases name with ⟨outcome, eq, -⟩ | ⟨listener, conn, -, -, -, -, -, eq⟩
  · rw [eq]
    exact idle
  · rw [eq]
    exact idle.setConnection conn (.inl rfl)

theorem accept (idle : s.Idle) (listener : Nat) : (s.accept listener).2.Idle := by
  rcases s.accept_cases listener with ⟨outcome, eq, -⟩ | ⟨conn, -, -, -, pending, -, eq⟩
  · rw [eq]
    exact idle
  · rw [eq]
    simp only [isPending, Bool.and_eq_true] at pending
    exact idle.setConnection conn (.inl pending.1.1)

theorem queueFd (idle : s.Idle) (conn : Nat) (side : Side) (shm : Nat) :
    (s.queueFd conn side shm).2.1.Idle := by
  rcases s.queueFd_cases conn side shm with eq | ⟨-, used, -, eq⟩
  · rw [eq]
    exact idle
  · rw [eq]
    exact idle.setConnection conn (.inl used)

theorem takeFd (idle : s.Idle) (conn : Nat) (side : Side) : (s.takeFd conn side).2.Idle := by
  rcases s.takeFd_cases conn side with eq | ⟨-, used, shm, -, eq⟩
  · rw [eq]
    exact idle
  · rw [eq]
    exact idle.setConnection conn (.inl used)

end Idle

end Sockets

theorem Objects.releaseEnd_idle (o : Objects) (idle : o.sockets.Idle) (file : File) :
    (o.releaseEnd file).1.sockets.Idle := by
  cases file with
  | socket state =>
    cases state with
    | unbound => exact idle
    | listener listener => exact idle.closeListener listener
    | stream conn side => exact idle.closeEnd conn side
  | _ => exact idle

theorem Objects.releaseAll_idle {o : Objects} (idle : o.sockets.Idle) (files : List File) :
    (o.releaseAll files).1.sockets.Idle := by
  induction files generalizing o with
  | nil => exact idle
  | cons file rest ih => exact ih (o.releaseEnd_idle idle file)

namespace Ledger

variable {l m : Ledger}

theorem idle_move {wakes : List Wait} (move : l.Move wakes m) (idle : l.objects.sockets.Idle) :
    m.objects.sockets.Idle := by
  cases move with
  | @release held file other was => exact l.objects.releaseEnd_idle idle file
  | listen listener => exact idle.of_same (Sockets.listen_connections _ listener)
  | socketRead conn side want => exact idle.readInto conn side want
  | socketWrite conn side src => exact idle.writeFrom conn side src
  | takeFd taken => exact (congrArg (fun out => out.2.Idle) taken).mp (idle.takeFd _ _)
  | _ => exact idle

theorem idle_moves {wakes : List Wait} (moves : l.Moves wakes m) (idle : l.objects.sockets.Idle) :
    m.objects.sockets.Idle :=
  moves.keeps (P := fun l => l.objects.sockets.Idle) (fun _ _ _ move => idle_move move) idle

theorem idle_change {event : Event} {wakes : List Wait} (change : Change event l wakes m)
    (idle : l.objects.sockets.Idle) : m.objects.sockets.Idle := by
  cases change with
  | quiet moves => exact idle_moves moves idle
  | bound bound rest =>
    exact idle_move rest ((congrArg (fun out => out.2.Idle) bound).mp
      (idle.of_same (Sockets.bind_connections _ _)))
  | connected made target rest =>
    exact idle_move rest ((congrArg (fun out => out.2.1.Idle) made).mp (idle.connect _))
  | accepted taken => exact (congrArg (fun out => out.2.Idle) taken).mp (idle.accept _)
  | refused taken =>
    have accepts := (congrArg (fun out => out.2.Idle) taken).mp (idle.accept _)
    exact accepts.closeEnd _ .server
  | sent mem queued rest =>
    exact idle_moves rest ((congrArg (fun out => out.2.1.Idle) queued).mp (idle.queueFd _ _ _))
  | closed was => exact Objects.releaseAll_idle idle _

end Ledger

namespace System

variable {k : System} {allocator : FrameAllocator} {root : Bytes} {us : Bool}

theorem idle_of_reachable (reach : Reachable step (init allocator root us) k) :
    k.objects.sockets.Idle :=
  ledger_of_reachable (P := fun l => l.objects.sockets.Idle) (fun _ _ => rfl)
    (fun change => Ledger.idle_change change) reach

end System

end Zaytos.Kernel
