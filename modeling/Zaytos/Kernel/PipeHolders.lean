import Zaytos.Kernel.Coherence

set_option autoImplicit false

/-! The counts of a pipe are those of the descriptors that name it, wherever they are kept. -/
namespace Zaytos.Kernel

theorem pipe_unique {pipe other : Nat} (small : pipe < maxPipes) (isSmall : other < maxPipes) :
    other = pipe := by
  unfold maxPipes at small isSmall
  omega

namespace Pipe

structure Held (p : Pipe) (readers writers reserved : Nat) : Prop where
  isReaders : p.readers = readers
  isWriters : p.writers = writers
  isReserved : (if p.reservedReader then 1 else 0) = reserved
  inUse : p.inUse = true ↔ 0 < readers + writers + reserved
  first : 0 < reserved → readers = 0

variable {p : Pipe} {readers writers reserved : Nat}

theorem held_empty : Pipe.empty.Held 0 0 0 :=
  ⟨rfl, rfl, rfl, ⟨nofun, nofun⟩, nofun⟩

theorem Held.free (held : p.Held readers writers reserved) (free : p.inUse = false) :
    readers = 0 ∧ writers = 0 ∧ reserved = 0 := by
  have none : ¬ 0 < readers + writers + reserved := fun some => by
    rw [held.inUse.mpr some] at free
    cases free
  omega

theorem held_releaseIfUnused (counts : p.readers = readers ∧ p.writers = writers ∧
    (if p.reservedReader then 1 else 0) = reserved) (inUse : p.inUse = true)
    (first : 0 < reserved → readers = 0) : p.releaseIfUnused.Held readers writers reserved := by
  obtain ⟨isReaders, isWriters, isReserved⟩ := counts
  unfold releaseIfUnused
  split
  · rename_i unused
    obtain ⟨noReaders, noWriters, notReserved⟩ := unused
    rw [notReserved] at isReserved
    obtain rfl := noReaders.symm.trans isReaders
    obtain rfl := noWriters.symm.trans isWriters
    obtain rfl : 0 = reserved := isReserved
    exact held_empty
  · rename_i used
    refine ⟨isReaders, isWriters, isReserved, ⟨fun _ => ?_, fun _ => inUse⟩, first⟩
    by_contra none
    refine used ⟨by omega, by omega, ?_⟩
    cases isReserved' : p.reservedReader with
    | false => rfl
    | true =>
      rw [isReserved', if_pos rfl] at isReserved
      omega

end Pipe

namespace Pipes

variable {pipes pipes' : Pipes} {pipe : Nat} {readers writers reserved : Nat}

theorem closeReadEnd_held (small : pipe < maxPipes)
    (held : (pipes pipe).Held (readers + 1) writers reserved) :
    ((pipes.closeReadEnd pipe).1 pipe).Held readers writers reserved := by
  have inUse : (pipes pipe).inUse = true := held.inUse.mpr (by omega)
  have some : (pipes pipe).readers ≠ 0 := by
    rw [held.isReaders]
    exact Nat.succ_ne_zero _
  unfold closeReadEnd
  rw [if_pos ⟨small, inUse, some⟩]
  dsimp only
  rw [Function.update_self]
  refine Pipe.held_releaseIfUnused ⟨?_, held.isWriters, held.isReserved⟩ inUse fun isReserved => ?_
  · show (pipes pipe).readers - 1 = readers
    rw [held.isReaders]
    rfl
  · exact absurd (held.first isReserved) (Nat.succ_ne_zero _)

theorem closeWriteEnd_held (small : pipe < maxPipes)
    (held : (pipes pipe).Held readers (writers + 1) reserved) :
    ((pipes.closeWriteEnd pipe).1 pipe).Held readers writers reserved := by
  have inUse : (pipes pipe).inUse = true := held.inUse.mpr (by omega)
  have some : (pipes pipe).writers ≠ 0 := by
    rw [held.isWriters]
    exact Nat.succ_ne_zero _
  unfold closeWriteEnd
  rw [if_pos ⟨small, inUse, some⟩]
  dsimp only
  rw [Function.update_self]
  refine Pipe.held_releaseIfUnused ⟨held.isReaders, ?_, held.isReserved⟩ inUse held.first
  show (pipes pipe).writers - 1 = writers
  rw [held.isWriters]
  rfl

theorem dropReservation_held (small : pipe < maxPipes)
    (held : (pipes pipe).Held readers writers (reserved + 1)) :
    ((pipes.dropReservation pipe).2.1 pipe).Held readers writers reserved := by
  have inUse : (pipes pipe).inUse = true := held.inUse.mpr (by omega)
  have isReserved : (pipes pipe).reservedReader = true := by
    by_contra notReserved
    have count := held.isReserved
    rw [if_neg notReserved] at count
    omega
  have one := held.isReserved
  rw [if_pos isReserved] at one
  unfold dropReservation
  rw [if_pos ⟨small, inUse, isReserved⟩]
  dsimp only
  rw [Function.update_self]
  refine Pipe.held_releaseIfUnused ⟨held.isReaders, held.isWriters, ?_⟩ inUse fun some => ?_
  · show 0 = reserved
    omega
  · omega

theorem claimReservedReader_held (small : pipe < maxPipes)
    (held : (pipes pipe).Held readers writers (reserved + 1)) :
    (pipes.claimReservedReader pipe).1 = true ∧
    ((pipes.claimReservedReader pipe).2 pipe).Held (readers + 1) writers reserved := by
  have inUse : (pipes pipe).inUse = true := held.inUse.mpr (by omega)
  have isReserved : (pipes pipe).reservedReader = true := by
    by_contra notReserved
    have count := held.isReserved
    rw [if_neg notReserved] at count
    omega
  have one := held.isReserved
  rw [if_pos isReserved] at one
  have none : readers = 0 := held.first (Nat.succ_pos _)
  unfold claimReservedReader
  rw [if_pos ⟨small, inUse, isReserved⟩]
  dsimp only
  rw [Function.update_self]
  refine ⟨rfl, ?_, held.isWriters, ?_, ⟨fun _ => by omega, fun _ => inUse⟩, fun some => by omega⟩
  · show min 255 ((pipes pipe).readers + 1) = readers + 1
    rw [held.isReaders, none]
    rfl
  · show 0 = reserved
    omega

theorem readInto_held (pipe want : Nat) {other : Nat}
    (held : (pipes other).Held readers writers reserved) :
    ((pipes.readInto pipe want).2.1 other).Held readers writers reserved := by
  unfold readInto
  split
  · split
    · exact held
    · dsimp only
      by_cases same : other = pipe
      · subst same
        rw [Function.update_self]
        exact ⟨held.isReaders, held.isWriters, held.isReserved, held.inUse, held.first⟩
      · rw [Function.update_of_ne same]
        exact held
  · exact held

theorem writeFrom_held (pipe : Nat) (src : List UInt8) {other : Nat}
    (held : (pipes other).Held readers writers reserved) :
    ((pipes.writeFrom pipe src).2.1 other).Held readers writers reserved := by
  have put : (Function.update pipes pipe { pipes pipe with ring := ((pipes pipe).ring.put src).2 }
      other).Held readers writers reserved := by
    by_cases same : other = pipe
    · subst same
      rw [Function.update_self]
      exact ⟨held.isReaders, held.isWriters, held.isReserved, held.inUse, held.first⟩
    · rw [Function.update_of_ne same]
      exact held
  unfold writeFrom
  split
  · split
    · exact held
    · dsimp only
      split
      · exact put
      · exact put
  · exact held

theorem create_ok {reserve : Bool} (made : pipes.create reserve = some (pipe, pipes')) :
    pipe < maxPipes ∧ (pipes pipe).inUse = false ∧ pipes' = Function.update pipes pipe
      { Pipe.empty with inUse := true, writers := 1, reservedReader := reserve } := by
  obtain ⟨index, found, eq⟩ := Option.map_eq_some_iff.mp made
  obtain ⟨rfl, rfl⟩ := Prod.mk.inj eq
  have free := List.find?_some found
  exact ⟨List.mem_range.mp (List.mem_of_find?_eq_some found), by simpa using free, rfl⟩

end Pipes

namespace Ledger

structure PipesHeld (l : Ledger) : Prop where
  held : ∀ pipe, pipe < maxPipes → (l.objects.pipes pipe).Held (l.held.count (.pipeRead pipe))
    (l.held.count (.pipeWrite pipe)) (l.reservations.count pipe)
  readEnd : ∀ pipe, .pipeRead pipe ∈ l.held → pipe < maxPipes
  writeEnd : ∀ pipe, .pipeWrite pipe ∈ l.held → pipe < maxPipes
  reserved : ∀ pipe ∈ l.reservations, pipe < maxPipes

variable {l m : Ledger}

theorem PipesHeld.of_same (pipesHeld : l.PipesHeld)
    (held : ∀ file : File, file.pipeReadEnd ≠ none ∨ file.pipeWriteEnd ≠ none →
      m.held.count file = l.held.count file)
    (reservations : m.reservations = l.reservations) (pipes : m.objects.pipes = l.objects.pipes) :
    m.PipesHeld := by
  have read : ∀ pipe, m.held.count (.pipeRead pipe) = l.held.count (.pipeRead pipe) :=
    fun pipe => held _ (.inl nofun)
  have write : ∀ pipe, m.held.count (.pipeWrite pipe) = l.held.count (.pipeWrite pipe) :=
    fun pipe => held _ (.inr nofun)
  refine ⟨fun pipe small => ?_, fun pipe mem => ?_, fun pipe mem => ?_, fun pipe mem => ?_⟩
  · rw [read, write, reservations, pipes]
    exact pipesHeld.held pipe small
  · rw [← Multiset.count_pos, read, Multiset.count_pos] at mem
    exact pipesHeld.readEnd pipe mem
  · rw [← Multiset.count_pos, write, Multiset.count_pos] at mem
    exact pipesHeld.writeEnd pipe mem
  · exact pipesHeld.reserved pipe (reservations ▸ mem)

theorem PipesHeld.of_cons (pipesHeld : l.PipesHeld) {file : File} (held : m.held = file ::ₘ l.held)
    (other : file.pipeReadEnd = none ∧ file.pipeWriteEnd = none)
    (reservations : m.reservations = l.reservations) (pipes : m.objects.pipes = l.objects.pipes) :
    m.PipesHeld := by
  refine pipesHeld.of_same (fun end' isEnd => ?_) reservations pipes
  rw [held, Multiset.count_cons_of_ne]
  rintro rfl
  rcases isEnd with isEnd | isEnd
  · exact isEnd other.1
  · exact isEnd other.2

theorem PipesHeld.release (pipesHeld : l.PipesHeld) {held : Multiset File} {file : File}
    (was : l.held = file ::ₘ held) :
    { l with held, objects := (l.objects.releaseEnd file).1 }.PipesHeld := by
  have other : file.pipeReadEnd = none ∧ file.pipeWriteEnd = none →
      (l.objects.releaseEnd file).1.pipes = l.objects.pipes →
      { l with held, objects := (l.objects.releaseEnd file).1 }.PipesHeld := by
    intro none pipes
    refine pipesHeld.of_same (fun end' isEnd => ?_) rfl pipes
    rw [was, Multiset.count_cons_of_ne]
    rintro rfl
    rcases isEnd with isEnd | isEnd
    · exact isEnd none.1
    · exact isEnd none.2
  have fewer : ∀ file' ∈ held, file' ∈ l.held := fun file' mem => was ▸ Multiset.mem_cons_of_mem mem
  cases file with
  | pipeRead pipe =>
    have small := pipesHeld.readEnd pipe (was ▸ Multiset.mem_cons_self _ _)
    refine ⟨fun same isSmall => ?_, fun pipe mem => pipesHeld.readEnd pipe (fewer _ mem),
      fun pipe mem => pipesHeld.writeEnd pipe (fewer _ mem), pipesHeld.reserved⟩
    obtain rfl := pipe_unique small isSmall
    have before := pipesHeld.held same small
    rw [was, Multiset.count_cons_self, Multiset.count_cons_of_ne (by nofun)] at before
    exact Pipes.closeReadEnd_held small before
  | pipeWrite pipe =>
    have small := pipesHeld.writeEnd pipe (was ▸ Multiset.mem_cons_self _ _)
    refine ⟨fun same isSmall => ?_, fun pipe mem => pipesHeld.readEnd pipe (fewer _ mem),
      fun pipe mem => pipesHeld.writeEnd pipe (fewer _ mem), pipesHeld.reserved⟩
    obtain rfl := pipe_unique small isSmall
    have before := pipesHeld.held same small
    rw [was, Multiset.count_cons_self, Multiset.count_cons_of_ne (by nofun)] at before
    exact Pipes.closeWriteEnd_held small before
  | socket state => cases state <;> exact other ⟨rfl, rfl⟩ rfl
  | _ => exact other ⟨rfl, rfl⟩ rfl

theorem PipesHeld.releaseAll (pipesHeld : l.PipesHeld) {held : Multiset File} {files : List File}
    (was : l.held = files + held) :
    { l with held, objects := (l.objects.releaseAll files).1 }.PipesHeld := by
  induction files generalizing l with
  | nil =>
    obtain rfl : l.held = held := was.trans (zero_add held)
    exact pipesHeld
  | cons file rest ih =>
    have first : l.held = file ::ₘ (rest + held) := was.trans (Multiset.cons_add file rest held)
    exact ih (pipesHeld.release first) rfl

theorem PipesHeld.reservations_of_free (pipesHeld : l.PipesHeld) {pipe : Nat}
    (small : pipe < maxPipes) (free : (l.objects.pipes pipe).inUse = false) : l.reservations = 0 := by
  refine Multiset.eq_zero_of_forall_notMem fun other mem => ?_
  obtain rfl := pipe_unique small (pipesHeld.reserved other mem)
  obtain ⟨-, -, none⟩ := (pipesHeld.held other small).free free
  exact absurd (Multiset.count_pos.mpr mem) (by omega)

theorem PipesHeld.move (pipesHeld : l.PipesHeld) {wakes : List Wait} (move : l.Move wakes m) :
    m.PipesHeld := by
  cases move with
  | plain same =>
    refine pipesHeld.of_same (fun file isEnd => same file ?_) rfl rfl
    cases file with
    | socket state => rcases isEnd with isEnd | isEnd <;> exact absurd rfl isEnd
    | pipeRead pipe => rfl
    | pipeWrite pipe => rfl
    | _ => rcases isEnd with isEnd | isEnd <;> exact absurd rfl isEnd
  | release other was => exact pipesHeld.release was
  | pipeRead pipe want =>
    exact ⟨fun other small => Pipes.readInto_held pipe want (pipesHeld.held other small),
      pipesHeld.readEnd, pipesHeld.writeEnd, pipesHeld.reserved⟩
  | pipeWrite pipe src =>
    exact ⟨fun other small => Pipes.writeFrom_held pipe src (pipesHeld.held other small),
      pipesHeld.readEnd, pipesHeld.writeEnd, pipesHeld.reserved⟩
  | @pipeCreate pipe pipes old reservations made was =>
    obtain ⟨small, free, rfl⟩ := Pipes.create_ok made
    obtain ⟨noReaders, noWriters, -⟩ := (pipesHeld.held pipe small).free free
    have none := pipesHeld.reservations_of_free small free
    rw [was] at none
    obtain rfl := Multiset.le_zero.mp ((Multiset.le_add_left reservations old).trans_eq none)
    refine ⟨fun other isSmall => ?_, fun other mem => ?_, fun other mem => ?_, fun other mem => ?_⟩
    · obtain rfl := pipe_unique small isSmall
      show (Function.update l.objects.pipes other _ other).Held
        (Multiset.count _ (_ ::ₘ l.held)) (Multiset.count _ (_ ::ₘ l.held)) (Multiset.count _ (_ ::ₘ 0))
      rw [Function.update_self, Multiset.count_cons_of_ne (by nofun), Multiset.count_cons_self,
        Multiset.count_cons_self, noReaders, noWriters, Multiset.count_zero]
      exact ⟨rfl, rfl, rfl, ⟨fun _ => by omega, fun _ => rfl⟩, fun _ => rfl⟩
    · rcases Multiset.mem_cons.mp mem with same | mem
      · cases same
      · exact pipesHeld.readEnd other mem
    · rcases Multiset.mem_cons.mp mem with same | mem
      · exact File.pipeWrite.inj same ▸ small
      · exact pipesHeld.writeEnd other mem
    · obtain rfl := Multiset.mem_singleton.mp mem
      exact small
  | @dropReservation pipe reservations was =>
    have small := pipesHeld.reserved pipe (was ▸ Multiset.mem_cons_self _ _)
    refine ⟨fun other isSmall => ?_, pipesHeld.readEnd, pipesHeld.writeEnd,
      fun other mem => pipesHeld.reserved other (was ▸ Multiset.mem_cons_of_mem mem)⟩
    obtain rfl := pipe_unique small isSmall
    have before := pipesHeld.held other small
    rw [was, Multiset.count_cons_self] at before
    exact Pipes.dropReservation_held small before
  | @claim pipe pipes reservations was claimed =>
    have small := pipesHeld.reserved pipe (was ▸ Multiset.mem_cons_self _ _)
    refine ⟨fun other isSmall => ?_, fun other mem => ?_, fun other mem => ?_,
      fun other mem => pipesHeld.reserved other (was ▸ Multiset.mem_cons_of_mem mem)⟩
    · obtain rfl := pipe_unique small isSmall
      have before := pipesHeld.held other small
      rw [was, Multiset.count_cons_self] at before
      have after := (Pipes.claimReservedReader_held small before).2
      rw [claimed] at after
      show (pipes other).Held (Multiset.count _ (_ ::ₘ l.held)) (Multiset.count _ (_ ::ₘ l.held)) _
      rw [Multiset.count_cons_self, Multiset.count_cons_of_ne (by nofun)]
      exact after
    · rcases Multiset.mem_cons.mp mem with same | mem
      · exact File.pipeRead.inj same ▸ small
      · exact pipesHeld.readEnd other mem
    · rcases Multiset.mem_cons.mp mem with same | mem
      · cases same
      · exact pipesHeld.writeEnd other mem
  | @noClaim pipe reservations was refused =>
    have small := pipesHeld.reserved pipe (was ▸ Multiset.mem_cons_self _ _)
    have before := pipesHeld.held pipe small
    rw [was, Multiset.count_cons_self] at before
    have claimed := (Pipes.claimReservedReader_held small before).1
    rw [refused] at claimed
    cases claimed
  | listen listener => exact pipesHeld.of_same (fun _ _ => rfl) rfl rfl
  | socketRead conn side want => exact pipesHeld.of_same (fun _ _ => rfl) rfl rfl
  | socketWrite conn side src => exact pipesHeld.of_same (fun _ _ => rfl) rfl rfl
  | takeFd taken => exact pipesHeld.of_cons rfl ⟨rfl, rfl⟩ rfl rfl
  | shmCreate made => exact pipesHeld.of_cons rfl ⟨rfl, rfl⟩ rfl rfl
  | setSize shm size => exact pipesHeld.of_same (fun _ _ => rfl) rfl rfl
  | frames allocator => exact pipesHeld.of_same (fun _ _ => rfl) rfl rfl

theorem PipesHeld.moves (pipesHeld : l.PipesHeld) {wakes : List Wait} (moves : l.Moves wakes m) :
    m.PipesHeld :=
  moves.keeps (fun _ _ _ move held => held.move move) pipesHeld

theorem PipesHeld.change (pipesHeld : l.PipesHeld) {event : Event} {wakes : List Wait}
    (change : Change event l wakes m) : m.PipesHeld := by
  cases change with
  | quiet moves => exact pipesHeld.moves moves
  | bound _ rest =>
    refine PipesHeld.move ?_ rest
    exact pipesHeld.of_cons rfl ⟨rfl, rfl⟩ rfl rfl
  | connected _ _ rest =>
    refine PipesHeld.move ?_ rest
    exact pipesHeld.of_cons rfl ⟨rfl, rfl⟩ rfl rfl
  | accepted _ => exact pipesHeld.of_cons rfl ⟨rfl, rfl⟩ rfl rfl
  | refused _ => exact pipesHeld.of_same (fun _ _ => rfl) rfl rfl
  | sent mem queued rest =>
    refine PipesHeld.moves ?_ rest
    exact pipesHeld.of_same (fun _ _ => rfl) rfl rfl
  | closed was => exact pipesHeld.releaseAll was

end Ledger

namespace System

variable {k : System} {allocator : FrameAllocator} {root : Bytes} {us : Bool}

def inTables (k : System) (file : File) : Nat :=
  ∑ slot, ((k.processes slot).map fun p => p.files.files.count file).sum

/-- Who can read from a pipe: the descriptors, and the ends that wait for the next program. -/
def pipeReaders (k : System) (pipe : Nat) : Nat :=
  k.inTables (.pipeRead pipe) + ∑ slot, if (k.inherited slot).stdin = some pipe then 1 else 0

/-- Who can write into a pipe: the descriptors, and the ends that wait for the next program or
are in a request. -/
def pipeWriters (k : System) (pipe : Nat) : Nat :=
  k.inTables (.pipeWrite pipe) + (∑ slot, if (k.inherited slot).stdout = some pipe then 1 else 0) +
    if k.detached = .requested ∧ k.request = some (some pipe) then 1 else 0

theorem count_heldByTask (processes : List Process) (file : File) :
    (heldByTask processes).count file = (processes.map fun p => p.files.files.count file).sum := by
  induction processes with
  | nil => rfl
  | cons p rest ih =>
    rw [heldByTask_cons, Multiset.count_add, ih, List.map_cons, List.sum_cons, Multiset.coe_count]

theorem count_toList (pipe : Option Nat) (file : File) (f : Nat → File) :
    (((pipe.map f).toList : List File) : Multiset File).count file =
      if pipe.map f = some file then 1 else 0 := by
  cases pipe with
  | none => rfl
  | some pipe =>
    show Multiset.count file {f pipe} = _
    rw [Multiset.count_singleton]
    simp only [Option.map_some, Option.some.injEq, eq_comm]

theorem count_pipeRead (k : System) (pipe : Nat) :
    k.held.count (.pipeRead pipe) = k.pipeReaders pipe := by
  have ends : ∀ ends : InheritedEnds, (heldByEnds ends).count (.pipeRead pipe) =
      if ends.stdin = some pipe then 1 else 0 := by
    rintro ⟨stdin, stdout⟩
    rw [heldByEnds, Multiset.count_add, count_toList, count_toList]
    cases stdin <;> cases stdout <;> simp
  unfold held pipeReaders inTables
  rw [Multiset.count_add, Multiset.count_add, Multiset.count_sum', Multiset.count_sum', count_toList]
  simp only [count_heldByTask, ends]
  cases k.requestedEnd <;> simp

theorem count_pipeWrite (k : System) (pipe : Nat) :
    k.held.count (.pipeWrite pipe) = k.pipeWriters pipe := by
  have ends : ∀ ends : InheritedEnds, (heldByEnds ends).count (.pipeWrite pipe) =
      if ends.stdout = some pipe then 1 else 0 := by
    rintro ⟨stdin, stdout⟩
    rw [heldByEnds, Multiset.count_add, count_toList, count_toList]
    cases stdin <;> cases stdout <;> simp
  have requested : (if k.requestedEnd.map File.pipeWrite = some (.pipeWrite pipe) then 1 else 0) =
      if k.detached = .requested ∧ k.request = some (some pipe) then 1 else 0 := by
    unfold requestedEnd
    split
    · rename_i isRequested
      rcases k.request with _ | _ | other <;> simp [isRequested]
    · rename_i other
      simp [other]
  unfold held pipeWriters inTables
  rw [Multiset.count_add, Multiset.count_add, Multiset.count_sum', Multiset.count_sum', count_toList]
  simp only [count_heldByTask, ends, requested]

theorem mem_reservations (k : System) (pipe : Nat) :
    pipe ∈ k.ledger.reservations ↔ ∃ slot, k.pendingStdin slot = some pipe := by
  show pipe ∈ ∑ slot, ((k.pendingStdin slot).toList : Multiset Nat) ↔ _
  rw [Multiset.mem_sum]
  constructor
  · rintro ⟨slot, -, mem⟩
    exact ⟨slot, Option.mem_toList.mp (Multiset.mem_coe.mp mem)⟩
  · rintro ⟨slot, some⟩
    exact ⟨slot, Finset.mem_univ _, Multiset.mem_coe.mpr (Option.mem_toList.mpr some)⟩

theorem pipesHeld_init (allocator : FrameAllocator) (root : Bytes) (us : Bool) :
    (init allocator root us).ledger.PipesHeld := by
  rw [ledger_init]
  exact ⟨fun pipe _ => Pipe.held_empty, fun pipe mem => absurd mem (Multiset.notMem_zero _),
    fun pipe mem => absurd mem (Multiset.notMem_zero _),
    fun pipe mem => absurd mem (Multiset.notMem_zero _)⟩

theorem pipesHeld_of_reachable (reach : Reachable step (init allocator root us) k) :
    k.ledger.PipesHeld :=
  ledger_of_reachable (pipesHeld_init allocator root us) (fun change held => held.change change) reach

/-- A pipeline has run, and whoever started it is back in its program and has no end of it. -/
structure PipelineOver (k : System) : Prop where
  child : k.Stopped
  shell : k.doing 0 = some .user
  tables : ∀ p ∈ k.processes 0, ∀ file ∈ p.files.files,
    file.pipeReadEnd = none ∧ file.pipeWriteEnd = none
  waited : k.pendingStdin 0 = none

theorem waitChildFromRing3_pending (k : System) (slot : Slot) (handle : Nat) :
    (k.waitChildFromRing3 slot handle).2.pendingStdin slot = none := by
  have same : ∀ k : System, (k.childLoop handle).2.pendingStdin = k.pendingStdin := by
    intro k
    unfold childLoop
    split
    · split <;> rfl
    · rfl
  unfold waitChildFromRing3
  split
  · rename_i none
    rw [same]
    exact none
  · dsimp only
    rw [same]
    exact Function.update_self _ _ _

theorem PipelineOver.noHolders (ended : k.PipelineOver) (coherent : k.Coherent)
    (first : k.pendingStdin detachedSlot = none) (pipe : Nat) :
    k.pipeReaders pipe = 0 ∧ k.pipeWriters pipe = 0 ∧ pipe ∉ k.ledger.reservations := by
  have idle : k.detached = .idle := coherent.stopped ended.child
  have empty : k.processes detachedSlot = [] := coherent.empty (by rw [idle]; decide)
  have slots : ∀ slot : Slot, slot = 0 ∨ slot = detachedSlot := fun slot => by
    by_cases isFirst : slot = 0
    · exact .inl isFirst
    · exact .inr (Fin.eq_one_of_ne_zero slot isFirst)
  have noStdin : ∀ slot, (k.inherited slot).stdin = none := by
    intro slot
    rcases slots slot with rfl | rfl
    · exact coherent.stdin_none ended.shell
    · by_contra some
      have nowhere : k.doing detachedSlot = none := by
        rw [doing, empty]
        rfl
      rcases coherent.stdin _ some with spawning | returning
      · cases nowhere.symm.trans spawning
      · cases nowhere.symm.trans returning
  have noStdout : ∀ slot, (k.inherited slot).stdout = none := by
    intro slot
    by_contra some
    rcases (coherent.stdout slot some).2 with spawning | returning
    · cases idle.symm.trans spawning
    · cases idle.symm.trans returning
  have noTables : ∀ file : File, file.pipeReadEnd ≠ none ∨ file.pipeWriteEnd ≠ none →
      k.inTables file = 0 := by
    intro file isEnd
    refine Finset.sum_eq_zero fun slot _ => List.sum_eq_zero fun count mem => ?_
    obtain ⟨p, inSlot, rfl⟩ := List.mem_map.mp mem
    rcases slots slot with rfl | rfl
    · refine List.count_eq_zero.mpr fun inTable => ?_
      obtain ⟨noRead, noWrite⟩ := ended.tables p inSlot file inTable
      rcases isEnd with isEnd | isEnd
      · exact isEnd noRead
      · exact isEnd noWrite
    · rw [empty] at inSlot
      cases inSlot
  refine ⟨?_, ?_, fun mem => ?_⟩
  · unfold pipeReaders
    rw [noTables (.pipeRead pipe) (.inl fun same => by cases same)]
    simp only [noStdin, reduceCtorEq, if_false, Finset.sum_const_zero, add_zero]
  · unfold pipeWriters
    rw [noTables (.pipeWrite pipe) (.inr fun same => by cases same), if_neg fun request => by rw [idle] at request; cases request.1]
    simp only [noStdout, reduceCtorEq, if_false, Finset.sum_const_zero, add_zero]
  · obtain ⟨slot, some⟩ := (k.mem_reservations pipe).mp mem
    rcases slots slot with rfl | rfl
    · cases ended.waited.symm.trans some
    · cases first.symm.trans some

/-- The holders of a pipe are counted exactly, wherever its ends are kept, and once a pipeline is
over the pipe is free. -/
theorem pipe_holders (reach : Reachable step (init allocator root us) k) :
    (∀ pipe, pipe < maxPipes →
      (k.objects.pipes pipe).writers = k.pipeWriters pipe ∧
      (k.objects.pipes pipe).readers = k.pipeReaders pipe ∧
      ((k.objects.pipes pipe).reservedReader = true ↔ ∃ slot, k.pendingStdin slot = some pipe)) ∧
    (∀ slot handle, (k.waitChildFromRing3 slot handle).2.pendingStdin slot = none) ∧
    (k.PipelineOver → ∀ pipe, pipe < maxPipes → (k.objects.pipes pipe).inUse = false) := by
  have pipesHeld := pipesHeld_of_reachable reach
  refine ⟨fun pipe small => ?_, k.waitChildFromRing3_pending, fun ended pipe small => ?_⟩
  · have held := pipesHeld.held pipe small
    refine ⟨held.isWriters.trans (k.count_pipeWrite pipe), held.isReaders.trans (k.count_pipeRead pipe),
      ?_⟩
    rw [← k.mem_reservations, ← Multiset.count_pos, ← held.isReserved]
    show (k.objects.pipes pipe).reservedReader = true ↔ 0 < if (k.objects.pipes pipe).reservedReader
      then 1 else 0
    cases (k.objects.pipes pipe).reservedReader <;> simp
  · have first : k.pendingStdin detachedSlot = none :=
      reach.invariant (P := fun k => k.pendingStdin detachedSlot = none) rfl
        fun _ _ _ none next => step_pending none next
    obtain ⟨noReaders, noWriters, notReserved⟩ :=
      ended.noHolders (coherent_of_reachable reach) first pipe
    have held := pipesHeld.held pipe small
    rw [show k.ledger.held = k.held from rfl, count_pipeRead, count_pipeWrite, noReaders, noWriters,
      Multiset.count_eq_zero.mpr notReserved] at held
    by_contra inUse
    exact absurd (held.inUse.mp (Bool.eq_true_of_not_eq_false inUse)) (lt_irrefl 0)

/-- Both programs of a pipeline run. -/
theorem pipe_holders_both_run : ∃ k, Reachable step (init ⟨4, [⟨1, 100⟩]⟩ ⟨0, fun _ => 0⟩ true) k ∧
    (k.objects.pipes 0).writers = 1 ∧ (k.objects.pipes 0).readers = 1 ∧
    k.pipeWriters 0 = 1 ∧ k.pipeReaders 0 = 1 := by
  have run : ((runSteps step [.load 0 (.runs [1024] 4194304), .call 0 (.spawnDetached 1 (.ok ())), .detachedBegins,
      .load 1 (.runs [1024] 4194304), .resume 0, .call 0 (.spawnWithPipedStdin (.ok ())), .load 0
        (.runs [1024] 4194304)]
      (init ⟨4, [⟨1, 100⟩]⟩ ⟨0, fun _ => 0⟩ true)).map fun k =>
        ((k.objects.pipes 0).writers, (k.objects.pipes 0).readers)) = some (1, 1) := by
    decide
  obtain ⟨k, run, eq⟩ := Option.map_eq_some_iff.mp run
  obtain ⟨writers, readers⟩ := Prod.mk.inj eq
  have reach := Reachable.refl.of_runSteps _ run
  obtain ⟨isWriters, isReaders, -⟩ := (pipe_holders reach).1 0 (by decide)
  exact ⟨k, reach, writers, readers, isWriters.symm.trans writers, isReaders.symm.trans readers⟩

end System

end Zaytos.Kernel
