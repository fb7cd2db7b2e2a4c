import Zaytos.Kernel.Pipe

set_option autoImplicit false

/-! Runs of the pipe table: the ends that are held, and the bytes that have gone through. -/
namespace Zaytos.Kernel

structure PipeLog where
  readEnds : Nat
  writeEnds : Nat
  reserved : Bool
  accepted : List UInt8
  got : List UInt8

structure PipeSystem where
  pipes : Pipes
  logs : Nat → PipeLog

variable {log : PipeLog} {p : Pipe} {pipe : Nat} {s t : PipeSystem}

namespace PipeSystem

def init : PipeSystem := ⟨fun _ => .empty, fun _ => ⟨0, 0, false, [], []⟩⟩

inductive Action where
  | create (reserveReader : Bool)
  | claimReservedReader (pipe : Nat)
  | dropReservation (pipe : Nat)
  | writeFrom (pipe : Nat) (src : List UInt8)
  | readInto (pipe want : Nat)
  | closeReadEnd (pipe : Nat)
  | closeWriteEnd (pipe : Nat)

def update (s : PipeSystem) (pipes : Pipes) (pipe : Nat) (log : PipeLog) : PipeSystem :=
  ⟨pipes, Function.update s.logs pipe log⟩

def step (s : PipeSystem) : Action → Option PipeSystem
  | .create reserveReader =>
    match s.pipes.create reserveReader with
    | some (pipe, pipes) => some (s.update pipes pipe ⟨0, 1, reserveReader, [], []⟩)
    | none => some s
  | .claimReservedReader pipe =>
    match s.pipes.claimReservedReader pipe with
    | (true, pipes) => some (s.update pipes pipe
        { s.logs pipe with reserved := false, readEnds := (s.logs pipe).readEnds + 1 })
    | (false, pipes) => some { s with pipes }
  | .dropReservation pipe =>
    match s.pipes.dropReservation pipe with
    | (true, pipes, _) => some (s.update pipes pipe { s.logs pipe with reserved := false })
    | (false, pipes, _) => some { s with pipes }
  | .writeFrom pipe src =>
    match s.pipes.writeFrom pipe src with
    | (.bytes count, pipes, _) => some (s.update pipes pipe
        { s.logs pipe with accepted := (s.logs pipe).accepted ++ src.take count })
    | (_, pipes, _) => some { s with pipes }
  | .readInto pipe want =>
    match s.pipes.readInto pipe want with
    | (.bytes data, pipes, _) => some (s.update pipes pipe
        { s.logs pipe with got := (s.logs pipe).got ++ data })
    | (_, pipes, _) => some { s with pipes }
  | .closeReadEnd pipe =>
    if (s.logs pipe).readEnds = 0 then none
    else some (s.update (s.pipes.closeReadEnd pipe).1 pipe
      { s.logs pipe with readEnds := (s.logs pipe).readEnds - 1 })
  | .closeWriteEnd pipe =>
    if (s.logs pipe).writeEnds = 0 then none
    else some (s.update (s.pipes.closeWriteEnd pipe).1 pipe
      { s.logs pipe with writeEnds := (s.logs pipe).writeEnds - 1 })

structure Ok (index : Nat) (p : Pipe) (log : PipeLog) : Prop where
  readers : p.readers = log.readEnds
  writers : p.writers = log.writeEnds
  reserved : p.reservedReader = log.reserved
  oneReader : log.readEnds + (if log.reserved then 1 else 0) ≤ 1
  inUse : p.inUse = true ↔ 0 < log.readEnds ∨ 0 < log.writeEnds ∨ log.reserved = true
  before : log.got <+: log.accepted
  between : p.inUse = true → log.accepted = log.got ++ p.ring.contents
  unused : p.inUse = false → p.ring.contents = []
  inTable : maxPipes ≤ index → p.inUse = false

def Inv (s : PipeSystem) : Prop := ∀ index, Ok index (s.pipes index) (s.logs index)

theorem inv_init : init.Inv := fun _ =>
  ⟨rfl, rfl, rfl, Nat.zero_le 1, by simp [init, Pipe.empty], List.nil_prefix, fun used => by
    simp [init, Pipe.empty] at used, fun _ => rfl, fun _ => rfl⟩

theorem Inv.set (inv : s.Inv)
    (ok : Ok pipe p log) : (s.update (Function.update s.pipes pipe p) pipe log).Inv := by
  intro index
  unfold update
  by_cases here : index = pipe
  · subst here
    simpa only [Function.update_self] using ok
  · simpa only [Function.update_of_ne here] using inv index

theorem Ok.release {index : Nat} {p : Pipe} {log : PipeLog} (readers : p.readers = log.readEnds)
    (writers : p.writers = log.writeEnds) (reserved : p.reservedReader = log.reserved)
    (oneReader : log.readEnds + (if log.reserved then 1 else 0) ≤ 1) (inUse : p.inUse = true)
    (before : log.got <+: log.accepted) (between : log.accepted = log.got ++ p.ring.contents)
    (inTable : index < maxPipes) : Ok index p.releaseIfUnused log := by
  unfold Pipe.releaseIfUnused
  split
  · rename_i none
    rw [readers, writers, reserved] at none
    refine ⟨none.1.symm, none.2.1.symm, none.2.2.symm, oneReader, ?_, before, fun used => ?_,
      fun _ => rfl, fun _ => rfl⟩
    · simp [Pipe.empty, none]
    · cases used
  · rename_i some
    rw [readers, writers, reserved] at some
    refine ⟨readers, writers, reserved, oneReader, iff_of_true inUse ?_, before, fun _ => between,
      fun unused => ?_, fun large => absurd inTable (not_lt.mpr large)⟩
    · by_contra nobody
      simp only [not_or, not_lt, Nat.le_zero, Bool.not_eq_true] at nobody
      exact some nobody
    · rw [inUse] at unused
      cases unused

theorem create_keeps (inv : s.Inv) {reserveReader : Bool}
    (next : s.step (.create reserveReader) = some t) : t.Inv := by
  simp only [step, Pipes.create] at next
  cases found : (List.range maxPipes).find? fun index => !(s.pipes index).inUse with
  | none =>
    rw [found] at next
    exact Option.some.inj next ▸ inv
  | some pipe =>
    rw [found] at next
    obtain rfl := Option.some.inj next
    have small : pipe < maxPipes := List.mem_range.mp (List.mem_of_find?_eq_some found)
    refine inv.set ⟨rfl, rfl, rfl, ?_, by simp, List.nil_prefix, fun _ => rfl, fun used => ?_,
      fun large => absurd small (not_lt.mpr large)⟩
    · cases reserveReader <;> decide
    · cases used

theorem claim_keeps (inv : s.Inv) (next : s.step (.claimReservedReader pipe) = some t) : t.Inv := by
  have ok := inv pipe
  have one := ok.oneReader
  simp only [step, Pipes.claimReservedReader] at next
  split at next
  · rename_i pipes claimed
    split at claimed
    · rename_i ready
      obtain ⟨small, used, reserved⟩ := ready
      obtain rfl := (Prod.mk.inj claimed).2
      obtain rfl := Option.some.inj next
      rw [ok.reserved] at reserved
      rw [if_pos reserved] at one
      have none : (s.logs pipe).readEnds = 0 := by omega
      refine inv.set ⟨?_, ok.writers, rfl, ?_, iff_of_true used (.inl (Nat.succ_pos _)), ok.before,
        ok.between, ok.unused, ok.inTable⟩
      · show min 255 ((s.pipes pipe).readers + 1) = (s.logs pipe).readEnds + 1
        rw [ok.readers, none]
        rfl
      · show (s.logs pipe).readEnds + 1 + 0 ≤ 1
        omega
    · cases claimed
  · rename_i pipes claimed
    split at claimed
    · cases claimed
    · obtain rfl := (Prod.mk.inj claimed).2
      exact Option.some.inj next ▸ inv

theorem drop_keeps (inv : s.Inv) (next : s.step (.dropReservation pipe) = some t) : t.Inv := by
  have ok := inv pipe
  have one := ok.oneReader
  simp only [step, Pipes.dropReservation] at next
  split at next
  · rename_i pipes _ dropped
    split at dropped
    · rename_i ready
      obtain ⟨small, used, reserved⟩ := ready
      obtain rfl := (Prod.mk.inj (Prod.mk.inj dropped).2).1
      obtain rfl := Option.some.inj next
      refine inv.set (.release ok.readers ok.writers rfl ?_ used ok.before (ok.between used) small)
      show (s.logs pipe).readEnds + 0 ≤ 1
      omega
    · cases dropped
  · rename_i pipes _ dropped
    split at dropped
    · cases dropped
    · obtain rfl := (Prod.mk.inj (Prod.mk.inj dropped).2).1
      exact Option.some.inj next ▸ inv

theorem writeFrom_cases (pipes : Pipes) (pipe : Nat) (src : List UInt8) :
    (∃ outcome, pipes.writeFrom pipe src = (outcome, pipes, []) ∧ ∀ count, outcome ≠ .bytes count) ∨
    ((pipes pipe).readers ≠ 0 ∨ (pipes pipe).reservedReader = true) ∧ ∃ count ring wakes,
      pipes.writeFrom pipe src = (if count = 0 then .full else .bytes count,
        Function.update pipes pipe { pipes pipe with ring }, wakes) ∧
      ring.contents = (pipes pipe).ring.contents ++ src.take count := by
  unfold Pipes.writeFrom
  split
  · split
    · exact .inl ⟨_, rfl, by simp⟩
    · rename_i _ someone
      refine .inr ⟨?_, _, _, if ((pipes pipe).ring.put src).1 = 0 then [] else [.pipeReadable pipe],
        ?_, (pipes pipe).ring.contents_put src⟩
      · by_contra nobody
        simp only [not_or, ne_eq, not_not, Bool.not_eq_true] at nobody
        exact someone nobody
      · dsimp only
        split <;> rfl
  · exact .inl ⟨_, rfl, by simp⟩

theorem Ok.used {index : Nat} (ok : Ok index p log)
    (someone : p.readers ≠ 0 ∨ p.reservedReader = true) : p.inUse = true := by
  rw [ok.inUse]
  rw [ok.readers, ok.reserved] at someone
  rcases someone with reader | reserved
  · exact .inl (Nat.pos_of_ne_zero reader)
  · exact .inr (.inr reserved)

theorem write_keeps (inv : s.Inv) {src : List UInt8}
    (next : s.step (.writeFrom pipe src) = some t) : t.Inv := by
  have ok := inv pipe
  rw [step] at next
  rcases writeFrom_cases s.pipes pipe src with
    ⟨outcome, eq, noBytes⟩ | ⟨someone, count, ring, wakes, eq, contents⟩
  · rw [eq] at next
    cases outcome with
    | bytes count => exact absurd rfl (noBytes count)
    | full => exact Option.some.inj next ▸ inv
    | noReader => exact Option.some.inj next ▸ inv
  · have used := ok.used someone
    rw [eq] at next
    by_cases none : count = 0
    · rw [if_pos none] at next
      obtain rfl := Option.some.inj next
      rw [none, List.take_zero, List.append_nil] at contents
      have same := inv.set (p := { s.pipes pipe with ring })
        ⟨ok.readers, ok.writers, ok.reserved, ok.oneReader, ok.inUse, ok.before,
          fun used => by rw [contents]; exact ok.between used,
          fun unused => by rw [contents]; exact ok.unused unused, ok.inTable⟩
      unfold update at same
      rwa [Function.update_eq_self] at same
    · rw [if_neg none] at next
      obtain rfl := Option.some.inj next
      refine inv.set ⟨ok.readers, ok.writers, ok.reserved, ok.oneReader, ok.inUse,
        ok.before.trans (List.prefix_append _ _), fun _ => ?_, fun unused => ?_, ok.inTable⟩
      · show (s.logs pipe).accepted ++ _ = (s.logs pipe).got ++ ring.contents
        rw [ok.between used, contents, List.append_assoc]
      · exact Bool.noConfusion (used.symm.trans unused)

theorem readInto_cases (pipes : Pipes) (pipe want : Nat) :
    (∃ outcome, pipes.readInto pipe want = (outcome, pipes, []) ∧ (∀ data, outcome ≠ .bytes data) ∧
      (outcome = .eof → pipe < maxPipes →
        (pipes pipe).writers = 0 ∧ (pipes pipe).ring.contents = [])) ∨
    (pipes pipe).ring.contents ≠ [] ∧ ∃ ring wakes,
      pipes.readInto pipe want = (.bytes ((pipes pipe).ring.contents.take want),
        Function.update pipes pipe { pipes pipe with ring }, wakes) ∧
      ring.contents = (pipes pipe).ring.contents.drop want := by
  unfold Pipes.readInto
  split
  · split
    · rename_i small empty
      refine .inl ⟨_, rfl, ?_, fun eof _ => ⟨?_, ((pipes pipe).ring.isEmpty_iff).mp empty⟩⟩
      · intro data
        split <;> simp
      · split at eof
        · assumption
        · cases eof
    · rename_i small some
      refine .inr ⟨fun empty => some (((pipes pipe).ring.isEmpty_iff).mpr empty), _,
        [.pipeWritable pipe], ?_, (pipes pipe).ring.contents_take want⟩
      rw [← Ring.take_fst]
  · rename_i large
    exact .inl ⟨_, rfl, by simp, fun _ small => absurd small large⟩

theorem read_keeps (inv : s.Inv) {want : Nat}
    (next : s.step (.readInto pipe want) = some t) : t.Inv := by
  have ok := inv pipe
  rw [step] at next
  rcases readInto_cases s.pipes pipe want with ⟨outcome, eq, noBytes, -⟩ | ⟨some, ring, wakes, eq, left⟩
  · rw [eq] at next
    cases outcome with
    | bytes data => exact absurd rfl (noBytes data)
    | eof => exact Option.some.inj next ▸ inv
    | empty => exact Option.some.inj next ▸ inv
  · rw [eq] at next
    obtain rfl := Option.some.inj next
    have used : (s.pipes pipe).inUse = true := by
      by_contra unused
      exact some (ok.unused (Bool.eq_false_iff.mpr unused))
    have split := List.take_append_drop want (s.pipes pipe).ring.contents
    refine inv.set ⟨ok.readers, ok.writers, ok.reserved, ok.oneReader, ok.inUse, ?_, fun _ => ?_,
      fun unused => ?_, ok.inTable⟩
    · show (s.logs pipe).got ++ _ <+: (s.logs pipe).accepted
      rw [ok.between used]
      exact (List.prefix_append_right_inj _).mpr (List.take_prefix _ _)
    · show (s.logs pipe).accepted = (s.logs pipe).got ++ _ ++ ring.contents
      rw [ok.between used, left, List.append_assoc, split]
    · exact Bool.noConfusion (used.symm.trans unused)

theorem closeRead_keeps (inv : s.Inv) (next : s.step (.closeReadEnd pipe) = some t) : t.Inv := by
  have ok := inv pipe
  have one := ok.oneReader
  rw [step] at next
  split at next
  · cases next
  · rename_i held
    obtain rfl := Option.some.inj next
    have used : (s.pipes pipe).inUse = true := ok.used (.inl (by rwa [ok.readers]))
    have small : pipe < maxPipes := by
      by_contra large
      exact Bool.noConfusion (used.symm.trans (ok.inTable (not_lt.mp large)))
    unfold Pipes.closeReadEnd
    rw [if_pos ⟨small, used, by rwa [ok.readers]⟩]
    refine inv.set (.release ?_ ok.writers ok.reserved ?_ used ok.before (ok.between used) small)
    · show (s.pipes pipe).readers - 1 = (s.logs pipe).readEnds - 1
      rw [ok.readers]
    · show (s.logs pipe).readEnds - 1 + (if (s.logs pipe).reserved then 1 else 0) ≤ 1
      omega

theorem closeWrite_keeps (inv : s.Inv) (next : s.step (.closeWriteEnd pipe) = some t) : t.Inv := by
  have ok := inv pipe
  rw [step] at next
  split at next
  · cases next
  · rename_i held
    obtain rfl := Option.some.inj next
    have used : (s.pipes pipe).inUse = true := ok.inUse.mpr (.inr (.inl (Nat.pos_of_ne_zero held)))
    have small : pipe < maxPipes := by
      by_contra large
      exact Bool.noConfusion (used.symm.trans (ok.inTable (not_lt.mp large)))
    unfold Pipes.closeWriteEnd
    rw [if_pos ⟨small, used, by rwa [ok.writers]⟩]
    refine inv.set (.release ok.readers ?_ ok.reserved ok.oneReader used ok.before (ok.between used)
      small)
    show (s.pipes pipe).writers - 1 = (s.logs pipe).writeEnds - 1
    rw [ok.writers]

theorem inv_of_reachable (reach : Reachable step init s) : s.Inv := by
  refine reach.invariant inv_init fun s a t inv next => ?_
  cases a with
  | create reserveReader => exact create_keeps inv next
  | claimReservedReader pipe => exact claim_keeps inv next
  | dropReservation pipe => exact drop_keeps inv next
  | writeFrom pipe src => exact write_keeps inv next
  | readInto pipe want => exact read_keeps inv next
  | closeReadEnd pipe => exact closeRead_keeps inv next
  | closeWriteEnd pipe => exact closeWrite_keeps inv next

/-- In every state that calls lead to: what was read is a prefix of what was accepted, the
slot is in use exactly while someone holds an end or a reader is expected, the end of the
bytes is reported only when no writer is left and everything was read, a missing reader only
when there is none and none is expected, and a new pipe is empty. -/
theorem pipe_streams {s : PipeSystem} (reach : Reachable step init s) (pipe : Nat) :
    (s.logs pipe).got <+: (s.logs pipe).accepted ∧
    ((s.pipes pipe).inUse = true ↔ 0 < (s.logs pipe).readEnds ∨ 0 < (s.logs pipe).writeEnds ∨
      (s.logs pipe).reserved = true) ∧
    (∀ want, (s.pipes.readInto pipe want).1 = .eof → (s.logs pipe).writeEnds = 0 ∧
      ((s.pipes pipe).inUse = true → (s.logs pipe).got = (s.logs pipe).accepted)) ∧
    (∀ src, (s.pipes.writeFrom pipe src).1 = .noReader →
      (s.logs pipe).readEnds = 0 ∧ (s.logs pipe).reserved = false) ∧
    ∀ reserveReader pipes, s.pipes.create reserveReader = some (pipe, pipes) →
      (s.pipes pipe).inUse = false ∧ (pipes pipe).ring.contents = [] := by
  have inv := inv_of_reachable reach
  have ok := inv pipe
  refine ⟨ok.before, ok.inUse, fun want eof => ?_, fun src noReader => ?_,
    fun reserveReader pipes created => ?_⟩
  · have outside : maxPipes ≤ pipe → (s.logs pipe).writeEnds = 0 := fun large => by
      have unused := ok.inUse.not.mp (by simp [ok.inTable large])
      omega
    rcases readInto_cases s.pipes pipe want with ⟨outcome, eq, -, empty⟩ | ⟨-, ring, wakes, eq, -⟩
    · rw [eq] at eof
      by_cases small : pipe < maxPipes
      · obtain ⟨writers, contents⟩ := empty eof small
        refine ⟨by rw [← ok.writers, writers], fun used => ?_⟩
        rw [ok.between used, contents, List.append_nil]
      · refine ⟨outside (not_lt.mp small), fun used => ?_⟩
        exact Bool.noConfusion (used.symm.trans (ok.inTable (not_lt.mp small)))
    · rw [eq] at eof
      cases eof
  · by_cases small : pipe < maxPipes
    · unfold Pipes.writeFrom at noReader
      rw [if_pos small] at noReader
      split at noReader
      · rename_i nobody
        rw [ok.readers, ok.reserved] at nobody
        exact nobody
      · dsimp only at noReader
        split at noReader <;> cases noReader
    · have unused := ok.inUse.not.mp (by simp [ok.inTable (not_lt.mp small)])
      simp only [not_or, not_lt, Nat.le_zero, Bool.not_eq_true] at unused
      exact ⟨unused.1, unused.2.2⟩
  · obtain ⟨index, found, same⟩ := Option.map_eq_some_iff.mp created
    obtain ⟨rfl, rfl⟩ := Prod.mk.inj same
    have free := List.find?_some found
    refine ⟨by simpa using free, ?_⟩
    rw [Function.update_self]
    rfl

theorem pipe_streams_two_bytes : ∃ s, Reachable step init s ∧ (s.logs 0).accepted = [7, 8] ∧
    (s.logs 0).got <+: (s.logs 0).accepted := by
  have bytes : ((runSteps step [.create true, .writeFrom 0 [7, 8], .claimReservedReader 0,
      .readInto 0 1] init).map fun s => (s.logs 0).accepted) = some [7, 8] := by decide
  obtain ⟨s, run, accepted⟩ := Option.map_eq_some_iff.mp bytes
  have reach := Reachable.refl.of_runSteps _ run
  exact ⟨s, reach, accepted, (pipe_streams reach 0).1⟩

end PipeSystem

end Zaytos.Kernel
