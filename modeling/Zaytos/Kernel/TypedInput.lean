import Zaytos.Kernel.Loops

set_option autoImplicit false

/-! Who takes what is typed. -/
namespace Zaytos.Kernel

def File.takesKeys : File → Bool
  | .terminal _ | .input => true
  | _ => false

namespace Input

structure Kept (s s' : Input) : Prop where
  codes : s.ring.codes <+: s'.ring.codes
  decoder : s'.decoder = s.decoder
  pending : s'.pending = s.pending

variable {s s' : Input}

theorem Kept.of_same (same : s' = s) : Kept s s' := same ▸ ⟨List.prefix_rfl, rfl, rfl⟩

theorem record_kept (s : Input) (code : UInt8) : Kept s (s.record code) := by
  refine ⟨?_, rfl, rfl⟩
  show s.ring.codes <+: (s.ring.push code).2.codes
  unfold ScancodeRing.push
  split
  · exact List.prefix_rfl
  · exact List.prefix_append _ _

theorem claimForeground_kept (s : Input) (slot : Nat) : Kept s (s.claimForeground slot).2 := by
  unfold claimForeground
  split
  · exact .of_same rfl
  split
  · exact .of_same rfl
  · exact ⟨List.prefix_rfl, rfl, rfl⟩

theorem claimForeground_codes (s : Input) (slot : Nat) :
    (s.claimForeground slot).2.ring = s.ring := by
  unfold claimForeground
  split
  · rfl
  split <;> rfl

end Input

namespace System

variable {k k' t : System} {slot : Slot} {a : Action} {loop : Loop} {fd count : Nat} {valid : Bool}
  {file : File}

section Reads

theorem sysRead_input (found : (k.files slot).get fd = .ok .input) :
    k.sysRead slot fd count valid = k.readInputEvents fd count valid := by
  unfold sysRead
  simp only [found]
  rfl

theorem sysRead_terminal (found : (k.files slot).get fd = .ok file) (reads : file.readsKeys = true)
    (other : file ≠ .input) : k.sysRead slot fd count valid = k.readTerminal fd count valid := by
  unfold sysRead
  simp only [found]
  cases file with
  | input => exact absurd rfl other
  | terminal kind => rfl
  | pipeWrite pipe => rfl
  | shm shm => rfl
  | _ => cases reads

theorem sysRead_background (found : (k.files slot).get fd = .ok file)
    (reads : file.readsKeys = true) (other : file ≠ .input) (background : k.input.foreground = false) :
    k.sysRead slot fd count valid = (.done (.error .ebadf), k) := by
  rw [sysRead_terminal found reads other]
  unfold readTerminal
  rw [if_pos background]

theorem sysRead_elsewhere (found : (k.files slot).get fd = .ok file)
    (other : file.readsKeys = false) (input : Input) :
    ({ k with input }.sysRead slot fd count valid).1 = (k.sysRead slot fd count valid).1 := by
  have files : { k with input }.files slot = k.files slot := rfl
  unfold sysRead
  rw [files]
  simp only [found]
  cases file with
  | regular inode offset writable =>
    show (readRegular _ _ _ _ _ _ _ _).1 = (readRegular _ _ _ _ _ _ _ _).1
    unfold readRegular
    rw [files]
    split
    · rfl
    split
    · rfl
    dsimp only
    split
    · rfl
    split
    · rfl
    split
    · rfl
    · rfl
    split <;> rfl
  | pipeRead pipe =>
    show (readFromPipe _ _ _ _).1 = (readFromPipe _ _ _ _).1
    unfold readFromPipe
    split
    · rfl
    split <;> rfl
  | socket state =>
    cases state with
    | stream conn side =>
      show (readFromSocket _ _ _ _ _).1 = (readFromSocket _ _ _ _ _).1
      unfold readFromSocket
      split
      · rfl
      split <;> rfl
    | _ => rfl
  | screen => rfl
  | _ => cases other

theorem readTerminal_codes (k : System) (fd count : Nat) (valid : Bool) :
    (k.readTerminal fd count valid).2.input.ring.codes <:+ k.input.ring.codes := by
  unfold readTerminal
  split
  · exact List.suffix_rfl
  split
  · exact List.suffix_rfl
  split
  · exact List.suffix_rfl
  · exact List.drop_suffix _ _

theorem readInputEvents_codes (k : System) (fd count : Nat) (valid : Bool) :
    (k.readInputEvents fd count valid).2.input.ring.codes <:+ k.input.ring.codes := by
  unfold readInputEvents
  split
  · exact List.suffix_rfl
  split
  · exact List.suffix_rfl
  split
  · exact List.suffix_rfl
  · exact List.drop_suffix _ _

theorem syscall_input {c : Call} (read : ∀ fd count valid, c = .read fd count valid → ∀ file,
    (k.files slot).get fd = .ok file → file.readsKeys = false) :
    (k.syscall slot c).2.input = k.input := by
  cases maps : c.maps with
  | false => exact (k.syscall_touches read maps).input
  | true =>
    obtain ⟨next, eq | ⟨space, heap, allocator, eq⟩⟩ := k.maps_cases maps
    · rw [eq]
    · rw [eq]
      rfl

theorem syscall_codes (k : System) (slot : Slot) (c : Call) :
    (k.syscall slot c).2.input.ring.codes <:+ k.input.ring.codes := by
  by_cases elsewhere : ∀ fd count valid, c = .read fd count valid → ∀ file,
      (k.files slot).get fd = .ok file → file.readsKeys = false
  · rw [syscall_input elsewhere]
  · push Not at elsewhere
    obtain ⟨fd, count, valid, rfl, file, found, reads⟩ := elsewhere
    rw [ne_eq, Bool.not_eq_false] at reads
    show (k.sysRead slot fd count valid).2.input.ring.codes <:+ _
    by_cases isInput : file = .input
    · subst isInput
      rw [sysRead_input found]
      exact k.readInputEvents_codes _ _ _
    · rw [sysRead_terminal found reads isInput]
      exact k.readTerminal_codes _ _ _

theorem round_codes (k : System) (slot : Slot) (loop : Loop) :
    (k.round slot loop).2.input.ring.codes <:+ k.input.ring.codes := by
  have keys : ∀ {round : Outcome × System}, round.2.input.ring.codes <:+ k.input.ring.codes →
      (k.afterKeyboard round).2.input.ring.codes <:+ k.input.ring.codes := by
    intro round fewer
    unfold afterKeyboard
    split
    · exact fewer
    · exact List.suffix_rfl
  cases loop with
  | terminal fd want => exact keys (List.drop_suffix _ _)
  | input fd cap => exact keys (List.drop_suffix _ _)
  | _ =>
    rw [(k.round_touches rfl).input]

end Reads

section Steps

/-- The end of a program that had the foreground, and of one that was interrupted, throws away. -/
def atExit (s : Input) (claimed interrupted : Bool) : Input :=
  let released := if claimed then s.releaseForeground else s
  if interrupted then released.discardTypedInput else released

theorem atExit_codes (s : Input) (claimed interrupted : Bool) :
    (atExit s claimed interrupted).ring.codes <:+ s.ring.codes := by
  unfold atExit
  cases interrupted with
  | true => exact List.nil_suffix
  | false => cases claimed <;> exact List.suffix_rfl

theorem leave_input {outcome : Outcome} (left : k.leave slot outcome = some t) : t.input = k.input := by
  cases outcome with
  | panics => cases left
  | _ => exact Option.some.inj left ▸ rfl

theorem spawnGoes_input (k : System) (slot : Slot) (next : Bool → Doing) (detached : Detached) :
    (k.spawnGoes slot next detached).input = k.input := by
  unfold spawnGoes
  split
  · rfl
  · split <;> rfl

theorem load_input {outcome : LoadOutcome} (loaded : k.load slot outcome = some t) :
    t.input = k.input ∨ t.input = (k.input.claimForeground slot).2 := by
  rcases load_cases loaded with ⟨allocator, rfl⟩ | ⟨-, allocator, space, rfl | ⟨imageEnd, rfl⟩⟩
  · exact .inl (spawnGoes_input _ _ _ _)
  · exact .inl (spawnGoes_input _ _ _ _)
  · exact .inr (spawnGoes_input _ _ _ _)

theorem exit_input {interrupted : Bool} (ended : k.exit slot interrupted = some t) :
    ∃ p rest, k.processes slot = p :: rest ∧ t.input = atExit k.input p.claimedForeground interrupted := by
  unfold exit at ended
  split at ended
  · rename_i p rest top
    obtain ⟨-, ended⟩ := Option.ite_none_right_eq_some.mp ended
    obtain rfl := Option.some.inj ended
    exact ⟨p, rest, top, spawnGoes_input _ _ _ _⟩
  · cases ended

theorem spawnReturns_input {ret : Ret} (returned : k.spawnReturns slot ret = some t) :
    t.input = k.input := by
  have back : ∀ {k₁ : System}, k₁.leave slot (.done ret) = some t → k₁.input = k.input →
      t.input = k.input := fun left same => (leave_input left).trans same
  unfold spawnReturns at returned
  split at returned
  · split at returned
    · exact back returned rfl
    · exact back returned rfl
  · exact back returned rfl
  · cases returned

theorem detachedBegins_input (begun : k.detachedBegins = some t) : t.input = k.input := by
  unfold detachedBegins at begun
  obtain ⟨-, begun⟩ := Option.ite_none_right_eq_some.mp begun
  split at begun
  · cases begun
  · exact Option.some.inj begun ▸ rfl
  · exact Option.some.inj begun ▸ rfl

theorem detachedEnds_input {bits : Nat} (ended : k.detachedEnds bits = some t) :
    t.input = k.input := by
  unfold detachedEnds at ended
  obtain ⟨-, ended⟩ := Option.ite_none_right_eq_some.mp ended
  split at ended <;> exact Option.some.inj ended ▸ rfl

theorem step_codes (next : k.step a = some t) (notKey : ∀ code, a ≠ .key code) :
    t.input.ring.codes <:+ k.input.ring.codes := by
  cases a with
  | call slot c =>
    obtain ⟨-, left⟩ := Option.ite_none_right_eq_some.mp next
    rw [leave_input left]
    exact k.syscall_codes slot c
  | resume slot =>
    obtain ⟨-, next⟩ := Option.ite_none_right_eq_some.mp next
    unfold System.resume at next
    split at next
    · rw [leave_input next]
      exact k.round_codes slot _
    · obtain ⟨-, left⟩ := Option.ite_none_right_eq_some.mp next
      rw [leave_input left]
    · cases next
  | load slot outcome =>
    rcases load_input (Option.ite_none_right_eq_some.mp next).2 with same | claimed
    · rw [same]
    · rw [claimed, Input.claimForeground_codes]
  | exit slot interrupted =>
    obtain ⟨p, rest, -, same⟩ := exit_input (Option.ite_none_right_eq_some.mp next).2
    rw [same]
    exact atExit_codes _ _ _
  | spawnReturns slot ret => rw [spawnReturns_input (Option.ite_none_right_eq_some.mp next).2]
  | detachedBegins => rw [detachedBegins_input (Option.ite_none_right_eq_some.mp next).2]
  | detachedEnds bits => rw [detachedEnds_input (Option.ite_none_right_eq_some.mp next).2]
  | key code => exact absurd rfl (notKey code)
  | drainKeyboard =>
    obtain rfl := Option.some.inj next
    show (k.input.drainKeyboard k.us).ring.codes <:+ _
    unfold Input.drainKeyboard
    split
    · exact List.suffix_rfl
    · exact List.nil_suffix
  | tick =>
    obtain rfl := Option.some.inj next
    exact List.suffix_rfl
  | setInteractive interactive =>
    obtain rfl := Option.some.inj next
    exact List.suffix_rfl

end Steps

section Straight

/-- A read that comes to the keys although it is none of the foreground's: the detached program
reads its terminal while another program has the foreground, or what is read is no file to read
typed input from. -/
def strays (k : System) : Action → Bool
  | .call slot (.read fd _ _) =>
    match (k.files slot).get fd with
    | .ok file => decide (k.input.foreground = true ∧ file.readsKeys = true ∧ file ≠ .input ∧
        ¬ (slot = 0 ∧ file.takesKeys = true))
    | .error _ => false
  | _ => false

def straightStep (k : System) (a : Action) : Option System :=
  if k.strays a then none else k.step a

/-- A read by the first slot from a descriptor of the terminal or of the input, or a further round
of one, and the kernel's own reader while no program has the foreground. -/
def takesKeys (k : System) : Action → Bool
  | .call slot (.read fd _ _) => slot == 0 && match (k.files slot).get fd with
    | .ok file => file.takesKeys
    | .error _ => false
  | .resume slot => slot == 0 && match k.doing slot with
    | some (.waiting loop) => match loop.readsKeys with
      | some fd => match (k.files slot).get fd with
        | .ok file => file.takesKeys
        | .error _ => false
      | none => false
    | _ => false
  | .drainKeyboard => !k.input.foreground
  | _ => false

inductive Typed (k : System) (a : Action) (t : System) : Prop
  | takes (takes : k.takesKeys a = true)
  | kept (kept : Input.Kept k.input t.input)
  | ends {slot : Slot} {interrupted : Bool} {p : Process} {rest : List Process}
      (exits : a = .exit slot interrupted) (top : k.processes slot = p :: rest)
      (thrown : p.claimedForeground = true ∨ interrupted = true)
      (left : t.input = atExit k.input p.claimedForeground interrupted)

/-- Only the first slot waits for keys, and from a file they are for. The detached program has no
descriptor of the input. -/
structure Honest (k : System) : Prop where
  input : ∀ p ∈ k.processes detachedSlot, File.input ∉ p.files.files
  reads : ∀ slot, ∀ p ∈ k.processes slot, ∀ loop, p.doing = .waiting loop →
    ∀ fd, loop.readsKeys = some fd →
      slot = 0 ∧ ∃ file, p.files.get fd = .ok file ∧ file.takesKeys = true

theorem honest_init (allocator : FrameAllocator) (root : Bytes) (us : Bool) :
    (init allocator root us).Honest :=
  ⟨fun _ mem => absurd mem List.not_mem_nil, fun _ _ mem => absurd mem List.not_mem_nil⟩

theorem loadTable_input (ends : InheritedEnds) : File.input ∉ (loadTable ends).files := by
  have start : File.input ∉ FileTable.new.files := by decide
  unfold loadTable
  intro mem
  rcases ends with ⟨_ | stdin, _ | stdout⟩
  · exact start mem
  · exact start ((FileTable.mem_replace mem).resolve_right nofun)
  · exact start ((FileTable.mem_replace mem).resolve_right nofun)
  · exact start ((FileTable.mem_replace ((FileTable.mem_replace mem).resolve_right nofun)).resolve_right
      nofun)

theorem Honest.takes (honest : k.Honest) (straight : k.strays (.call slot (.read fd count valid)) = false)
    (found : (k.files slot).get fd = .ok file) (reads : file.readsKeys = true)
    (foreground : k.input.foreground = true ∨ file = .input) :
    slot = 0 ∧ file.takesKeys = true := by
  by_cases isInput : file = .input
  · subst isInput
    refine ⟨?_, rfl⟩
    by_contra other
    obtain rfl : slot = detachedSlot := Fin.eq_one_of_ne_zero slot other
    have mem := FileTable.mem_files found
    unfold System.files at mem
    split at mem
    · rename_i p rest top
      exact honest.input p (top ▸ List.mem_cons_self) mem
    · revert mem
      decide
  · have claimed := foreground.resolve_right isInput
    rw [strays, found] at straight
    by_contra other
    exact of_decide_eq_false straight ⟨claimed, reads, isInput, other⟩

theorem keys_files (found : (k.files slot).get fd = .ok file) (reads : file.readsKeys = true) :
    (k.sysRead slot fd count valid).2.files slot = k.files slot := by
  have same : (k.sysRead slot fd count valid).2.processes = k.processes := by
    by_cases isInput : file = .input
    · subst isInput
      rw [sysRead_input found]
      exact k.readInputEvents_processes _ _ _
    · rw [sysRead_terminal found reads isInput]
      exact k.readTerminal_processes _ _ _
  unfold System.files
  rw [same]

theorem round_files (typed : loop.readsKeys = some fd) :
    (k.round slot loop).2.files slot = k.files slot := by
  have keys : ∀ {round : Outcome × System}, round.2.processes = k.processes →
      (k.afterKeyboard round).2.files slot = k.files slot := by
    intro round same
    unfold afterKeyboard
    split
    · unfold System.files
      rw [same]
    · rfl
  cases loop with
  | terminal fd want => exact keys rfl
  | input fd cap => exact keys rfl
  | _ => cases typed

theorem Honest.begins (honest : k.Honest) (straight : k.strays a = false) {set : WaitSet}
    (attempt : k.attempt a = some (slot, .waits set loop, k')) (typed : loop.readsKeys = some fd)
    (looping : k.Looping) :
    slot = 0 ∧ ∃ file, (k'.files slot).get fd = .ok file ∧ file.takesKeys = true := by
  cases a with
  | call slot c =>
    obtain ⟨rfl, same⟩ := Prod.mk.inj (Option.some.inj attempt)
    have out : (k.syscall slot c).1 = .waits set loop := congrArg Prod.fst same
    have after : (k.syscall slot c).2 = k' := congrArg Prod.snd same
    obtain ⟨kind, begins, comes⟩ := k.syscall_waits out
    rw [begins.kind.symm.trans (Loop.readsKeys_eq.mp typed)] at comes
    obtain ⟨count, valid, file, rfl, found, reads⟩ := comes
    have foreground : k.input.foreground = true ∨ file = .input := by
      by_contra neither
      rw [not_or, Bool.not_eq_true] at neither
      have refused : k.sysRead slot fd count valid = (.done (.error .ebadf), k) :=
        sysRead_background found reads neither.2 neither.1
      cases (congrArg Prod.fst refused).symm.trans out
    obtain ⟨first, takes⟩ := honest.takes straight found reads foreground
    have files : (k.sysRead slot fd count valid).2.files slot = k.files slot := keys_files found reads
    refine ⟨first, file, ?_, takes⟩
    rw [← after]
    show ((k.sysRead slot fd count valid).2.files slot).get fd = .ok file
    rw [files]
    exact found
  | resume slot =>
    rw [System.attempt] at attempt
    split at attempt
    · rename_i before waiting
      obtain ⟨rfl, same⟩ := Prod.mk.inj (Option.some.inj attempt)
      have out : (k.round slot before).1 = .waits set loop := congrArg Prod.fst same
      have after : (k.round slot before).2 = k' := congrArg Prod.snd same
      have begins := k.round_waits (looping.of_doing waiting) out
      have typed' : before.readsKeys = some fd :=
        Loop.readsKeys_eq.mpr (begins.kind.symm.trans (Loop.readsKeys_eq.mp typed))
      unfold System.doing at waiting
      cases top : k.processes slot with
      | nil =>
        rw [top] at waiting
        cases waiting
      | cons p rest =>
        rw [top] at waiting
        obtain ⟨first, file, found, takes⟩ := honest.reads slot p (top ▸ List.mem_cons_self) before
          (Option.some.inj waiting) fd typed'
        refine ⟨first, file, ?_, takes⟩
        rw [← after, round_files typed']
        unfold System.files
        rw [top]
        exact found
    · cases attempt
  | _ => cases attempt

theorem Honest.step (honest : k.Honest) (looping : k.Looping) (straight : k.strays a = false)
    (next : k.step a = some t) : t.Honest where
  input p mem had := by
    cases step_arises next mem with
    | stays mem => exact honest.input p mem had
    | goes inside same elsewhere =>
      subst same
      exact honest.input _ inside had
    | loaded files user => exact loadTable_input _ (files ▸ had)
    | leaves attempt left files input place =>
      rcases input had with ⟨q, mem, had⟩ | first
      · exact honest.input q mem had
      · exact absurd first (by decide)
  reads slot p mem loop waits fd typed := by
    rcases step_waiting next mem waits with same | ⟨set, k', attempt, -, files⟩
    · exact honest.reads slot p same loop waits fd typed
    · rw [← files]
      exact honest.begins straight attempt typed looping

theorem Honest.typed (honest : k.Honest) (straight : k.strays a = false)
    (next : k.step a = some t) : Typed k a t := by
  cases a with
  | call slot c =>
    obtain ⟨-, left⟩ := Option.ite_none_right_eq_some.mp next
    by_cases elsewhere : ∀ fd count valid, c = .read fd count valid → ∀ file,
        (k.files slot).get fd = .ok file → file.readsKeys = false
    · exact .kept (.of_same ((leave_input left).trans (syscall_input elsewhere)))
    · push Not at elsewhere
      obtain ⟨fd, count, valid, rfl, file, found, reads⟩ := elsewhere
      rw [ne_eq, Bool.not_eq_false] at reads
      by_cases foreground : k.input.foreground = true ∨ file = .input
      · obtain ⟨rfl, takes⟩ := honest.takes straight found reads foreground
        refine .takes ?_
        rw [System.takesKeys, found]
        exact takes
      · rw [not_or, Bool.not_eq_true] at foreground
        have refused : k.sysRead slot fd count valid = (.done (.error .ebadf), k) :=
          sysRead_background found reads foreground.2 foreground.1
        refine .kept (.of_same ((leave_input left).trans ?_))
        exact congrArg (fun out : Outcome × System => out.2.input) refused
  | resume slot =>
    obtain ⟨-, next⟩ := Option.ite_none_right_eq_some.mp next
    unfold System.resume at next
    split at next
    · rename_i loop waiting
      cases typed : loop.readsKeys with
      | none => exact .kept (.of_same ((leave_input next).trans (k.round_touches typed).input))
      | some fd =>
        refine .takes ?_
        have place := waiting
        unfold System.doing at waiting
        cases top : k.processes slot with
        | nil =>
          rw [top] at waiting
          cases waiting
        | cons p rest =>
          rw [top] at waiting
          obtain ⟨rfl, file, found, takes⟩ := honest.reads slot p (top ▸ List.mem_cons_self) loop
            (Option.some.inj waiting) fd typed
          have current : (k.files 0).get fd = .ok file := by
            unfold System.files
            rw [top]
            exact found
          simp only [System.takesKeys, place, typed, current, takes]
          rfl
    · obtain ⟨-, left⟩ := Option.ite_none_right_eq_some.mp next
      exact .kept (.of_same (leave_input left))
    · cases next
  | load slot outcome =>
    rcases load_input (Option.ite_none_right_eq_some.mp next).2 with same | claimed
    · exact .kept (.of_same same)
    · exact .kept (claimed ▸ k.input.claimForeground_kept slot)
  | exit slot interrupted =>
    obtain ⟨p, rest, top, left⟩ := exit_input (Option.ite_none_right_eq_some.mp next).2
    by_cases thrown : p.claimedForeground = true ∨ interrupted = true
    · exact .ends rfl top thrown left
    · rw [not_or, Bool.not_eq_true, Bool.not_eq_true] at thrown
      rw [thrown.1, thrown.2] at left
      exact .kept (.of_same left)
  | spawnReturns slot ret =>
    exact .kept (.of_same (spawnReturns_input (Option.ite_none_right_eq_some.mp next).2))
  | detachedBegins =>
    exact .kept (.of_same (detachedBegins_input (Option.ite_none_right_eq_some.mp next).2))
  | detachedEnds bits =>
    exact .kept (.of_same (detachedEnds_input (Option.ite_none_right_eq_some.mp next).2))
  | key code =>
    obtain rfl := Option.some.inj next
    exact .kept (k.input.record_kept code)
  | drainKeyboard =>
    obtain rfl := Option.some.inj next
    cases foreground : k.input.foreground with
    | false => exact .takes (by rw [System.takesKeys, foreground]; rfl)
    | true =>
      refine .kept (.of_same ?_)
      show k.input.drainKeyboard k.us = k.input
      unfold Input.drainKeyboard
      rw [if_pos foreground]
  | tick =>
    obtain rfl := Option.some.inj next
    exact .kept (.of_same rfl)
  | setInteractive interactive =>
    obtain rfl := Option.some.inj next
    exact .kept (.of_same rfl)

variable {allocator : FrameAllocator} {root : Bytes} {us : Bool}

theorem honest_of_reachable (reach : Reachable straightStep (init allocator root us) k) :
    k.Looping ∧ k.Honest := by
  refine reach.invariant (P := fun k => k.Looping ∧ k.Honest)
    ⟨fun _ _ mem => absurd mem List.not_mem_nil, honest_init allocator root us⟩ ?_
  rintro k a t ⟨looping, honest⟩ next
  obtain ⟨straight, next⟩ := Option.ite_none_left_eq_some.mp next
  exact ⟨looping.step next, honest.step looping (Bool.eq_false_of_not_eq_true straight) next⟩

/-- Typed input goes to one consumer: the first slot takes it from a descriptor of the terminal or of
the input, and the kernel while no program has the foreground. What a program leaves that had the
foreground or was interrupted is thrown away. -/
theorem typed_input (reach : Reachable straightStep (init allocator root us) k) :
    (∀ a t, k.straightStep a = some t → Typed k a t) ∧
    (∀ p ∈ k.processes detachedSlot, File.input ∉ p.files.files) ∧
    (∀ slot fd count valid file, (k.files slot).get fd = .ok file → file.readsKeys = true →
      file ≠ .input → k.input.foreground = false →
      k.sysRead slot fd count valid = (.done (.error .ebadf), k)) ∧
    (∀ slot fd count valid file, (k.files slot).get fd = .ok file → file.readsKeys = false →
      ∀ input, ({ k with input }.sysRead slot fd count valid).1 = (k.sysRead slot fd count valid).1) := by
  obtain ⟨-, honest⟩ := honest_of_reachable reach
  refine ⟨fun a t next => ?_, honest.input, fun slot fd count valid file found reads other background =>
    sysRead_background found reads other background,
    fun slot fd count valid file found other input => sysRead_elsewhere found other input⟩
  obtain ⟨straight, next⟩ := Option.ite_none_left_eq_some.mp next
  exact honest.typed (Bool.eq_false_of_not_eq_true straight) next

/-- A key waits for the shell while the detached program runs. -/
theorem typed_input_two_programs : ∃ k,
    Reachable straightStep (init ⟨4, [⟨1, 100⟩]⟩ ⟨0, fun _ => 0⟩ true) k ∧
    k.input.ring.codes = [0x1E] ∧ k.input.foreground = true ∧
    (∀ a t, k.straightStep a = some t → Typed k a t) := by
  have run : ((runSteps straightStep [.load 0 (.runs [1024] 4194304),
      .call 0 (.spawnDetached 0 (.ok ())), .detachedBegins, .load 1 (.runs [1024] 4194304), .resume 0,
      .key 0x1E] (init ⟨4, [⟨1, 100⟩]⟩ ⟨0, fun _ => 0⟩ true)).map fun k =>
        (k.input.ring.codes, k.input.foreground)) = some ([0x1E], true) := by
    decide
  obtain ⟨k, run, eq⟩ := Option.map_eq_some_iff.mp run
  obtain ⟨codes, foreground⟩ := Prod.mk.inj eq
  have reach := Reachable.refl.of_runSteps _ run
  exact ⟨k, reach, codes, foreground, (typed_input reach).1⟩

theorem reached_step {start : System} {actions : List Action} {α : Type} (see : System → α) {x y : α}
    (run : (((runSteps step actions start).bind fun k => (k.step a).map fun t => (k, t)).map fun out =>
      (see out.1, see out.2)) = some (x, y)) :
    ∃ k t, Reachable step start k ∧ k.step a = some t ∧ see k = x ∧ see t = y := by
  obtain ⟨⟨k, t⟩, both, eq⟩ := Option.map_eq_some_iff.mp run
  obtain ⟨k', run, stepped⟩ := Option.bind_eq_some_iff.mp both
  obtain ⟨t', next, same⟩ := Option.map_eq_some_iff.mp stepped
  obtain ⟨rfl, rfl⟩ := Prod.mk.inj same
  obtain ⟨before, after⟩ := Prod.mk.inj eq
  exact ⟨k', t', Reachable.refl.of_runSteps _ run, next, before, after⟩

/-- The rest of a key is thrown away with the program that had the foreground, and the detached
program reads a key from its terminal while the shell has the foreground. -/
theorem typed_input_goes_elsewhere :
    (∃ k t, Reachable step (init ⟨4, [⟨1, 100⟩]⟩ ⟨0, fun _ => 0⟩ true) k ∧
      k.step (.exit 0 false) = some t ∧ k.takesKeys (.exit 0 false) = false ∧
      k.input.pending = [0x5B, 0x44] ∧ t.input.pending = []) ∧
    (∃ k t, Reachable step (init ⟨4, [⟨1, 100⟩]⟩ ⟨0, fun _ => 0⟩ true) k ∧
      k.step (.call 1 (.read 0 1 true)) = some t ∧ k.takesKeys (.call 1 (.read 0 1 true)) = false ∧
      k.input.ring.codes = [0x1E] ∧ t.input.ring.codes = []) := by
  constructor
  · have run : (((runSteps step [.load 0 (.runs [1024] 4194304), .key 0xE0, .key 0x4B,
        .call 0 (.read 0 1 true)] (init ⟨4, [⟨1, 100⟩]⟩ ⟨0, fun _ => 0⟩ true)).bind fun k =>
          (k.step (.exit 0 false)).map fun t => (k, t)).map fun out =>
            (out.1.input.pending, out.2.input.pending)) = some ([0x5B, 0x44], []) := by
      decide
    obtain ⟨k, t, reach, next, before, after⟩ := reached_step (fun k => k.input.pending) run
    exact ⟨k, t, reach, next, rfl, before, after⟩
  · have run : (((runSteps step [.load 0 (.runs [1024] 4194304), .call 0 (.spawnDetached 0 (.ok ())),
        .detachedBegins, .load 1 (.runs [1024] 4194304), .key 0x1E]
        (init ⟨4, [⟨1, 100⟩]⟩ ⟨0, fun _ => 0⟩ true)).bind fun k =>
          (k.step (.call 1 (.read 0 1 true))).map fun t => (k, t)).map fun out =>
            (out.1.input.ring.codes, out.2.input.ring.codes)) = some ([0x1E], []) := by
      decide
    obtain ⟨k, t, reach, next, before, after⟩ := reached_step (fun k => k.input.ring.codes) run
    exact ⟨k, t, reach, next, rfl, before, after⟩

end Straight

end System

end Zaytos.Kernel
