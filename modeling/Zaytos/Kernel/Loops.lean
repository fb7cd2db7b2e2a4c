import Zaytos.Kernel.CallWaits

set_option autoImplicit false

/-! The programs that wait in a loop, and how they came to wait in it. -/
namespace Zaytos.Kernel

variable {f : Process → Process} {outcome : Outcome}

namespace System

variable {k k' t : System} {slot other : Slot} {loop : Loop} {p : Process}

section Tops

theorem mem_modifyTop (mem : p ∈ (k.modifyTop slot f).processes other) :
    p ∈ k.processes other ∨ other = slot ∧ ∃ q rest, k.processes slot = q :: rest ∧ p = f q := by
  unfold modifyTop at mem
  dsimp only at mem
  by_cases same : other = slot
  · subst same
    rw [Function.update_self] at mem
    cases top : k.processes other with
    | nil =>
      rw [top] at mem
      exact absurd mem List.not_mem_nil
    | cons q rest =>
      rw [top] at mem
      rcases List.mem_cons.mp mem with rfl | mem
      · exact .inr ⟨rfl, q, rest, rfl, rfl⟩
      · exact .inl (List.mem_cons_of_mem _ mem)
  · rw [Function.update_of_ne same] at mem
    exact .inl mem

theorem modifyTop_twice {g : Process → Process}
    (first : k'.processes = (k.modifyTop slot f).processes) :
    (k'.modifyTop slot g).processes = (k.modifyTop slot fun p => g (f p)).processes := by
  unfold modifyTop at first ⊢
  dsimp only at first ⊢
  rw [first, Function.update_self, Function.update_idem]
  cases k.processes slot <;> rfl

theorem modifyTop_id (k : System) (slot : Slot) : (k.modifyTop slot id).processes = k.processes := by
  unfold modifyTop
  dsimp only
  cases top : k.processes slot with
  | nil => exact (congrArg _ top.symm).trans (Function.update_eq_self _ _)
  | cons p rest => exact (congrArg _ top.symm).trans (Function.update_eq_self _ _)

/-- Of the programs, only the one that a task runs is another. It gains the descriptor of the input
in the first slot only. -/
def OnTop (k : System) (slot : Slot) (k' : System) : Prop :=
  ∃ f, k'.processes = (k.modifyTop slot f).processes ∧ ∀ p rest, k.processes slot = p :: rest →
    File.input ∈ (f p).files.files → File.input ∈ p.files.files ∨ slot = 0

theorem OnTop.of_same (same : k'.processes = k.processes) : OnTop k slot k' :=
  ⟨id, same.trans (k.modifyTop_id slot).symm, fun _ _ _ => .inl⟩

theorem Touches.onTop (touches : Touches k slot k') : OnTop k slot k' := by
  obtain ⟨t, same, more⟩ := touches.table
  refine ⟨_, same, fun p rest top mem => ?_⟩
  have current : k.files slot = p.files := by
    unfold System.files
    rw [top]
  exact current ▸ more mem

theorem readTerminal_processes (k : System) (fd count : Nat) (valid : Bool) :
    (k.readTerminal fd count valid).2.processes = k.processes := by
  unfold readTerminal
  split
  · rfl
  split
  · rfl
  split <;> rfl

theorem readInputEvents_processes (k : System) (fd count : Nat) (valid : Bool) :
    (k.readInputEvents fd count valid).2.processes = k.processes := by
  unfold readInputEvents
  split
  · rfl
  split
  · rfl
  split <;> rfl

theorem sysRead_onTop (k : System) (fd count : Nat) (valid : Bool) :
    OnTop k slot (k.sysRead slot fd count valid).2 := by
  cases found : (k.files slot).get fd with
  | error error =>
    refine (k.sysRead_touches fd count valid fun file ok => ?_).onTop
    cases found.symm.trans ok
  | ok file =>
    cases reads : file.readsKeys with
    | false =>
      refine (k.sysRead_touches fd count valid fun other ok => ?_).onTop
      obtain rfl := Except.ok.inj (found.symm.trans ok)
      exact reads
    | true =>
      refine .of_same ?_
      unfold sysRead
      simp only [found]
      cases file with
      | terminal kind => exact k.readTerminal_processes _ _ _
      | pipeWrite pipe => exact k.readTerminal_processes _ _ _
      | shm shm => exact k.readTerminal_processes _ _ _
      | input => exact k.readInputEvents_processes _ _ _
      | _ => cases reads

theorem maps_onTop {c : Call} (maps : c.maps = true) : OnTop k slot (k.syscall slot c).2 := by
  obtain ⟨next, eq | ⟨space, heap, allocator, eq⟩⟩ := k.maps_cases maps
  · rw [eq]
    exact .of_same rfl
  · rw [eq]
    exact ⟨_, rfl, fun _ _ _ => .inl⟩

theorem syscall_onTop (k : System) (c : Call) : OnTop k slot (k.syscall slot c).2 := by
  cases c with
  | read fd count valid => exact k.sysRead_onTop fd count valid
  | mmap len exec fd offset => exact maps_onTop rfl
  | brk requested => exact maps_onTop rfl
  | _ => exact (k.syscall_touches (by nofun) rfl).onTop

theorem round_onTop (k : System) (loop : Loop) : OnTop k slot (k.round slot loop).2 := by
  have keys : ∀ round : Outcome × System, round.2.processes = k.processes →
      OnTop k slot (k.afterKeyboard round).2 := by
    intro round same
    unfold afterKeyboard
    split
    · exact .of_same same
    · exact .of_same rfl
  cases loop with
  | terminal fd want => exact keys _ rfl
  | input fd cap => exact keys _ rfl
  | _ => exact (k.round_touches rfl).onTop

theorem attempt_onTop {a : Action} (attempt : k.attempt a = some (slot, outcome, k')) :
    OnTop k slot k' := by
  cases a with
  | call slot c =>
    obtain ⟨rfl, same⟩ := Prod.mk.inj (Option.some.inj attempt)
    have onTop : OnTop k slot (k.syscall slot c).2 := k.syscall_onTop c
    rwa [same] at onTop
  | resume slot =>
    rw [System.attempt] at attempt
    split at attempt
    · rename_i loop _
      obtain ⟨rfl, same⟩ := Prod.mk.inj (Option.some.inj attempt)
      have onTop : OnTop k slot (k.round slot loop).2 := k.round_onTop loop
      rwa [same] at onTop
    · cases attempt
  | _ => cases attempt

theorem leave_processes (left : k.leave slot outcome = some t) :
    t.processes = (k.modifyTop slot fun p => { p with doing := outcome.doing }).processes := by
  cases outcome with
  | panics => cases left
  | _ => exact Option.some.inj left ▸ rfl

theorem spawnGoes_processes (k : System) (slot : Slot) (next : Bool → Doing) (detached : Detached) :
    (k.spawnGoes slot next detached).processes = (k.modifyTop slot fun p => { p with doing :=
      match p.doing with
      | .spawning piped | .parent piped => next piped
      | doing => doing }).processes := by
  unfold spawnGoes
  split
  · rfl
  · rename_i none
    unfold modifyTop
    rw [none]
    dsimp only
    split <;> exact ((congrArg _ none.symm).trans (Function.update_eq_self _ _)).symm

end Tops

section Loops

theorem attempt_doing {a : Action}
    (attempt : k.attempt a = some (slot, outcome, k')) (waits : outcome.doing = .waiting loop) :
    ∃ set, outcome = .waits set loop := by
  cases a with
  | call slot c =>
    obtain ⟨rfl, same⟩ := Prod.mk.inj (Option.some.inj attempt)
    have waits' : (k.syscall slot c).1.doing = .waiting loop := by rwa [same]
    obtain ⟨set, out⟩ := k.syscall_doing waits'
    exact ⟨set, (congrArg Prod.fst same).symm.trans out⟩
  | resume slot =>
    rw [System.attempt] at attempt
    split at attempt
    · rename_i before _
      obtain ⟨rfl, same⟩ := Prod.mk.inj (Option.some.inj attempt)
      have waits' : (k.round slot before).1.doing = .waiting loop := by rwa [same]
      obtain ⟨set, out⟩ := k.round_doing waits'
      exact ⟨set, (congrArg Prod.fst same).symm.trans out⟩
    · cases attempt
  | _ => cases attempt

inductive Arises (k : System) (a : Action) (t : System) (slot : Slot) (p : Process) : Prop
  | stays (mem : p ∈ k.processes slot)
  | goes {q : Process} {doing : Doing} (mem : q ∈ k.processes slot) (same : p = { q with doing })
      (elsewhere : ∀ loop, doing ≠ .waiting loop)
  | loaded {ends : InheritedEnds} (files : p.files = loadTable ends) (user : p.doing = .user)
  | leaves {outcome : Outcome} {k' : System} (attempt : k.attempt a = some (slot, outcome, k'))
      (left : k'.leave slot outcome = some t) (files : k'.files slot = p.files)
      (input : File.input ∈ p.files.files →
        (∃ q ∈ k.processes slot, File.input ∈ q.files.files) ∨ slot = 0)
      (place : p.doing = outcome.doing)

variable {a : Action}

theorem arises_spawnGoes {next : Bool → Doing} {detached : Detached}
    (notWaiting : ∀ piped loop, next piped ≠ .waiting loop)
    (mem : p ∈ (k.spawnGoes slot next detached).processes other) : Arises k a t other p := by
  rw [spawnGoes_processes] at mem
  rcases mem_modifyTop mem with same | ⟨rfl, q, rest, top, rfl⟩
  · exact .stays same
  · have inside : q ∈ k.processes other := top ▸ List.mem_cons_self
    split
    · exact .goes inside rfl (notWaiting _)
    · exact .goes inside rfl (notWaiting _)
    · exact .stays inside

theorem arises_leave (notWaiting : ∀ loop, outcome.doing ≠ .waiting loop)
    (left : k.leave slot outcome = some t) (mem : p ∈ t.processes other) : Arises k a t other p := by
  rw [leave_processes left] at mem
  rcases mem_modifyTop mem with same | ⟨rfl, q, rest, top, rfl⟩
  · exact .stays same
  · exact .goes (top ▸ List.mem_cons_self) rfl notWaiting

theorem arises_attempt (attempt : k.attempt a = some (slot, outcome, k'))
    (left : k'.leave slot outcome = some t) (mem : p ∈ t.processes other) :
    Arises k a t other p := by
  obtain ⟨f, first, input⟩ := attempt_onTop attempt
  rw [leave_processes left, modifyTop_twice first] at mem
  rcases mem_modifyTop mem with same | ⟨rfl, q, rest, top, rfl⟩
  · exact .stays same
  · refine .leaves attempt left ?_ (fun mem => ?_) rfl
    · have top' : k'.processes other = f q :: rest := by
        rw [first, modifyTop, top]
        exact Function.update_self ..
      rw [System.files, top']
    · exact (input q rest top mem).imp_left fun had => ⟨q, top ▸ List.mem_cons_self, had⟩

theorem Arises.of_processes (arises : Arises k' a t slot p) (same : k'.processes = k.processes)
    (none : k'.attempt a = none) : Arises k a t slot p := by
  cases arises with
  | stays mem => exact .stays (same ▸ mem)
  | goes mem eq elsewhere => exact .goes (same ▸ mem) eq elsewhere
  | loaded files user => exact .loaded files user
  | leaves attempt => cases none.symm.trans attempt

theorem step_arises (next : k.step a = some t) (mem : p ∈ t.processes slot) :
    Arises k a t slot p := by
  cases a with
  | call other c =>
    obtain ⟨-, left⟩ := Option.ite_none_right_eq_some.mp next
    exact arises_attempt rfl left mem
  | resume other =>
    obtain ⟨-, next⟩ := Option.ite_none_right_eq_some.mp next
    unfold System.resume at next
    split at next
    · rename_i before waiting
      exact arises_attempt (by simp only [attempt, waiting]) next mem
    · obtain ⟨-, left⟩ := Option.ite_none_right_eq_some.mp next
      exact arises_leave (fun _ waits => by cases waits) left mem
    · cases next
  | load other outcome =>
    obtain ⟨-, loaded⟩ := Option.ite_none_right_eq_some.mp next
    rcases load_cases loaded with ⟨allocator, rfl⟩ | ⟨-, allocator, space, rfl | ⟨imageEnd, rfl⟩⟩
    · exact (arises_spawnGoes (fun _ _ waits => by cases waits) mem).of_processes rfl rfl
    · exact (arises_spawnGoes (fun _ _ waits => by cases waits) mem).of_processes rfl rfl
    · unfold enter push at mem
      dsimp only at mem
      by_cases same : slot = other
      · subst same
        rw [Function.update_self] at mem
        rcases List.mem_cons.mp mem with rfl | mem
        · exact .loaded rfl rfl
        · exact (arises_spawnGoes (fun _ _ waits => by cases waits) mem).of_processes rfl rfl
      · rw [Function.update_of_ne same] at mem
        exact (arises_spawnGoes (fun _ _ waits => by cases waits) mem).of_processes rfl rfl
  | exit other interrupted =>
    obtain ⟨-, ended⟩ := Option.ite_none_right_eq_some.mp next
    unfold System.exit at ended
    split at ended
    · rename_i q rest top
      obtain ⟨-, ended⟩ := Option.ite_none_right_eq_some.mp ended
      obtain rfl := Option.some.inj ended
      have fewer : ∀ q ∈ Function.update k.processes other rest slot, q ∈ k.processes slot := by
        intro q mem
        by_cases same : slot = other
        · subst same
          rw [Function.update_self] at mem
          rw [top]
          exact List.mem_cons_of_mem _ mem
        · rwa [Function.update_of_ne same] at mem
      cases arises_spawnGoes (a := .tick) (t := k) (fun _ _ waits => by cases waits) mem with
      | stays mem => exact .stays (fewer _ mem)
      | goes mem eq elsewhere => exact .goes (fewer _ mem) eq elsewhere
      | loaded files user => exact .loaded files user
      | leaves attempt => cases attempt
    · cases ended
  | spawnReturns other ret =>
    obtain ⟨-, returned⟩ := Option.ite_none_right_eq_some.mp next
    unfold System.spawnReturns at returned
    split at returned
    · split at returned
      · exact (arises_leave (fun _ waits => by cases waits) returned mem).of_processes rfl rfl
      · exact arises_leave (fun _ waits => by cases waits) returned mem
    · exact arises_leave (fun _ waits => by cases waits) returned mem
    · cases returned
  | detachedBegins =>
    obtain ⟨-, begun⟩ := Option.ite_none_right_eq_some.mp next
    unfold System.detachedBegins at begun
    obtain ⟨-, begun⟩ := Option.ite_none_right_eq_some.mp begun
    split at begun
    · cases begun
    · obtain rfl := Option.some.inj begun
      exact .stays mem
    · obtain rfl := Option.some.inj begun
      exact .stays mem
  | detachedEnds bits =>
    obtain ⟨-, ended⟩ := Option.ite_none_right_eq_some.mp next
    exact .stays ((detachedEnds_processes ended).1 ▸ mem)
  | _ =>
    obtain rfl := Option.some.inj next
    exact .stays mem

theorem step_waiting (next : k.step a = some t) (mem : p ∈ t.processes slot)
    (waits : p.doing = .waiting loop) : p ∈ k.processes slot ∨
      ∃ set k', k.attempt a = some (slot, .waits set loop, k') ∧
        k'.leave slot (.waits set loop) = some t ∧ k'.files slot = p.files := by
  cases step_arises next mem with
  | stays mem => exact .inl mem
  | goes mem same elsewhere =>
    subst same
    exact absurd waits (elsewhere loop)
  | loaded files user => cases user.symm.trans waits
  | leaves attempt left files input place =>
    obtain ⟨set, rfl⟩ := attempt_doing attempt (place.symm.trans waits)
    exact .inr ⟨set, _, attempt, left, files⟩

def Looping (k : System) : Prop :=
  ∀ slot, ∀ p ∈ k.processes slot, ∀ loop, p.doing = .waiting loop → loop.Sound

theorem Looping.of_doing (looping : k.Looping) (waiting : k.doing slot = some (.waiting loop)) :
    loop.Sound := by
  unfold System.doing at waiting
  cases top : k.processes slot with
  | nil =>
    rw [top] at waiting
    cases waiting
  | cons p rest =>
    rw [top] at waiting
    exact looping slot p (top ▸ List.mem_cons_self) loop (Option.some.inj waiting)

theorem Looping.begins (looping : k.Looping) {a : Action} {set : WaitSet}
    (attempt : k.attempt a = some (slot, .waits set loop, k')) : ∃ kind, Begins k' kind set loop := by
  cases a with
  | call slot c =>
    obtain ⟨rfl, same⟩ := Prod.mk.inj (Option.some.inj attempt)
    obtain ⟨kind, begins, -⟩ := k.syscall_waits (congrArg Prod.fst same)
    rw [same] at begins
    exact ⟨kind, begins⟩
  | resume slot =>
    rw [System.attempt] at attempt
    split at attempt
    · rename_i before waiting
      obtain ⟨rfl, same⟩ := Prod.mk.inj (Option.some.inj attempt)
      have begins := k.round_waits (looping.of_doing waiting) (congrArg Prod.fst same)
      rw [same] at begins
      exact ⟨_, begins⟩
    · cases attempt
  | _ => cases attempt

theorem Looping.step (looping : k.Looping) {a : Action} (next : k.step a = some t) : t.Looping := by
  intro slot p mem loop waits
  rcases step_waiting next mem waits with same | ⟨set, k', attempt, -, -⟩
  · exact looping slot p same loop waits
  · obtain ⟨kind, begins⟩ := looping.begins attempt
    exact begins.sound

theorem looping_of_reachable {allocator : FrameAllocator} {root : Bytes} {us : Bool}
    (reach : Reachable step (init allocator root us) k) : k.Looping :=
  reach.invariant (fun _ _ mem => absurd mem List.not_mem_nil) fun _ _ _ looping next =>
    looping.step next

end Loops

end System

end Zaytos.Kernel
