import Zaytos.Kernel.Places

set_option autoImplicit false

/-! Every step keeps the places of the programs and of the detached task coherent. -/
namespace Zaytos.Kernel

namespace System

variable {k k' t : System} {slot : Slot}

theorem Coherent.control (coherent : k.Coherent) (control : Control k k') : k'.Coherent where
  stopped isStopped := control.detached.trans (coherent.stopped (control.stopped isStopped))
  empty other := by
    have length := control.depth detachedSlot
    rw [coherent.empty (control.detached ▸ other)] at length
    exact List.length_eq_zero_iff.mp length
  requested isRequested := by
    rw [control.doing]
    exact coherent.requested (control.detached ▸ isRequested)
  stdin slot some := by
    rw [control.doing]
    exact coherent.stdin slot (control.inherited ▸ some)
  stdout slot some := by
    rw [control.detached]
    exact coherent.stdout slot (control.inherited ▸ some)

theorem Leaves.coherent {outcome : Outcome} (leaves : Leaves k slot outcome t)
    (top : k.processes slot ≠ []) (stopped : k.Stopped → k.detached = .idle)
    (empty : k.detached ≠ .parent → k.processes detachedSlot = [])
    (requested : k.detached = .requested →
      (∃ handle, outcome.doing = .starting handle) ∧ slot = 0 ∨
      (∃ handle, k.doing 0 = some (.starting handle)) ∧ slot ≠ 0)
    (stdin : ∀ other, (k.inherited other).stdin ≠ none →
      if other = slot then outcome.doing = .spawning true
      else k.doing other = some (.spawning true) ∨ k.doing other = some (.returning true))
    (stdout : ∀ slot, (k.inherited slot).stdout ≠ none →
      slot = detachedSlot ∧ (k.detached = .spawning ∨ k.detached = .returning)) : t.Coherent where
  stopped isStopped := leaves.detached.trans (stopped (leaves.stopped isStopped))
  empty other := by
    have length := leaves.depth detachedSlot
    rw [empty (leaves.detached ▸ other)] at length
    exact List.length_eq_zero_iff.mp length
  requested isRequested := by
    rcases requested (leaves.detached ▸ isRequested) with ⟨⟨handle, goes⟩, rfl⟩ | ⟨⟨handle, at0⟩, ne⟩
    · exact ⟨handle, (leaves.self top).trans (congrArg some goes)⟩
    · exact ⟨handle, (leaves.other 0 ne.symm).trans at0⟩
  stdin other some := by
    have place := stdin other (leaves.inherited ▸ some)
    split at place
    · rename_i same
      exact .inl (same ▸ (leaves.self top).trans (congrArg _ place))
    · rename_i ne
      rw [leaves.other other ne]
      exact place
  stdout slot some := by
    rw [leaves.detached]
    exact stdout slot (leaves.inherited ▸ some)

theorem Coherent.leaves (coherent : k.Coherent) {outcome : Outcome} {doing : Doing}
    (stood : k.doing slot = some doing) (notStarting : k.detached = .requested → slot ≠ 0)
    (stdin : (k.inherited slot).stdin ≠ none → outcome.doing = .spawning true)
    (left : k.leave slot outcome = some t) : t.Coherent := by
  have top : k.processes slot ≠ [] := by
    intro empty
    rw [System.doing, empty] at stood
    cases stood
  refine (System.leaves left).coherent top coherent.stopped coherent.empty
    (fun isRequested => .inr ⟨coherent.requested isRequested, notStarting isRequested⟩)
    (fun other some => ?_) coherent.stdout
  split
  · rename_i same
    exact stdin (same ▸ some)
  · exact coherent.stdin other some

theorem Coherent.call {c : Call} (coherent : k.Coherent) (ready : k.tasks slot = .ready)
    (user : k.doing slot = some .user) (left : (k.syscall slot c).2.leave slot (k.syscall slot c).1 = some t) :
    t.Coherent := by
  have idle := coherent.not_requested user
  have none := coherent.stdin_none user
  have top : k.processes slot ≠ [] := by
    intro empty
    rw [System.doing, empty] at user
    cases user
  have ordinary : ∀ {outcome : Outcome} {k' : System}, Control k k' →
      k'.leave slot outcome = some t → t.Coherent := by
    intro outcome k' control left
    refine (coherent.control control).leaves ((control.doing slot).trans user) ?_ ?_ left
    · exact fun isRequested => absurd (control.detached ▸ isRequested) idle
    · exact fun some => absurd (control.inherited ▸ none) some
  cases spawns : c.spawns with
  | false => exact ordinary (k.syscall_ordinary c top spawns).2 left
  | true =>
    cases c with
    | spawnDetached flags args =>
      rcases k.spawnDetachedFromRing3_cases slot flags args with ⟨control, -⟩ | ⟨starts, handle, goes⟩
      · exact ordinary control left
      · have wasIdle := coherent.stopped (.inl starts.free)
        obtain rfl : slot = 0 := by
          by_contra ne
          obtain rfl : slot = detachedSlot := Fin.eq_one_of_ne_zero slot ne
          rw [starts.free] at ready
          cases ready
        refine (System.leaves left).coherent ?_ ?_ ?_ ?_ ?_ ?_
        · exact starts.processes ▸ top
        · intro stopped
          unfold Stopped at stopped
          rw [System.syscall, starts.tasks, Function.update_self] at stopped
          rcases stopped with stopped | stopped <;> cases stopped
        · intro _
          rw [System.syscall, starts.processes]
          exact coherent.empty (by rw [wasIdle]; decide)
        · intro _
          refine .inl ⟨⟨handle, ?_⟩, rfl⟩
          rw [System.syscall, goes]
          rfl
        · intro other some
          rw [System.syscall, starts.inherited] at some
          split
          · rename_i same
            exact absurd none (same ▸ some)
          · rw [System.syscall, System.doing, starts.processes]
            exact coherent.stdin other some
        · intro other some
          rw [System.syscall, starts.inherited] at some
          rcases (coherent.stdout other some).2 with spawning | returning
          · exact absurd (wasIdle.symm.trans spawning) (by decide)
          · exact absurd (wasIdle.symm.trans returning) (by decide)
    | spawnWithPipedStdin args =>
      rcases k.spawnWithPipedStdinFromRing3_cases slot args with ⟨control, -⟩ | ⟨k₁, pipe, control, eq⟩
      · exact ordinary control left
      · rw [System.syscall, eq] at left
        have coherent₁ := coherent.control control
        have top₁ : k₁.processes slot ≠ [] := by
          intro empty
          have user₁ := (control.doing slot).trans user
          rw [System.doing, empty] at user₁
          cases user₁
        refine (System.leaves left).coherent top₁ coherent₁.stopped coherent₁.empty ?_ ?_ ?_
        · exact fun isRequested => absurd (control.detached ▸ isRequested) idle
        · intro other some
          split
          · rfl
          · rename_i ne
            rw [setInherited_of_ne _ _ ne] at some
            exact coherent₁.stdin other some
        · intro other some
          refine coherent₁.stdout other ?_
          by_cases same : other = slot
          · subst same
            rwa [setInherited_self] at some
          · rwa [setInherited_of_ne _ _ same] at some
    | _ => cases spawns

theorem Coherent.loading_idle (coherent : k.Coherent) (loading : k.loading slot = true) :
    k.detached ≠ .requested ∧
      (k.processes slot = [] → slot = detachedSlot → k.detached = .spawning) := by
  have base : k.processes slot = [] → slot = detachedSlot → k.detached = .spawning := by
    rintro empty rfl
    rw [System.loading, System.doing, empty] at loading
    simpa using loading
  refine ⟨fun isRequested => ?_, base⟩
  by_cases first : slot = 0
  · subst first
    obtain ⟨handle, starting⟩ := coherent.requested isRequested
    simp only [System.loading, starting] at loading
    cases loading
  · obtain rfl : slot = detachedSlot := Fin.eq_one_of_ne_zero slot first
    have spawning := base (coherent.empty (by rw [isRequested]; decide)) rfl
    exact absurd (isRequested.symm.trans spawning) (by decide)

theorem Coherent.spawnGoes (coherent : k.Coherent) (loading : k.loading slot = true) :
    (k.spawnGoes slot .returning .returning).Coherent := by
  have goes := k.goes slot .returning .returning
  obtain ⟨idle, base⟩ := coherent.loading_idle loading
  have detached := goes.detached
  refine ⟨fun isStopped => ?_, fun other => ?_, fun isRequested => ?_, fun other some => ?_,
    fun other some => ?_⟩
  · unfold Stopped at isStopped
    rw [goes.tasks] at isStopped
    have isIdle := coherent.stopped isStopped
    rw [if_neg fun nil => absurd ((base nil.1 nil.2).symm.trans isIdle) (by decide)] at detached
    exact detached.trans isIdle
  · have length := goes.depth detachedSlot
    suffices k.processes detachedSlot = [] by
      rw [this] at length
      exact List.length_eq_zero_iff.mp length
    split at detached
    · rename_i nil
      exact nil.2 ▸ nil.1
    · exact coherent.empty (detached ▸ other)
  · split at detached
    · exact absurd (detached.symm.trans isRequested) (by decide)
    · exact absurd (detached.symm.trans isRequested) idle
  · have place := coherent.stdin other (goes.inherited ▸ some)
    by_cases same : other = slot
    · subst same
      refine .inr (goes.self true ?_)
      rcases place with spawning | returning
      · exact spawning
      · simp only [System.loading, returning] at loading
        cases loading
    · rw [goes.other other same]
      exact place
  · obtain ⟨isDetached, place⟩ := coherent.stdout other (goes.inherited ▸ some)
    refine ⟨isDetached, ?_⟩
    split at detached
    · exact .inr detached
    · rw [detached]
      exact place

theorem Coherent.takeInherited (coherent : k.Coherent) (slot : Slot) :
    (k.takeInherited slot).Coherent := by
  have fewer : ∀ other, other ≠ slot → (k.takeInherited slot).inherited other = k.inherited other :=
    fun other ne => k.setInherited_of_ne _ ne
  have none : (k.takeInherited slot).inherited slot = ⟨none, none⟩ := k.setInherited_self _ _
  refine ⟨coherent.stopped, coherent.empty, coherent.requested, fun other some => ?_,
    fun other some => ?_⟩
  · by_cases same : other = slot
    · rw [same, none] at some
      exact absurd rfl some
    · exact coherent.stdin other (fewer other same ▸ some)
  · by_cases same : other = slot
    · rw [same, none] at some
      exact absurd rfl some
    · exact coherent.stdout other (fewer other same ▸ some)

theorem Coherent.push (coherent : k.Coherent) (loading : k.loading slot = true)
    (none : k.inherited slot = ⟨none, none⟩) (p : Process) :
    ((k.spawnGoes slot .parent .parent).push slot p).Coherent := by
  have goes := k.goes slot .parent .parent
  obtain ⟨idle, base⟩ := coherent.loading_idle loading
  have detached := goes.detached
  refine ⟨fun isStopped => ?_, fun other => ?_, fun isRequested => ?_, fun other some => ?_,
    fun other some => ?_⟩
  · have was : (k.spawnGoes slot .parent .parent).Stopped := isStopped
    unfold Stopped at was
    rw [goes.tasks] at was
    have isIdle := coherent.stopped was
    rw [if_neg fun nil => absurd ((base nil.1 nil.2).symm.trans isIdle) (by decide)] at detached
    exact detached.trans isIdle
  · split at detached
    · exact absurd detached other
    · rename_i notBase
      have empty : k.processes detachedSlot = [] :=
        coherent.empty fun isParent => other (detached.trans isParent)
      have ne : detachedSlot ≠ slot := fun same => notBase ⟨same ▸ empty, same.symm⟩
      have length := goes.depth detachedSlot
      rw [empty] at length
      exact (Function.update_of_ne ne _ _).trans (List.length_eq_zero_iff.mp length)
  · split at detached
    · exact absurd (detached.symm.trans isRequested) (by decide)
    · exact absurd (detached.symm.trans isRequested) idle
  · have some' : (k.inherited other).stdin ≠ .none := goes.inherited ▸ some
    have ne : other ≠ slot := by
      rintro rfl
      exact some' (congrArg InheritedEnds.stdin none)
    rw [doing_push _ _ _ ne, goes.other other ne]
    exact coherent.stdin other some'
  · have some' : (k.inherited other).stdout ≠ .none := goes.inherited ▸ some
    obtain ⟨isDetached, place⟩ := coherent.stdout other some'
    have ne : other ≠ slot := by
      rintro rfl
      exact some' (congrArg InheritedEnds.stdout none)
    rw [if_neg fun nil => ne (isDetached.trans nil.2.symm)] at detached
    exact ⟨isDetached, by rwa [show ((k.spawnGoes slot .parent .parent).push slot p).detached =
      k.detached from detached]⟩

theorem Coherent.load {outcome : LoadOutcome} (coherent : k.Coherent)
    (loading : k.loading slot = true) (loaded : k.load slot outcome = some t) : t.Coherent := by
  rcases load_cases loaded with ⟨allocator, rfl⟩ | ⟨-, allocator, space, rfl | ⟨imageEnd, rfl⟩⟩
  · exact (coherent.control (.objects k _)).spawnGoes (k := k.setAllocator allocator) loading
  · have taken : ((((k.setAllocator allocator).takeInherited slot).dropTable
        (loadTable (k.inherited slot))).retire slot space).Coherent :=
      (coherent.takeInherited slot).control (.of_wake rfl rfl rfl rfl rfl rfl rfl id)
    exact taken.spawnGoes loading
  · have claimed : ({ k.setAllocator allocator with
        input := (k.input.claimForeground slot).2 } : System).Coherent :=
      coherent.control ⟨rfl, rfl, fun _ => rfl, id, rfl, rfl, rfl, id⟩
    exact (claimed.takeInherited slot).push loading (setInherited_self _ _ _) _

theorem Coherent.exit {interrupted : Bool} (coherent : k.Coherent) (ready : k.tasks slot = .ready)
    (ended : k.exit slot interrupted = some t) : t.Coherent := by
  unfold System.exit at ended
  split at ended
  · rename_i p rest eq
    obtain ⟨place, ended⟩ := Option.ite_none_right_eq_some.mp ended
    have user : k.doing slot = some .user := by
      rw [System.doing, eq]
      exact congrArg some place
    have idle := coherent.not_requested user
    have none := coherent.stdin_none user
    have parent : slot = detachedSlot → k.detached = .parent := by
      rintro rfl
      by_contra other
      rw [coherent.empty other] at eq
      cases eq
    obtain rfl := Option.some.inj ended
    generalize (if interrupted = true then _ else _ : Input) = input
    obtain ⟨k₁, eq₁⟩ : ∃ k₁ : System, ({ k with
        input, processes := Function.update k.processes slot rest }.dropTable p.files).retire slot
          p.space = k₁ := ⟨_, rfl⟩
    have control : Control { k with input, processes := Function.update k.processes slot rest } k₁ :=
      eq₁ ▸ .of_wake rfl rfl rfl rfl rfl rfl rfl id
    rw [eq₁]
    have goes := k₁.goes slot .returning .returning
    have detached := goes.detached
    rw [show k₁.detached = k.detached from control.detached] at detached
    have others : ∀ other, other ≠ slot →
        (k₁.spawnGoes slot .returning .returning).doing other = k.doing other := by
      intro other ne
      rw [goes.other other ne, control.doing other, System.doing, System.doing]
      show (Function.update k.processes slot rest other).head?.map _ = _
      rw [Function.update_of_ne ne]
    have inherited : (k₁.spawnGoes slot .returning .returning).inherited = k.inherited :=
      goes.inherited.trans control.inherited
    refine ⟨fun isStopped => ?_, fun other => ?_, fun isRequested => ?_, fun other some => ?_,
      fun other some => ?_⟩
    · have was : k.Stopped := by
        unfold Stopped at isStopped
        rw [goes.tasks] at isStopped
        exact control.stopped isStopped
      have ne : slot ≠ detachedSlot := by
        rintro rfl
        unfold Stopped at was
        rw [ready] at was
        rcases was with was | was <;> cases was
      rw [if_neg fun nil => ne nil.2] at detached
      exact detached.trans (coherent.stopped was)
    · have length := goes.depth detachedSlot
      rw [control.depth detachedSlot] at length
      by_cases same : slot = detachedSlot
      · split at detached
        · rename_i nil
          have empty := goes.depth detachedSlot
          rw [← same, nil.1] at empty
          exact same ▸ List.length_eq_zero_iff.mp empty
        · exact absurd (detached.trans (parent same)) other
      · rw [if_neg fun nil => same nil.2] at detached
        have empty := coherent.empty (detached ▸ other)
        have kept : Function.update k.processes slot rest detachedSlot = [] := by
          rw [Function.update_of_ne (Ne.symm same), empty]
        have zero : (k₁.spawnGoes slot .returning .returning |>.processes detachedSlot).length = 0 :=
          length.trans (congrArg List.length kept)
        exact List.length_eq_zero_iff.mp zero
    · split at detached
      · exact absurd (detached.symm.trans isRequested) (by decide)
      · exact absurd (detached.symm.trans isRequested) idle
    · rw [inherited] at some
      have ne : other ≠ slot := by
        rintro rfl
        exact some none
      rw [others other ne]
      exact coherent.stdin other some
    · rw [inherited] at some
      obtain ⟨isDetached, place⟩ := coherent.stdout other some
      have ne : slot ≠ detachedSlot := by
        intro same
        rcases place with spawning | returning
        · exact absurd ((parent same).symm.trans spawning) (by decide)
        · exact absurd ((parent same).symm.trans returning) (by decide)
      rw [if_neg fun nil => ne nil.2] at detached
      rw [detached]
      exact ⟨isDetached, place⟩
  · cases ended

theorem Coherent.finish (coherent : k.Coherent) (bits : Nat) (returning : k.detached = .returning)
    (none : (k.inherited detachedSlot).stdout = none) : (k.detachedFinish bits).Coherent := by
  refine ⟨fun _ => rfl, fun _ => coherent.empty (by rw [returning]; decide), fun isRequested => ?_,
    coherent.stdin, fun other some => ?_⟩
  · cases isRequested
  · obtain ⟨rfl, -⟩ := coherent.stdout other some
    exact absurd none some

theorem Coherent.untaken (coherent : k.Coherent) {ends : InheritedEnds} (file : File)
    (stdin : ends.stdin ≠ none → (k.inherited slot).stdin ≠ none)
    (stdout : ends.stdout ≠ none → (k.inherited slot).stdout ≠ none) :
    ((k.setInherited slot ends).release file).Coherent := by
  have fewer : (k.setInherited slot ends).Coherent := by
    refine ⟨coherent.stopped, coherent.empty, coherent.requested, fun other some => ?_,
      fun other some => ?_⟩
    · by_cases same : other = slot
      · subst same
        rw [setInherited_self] at some
        exact coherent.stdin other (stdin some)
      · rw [setInherited_of_ne _ _ same] at some
        exact coherent.stdin other some
    · by_cases same : other = slot
      · subst same
        rw [setInherited_self] at some
        exact coherent.stdout other (stdout some)
      · rw [setInherited_of_ne _ _ same] at some
        exact coherent.stdout other some
  exact fewer.control (.of_wake rfl rfl rfl rfl rfl rfl rfl id)

theorem Coherent.spawnReturns {ret : Ret} (coherent : k.Coherent)
    (returned : k.spawnReturns slot ret = some t) : t.Coherent := by
  have notStarting : ∀ {piped : Bool}, k.doing slot = some (.returning piped) →
      k.detached = .requested → slot ≠ 0 := by
    rintro piped returning isRequested rfl
    obtain ⟨handle, starting⟩ := coherent.requested isRequested
    cases returning.symm.trans starting
  unfold System.spawnReturns at returned
  split at returned
  · rename_i returning
    split at returned
    · rename_i pipe stdin
      have given : ((k.setInherited slot { k.inherited slot with stdin := none }).release
          (.pipeRead pipe)).Coherent :=
        coherent.untaken (.pipeRead pipe) (fun some => absurd rfl some) id
      refine given.leaves returning (notStarting returning) (fun some => ?_) returned
      have same : ((k.setInherited slot { k.inherited slot with stdin := none }).inherited slot).stdin ≠
        none := some
      rw [setInherited_self] at same
      exact absurd rfl same
    · rename_i stdin
      exact coherent.leaves returning (notStarting returning) (fun some => absurd stdin some) returned
  · rename_i returning
    refine coherent.leaves returning (notStarting returning) (fun some => ?_) returned
    rcases coherent.stdin slot some with spawning | piped
    · cases returning.symm.trans spawning
    · cases returning.symm.trans piped
  · cases returned

theorem Coherent.detachedBegins (coherent : k.Coherent) (ready : k.tasks detachedSlot = .ready)
    (begun : k.detachedBegins = some t) : t.Coherent := by
  unfold System.detachedBegins at begun
  obtain ⟨isRequested, begun⟩ := Option.ite_none_right_eq_some.mp begun
  have running : ¬ k.Stopped := by
    rintro (stopped | stopped) <;> cases ready.symm.trans stopped
  have empty := coherent.empty (by rw [isRequested]; decide)
  split at begun
  · cases begun
  · obtain rfl := Option.some.inj begun
    refine ⟨fun stopped => absurd stopped running, fun _ => empty, nofun,
      coherent.stdin, fun other some => ⟨(coherent.stdout other some).1, .inl rfl⟩⟩
  · rename_i pipe _
    obtain rfl := Option.some.inj begun
    refine ⟨fun stopped => absurd stopped running, fun _ => empty, nofun,
      fun other some => ?_, fun other some => ⟨?_, .inl rfl⟩⟩
    · refine coherent.stdin other ?_
      by_cases same : other = detachedSlot
      · subst same
        exact fun none => some ((congrArg InheritedEnds.stdin (k.setInherited_self _ _)).trans none)
      · exact (k.setInherited_of_ne _ same) ▸ some
    · by_contra ne
      have same := k.setInherited_of_ne { k.inherited detachedSlot with stdout := .some pipe } ne
      exact ne (coherent.stdout other fun none => some ((congrArg InheritedEnds.stdout same).trans none)).1

theorem Coherent.detachedEnds {bits : Nat} (coherent : k.Coherent)
    (ended : k.detachedEnds bits = some t) : t.Coherent := by
  unfold System.detachedEnds at ended
  obtain ⟨returning, ended⟩ := Option.ite_none_right_eq_some.mp ended
  split at ended
  · rename_i pipe stdout
    obtain rfl := Option.some.inj ended
    have given : ((k.setInherited detachedSlot { k.inherited detachedSlot with stdout := none }).release
        (.pipeWrite pipe)).Coherent :=
      coherent.untaken (.pipeWrite pipe) id (fun some => absurd rfl some)
    exact given.finish bits returning (congrArg InheritedEnds.stdout (setInherited_self _ _ _))
  · rename_i stdout
    obtain rfl := Option.some.inj ended
    exact coherent.finish bits returning stdout

theorem Coherent.step {a : Action} (coherent : k.Coherent) (next : k.step a = some t) :
    t.Coherent := by
  cases a with
  | call slot c =>
    obtain ⟨⟨ready, user⟩, left⟩ := Option.ite_none_right_eq_some.mp next
    exact coherent.call ready user left
  | resume slot =>
    obtain ⟨-, next⟩ := Option.ite_none_right_eq_some.mp next
    have notStarting : ∀ {doing : Doing}, k.doing slot = some doing →
        (∀ handle, doing ≠ .starting handle) → k.detached = .requested → slot ≠ 0 := by
      rintro doing stood other isRequested rfl
      obtain ⟨handle, starting⟩ := coherent.requested isRequested
      exact other handle (Option.some.inj (stood.symm.trans starting))
    have stdin : ∀ {doing : Doing}, k.doing slot = some doing → doing ≠ .spawning true →
        doing ≠ .returning true → (k.inherited slot).stdin = none := by
      intro doing stood notSpawning notReturning
      by_contra some
      rcases coherent.stdin slot some with spawning | returning
      · exact notSpawning (Option.some.inj (stood.symm.trans spawning))
      · exact notReturning (Option.some.inj (stood.symm.trans returning))
    unfold System.resume at next
    split at next
    · rename_i loop waiting
      have control := (k.round_ordinary waiting).2
      refine (coherent.control control).leaves ((control.doing slot).trans waiting) ?_ ?_ next
      · exact fun isRequested => notStarting waiting nofun (control.detached ▸ isRequested)
      · exact fun some => absurd (stdin waiting nofun nofun) (control.inherited ▸ some)
    · rename_i handle starting
      obtain ⟨begun, left⟩ := Option.ite_none_right_eq_some.mp next
      refine coherent.leaves starting (fun isRequested => ?_)
        (fun some => absurd (stdin starting nofun nofun) some) left
      exfalso
      rcases begun with runs | finished
      · exact runs (coherent.empty (by rw [isRequested]; decide))
      · exact absurd (isRequested.symm.trans (coherent.stopped (.inr finished))) (by decide)
    · cases next
  | load slot outcome =>
    obtain ⟨⟨-, loading⟩, next⟩ := Option.ite_none_right_eq_some.mp next
    exact coherent.load loading next
  | exit slot interrupted =>
    obtain ⟨ready, next⟩ := Option.ite_none_right_eq_some.mp next
    exact coherent.exit ready next
  | spawnReturns slot ret =>
    obtain ⟨-, next⟩ := Option.ite_none_right_eq_some.mp next
    exact coherent.spawnReturns next
  | detachedBegins =>
    obtain ⟨ready, next⟩ := Option.ite_none_right_eq_some.mp next
    exact coherent.detachedBegins ready next
  | detachedEnds bits =>
    obtain ⟨-, next⟩ := Option.ite_none_right_eq_some.mp next
    exact coherent.detachedEnds next
  | tick =>
    exact Option.some.inj next ▸ ⟨fun stopped => coherent.stopped (tick_stopped stopped),
      coherent.empty, coherent.requested, coherent.stdin, coherent.stdout⟩
  | key code =>
    have same : ({ k with input := k.input.record code } : System).Coherent :=
      coherent.control ⟨rfl, rfl, fun _ => rfl, id, rfl, rfl, rfl, id⟩
    exact Option.some.inj next ▸ same.control (Control.wakes _ k.objects [.keyboard])
  | drainKeyboard =>
    exact Option.some.inj next ▸ coherent.control ⟨rfl, rfl, fun _ => rfl, id, rfl, rfl, rfl, id⟩
  | setInteractive interactive =>
    exact Option.some.inj next ▸ coherent.control ⟨rfl, rfl, fun _ => rfl, id, rfl, rfl, rfl, id⟩

section Runs

variable {allocator : FrameAllocator} {root : Bytes} {us : Bool}

theorem coherent_of_reachable (reach : Reachable step (init allocator root us) k) : k.Coherent :=
  reach.invariant (coherent_init allocator root us) fun _ _ _ coherent next => coherent.step next

theorem ledger_init (allocator : FrameAllocator) (root : Bytes) (us : Bool) :
    (init allocator root us).ledger = ⟨0, 0, (init allocator root us).objects⟩ := rfl

theorem ledger_of_reachable {P : Ledger → Prop} (start : P (init allocator root us).ledger)
    (keeps : ∀ {event : Event} {l m : Ledger} {wakes : List Wait},
      Ledger.Change event l wakes m → P l → P m)
    (reach : Reachable step (init allocator root us) k) : P k.ledger := by
  refine (reach.invariant (P := fun k => k.Coherent ∧ P k.ledger)
    ⟨coherent_init allocator root us, start⟩ ?_).2
  rintro s a t ⟨coherent, holds⟩ next
  obtain ⟨wakes, change, -⟩ := step_follows coherent next
  exact ⟨coherent.step next, keeps change holds⟩

end Runs

end System

end Zaytos.Kernel
