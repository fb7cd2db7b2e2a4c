import Zaytos.Kernel.Quarantine

set_option autoImplicit false

/-! What holds of the cores and of the frames in quarantine in every run that bumps the generation
fewer than `2 ^ 64` times. -/
namespace Zaytos.Kernel.Tlb

open FrameAllocator

namespace Phase

def generation : Phase → Option Nat
  | .stale current | .reloaded current => some current
  | .pushing _ generation => some generation
  | _ => none

def Retires : Phase → Prop
  | .bumped _ | .pushing .. => True
  | _ => False

end Phase

/-- The core has forgotten a frame that was detached at the time `detachedAt`. -/
structure Core.Clean (k : Core) (frame detachedAt : Nat) : Prop where
  notCached : frame ∉ k.cached
  flushed : detachedAt < k.flushedAt

structure Core.Knows (k : Core) (e : Held) (detachedAt retiredAt : Nat) : Prop where
  seen : e.generation ≤ k.seenGeneration → k.Clean e.frame detachedAt
  reloaded : ∀ current, k.phase = .reloaded current → k.Clean e.frame detachedAt
  passed : retiredAt < k.passedAt → e.generation ≤ k.seenGeneration

structure Core.Timely (k : Core) (clock generation : Nat) : Prop where
  seen : k.seenGeneration ≤ generation
  flushed : k.flushedAt ≤ clock
  passed : k.passedAt ≤ clock
  carries : ∀ g ∈ k.phase.generation, g = generation

structure Exclusive (held : Bool) (cores : Nat → Core) : Prop where
  held : ∀ c, (cores c).phase ≠ .outside → held = true
  alone : ∀ c c', (cores c).phase ≠ .outside → (cores c').phase ≠ .outside → c = c'

structure Placed (allocator : FrameAllocator) (frames : List Nat) (quarantines : Nat → Quarantine)
    (place : Nat → Place) : Prop where
  sound : allocator.Sound
  free : ∀ f ∈ allocator.free, place f = .free
  low : ∀ f, place f ≠ .elsewhere → f < 2 ^ 40
  retiring : ∀ f ∈ frames, place f = .retiring
  nodup : frames.Nodup
  held : ∀ q i e, (quarantines q).slot i = some e → place e.frame = .held
  unique : ∀ q i e q' i' e', (quarantines q).slot i = some e →
    (quarantines q').slot i' = some e' → e.frame = e'.frame → q = q' ∧ i = i'

/-- While a core has frames to push, no core has seen the generation they are pushed with, and none
has come through `acquire` since. -/
structure Unseen (cores : Nat → Core) (generation : Nat) (retiring : List Nat)
    (retiredAt : Nat → Nat) : Prop where
  seen : ∀ c, (cores c).seenGeneration < generation
  passed : ∀ c, ∀ f ∈ retiring, (cores c).passedAt ≤ retiredAt f

structure Inv (s : State) : Prop where
  few : s.participating ≤ maxCpus
  absent : ∀ c, s.participating ≤ c → s.cores c = .new
  exclusive : Exclusive s.held s.cores
  placed : Placed s.allocator s.retiringFrames s.quarantines s.place
  generation : s.tlbGeneration = s.bumps
  detached : ∀ f, s.detachedAt f ≤ s.clock
  timely : ∀ c, (s.cores c).Timely s.clock s.tlbGeneration
  unseen : ∀ c, (s.cores c).phase.Retires →
    Unseen s.cores s.tlbGeneration s.retiringFrames s.retiredAt
  forgotten : ∀ c f, s.place f = .free → f ∉ (s.cores c).cached
  generations : ∀ q i e, (s.quarantines q).slot i = some e →
    1 ≤ e.generation ∧ e.generation ≤ s.tlbGeneration
  knows : ∀ q i e, (s.quarantines q).slot i = some e → ∀ c,
    (s.cores c).Knows e (s.detachedAt e.frame) (s.retiredAt e.frame)

variable {k : Core} {cores : Nat → Core} {generation : Nat} {held : Bool}

theorem forall_update {c : Nat} {P : Nat → Core → Prop}
    (changed : P c k) (same : ∀ c', P c' (cores c')) (c' : Nat) :
    P c' (Function.update cores c k c') := by
  rcases eq_or_ne c' c with rfl | other
  · rw [Function.update_self]
    exact changed
  · rw [Function.update_of_ne other]
    exact same c'

theorem unchanged {α : Type} {c : Nat} (part : Core → α) (eq : part k = part (cores c)) (c' : Nat) :
    part (Function.update cores c k c') = part (cores c') :=
  forall_update (P := fun c' k => part k = part (cores c')) eq (fun _ => rfl) c'

theorem Unseen.update {retiring : List Nat}
    {retiredAt : Nat → Nat} (unseen : Unseen cores generation retiring retiredAt) {c : Nat}
    (seen : k.seenGeneration = (cores c).seenGeneration) (passed : k.passedAt = (cores c).passedAt) :
    Unseen (Function.update cores c k) generation retiring retiredAt :=
  ⟨forall_update (P := fun _ k => k.seenGeneration < generation) (seen ▸ unseen.seen c) unseen.seen,
    forall_update (P := fun _ k => ∀ f ∈ retiring, k.passedAt ≤ retiredAt f)
      (passed ▸ unseen.passed c) unseen.passed⟩

theorem Core.Timely.later {clock : Nat} (timely : k.Timely clock generation) :
    k.Timely (clock + 1) generation :=
  ⟨timely.seen, timely.flushed.trans (Nat.le_succ clock), timely.passed.trans (Nat.le_succ clock),
    timely.carries⟩

theorem Exclusive.others (exclusive : Exclusive held cores)
    {c : Nat} (past : (cores c).phase ≠ .outside) (c' : Nat) (other : c' ≠ c) :
    (cores c').phase = .outside := by
  by_contra past'
  exact other (exclusive.alone c' c past' past)

theorem Exclusive.update {c : Nat}
    (others : ∀ c' ≠ c, (cores c').phase = .outside) (locked : k.phase ≠ .outside → held = true) :
    Exclusive held (Function.update cores c k) := by
  have only (c' : Nat) (past : (Function.update cores c k c').phase ≠ .outside) : c' = c := by
    by_contra other
    rw [Function.update_of_ne other] at past
    exact past (others c' other)
  refine ⟨fun c' past => ?_, fun c' c'' past past' => (only c' past).trans (only c'' past').symm⟩
  obtain rfl := only c' past
  rw [Function.update_self] at past
  exact locked past

variable {s t : State}

theorem boot_inv {allocator : FrameAllocator} (sound : allocator.Sound) : Inv (boot allocator) := by
  have empty (q i : Nat) (e : Held) : ((boot allocator).quarantines q).slot i ≠ some e := by
    show Quarantine.new.slot i ≠ some e
    rw [Quarantine.slot_new]
    nofun
  refine ⟨Nat.le_succ 1, fun _ _ => rfl, ⟨fun _ past => absurd rfl past, fun _ _ past => absurd rfl past⟩,
    ⟨sound, fun f mem => if_pos mem, fun f used => ?_, nofun, .nil,
      fun q i e held => absurd held (empty q i e), fun q i e _ _ _ held => absurd held (empty q i e)⟩,
    rfl, fun _ => le_rfl, fun _ => ⟨le_rfl, le_rfl, le_rfl, nofun⟩, nofun, fun _ _ _ => List.not_mem_nil,
    fun q i e held => absurd held (empty q i e), fun q i e held => absurd held (empty q i e)⟩
  by_contra high
  exact used (if_neg fun mem => high (sound.low f mem))

theorem Inv.tick (inv : Inv s) : Inv { s with clock := s.clock + 1 } :=
  { inv with
    detached := fun f => (inv.detached f).trans (Nat.le_succ _)
    timely := fun c => (inv.timely c).later }

variable {c : Nat}

theorem Inv.lt_participating (inv : Inv s) (past : (s.cores c).phase ≠ .outside) :
    c < s.participating := by
  by_contra absent
  rw [inv.absent c (Nat.le_of_not_lt absent)] at past
  exact past rfl

theorem Inv.touch (inv : Inv s) (taking : c < s.participating) {cached : List Nat}
    (within : ∀ f ∈ cached, f ∈ (s.cores c).cached ∨ s.place f = .mapped) :
    Inv (s.setCore c { s.cores c with cached := cached }) := by
  have same := unchanged (c := c) (k := { s.cores c with cached := cached })
    Core.phase rfl
  refine { inv with
    absent := fun c' absent => ?_
    exclusive := ⟨fun c' past => inv.exclusive.held c' (same c' ▸ past),
      fun c' c'' past past' => inv.exclusive.alone c' c'' (same c' ▸ past) (same c'' ▸ past')⟩
    timely := forall_update (P := fun _ k => k.Timely s.clock s.tlbGeneration)
      ⟨(inv.timely c).seen, (inv.timely c).flushed, (inv.timely c).passed, (inv.timely c).carries⟩
      inv.timely
    unseen := fun c' retires => ?_
    forgotten := fun c' f free =>
      forall_update (P := fun _ k => f ∉ k.cached) (fun mem => ?_) (fun c' => inv.forgotten c' f free) c'
    knows := fun q i e held c' =>
      forall_update (P := fun _ k => k.Knows e (s.detachedAt e.frame) (s.retiredAt e.frame)) ?_
        (inv.knows q i e held) c' }
  · have other : c' ≠ c := fun eq => absurd taking (by
      rw [← eq]
      exact not_lt.mpr absent)
    exact (Function.update_of_ne other _ _).trans (inv.absent c' absent)
  · exact (inv.unseen c' (same c' ▸ retires)).update rfl rfl
  · rcases within f mem with mem | mapped
    · exact inv.forgotten c f free mem
    · cases free.symm.trans mapped
  · -- A frame in quarantine is not mapped, so no walk of the tables comes to it.
    have clean (clean : (s.cores c).Clean e.frame (s.detachedAt e.frame)) :
        Core.Clean { s.cores c with cached := cached } e.frame (s.detachedAt e.frame) := by
      refine ⟨fun mem => ?_, clean.flushed⟩
      rcases within e.frame mem with mem | mapped
      · exact clean.notCached mem
      · cases (inv.placed.held q i e held).symm.trans mapped
    have knows := inv.knows q i e held c
    exact ⟨fun seen => clean (knows.seen seen), fun g at' => clean (knows.reloaded g at'), knows.passed⟩

theorem Inv.own (inv : Inv s) (taking : c < s.participating)
    (others : ∀ c' ≠ c, (s.cores c').phase = .outside) (locked : k.phase ≠ .outside → held = true)
    (timely : k.Timely s.clock s.tlbGeneration) (unseen : k.phase.Retires →
      Unseen (Function.update s.cores c k) s.tlbGeneration s.retiringFrames s.retiredAt)
    (forgotten : ∀ f ∈ k.cached, f ∈ (s.cores c).cached)
    (knows : ∀ q i e, (s.quarantines q).slot i = some e →
      k.Knows e (s.detachedAt e.frame) (s.retiredAt e.frame)) :
    Inv { s.setCore c k with held := held } := by
  refine { inv with
    absent := fun c' absent => ?_
    exclusive := .update others locked
    timely := forall_update (P := fun _ k => k.Timely s.clock s.tlbGeneration) timely inv.timely
    unseen := fun c' retires => ?_
    forgotten := fun c' f free => forall_update (P := fun _ k => f ∉ k.cached)
      (fun mem => inv.forgotten c f free (forgotten f mem)) (fun c' => inv.forgotten c' f free) c'
    knows := fun q i e held c' =>
      forall_update (P := fun _ k => k.Knows e (s.detachedAt e.frame) (s.retiredAt e.frame))
        (knows q i e held) (inv.knows q i e held) c' }
  · have other : c' ≠ c := fun eq => absurd taking (by
      rw [← eq]
      exact not_lt.mpr absent)
    exact (Function.update_of_ne other _ _).trans (inv.absent c' absent)
  · change (Function.update s.cores c k c').phase.Retires at retires
    rcases eq_or_ne c' c with rfl | other
    · rw [Function.update_self] at retires
      exact unseen retires
    · rw [Function.update_of_ne other, others c' other] at retires
      exact retires.elim

theorem Inv.goesOn (inv : Inv s) {phase : Phase} (taking : c < s.participating)
    (others : ∀ c' ≠ c, (s.cores c').phase = .outside) (locked : phase ≠ .outside → held = true)
    (carries : ∀ g ∈ phase.generation, g = s.tlbGeneration) (unseen : phase.Retires →
      Unseen s.cores s.tlbGeneration s.retiringFrames s.retiredAt)
    (notReloaded : ∀ current, phase ≠ .reloaded current) :
    Inv { s.setPhase c phase with held := held } := by
  have timely := inv.timely c
  refine inv.own taking others locked ⟨timely.seen, timely.flushed, timely.passed, carries⟩
    (fun retires => (unseen retires).update rfl rfl) (fun _ => id) fun q i e held => ?_
  have knows := inv.knows q i e held c
  exact ⟨fun seen => ⟨(knows.seen seen).1, (knows.seen seen).2⟩,
    fun g at' => absurd at' (notReloaded g), knows.passed⟩

theorem Inv.pass (inv : Inv s) (past : (s.cores c).phase ≠ .outside)
    (clean : ∀ q i e, (s.quarantines q).slot i = some e →
      (s.cores c).Clean e.frame (s.detachedAt e.frame)) :
    Inv (s.pass c s.tlbGeneration) := by
  have timely := inv.timely c
  refine inv.own (inv.lt_participating past) (inv.exclusive.others past)
    (fun _ => inv.exclusive.held c past) ⟨le_rfl, timely.flushed, le_rfl, nofun⟩ False.elim (fun _ => id)
    fun q i e held => ?_
  exact ⟨fun _ => ⟨(clean q i e held).1, (clean q i e held).2⟩, nofun,
    fun _ => (inv.generations q i e held).2⟩

theorem Inv.bumpGeneration (inv : Inv s) (past : (s.cores c).phase ≠ .outside)
    (carries : (s.cores c).phase.generation = none) (calm : ¬(s.cores c).phase.Retires)
    (room : s.bumps + 1 < 2 ^ 64) :
    Inv s.bumpGeneration ∧ ∀ c', (s.cores c').seenGeneration < s.bumpGeneration.tlbGeneration := by
  have next : (s.tlbGeneration + 1) % 2 ^ 64 = s.tlbGeneration + 1 :=
    Nat.mod_eq_of_lt (inv.generation ▸ room)
  have others := inv.exclusive.others past
  have none (c' : Nat) : (s.cores c').phase.generation = none ∧ ¬(s.cores c').phase.Retires := by
    rcases eq_or_ne c' c with rfl | other
    · exact ⟨carries, calm⟩
    · rw [others c' other]
      exact ⟨rfl, id⟩
  refine ⟨{ inv with
    generation := next.trans (congrArg (· + 1) inv.generation)
    timely := fun c' => ⟨?_, (inv.timely c').flushed, (inv.timely c').passed, fun g mem => ?_⟩
    unseen := fun c' retires => absurd retires (none c').2
    generations := fun q i e held => ?_ }, fun c' => ?_⟩
  · show (s.cores c').seenGeneration ≤ (s.tlbGeneration + 1) % 2 ^ 64
    have seen := (inv.timely c').seen
    omega
  · change g ∈ (s.cores c').phase.generation at mem
    rw [(none c').1] at mem
    cases mem
  · show 1 ≤ e.generation ∧ e.generation ≤ (s.tlbGeneration + 1) % 2 ^ 64
    have generations := inv.generations q i e held
    omega
  · show (s.cores c').seenGeneration < (s.tlbGeneration + 1) % 2 ^ 64
    have seen := (inv.timely c').seen
    omega

theorem Inv.stampRetired (inv : Inv s) (calm : ∀ c, ¬(s.cores c).phase.Retires) :
    Inv { s with
      retiredAt := fun f => if f ∈ s.retiringFrames then s.clock else s.retiredAt f } := by
  refine { inv with
    unseen := fun c' retires => absurd retires (calm c')
    knows := fun q i e held c' => ?_ }
  have other : e.frame ∉ s.retiringFrames := fun mem => by
    cases (inv.placed.held q i e held).symm.trans (inv.placed.retiring e.frame mem)
  dsimp only
  rw [if_neg other]
  exact inv.knows q i e held c'

theorem Inv.detach (inv : Inv s) (calm : ∀ c, ¬(s.cores c).phase.Retires) {frames : List Nat}
    (nodup : frames.Nodup) (mapped : ∀ f ∈ frames, s.place f = .mapped) : Inv (s.detach frames) := by
  have fits {f : Nat} (mem : f ∈ frames.take Quarantine.capacity) : f ∈ frames :=
    List.mem_of_mem_take mem
  have apart {f : Nat} (other : s.place f ≠ .mapped) : f ∉ frames := fun mem => other (mapped f mem)
  have stays {f : Nat} (other : s.place f ≠ .mapped) : (s.detach frames).place f = s.place f := by
    show ite _ _ (ite _ _ _) = _
    rw [if_neg fun mem => apart other (fits mem), if_neg (apart other)]
  have freed {f : Nat} (now : (s.detach frames).place f = .free) : s.place f = .free := by
    by_contra other
    change ite _ _ (ite _ _ _) = _ at now
    split at now
    · cases now
    · split at now
      · cases now
      · exact other now
  have held {q i : Nat} {e : Held} (held : (s.quarantines q).slot i = some e) :
      s.place e.frame ≠ .mapped := by
    rw [inv.placed.held q i e held]
    nofun
  refine { inv with
    placed := ⟨inv.placed.sound, fun f mem => ?_, fun f used => ?_, fun f mem => if_pos mem,
      nodup.sublist (List.take_sublist ..), fun q i e at' => ?_, inv.placed.unique⟩
    detached := fun f => ?_
    unseen := fun c' retires => absurd retires (calm c')
    forgotten := fun c' f free => inv.forgotten c' f (freed free)
    knows := fun q i e at' c' => ?_ }
  · have free := inv.placed.free f mem
    exact (stays (by rw [free]; nofun)).trans free
  · refine inv.placed.low f fun elsewhere => used ?_
    exact (stays (by rw [elsewhere]; nofun)).trans elsewhere
  · exact (stays (held at')).trans (inv.placed.held q i e at')
  · show ite _ _ _ ≤ s.clock
    split
    · exact le_rfl
    · exact inv.detached f
  · show (s.cores c').Knows e (ite _ _ _) _
    rw [if_neg (apart (held at'))]
    exact inv.knows q i e at' c'

theorem pushFrame_slot (s : State) (q frame generation : Nat) (rest : List Nat) :
    ∃ room, ∀ q' i e, ((s.pushFrame q frame generation rest).quarantines q').slot i = some e →
      (s.quarantines q').slot i = some e ∨ (e = ⟨frame, generation⟩ ∧ q' = q ∧ i = room ∧
        (s.pushFrame q frame generation rest).place frame = .held) := by
  have elsewhere {q' : Nat} (other : q' ≠ q) :
      (s.pushFrame q frame generation rest).quarantines q' = s.quarantines q' :=
    Function.update_of_ne other _ _
  have here : (s.pushFrame q frame generation rest).quarantines q =
      ((s.quarantines q).push frame generation).2 := Function.update_self ..
  have place : (s.pushFrame q frame generation rest).place frame =
      if ((s.quarantines q).push frame generation).1 then .held else .elsewhere :=
    Function.update_self ..
  rcases pushed : (s.quarantines q).push frame generation with ⟨ok, quarantine⟩
  rw [pushed] at here place
  cases ok with
  | false =>
    refine ⟨0, fun q' i e held => .inl ?_⟩
    rcases eq_or_ne q' q with rfl | other
    · rwa [here, (Quarantine.push_false pushed).1] at held
    · rwa [elsewhere other] at held
  | true =>
    obtain ⟨room, -, filled, same⟩ := Quarantine.push_true pushed
    refine ⟨room, fun q' i e held => ?_⟩
    rcases eq_or_ne q' q with rfl | other
    · rw [here] at held
      rcases eq_or_ne i room with rfl | other
      · exact .inr ⟨Option.some.inj (held.symm.trans filled), rfl, rfl, place⟩
      · exact .inl (same i other ▸ held)
    · exact .inl (elsewhere other ▸ held)

theorem Inv.pushFrame (inv : Inv s) {q frame : Nat} {rest : List Nat}
    (past : (s.cores c).phase = .pushing q s.tlbGeneration)
    (frames : s.retiringFrames = frame :: rest) :
    Inv (s.pushFrame q frame s.tlbGeneration rest) := by
  have unseen := inv.unseen c (past ▸ trivial)
  have alone := inv.exclusive.others (c := c) (by rw [past]; nofun)
  have onTheWay := inv.placed.retiring frame (frames ▸ List.mem_cons_self)
  obtain ⟨notRest, nodup⟩ := List.nodup_cons.mp (frames ▸ inv.placed.nodup)
  have inRest {f : Nat} (mem : f ∈ rest) : f ∈ s.retiringFrames := frames ▸ List.mem_cons_of_mem _ mem
  have stays {f : Nat} (ne : f ≠ frame) :
      (s.pushFrame q frame s.tlbGeneration rest).place f = s.place f :=
    Function.update_of_ne ne _ _
  have apart {f : Nat} (other : s.place f ≠ .retiring) : f ≠ frame := fun eq =>
    other (eq ▸ onTheWay)
  have heldApart {q' i : Nat} {e : Held} (held : (s.quarantines q').slot i = some e) :
      e.frame ≠ frame :=
    apart (by rw [inv.placed.held q' i e held]; nofun)
  obtain ⟨room, entry⟩ := pushFrame_slot s q frame s.tlbGeneration rest
  refine { inv with
    placed := ⟨inv.placed.sound, fun f mem => ?_, fun f used => ?_, fun f mem => ?_, nodup,
      fun q' i e held => ?_, fun q₁ i₁ e₁ q₂ i₂ e₂ held₁ held₂ eq => ?_⟩
    unseen := fun c' retires => ?_
    forgotten := fun c' f free => ?_
    generations := fun q' i e held => ?_
    knows := fun q' i e held c' => ?_ }
  · have free := inv.placed.free f mem
    exact (stays (apart (by rw [free]; nofun))).trans free
  · rcases eq_or_ne f frame with rfl | other
    · exact inv.placed.low f (by rw [onTheWay]; nofun)
    · exact inv.placed.low f (stays other ▸ used)
  · exact (stays fun eq => notRest (eq ▸ mem)).trans (inv.placed.retiring f (inRest mem))
  · rcases entry q' i e held with before | ⟨rfl, -, -, place⟩
    · exact (stays (heldApart before)).trans (inv.placed.held q' i e before)
    · exact place
  · rcases entry q₁ i₁ e₁ held₁ with before₁ | ⟨rfl, rfl, rfl, -⟩ <;>
      rcases entry q₂ i₂ e₂ held₂ with before₂ | ⟨rfl, rfl, rfl, -⟩
    · exact inv.placed.unique q₁ i₁ e₁ q₂ i₂ e₂ before₁ before₂ eq
    · exact absurd eq (heldApart before₁)
    · exact absurd eq.symm (heldApart before₂)
    · exact ⟨rfl, rfl⟩
  · exact ⟨(inv.unseen c' retires).seen, fun k f mem => (inv.unseen c' retires).passed k f (inRest mem)⟩
  · rcases eq_or_ne f frame with rfl | other
    · have now : (s.pushFrame q f s.tlbGeneration rest).place f =
          if ((s.quarantines q).push f s.tlbGeneration).1 then .held else .elsewhere :=
        Function.update_self ..
      rw [now] at free
      split at free <;> cases free
    · exact inv.forgotten c' f (stays other ▸ free)
  · rcases entry q' i e held with before | ⟨rfl, -, -, -⟩
    · exact inv.generations q' i e before
    · exact ⟨lt_of_le_of_lt (Nat.zero_le _) (unseen.seen c), le_rfl⟩
  · rcases entry q' i e held with before | ⟨rfl, -, -, -⟩
    · exact inv.knows q' i e before c'
    · refine ⟨fun seen => absurd seen (not_le.mpr (unseen.seen c')), fun current at' => ?_,
        fun passed => absurd passed (not_lt.mpr ?_)⟩
      · change (s.cores c').phase = _ at at'
        rcases eq_or_ne c' c with rfl | other
        · cases past.symm.trans at'
        · cases (alone c' other).symm.trans at'
      · exact unseen.passed c' frame (frames ▸ List.mem_cons_self)

end Zaytos.Kernel.Tlb
