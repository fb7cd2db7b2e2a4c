import Zaytos.Kernel.TlbSafety

set_option autoImplicit false

/-! Frames leave a quarantine only after every core that takes part has forgotten them. -/
namespace Zaytos.Kernel.Tlb

open FrameAllocator

variable {s t : State} {c : Nat}

theorem generationIsRetired_iff {generation : Nat} :
    s.generationIsRetired generation = true ↔
      ∀ c < s.participating, generation ≤ s.seenGenerationFor c := by
  rw [State.generationIsRetired, List.all_eq_true]
  simp only [List.mem_range, decide_eq_true_eq]

theorem Inv.seenGenerationFor_eq (inv : Inv s) (taking : c < s.participating) :
    s.seenGenerationFor c = (s.cores c).seenGeneration :=
  if_pos (lt_of_lt_of_le taking inv.few)

/-- No core has a frame in its TLB whose generation is retired: neither those that take part nor
those that are not started. -/
theorem Inv.retired_clean (inv : Inv s) {q i : Nat} {e : Held}
    (held : (s.quarantines q).slot i = some e) (retired : s.generationIsRetired e.generation = true) :
    (∀ c < s.participating, (s.cores c).Clean e.frame (s.detachedAt e.frame)) ∧
    ∀ c, e.frame ∉ (s.cores c).cached := by
  have clean (c : Nat) (taking : c < s.participating) :
      (s.cores c).Clean e.frame (s.detachedAt e.frame) := by
    have seen := generationIsRetired_iff.mp retired c taking
    rw [inv.seenGenerationFor_eq taking] at seen
    exact (inv.knows q i e held c).seen seen
  refine ⟨clean, fun c mem => ?_⟩
  by_cases taking : c < s.participating
  · exact (clean c taking).notCached mem
  · rw [inv.absent c (Nat.le_of_not_lt taking)] at mem
    exact List.not_mem_nil mem

theorem Inv.distinct (inv : Inv s) (q : Nat) :
    Quarantine.Distinct (s.quarantines q).held s.allocator := by
  have slot {e : Held} (mem : some e ∈ (s.quarantines q).held) :
      ∃ i, (s.quarantines q).slot i = some e := by
    obtain ⟨i, at'⟩ := List.mem_iff_getElem?.mp mem
    exact ⟨i, Quarantine.slot_eq_some.mpr at'⟩
  refine ⟨fun e mem => ?_, fun e mem free => ?_, List.pairwise_iff_getElem.mpr ?_⟩
  · obtain ⟨i, held⟩ := slot mem
    exact inv.placed.low e.frame (by rw [inv.placed.held q i e held]; nofun)
  · obtain ⟨i, held⟩ := slot mem
    cases (inv.placed.held q i e held).symm.trans (inv.placed.free e.frame free)
  · intro i j lti ltj lt e at' e' at'' eq
    have held {k : Nat} {e : Held} (ltk : k < (s.quarantines q).held.length)
        (at' : e ∈ (s.quarantines q).held[k]) : (s.quarantines q).slot k = some e := by
      rw [Quarantine.slot_eq_some, List.getElem?_eq_getElem ltk, Option.mem_def.mp at']
    have same := (inv.placed.unique q i e q j e' (held lti at') (held ltj at'') eq).2
    omega

theorem releaseRetired_self (s : State) (q : Nat) : (s.releaseRetired q).quarantines q =
    ((s.quarantines q).releaseRetired s.generationIsRetired s.allocator).2.1 :=
  Function.update_self ..

theorem Inv.released (inv : Inv s) (q : Nat) :
    (s.releaseRetired q).allocator.Sound ∧
    (∀ q' i e, ((s.releaseRetired q).quarantines q').slot i = some e →
      (s.quarantines q').slot i = some e) ∧
    (∀ f, f ∈ (s.releaseRetired q).allocator.free ↔ f ∈ s.allocator.free ∨
      (f ∈ (s.quarantines q).frames ∧ f ∉ ((s.releaseRetired q).quarantines q).frames)) ∧
    ∀ f ∈ (s.quarantines q).frames, f ∉ ((s.releaseRetired q).quarantines q).frames →
      ∃ i e, (s.quarantines q).slot i = some e ∧ e.frame = f ∧
        s.generationIsRetired e.generation = true := by
  have here := releaseRetired_self s q
  have before (q' i : Nat) (e : Held)
      (held : ((s.releaseRetired q).quarantines q').slot i = some e) :
      (s.quarantines q').slot i = some e := by
    rcases eq_or_ne q' q with rfl | other
    · rw [here] at held
      rcases Quarantine.releaseRetired_slot (q := s.quarantines q')
        (a := s.allocator) i with same | ⟨_, _, _, emptied⟩
      · exact same ▸ held
      · cases emptied.symm.trans held
    · exact (show (s.releaseRetired q).quarantines q' = s.quarantines q' from
        Function.update_of_ne other _ _) ▸ held
  have emptied {i : Nat} {e : Held} (held : (s.quarantines q).slot i = some e)
      (gone : e.frame ∉ ((s.releaseRetired q).quarantines q).frames) :
      s.generationIsRetired e.generation = true ∧
        ((s.quarantines q).releaseRetired s.generationIsRetired s.allocator).2.1.slot i = none := by
    rcases Quarantine.releaseRetired_slot (q := s.quarantines q)
      (a := s.allocator) i with same | ⟨e', held', retired, emptied⟩
    · exact absurd (Quarantine.mem_frames.mpr ⟨i, e, by rw [here, same, held], rfl⟩) gone
    · obtain rfl := Option.some.inj (held.symm.trans held')
      exact ⟨retired, emptied⟩
  obtain ⟨sound, free⟩ :=
    Quarantine.releaseSlots_free inv.placed.sound (inv.distinct q)
  refine ⟨sound, before, fun f => (free f).trans (or_congr_right ⟨?_, ?_⟩), fun f mem gone => ?_⟩
  · rintro ⟨i, e, was, is, rfl⟩
    refine ⟨Quarantine.mem_frames.mpr ⟨i, e, Quarantine.slot_eq_some.mpr was, rfl⟩, fun mem => ?_⟩
    -- Another slot with the frame would have had it before.
    obtain ⟨j, e', held, eq⟩ := Quarantine.mem_frames.mp mem
    obtain ⟨-, rfl⟩ := inv.placed.unique q j e' q i e (before q j e' held)
      (Quarantine.slot_eq_some.mpr was) eq
    rw [here] at held
    have both := (Quarantine.slot_eq_some.mp held).symm.trans is
    cases both
  · rintro ⟨mem, gone⟩
    obtain ⟨i, e, held, rfl⟩ := Quarantine.mem_frames.mp mem
    have none := (emptied held gone).2
    refine ⟨i, e, Quarantine.slot_eq_some.mp held, ?_, rfl⟩
    change (Quarantine.releaseSlots s.generationIsRetired (s.quarantines q).held s.allocator).1[i]?.join =
      _ at none
    rw [Quarantine.releaseSlots_get, Quarantine.slot_eq_some.mp held, Option.map_some,
      Option.join_some] at none
    rw [Quarantine.releaseSlots_get, Quarantine.slot_eq_some.mp held, Option.map_some, none]
  · obtain ⟨i, e, held, rfl⟩ := Quarantine.mem_frames.mp mem
    exact ⟨i, e, held, rfl, (emptied held gone).1⟩

theorem Inv.releaseRetired (inv : Inv s) (q : Nat) : Inv (s.releaseRetired q) := by
  obtain ⟨sound, before, free, retired⟩ := inv.released q
  have place (f : Nat) : (s.releaseRetired q).place f =
      if f ∈ (s.quarantines q).frames ∧ f ∉ ((s.releaseRetired q).quarantines q).frames then .free
      else s.place f := by
    rw [releaseRetired_self]
    rfl
  have wasHeld {f : Nat} (mem : f ∈ (s.quarantines q).frames) : s.place f = .held := by
    obtain ⟨i, e, held, rfl⟩ := Quarantine.mem_frames.mp mem
    exact inv.placed.held q i e held
  have stays {f : Nat} (other : s.place f ≠ .held) : (s.releaseRetired q).place f = s.place f :=
    (place f).trans (if_neg fun both => other (wasHeld both.1))
  refine { inv with
    placed := ⟨sound, fun f mem => ?_, fun f used => ?_, fun f mem => ?_, inv.placed.nodup,
      fun q' i e held => ?_, fun q₁ i₁ e₁ q₂ i₂ e₂ held₁ held₂ =>
        inv.placed.unique q₁ i₁ e₁ q₂ i₂ e₂ (before q₁ i₁ e₁ held₁) (before q₂ i₂ e₂ held₂)⟩
    forgotten := fun c f now => ?_
    generations := fun q' i e held => inv.generations q' i e (before q' i e held)
    knows := fun q' i e held => inv.knows q' i e (before q' i e held) }
  · rw [place]
    split
    · rfl
    · rename_i kept
      exact inv.placed.free f (((free f).mp mem).resolve_right kept)
  · refine inv.placed.low f fun elsewhere => used ?_
    exact (stays (by rw [elsewhere]; nofun)).trans elsewhere
  · have onTheWay := inv.placed.retiring f mem
    exact (stays (by rw [onTheWay]; nofun)).trans onTheWay
  · rw [place, if_neg, inv.placed.held q' i e (before q' i e held)]
    rintro ⟨mem, gone⟩
    obtain ⟨j, e', held', eq⟩ := Quarantine.mem_frames.mp mem
    obtain ⟨rfl, rfl⟩ := inv.placed.unique q j e' q' i e held' (before q' i e held) eq
    exact gone (Quarantine.mem_frames.mpr ⟨j, e, held, rfl⟩)
  · rw [place] at now
    split at now
    · rename_i gone
      obtain ⟨i, e, held, rfl, retired⟩ := retired f gone.1 gone.2
      exact (inv.retired_clean held retired).2 c
    · exact inv.forgotten c f now

theorem Inv.reset (inv : Inv s) (q : Nat) : Inv (s.reset q) := by
  have before (q' i : Nat) (e : Held) (held : ((s.reset q).quarantines q').slot i = some e) :
      q' ≠ q ∧ (s.quarantines q').slot i = some e := by
    change (Function.update s.quarantines q (s.quarantines q).reset q').slot i = some e at held
    rcases eq_or_ne q' q with rfl | other
    · rw [Function.update_self, Quarantine.reset, Quarantine.slot_new] at held
      cases held
    · rw [Function.update_of_ne other] at held
      exact ⟨other, held⟩
  have stays {f : Nat} (other : f ∉ (s.quarantines q).frames) : (s.reset q).place f = s.place f :=
    if_neg other
  have notHeld {f : Nat} (other : s.place f ≠ .held) : f ∉ (s.quarantines q).frames := fun mem => by
    obtain ⟨i, e, held, rfl⟩ := Quarantine.mem_frames.mp mem
    exact other (inv.placed.held q i e held)
  refine { inv with
    placed := ⟨inv.placed.sound, fun f mem => ?_, fun f used => ?_, fun f mem => ?_, inv.placed.nodup,
      fun q' i e held => ?_, fun q₁ i₁ e₁ q₂ i₂ e₂ held₁ held₂ =>
        inv.placed.unique q₁ i₁ e₁ q₂ i₂ e₂ (before q₁ i₁ e₁ held₁).2 (before q₂ i₂ e₂ held₂).2⟩
    forgotten := fun c f now => ?_
    generations := fun q' i e held => inv.generations q' i e (before q' i e held).2
    knows := fun q' i e held => inv.knows q' i e (before q' i e held).2 }
  · have free := inv.placed.free f mem
    exact (stays (notHeld (by rw [free]; nofun))).trans free
  · refine inv.placed.low f fun elsewhere => used ?_
    exact (stays (notHeld (by rw [elsewhere]; nofun))).trans elsewhere
  · have onTheWay := inv.placed.retiring f mem
    exact (stays (notHeld (by rw [onTheWay]; nofun))).trans onTheWay
  · obtain ⟨other, held⟩ := before q' i e held
    refine (stays fun mem => ?_).trans (inv.placed.held q' i e held)
    obtain ⟨j, e', held', eq⟩ := Quarantine.mem_frames.mp mem
    exact other (inv.placed.unique q j e' q' i e held' held eq).1.symm
  · change (if f ∈ (s.quarantines q).frames then Place.elsewhere else s.place f) = .free at now
    split at now
    · cases now
    · exact inv.forgotten c f now

theorem Inv.map (inv : Inv s) {frame : Nat} {allocator : FrameAllocator}
    (taken : s.allocator.allocateFrame = (some frame, allocator)) :
    Inv { s with allocator := allocator, place := Function.update s.place frame .mapped } := by
  obtain ⟨takes, -⟩ := allocateFrame_some inv.placed.sound.tidy taken
  have wasFree := takes.were frame le_rfl (Nat.lt_succ_self frame)
  have free := inv.placed.free frame wasFree
  have stays {f : Nat} (other : s.place f ≠ .free) :
      Function.update s.place frame .mapped f = s.place f := by
    have ne : f ≠ frame := fun eq => other (eq ▸ free)
    exact Function.update_of_ne ne _ _
  refine { inv with
    placed := ⟨takes.sound inv.placed.sound, fun f mem => ?_, fun f used => ?_, fun f mem => ?_,
      inv.placed.nodup, fun q' i e held => ?_, inv.placed.unique⟩
    forgotten := fun c f now => ?_ }
  · obtain ⟨wasFree, other⟩ := takes.leaves.frames ▸ mem
    have ne : f ≠ frame := by
      rintro rfl
      exact other ⟨le_rfl, Nat.lt_succ_self f⟩
    exact (Function.update_of_ne ne _ _).trans (inv.placed.free f wasFree)
  · rcases eq_or_ne f frame with rfl | other
    · exact inv.placed.low f (by rw [free]; nofun)
    · exact inv.placed.low f ((Function.update_of_ne other _ _).symm.trans_ne used)
  · have onTheWay := inv.placed.retiring f mem
    exact (stays (by rw [onTheWay]; nofun)).trans onTheWay
  · have held := inv.placed.held q' i e held
    exact (stays (by rw [held]; nofun)).trans held
  · change Function.update s.place frame .mapped f = .free at now
    rcases eq_or_ne f frame with rfl | other
    · rw [Function.update_self] at now
      cases now
    · exact inv.forgotten c f ((Function.update_of_ne other _ _).symm.trans now)

theorem Inv.calm (inv : Inv s) (past : (s.cores c).phase ≠ .outside)
    (calm : ¬(s.cores c).phase.Retires) (c' : Nat) : ¬(s.cores c').phase.Retires := by
  rcases eq_or_ne c' c with rfl | other
  · exact calm
  · rw [inv.exclusive.others past c' other]
    exact id

theorem perform_bumps {event : Event} (next : perform s event = some t) : s.bumps ≤ t.bumps := by
  cases event <;> simp only [perform] at next <;> (try split at next) <;> (try split at next) <;>
    cases next <;> first | exact le_rfl | exact Nat.le_succ _

theorem perform_inv {event : Event} (inv : Inv s) (early : ∀ f, s.detachedAt f < s.clock)
    (next : perform s event = some t) (few : t.bumps < 2 ^ 64) : Inv t := by
  cases event with
  | startAp =>
    simp only [perform] at next
    split at next
    · rename_i room
      obtain rfl := Option.some.inj next
      exact { inv with
        few := by
          show 1 + (s.startedApCount + 1) ≤ maxCpus
          rw [State.participating] at room
          omega
        absent := fun c absent => inv.absent c ((Nat.le_succ _).trans absent) }
    · cases next
  | cache c frame =>
    simp only [perform] at next
    split at next
    · rename_i both
      obtain rfl := Option.some.inj next
      refine inv.touch both.1 fun f mem => ?_
      rcases List.mem_cons.mp mem with rfl | mem
      · exact .inr both.2
      · exact .inl mem
    · cases next
  | evict c frame =>
    simp only [perform] at next
    split at next
    · rename_i taking
      obtain rfl := Option.some.inj next
      exact inv.touch taking fun f mem => .inl (List.mem_of_mem_filter mem)
    · cases next
  | map =>
    simp only [perform] at next
    split at next
    · cases next
    · rename_i frame allocator taken
      obtain rfl := Option.some.inj next
      exact inv.map taken
  | swap c =>
    simp only [perform] at next
    split at next
    · rename_i open'
      obtain ⟨taking, unlocked, outside⟩ := open'
      obtain rfl := Option.some.inj next
      refine inv.goesOn taking (fun c' _ => ?_) (fun _ => rfl) nofun False.elim nofun
      by_contra past
      cases unlocked.symm.trans (inv.exclusive.held c' past)
    · cases next
  | compare c =>
    simp only [perform] at next
    split at next
    · rename_i won
      have past : (s.cores c).phase ≠ .outside := by rw [won]; nofun
      split at next
      · rename_i current
        obtain rfl := Option.some.inj next
        rw [current]
        refine inv.pass past fun q i e held => ?_
        exact (inv.knows q i e held c).seen (current ▸ (inv.generations q i e held).2)
      · obtain rfl := Option.some.inj next
        refine inv.goesOn (inv.lt_participating past) (inv.exclusive.others past)
          (fun _ => inv.exclusive.held c past) (fun g mem => ?_) False.elim nofun
        exact (Option.some.inj mem).symm
    · cases next
  | reload c =>
    simp only [perform] at next
    split at next
    · rename_i current stale
      have past : (s.cores c).phase ≠ .outside := by rw [stale]; nofun
      have timely := inv.timely c
      obtain rfl := Option.some.inj next
      refine inv.own (inv.lt_participating past) (inv.exclusive.others past)
        (fun _ => inv.exclusive.held c past) ⟨timely.seen, le_rfl, timely.passed, fun g mem => ?_⟩
        False.elim nofun fun q i e held => ?_
      · exact timely.carries g (by rw [stale]; exact mem)
      · -- The core has nothing in its TLB, at a time after the frame was detached.
        exact ⟨fun _ => ⟨List.not_mem_nil, early e.frame⟩, fun _ _ => ⟨List.not_mem_nil, early e.frame⟩,
          (inv.knows q i e held c).passed⟩
    · cases next
  | publish c =>
    simp only [perform] at next
    split at next
    · rename_i current reloaded
      have past : (s.cores c).phase ≠ .outside := by rw [reloaded]; nofun
      obtain rfl := Option.some.inj next
      rw [(inv.timely c).carries current (by rw [reloaded]; rfl)]
      exact inv.pass past fun q i e held => (inv.knows q i e held c).reloaded current reloaded
    · cases next
  | unlock c =>
    simp only [perform] at next
    split at next
    · rename_i inside
      have past : (s.cores c).phase ≠ .outside := by rw [inside]; nofun
      obtain rfl := Option.some.inj next
      exact inv.goesOn (inv.lt_participating past) (inv.exclusive.others past)
        (fun past => absurd rfl past) nofun False.elim nofun
    · cases next
  | noteMappingChanged c =>
    simp only [perform] at next
    split at next
    · rename_i inside
      obtain rfl := Option.some.inj next
      exact (inv.bumpGeneration (c := c) (by rw [inside]; nofun) (by rw [inside]; rfl)
        (by rw [inside]; exact id) few).1
    · cases next
  | detach c q frames =>
    simp only [perform] at next
    split at next
    · rename_i inside
      split at next
      · rename_i both
        have past : (s.cores c).phase ≠ .outside := by rw [inside]; nofun
        have calm := inv.calm past (by rw [inside]; exact id)
        obtain rfl := Option.some.inj next
        have detached := inv.detach calm both.1 both.2
        exact detached.goesOn (inv.lt_participating past) (inv.exclusive.others past)
          (fun _ => inv.exclusive.held c past) nofun False.elim nofun
      · cases next
    · cases next
  | bump c =>
    simp only [perform] at next
    split at next
    · rename_i q detached
      have past : (s.cores c).phase ≠ .outside := by rw [detached]; nofun
      have calm : ¬(s.cores c).phase.Retires := by rw [detached]; exact id
      obtain rfl := Option.some.inj next
      obtain ⟨bumped, ahead⟩ := inv.bumpGeneration past (by rw [detached]; rfl) calm few
      have stamped := bumped.stampRetired (inv.calm past calm)
      refine stamped.goesOn (inv.lt_participating past) (inv.exclusive.others past)
        (fun _ => inv.exclusive.held c past) nofun (fun _ => ⟨ahead, fun c' f mem => ?_⟩) nofun
      show _ ≤ ite _ _ _
      rw [if_pos mem]
      exact (inv.timely c').passed
    · cases next
  | readGeneration c =>
    simp only [perform] at next
    split at next
    · rename_i q bumped
      have past : (s.cores c).phase ≠ .outside := by rw [bumped]; nofun
      obtain rfl := Option.some.inj next
      exact inv.goesOn (inv.lt_participating past) (inv.exclusive.others past)
        (fun _ => inv.exclusive.held c past) (fun g mem => (Option.some.inj mem).symm)
        (fun _ => inv.unseen c (by rw [bumped]; trivial)) nofun
    · cases next
  | push c =>
    simp only [perform] at next
    split at next
    · rename_i q generation pushing
      have past : (s.cores c).phase ≠ .outside := by rw [pushing]; nofun
      have eq : generation = s.tlbGeneration :=
        (inv.timely c).carries generation (by rw [pushing]; rfl)
      split at next
      · obtain rfl := Option.some.inj next
        exact inv.goesOn (inv.lt_participating past) (inv.exclusive.others past)
          (fun _ => inv.exclusive.held c past) nofun False.elim nofun
      · rename_i frame rest frames
        obtain rfl := Option.some.inj next
        rw [eq]
        exact inv.pushFrame (eq ▸ pushing) frames
    · cases next
  | releaseRetired q =>
    obtain rfl := Option.some.inj next
    exact inv.releaseRetired q
  | reset q =>
    obtain rfl := Option.some.inj next
    exact inv.reset q

theorem step_inv {event : Event} (inv : Inv s) (next : step s event = some t)
    (few : t.bumps < 2 ^ 64) : Inv t :=
  perform_inv inv.tick (fun f => Nat.lt_succ_of_le (inv.detached f)) next few

theorem reachable_inv {allocator : FrameAllocator} (sound : allocator.Sound)
    (reach : Reachable step (boot allocator) s) (few : s.bumps < 2 ^ 64) : Inv s := by
  refine reach.invariant (P := fun s => s.bumps < 2 ^ 64 → Inv s) (fun _ => boot_inv sound)
    (fun s event t inv next few => ?_) few
  have earlier := perform_bumps (show perform { s with clock := s.clock + 1 } event = some t from next)
  exact step_inv (inv (lt_of_le_of_lt earlier few)) next few

/-- The state after the core with the lock has told of `n` more changes. -/
def bumpedBy (n : Nat) (s : State) : State :=
  { s with tlbGeneration := (s.tlbGeneration + n) % 2 ^ 64, clock := s.clock + n, bumps := s.bumps + n }

theorem bump_repeatedly (n : Nat) (inside : (s.cores c).phase = .inside)
    (wide : s.tlbGeneration < 2 ^ 64) :
    runSteps step (.replicate n (.noteMappingChanged c)) s = some (bumpedBy n s) := by
  induction n generalizing s with
  | zero =>
    rw [List.replicate_zero, runSteps, bumpedBy, add_zero, Nat.mod_eq_of_lt wide]
    rfl
  | succ n ih =>
    have next : step s (.noteMappingChanged c) = some (bumpedBy 1 s) := by
      simp only [step, perform, inside]
      rfl
    rw [List.replicate_succ, runSteps, next, Option.bind_some,
      ih (by exact inside) (Nat.mod_lt _ (by decide)), bumpedBy, bumpedBy, Nat.mod_add_mod]
    simp only [add_assoc, add_comm 1 n, bumpedBy]

end Zaytos.Kernel.Tlb
