import Zaytos.Kernel.FrameSpec
import Zaytos.Lib.Transition
import Mathlib.Data.List.ReduceOption

set_option autoImplicit false

/-! Frames of a destroyed address space, held back from the allocator until no TLB knows them. -/
namespace Zaytos.Kernel

open FrameAllocator

structure Held where
  frame : Nat
  generation : Nat
  deriving DecidableEq, Repr

/-- `QUARANTINE_CAPACITY`. -/
def Quarantine.capacity : Nat := 256

structure Quarantine where
  held : List (Option Held)
  overflowCount : Nat
  length_held : held.length = Quarantine.capacity

variable {entry e : Held} {i frame generation : Nat} {q q' : Quarantine}

namespace Quarantine

def new : Quarantine := ⟨.replicate capacity none, 0, List.length_replicate⟩

def place (entry : Held) : List (Option Held) → Option (List (Option Held))
  | [] => none
  | none :: rest => some (some entry :: rest)
  | some other :: rest => (place entry rest).map (some other :: ·)

theorem length_place {slots slots' : List (Option Held)}
    (placed : place entry slots = some slots') : slots'.length = slots.length := by
  induction slots generalizing slots' with
  | nil => cases placed
  | cons slot rest ih =>
    cases slot with
    | none => rw [← Option.some.inj placed, List.length_cons, List.length_cons]
    | some other =>
      obtain ⟨rest', further, rfl⟩ := Option.map_eq_some_iff.mp placed
      rw [List.length_cons, List.length_cons, ih further]

/-- `push`. Where it finds no room, the frame stays with the caller. -/
def push (q : Quarantine) (frame generation : Nat) : Bool × Quarantine :=
  match placed : place ⟨frame, generation⟩ q.held with
  | some held => (true, ⟨held, q.overflowCount, (length_place placed).trans q.length_held⟩)
  | none => (false, { q with overflowCount := q.overflowCount + 1 })

/-- One round of the loop of `release_retired`. A frame that the allocator refuses stays. -/
def releaseSlot (retired : Nat → Bool) (slot : Option Held) (allocator : FrameAllocator) :
    Option Held × FrameAllocator :=
  match slot with
  | none => (none, allocator)
  | some entry =>
    if retired entry.generation then
      match frameOfNumber entry.frame with
      | none => (some entry, allocator)
      | some frame =>
        match allocator.insertFreeRange frame 1 with
        | some allocator => (none, allocator)
        | none => (some entry, allocator)
    else (some entry, allocator)

def releaseSlots (retired : Nat → Bool) :
    List (Option Held) → FrameAllocator → List (Option Held) × FrameAllocator
  | [], allocator => ([], allocator)
  | slot :: rest, allocator =>
    let first := releaseSlot retired slot allocator
    let others := releaseSlots retired rest first.2
    (first.1 :: others.1, others.2)

theorem length_releaseSlots (retired : Nat → Bool) (slots : List (Option Held))
    (allocator : FrameAllocator) :
    (releaseSlots retired slots allocator).1.length = slots.length := by
  induction slots generalizing allocator with
  | nil => rfl
  | cons slot rest ih => rw [releaseSlots, List.length_cons, List.length_cons, ih]

def heldCount (q : Quarantine) : Nat := q.held.countP Option.isSome

/-- `release_retired`, and the number of the frames it gave back. -/
def releaseRetired (q : Quarantine) (retired : Nat → Bool) (allocator : FrameAllocator) :
    Nat × Quarantine × FrameAllocator :=
  let released := releaseSlots retired q.held allocator
  let q' : Quarantine :=
    { q with held := released.1, length_held := (length_releaseSlots ..).trans q.length_held }
  (q.heldCount - q'.heldCount, q', released.2)

def reset (_ : Quarantine) : Quarantine := new

def slot (q : Quarantine) (i : Nat) : Option Held := q.held[i]?.join

def frames (q : Quarantine) : List Nat := q.held.reduceOption.map Held.frame

theorem slot_eq_some : q.slot i = some e ↔ q.held[i]? = some (some e) := by
  rw [slot, Option.join_eq_some_iff]

theorem mem_frames {f : Nat} : f ∈ q.frames ↔ ∃ i e, q.slot i = some e ∧ e.frame = f := by
  rw [frames, List.mem_map]
  constructor
  · rintro ⟨e, mem, eq⟩
    obtain ⟨i, at'⟩ := List.mem_iff_getElem?.mp (List.reduceOption_mem_iff.mp mem)
    exact ⟨i, e, slot_eq_some.mpr at', eq⟩
  · rintro ⟨i, e, held, eq⟩
    exact ⟨e, List.reduceOption_mem_iff.mpr (List.mem_of_getElem? (slot_eq_some.mp held)), eq⟩

@[simp] theorem slot_new (i : Nat) : new.slot i = none := by
  rw [slot, new, List.getElem?_replicate]
  split <;> rfl

theorem place_slot {slots slots' : List (Option Held)} (placed : place entry slots = some slots') :
    ∃ i : Nat, slots[i]? = some none ∧ slots'[i]? = some (some entry) ∧
      ∀ k ≠ i, slots'[k]? = slots[k]? := by
  induction slots generalizing slots' with
  | nil => cases placed
  | cons slot rest ih =>
    cases slot with
    | none =>
      obtain rfl := Option.some.inj placed
      refine ⟨0, rfl, rfl, fun k other => ?_⟩
      obtain ⟨k, rfl⟩ := Nat.exists_eq_succ_of_ne_zero other
      rfl
    | some other =>
      obtain ⟨rest', further, rfl⟩ := Option.map_eq_some_iff.mp placed
      obtain ⟨i, empty, filled, same⟩ := ih further
      refine ⟨i + 1, empty, filled, fun k ne => ?_⟩
      cases k with
      | zero => rfl
      | succ k => exact same k fun eq => ne (congrArg Nat.succ eq)

theorem place_eq_none {slots : List (Option Held)}
    (full : place entry slots = none) : none ∉ slots := by
  induction slots with
  | nil => exact List.not_mem_nil
  | cons slot rest ih =>
    cases slot with
    | none => cases full
    | some other =>
      rw [place, Option.map_eq_none_iff] at full
      simpa using ih full

theorem push_true (pushed : q.push frame generation = (true, q')) :
    ∃ i, q.slot i = none ∧ q'.slot i = some ⟨frame, generation⟩ ∧ ∀ k ≠ i, q'.slot k = q.slot k := by
  rw [push] at pushed
  split at pushed
  · rename_i held placed
    obtain rfl := (Prod.mk.inj pushed).2
    obtain ⟨i, empty, filled, same⟩ := place_slot placed
    refine ⟨i, ?_, slot_eq_some.mpr filled, fun k ne => congrArg Option.join (same k ne)⟩
    rw [slot, empty]
    rfl
  · cases (Prod.mk.inj pushed).1

theorem push_false
    (refused : q.push frame generation = (false, q')) : q'.slot = q.slot ∧ none ∉ q.held := by
  rw [push] at refused
  split at refused
  · cases (Prod.mk.inj refused).1
  · rename_i full
    obtain rfl := (Prod.mk.inj refused).2
    exact ⟨rfl, place_eq_none full⟩

section Release

variable {retired : Nat → Bool} {slots : List (Option Held)} {a : FrameAllocator}

theorem releaseSlot_cases (slot : Option Held) :
    (releaseSlot retired slot a = (slot, a)) ∨
    ∃ e b, slot = some e ∧ retired e.generation = true ∧
      a.insertFreeRange e.frame 1 = some b ∧ releaseSlot retired slot a = (none, b) := by
  cases slot with
  | none => exact .inl rfl
  | some e =>
    by_cases retires : retired e.generation = true
    · cases number : frameOfNumber e.frame with
      | none => exact .inl (by simp only [releaseSlot, retires, if_true, number])
      | some frame =>
        obtain rfl := frameOfNumber_eq number
        cases inserted : a.insertFreeRange e.frame 1 with
        | none => exact .inl (by simp only [releaseSlot, retires, if_true, number, inserted])
        | some b =>
          exact .inr ⟨e, b, rfl, retires, inserted,
            by simp only [releaseSlot, retires, if_true, number, inserted]⟩
    · exact .inl (by rw [releaseSlot, if_neg retires])

/-- The slots of a quarantine name frames that have addresses, are not free, and differ. -/
structure Distinct (slots : List (Option Held)) (a : FrameAllocator) : Prop where
  low : ∀ e, some e ∈ slots → e.frame < 2 ^ 40
  clear : ∀ e, some e ∈ slots → e.frame ∉ a.free
  apart : slots.Pairwise fun x y => ∀ e ∈ x, ∀ e' ∈ y, e.frame ≠ e'.frame

/-- The allocator that the loop of `release_retired` has when it comes to slot `i`. -/
def allocatorAt (retired : Nat → Bool) (slots : List (Option Held)) (a : FrameAllocator) (i : Nat) :
    FrameAllocator :=
  (releaseSlots retired (slots.take i) a).2

theorem releaseSlots_get (i : Nat) :
    (releaseSlots retired slots a).1[i]? =
      slots[i]?.map fun slot => (releaseSlot retired slot (allocatorAt retired slots a i)).1 := by
  induction slots generalizing a i with
  | nil => rfl
  | cons slot rest ih =>
    cases i with
    | zero => rfl
    | succ i =>
      rw [releaseSlots, List.getElem?_cons_succ, List.getElem?_cons_succ, ih]
      rfl

theorem releaseSlots_free (sound : a.Sound) (distinct : Distinct slots a) :
    (releaseSlots retired slots a).2.Sound ∧
    ∀ f, f ∈ (releaseSlots retired slots a).2.free ↔ f ∈ a.free ∨
      ∃ (i : Nat) (e : Held), slots[i]? = some (some e) ∧ (releaseSlots retired slots a).1[i]? = some none ∧
        e.frame = f := by
  induction slots generalizing a with
  | nil => exact ⟨sound, fun f => ⟨.inl, fun mem => mem.resolve_right nofun⟩⟩
  | cons slot rest ih =>
    obtain ⟨first, apart⟩ := List.pairwise_cons.mp distinct.apart
    rw [releaseSlots]
    rcases releaseSlot_cases (a := a) slot with
      stays | ⟨e, b, rfl, -, inserted, emptied⟩
    · rw [stays]
      obtain ⟨sound', free⟩ := ih sound ⟨fun e mem => distinct.low e (List.mem_cons_of_mem _ mem),
        fun e mem => distinct.clear e (List.mem_cons_of_mem _ mem), apart⟩
      refine ⟨sound', fun f => (free f).trans (or_congr_right ⟨?_, ?_⟩)⟩
      · exact fun ⟨i, e, was, is, eq⟩ => ⟨i + 1, e, was, is, eq⟩
      · rintro ⟨i, e, was, is, eq⟩
        cases i with
        | zero =>
          have both : some (some e) = some none := was.symm.trans is
          cases both
        | succ i => exact ⟨i, e, was, is, eq⟩
    · rw [emptied]
      have clear := distinct.clear e List.mem_cons_self
      have leaves := insertFreeRange_leaves sound.tidy (fun f le lt => by
        obtain rfl : f = e.frame := by omega
        exact clear) inserted
      have now (f : Nat) : f ∈ b.free ↔ f ∈ a.free ∨ f = e.frame := by
        rw [leaves.frames]
        refine or_congr_right ?_
        show e.frame ≤ f ∧ f < e.frame + 1 ↔ _
        omega
      have soundB : b.Sound := leaves.sound sound fun f mem => by
        rcases (now f).mp (leaves.frames ▸ mem) with mem | rfl
        · exact sound.low f mem
        · exact distinct.low e List.mem_cons_self
      have clearB (e' : Held) (mem : some e' ∈ rest) : e'.frame ∉ b.free := fun mem' => by
        rcases (now e'.frame).mp mem' with mem' | eq
        · exact distinct.clear e' (List.mem_cons_of_mem _ mem) mem'
        · exact first (some e') mem e rfl e' rfl eq.symm
      obtain ⟨sound', free⟩ :=
        ih soundB ⟨fun e mem => distinct.low e (List.mem_cons_of_mem _ mem), clearB, apart⟩
      refine ⟨sound', fun f => ?_⟩
      rw [free f, now f, or_assoc]
      refine or_congr_right ⟨?_, ?_⟩
      · rintro (rfl | ⟨i, e', was, is, eq⟩)
        · exact ⟨0, e, rfl, rfl, rfl⟩
        · exact ⟨i + 1, e', was, is, eq⟩
      · rintro ⟨i, e', was, is, eq⟩
        cases i with
        | zero =>
          obtain rfl := Option.some.inj (Option.some.inj was)
          exact .inl eq.symm
        | succ i => exact .inr ⟨i, e', was, is, eq⟩

end Release

theorem releaseRetired_slot {retired : Nat → Bool} {a : FrameAllocator} (i : Nat) :
    (q.releaseRetired retired a).2.1.slot i = q.slot i ∨
    ∃ e, q.slot i = some e ∧ retired e.generation = true ∧
      (q.releaseRetired retired a).2.1.slot i = none := by
  show (releaseSlots retired q.held a).1[i]?.join = _ ∨
    ∃ e, _ ∧ _ ∧ (releaseSlots retired q.held a).1[i]?.join = none
  rw [releaseSlots_get, slot]
  cases q.held[i]? with
  | none => exact .inl rfl
  | some slot =>
    rcases releaseSlot_cases (a := allocatorAt retired q.held a i) slot with
      stays | ⟨e, b, rfl, retires, -, emptied⟩
    · exact .inl (by rw [Option.map_some, stays])
    · exact .inr ⟨e, rfl, retires, by rw [Option.map_some, emptied]; rfl⟩

theorem releaseRetired_gives {retired : Nat → Bool} {a : FrameAllocator} (held : q.slot i = some e)
    (low : e.frame < 2 ^ 40)
    (retires : retired e.generation = true)
    (taken : (allocatorAt retired q.held a i).insertFreeRange e.frame 1 ≠ none) :
    (q.releaseRetired retired a).2.1.slot i = none := by
  show (releaseSlots retired q.held a).1[i]?.join = none
  rw [releaseSlots_get, slot_eq_some.mp held, Option.map_some]
  obtain ⟨b, inserted⟩ := Option.ne_none_iff_exists'.mp taken
  have number : frameOfNumber e.frame = some e.frame := if_pos low
  simp only [releaseSlot, retires, if_true, number, inserted, Option.join_some]

end Quarantine

end Zaytos.Kernel

/-! Cores that cache translations, the big kernel lock, and the generation of the mappings. -/
namespace Zaytos.Kernel.Tlb

def maxCpus : Nat := 2

/-- Where a core is between taking the lock in `acquire` and giving it back. -/
inductive Phase where
  | outside
  /-- The swap is done, and `flush_if_generation_is_stale` begins. -/
  | won
  /-- The core has read `current`, which differs from what it has seen. -/
  | stale (current : Nat)
  | reloaded (current : Nat)
  | inside
  /-- In `retire_address_space`, after `detach`. -/
  | detached (q : Nat)
  /-- After `note_mapping_changed`. -/
  | bumped (q : Nat)
  | pushing (q generation : Nat)
  deriving DecidableEq, Repr

/-- A core with the frames its TLB names. The two stamps are for the proofs: when the core last
reloaded CR3 in `flush_if_generation_is_stale`, and when it last came through `acquire`. -/
structure Core where
  phase : Phase
  seenGeneration : Nat
  cached : List Nat
  flushedAt : Nat
  passedAt : Nat
  deriving DecidableEq, Repr

def Core.new : Core := ⟨.outside, 0, [], 0, 0⟩

/-- What a frame is used for: nothing, a table or a page of an address space, on its way into a
quarantine, in a quarantine, or something else, such as a frame that was leaked. -/
inductive Place where
  | free
  | mapped
  | retiring
  | held
  | elsewhere
  deriving DecidableEq, Repr

/-- The state, with `clock`, `bumps`, `place` and the stamps of the frames for the proofs. -/
structure State where
  held : Bool
  tlbGeneration : Nat
  startedApCount : Nat
  cores : Nat → Core
  allocator : FrameAllocator
  /-- `RETIRING_FRAMES`, as far as they are not pushed yet. -/
  retiringFrames : List Nat
  quarantines : Nat → Quarantine
  clock : Nat
  bumps : Nat
  place : Nat → Place
  detachedAt : Nat → Nat
  retiredAt : Nat → Nat

def boot (allocator : FrameAllocator) : State where
  held := false
  tlbGeneration := 0
  startedApCount := 0
  cores := fun _ => .new
  allocator := allocator
  retiringFrames := []
  quarantines := fun _ => .new
  clock := 0
  bumps := 0
  place := fun f => if f ∈ allocator.free then .free else .elsewhere
  detachedAt := fun _ => 0
  retiredAt := fun _ => 0

inductive Event where
  /-- A core comes to `zeikos_ap_entry`. -/
  | startAp
  | cache (c frame : Nat)
  | evict (c frame : Nat)
  | map
  | swap (c : Nat)
  | compare (c : Nat)
  | reload (c : Nat)
  | publish (c : Nat)
  | unlock (c : Nat)
  | noteMappingChanged (c : Nat)
  /-- The three parts of `retire_address_space`, for a space of these frames. -/
  | detach (c q : Nat) (frames : List Nat)
  | bump (c : Nat)
  | readGeneration (c : Nat)
  | push (c : Nat)
  | releaseRetired (q : Nat)
  | reset (q : Nat)
  deriving DecidableEq, Repr

namespace State

def participating (s : State) : Nat := 1 + s.startedApCount

def seenGenerationFor (s : State) (c : Nat) : Nat :=
  if c < maxCpus then (s.cores c).seenGeneration else 0

def generationIsRetired (s : State) (generation : Nat) : Bool :=
  (List.range s.participating).all fun c => decide (generation ≤ s.seenGenerationFor c)

def setCore (s : State) (c : Nat) (core : Core) : State :=
  { s with cores := Function.update s.cores c core }

def setPhase (s : State) (c : Nat) (phase : Phase) : State :=
  s.setCore c { s.cores c with phase := phase }

/-- The core comes out of `acquire`. -/
def pass (s : State) (c seen : Nat) : State :=
  s.setCore c { s.cores c with phase := .inside, seenGeneration := seen, passedAt := s.clock }

/-- `TLB_GENERATION.fetch_add(1)`, on 64 bits. -/
def bumpGeneration (s : State) : State :=
  { s with tlbGeneration := (s.tlbGeneration + 1) % 2 ^ 64, bumps := s.bumps + 1 }

/-- `AddressSpace::detach`: what `RETIRING_FRAMES` has no room for is leaked. -/
def detach (s : State) (frames : List Nat) : State :=
  let fitting := frames.take Quarantine.capacity
  { s with
    retiringFrames := fitting
    place := fun f => if f ∈ fitting then .retiring else if f ∈ frames then .elsewhere else s.place f
    detachedAt := fun f => if f ∈ frames then s.clock else s.detachedAt f }

/-- `push` of the next frame: what the quarantine has no room for is leaked. -/
def pushFrame (s : State) (q frame generation : Nat) (rest : List Nat) : State :=
  let pushed := (s.quarantines q).push frame generation
  { s with
    retiringFrames := rest
    quarantines := Function.update s.quarantines q pushed.2
    place := Function.update s.place frame (if pushed.1 then .held else .elsewhere) }

/-- `release_retired` with `generation_is_retired`. -/
def releaseRetired (s : State) (q : Nat) : State :=
  let released := ((s.quarantines q).releaseRetired s.generationIsRetired s.allocator).2
  { s with
    quarantines := Function.update s.quarantines q released.1
    allocator := released.2
    place := fun f =>
      if f ∈ (s.quarantines q).frames ∧ f ∉ released.1.frames then .free else s.place f }

def reset (s : State) (q : Nat) : State :=
  { s with
    quarantines := Function.update s.quarantines q (s.quarantines q).reset
    place := fun f => if f ∈ (s.quarantines q).frames then .elsewhere else s.place f }

end State

def perform (s : State) : Event → Option State
  | .startAp =>
    if s.participating < maxCpus then some { s with startedApCount := s.startedApCount + 1 }
    else none
  | .cache c frame =>
    if c < s.participating ∧ s.place frame = .mapped then
      some (s.setCore c { s.cores c with cached := frame :: (s.cores c).cached })
    else none
  | .evict c frame =>
    if c < s.participating then
      some (s.setCore c { s.cores c with cached := (s.cores c).cached.filter (· != frame) })
    else none
  | .map =>
    match s.allocator.allocateFrame with
    | (none, _) => none
    | (some frame, allocator) =>
      some { s with allocator := allocator, place := Function.update s.place frame .mapped }
  | .swap c =>
    if c < s.participating ∧ s.held = false ∧ (s.cores c).phase = .outside then
      some { s.setPhase c .won with held := true }
    else none
  | .compare c =>
    match (s.cores c).phase with
    | .won =>
      if (s.cores c).seenGeneration = s.tlbGeneration then
        some (s.pass c (s.cores c).seenGeneration)
      else some (s.setPhase c (.stale s.tlbGeneration))
    | _ => none
  | .reload c =>
    match (s.cores c).phase with
    | .stale current =>
      some (s.setCore c
        { s.cores c with phase := .reloaded current, cached := [], flushedAt := s.clock })
    | _ => none
  | .publish c =>
    match (s.cores c).phase with
    | .reloaded current => some (s.pass c current)
    | _ => none
  | .unlock c =>
    match (s.cores c).phase with
    | .inside => some { s.setPhase c .outside with held := false }
    | _ => none
  | .noteMappingChanged c =>
    match (s.cores c).phase with
    | .inside => some s.bumpGeneration
    | _ => none
  | .detach c q frames =>
    match (s.cores c).phase with
    | .inside =>
      if frames.Nodup ∧ ∀ f ∈ frames, s.place f = .mapped then
        some ((s.detach frames).setPhase c (.detached q))
      else none
    | _ => none
  | .bump c =>
    match (s.cores c).phase with
    | .detached q =>
      some { s.bumpGeneration.setPhase c (.bumped q) with
        retiredAt := fun f => if f ∈ s.retiringFrames then s.clock else s.retiredAt f }
    | _ => none
  | .readGeneration c =>
    match (s.cores c).phase with
    | .bumped q => some (s.setPhase c (.pushing q s.tlbGeneration))
    | _ => none
  | .push c =>
    match (s.cores c).phase with
    | .pushing q generation =>
      match s.retiringFrames with
      | [] => some (s.setPhase c .inside)
      | frame :: rest => some (s.pushFrame q frame generation rest)
    | _ => none
  | .releaseRetired q => some (s.releaseRetired q)
  | .reset q => some (s.reset q)

def step (s : State) (event : Event) : Option State :=
  perform { s with clock := s.clock + 1 } event

end Zaytos.Kernel.Tlb
