import Zaytos.Kernel.SpaceBook
import Zaytos.Kernel.System

set_option autoImplicit false

/-! The frames of the programs that are loaded, run and end, one after the other or one in another. -/
namespace Zaytos.Kernel

/-- `retire_address_space` pushes frames. It tells which of them found no room. -/
def Quarantine.pushAll (q : Quarantine) (generation : Nat) : List Nat → Quarantine × List Nat
  | [] => (q, [])
  | frame :: rest =>
    let pushed := q.push frame generation
    let others := pushed.2.pushAll generation rest
    (others.1, if pushed.1 then others.2 else frame :: others.2)

/-- The spaces of the programs of each task, the innermost first, and what became of the frames of
those that ended. -/
structure Lifetimes where
  allocator : FrameAllocator
  spaces : Slot → List AddressSpace
  /-- `SPAWN_QUARANTINE`. -/
  quarantines : Slot → Quarantine
  tlbGeneration : Nat
  leaked : List Nat

namespace Lifetimes

inductive Event where
  /-- `load_user_program` of an image of these pages. Whether the load comes to the stack, and
  whether it runs the program. -/
  | load (slot : Slot) (pages : List Nat) (stack run : Bool)
  | grow (slot : Slot) (page count : Nat)
  | shrink (slot : Slot) (page count : Nat)
  | mmap (slot : Slot) (address : Nat) (frames : List Nat)
  /-- The program ends, and `load_user_program` goes on. -/
  | exit (slot : Slot)
  /-- `release_retired`, which could give back what the quarantine of a slot holds. -/
  | releaseRetired (slot : Slot) (retired : Nat → Bool)

def boot (allocator : FrameAllocator) : Lifetimes where
  allocator := allocator
  spaces := fun _ => []
  quarantines := fun _ => .new
  tlbGeneration := 0
  leaked := []

/-- What `load_user_program` does with a space at the end: the quarantine of the slot is reset, and
the space is retired into it. -/
def destroy (s : Lifetimes) (slot : Slot) (space : AddressSpace) : Lifetimes :=
  let generation := (s.tlbGeneration + 1) % 2 ^ 64
  let frames := space.detach
  let pushed := (s.quarantines slot).reset.pushAll generation (frames.take Quarantine.capacity)
  { s with
    quarantines := Function.update s.quarantines slot pushed.1
    tlbGeneration := generation
    leaked := frames.drop Quarantine.capacity ++ pushed.2 ++ s.leaked }

/-- `load_user_program`. -/
def load (s : Lifetimes) (slot : Slot) (pages : List Nat) (stack run : Bool) : Lifetimes :=
  match AddressSpace.new s.allocator with
  | (none, allocator) => { s with allocator }
  | (some space, allocator) =>
    let out := space.loadInto allocator pages stack
    let s := { s with allocator := out.2.2 }
    if out.1 && run then
      { s with spaces := Function.update s.spaces slot (out.2.1 :: s.spaces slot) }
    else s.destroy slot out.2.1

def onSpace (s : Lifetimes) (slot : Slot)
    (f : AddressSpace → FrameAllocator → AddressSpace × FrameAllocator) : Option Lifetimes :=
  match s.spaces slot with
  | [] => none
  | space :: rest =>
    let out := f space s.allocator
    some { s with allocator := out.2, spaces := Function.update s.spaces slot (out.1 :: rest) }

def step (s : Lifetimes) : Event → Option Lifetimes
  | .load slot pages stack run => some (s.load slot pages stack run)
  | .grow slot page count =>
    if (page + count) * pageSize ≤ heapLimit then
      s.onSpace slot fun space a => (space.grow a page count).2
    else none
  | .shrink slot page count =>
    if (page + count) * pageSize ≤ heapLimit then
      s.onSpace slot fun space a => space.shrink a page count
    else none
  | .mmap slot address frames =>
    if mmapBase ≤ address then s.onSpace slot fun space a => (space.mapShared a address frames).2
    else none
  | .exit slot =>
    match s.spaces slot with
    | [] => none
    | space :: rest =>
      some (({ s with spaces := Function.update s.spaces slot rest } : Lifetimes).destroy slot space)
  | .releaseRetired slot retired =>
    let released := ((s.quarantines slot).releaseRetired retired s.allocator).2
    some { s with
      quarantines := Function.update s.quarantines slot released.1, allocator := released.2 }

def onTop (s : Lifetimes) (slot : Slot) (loses : AddressSpace → FrameAllocator → Bool) : Bool :=
  match s.spaces slot with
  | [] => false
  | space :: _ => loses space s.allocator

/-- Where a space is destroyed, the quarantine of the slot is empty before. Every frame that a load
takes is mapped or goes back, and the allocator refuses no frame. -/
def careful (s : Lifetimes) : Event → Bool
  | .load slot pages stack run =>
    match AddressSpace.new s.allocator with
    | (none, _) => true
    | (some space, allocator) =>
      !space.loadStrands allocator pages stack &&
        ((space.loadInto allocator pages stack).1 && run || (s.quarantines slot).heldCount == 0)
  | .grow slot page count => !s.onTop slot fun space a => space.growRefused a page count
  | .shrink slot page count => !s.onTop slot fun space a => space.shrinkRefused a page count
  | .exit slot => (s.quarantines slot).heldCount == 0
  | .mmap .. | .releaseRetired .. => true

def carefulStep (s : Lifetimes) (event : Event) : Option Lifetimes :=
  if s.careful event then s.step event else none

/-- Each of these frames is free, or part of a space that is not destroyed, or in a quarantine, or
counted as leaked. -/
def Accounted (s : Lifetimes) (all : Set Nat) : Prop :=
  ∀ f ∈ all, f ∈ s.allocator.free ∨ (∃ slot, ∃ space ∈ s.spaces slot, f ∈ space.detach) ∨
    (∃ slot i e, (s.quarantines slot).slot i = some e ∧ e.frame = f) ∨ f ∈ s.leaked

def ownedAt (s : Lifetimes) (slot : Slot) : List Nat :=
  (s.spaces slot).flatMap AddressSpace.detach ++ (s.quarantines slot).frames

def othersAt (s : Lifetimes) (slot : Slot) : List Nat :=
  ((List.finRange userTaskSlots).erase slot).flatMap s.ownedAt ++ s.leaked

def owned (s : Lifetimes) : List Nat := (List.finRange userTaskSlots).flatMap s.ownedAt ++ s.leaked

structure Ok (all : Set Nat) (s : Lifetimes) : Prop where
  book : Book all s.allocator s.owned
  regular : ∀ slot, ∀ space ∈ s.spaces slot, space.Regular

variable {s t : Lifetimes} {all : Set Nat}

theorem owned_perm (s : Lifetimes) (slot : Slot) :
    s.owned.Perm (s.ownedAt slot ++ s.othersAt slot) := by
  rw [owned, othersAt, ← List.append_assoc]
  refine List.Perm.append_right s.leaked ?_
  rw [← List.flatMap_cons]
  exact (List.perm_cons_erase (List.mem_finRange slot)).flatMap_right _

theorem mem_owned {f : Nat} : f ∈ s.owned ↔
    (∃ slot, ∃ space ∈ s.spaces slot, f ∈ space.detach) ∨
    (∃ slot i e, (s.quarantines slot).slot i = some e ∧ e.frame = f) ∨ f ∈ s.leaked := by
  simp only [owned, List.mem_append, List.mem_flatMap, ownedAt, Quarantine.mem_frames,
    List.mem_finRange, true_and, exists_or, or_assoc]

theorem accounted_iff : s.Accounted all ↔ ∀ f ∈ all, f ∈ s.allocator.free ∨ f ∈ s.owned :=
  forall₂_congr fun _ _ => or_congr_right mem_owned.symm

theorem othersAt_congr {slot : Slot} (spaces : ∀ other ≠ slot, t.spaces other = s.spaces other)
    (quarantines : ∀ other ≠ slot, t.quarantines other = s.quarantines other) :
    ((List.finRange userTaskSlots).erase slot).flatMap t.ownedAt =
      ((List.finRange userTaskSlots).erase slot).flatMap s.ownedAt := by
  refine List.flatMap_congr fun other mem => ?_
  have ne : other ≠ slot := ((List.nodup_finRange _).mem_erase_iff.mp mem).1
  rw [ownedAt, ownedAt, spaces other ne, quarantines other ne]

end Lifetimes

end Zaytos.Kernel

/-! No frame is lost over the lives of the programs, as long as every quarantine is empty when the
next space goes into it. -/
namespace Zaytos.Kernel

theorem Quarantine.pushAll_perm (q : Quarantine) (generation : Nat) (frames : List Nat) :
    ((q.pushAll generation frames).1.frames ++ (q.pushAll generation frames).2).Perm
      (frames ++ q.frames) := by
  induction frames generalizing q with
  | nil => rw [pushAll, List.append_nil, List.nil_append]
  | cons frame rest ih =>
    rw [pushAll]
    rcases pushed : q.push frame generation with ⟨_ | _, q'⟩
    · have same := ih q'
      rw [frames_push_false pushed] at same
      exact List.perm_middle.trans (same.cons frame)
    · exact (ih q').trans (((frames_push pushed).append_left rest).trans List.perm_middle)

namespace Lifetimes

variable {s t : Lifetimes} {all : Set Nat} {slot : Slot}

theorem owned_after (s : Lifetimes) (leak : List Nat) (spaces : ∀ other ≠ slot, t.spaces other = s.spaces other)
    (quarantines : ∀ other ≠ slot, t.quarantines other = s.quarantines other)
    (leaked : t.leaked = leak ++ s.leaked) :
    t.owned.Perm (t.ownedAt slot ++ (leak ++ s.othersAt slot)) := by
  refine (t.owned_perm slot).trans (List.Perm.append_left _ ?_)
  rw [othersAt, othersAt, othersAt_congr spaces quarantines, leaked]
  exact List.perm_append_comm_assoc ..

theorem owned_setSpaces (s : Lifetimes) (slot : Slot) (allocator : FrameAllocator)
    (spaces : List AddressSpace) :
    ({ s with allocator, spaces := Function.update s.spaces slot spaces } : Lifetimes).owned.Perm
      (spaces.flatMap AddressSpace.detach ++ ((s.quarantines slot).frames ++ s.othersAt slot)) := by
  have after : ({ s with allocator, spaces := Function.update s.spaces slot spaces } :
      Lifetimes).owned.Perm _ :=
    owned_after s [] (fun other ne => Function.update_of_ne ne _ _) (fun _ _ => rfl) rfl
  rw [ownedAt] at after
  dsimp only at after
  rwa [Function.update_self, List.append_assoc, List.nil_append] at after

theorem destroy_book {space : AddressSpace} {lost : List Nat}
    (book : Book all s.allocator (space.detach ++ (lost ++ s.owned))) :
    Book all (s.destroy slot space).allocator
      (((s.quarantines slot).frames ++ lost) ++ (s.destroy slot space).owned) := by
  have other {α : Type} {f : Slot → α} {x : α} (other : Slot) (ne : other ≠ slot) :
      Function.update f slot x other = f other := Function.update_of_ne ne x f
  have owned : (s.destroy slot space).owned.Perm _ :=
    owned_after s _ (fun _ _ => rfl) (fun o ne => other o ne) rfl
  have at' : (s.destroy slot space).ownedAt slot =
      (s.spaces slot).flatMap AddressSpace.detach ++ ((s.quarantines slot).reset.pushAll
        ((s.tlbGeneration + 1) % 2 ^ 64) (space.detach.take Quarantine.capacity)).1.frames := by
    rw [ownedAt]
    exact congrArg _ (congrArg _ (Function.update_self ..))
  have pushed := Quarantine.pushAll_perm (s.quarantines slot).reset ((s.tlbGeneration + 1) % 2 ^ 64)
    (space.detach.take Quarantine.capacity)
  rw [Quarantine.reset, Quarantine.frames_new, List.append_nil] at pushed
  rw [at', Quarantine.reset] at owned
  refine book.perm ?_
  have before := s.owned_perm slot
  rw [ownedAt] at before
  have parts := List.take_append_drop Quarantine.capacity space.detach
  rw [List.perm_iff_count] at *
  intro f
  have owned := owned f
  have pushed := pushed f
  have before := before f
  rw [← parts]
  simp only [List.count_append] at *
  omega

theorem regular_update {top : List AddressSpace} (regular : ∀ slot, ∀ space ∈ s.spaces slot, space.Regular)
    (topRegular : ∀ space ∈ top, space.Regular) :
    ∀ slot', ∀ space ∈ Function.update s.spaces slot top slot', space.Regular := by
  intro slot' space mem
  rcases eq_or_ne slot' slot with rfl | ne
  · rw [Function.update_self] at mem
    exact topRegular space mem
  · rw [Function.update_of_ne ne] at mem
    exact regular slot' space mem

structure Loses (all : Set Nat) (t : Lifetimes) (careful : Bool) (lost : List Nat) : Prop where
  book : Book all t.allocator (lost ++ t.owned)
  regular : ∀ slot, ∀ space ∈ t.spaces slot, space.Regular
  nil : lost = [] ↔ careful = true

theorem onSpace_loses {f : AddressSpace → FrameAllocator → AddressSpace × FrameAllocator}
    (loses : AddressSpace → FrameAllocator → Bool) (ok : s.Ok all)
    (keeps : ∀ space rest, space.Regular → Book all s.allocator (space.detach ++ rest) →
      ∃ lost, Book all (f space s.allocator).2 (lost ++ ((f space s.allocator).1.detach ++ rest)) ∧
        (f space s.allocator).1.Regular ∧ (lost = [] ↔ loses space s.allocator = false))
    (next : s.onSpace slot f = some t) : ∃ lost, Loses all t (!s.onTop slot loses) lost := by
  rw [onSpace] at next
  rw [onTop]
  cases spaces : s.spaces slot with
  | nil =>
    rw [spaces] at next
    cases next
  | cons space below =>
    rw [spaces] at next
    dsimp only at next ⊢
    have regular := ok.regular slot
    rw [spaces] at regular
    have before := s.owned_perm slot
    rw [ownedAt, spaces, List.flatMap_cons] at before
    simp only [List.append_assoc] at before
    obtain ⟨lost, book, isRegular, nil⟩ :=
      keeps space _ (regular space List.mem_cons_self) (ok.book.perm before)
    obtain rfl := Option.some.inj next
    refine ⟨lost, book.perm (List.Perm.append_left lost ?_), regular_update ok.regular ?_, ?_⟩
    · refine ((owned_setSpaces s slot _ _).trans ?_).symm
      rw [List.flatMap_cons, List.append_assoc]
    · intro space' mem
      rcases List.mem_cons.mp mem with rfl | mem
      · exact isRegular
      · exact regular space' (List.mem_cons_of_mem space mem)
    · rw [nil, Bool.not_eq_true']

theorem load_loses (ok : s.Ok all) (pages : List Nat) (stack run : Bool) :
    ∃ lost, Loses all (s.load slot pages stack run) (s.careful (.load slot pages stack run)) lost := by
  rw [load, careful]
  rcases made : AddressSpace.new s.allocator with ⟨_ | space, allocator⟩
  · exact ⟨[], AddressSpace.new_refused ok.book made, ok.regular, iff_of_true rfl rfl⟩
  · obtain ⟨book, regular⟩ := AddressSpace.new_book ok.book made
    obtain ⟨lost, book, regular, nil⟩ := AddressSpace.loadInto_book pages stack regular book
    dsimp only
    split
    · rename_i runs
      refine ⟨lost, book.perm (List.Perm.append_left lost ?_), regular_update ok.regular ?_, ?_⟩
      · have before := s.owned_perm slot
        rw [ownedAt, List.append_assoc] at before
        refine ((owned_setSpaces s slot _ _).trans ?_).symm
        rw [List.flatMap_cons, List.append_assoc]
        exact before.symm.append_left _
      · intro space' mem
        rcases List.mem_cons.mp mem with rfl | mem
        · exact regular
        · exact ok.regular slot space' mem
      · rw [nil, runs, Bool.true_or, Bool.and_true, Bool.not_eq_true']
    · rename_i fails
      -- The space goes at once, and what the quarantine of the slot held is lost with it.
      rw [Bool.not_eq_true] at fails
      refine ⟨(s.quarantines slot).frames ++ lost,
        destroy_book (s := { s with allocator := (space.loadInto allocator pages stack).2.2 })
          (book.perm (List.perm_append_comm_assoc ..)), ok.regular, ?_⟩
      rw [List.append_eq_nil_iff, nil, Quarantine.frames_eq_nil, fails, Bool.false_or, Bool.and_eq_true,
        Bool.not_eq_true', beq_iff_eq, and_comm]

theorem exit_loses (ok : s.Ok all) (next : s.step (.exit slot) = some t) :
    ∃ lost, Loses all t (s.careful (.exit slot)) lost := by
  rw [step] at next
  rw [careful]
  cases spaces : s.spaces slot with
  | nil =>
    rw [spaces] at next
    cases next
  | cons space below =>
    rw [spaces] at next
    obtain rfl := Option.some.inj next
    have regular := ok.regular slot
    rw [spaces] at regular
    have before := s.owned_perm slot
    rw [ownedAt, spaces, List.flatMap_cons] at before
    simp only [List.append_assoc] at before
    refine ⟨(s.quarantines slot).frames ++ [], destroy_book
      (s := { s with spaces := Function.update s.spaces slot below }) ((ok.book.perm before).perm ?_),
      regular_update ok.regular fun space' mem => regular space' (List.mem_cons_of_mem space mem), ?_⟩
    · exact (owned_setSpaces s slot s.allocator below).symm.append_left _
    · rw [List.append_nil, Quarantine.frames_eq_nil, beq_iff_eq]

theorem releaseRetired_loses (ok : s.Ok all) {retired : Nat → Bool}
    (next : s.step (.releaseRetired slot retired) = some t) : ∃ lost, Loses all t true lost := by
  obtain rfl := Option.some.inj next
  refine ⟨[], ?_, ok.regular, iff_of_true rfl rfl⟩
  have before := s.owned_perm slot
  rw [ownedAt, List.append_assoc] at before
  have released := Quarantine.releaseRetired_book retired
    (ok.book.perm (before.trans (List.perm_append_comm_assoc ..)))
  have after : ({ s with
      quarantines := Function.update s.quarantines slot
        ((s.quarantines slot).releaseRetired retired s.allocator).2.1
      allocator := ((s.quarantines slot).releaseRetired retired s.allocator).2.2 } :
      Lifetimes).owned.Perm _ :=
    owned_after s [] (fun _ _ => rfl) (fun other ne => Function.update_of_ne ne _ _) rfl
  rw [ownedAt] at after
  dsimp only at after
  rw [Function.update_self, List.append_assoc, List.nil_append] at after
  exact released.perm (after.trans (List.perm_append_comm_assoc ..)).symm

theorem step_loses (ok : s.Ok all) {event : Event} (next : s.step event = some t) :
    ∃ lost, Loses all t (s.careful event) lost := by
  cases event with
  | load slot pages stack run =>
    obtain rfl := Option.some.inj next
    exact load_loses ok pages stack run
  | grow slot page count =>
    obtain ⟨-, next⟩ := Option.ite_none_right_eq_some.mp next
    exact onSpace_loses _ ok (fun _ _ regular book => AddressSpace.grow_book count regular book) next
  | shrink slot page count =>
    obtain ⟨low, next⟩ := Option.ite_none_right_eq_some.mp next
    have below : page + count ≤ mmapFirstPage := by
      change (page + count) * 4096 ≤ 0x800000 - 4096 at low
      show page + count ≤ 0x10000000 / 4096
      omega
    exact onSpace_loses _ ok (fun _ _ regular book => AddressSpace.shrink_book count regular below book) next
  | mmap slot address frames =>
    obtain ⟨high, next⟩ := Option.ite_none_right_eq_some.mp next
    obtain ⟨lost, loses⟩ := onSpace_loses (fun _ _ => false) ok
      (fun space rest regular book => by
        obtain ⟨mapped, regular'⟩ := AddressSpace.mapShared_book frames regular high book
        exact ⟨[], mapped, regular', iff_of_true rfl rfl⟩) next
    have nothing : s.onTop slot (fun _ _ => false) = false := by
      rw [onTop]
      split <;> rfl
    rw [nothing] at loses
    exact ⟨lost, loses⟩
  | exit slot => exact exit_loses ok next
  | releaseRetired slot retired => exact releaseRetired_loses ok next

theorem boot_ok {allocator : FrameAllocator} (sound : allocator.Sound) :
    (boot allocator).Ok allocator.free :=
  ⟨(Book.start sound).perm (by simp [owned, ownedAt, boot]), fun _ _ => nofun⟩

theorem carefulStep_ok {event : Event} (ok : s.Ok all) (next : s.carefulStep event = some t) :
    t.Ok all := by
  rw [carefulStep] at next
  split at next
  · rename_i careful
    obtain ⟨lost, loses⟩ := step_loses ok next
    have book := loses.book
    rw [loses.nil.mpr careful] at book
    exact ⟨book, loses.regular⟩
  · cases next

/-- In every run whose steps are careful, no frame belongs to nothing. And in its last step exactly
a careful one keeps this. -/
theorem frames_accounted (allocator : {a : FrameAllocator // a.Sound})
    (reach : Reachable carefulStep (boot allocator.1) s) :
    s.Accounted allocator.1.free ∧ ∀ event t, s.step event = some t →
      (t.Accounted allocator.1.free ↔ s.careful event = true) := by
  have ok : s.Ok allocator.1.free :=
    reach.invariant (boot_ok allocator.2) fun _ _ _ ok next => carefulStep_ok ok next
  refine ⟨accounted_iff.mpr fun f mem => (ok.book.total f).mp mem, fun event t next => ?_⟩
  obtain ⟨lost, loses⟩ := step_loses ok next
  rw [accounted_iff, loses.book.lost_nil, loses.nil]

/-- A program runs, its heap grows, and it ends. -/
theorem frames_accounted_one : ∃ s, Reachable carefulStep (boot ⟨4, [⟨1, 100⟩]⟩) s ∧
    s.spaces 0 = [] ∧ (s.quarantines 0).frames.length = 8 ∧
    s.Accounted {f | 1 ≤ f ∧ f < 101} := by
  have run : ((runSteps carefulStep [.load 0 [1024] true true, .grow 0 1025 1, .exit 0]
      (boot ⟨4, [⟨1, 100⟩]⟩)).map fun s => ((s.spaces 0).length, (s.quarantines 0).frames.length)) =
        some (0, 8) := by
    decide +kernel
  obtain ⟨s, run, eq⟩ := Option.map_eq_some_iff.mp run
  obtain ⟨spaces, frames⟩ := Prod.mk.inj eq
  have reach := Reachable.refl.of_runSteps _ run
  have all : (⟨4, [⟨1, 100⟩]⟩ : FrameAllocator).free = {f | 1 ≤ f ∧ f < 101} := by
    ext f
    simp [FrameAllocator.free, Extent.covered, Extent.lo, Extent.hi, FrameRange.endFrame]
  have accounted := frames_accounted ⟨_, FrameAllocator.sound_single (by decide) (by decide)
    (by decide)⟩ reach
  exact ⟨s, reach, List.eq_nil_of_length_eq_zero spaces, frames, all ▸ accounted.1⟩

/-- The second program that ends in a slot takes the quarantine of the first. -/
theorem second_exit_loses : ∃ s, Reachable step (boot ⟨4, [⟨1, 100⟩]⟩) s ∧
    ¬s.Accounted {f | 1 ≤ f ∧ f < 101} := by
  have run : ((runSteps step [.load 0 [1024] true true, .exit 0, .load 0 [1024] true true, .exit 0]
      (boot ⟨4, [⟨1, 100⟩]⟩)).map fun s => (decide (1 ∈ s.allocator.free), decide (1 ∈ s.owned))) =
        some (false, false) := by
    decide
  obtain ⟨s, run, eq⟩ := Option.map_eq_some_iff.mp run
  obtain ⟨free, owned⟩ := Prod.mk.inj eq
  refine ⟨s, Reachable.refl.of_runSteps _ run, fun accounted => ?_⟩
  rcases accounted_iff.mp accounted 1 ⟨le_rfl, by decide⟩ with isFree | isOwned
  · exact of_decide_eq_false free isFree
  · exact of_decide_eq_false owned isOwned

end Lifetimes

end Zaytos.Kernel
