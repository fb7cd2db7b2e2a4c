import Mathlib.Data.List.Nodup
import Mathlib.Data.List.Perm.Basic
import Zaytos.Kernel.Quarantine
import Zaytos.Kernel.Space

set_option autoImplicit false

/-! The frames of the allocator and of those who took some from it: each frame is in one place. -/
namespace Zaytos.Kernel

open FrameAllocator

structure Book (all : Set Nat) (a : FrameAllocator) (owned : List Nat) : Prop where
  sound : a.Sound
  low : ∀ f ∈ all, f < 2 ^ 40
  nodup : owned.Nodup
  apart : ∀ f ∈ owned, f ∉ a.free
  total : ∀ f, f ∈ all ↔ f ∈ a.free ∨ f ∈ owned

namespace Book

variable {all : Set Nat} {a b : FrameAllocator} {owned owned' : List Nat} {f : Nat}

theorem start (sound : a.Sound) : Book a.free a [] :=
  ⟨sound, sound.low, .nil, nofun, fun _ => ⟨.inl, fun free => free.resolve_right List.not_mem_nil⟩⟩

theorem perm (book : Book all a owned) (same : owned.Perm owned') : Book all a owned' :=
  ⟨book.sound, book.low, same.nodup book.nodup, fun f mem => book.apart f (same.mem_iff.mpr mem),
    fun f => (book.total f).trans (or_congr_right same.mem_iff)⟩

theorem taken (book : Book all a owned) (taken : a.allocateFrame = (some f, b)) :
    Book all b (f :: owned) := by
  obtain ⟨takes, -⟩ := allocateFrame_some book.sound.tidy taken
  obtain ⟨wasFree, free⟩ := allocateFrame_free book.sound.tidy taken
  refine ⟨takes.sound book.sound, book.low, List.nodup_cons.mpr ⟨fun mem => book.apart f mem wasFree,
    book.nodup⟩, fun g mem => ?_, fun g => ?_⟩
  · rw [free]
    rintro ⟨isFree, ne⟩
    exact book.apart g ((List.mem_cons.mp mem).resolve_left ne) isFree
  · rw [book.total, free, List.mem_cons]
    by_cases eq : g = f
    · exact iff_of_true (.inl (eq ▸ wasFree)) (.inr (.inl eq))
    · simp only [eq, ne_eq, not_false_eq_true, and_true, false_or]

theorem refused (book : Book all a owned) (refused : a.allocateFrame = (none, b)) :
    Book all b owned := by
  obtain ⟨rfl, -⟩ := allocateFrame_none book.sound refused
  exact book

theorem given (book : Book all a (f :: owned)) (given : a.insertFreeRange f 1 = some b) :
    Book all b owned := by
  obtain ⟨notOwned, nodup⟩ := List.nodup_cons.mp book.nodup
  have mine : f ∈ all := (book.total f).mpr (.inr List.mem_cons_self)
  have leaves := insertFreeRange_leaves book.sound.tidy (fun g le lt => by
    obtain rfl : g = f := by omega
    exact book.apart g List.mem_cons_self) given
  have free (g : Nat) : g ∈ b.free ↔ g ∈ a.free ∨ g = f := by
    rw [leaves.frames]
    refine or_congr_right ?_
    show f ≤ g ∧ g < f + 1 ↔ _
    omega
  refine ⟨leaves.sound book.sound fun g mem => ?_, book.low, nodup, fun g mem => ?_, fun g => ?_⟩
  · rcases (free g).mp (leaves.frames ▸ mem) with mem | rfl
    · exact book.sound.low g mem
    · exact book.low g mine
  · rw [free]
    rintro (isFree | rfl)
    · exact book.apart g (List.mem_cons_of_mem f mem) isFree
    · exact notOwned mem
  · rw [book.total, free, List.mem_cons, or_assoc]

theorem lost_nil {lost : List Nat} (book : Book all a (lost ++ owned)) :
    (∀ f ∈ all, f ∈ a.free ∨ f ∈ owned) ↔ lost = [] := by
  constructor
  · intro accounted
    refine List.eq_nil_iff_forall_not_mem.mpr fun f mem => ?_
    have both : f ∈ lost ++ owned := List.mem_append_left owned mem
    rcases accounted f ((book.total f).mpr (.inr both)) with free | owned
    · exact book.apart f both free
    · exact (List.nodup_append.mp book.nodup).2.2 f mem f owned rfl
  · rintro rfl f mem
    exact (book.total f).mp mem

end Book

namespace Quarantine

theorem frames_place {entry : Held} {slots slots' : List (Option Held)}
    (placed : place entry slots = some slots') :
    (slots'.reduceOption.map Held.frame).Perm (entry.frame :: slots.reduceOption.map Held.frame) := by
  induction slots generalizing slots' with
  | nil => cases placed
  | cons slot rest ih =>
    cases slot with
    | none =>
      obtain rfl := Option.some.inj placed
      rw [List.reduceOption_cons_of_some, List.reduceOption_cons_of_none, List.map_cons]
    | some other =>
      obtain ⟨rest', further, rfl⟩ := Option.map_eq_some_iff.mp placed
      rw [List.reduceOption_cons_of_some, List.reduceOption_cons_of_some, List.map_cons, List.map_cons]
      exact ((ih further).cons _).trans (.swap ..)

theorem frames_push {q q' : Quarantine} {frame generation : Nat}
    (pushed : q.push frame generation = (true, q')) : q'.frames.Perm (frame :: q.frames) := by
  rw [push] at pushed
  split at pushed
  · rename_i placed
    obtain rfl := (Prod.mk.inj pushed).2
    exact frames_place placed
  · cases (Prod.mk.inj pushed).1

theorem frames_push_false {q q' : Quarantine} {frame generation : Nat}
    (refused : q.push frame generation = (false, q')) : q'.frames = q.frames := by
  rw [push] at refused
  split at refused
  · cases (Prod.mk.inj refused).1
  · obtain rfl := (Prod.mk.inj refused).2
    rfl

@[simp] theorem frames_new : new.frames = [] := by
  rw [frames, new, List.reduceOption_replicate_none, List.map_nil]

theorem frames_eq_nil {q : Quarantine} : q.frames = [] ↔ q.heldCount = 0 := by
  rw [frames, List.map_eq_nil_iff, heldCount, ← List.length_eq_zero_iff, List.reduceOption_length_eq,
    List.countP_eq_length_filter]

theorem releaseSlots_book {all : Set Nat} {retired : Nat → Bool} {slots : List (Option Held)}
    {a : FrameAllocator} {rest : List Nat}
    (book : Book all a (slots.reduceOption.map Held.frame ++ rest)) :
    Book all (releaseSlots retired slots a).2
      ((releaseSlots retired slots a).1.reduceOption.map Held.frame ++ rest) := by
  induction slots generalizing a rest with
  | nil => exact book
  | cons slot others ih =>
    rw [releaseSlots]
    rcases releaseSlot_cases (a := a) slot with
      stays | ⟨e, b, rfl, -, inserted, emptied⟩
    · rw [stays]
      cases slot with
      | none => exact ih book
      | some e =>
        rw [List.reduceOption_cons_of_some, List.map_cons] at book ⊢
        exact (ih (book.perm List.perm_middle.symm)).perm List.perm_middle
    · rw [emptied, List.reduceOption_cons_of_none]
      rw [List.reduceOption_cons_of_some, List.map_cons] at book
      exact ih (book.given inserted)

theorem releaseRetired_book {all : Set Nat} (retired : Nat → Bool) {q : Quarantine}
    {a : FrameAllocator} {rest : List Nat} (book : Book all a (q.frames ++ rest)) :
    Book all (q.releaseRetired retired a).2.2 ((q.releaseRetired retired a).2.1.frames ++ rest) :=
  releaseSlots_book book

end Quarantine

end Zaytos.Kernel

/-! Where the frames go that are taken for an address space. -/
namespace Zaytos.Kernel

open FrameAllocator

/-- The first page that `mmap` gives out. -/
abbrev mmapFirstPage : Nat := mmapBase / pageSize

namespace AddressSpace

/-- `map_fresh` has a frame that is neither mapped nor given back. -/
def freshStrands (space : AddressSpace) (a : FrameAllocator) (page : Nat) (goesBack : Bool) : Bool :=
  match a.allocateFrame with
  | (none, _) => false
  | (some frame, a) =>
    if isCanonical (page * pageSize) = false then true
    else
      match space.mapUser4kib a page frame with
      | (true, _, _) => false
      | (false, _, a) => !goesBack || (a.insertFreeRange frame 1).isNone

def segmentsStrand (space : AddressSpace) (a : FrameAllocator) : List Nat → Bool
  | [] => false
  | page :: rest =>
    space.freshStrands a page true ||
      match space.mapFresh a page true with
      | (true, space, a) => space.segmentsStrand a rest
      | (false, _, _) => false

/-- `load_user_program_into` loses a frame: at a page that is no address, or at a stack that cannot
be mapped, or where the allocator refuses a frame that comes back. -/
def loadStrands (space : AddressSpace) (a : FrameAllocator) (pages : List Nat) (stack : Bool) : Bool :=
  space.segmentsStrand a pages ||
    match space.mapSegments a pages with
    | (true, space, a) => stack && space.freshStrands a (userProgramStackTop / pageSize - 1) false
    | (false, _, _) => false

def growRefused (space : AddressSpace) (a : FrameAllocator) (page : Nat) : Nat → Bool
  | 0 => false
  | count + 1 =>
    match a.allocateFrame with
    | (none, _) => false
    | (some frame, a) =>
      match space.map4kib a page ⟨frame, false⟩ with
      | (true, space, a) => space.growRefused a (page + 1) count
      | (false, _, a) => (a.insertFreeRange frame 1).isNone

def shrinkRefused (space : AddressSpace) (a : FrameAllocator) (page : Nat) : Nat → Bool
  | 0 => false
  | count + 1 =>
    match space.unmap4kib (page + count) with
    | (some leaf, space) =>
      (a.insertFreeRange leaf.frame 1).isNone ||
        space.shrinkRefused (a.deallocateFrame leaf.frame) page count
    | (none, space) => space.shrinkRefused a page count

/-- No page is there twice, and what is shared is where `mmap` maps. -/
structure Regular (space : AddressSpace) : Prop where
  once : (space.leaves.map Prod.fst).Nodup
  shared : ∀ entry ∈ space.leaves, entry.2.shared = true → mmapFirstPage ≤ entry.1

variable {space space' : AddressSpace} {a a' : FrameAllocator} {all : Set Nat} {rest : List Nat}
  {page : Nat}

theorem detach_table (space : AddressSpace) (key : Nat × Nat) (frame : Nat) :
    ({ space with tables := (key, frame) :: space.tables }.detach).Perm (frame :: space.detach) := by
  simp only [detach, List.map_cons, List.append_assoc, List.cons_append]
  exact List.perm_middle

theorem new_book (book : Book all a rest) (made : new a = (some space, a')) :
    Book all a' (space.detach ++ rest) ∧ space.Regular := by
  obtain ⟨some, rfl⟩ := Prod.mk.inj made
  obtain ⟨pml4, taken, rfl⟩ := Option.map_eq_some_iff.mp some
  exact ⟨book.taken (Prod.ext taken rfl), ⟨.nil, nofun⟩⟩

theorem new_refused (book : Book all a rest) (made : new a = (none, a')) : Book all a' rest := by
  obtain ⟨none, rfl⟩ := Prod.mk.inj made
  exact book.refused (Prod.ext (Option.map_eq_none_iff.mp none) rfl)

theorem ensureTables_book (levels : List Nat) (book : Book all a (space.detach ++ rest)) :
    let out := space.ensureTables a page levels
    Book all out.2.2 (out.2.1.detach ++ rest) ∧ out.2.1.leaves = space.leaves := by
  induction levels generalizing space a with
  | nil => exact ⟨book, rfl⟩
  | cons level below ih =>
    rw [ensureTables]
    cases space.table level page with
    | some _ => exact ih book
    | none =>
      rcases taken : a.allocateFrame with ⟨_ | frame, b⟩
      · exact ⟨book.refused taken, rfl⟩
      · exact ih ((book.taken taken).perm ((detach_table space _ frame).append_right rest).symm)

theorem mapPage_book {frame : Nat} (regular : space.Regular)
    (book : Book all a (frame :: (space.detach ++ rest))) :
    let out := space.mapPage a page ⟨frame, false⟩
    Book all out.2.2 ((if out.1 then [] else [frame]) ++ (out.2.1.detach ++ rest)) ∧ out.2.1.Regular := by
  obtain ⟨made, leaves⟩ := ensureTables_book [3, 2, 1]
    (book.perm (List.perm_middle (a := frame)).symm)
  have regular' : (space.ensureTables a page [3, 2, 1]).2.1.Regular :=
    ⟨by rw [leaves]; exact regular.once, by rw [leaves]; exact regular.shared⟩
  rw [mapPage]
  dsimp only
  split
  · rename_i free
    refine ⟨made.perm List.perm_middle, ⟨List.nodup_cons.mpr ⟨fun mem => ?_, regular'.once⟩, ?_⟩⟩
    · obtain ⟨entry, mem, eq⟩ := List.mem_map.mp mem
      have other := List.lookup_eq_none_iff.mp free.2 entry mem
      rw [eq, bne_self_eq_false] at other
      cases other
    · intro entry mem shared
      rcases List.mem_cons.mp mem with rfl | mem
      · cases shared
      · exact regular'.shared entry mem shared
  · exact ⟨made.perm List.perm_middle, regular'⟩

theorem mapPage_shared_book {frame : Nat} (regular : space.Regular) (high : mmapFirstPage ≤ page)
    (book : Book all a (space.detach ++ rest)) :
    let out := space.mapPage a page ⟨frame, true⟩
    Book all out.2.2 (out.2.1.detach ++ rest) ∧ out.2.1.Regular := by
  obtain ⟨made, leaves⟩ := ensureTables_book [3, 2, 1] book
  have regular' : (space.ensureTables a page [3, 2, 1]).2.1.Regular :=
    ⟨by rw [leaves]; exact regular.once, by rw [leaves]; exact regular.shared⟩
  rw [mapPage]
  dsimp only
  split
  · rename_i free
    refine ⟨made, ⟨List.nodup_cons.mpr ⟨fun mem => ?_, regular'.once⟩, fun entry mem shared => ?_⟩⟩
    · obtain ⟨entry, mem, eq⟩ := List.mem_map.mp mem
      have other := List.lookup_eq_none_iff.mp free.2 entry mem
      rw [eq, bne_self_eq_false] at other
      cases other
    · rcases List.mem_cons.mp mem with rfl | mem
      · exact high
      · exact regular'.shared entry mem shared
  · exact ⟨made, regular'⟩

theorem mapUser4kib_book {frame : Nat} (regular : space.Regular)
    (book : Book all a (frame :: (space.detach ++ rest))) :
    let out := space.mapUser4kib a page frame
    Book all out.2.2 ((if out.1 then [] else [frame]) ++ (out.2.1.detach ++ rest)) ∧ out.2.1.Regular := by
  rw [mapUser4kib]
  split
  · exact mapPage_book regular book
  · exact ⟨book, regular⟩

theorem map4kib_book {frame : Nat} (regular : space.Regular)
    (book : Book all a (frame :: (space.detach ++ rest))) :
    let out := space.map4kib a page ⟨frame, false⟩
    Book all out.2.2 ((if out.1 then [] else [frame]) ++ (out.2.1.detach ++ rest)) ∧ out.2.1.Regular := by
  rw [map4kib]
  split
  · exact mapPage_book regular book
  · exact ⟨book, regular⟩

theorem deallocateFrame_book {frame : Nat} {owned : List Nat} (book : Book all a (frame :: owned)) :
    ∃ lost, Book all (a.deallocateFrame frame) (lost ++ owned) ∧
      (lost = [] ↔ (a.insertFreeRange frame 1).isNone = false) := by
  rw [deallocateFrame]
  cases given : a.insertFreeRange frame 1 with
  | none => exact ⟨[frame], book, iff_of_false (by simp) (by simp)⟩
  | some b => exact ⟨[], book.given given, iff_of_true rfl rfl⟩

theorem mapFresh_book {goesBack : Bool} (regular : space.Regular)
    (book : Book all a (space.detach ++ rest)) :
    let out := space.mapFresh a page goesBack
    ∃ lost, Book all out.2.2 (lost ++ (out.2.1.detach ++ rest)) ∧ out.2.1.Regular ∧
      (lost = [] ↔ space.freshStrands a page goesBack = false) := by
  rw [mapFresh, freshStrands]
  rcases taken : a.allocateFrame with ⟨_ | frame, b⟩
  · exact ⟨[], book.refused taken, regular, iff_of_true rfl rfl⟩
  · have withFrame := book.taken taken
    dsimp only
    split
    · exact ⟨[frame], withFrame, regular, iff_of_false nofun nofun⟩
    · obtain ⟨mapped, regular'⟩ := mapUser4kib_book regular withFrame
      rcases out : space.mapUser4kib b page frame with ⟨_ | _, space', a'⟩
      · rw [out] at mapped regular'
        cases goesBack with
        | true =>
          obtain ⟨lost, book', nil⟩ := deallocateFrame_book mapped
          exact ⟨lost, book', regular', by rw [nil]; rfl⟩
        | false => exact ⟨[frame], mapped, regular', iff_of_false nofun nofun⟩
      · rw [out] at mapped regular'
        exact ⟨[], mapped, regular', iff_of_true rfl rfl⟩

theorem append_lost {lost more : List Nat} {p q : Bool} (first : lost = [] ↔ p = false)
    (second : more = [] ↔ q = false) : more ++ lost = [] ↔ (p || q) = false := by
  rw [List.append_eq_nil_iff, Bool.or_eq_false_iff, first, second, and_comm]

theorem mapSegments_book (pages : List Nat) (regular : space.Regular)
    (book : Book all a (space.detach ++ rest)) :
    let out := space.mapSegments a pages
    ∃ lost, Book all out.2.2 (lost ++ (out.2.1.detach ++ rest)) ∧ out.2.1.Regular ∧
      (lost = [] ↔ space.segmentsStrand a pages = false) := by
  induction pages generalizing space a rest with
  | nil => exact ⟨[], book, regular, iff_of_true rfl rfl⟩
  | cons page pages ih =>
    rw [mapSegments, segmentsStrand]
    obtain ⟨lost, book', regular', nil⟩ := mapFresh_book regular book
    rcases out : space.mapFresh a page true with ⟨_ | _, space', a'⟩
    · rw [out] at book' regular'
      exact ⟨lost, book', regular', by rw [nil, Bool.or_false]⟩
    · rw [out] at book' regular'
      obtain ⟨more, book'', regular'', nil'⟩ := ih regular'
        (book'.perm (List.perm_append_comm_assoc lost space'.detach rest))
      refine ⟨more ++ lost, ?_, regular'', append_lost nil nil'⟩
      rw [List.append_assoc]
      exact book''.perm ((List.perm_append_comm_assoc _ lost rest).append_left more)

theorem loadInto_book (pages : List Nat) (stack : Bool) (regular : space.Regular)
    (book : Book all a (space.detach ++ rest)) :
    let out := space.loadInto a pages stack
    ∃ lost, Book all out.2.2 (lost ++ (out.2.1.detach ++ rest)) ∧ out.2.1.Regular ∧
      (lost = [] ↔ space.loadStrands a pages stack = false) := by
  rw [loadInto, loadStrands]
  obtain ⟨lost, book', regular', nil⟩ := mapSegments_book pages regular book
  rcases out : space.mapSegments a pages with ⟨_ | _, space', a'⟩
  · rw [out] at book' regular'
    exact ⟨lost, book', regular', by rw [nil, Bool.or_false]⟩
  · rw [out] at book' regular'
    cases stack with
    | false => exact ⟨lost, book', regular', by rw [nil]; simp only [Bool.false_and, Bool.or_false]⟩
    | true =>
      obtain ⟨more, book'', regular'', nil'⟩ := mapFresh_book regular'
        (book'.perm (List.perm_append_comm_assoc lost space'.detach rest))
      refine ⟨more ++ lost, ?_, regular'', append_lost nil nil'⟩
      rw [List.append_assoc]
      exact book''.perm ((List.perm_append_comm_assoc _ lost rest).append_left more)

theorem grow_book (count : Nat) (regular : space.Regular) (book : Book all a (space.detach ++ rest)) :
    let out := space.grow a page count
    ∃ lost, Book all out.2.2 (lost ++ (out.2.1.detach ++ rest)) ∧ out.2.1.Regular ∧
      (lost = [] ↔ space.growRefused a page count = false) := by
  induction count generalizing space a page with
  | zero => exact ⟨[], book, regular, iff_of_true rfl rfl⟩
  | succ count ih =>
    rw [grow, growRefused]
    rcases taken : a.allocateFrame with ⟨_ | frame, b⟩
    · exact ⟨[], book.refused taken, regular, iff_of_true rfl rfl⟩
    · obtain ⟨mapped, regular'⟩ := map4kib_book regular (book.taken taken)
      dsimp only
      rcases out : space.map4kib b page ⟨frame, false⟩ with ⟨_ | _, space', a'⟩
      · rw [out] at mapped regular'
        obtain ⟨lost, book', nil⟩ := deallocateFrame_book mapped
        exact ⟨lost, book', regular', nil⟩
      · rw [out] at mapped regular'
        exact ih regular' mapped

theorem unmap4kib_some (regular : space.Regular) {leaf : Leaf} (found : space.leaf page = some leaf) :
    ∃ before after, space.leaves = before ++ (page, leaf) :: after ∧
      (space.unmap4kib page).2.leaves = before ++ after := by
  obtain ⟨before, after, leaves, notBefore⟩ := List.lookup_eq_some_iff.mp found
  have once := regular.once
  rw [leaves, List.map_append, List.map_cons, List.nodup_middle, List.nodup_cons] at once
  refine ⟨before, after, leaves, ?_⟩
  rw [unmap4kib, leaves]
  dsimp only
  rw [List.filter_append, List.filter_cons_of_neg (by simp), ← List.filter_append,
    List.filter_eq_self]
  intro entry mem
  refine decide_eq_true fun eq => once.1 ?_
  rw [← List.map_append]
  exact List.mem_map.mpr ⟨entry, mem, eq⟩

theorem unmap4kib_book (regular : space.Regular) (low : page < mmapFirstPage)
    (book : Book all a (space.detach ++ rest)) :
    let out := space.unmap4kib page
    Book all a ((out.1.map Leaf.frame).toList ++ (out.2.detach ++ rest)) ∧ out.2.Regular := by
  have regular' : (space.unmap4kib page).2.Regular :=
    ⟨regular.once.sublist (List.filter_sublist.map Prod.fst),
      fun entry mem => regular.shared entry (List.mem_of_mem_filter mem)⟩
  refine ⟨?_, regular'⟩
  have first : (space.unmap4kib page).1 = space.leaf page := rfl
  have tables : (space.unmap4kib page).2.tables = space.tables := rfl
  have pml4 : (space.unmap4kib page).2.pml4 = space.pml4 := rfl
  rw [first]
  cases found : space.leaf page with
  | none =>
    have same : (space.unmap4kib page).2.leaves = space.leaves := by
      refine List.filter_eq_self.mpr fun entry mem => decide_eq_true fun eq => ?_
      have other := List.lookup_eq_none_iff.mp found entry mem
      rw [eq, bne_self_eq_false] at other
      cases other
    have detached : (space.unmap4kib page).2.detach = space.detach := by
      rw [detach, same, tables, pml4, detach]
    rw [detached]
    exact book
  | some leaf =>
    obtain ⟨before, after, leaves, left⟩ := unmap4kib_some regular found
    have own : leaf.shared = false := by
      refine Bool.eq_false_of_not_eq_true fun shared => ?_
      have high := regular.shared (page, leaf) (leaves ▸ List.mem_append_right _ List.mem_cons_self) shared
      exact absurd low (not_lt.mpr high)
    show Book all a ((leaf.frame :: (space.unmap4kib page).2.detach) ++ rest)
    refine book.perm (List.Perm.append_right rest ?_)
    rw [detach, detach, leaves, left, tables, pml4, List.filter_append, List.filter_append,
      List.filter_cons_of_pos (by rw [own]; rfl), List.map_append, List.map_append, List.map_cons]
    simp only [List.append_assoc, List.cons_append]
    exact List.perm_middle

theorem shrink_book (count : Nat) (regular : space.Regular) (low : page + count ≤ mmapFirstPage)
    (book : Book all a (space.detach ++ rest)) :
    let out := space.shrink a page count
    ∃ lost, Book all out.2 (lost ++ (out.1.detach ++ rest)) ∧ out.1.Regular ∧
      (lost = [] ↔ space.shrinkRefused a page count = false) := by
  induction count generalizing space a rest with
  | zero => exact ⟨[], book, regular, iff_of_true rfl rfl⟩
  | succ count ih =>
    rw [shrink, shrinkRefused]
    obtain ⟨gone, regular'⟩ := unmap4kib_book regular (show page + count < mmapFirstPage by omega) book
    rcases out : space.unmap4kib (page + count) with ⟨_ | leaf, space'⟩
    · rw [out] at gone regular'
      exact ih regular' (by omega) gone
    · rw [out] at gone regular'
      obtain ⟨lost, book', nil⟩ := deallocateFrame_book gone
      obtain ⟨more, book'', regular'', nil'⟩ := ih regular' (by omega)
        (book'.perm (List.perm_append_comm_assoc lost space'.detach rest))
      refine ⟨more ++ lost, ?_, regular'', append_lost nil nil'⟩
      rw [List.append_assoc]
      exact book''.perm ((List.perm_append_comm_assoc _ lost rest).append_left more)

theorem mapShared_book (frames : List Nat) {address : Nat} (regular : space.Regular)
    (high : mmapBase ≤ address) (book : Book all a (space.detach ++ rest)) :
    let out := space.mapShared a address frames
    Book all out.2.2 (out.2.1.detach ++ rest) ∧ out.2.1.Regular := by
  induction frames generalizing space a address with
  | nil => exact ⟨book, regular⟩
  | cons frame frames ih =>
    rw [mapShared]
    split
    · exact ⟨book, regular⟩
    · split
      · exact ⟨book, regular⟩
      · have mapped : Book all (space.map4kib a (address / pageSize) ⟨frame, true⟩).2.2
            ((space.map4kib a (address / pageSize) ⟨frame, true⟩).2.1.detach ++ rest) ∧
            (space.map4kib a (address / pageSize) ⟨frame, true⟩).2.1.Regular := by
          rw [map4kib]
          split
          · exact mapPage_shared_book regular (Nat.div_le_div_right high) book
          · exact ⟨book, regular⟩
        rcases out : space.map4kib a (address / pageSize) ⟨frame, true⟩ with ⟨_ | _, space', a'⟩
        · rw [out] at mapped
          exact mapped
        · rw [out] at mapped
          exact ih mapped.2 (high.trans (Nat.le_add_right address pageSize)) mapped.1

end AddressSpace

end Zaytos.Kernel
