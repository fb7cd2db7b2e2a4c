import Zaytos.Kernel.SpaceFrames
import Zaytos.Loader.LoadProgram

set_option autoImplicit false

/-! Where the frames are that the loader of programs took, when it fails. -/
namespace Zaytos.Loader

open Kernel (AddressSpace FrameAllocator isCanonical pageSize pagesPerTopEntry userProgramStackTop)
open Kernel.Paging (AddressSpaceError PagePermissions)

/-- The run leaves this space and this allocator. It fails just when the flag is not set. -/
def Ends {α : Type} (o : Outcome LoadState UserLoadError α)
    (out : Bool × AddressSpace × FrameAllocator) : Prop :=
  match o with
  | .fault => False
  | .err _ t => out.1 = false ∧ (t.space, t.allocator) = out.2
  | .ok _ t => out.1 = true ∧ (t.space, t.allocator) = out.2

section Rules

variable {α β : Type} {s : LoadState} {out next : Bool × AddressSpace × FrameAllocator}

theorem Ends.bind {m : Loading α} {f : α → Loading β} (first : Ends (m s) out)
    (failed : out.1 = false → next = out)
    (goes : ∀ a t, m s = .ok a t → out = (true, t.space, t.allocator) → Ends (f a t) next) :
    Ends ((m >>= f) s) next := by
  cases run : m s with
  | fault =>
    rw [run] at first
    exact first.elim
  | err e t =>
    rw [run] at first
    rw [Exec.bind_of_err run, failed first.1]
    exact first
  | ok a t =>
    rw [run] at first
    rw [Exec.bind_of_ok run]
    exact goes a t run (Prod.ext first.1 first.2.symm)

end Rules

section Pages

variable {ph : ProgramHeader} {file : Bytes} {s : LoadState}

theorem segmentPermissions_strict
    (strict : ¬ (ph.pFlags.testBit 1 = true ∧ ph.pFlags.testBit 0 = true)) :
    (segmentPermissions ph).writableAndExecutable = false := by
  have write : ph.pFlags &&& 2 = (ph.pFlags.testBit 1).toNat * 2 := Nat.and_two_pow ph.pFlags 1
  have execute : ph.pFlags &&& 1 = (ph.pFlags.testBit 0).toNat * 1 := Nat.and_two_pow ph.pFlags 0
  simp only [segmentPermissions, PagePermissions.userProgram,
    PagePermissions.writableAndExecutable, pfW, pfX, write, execute]
  cases one : ph.pFlags.testBit 1 with
  | false => simp
  | true =>
    cases other : ph.pFlags.testBit 0 with
    | false => simp
    | true => exact absurd ⟨one, other⟩ strict

theorem mapUser4kib_eq {p : PagePermissions} (user : p.user = true)
    (strict : p.writableAndExecutable = false) (n frame : Nat) :
    ∃ refused t, mapUser4kib (n * pageSize) frame p s = .ok refused t ∧
      (refused.isNone, t.space, t.allocator) = s.space.mapUser4kib s.allocator n frame ∧
      t.memory = s.memory := by
  have page : n * pageSize / pageSize = n := Nat.mul_div_cancel n (by decide)
  rw [mapUser4kib, AddressSpace.mapUser4kib, page]
  dsimp only
  by_cases inside : n / pagesPerTopEntry = 0
  · rw [if_neg (not_not_intro inside), if_pos inside, user, strict,
      if_neg (by decide), if_neg (by decide)]
    cases out : s.space.mapPage s.allocator n ⟨frame, false⟩ with
    | mk success rest =>
      cases success with
      | true => exact ⟨_, _, if_pos rfl, rfl, rfl⟩
      | false => exact ⟨_, _, if_neg Bool.false_ne_true, rfl, rfl⟩
  · rw [if_pos inside, if_neg inside]
    exact ⟨_, _, rfl, rfl, rfl⟩

theorem loadPage_ends (strict : ¬ (ph.pFlags.testBit 1 = true ∧ ph.pFlags.testBit 0 = true))
    (n : Nat) : Ends (loadPage ph file (n * pageSize) s) (s.space.mapFresh s.allocator n true) := by
  rw [loadPage, AddressSpace.mapFresh]
  cases taken : s.allocator.allocateFrame with
  | mk frame b =>
    cases frame with
    | none =>
      rw [Exec.bind_of_err (show freshFrame s = _ by rw [freshFrame, taken])]
      exact ⟨rfl, rfl⟩
    | some frame =>
      rw [Exec.bind_of_ok (show freshFrame s = _ by rw [freshFrame, taken]),
        Exec.bind_of_ok (show writeFrame frame (copySegment ph file (n * pageSize)) _ = _ from rfl)]
      dsimp only
      by_cases address : isCanonical (n * pageSize) = false
      · rw [if_pos address, Exec.bind_of_err (show Exec.rejectIf _ _ _ = _ from if_pos address)]
        exact ⟨rfl, rfl⟩
      rw [if_neg address, Exec.bind_of_ok (show Exec.rejectIf _ _ _ = _ from if_neg address)]
      obtain ⟨refused, t, run, same, -⟩ := @mapUser4kib_eq _ (segmentPermissions ph) rfl
        (segmentPermissions_strict strict) n frame
      rw [Exec.bind_of_ok run, ← same]
      cases refused with
      | none => exact ⟨rfl, rfl⟩
      | some error => exact ⟨rfl, rfl⟩

theorem mapSegments_append (space : AddressSpace) (a : FrameAllocator) (first rest : List Nat) :
    space.mapSegments a (first ++ rest) = match space.mapSegments a first with
      | (true, space, a) => space.mapSegments a rest
      | (false, space, a) => (false, space, a) := by
  induction first generalizing space a with
  | nil => rfl
  | cons page first ih =>
    rw [List.cons_append, AddressSpace.mapSegments, AddressSpace.mapSegments]
    cases out : space.mapFresh a page true with
    | mk success next =>
      cases success with
      | true => exact ih next.1 next.2
      | false => rfl

theorem loadPages_ends (strict : ¬ (ph.pFlags.testBit 1 = true ∧ ph.pFlags.testBit 0 = true))
    {last : Option Nat} {previousEnd : Nat}
    (behind : ∀ m ∈ last, m ≤ ph.pVaddr / pageSize ∧ previousEnd ≤ ph.pVaddr) (count n : Nat)
    (from' : ph.pVaddr / pageSize ≤ n) (fits : (n + count) * pageSize < 2 ^ 64) :
    Ends (loadPages ph file (last.map (· * pageSize)) previousEnd (n * pageSize) count s)
      (s.space.mapSegments s.allocator
        ((List.range' n count).filter fun page => last ≠ some page)) := by
  induction count generalizing n s with
  | zero => exact ⟨rfl, rfl⟩
  | succ count ih =>
    have size : pageSize = 4096 := rfl
    have next : add64 (n * pageSize) pageSize = some ((n + 1) * pageSize) := by
      rw [Nat.succ_mul]
      apply add64_of_lt
      rw [size] at fits ⊢
      omega
    have goes : ∀ t : LoadState,
        (liftM (add64 (n * pageSize) pageSize) : Loading Nat) t = .ok ((n + 1) * pageSize) t := by
      intro t
      rw [next, Exec.lift_some_apply]
    have rest := fun t : LoadState => @ih t (n + 1) (by omega) (by
      rw [show n + 1 + count = n + (count + 1) by omega]
      exact fits)
    have shared : (last.map (· * pageSize) = some (n * pageSize) ∧
        n * pageSize = pageStart ph.pVaddr ∧ previousEnd ≤ ph.pVaddr) ↔ last = some n := by
      cases last with
      | none => simp
      | some m =>
        have := behind m rfl
        simp only [Option.map_some, Option.some.injEq, pageStart, size, loadPageSize]
        rw [size] at this from'
        omega
    rw [loadPages, List.range'_succ, List.filter_cons]
    by_cases same : last = some n
    · rw [if_pos (shared.mpr same), if_neg (by simp [same])]
      beta_reduce
      rw [Exec.bind_of_ok (goes s)]
      exact rest s
    · rw [if_neg (fun all => same (shared.mp all)), if_pos (by simpa using same),
        AddressSpace.mapSegments]
      apply (@loadPage_ends ph file s strict n).bind
      · intro failed
        cases out : s.space.mapFresh s.allocator n true with
        | mk success next =>
          rw [out] at failed
          cases failed
          rfl
      · intro _ t run out
        rw [out]
        beta_reduce
        rw [Exec.bind_of_ok (goes t)]
        exact rest t

end Pages

section Segments

def segmentPages (ph : ProgramHeader) : List Nat :=
  List.range' (ph.pVaddr / pageSize)
    ((ph.past - 1) / pageSize - ph.pVaddr / pageSize + 1)

/-- The pages of the segments, each once, when the one before ends in page `last`. -/
def imagePages (last : Option Nat) : List ProgramHeader → List Nat
  | [] => []
  | ph :: rest => ((segmentPages ph).filter fun page => last ≠ some page) ++
      imagePages (some ((ph.past - 1) / pageSize)) rest

variable {elf : Elf} {s : LoadState}

theorem loadSegmentsOf_ends {segments : List ProgramHeader} {last : Option Nat}
    {previousEnd : Nat} (data : ∀ ph ∈ segments, ∃ bytes, elf.segmentData ph = .ok bytes)
    (loadable : ∀ ph ∈ segments, ph.Loadable) (chain : segments.IsChain ProgramHeader.Follows)
    (behind : ∀ ph ∈ segments.head?, ∀ m ∈ last,
      m ≤ ph.pVaddr / pageSize ∧ previousEnd ≤ ph.pVaddr) :
    Ends (loadSegmentsOf elf (last.map (· * pageSize)) previousEnd segments s)
      (s.space.mapSegments s.allocator (imagePages last segments)) := by
  induction segments generalizing last previousEnd s with
  | nil => exact ⟨rfl, rfl⟩
  | cons ph rest ih =>
    have this := loadable ph List.mem_cons_self
    have filled := this.filled
    have fits := (ProgramHeader.fits_iff ph.past).mp this.fits
    have length : ph.past = ph.pVaddr + ph.pMemsz := rfl
    have size : pageSize = 4096 := rfl
    have sum : add64 ph.pVaddr ph.pMemsz = some ph.past := add64_of_lt (by omega)
    have less : sub ph.past 1 = some (ph.past - 1) := sub_of_le (by omega)
    apply Exists.elim (data ph List.mem_cons_self)
    intro bytes found
    have read : Exec.read (fun _ => (elf.segmentData ph).mapErr UserLoadError.segmentData) s =
        .ok bytes s := by
      rw [Exec.read, found]
      rfl
    have starts : pageStart ph.pVaddr = ph.pVaddr / pageSize * pageSize := by
      simp only [pageStart, size, loadPageSize]
      omega
    have ends : pageStart (ph.past - 1) = (ph.past - 1) / pageSize * pageSize := by
      simp only [pageStart, size, loadPageSize]
      omega
    have count : (pageStart (ph.past - 1) - pageStart ph.pVaddr) / pageSize + 1 =
        (ph.past - 1) / pageSize - ph.pVaddr / pageSize + 1 := by
      rw [starts, ends, ← Nat.sub_mul, Nat.mul_div_cancel _ (by decide)]
    rw [loadSegmentsOf, imagePages, sum, Exec.bind_of_ok (Exec.lift_some_apply ph.past s), less,
      Exec.bind_of_ok (Exec.lift_some_apply (ph.past - 1) s), Exec.bind_of_ok read,
      mapSegments_append, count, starts]
    apply (@loadPages_ends ph bytes s this.strict last previousEnd (behind ph rfl) _ _
      (le_rfl) _).bind
    · intro failed
      rw [← segmentPages] at failed
      cases out : s.space.mapSegments s.allocator
        ((segmentPages ph).filter fun page => last ≠ some page) with
      | mk success next =>
        rw [out] at failed
        obtain rfl : success = false := failed
        rw [← segmentPages]
        exact out.symm
    · intro _ t run out
      rw [← segmentPages] at out
      rw [out, ends]
      apply @ih t (some ((ph.past - 1) / pageSize)) ph.past
      · intro next mem
        exact data next (List.mem_cons_of_mem _ mem)
      · intro next mem
        exact loadable next (List.mem_cons_of_mem _ mem)
      · exact chain.tail
      · intro next mem m here
        cases here
        cases rest with
        | nil => cases mem
        | cons first rest =>
          cases mem
          have follows := (List.isChain_cons_cons.mp chain).1
          have behind := follows.behind
          apply And.intro _ behind
          apply Nat.div_le_div_right
          omega
    · have up : loadPageSize = 4096 := rfl
      rw [up] at fits
      rw [size]
      omega

theorem imagePages_sorted {segments : List ProgramHeader} {last : Option Nat}
    (loadable : ∀ ph ∈ segments, ph.Loadable) (chain : segments.IsChain ProgramHeader.Follows)
    (behind : ∀ ph ∈ segments.head?, ∀ m ∈ last, m ≤ ph.pVaddr / pageSize) :
    (imagePages last segments).Pairwise (· < ·) ∧ ∀ page ∈ imagePages last segments,
      (∀ m ∈ last, m < page) ∧ ∀ ph ∈ segments.head?, ph.pVaddr / pageSize ≤ page := by
  induction segments generalizing last with
  | nil => exact ⟨List.Pairwise.nil, fun page mem => absurd mem List.not_mem_nil⟩
  | cons ph rest ih =>
    have filled := (loadable ph List.mem_cons_self).filled
    have length : ph.past = ph.pVaddr + ph.pMemsz := rfl
    have order : ph.pVaddr / pageSize ≤ (ph.past - 1) / pageSize :=
      Nat.div_le_div_right (by omega)
    have others := @ih (some ((ph.past - 1) / pageSize))
      (fun next mem => loadable next (List.mem_cons_of_mem _ mem)) chain.tail (by
        intro next mem m here
        cases here
        cases rest with
        | nil => cases mem
        | cons first rest =>
          cases mem
          have behind := (List.isChain_cons_cons.mp chain).1.behind
          apply Nat.div_le_div_right
          omega)
    have own : ∀ page ∈ (segmentPages ph).filter fun page => last ≠ some page,
        ph.pVaddr / pageSize ≤ page ∧ page ≤ (ph.past - 1) / pageSize ∧ ∀ m ∈ last, m < page := by
      intro page mem
      have parts := List.mem_filter.mp mem
      have inside := List.mem_range'_1.mp parts.1
      refine ⟨inside.1, by omega, ?_⟩
      intro m here
      have before := behind ph rfl m here
      have apart : last ≠ some page := of_decide_eq_true parts.2
      rw [Option.mem_def.mp here] at apart
      have : m ≠ page := fun same => apart (congrArg some same)
      omega
    rw [imagePages]
    constructor
    · rw [List.pairwise_append]
      refine ⟨(List.pairwise_lt_range' 1).filter _, others.1, ?_⟩
      intro page mem page' mem'
      have := (own page mem).2.1
      have := (others.2 page' mem').1 _ rfl
      omega
    · intro page mem
      cases List.mem_append.mp mem with
      | inl mem =>
        have := own page mem
        refine ⟨this.2.2, ?_⟩
        intro first here
        cases here
        exact this.1
      | inr mem =>
        have beyond := (others.2 page mem).1 _ rfl
        constructor
        · intro m here
          have := behind ph rfl m here
          omega
        · intro first here
          cases here
          omega

end Segments

section Stack

variable {s : LoadState}

def Rests {α : Type} (o : Outcome LoadState UserLoadError α) (out : AddressSpace × FrameAllocator) :
    Prop :=
  ∃ t, o.state = some t ∧ (t.space, t.allocator) = out

theorem buildStack_rests (frame : Nat) (argv envp : List (List UInt8))
    (page : (s.memory frame).len = pageSize) :
    Rests (buildStack frame argv envp s) (s.space, s.allocator) := by
  rw [buildStack]
  split
  · exact ⟨_, rfl, rfl⟩
  · have built := @buildInitialStack_wp (userProgramStackTop - pageSize) (s.memory frame) argv envp
      (by rw [page]; decide)
    dsimp only
    cases run : buildInitialStack (userProgramStackTop - pageSize) argv envp (s.memory frame) with
    | fault =>
      rw [Exec.Wp, run] at built
      exact built.elim
    | err e left => exact ⟨_, rfl, rfl⟩
    | ok sp left => exact ⟨_, rfl, rfl⟩

theorem loadStack_rests (argv envp : List (List UInt8)) :
    Rests (loadStack argv envp s)
      (s.space.mapFresh s.allocator (userProgramStackTop / pageSize - 1) false).2 := by
  have place :
      userProgramStackTop - pageSize = (userProgramStackTop / pageSize - 1) * pageSize := by
    decide
  rw [loadStack, AddressSpace.mapFresh]
  cases taken : s.allocator.allocateFrame with
  | mk frame b =>
    cases frame with
    | none =>
      dsimp only
      rw [Exec.bind_of_err (show freshFrame s = _ by rw [freshFrame, taken])]
      exact ⟨_, rfl, rfl⟩
    | some frame =>
      dsimp only
      rw [Exec.bind_of_ok (show freshFrame s = _ by rw [freshFrame, taken]),
        Exec.bind_of_ok (show Exec.rejectIf _ _ _ = _ from if_neg (by decide)), if_neg (by decide)]
      obtain ⟨refused, t, run, same, memory⟩ := @mapUser4kib_eq _ .userData rfl rfl
        (userProgramStackTop / pageSize - 1) frame
      rw [place, Exec.bind_of_ok run, ← same]
      cases refused with
      | some error => exact ⟨_, rfl, rfl⟩
      | none =>
        dsimp only
        rw [Exec.bind_of_ok (show noteMapped _ true t = _ from rfl)]
        apply buildStack_rests
        show (t.memory frame).len = pageSize
        rw [memory]
        dsimp only
        rw [Function.update_self]
        rfl

theorem readBack_rests : Rests (readBack s) (s.space, s.allocator) := by
  rw [readBack]
  split
  · exact ⟨s, rfl, rfl⟩
  · exact ⟨s, rfl, rfl⟩

theorem Rests.bind {α β : Type} {m : Loading α} {f : α → Loading β}
    {out : AddressSpace × FrameAllocator} (first : Rests (m s) out)
    (goes : ∀ a t, m s = .ok a t → Rests (f a t) (t.space, t.allocator)) :
    Rests ((m >>= f) s) out := by
  cases run : m s with
  | fault =>
    rw [run] at first
    apply Exists.elim first
    intro t none
    cases none.1
  | err e t =>
    rw [run] at first
    rw [Exec.bind_of_err run]
    exact first
  | ok a t =>
    rw [run] at first
    rw [Exec.bind_of_ok run]
    apply Exists.elim first
    intro t' same
    obtain rfl : t = t' := Option.some.inj same.1
    rw [← same.2]
    exact goes a t run

end Stack

section Load

variable {image : Bytes} {argv envp : List (List UInt8)} {s : LoadState}

def AcceptsImage (image : Bytes) (segments : List ProgramHeader) : Prop :=
  ∃ elf, Elf.parse image = .ok elf ∧ elf.loadSegments = .ok segments ∧
    checkLoadLayout segments = .ok ()

theorem loadSegments_eq {elf : Elf} (parsed : Elf.parse image = .ok elf) :
    ∃ segments, elf.loadSegments = .ok segments ∧
      ∀ ph ∈ segments, ∃ bytes, elf.segmentData ph = .ok bytes := by
  obtain ⟨-, -, headers, found, -, sound⟩ := elf_sound.2.1 image elf parsed
  refine ⟨headers.filter fun ph => ph.pType == ptLoad, ?_, ?_⟩
  · rw [Elf.loadSegments, found]
    rfl
  · intro ph mem
    exact (sound ph (List.mem_filter.mp mem).1).2.1

theorem read_ok {α β : Type} {r : Result α β} {g : α → UserLoadError} {a : β} (value : r = .ok a) :
    Exec.read (fun _ => r.mapErr g) s = .ok a s := by
  rw [Exec.read, value]
  rfl

theorem read_err {α β : Type} {r : Result α β} {g : α → UserLoadError} {e : α}
    (refused : r = .err e) : Exec.read (fun _ => r.mapErr g) s = .err (g e) s := by
  rw [Exec.read, refused]
  rfl

theorem load_refused (refused : ∀ segments, ¬ AcceptsImage image segments) :
    Rests (loadUserProgramInto image argv envp s) (s.space, s.allocator) := by
  rw [loadUserProgramInto]
  cases parsed : Elf.parse image with
  | fault => exact absurd parsed (elf_sound.1 image)
  | err e =>
    rw [← parsed, Exec.bind_of_err (read_err parsed)]
    exact ⟨s, rfl, rfl⟩
  | ok elf =>
    apply Exists.elim (loadSegments_eq parsed)
    intro segments found
    rw [← parsed, Exec.bind_of_ok (read_ok parsed), Exec.bind_of_ok (read_ok found.1)]
    cases checked : checkLoadLayout segments with
    | fault => exact absurd checked (elf_sound.2.2 segments).1
    | err e =>
      rw [← checked, Exec.bind_of_err (read_err checked)]
      exact ⟨s, rfl, rfl⟩
    | ok u => exact absurd ⟨elf, parsed, found.1, checked⟩ (refused segments)

theorem load_rests {segments : List ProgramHeader} (accepts : AcceptsImage image segments) :
    Rests (loadUserProgramInto image argv envp s)
      (s.space.loadInto s.allocator (imagePages none segments) true).2 := by
  obtain ⟨elf, parsed, found, checked⟩ := accepts
  have all := (elf_sound.2.2 segments).2.1.mp checked
  have data : ∀ ph ∈ segments, ∃ bytes, elf.segmentData ph = .ok bytes := by
    apply Exists.elim (loadSegments_eq parsed)
    intro others same
    obtain rfl := Result.ok.inj (found.symm.trans same.1)
    exact same.2
  have mapped := @loadSegmentsOf_ends elf s segments none 0 data all.1 all.2 (fun _ _ _ none => by
    cases none)
  rw [loadUserProgramInto, Exec.bind_of_ok (read_ok parsed), Exec.bind_of_ok (read_ok found),
    Exec.bind_of_ok (read_ok checked), AddressSpace.loadInto]
  have none : Option.map (· * pageSize) none = (none : Option Nat) := rfl
  rw [none] at mapped
  cases out : s.space.mapSegments s.allocator (imagePages Option.none segments) with
  | mk success next =>
    rw [out] at mapped
    cases run : loadSegmentsOf elf Option.none 0 segments s with
    | fault =>
      rw [run] at mapped
      exact mapped.elim
    | err e t =>
      rw [run] at mapped
      obtain rfl : success = false := mapped.1
      rw [Exec.bind_of_err run]
      exact ⟨t, rfl, mapped.2⟩
    | ok past t =>
      rw [run] at mapped
      obtain rfl : success = true := mapped.1
      obtain rfl : (t.space, t.allocator) = next := mapped.2
      rw [Exec.bind_of_ok run]
      dsimp only
      rw [if_pos rfl]
      rw [Exec.bind_of_ok (show setHeap past t = _ from rfl)]
      apply (loadStack_rests argv envp).bind
      intro _ _ _
      apply readBack_rests.bind
      intro _ u _
      exact ⟨_, rfl, rfl⟩

def LoadState.start (space : AddressSpace) (allocator : FrameAllocator) (memory : Nat → Bytes) :
    LoadState :=
  ⟨space, ⟨0, 0⟩, userProgramStackTop, 0, allocator, memory, [], []⟩

/-- When a program cannot be loaded, every frame that was free before is free again or belongs to
the space that was made, unless an accepted file has a page without an address behind pages that
can be mapped, or the stack finds a frame but cannot be mapped. -/
theorem load_strands_iff {a b : FrameAllocator} {space : AddressSpace} {memory : Nat → Bytes}
    {e : UserLoadError} {t : LoadState} (sound : a.Sound)
    (made : AddressSpace.new a = (some space, b))
    (failed : loadUserProgramInto image argv envp (.start space b memory) = .err e t) :
    (∀ f ∈ b.free, f ∈ t.allocator.free ∨ f ∈ t.space.detach) ↔
      ¬ ∃ segments, AcceptsImage image segments ∧
        AddressSpace.Strands b.freeFrameCount (imagePages none segments) := by
  have start := AddressSpace.new_book (Kernel.Book.start sound) made
  have top : space.detach = [space.pml4] := by
    obtain ⟨some, -⟩ := Prod.mk.inj made
    obtain ⟨pml4, -, rfl⟩ := Option.map_eq_some_iff.mp some
    rfl
  by_cases accepted : ∃ segments, AcceptsImage image segments
  · obtain ⟨segments, accepts⟩ := accepted
    have rests := @load_rests image argv envp (.start space b memory) segments accepts
    obtain ⟨t', state, same⟩ := rests
    rw [failed] at state
    obtain rfl : t = t' := Option.some.inj state
    have unique : ∀ others, AcceptsImage image others → others = segments := by
      intro others accepts'
      obtain ⟨elf, parsed, found, -⟩ := accepts
      obtain ⟨elf', parsed', found', -⟩ := accepts'
      obtain rfl := Result.ok.inj (parsed.symm.trans parsed')
      exact Result.ok.inj (found'.symm.trans found)
    have sorted : (imagePages none segments).Nodup := by
      obtain ⟨elf, -, -, checked⟩ := accepts
      have all := (elf_sound.2.2 segments).2.1.mp checked
      exact (@imagePages_sorted segments none all.1 all.2 nofun).1.imp Nat.ne_of_lt
    have strands := AddressSpace.loadStrands_iff (AddressSpace.built_new sound made) sorted
    obtain ⟨lost, book, -, nil⟩ :=
      AddressSpace.loadInto_book (imagePages none segments) true start.2 start.1
    have pml4 := AddressSpace.loadInto_pml4 space b (imagePages none segments) true
    have kept : (∀ f ∈ b.free, f ∈ t.allocator.free ∨ f ∈ t.space.detach) ↔ lost = [] := by
      obtain ⟨left, left'⟩ := Prod.mk.inj same
      rw [← book.lost_nil, left, left']
      constructor
      · intro own f mem
        rw [List.append_nil]
        cases (start.1.total f).mp mem with
        | inl free => exact own f free
        | inr mine =>
          rw [List.append_nil, top, List.mem_singleton] at mine
          right
          rw [mine, ← pml4]
          exact List.mem_append_right _ (List.mem_singleton_self _)
      · intro all f free
        have either := all f ((start.1.total f).mpr (Or.inl free))
        rw [List.append_nil] at either
        exact either
    rw [kept, nil, ← Bool.not_eq_true, strands]
    apply not_congr
    constructor
    · intro bad
      exact ⟨segments, accepts, bad⟩
    · intro found
      obtain ⟨others, accepts', bad⟩ := found
      rw [unique others accepts'] at bad
      exact bad
  · have rests := @load_refused image argv envp (.start space b memory)
      (fun segments accepts => accepted ⟨segments, accepts⟩)
    obtain ⟨t', state, same⟩ := rests
    rw [failed] at state
    obtain rfl : t = t' := Option.some.inj state
    apply iff_of_true
    · intro f free
      have allocator : t.allocator = b := (Prod.mk.inj same).2
      rw [allocator]
      exact Or.inl free
    · intro found
      exact accepted ⟨found.choose, found.choose_spec.1⟩

end Load

def oneByteImage (vaddr : Nat) : Bytes := .ofRuns 120 [
  (0, elfMagic ++ [2, 1]), (16, leBytes 2 2 ++ leBytes 2 62), (24, leBytes 8 vaddr),
  (32, leBytes 8 64), (54, leBytes 2 56 ++ leBytes 2 1), (64, leBytes 4 1 ++ leBytes 4 4),
  (80, leBytes 8 vaddr), (104, leBytes 8 1)]

def lastFrame : LoadState := .start ⟨1, [], []⟩ ⟨4, [⟨2, 1⟩]⟩ fun _ => pageOf 0

/-- The frame of a page that is mapped nowhere for want of a table is free again. -/
theorem load_strands_iff_short : ∃ e t,
    loadUserProgramInto (oneByteImage 0x400000) [] [] lastFrame = .err e t ∧
      ¬ ∃ segments, AcceptsImage (oneByteImage 0x400000) segments ∧
        AddressSpace.Strands 1 (imagePages none segments) := by
  have facts : (match loadUserProgramInto (oneByteImage 0x400000) [] [] lastFrame with
    | .err _ t => decide (t.allocator = ⟨4, [⟨2, 1⟩]⟩)
    | _ => false) = true := by decide
  cases run : loadUserProgramInto (oneByteImage 0x400000) [] [] lastFrame with
  | fault =>
    rw [run] at facts
    cases facts
  | ok u t =>
    rw [run] at facts
    cases facts
  | err e t =>
    rw [run] at facts
    have same : t.allocator = ⟨4, [⟨2, 1⟩]⟩ := of_decide_eq_true facts
    refine ⟨e, t, rfl, ?_⟩
    apply (@load_strands_iff (oneByteImage 0x400000) [] [] ⟨4, [⟨1, 2⟩]⟩ ⟨4, [⟨2, 1⟩]⟩ ⟨1, [], []⟩
      (fun _ => pageOf 0) e t
      (FrameAllocator.sound_single (by decide) (by decide) (by decide)) rfl run).mp
    intro f free
    rw [same]
    exact Or.inl free

/-- The frame of a page that has no address is neither free again nor in the space. -/
theorem load_strands_frame : ∃ e t,
    loadUserProgramInto (oneByteImage 0x800000000000) [] [] lastFrame = .err e t ∧
      ∃ f ∈ lastFrame.allocator.free, f ∉ t.allocator.free ∧ f ∉ t.space.detach := by
  have facts : (match loadUserProgramInto (oneByteImage 0x800000000000) [] [] lastFrame with
    | .err _ t => decide (t.allocator = ⟨4, []⟩) && decide (t.space.detach = [1])
    | _ => false) = true := by decide
  cases run : loadUserProgramInto (oneByteImage 0x800000000000) [] [] lastFrame with
  | fault =>
    rw [run] at facts
    cases facts
  | ok u t =>
    rw [run] at facts
    cases facts
  | err e t =>
    rw [run] at facts
    simp only [Bool.and_eq_true, decide_eq_true_eq] at facts
    refine ⟨e, t, rfl, 2, by decide, ?_, ?_⟩
    · rw [facts.1]
      decide
    · rw [facts.2]
      decide

end Zaytos.Loader
