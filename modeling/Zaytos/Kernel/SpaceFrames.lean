import Mathlib.Algebra.GroupWithZero.Nat
import Mathlib.Data.Finset.Card
import Zaytos.Kernel.SpaceBook

set_option autoImplicit false

/-! How many frames the pages of a program take, and when there are not enough. -/
namespace Zaytos.Kernel

namespace FrameAllocator

variable {a b : FrameAllocator} {f : Nat}

def freeFrameCount (a : FrameAllocator) : Nat := (a.ranges.map FrameRange.frameCount).sum

theorem freeFrameCount_taken (sound : a.Sound) (taken : a.allocateFrame = (some f, b)) :
    a.freeFrameCount = b.freeFrameCount + 1 := by
  rw [allocateFrame] at taken
  cases ranges : a.ranges with
  | nil =>
    rw [ranges] at taken
    cases taken
  | cons first rest =>
    have nonempty : 0 < first.frameCount := by
      have inside : first.startFrame < first.startFrame + first.frameCount :=
        sound.tidy.nonempty first (by rw [ranges]; exact List.mem_cons_self)
      omega
    rw [ranges] at taken
    dsimp only at taken
    rw [← (Prod.mk.inj taken).2, freeFrameCount, freeFrameCount, ranges]
    dsimp only
    split
    · simp only [List.map_cons, List.sum_cons]
      omega
    · simp only [List.map_cons, List.sum_cons]
      omega

theorem capacity_taken (taken : a.allocateFrame = (some f, b)) : b.capacity = a.capacity := by
  rw [allocateFrame] at taken
  split at taken
  · cases taken
  · rw [← (Prod.mk.inj taken).2]

theorem refused_eq (sound : a.Sound) (refused : a.allocateFrame = (none, b)) :
    b = a ∧ a.ranges = [] := by
  have same := allocateFrame_none sound refused
  apply And.intro same.1
  cases ranges : a.ranges with
  | nil => rfl
  | cons first rest =>
    have mem : first.startFrame ∈ a.free :=
      sound.tidy.lo_mem_covered (x := first) (by rw [ranges]; exact List.mem_cons_self)
    rw [same.2] at mem
    exact absurd mem (Set.notMem_empty _)

theorem freeFrameCount_nil (none : a.ranges = []) : a.freeFrameCount = 0 := by
  rw [freeFrameCount, none]
  rfl

theorem insertFreeRange_front (beyond : ∀ r ∈ a.ranges, f < r.startFrame)
    (room : a.ranges.length < a.capacity ∨ ∃ r ∈ a.ranges.head?, r.startFrame ≤ f + 1) :
    a.insertFreeRange f 1 ≠ none := by
  have before : a.ranges.takeWhile (fun r => decide (r.startFrame ≤ f)) = [] ∧
      a.ranges.dropWhile (fun r => decide (r.startFrame ≤ f)) = a.ranges := by
    cases ranges : a.ranges with
    | nil => exact ⟨rfl, rfl⟩
    | cons r rest =>
      rw [ranges] at beyond
      have less := beyond r List.mem_cons_self
      simp [not_le.mpr less]
  rw [insertFreeRange, if_neg (by decide), before.1, before.2]
  dsimp only [List.getLast?_nil]
  cases ranges : a.ranges with
  | nil =>
    rw [ranges] at room
    simp only [List.head?_nil, Option.mem_def, reduceCtorEq, false_and, exists_false,
      or_false] at room
    dsimp only
    rw [if_neg (not_le.mpr room)]
    exact Option.some_ne_none _
  | cons r rest =>
    rw [ranges] at room
    simp only [List.head?_cons, Option.mem_def, Option.some.injEq, exists_eq_left'] at room
    dsimp only
    split
    · exact Option.some_ne_none _
    · rw [if_neg (by omega)]
      exact Option.some_ne_none _

theorem insertFreeRange_taken (sound : a.Sound) (taken : a.allocateFrame = (some f, b)) :
    b.insertFreeRange f 1 ≠ none := by
  rw [allocateFrame] at taken
  cases ranges : a.ranges with
  | nil =>
    rw [ranges] at taken
    cases taken
  | cons first rest =>
    have tidy := sound.tidy
    have few := sound.few
    rw [ranges] at tidy few taken
    have both := Prod.mk.inj taken
    have start : f = first.startFrame := frameOfNumber_eq both.1
    have above : ∀ r ∈ rest, first.startFrame + first.frameCount < r.startFrame :=
      fun r mem => (List.pairwise_cons.mp tidy.apart).1 r mem
    rw [← both.2]
    apply insertFreeRange_front
    · intro r mem
      dsimp only at mem
      split at mem
      · have := above r mem
        omega
      · cases mem with
        | head =>
          show f < first.startFrame + 1
          omega
        | tail _ mem =>
          have := above r mem
          omega
    · dsimp only
      split
      · exact Or.inl few
      · refine Or.inr ⟨_, rfl, ?_⟩
        show first.startFrame + 1 ≤ f + 1
        omega

end FrameAllocator

namespace AddressSpace

open FrameAllocator

def tableKeys (page : Nat) : List (Nat × Nat) :=
  [3, 2, 1].map fun level => (level, page / entriesPerTable ^ level)

def tablesOf (pages : List Nat) : Finset (Nat × Nat) := (pages.flatMap tableKeys).toFinset

def framesFor (pages : List Nat) : Nat := pages.length + (tablesOf pages).card

def HasTables (space : AddressSpace) (keys : Finset (Nat × Nat)) : Prop :=
  ∀ key, (space.tables.lookup key).isSome = true ↔ key ∈ keys

variable {space : AddressSpace} {a : FrameAllocator} {keys : Finset (Nat × Nat)} {page : Nat}

theorem ensureTables_count (levels : List Nat) (sound : a.Sound) (has : space.HasTables keys) :
    let out := space.ensureTables a page levels
    let more := keys ∪ (levels.map fun level => (level, page / entriesPerTable ^ level)).toFinset
    out.2.2.Sound ∧ out.2.2.capacity = a.capacity ∧ out.2.1.leaves = space.leaves ∧
      (out.1 = true ∧ out.2.1.HasTables more ∧
          out.2.2.freeFrameCount + more.card = a.freeFrameCount + keys.card ∨
        out.1 = false ∧ out.2.2.ranges = [] ∧ a.freeFrameCount + keys.card < more.card) := by
  induction levels generalizing space a keys with
  | nil =>
    refine ⟨sound, rfl, rfl, Or.inl ⟨rfl, ?_, ?_⟩⟩
    · rw [List.map_nil, List.toFinset_nil, Finset.union_empty]
      exact has
    · simp [ensureTables]
  | cons level below ih =>
    have split : keys ∪ ((level :: below).map fun level =>
        (level, page / entriesPerTable ^ level)).toFinset =
        insert (level, page / entriesPerTable ^ level) keys ∪ (below.map fun level =>
          (level, page / entriesPerTable ^ level)).toFinset := by
      rw [List.map_cons, List.toFinset_cons, Finset.union_insert, Finset.insert_union]
    rw [ensureTables, split]
    cases there : space.table level page with
    | some frame =>
      have mem : (level, page / entriesPerTable ^ level) ∈ keys := by
        apply (has _).mp
        rw [table] at there
        rw [there]
        rfl
      rw [Finset.insert_eq_of_mem mem]
      exact ih sound has
    | none =>
      have missing : (level, page / entriesPerTable ^ level) ∉ keys := by
        intro mem
        have some := (has _).mpr mem
        rw [table] at there
        rw [there] at some
        cases some
      cases taken : a.allocateFrame with
      | mk frame b =>
        cases frame with
        | none =>
          have refused := refused_eq sound taken
          dsimp only
          rw [refused.1]
          refine ⟨sound, rfl, rfl, Or.inr ⟨rfl, refused.2, ?_⟩⟩
          rw [freeFrameCount_nil refused.2, zero_add]
          apply lt_of_lt_of_le _ (Finset.card_le_card Finset.subset_union_left)
          rw [Finset.card_insert_of_notMem missing]
          exact Nat.lt_succ_self _
        | some frame =>
          have count := freeFrameCount_taken sound taken
          have sound' := (allocateFrame_some sound.tidy taken).1.sound sound
          have has' : HasTables { space with
              tables := ((level, page / entriesPerTable ^ level), frame) :: space.tables }
              (insert (level, page / entriesPerTable ^ level) keys) := by
            intro key
            rw [Finset.mem_insert, List.lookup_cons]
            by_cases same : key = (level, page / entriesPerTable ^ level)
            · simp [same]
            · rw [show (key == (level, page / entriesPerTable ^ level)) = false by simpa using same]
              simp only [same, false_or]
              exact has key
          have rest := ih sound' has'
          rw [Finset.card_insert_of_notMem missing] at rest
          dsimp only at rest ⊢
          rw [capacity_taken taken] at rest
          refine ⟨rest.1, rest.2.1, rest.2.2.1, ?_⟩
          cases rest.2.2.2 with
          | inl made => exact Or.inl ⟨made.1, made.2.1, by omega⟩
          | inr refused => exact Or.inr ⟨refused.1, refused.2.1, by omega⟩

/-- The pages that a space has got so far, out of `total` frames. -/
structure Built (total : Nat) (done : List Nat) (space : AddressSpace) (a : FrameAllocator) :
    Prop where
  sound : a.Sound
  room : 0 < a.capacity
  tables : space.HasTables (tablesOf done)
  leaves : ∀ page, space.leaf page = none ↔ page ∉ done
  count : a.freeFrameCount + framesFor done = total

variable {total : Nat} {done : List Nat}

theorem tablesOf_snoc (done : List Nat) (page : Nat) :
    tablesOf (done ++ [page]) = tablesOf done ∪
      ([3, 2, 1].map fun level => (level, page / entriesPerTable ^ level)).toFinset := by
  rw [tablesOf, List.flatMap_append, List.toFinset_append, List.flatMap_singleton]
  rfl

theorem framesFor_snoc (done : List Nat) (page : Nat) :
    framesFor (done ++ [page]) = done.length + 1 + (tablesOf (done ++ [page])).card := by
  rw [framesFor, List.length_append, List.length_singleton]

theorem framesFor_append (done more : List Nat) : framesFor done ≤ framesFor (done ++ more) := by
  have fewer : tablesOf done ⊆ tablesOf (done ++ more) := by
    rw [tablesOf, tablesOf, List.flatMap_append, List.toFinset_append]
    exact Finset.subset_union_left
  have cards := Finset.card_le_card fewer
  rw [framesFor, framesFor, List.length_append]
  omega

theorem Built.mapPage {a b : FrameAllocator} {frame : Nat} (built : Built total done space a)
    (taken : a.allocateFrame = (some frame, b)) (fresh : page ∉ done) :
    let out := space.mapPage b page ⟨frame, false⟩
    out.1 = true ∧ Built total (done ++ [page]) out.2.1 out.2.2 ∨
      out.1 = false ∧ total < framesFor (done ++ [page]) ∧ out.2.2.ranges = [] ∧
        0 < out.2.2.capacity := by
  have sound := (allocateFrame_some built.sound.tidy taken).1.sound built.sound
  have made := @ensureTables_count space b (tablesOf done) page [3, 2, 1] sound built.tables
  have count := freeFrameCount_taken built.sound taken
  have total_eq := built.count
  rw [framesFor] at total_eq
  dsimp only at made
  rw [← tablesOf_snoc, capacity_taken taken] at made
  rw [AddressSpace.mapPage, framesFor_snoc]
  have free : (space.ensureTables b page [3, 2, 1]).2.1.leaf page = none := by
    rw [leaf, made.2.2.1]
    exact (built.leaves page).mpr fresh
  cases made.2.2.2 with
  | inl has =>
    left
    dsimp only
    rw [if_pos ⟨has.1, free⟩]
    refine ⟨rfl, made.1, ?_, has.2.1, ?_, ?_⟩
    · rw [made.2.1]
      exact built.room
    · intro other
      rw [leaf, List.lookup_cons, List.mem_append, List.mem_singleton]
      by_cases same : other = page
      · simp [same]
      · rw [show (other == page) = false by simpa using same, made.2.2.1]
        simp only [same, or_false]
        exact built.leaves other
    · rw [framesFor_snoc]
      dsimp only
      omega
  | inr refused =>
    right
    dsimp only
    rw [if_neg (fun both => Bool.false_ne_true (refused.1.symm.trans both.1))]
    refine ⟨rfl, by omega, refused.2.1, ?_⟩
    rw [made.2.1]
    exact built.room

theorem Built.taken_iff (built : Built total done space a) :
    framesFor done < total ↔ ∃ frame b, a.allocateFrame = (some frame, b) := by
  have count := built.count
  cases taken : a.allocateFrame with
  | mk frame b =>
    cases frame with
    | none =>
      have none := freeFrameCount_nil (refused_eq built.sound taken).2
      constructor
      · intro more
        omega
      · intro some
        apply Exists.elim some
        intro frame some
        apply Exists.elim some
        intro b some
        cases some
    | some frame =>
      have some := freeFrameCount_taken built.sound taken
      constructor
      · intro _
        exact ⟨frame, b, rfl⟩
      · intro _
        omega

theorem isCanonical_of_user (user : page / pagesPerTopEntry = 0) :
    isCanonical (page * pageSize) = true := by
  have less : page < 134217728 := by
    have := Nat.lt_of_div_eq_zero (by decide) user
    simpa [pagesPerTopEntry, entriesPerTable] using this
  simp only [isCanonical, pageSize, Bool.or_eq_true, decide_eq_true_eq]
  omega

theorem Built.mapFresh_of (goesBack : Bool) (built : Built total done space a)
    (user : page / pagesPerTopEntry = 0) (fresh : page ∉ done)
    (enough : framesFor (done ++ [page]) ≤ total) :
    (space.mapFresh a page goesBack).1 = true ∧ space.freshStrands a page goesBack = false ∧
      Built total (done ++ [page]) (space.mapFresh a page goesBack).2.1
        (space.mapFresh a page goesBack).2.2 := by
  have more : framesFor done < total := by
    have fewer : tablesOf done ⊆ tablesOf (done ++ [page]) := by
      rw [tablesOf_snoc]
      exact Finset.subset_union_left
    have cards := Finset.card_le_card fewer
    rw [framesFor_snoc] at enough
    rw [framesFor]
    omega
  apply Exists.elim (built.taken_iff.mp more)
  intro frame taken
  apply Exists.elim taken
  intro b taken
  have mapped := built.mapPage taken fresh
  rw [mapFresh, freshStrands, taken]
  dsimp only
  rw [isCanonical_of_user user, if_neg Bool.true_eq_false.mp, if_neg Bool.true_eq_false.mp,
    mapUser4kib, if_pos user]
  cases out : space.mapPage b page ⟨frame, false⟩ with
  | mk success rest =>
    rw [out] at mapped
    cases success with
    | true =>
      cases mapped with
      | inl mapped => exact ⟨rfl, rfl, mapped.2⟩
      | inr refused => exact Bool.noConfusion refused.1
    | false =>
      cases mapped with
      | inl mapped => exact Bool.noConfusion mapped.1
      | inr refused => exact absurd enough (not_le.mpr refused.2.1)

theorem Built.mapFresh_fails (goesBack : Bool) (built : Built total done space a)
    (fresh : page ∉ done ∨ goesBack = false)
    (fails : page / pagesPerTopEntry ≠ 0 ∨ page ∈ done ∨ total < framesFor (done ++ [page])) :
    (space.mapFresh a page goesBack).1 = false ∧
      (space.freshStrands a page goesBack = true ↔ framesFor done < total ∧
        (isCanonical (page * pageSize) = false ∨ goesBack = false)) := by
  rw [built.taken_iff, mapFresh, freshStrands]
  cases taken : a.allocateFrame with
  | mk frame b =>
    cases frame with
    | none => simp
    | some frame =>
      have refused : (space.mapUser4kib b page frame).1 = false ∧ (goesBack = true →
          ((space.mapUser4kib b page frame).2.2.insertFreeRange frame 1).isNone = false) := by
        rw [mapUser4kib]
        by_cases user : page / pagesPerTopEntry = 0
        · rw [if_pos user]
          by_cases old : page ∈ done
          · constructor
            · have leaves := (@ensureTables_count space b (tablesOf done) page [3, 2, 1]
                ((allocateFrame_some built.sound.tidy taken).1.sound built.sound)
                built.tables).2.2.1
              have there : (space.ensureTables b page [3, 2, 1]).2.1.leaf page ≠ none := by
                rw [leaf, leaves]
                intro none
                exact absurd old ((built.leaves page).mp none)
              rw [AddressSpace.mapPage]
              dsimp only
              rw [if_neg fun both => there both.2]
            · intro back
              cases fresh with
              | inl new => exact absurd old new
              | inr stays => exact Bool.noConfusion (stays.symm.trans back)
          · have short : total < framesFor (done ++ [page]) := by
              cases fails with
              | inl outside => exact absurd user outside
              | inr fails => exact fails.resolve_left old
            cases built.mapPage taken old with
            | inl mapped =>
              have := mapped.2.count
              omega
            | inr out =>
              constructor
              · exact out.1
              · intro _
                have room := @insertFreeRange_front _ frame (by
                  rw [out.2.2.1]
                  exact fun r mem => absurd mem List.not_mem_nil) (Or.inl (by
                  rw [out.2.2.1]
                  exact out.2.2.2))
                exact Option.isNone_eq_false_iff.mpr (Option.isSome_iff_ne_none.mpr room)
        · rw [if_neg user]
          constructor
          · rfl
          · intro _
            exact Option.isNone_eq_false_iff.mpr
              (Option.isSome_iff_ne_none.mpr (insertFreeRange_taken built.sound taken))
      have found : ∃ other c, (some frame, b) = (some other, c) := ⟨frame, b, rfl⟩
      dsimp only
      by_cases address : isCanonical (page * pageSize) = false
      · rw [if_pos address, if_pos address]
        exact ⟨rfl, iff_of_true rfl ⟨found, Or.inl address⟩⟩
      · rw [if_neg address, if_neg address]
        cases out : space.mapUser4kib b page frame with
        | mk success rest =>
          rw [out] at refused
          cases success with
          | true => exact Bool.noConfusion refused.1
          | false =>
            dsimp only at refused ⊢
            apply And.intro rfl
            cases goesBack with
            | true => simp [refused.2 rfl, address]
            | false => simp

/-- Segments are mapped when all their pages are where a program may have them and there are
frames for all; a frame is left nowhere just when a page that has no address comes before. -/
theorem Built.mapSegments {pages : List Nat} (built : Built total done space a)
    (nodup : (done ++ pages).Nodup) :
    ((space.mapSegments a pages).1 = true ↔
      (∀ page ∈ pages, page / pagesPerTopEntry = 0) ∧ framesFor (done ++ pages) ≤ total) ∧
    ((space.mapSegments a pages).1 = true →
      Built total (done ++ pages) (space.mapSegments a pages).2.1 (space.mapSegments a pages).2.2) ∧
    (space.segmentsStrand a pages = true ↔ ∃ before page after, pages = before ++ page :: after ∧
      (∀ page ∈ before, page / pagesPerTopEntry = 0) ∧ isCanonical (page * pageSize) = false ∧
      framesFor (done ++ before) < total) := by
  induction pages generalizing done space a with
  | nil =>
    rw [AddressSpace.mapSegments, segmentsStrand, List.append_nil]
    have within : framesFor done ≤ total := by
      have := built.count
      omega
    refine ⟨by simp [within], fun _ => built, by simp⟩
  | cons page rest ih =>
    have fresh : page ∉ done := by
      intro mem
      exact (List.nodup_append.mp nodup).2.2 page mem page List.mem_cons_self rfl
    have step : done ++ page :: rest = (done ++ [page]) ++ rest := by simp
    rw [AddressSpace.mapSegments, segmentsStrand]
    by_cases fits : page / pagesPerTopEntry = 0 ∧ framesFor (done ++ [page]) ≤ total
    · have mapped := built.mapFresh_of true fits.1 fresh fits.2
      cases out : space.mapFresh a page true with
      | mk success next =>
        rw [out] at mapped
        obtain rfl : success = true := mapped.1
        have later := ih mapped.2.2 (by rw [← step]; exact nodup)
        rw [← step] at later
        dsimp only
        rw [mapped.2.1, Bool.false_or]
        refine ⟨?_, later.2.1, ?_⟩
        · rw [later.1, List.forall_mem_cons]
          simp [fits.1]
        · rw [later.2.2]
          constructor
          · intro found
            obtain ⟨before, bad, after, found⟩ := found
            refine ⟨page :: before, bad, after, ?_, ?_, found.2.2.1, ?_⟩
            · rw [found.1]
              rfl
            · exact List.forall_mem_cons.mpr ⟨fits.1, found.2.1⟩
            · rw [List.append_assoc] at found
              exact found.2.2.2
          · intro found
            obtain ⟨before, bad, after, found⟩ := found
            cases before with
            | nil =>
              obtain rfl : page = bad := (List.cons.inj found.1).1
              exact absurd (isCanonical_of_user fits.1) (Bool.eq_false_iff.mp found.2.2.1)
            | cons first before =>
              have parts := List.cons.inj found.1
              have inside := List.forall_mem_cons.mp found.2.1
              refine ⟨before, bad, after, parts.2, inside.2, found.2.2.1, ?_⟩
              rw [List.append_assoc, parts.1]
              exact found.2.2.2
    · have refused := built.mapFresh_fails true (Or.inl fresh) (by
        by_cases user : page / pagesPerTopEntry = 0
        · exact Or.inr (Or.inr (not_le.mp fun enough => fits ⟨user, enough⟩))
        · exact Or.inl user)
      cases out : space.mapFresh a page true with
      | mk success next =>
        rw [out] at refused
        obtain rfl : success = false := refused.1
        dsimp only
        rw [Bool.or_false]
        refine ⟨?_, fun yes => absurd yes Bool.false_ne_true, ?_⟩
        · apply iff_of_false Bool.false_ne_true
          intro all
          apply fits
          apply And.intro (all.1 page List.mem_cons_self)
          apply le_trans _ all.2
          rw [step]
          exact framesFor_append _ _
        · rw [refused.2]
          constructor
          · intro strands
            exact ⟨[], page, rest, rfl, fun _ mem => absurd mem List.not_mem_nil,
              strands.2.resolve_right fun same => Bool.noConfusion same, by
              rw [List.append_nil]
              exact strands.1⟩
          · intro found
            obtain ⟨before, bad, after, found⟩ := found
            cases before with
            | nil =>
              obtain rfl : page = bad := (List.cons.inj found.1).1
              rw [List.append_nil] at found
              exact ⟨found.2.2.2, Or.inl found.2.2.1⟩
            | cons first before =>
              have parts := List.cons.inj found.1
              rw [← parts.1] at found
              apply (fits ⟨found.2.1 page List.mem_cons_self, ?_⟩).elim
              apply le_trans (framesFor_append (done ++ [page]) before)
              rw [List.append_assoc]
              exact le_of_lt found.2.2.2

section Top

variable (space : AddressSpace) (a : FrameAllocator)

theorem ensureTables_pml4 (page : Nat) (levels : List Nat) :
    (space.ensureTables a page levels).2.1.pml4 = space.pml4 := by
  induction levels generalizing space a with
  | nil => rfl
  | cons level below ih =>
    rw [ensureTables]
    split
    · exact ih space a
    · split
      · rfl
      · apply ih

theorem mapFresh_pml4 (page : Nat) (goesBack : Bool) :
    (space.mapFresh a page goesBack).2.1.pml4 = space.pml4 := by
  have mapped : ∀ b frame, (space.mapUser4kib b page frame).2.1.pml4 = space.pml4 := by
    intro b frame
    rw [mapUser4kib]
    split
    · rw [AddressSpace.mapPage]
      dsimp only
      split
      · exact ensureTables_pml4 space b page _
      · exact ensureTables_pml4 space b page _
    · rfl
  rw [mapFresh]
  split
  · rfl
  · rename_i frame b _
    have same := mapped b frame
    split
    · rfl
    · split
      · rename_i out
        rw [out] at same
        exact same
      · rename_i out
        rw [out] at same
        exact same

theorem mapSegments_pml4 (pages : List Nat) :
    (space.mapSegments a pages).2.1.pml4 = space.pml4 := by
  induction pages generalizing space a with
  | nil => rfl
  | cons page rest ih =>
    have same := mapFresh_pml4 space a page true
    rw [AddressSpace.mapSegments]
    split
    · rename_i out
      rw [out] at same
      exact (ih _ _).trans same
    · rename_i out
      rw [out] at same
      exact same

theorem loadInto_pml4 (pages : List Nat) (stack : Bool) :
    (space.loadInto a pages stack).2.1.pml4 = space.pml4 := by
  have same := mapSegments_pml4 space a pages
  rw [loadInto]
  split
  · rename_i out
    rw [out] at same
    split
    · exact (mapFresh_pml4 _ _ _ _).trans same
    · exact same
  · rename_i out
    rw [out] at same
    exact same

end Top

/-- Where `load_user_program_into` leaves a frame nowhere, given the pages of the image and the
frames that are free: at a page that has no address, or at a stack that cannot be mapped. -/
def Strands (total : Nat) (pages : List Nat) : Prop :=
  (∃ before page after, pages = before ++ page :: after ∧
    (∀ page ∈ before, page / pagesPerTopEntry = 0) ∧ isCanonical (page * pageSize) = false ∧
    framesFor before < total) ∨
  ((∀ page ∈ pages, page / pagesPerTopEntry = 0) ∧ framesFor pages < total ∧
    (userProgramStackTop / pageSize - 1 ∈ pages ∨
      total < framesFor (pages ++ [userProgramStackTop / pageSize - 1])))

theorem built_new (sound : a.Sound) {space : AddressSpace} {b : FrameAllocator}
    (made : new a = (some space, b)) : Built b.freeFrameCount [] space b := by
  rw [new] at made
  have both := Prod.mk.inj made
  apply Exists.elim (Option.map_eq_some_iff.mp both.1)
  intro pml4 taken
  have taken' : a.allocateFrame = (some pml4, b) := Prod.ext taken.1 both.2
  rw [← taken.2]
  refine ⟨(allocateFrame_some sound.tidy taken').1.sound sound, ?_, ?_, ?_, ?_⟩
  · rw [capacity_taken taken']
    have few := sound.few
    cases ranges : a.ranges with
    | nil =>
      rw [allocateFrame, ranges] at taken'
      cases taken'
    | cons first rest =>
      rw [ranges] at few
      exact lt_of_lt_of_le (Nat.zero_lt_succ _) few
  · intro key
    simp [tablesOf]
  · intro page
    simp [leaf]
  · simp [framesFor, tablesOf]

theorem loadStrands_iff {pages : List Nat} (built : Built total [] space a) (nodup : pages.Nodup) :
    space.loadStrands a pages true = true ↔ Strands total pages := by
  have segments := @Built.mapSegments space a total [] pages built nodup
  simp only [List.nil_append] at segments
  rw [loadStrands, Strands, Bool.or_eq_true, segments.2.2]
  apply or_congr_right
  cases out : space.mapSegments a pages with
  | mk success next =>
    rw [out] at segments
    cases success with
    | false =>
      apply iff_of_false Bool.false_ne_true
      intro all
      exact absurd (segments.1.mpr ⟨all.1, le_of_lt all.2.1⟩) Bool.false_ne_true
    | true =>
      have user := (segments.1.mp rfl).1
      have built' := segments.2.1 rfl
      dsimp only
      rw [Bool.true_and]
      have place : (userProgramStackTop / pageSize - 1) / pagesPerTopEntry = 0 := by decide
      by_cases fits : userProgramStackTop / pageSize - 1 ∉ pages ∧
          framesFor (pages ++ [userProgramStackTop / pageSize - 1]) ≤ total
      · rw [(built'.mapFresh_of false place fits.1 fits.2).2.1]
        apply iff_of_false Bool.false_ne_true
        intro all
        cases all.2.2 with
        | inl there => exact fits.1 there
        | inr short => exact absurd fits.2 (not_le.mpr short)
      · have fails : userProgramStackTop / pageSize - 1 ∈ pages ∨
            total < framesFor (pages ++ [userProgramStackTop / pageSize - 1]) := by
          by_cases there : userProgramStackTop / pageSize - 1 ∈ pages
          · exact Or.inl there
          · exact Or.inr (not_le.mp fun enough => fits ⟨there, enough⟩)
        rw [(built'.mapFresh_fails false (Or.inr rfl) (Or.inr fails)).2]
        constructor
        · intro strands
          exact ⟨user, strands.1, fails⟩
        · intro all
          exact ⟨all.2.1, Or.inr rfl⟩

end AddressSpace

end Zaytos.Kernel
