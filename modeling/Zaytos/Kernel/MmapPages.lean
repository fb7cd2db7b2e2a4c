import Zaytos.Kernel.Mmap
import Zaytos.Kernel.SpaceFrames

set_option autoImplicit false

/-! The loop of `mmap`: when it maps all pages, and what it leaves when it does not. -/
namespace Zaytos.Kernel

open Paging (PagePermissions)

namespace AddressSpace

open FrameAllocator

def tableSet (space : AddressSpace) : Finset (Nat × Nat) := (space.tables.map Prod.fst).toFinset

theorem hasTables_tableSet (space : AddressSpace) : space.HasTables space.tableSet := by
  intro key
  rw [tableSet, List.mem_toFinset]
  induction space.tables with
  | nil => simp
  | cons entry rest ih =>
    rw [List.lookup_cons, List.map_cons, List.mem_cons, ← ih]
    by_cases same : key = entry.1
    · simp [same]
    · simp [same, show (key == entry.1) = false by simpa using same]

def missingTables (space : AddressSpace) (pages : List Nat) : Nat :=
  (tablesOf pages \ space.tableSet).card

theorem missingTables_eq (space : AddressSpace) (pages : List Nat) {keys : Finset (Nat × Nat)}
    (has : space.HasTables keys) :
    space.missingTables pages + keys.card = (keys ∪ tablesOf pages).card := by
  have same : space.tableSet = keys := by
    ext key
    rw [← hasTables_tableSet space key, has key]
  rw [missingTables, same, Finset.union_comm, ← Finset.card_sdiff_add_card]

theorem tablesOf_cons (page : Nat) (rest : List Nat) :
    tablesOf (page :: rest) = tablesOf [page] ∪ tablesOf rest := by
  rw [tablesOf, tablesOf, tablesOf, ← List.toFinset_append, ← List.flatMap_append,
    List.singleton_append]

end AddressSpace

variable {address : Nat}

namespace UserMap

variable (m : UserMap) (page frame : Nat) (p : PagePermissions)

/-- What mapping takes: addresses of the lower half and of memory, nothing there so far, and frames
for the tables. -/
structure CanMap (page : Nat) (frames : List (Option Nat)) : Prop where
  low : page + frames.length ≤ lowerHalfPages
  physical : none ∉ frames
  fresh : ∀ other ∈ List.range' page frames.length, m.translation other = none
  tables : m.space.missingTables (List.range' page frames.length) ≤ m.allocator.freeFrameCount

theorem canMap_iff (frames : List (Option Nat)) : m.CanMap page frames ↔
    page + frames.length ≤ lowerHalfPages ∧ none ∉ frames ∧
      (∀ other ∈ List.range' page frames.length, m.translation other = none) ∧
      m.space.missingTables (List.range' page frames.length) ≤ m.allocator.freeFrameCount :=
  ⟨fun can => ⟨can.low, can.physical, can.fresh, can.tables⟩,
    fun can => ⟨can.1, can.2.1, can.2.2.1, can.2.2.2⟩⟩

instance (frames : List (Option Nat)) : Decidable (m.CanMap page frames) :=
  decidable_of_iff _ (m.canMap_iff page frames).symm

theorem translation_eq_none : m.translation page = none ↔ m.space.leaf page = none := by
  rw [translation, Option.map_eq_none_iff]

variable {m page frame p}

theorem ensureTables_leaf (space : AddressSpace) (a : FrameAllocator) (levels : List Nat) :
    (space.ensureTables a page levels).2.1.leaves = space.leaves := by
  induction levels generalizing space a with
  | nil => rfl
  | cons level below ih =>
    rw [AddressSpace.ensureTables]
    split
    · exact ih space a
    · split
      · rfl
      · exact ih _ _

theorem map4kib_mapped (mapped : (m.map4kib page frame p).1 = true) :
    m.translation page = none ∧ ∀ other, (m.map4kib page frame p).2.translation other =
      if other = page then some (frame, some p) else m.translation other := by
  simp only [map4kib, AddressSpace.map4kib, AddressSpace.mapPage] at mapped ⊢
  split at mapped
  · cases mapped
  rename_i apart
  rw [if_neg apart]
  split at mapped
  · rename_i low
    split at mapped
    · rename_i made
      rw [if_pos low, if_pos made]
      constructor
      · rw [translation_eq_none, AddressSpace.leaf, ← ensureTables_leaf]
        exact made.2
      · intro other
        simp only [translation, AddressSpace.leaf, List.lookup_cons, ensureTables_leaf, if_true]
        by_cases same : other = page
        · simp [same]
        · simp [same, show (other == page) = false by simpa using same]
    · cases mapped
  · cases mapped

theorem map4kib_refused (refused : (m.map4kib page frame p).1 = false) :
    (m.map4kib page frame p).2.translation = m.translation := by
  funext other
  simp only [map4kib, AddressSpace.map4kib, AddressSpace.mapPage] at refused ⊢
  split at refused
  · rename_i both
    rw [if_pos both]
  rename_i apart
  rw [if_neg apart]
  split at refused
  · rename_i low
    split at refused
    · cases refused
    · rename_i kept
      rw [if_pos low, if_neg kept]
      simp [translation, AddressSpace.leaf, ensureTables_leaf]
  · rename_i high
    rw [if_neg high]
    simp [translation]

section

variable {keys : Finset (Nat × Nat)} {write : Bool}

theorem map4kib_count (sound : m.allocator.Sound) (has : m.space.HasTables keys) :
    let out := m.map4kib page frame (.userShared write)
    let more := keys ∪ AddressSpace.tablesOf [page]
    out.2.allocator.Sound ∧
      (out.1 = true → out.2.space.HasTables more ∧
        out.2.allocator.freeFrameCount + more.card = m.allocator.freeFrameCount + keys.card) ∧
      (out.1 = true ↔ page < lowerHalfPages ∧ m.translation page = none ∧
        more.card ≤ m.allocator.freeFrameCount + keys.card) := by
  have made := @AddressSpace.ensureTables_count _ _ _ page [3, 2, 1] sound has
  have same : AddressSpace.tablesOf [page] =
      ([3, 2, 1].map fun level => (level, page / entriesPerTable ^ level)).toFinset := by
    rw [AddressSpace.tablesOf, List.flatMap_singleton]
    rfl
  simp only [← same] at made
  have free : m.translation page = none ↔
      (m.space.ensureTables m.allocator page [3, 2, 1]).2.1.leaf page = none := by
    rw [translation_eq_none, AddressSpace.leaf, AddressSpace.leaf, made.2.2.1]
  simp only [map4kib, PagePermissions.userShared, PagePermissions.writableAndExecutable,
    Bool.and_false, Bool.false_eq_true, if_false, AddressSpace.map4kib, AddressSpace.mapPage, free]
  by_cases low : page < lowerHalfPages
  · cases made.2.2.2 with
    | inl tables =>
      by_cases fresh :
          (m.space.ensureTables m.allocator page [3, 2, 1]).2.1.leaf page = none
      · simp only [low, tables.1, fresh, and_self, if_true, true_and, forall_const, true_iff]
        refine ⟨made.1, ⟨tables.2.1, tables.2.2⟩, ?_⟩
        have count := tables.2.2
        omega
      · simp only [low, tables.1, fresh, and_false, if_true, if_false, false_and]
        exact ⟨made.1, fun no => absurd no Bool.false_ne_true,
          iff_of_false Bool.false_ne_true not_false⟩
    | inr refused =>
      simp only [low, refused.1, Bool.false_eq_true, false_and, if_true, if_false, true_and,
        IsEmpty.forall_iff, false_iff, not_and]
      refine ⟨made.1, fun _ => ?_⟩
      exact not_le.mpr refused.2.2
  · simp only [low, if_false, false_and, Bool.false_eq_true, IsEmpty.forall_iff, and_true]
    exact sound

theorem canMap_keys (frames : List (Option Nat)) (has : m.space.HasTables keys) :
    m.CanMap page frames ↔ page + frames.length ≤ lowerHalfPages ∧ none ∉ frames ∧
      (∀ other ∈ List.range' page frames.length, m.translation other = none) ∧
      (keys ∪ AddressSpace.tablesOf (List.range' page frames.length)).card ≤
        m.allocator.freeFrameCount + keys.card := by
  have count := m.space.missingTables_eq (List.range' page frames.length) has
  rw [canMap_iff, ← count, Nat.add_le_add_iff_right]

theorem canMap_cons (sound : m.allocator.Sound) (rest : List (Option Nat)) :
    m.CanMap page (some frame :: rest) ↔
      (m.map4kib page frame (.userShared write)).1 = true ∧
        (m.map4kib page frame (.userShared write)).2.CanMap (page + 1) rest := by
  have has := m.space.hasTables_tableSet
  have count := @map4kib_count _ page frame _ write sound has
  dsimp only at count
  have split : m.space.tableSet ∪ AddressSpace.tablesOf (List.range' page (rest.length + 1)) =
      m.space.tableSet ∪ AddressSpace.tablesOf [page] ∪
        AddressSpace.tablesOf (List.range' (page + 1) rest.length) := by
    rw [List.range'_succ, AddressSpace.tablesOf_cons, Finset.union_assoc]
  rw [canMap_keys _ has, List.length_cons, split, count.2.2]
  constructor
  · intro can
    have low : page < lowerHalfPages := by
      have := can.1
      omega
    have fresh := can.2.2.1
    rw [List.range'_succ, List.forall_mem_cons] at fresh
    have room : (m.space.tableSet ∪ AddressSpace.tablesOf [page]).card ≤
        m.allocator.freeFrameCount + m.space.tableSet.card :=
      (Finset.card_le_card Finset.subset_union_left).trans can.2.2.2
    have mapped := count.2.2.mpr ⟨low, fresh.1, room⟩
    have after := count.2.1 mapped
    apply And.intro ⟨low, fresh.1, room⟩
    rw [canMap_keys _ after.1, after.2]
    refine ⟨by omega, fun mem => can.2.1 (List.mem_cons_of_mem _ mem), ?_, can.2.2.2⟩
    intro other mem
    have above := (List.mem_range'_1.mp mem).1
    rw [(map4kib_mapped mapped).2, if_neg (by omega)]
    exact fresh.2 other mem
  · intro can
    have mapped := count.2.2.mpr can.1
    have after := count.2.1 mapped
    have rest := (canMap_keys _ after.1).mp can.2
    rw [after.2] at rest
    refine ⟨by omega, ?_, ?_, rest.2.2.2⟩
    · intro mem
      cases mem with
      | tail _ mem => exact rest.2.1 mem
    · rw [List.range'_succ, List.forall_mem_cons]
      apply And.intro can.1.2.1
      intro other mem
      have above := (List.mem_range'_1.mp mem).1
      have fresh := rest.2.2.1 other mem
      rw [(map4kib_mapped mapped).2, if_neg (by omega)] at fresh
      exact fresh

end

section

variable (write : Bool)

theorem mapPages_none (rest : List (Option Nat)) (within : address < 2 ^ 64) :
    m.mapPages p address (none :: rest) = (.notCanonical, m) := by
  rw [mapPages.eq_def]
  dsimp only
  rw [if_neg (not_le.mpr within)]
  cases isCanonical address <;> rfl

theorem mapPages_some (rest : List (Option Nat)) (within : address < 2 ^ 64) :
    m.mapPages p address (some frame :: rest) =
      if isCanonical address = false then (.notCanonical, m)
      else if (m.map4kib (address / pageSize) frame p).1 = true then
        (m.map4kib (address / pageSize) frame p).2.mapPages p (address + pageSize) rest
      else (.refused, (m.map4kib (address / pageSize) frame p).2) := by
  rw [mapPages.eq_def]
  dsimp only
  rw [if_neg (not_le.mpr within)]
  cases isCanonical address with
  | false => rfl
  | true =>
    rw [if_neg (by decide)]
    dsimp only
    cases m.map4kib (address / pageSize) frame p with
    | mk mapped out => cases mapped <;> rfl

theorem mapPages_overflows (frame : Option Nat) (rest : List (Option Nat))
    (beyond : 2 ^ 64 ≤ address) : m.mapPages p address (frame :: rest) = (.overflows, m) := by
  rw [mapPages.eq_def]
  dsimp only
  rw [if_pos beyond]

theorem mapPages_sound (frames : List (Option Nat)) (sound : m.allocator.Sound) :
    (m.mapPages (.userShared write) address frames).2.allocator.Sound := by
  induction frames generalizing m address with
  | nil => exact sound
  | cons frame rest ih =>
    by_cases within : address < 2 ^ 64
    · cases frame with
      | none =>
        rw [mapPages_none rest within]
        exact sound
      | some frame =>
        have kept := (@map4kib_count _ (address / pageSize) frame _ write
          sound m.space.hasTables_tableSet).1
        rw [mapPages_some rest within]
        split
        · exact sound
        · split
          · exact ih kept
          · exact kept
    · rw [mapPages_overflows frame rest (not_lt.mp within)]
      exact sound

theorem isCanonical_of_low (low : page < lowerHalfPages) : isCanonical (page * pageSize) = true := by
  have size : pageSize = 4096 := rfl
  simp only [isCanonical, size, Bool.or_eq_true, decide_eq_true_eq]
  simp only [lowerHalfPages] at low
  omega

theorem within_of_low (low : page < lowerHalfPages) : page * pageSize < 2 ^ 64 := by
  have size : pageSize = 4096 := rfl
  rw [size]
  simp only [lowerHalfPages] at low
  omega

theorem div_pageSize (page : Nat) : page * pageSize / pageSize = page :=
  Nat.mul_div_cancel page (by decide)

theorem mapPages_mapped_iff (frames : List (Option Nat)) (sound : m.allocator.Sound)
    (start : frames ≠ [] ∨ page ≤ lowerHalfPages) :
    (m.mapPages (.userShared write) (page * pageSize) frames).1 = .mapped ↔
      m.CanMap page frames := by
  induction frames generalizing m page with
  | nil =>
    have low := start.resolve_left (absurd rfl)
    have can : m.CanMap page [] := by
      apply UserMap.CanMap.mk
      · exact low
      · exact List.not_mem_nil
      · intro other mem
        exact absurd mem List.not_mem_nil
      · rw [AddressSpace.missingTables, List.length_nil, List.range'_zero, AddressSpace.tablesOf,
          List.flatMap_nil, List.toFinset_nil, Finset.empty_sdiff, Finset.card_empty]
        exact Nat.zero_le _
    exact iff_of_true rfl can
  | cons frame rest ih =>
    by_cases low : page < lowerHalfPages
    · cases frame with
      | none =>
        rw [mapPages_none rest (within_of_low low)]
        apply iff_of_false
        · intro same
          cases same
        · intro can
          exact can.physical List.mem_cons_self
      | some frame =>
        have kept := (@map4kib_count _ page frame _ write
          sound m.space.hasTables_tableSet).1
        rw [mapPages_some rest (within_of_low low), isCanonical_of_low low, div_pageSize,
          if_neg (by decide), canMap_cons sound rest]
        split
        · rename_i mapped
          have next := @ih _ (page + 1) kept (Or.inr low)
          rw [add_mul, one_mul] at next
          rw [next]
          exact (and_iff_right mapped).symm
        · rename_i refused
          apply iff_of_false
          · intro same
            cases same
          · intro both
            exact refused both.1
    · apply iff_of_false
      · intro mapped
        by_cases within : page * pageSize < 2 ^ 64
        · cases frame with
          | none =>
            rw [mapPages_none rest within] at mapped
            cases mapped
          | some frame =>
            have refused : (m.map4kib page frame (.userShared write)).1 = false := by
              rw [map4kib]
              split
              · rfl
              · rw [AddressSpace.map4kib, if_neg low]
            rw [mapPages_some rest within, div_pageSize, refused] at mapped
            split at mapped
            · cases mapped
            · cases mapped
        · rw [mapPages_overflows frame rest (not_lt.mp within)] at mapped
          cases mapped
      · intro can
        have := can.low
        rw [List.length_cons] at this
        omega

end

section

variable (write : Bool)

theorem mapPages_translation (frames : List (Option Nat))
    (low : page + frames.length ≤ lowerHalfPages)
    (mapped : (m.mapPages p (page * pageSize) frames).1 = .mapped) (other : Nat) :
    (m.mapPages p (page * pageSize) frames).2.translation other =
      if page ≤ other ∧ other < page + frames.length then
        (frames[other - page]?.join).map fun frame => (frame, some p)
      else m.translation other := by
  induction frames generalizing m page with
  | nil =>
    rw [if_neg (by simp)]
    rfl
  | cons frame rest ih =>
    rw [List.length_cons] at low
    have first : page < lowerHalfPages := by omega
    cases frame with
    | none =>
      rw [mapPages_none rest (within_of_low first)] at mapped
      cases mapped
    | some frame =>
      rw [mapPages_some rest (within_of_low first), isCanonical_of_low first, div_pageSize,
        if_neg (by decide)] at mapped ⊢
      split at mapped
      · rename_i here
        rw [if_pos here]
        have size : page * pageSize + pageSize = (page + 1) * pageSize := by
          rw [add_mul, one_mul]
        rw [size] at mapped ⊢
        rw [ih (by omega) mapped, (map4kib_mapped here).2, List.length_cons]
        by_cases same : other = page
        · simp [same]
        · by_cases after : page + 1 ≤ other ∧ other < page + 1 + rest.length
          · have next : other - page = other - (page + 1) + 1 := by omega
            rw [if_pos after, if_pos (by omega), next, List.getElem?_cons_succ]
          · rw [if_neg after, if_neg same, if_neg (by omega)]
      · cases mapped

theorem mapPages_below (frames : List (Option Nat)) {other : Nat}
    (below : other < address / pageSize) :
    (m.mapPages p address frames).2.translation other = m.translation other := by
  induction frames generalizing m address with
  | nil => rfl
  | cons frame rest ih =>
    by_cases within : address < 2 ^ 64
    · cases frame with
      | none => rw [mapPages_none rest within]
      | some frame =>
        rw [mapPages_some rest within]
        split
        · rfl
        · split
          · rename_i mapped
            have next : (address + pageSize) / pageSize = address / pageSize + 1 :=
              Nat.add_div_right _ (by decide)
            rw [ih (by omega), (map4kib_mapped mapped).2, if_neg (Nat.ne_of_lt below)]
          · rename_i refused
            rw [map4kib_refused (Bool.not_eq_true _ ▸ refused)]
    · rw [mapPages_overflows frame rest (not_lt.mp within)]

theorem mapPages_stuck (frame : Option Nat) (rest : List (Option Nat)) (sound : m.allocator.Sound)
    (within : page * pageSize < 2 ^ 64) (stuck : ¬m.CanMap page [frame]) :
    let out := m.mapPages (.userShared write) (page * pageSize) (frame :: rest)
    (out.1 = .notCanonical ∨ out.1 = .refused) ∧ out.2.translation = m.translation := by
  have alone := mt (mapPages_mapped_iff write [frame] sound (Or.inl (List.cons_ne_nil _ _))).mp stuck
  cases frame with
  | none =>
    rw [mapPages_none rest within]
    exact ⟨Or.inl rfl, rfl⟩
  | some frame =>
    rw [mapPages_some [] within] at alone
    rw [mapPages_some rest within]
    split at alone
    · rename_i gap
      rw [if_pos gap]
      exact ⟨Or.inl rfl, rfl⟩
    · rename_i there
      rw [if_neg there]
      split at alone
      · exact absurd rfl alone
      · rename_i refused
        rw [if_neg refused]
        exact ⟨Or.inr rfl, map4kib_refused (Bool.not_eq_true _ ▸ refused)⟩

theorem mapPages_first (frame : Option Nat) (rest : List (Option Nat)) (sound : m.allocator.Sound)
    (can : m.CanMap page [frame]) :
    (m.mapPages (.userShared write) (page * pageSize) (frame :: rest)).2.translation page ≠ none := by
  have low : page < lowerHalfPages := can.low
  cases frame with
  | none => exact absurd List.mem_cons_self can.physical
  | some frame =>
    have mapped := ((@canMap_cons _ _ _ write sound []).mp can).1
    have below : page < (page * pageSize + pageSize) / pageSize := by
      rw [Nat.add_div_right _ (by decide), div_pageSize]
      exact Nat.lt_succ_self page
    rw [mapPages_some rest (within_of_low low), isCanonical_of_low low, div_pageSize,
      if_neg (by decide), if_pos mapped, mapPages_below rest below, (map4kib_mapped mapped).2,
      if_pos rfl]
    nofun

end

theorem mapPages_mapShared (frames : List Nat) (write : Bool) :
    let out := m.mapPages (.userShared write) address (frames.map some)
    (out.1, out.2.space, out.2.allocator) = m.space.mapShared m.allocator address frames := by
  induction frames generalizing m address with
  | nil => rfl
  | cons frame rest ih =>
    by_cases within : address < 2 ^ 64
    · rw [List.map_cons, mapPages_some _ within, AddressSpace.mapShared,
        if_neg (not_le.mpr within)]
      split
      · rfl
      · have same : m.map4kib (address / pageSize) frame (.userShared write) =
            ((m.space.map4kib m.allocator (address / pageSize) ⟨frame, true⟩).1,
              ⟨(m.space.map4kib m.allocator (address / pageSize) ⟨frame, true⟩).2.1,
                if (m.space.map4kib m.allocator (address / pageSize) ⟨frame, true⟩).1 then
                  (address / pageSize, .userShared write) :: m.permissions else m.permissions,
                (m.space.map4kib m.allocator (address / pageSize) ⟨frame, true⟩).2.2⟩) := by
          rw [map4kib, if_neg (by simp [PagePermissions.userShared,
            PagePermissions.writableAndExecutable])]
          rfl
        rw [same]
        cases m.space.map4kib m.allocator (address / pageSize) ⟨frame, true⟩ with
        | mk mapped out =>
          cases mapped with
          | false => rfl
          | true => exact ih
    · rw [List.map_cons, mapPages_overflows _ _ (not_lt.mp within), AddressSpace.mapShared,
        if_pos (not_lt.mp within)]

end UserMap

end Zaytos.Kernel
