import Zaytos.Kernel.SurveyLeaves

set_option autoImplicit false

/-! The ranges that the walk hands out. -/
namespace Zaytos.Kernel.PageSurvey

open Paging
open Coalesce

def MappedRange.run (range : MappedRange) : Run Tag :=
  ⟨range.start.toNat, range.pages, (range.size, range.permissions)⟩

def MappedRange.stop (range : MappedRange) : Nat :=
  range.start.toNat + range.pages * range.size.bytes

theorem bytes_pos (size : MappingSize) : 4096 ≤ size.bytes := by
  cases size <;> decide

theorem width_pos (tag : Tag) : 0 < width tag := by
  have := bytes_pos tag.1
  rw [width]
  omega

theorem flush_visited (j : Joiner) : j.flush.visited = j.visited ++ j.pending.toList := by
  cases j with
  | mk pending visited => cases pending <;> simp [Joiner.flush]

structure Joins (j : Joiner) (cells : List (Nat × Tag)) : Prop where
  covers : Covers width ((j.visited ++ j.pending.toList).map MappedRange.run) cells
  started : j.pending = none → j.visited = []

namespace Joins

variable {j : Joiner} {cells : List (Nat × Tag)}

theorem start : Joins ⟨none, []⟩ [] := by
  constructor
  · constructor
    · rfl
    · exact List.Pairwise.nil
    · intro r mem
      exact absurd mem List.not_mem_nil
  · intro _
    rfl

theorem append (joins : Joins j cells) {found : Leaf}
    (after : ∀ d ∈ cells, Before width d found.cell)
    (unlike : ∀ range ∈ j.pending, range.stop = found.start.toNat →
      (range.size, range.permissions) ≠ (found.size, found.permissions)) :
    Joins { j.flush with pending := some ⟨found.start, 1, found.size, found.permissions⟩ }
      (cells ++ [found.cell]) := by
  constructor
  · dsimp only
    rw [flush_visited, List.map_append]
    apply joins.covers.append width_pos after
    intro r last touch
    cases pending : j.pending with
    | none =>
      rw [pending, joins.started pending] at last
      exact absurd last (by simp)
    | some range =>
      rw [pending] at last
      have same : r = range.run := by simpa using last.symm
      rw [same] at touch ⊢
      exact unlike range pending touch
  · intro none
    exact absurd none (by simp)

theorem take (joins : Joins j cells) (found : Leaf)
    (after : ∀ d ∈ cells, Before width d found.cell) :
    ∃ next, j.take found = some next ∧ Joins next (cells ++ [found.cell]) := by
  cases pending : j.pending with
  | none =>
    apply Exists.intro
      { j.flush with pending := some ⟨found.start, 1, found.size, found.permissions⟩ }
    constructor
    · rw [Joiner.take, Joiner.leaf, pending]
    · apply joins.append after
      intro range mem
      rw [pending] at mem
      exact absurd mem (by simp)
  | some range =>
    have mem : range.run ∈ (j.visited ++ j.pending.toList).map MappedRange.run := by
      simp [pending]
    have front : range.stop ≤ found.start.toNat := joins.covers.stop_le after mem
    have fits := found.start.isLt
    have wide := bytes_pos range.size
    have size : range.bytes = some (range.pages * range.size.bytes) := by
      apply mul64_of_lt
      rw [MappedRange.stop] at front
      omega
    have ends : add64 range.start.toNat (range.pages * range.size.bytes) = some range.stop := by
      apply add64_of_lt
      rw [MappedRange.stop] at front
      omega
    have step : j.take found =
        if range.stop = found.start.toNat ∧ range.size = found.size ∧
          range.permissions = found.permissions then
          (add64 range.pages 1).map fun pages =>
            { j with pending := some { range with pages := pages } }
        else some { j.flush with
          pending := some ⟨found.start, 1, found.size, found.permissions⟩ } := by
      rw [Joiner.take, Joiner.leaf, pending]
      simp only [size, ends, Option.bind_eq_bind, Option.bind_some, Option.some.injEq]
      split
      · cases add64 range.pages 1 <;> rfl
      · rfl
    rw [step]
    split
    case isTrue same =>
      obtain ⟨touch, size', permissions'⟩ := same
      have grown : add64 range.pages 1 = some (range.pages + 1) := by
        apply add64_of_lt
        rw [MappedRange.stop] at front
        have more := Nat.mul_le_mul_left range.pages wide
        omega
      apply Exists.intro { j with pending := some { range with pages := range.pages + 1 } }
      constructor
      · rw [grown]
        rfl
      · constructor
        · have covers := joins.covers
          rw [pending, Option.toList_some, List.map_append] at covers
          have more := covers.grow
          have cell : found.cell = (range.run.stop width, range.run.tag) := by
            rw [Leaf.cell, ← touch, ← size', ← permissions']
            rfl
          rw [cell, Option.toList_some, List.map_append]
          exact more
        · intro none
          exact absurd none (by simp)
    case isFalse other =>
      apply Exists.intro
        { j.flush with pending := some ⟨found.start, 1, found.size, found.permissions⟩ }
      apply And.intro rfl
      apply joins.append after
      intro last mem touch tag
      rw [pending] at mem
      cases mem
      exact other ⟨touch, Prod.mk.inj tag⟩

theorem takeAll (joins : Joins j cells) (found : List Leaf)
    (sorted : (cells ++ found.map Leaf.cell).Pairwise (Before width)) :
    ∃ next, found.foldlM Joiner.take j = some next ∧ Joins next (cells ++ found.map Leaf.cell) := by
  induction found generalizing j cells with
  | nil =>
    apply Exists.intro j
    apply And.intro rfl
    rwa [List.map_nil, List.append_nil]
  | cons first rest ih =>
    rw [List.map_cons, List.append_cons] at sorted
    have after := (List.pairwise_append.mp (List.pairwise_append.mp sorted).1).2.2
    obtain ⟨next, step, joins'⟩ := joins.take first fun d mem => after d mem _ (by simp)
    obtain ⟨last, run, joins''⟩ := ih joins' sorted
    apply Exists.intro last
    constructor
    · rw [List.foldlM_cons, step]
      exact run
    · rwa [List.map_cons, List.append_cons]

end Joins

theorem walk_covers (read : Tables) (root : Word) (start stop : Nat) :
    ∃ ranges, walk read root start stop = some ranges ∧
      Covers width (ranges.map MappedRange.run) ((leaves read root start stop).map Leaf.cell) := by
  obtain ⟨j, run, joins⟩ := Joins.start.takeAll (leaves read root start stop)
    (within_leaves root start stop).1
  apply Exists.intro j.flush.visited
  constructor
  · rw [walk_eq, run]
    rfl
  · rw [flush_visited]
    exact joins.covers

variable {start stop : Nat} {root virt : Word} {read : Tables} {ranges : List MappedRange}

theorem leaf_place {found : Leaf} (mem : found ∈ leaves read root start stop) :
    4096 ∣ found.start.toNat ∧ (found.start.toNat + found.size.bytes ≤ 2 ^ 47 ∨
      2 ^ 64 - 2 ^ 47 ≤ found.start.toNat ∧ found.start.toNat + found.size.bytes ≤ 2 ^ 64) := by
  have count : entries = 512 := rfl
  have some : 0 < entries := by decide
  cases mem_leaves_iff.mp mem with
  | giant top upper inTop inUpper =>
    have place := @toNat_addressOf top _ _ _ (by omega) inUpper some some
    have size : MappingSize.giant.bytes = 2 ^ 30 := rfl
    rw [add_zeros, base] at place
    dsimp only
    split_ifs at place <;> omega
  | large top upper middle inTop inUpper inMiddle =>
    have place := @toNat_addressOf top _ _ _ (by omega) inUpper inMiddle some
    have size : MappingSize.large.bytes = 2 ^ 21 := rfl
    rw [base] at place
    dsimp only
    split_ifs at place <;> omega
  | small top upper middle leaf inTop inUpper inMiddle inLeaf =>
    have place := @toNat_addressOf top _ _ _ (by omega) inUpper inMiddle inLeaf
    have size : MappingSize.small.bytes = 2 ^ 12 := rfl
    rw [base] at place
    dsimp only
    split_ifs at place <;> omega

structure MappedRange.Sound (range : MappedRange) : Prop where
  some : 0 < range.pages
  aligned : 4096 ∣ range.start.toNat
  small : range.pages * range.size.bytes < 2 ^ 64
  fits : range.stop ≤ 2 ^ 64

theorem sound_ranges (covers : Covers width (ranges.map MappedRange.run)
      ((leaves read root start stop).map Leaf.cell))
    {range : MappedRange} (mem : range ∈ ranges) : range.Sound := by
  have there : range.run ∈ ranges.map MappedRange.run := List.mem_map_of_mem mem
  have some := covers.some _ there
  have place : ∀ c ∈ range.run.cells width, 4096 ∣ c.1 ∧ (c.1 + width c.2 ≤ 2 ^ 47 ∨
      2 ^ 64 - 2 ^ 47 ≤ c.1 ∧ c.1 + width c.2 ≤ 2 ^ 64) := by
    intro c inside
    obtain ⟨found, isLeaf, rfl⟩ := List.mem_map.mp (covers.mem_iff.mpr ⟨_, there, inside⟩)
    exact leaf_place isLeaf
  have first : (range.start.toNat, (range.size, range.permissions)) ∈ range.run.cells width :=
    mem_cells.mpr ⟨rfl, 0, some, by rw [Nat.zero_mul]; rfl⟩
  have bound : range.run.stop width ≤ 2 ^ 64 := by
    apply Coalesce.stop_le some
    intro c inside
    have := (place c inside).2
    omega
  have side := @one_side Tag width range.run (2 ^ 47) (2 ^ 64 - 2 ^ 47) some (by decide)
    fun c inside => by
      have := (place c inside).2
      omega
  constructor
  · exact some
  · exact (place _ first).1
  · have start' : range.run.start = range.start.toNat := rfl
    have stop' : range.run.stop width = range.start.toNat + range.pages * range.size.bytes := rfl
    omega
  · exact bound

/-! What a user may touch. -/

theorem toNat_index (virt : Word) (n : Nat) :
    ((virt >>> n) &&& 0x1FF).toNat = virt.toNat / 2 ^ n % 512 := by
  rw [BitVec.toNat_and, BitVec.toNat_ushiftRight, Nat.shiftRight_eq_div_pow]
  exact Nat.and_two_pow_sub_one_eq_mod _ 9

theorem place_iff (canonical : Paging.isCanonical virt = true) {top upper middle leaf : Nat}
    (inTop : top < entries) (inUpper : upper < entries) (inMiddle : middle < entries)
    (inLeaf : leaf < entries) : (addressOf top upper middle leaf).toNat ≤ virt.toNat ∧
      virt.toNat < (addressOf top upper middle leaf).toNat + 2 ^ 12 ↔
    topIndex virt = top ∧ upperIndex virt = upper ∧ middleIndex virt = middle ∧
      leafIndex virt = leaf := by
  have count : entries = 512 := rfl
  have halves := (Paging.isCanonical_iff virt).mp canonical
  have fits := virt.isLt
  rw [toNat_addressOf inTop inUpper inMiddle inLeaf, topIndex, upperIndex, middleIndex, leafIndex,
    toNat_index, toNat_index, toNat_index, toNat_index, base]
  split_ifs <;> omega

def Grants (access : UserAccess) (size : MappingSize) (permissions : MappingPermissions) : Prop :=
  size = .small ∧ (permissions.user = true ∧ permissions.tablesUser = true) ∧
    (access = .write → permissions.writable = true ∧ permissions.tablesWritable = true)

def Reported (ranges : List MappedRange) (virt : Word) (access : UserAccess) : Prop :=
  ∃ range ∈ ranges, (range.start.toNat ≤ virt.toNat ∧ virt.toNat < range.stop) ∧
    Grants access range.size range.permissions

theorem grants_iff {access : UserAccess} {top upper middle leaf : Word} :
    Grants access .small (permissionsOf leaf .small (pathOf [top, upper, middle])) ↔
      (top &&& Bits.user ≠ 0 ∧ (access = .write → top &&& Bits.writable ≠ 0)) ∧
      (upper &&& Bits.user ≠ 0 ∧ (access = .write → upper &&& Bits.writable ≠ 0)) ∧
      (middle &&& Bits.user ≠ 0 ∧ (access = .write → middle &&& Bits.writable ≠ 0)) ∧
      leaf &&& Bits.user ≠ 0 ∧ (access = .write → leaf &&& Bits.writable ≠ 0) := by
  simp only [Grants, permissionsOf, pathOf, List.all_cons, List.all_nil, Bool.and_true,
    Bool.and_eq_true, bne_iff_ne, true_and]
  constructor
  · intro grants
    obtain ⟨⟨leafUser, topUser, upperUser, middleUser⟩, writes⟩ := grants
    exact ⟨⟨topUser, fun write => (writes write).2.1⟩,
      ⟨upperUser, fun write => (writes write).2.2.1⟩,
      ⟨middleUser, fun write => (writes write).2.2.2⟩, leafUser, fun write => (writes write).1⟩
  · intro every
    obtain ⟨atTop, atUpper, atMiddle, atLeaf⟩ := every
    exact ⟨⟨atLeaf.1, atTop.1, atUpper.1, atMiddle.1⟩, fun write =>
      ⟨atLeaf.2 write, atTop.2 write, atUpper.2 write, atMiddle.2 write⟩⟩

theorem reported_iff (covers : Covers width (ranges.map MappedRange.run)
      ((leaves read root start stop).map Leaf.cell)) (canonical : Paging.isCanonical virt = true)
    (access : UserAccess) :
    Reported ranges virt access ↔ (start ≤ topIndex virt ∧ topIndex virt < stop) ∧
      walkUserAccessible read root virt access = .ok () := by
  have cells := covers.exists_iff width_pos (n := virt.toNat)
    (P := fun tag => Grants access tag.1 tag.2)
  have runs : Reported ranges virt access ↔ ∃ r ∈ ranges.map MappedRange.run,
      (r.start ≤ virt.toNat ∧ virt.toNat < r.stop width) ∧ Grants access r.tag.1 r.tag.2 := by
    simp only [Reported, List.mem_map, exists_exists_and_eq_and]
    rfl
  rw [runs, cells, walkUserAccessible_ok]
  have small : ∀ n : Nat, ((virt >>> n) &&& (0x1FF : Word)).toNat < entries := by
    intro n
    rw [toNat_index]
    exact Nat.mod_lt _ (by decide)
  constructor
  · intro found
    obtain ⟨c, mem, place, grants⟩ := found
    obtain ⟨found, there, rfl⟩ := List.mem_map.mp mem
    cases mem_leaves_iff.mp there with
    | giant => exact absurd (show MappingSize.giant = .small from grants.1) (by decide)
    | large => exact absurd (show MappingSize.large = .small from grants.1) (by decide)
    | small top upper middle leaf inTop inUpper inMiddle inLeaf hasTop hasUpper table hasMiddle
        table' hasLeaf =>
      obtain ⟨rfl, rfl, rfl, rfl⟩ :=
        (place_iff canonical (by omega) inUpper inMiddle inLeaf).mp place
      obtain ⟨atTop, atUpper, atMiddle, atLeaf⟩ := grants_iff.mp grants
      constructor
      · omega
      · exact ⟨⟨hasTop, atTop⟩, ⟨hasUpper, atUpper⟩, table, ⟨hasMiddle, atMiddle⟩, table',
          ⟨hasLeaf, atLeaf⟩⟩
  · intro accepted
    obtain ⟨inTop, accessible⟩ := accepted
    have bound : topIndex virt < entries := small 39
    have reached := @Reached.small read root (fun top => start ≤ top ∧ top < min stop entries)
      (topIndex virt) (upperIndex virt) (middleIndex virt) (leafIndex virt)
      ⟨inTop.1, Nat.lt_min.mpr ⟨inTop.2, bound⟩⟩ (small 30) (small 21) (small 12) accessible.top.1
      accessible.upper.1 accessible.notGiant accessible.middle.1 accessible.notHuge
      accessible.leaf.1
    apply Exists.intro _
    apply And.intro (List.mem_map_of_mem (mem_leaves_iff.mpr reached))
    constructor
    · exact (place_iff canonical bound (small 30) (small 21) (small 12)).mpr ⟨rfl, rfl, rfl, rfl⟩
    · exact grants_iff.mpr ⟨accessible.top.2, accessible.upper.2, accessible.middle.2,
        accessible.leaf.2⟩

end Zaytos.Kernel.PageSurvey
