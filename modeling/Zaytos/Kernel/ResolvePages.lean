import Zaytos.Kernel.HeapPlan
import Zaytos.Kernel.PagingPlan

set_option autoImplicit false

/-! The pages that the ranges of the paging plan are mapped with: large ones in the middle, and small
ones on both sides. -/
namespace Zaytos.Kernel

open Extent

def PhysAddr.new (raw : Nat) : Option Nat := if isValidPhys raw then some raw else none

def PhysAddr.alignUp (addr align : Nat) : Option Nat :=
  (add64 addr (align - 1)).bind fun sum => new (sum &&& (2 ^ 64 - 1 - (align - 1)))

def PhysAddr.alignDown (addr align : Nat) : Option Nat := new (addr &&& (2 ^ 64 - 1 - (align - 1)))

def PhysAddr.checkedAdd (addr offset : Nat) : Option Nat := (add64 addr offset).bind new

abbrev pageSize2M : Nat := 2 * 1024 * 1024

structure PageMapping where
  physAddr : Nat
  huge : Bool
  cacheable : Bool
  deriving DecidableEq, Repr

namespace PageMapping

def size (huge : Bool) : Nat := if huge then pageSize2M else frameSize

instance : Extent PageMapping := ⟨physAddr, fun page => page.physAddr + size page.huge⟩

theorem size_pos (huge : Bool) : 0 < size huge := by
  cases huge <;> decide

/-- The loop over the pages of one size. It stops where an address has no next one. -/
def emit (huge cacheable : Bool) (addr past : Nat) : List PageMapping :=
  if addr < past then
    ⟨addr, huge, cacheable⟩ ::
      match next : PhysAddr.checkedAdd addr (size huge) with
      | none => []
      | some after =>
        have advances : addr < after := by
          have positive := size_pos huge
          simp only [PhysAddr.checkedAdd, Option.bind_eq_some_iff, add64_eq_some, PhysAddr.new,
            Option.ite_none_right_eq_some, Option.some.injEq] at next
          omega
        emit huge cacheable after past
  else []
termination_by past - addr
decreasing_by omega

def emit4k (start past : Nat) (cacheable : Bool) : List PageMapping :=
  emit false cacheable start past

end PageMapping

open PageMapping

/-- The pages of a range, with the boundaries of its middle part where they have an address. -/
def AttributedRange.resolveAt (r : AttributedRange) : Option Nat → Option Nat → List PageMapping
  | some coreStart, some coreEnd =>
    if coreStart < coreEnd then
      emit4k r.start coreStart r.cacheable ++ (emit true r.cacheable coreStart coreEnd ++
        emit4k coreEnd r.past r.cacheable)
    else emit4k r.start r.past r.cacheable
  | _, _ => emit4k r.start r.past r.cacheable

/-- The loop body of `resolve_pages`. -/
@[irreducible] def AttributedRange.resolve (r : AttributedRange) : List PageMapping :=
  r.resolveAt (PhysAddr.alignUp r.start pageSize2M) (PhysAddr.alignDown r.past pageSize2M)

/-- `resolve_pages`: the pages that are visited, in order. -/
def resolvePages (m : MappedRanges) : List PageMapping := m.ranges.flatMap AttributedRange.resolve

section

variable {addr past align next : Nat} {huge cacheable : Bool} {page : PageMapping}

theorem PhysAddr.new_eq_some {raw : Nat} : new raw = some addr ↔ raw < 2 ^ 52 ∧ addr = raw := by
  rw [new, isValidPhys]
  simp [eq_comm]

theorem PhysAddr.checkedAdd_of_lt (fits : addr + align < 2 ^ 52) :
    checkedAdd addr align = some (addr + align) := by
  rw [checkedAdd, add64_of_lt (by omega), Option.bind_some]
  exact new_eq_some.mpr ⟨fits, rfl⟩

theorem PhysAddr.alignUp_eq (low : addr < 2 ^ 52) :
    alignUp addr pageSize2M = new ((addr + (pageSize2M - 1)) / pageSize2M * pageSize2M) := by
  have fits : addr + (pageSize2M - 1) < 2 ^ 64 := by
    simp only [pageSize2M]
    omega
  rw [alignUp, add64_of_lt fits, Option.bind_some]
  exact congrArg new (and_mask (k := 21) fits (by decide))

theorem PhysAddr.alignDown_eq (low : addr < 2 ^ 52) :
    alignDown addr pageSize2M = new (addr / pageSize2M * pageSize2M) :=
  congrArg new (and_mask (k := 21) (by omega) (by decide))

theorem PhysAddr.checkedAdd_eq (next : checkedAdd addr align = some past) :
    past = addr + align := by
  simp only [checkedAdd, Option.bind_eq_some_iff, add64_eq_some, new_eq_some] at next
  apply Exists.elim next
  intro sum both
  exact both.2.2.trans both.1.2

theorem PageMapping.emit_stop (stops : ¬addr < past) : emit huge cacheable addr past = [] := by
  rw [emit, if_neg stops]

theorem PageMapping.emit_last (less : addr < past)
    (last : PhysAddr.checkedAdd addr (size huge) = none) :
    emit huge cacheable addr past = [⟨addr, huge, cacheable⟩] := by
  rw [emit, if_pos less]
  split
  · rfl
  · rename_i some
    rw [last] at some
    cases some

theorem PageMapping.emit_next (less : addr < past)
    (some : PhysAddr.checkedAdd addr (size huge) = some next) :
    emit huge cacheable addr past = ⟨addr, huge, cacheable⟩ :: emit huge cacheable next past := by
  rw [emit, if_pos less]
  split
  · rename_i last
    rw [last] at some
    cases some
  · rename_i found
    rw [Option.some.inj (some.symm.trans found)]

theorem PageMapping.emit_tiles (order : addr ≤ past) (low : past < 2 ^ 52)
    (whole : size huge ∣ past - addr) : Tiles addr (emit huge cacheable addr past) past := by
  induction addr using emit.induct huge past with
  | case1 addr less ih =>
    have fits := Nat.le_of_dvd (by omega) whole
    have next := @PhysAddr.checkedAdd_of_lt addr (size huge) (by omega)
    rw [emit_next less next]
    refine ⟨rfl, Nat.lt_add_of_pos_right (size_pos huge), ?_⟩
    apply ih _ next
    · omega
    · rw [Nat.sub_add_eq]
      exact Nat.dvd_sub whole (Nat.dvd_refl _)
  | case2 addr stops =>
    rw [emit_stop stops]
    exact le_antisymm order (not_lt.mp stops)

theorem PageMapping.mem_emit (mem : page ∈ emit huge cacheable addr past)
    (aligned : size huge ∣ addr) :
    page.huge = huge ∧ page.cacheable = cacheable ∧ size huge ∣ page.physAddr := by
  induction addr using emit.induct huge past with
  | case1 addr less ih =>
    cases next : PhysAddr.checkedAdd addr (size huge) with
    | none =>
      rw [emit_last less next] at mem
      rw [List.mem_singleton.mp mem]
      exact ⟨rfl, rfl, aligned⟩
    | some after =>
      rw [emit_next less next] at mem
      cases mem with
      | head => exact ⟨rfl, rfl, aligned⟩
      | tail _ mem =>
        apply ih after next mem
        rw [PhysAddr.checkedAdd_eq next]
        exact Nat.dvd_add aligned (Nat.dvd_refl _)
  | case2 addr stops =>
    rw [emit_stop stops] at mem
    cases mem

end

structure AttributedRange.Whole (r : AttributedRange) : Prop where
  startLow : r.start < 2 ^ 52
  pastLow : r.past < 2 ^ 52
  startAligned : frameSize ∣ r.start
  pastAligned : frameSize ∣ r.past

/-- A page of a range: it lies inside, has the attribute of the range, and is small only where no
large page would fit. -/
structure PageMapping.Fits (r : AttributedRange) (page : PageMapping) : Prop where
  inside : r.start ≤ lo page ∧ hi page ≤ r.past
  cacheable : page.cacheable = r.cacheable
  aligned : size page.huge ∣ page.physAddr
  large : page.huge = false → ∀ window, pageSize2M ∣ window → r.start ≤ window →
    window + pageSize2M ≤ r.past → ¬(window ≤ page.physAddr ∧ page.physAddr < window + pageSize2M)

section

variable {r : AttributedRange} {page : PageMapping}

/-- The middle part of a range: from the first to the last boundary of a large page. -/
structure AttributedRange.Core (r : AttributedRange) (coreStart coreEnd : Nat) : Prop where
  order : r.start ≤ coreStart ∧ coreStart < coreEnd ∧ coreEnd ≤ r.past
  startAligned : pageSize2M ∣ coreStart
  pastAligned : pageSize2M ∣ coreEnd
  widest : coreStart < r.start + pageSize2M ∧ r.past < coreEnd + pageSize2M

theorem AttributedRange.alignDown_whole (whole : r.Whole) :
    PhysAddr.alignDown r.past pageSize2M = some (r.past / pageSize2M * pageSize2M) := by
  have below := Nat.div_mul_le_self r.past pageSize2M
  rw [PhysAddr.alignDown_eq whole.pastLow, PhysAddr.new_eq_some]
  exact ⟨lt_of_le_of_lt below whole.pastLow, rfl⟩

theorem AttributedRange.resolve_eq (whole : r.Whole) : ∃ coreStart coreEnd,
    pageSize2M ∣ coreStart ∧ r.start ≤ coreStart ∧ coreStart < r.start + pageSize2M ∧
    pageSize2M ∣ coreEnd ∧ coreEnd ≤ r.past ∧ r.past < coreEnd + pageSize2M ∧
    r.resolve = r.resolveAt (PhysAddr.new coreStart) (some coreEnd) := by
  have size : pageSize2M = 2097152 := rfl
  refine ⟨(r.start + (pageSize2M - 1)) / pageSize2M * pageSize2M,
    r.past / pageSize2M * pageSize2M, ?_, ?_, ?_, ?_, ?_, ?_, ?_⟩
  · exact Nat.dvd_mul_left pageSize2M _
  · rw [size]
    omega
  · rw [size]
    omega
  · exact Nat.dvd_mul_left pageSize2M _
  · rw [size]
    omega
  · rw [size]
    omega
  · unfold resolve
    exact congrArg₂ r.resolveAt (PhysAddr.alignUp_eq whole.startLow) (alignDown_whole whole)

theorem AttributedRange.resolve_cases (whole : r.Whole) :
    (∃ coreStart coreEnd, r.Core coreStart coreEnd ∧
      r.resolve = emit4k r.start coreStart r.cacheable ++
        (emit true r.cacheable coreStart coreEnd ++ emit4k coreEnd r.past r.cacheable)) ∨
    (∀ window, pageSize2M ∣ window → r.start ≤ window → ¬window + pageSize2M ≤ r.past) ∧
      r.resolve = emit4k r.start r.past r.cacheable := by
  have size : pageSize2M = 2097152 := rfl
  have low := whole.pastLow
  apply Exists.elim (resolve_eq whole)
  intro coreStart ends
  apply Exists.elim ends
  intro coreEnd ends
  rw [ends.2.2.2.2.2.2]
  rw [size] at ends
  cases there : PhysAddr.new coreStart with
  | none =>
    refine Or.inr ⟨?_, rfl⟩
    have beyond : ¬coreStart < 2 ^ 52 := by
      intro fits
      rw [PhysAddr.new_eq_some.mpr ⟨fits, rfl⟩] at there
      cases there
    rw [size]
    intro window aligned
    omega
  | some sameStart =>
    have same := PhysAddr.new_eq_some.mp there
    rw [same.2, resolveAt]
    split
    · rename_i some
      refine Or.inl ⟨coreStart, coreEnd, ?_, rfl⟩
      apply AttributedRange.Core.mk
      · omega
      · rw [size]
        exact ends.1
      · rw [size]
        exact ends.2.2.2.1
      · rw [size]
        omega
    · rename_i none
      refine Or.inr ⟨?_, rfl⟩
      rw [size]
      intro window aligned
      omega

theorem AttributedRange.resolve_tiles (whole : r.Whole) (order : r.start ≤ r.past) :
    Tiles r.start r.resolve r.past := by
  have small : frameSize ∣ pageSize2M := by decide
  cases resolve_cases whole with
  | inl core =>
    apply Exists.elim core
    intro coreStart core
    apply Exists.elim core
    intro coreEnd core
    have low := core.1.order
    have pastLow := whole.pastLow
    rw [core.2, tiles_append]
    refine ⟨coreStart, ?_, tiles_append.mpr ⟨coreEnd, ?_, ?_⟩⟩
    · apply emit_tiles low.1 (by omega)
      exact Nat.dvd_sub (small.trans core.1.startAligned) whole.startAligned
    · apply emit_tiles (le_of_lt low.2.1) (by omega)
      exact Nat.dvd_sub core.1.pastAligned core.1.startAligned
    · apply emit_tiles low.2.2 pastLow
      exact Nat.dvd_sub whole.pastAligned (small.trans core.1.pastAligned)
  | inr none =>
    rw [none.2]
    apply emit_tiles order whole.pastLow
    exact Nat.dvd_sub whole.pastAligned whole.startAligned

theorem AttributedRange.resolve_empty (whole : r.Whole) (empty : r.past ≤ r.start) :
    r.resolve = [] := by
  cases resolve_cases whole with
  | inl core =>
    apply Exists.elim core
    intro coreStart core
    apply Exists.elim core
    intro coreEnd core
    have low := core.1.order
    omega
  | inr none =>
    rw [none.2]
    exact emit_stop (not_lt.mpr empty)

theorem AttributedRange.resolve_fits (whole : r.Whole) (mem : page ∈ r.resolve) : page.Fits r := by
  have small : frameSize ∣ pageSize2M := by decide
  have positive : 0 < pageSize2M := by decide
  have order : r.start ≤ r.past := by
    by_contra empty
    rw [resolve_empty whole (by omega)] at mem
    cases mem
  have tiles : Tiles r.start r.resolve r.past := resolve_tiles whole order
  have within := tiles.within mem
  cases resolve_cases whole with
  | inl core =>
    apply Exists.elim core
    intro coreStart core
    apply Exists.elim core
    intro coreEnd core
    have low := core.1.order
    have widest := core.1.widest
    have pastLow := whole.pastLow
    rw [core.2, List.mem_append, List.mem_append] at mem
    -- A large page that reaches before or behind the middle part leaves the range.
    have apart : ∀ window, pageSize2M ∣ window → r.start ≤ window → window + pageSize2M ≤ r.past →
        coreStart ≤ window ∧ window + pageSize2M ≤ coreEnd := by
      intro window aligned start past
      constructor
      · by_contra before
        have := Nat.le_of_dvd (by omega) (Nat.dvd_sub core.1.startAligned aligned)
        omega
      · by_contra behind
        have := Nat.le_of_dvd (by omega)
          (Nat.dvd_sub (Nat.dvd_add aligned (Nat.dvd_refl _)) core.1.pastAligned)
        omega
    cases mem with
    | inl before =>
      have page_eq := mem_emit before whole.startAligned
      have tiles := @emit_tiles _ _ false r.cacheable low.1 (by omega)
        (Nat.dvd_sub (small.trans core.1.startAligned) whole.startAligned)
      have here := Tiles.within tiles before
      refine ⟨⟨within.1, within.2.2⟩, page_eq.2.1, page_eq.1.symm ▸ page_eq.2.2, ?_⟩
      intro _ window aligned start past inside
      have := apart window aligned start past
      have : page.physAddr < coreStart := lt_of_lt_of_le here.2.1 here.2.2
      omega
    | inr rest =>
      cases rest with
      | inl middle =>
        have page_eq := mem_emit middle core.1.startAligned
        refine ⟨⟨within.1, within.2.2⟩, page_eq.2.1, page_eq.1.symm ▸ page_eq.2.2, ?_⟩
        intro not
        rw [page_eq.1] at not
        cases not
      | inr behind =>
        have page_eq := mem_emit behind (small.trans core.1.pastAligned)
        have tiles := @emit_tiles _ _ false r.cacheable low.2.2 pastLow
          (Nat.dvd_sub whole.pastAligned (small.trans core.1.pastAligned))
        have here := Tiles.within tiles behind
        refine ⟨⟨within.1, within.2.2⟩, page_eq.2.1, page_eq.1.symm ▸ page_eq.2.2, ?_⟩
        intro _ window aligned start past inside
        have := apart window aligned start past
        have : coreEnd ≤ page.physAddr := here.1
        omega
  | inr none =>
    rw [none.2] at mem
    have page_eq := mem_emit mem whole.startAligned
    refine ⟨⟨within.1, within.2.2⟩, page_eq.2.1, page_eq.1.symm ▸ page_eq.2.2, ?_⟩
    intro _ window aligned start past
    exact absurd past (none.1 window aligned start)

end

def Apart {α : Type} [Extent α] (x y : α) : Prop :=
  ∀ n, ¬((lo x ≤ n ∧ n < hi x) ∧ lo y ≤ n ∧ n < hi y)

structure MappedRanges.Tiled (m : MappedRanges) (pages : List PageMapping) : Prop where
  apart : pages.Pairwise Apart
  covers : covered pages = covered m.ranges
  fits : ∀ page ∈ pages, ∃ r ∈ m.ranges, page.Fits r

theorem AttributedRange.resolve_apart {r : AttributedRange} (whole : r.Whole) :
    r.resolve.Pairwise Apart := by
  by_cases order : r.start ≤ r.past
  · apply (Tiles.ordered (resolve_tiles whole order)).imp
    intro x y before n both
    omega
  · rw [resolve_empty whole (by omega)]
    exact List.Pairwise.nil

theorem AttributedRange.resolve_covers {r : AttributedRange} (whole : r.Whole) (n : Nat) :
    n ∈ covered r.resolve ↔ r.start ≤ n ∧ n < r.past := by
  by_cases order : r.start ≤ r.past
  · exact Tiles.covered_iff (resolve_tiles whole order)
  · rw [resolve_empty whole (by omega)]
    exact iff_of_false mem_covered_nil.mp (by omega)

/-- Whatever ranges without a common address are to be mapped, the pages that are visited tile them. -/
theorem resolvePages_tiles (m : MappedRanges) (whole : ∀ r ∈ m.ranges, r.Whole)
    (apart : m.ranges.Pairwise Apart) : m.Tiled (resolvePages m) := by
  have each : ∀ ranges : List AttributedRange, (∀ r ∈ ranges, r.Whole) → ranges.Pairwise Apart →
      MappedRanges.Tiled ⟨ranges⟩ (ranges.flatMap AttributedRange.resolve) := by
    intro ranges whole apart
    induction ranges with
    | nil =>
      apply MappedRanges.Tiled.mk
      · exact List.Pairwise.nil
      · ext n
        exact iff_of_false mem_covered_nil.mp mem_covered_nil.mp
      · exact fun page mem => absurd mem List.not_mem_nil
    | cons r rest ih =>
      have here := whole r List.mem_cons_self
      have tail := List.pairwise_cons.mp apart
      have others := ih (fun s mem => whole s (List.mem_cons_of_mem r mem)) tail.2
      rw [List.flatMap_cons]
      apply MappedRanges.Tiled.mk
      · rw [List.pairwise_append]
        refine ⟨AttributedRange.resolve_apart here, others.apart, ?_⟩
        -- Pages of two ranges have nothing in common, since the ranges have not.
        intro x memX y memY n both
        apply Exists.elim (others.fits y memY)
        intro s fits
        have inX := (AttributedRange.resolve_fits here memX).inside
        have inY := fits.2.inside
        refine tail.1 s fits.1 n ⟨⟨?_, ?_⟩, ?_, ?_⟩
        · exact le_trans inX.1 both.1.1
        · exact lt_of_lt_of_le both.1.2 inX.2
        · exact le_trans inY.1 both.2.1
        · exact lt_of_lt_of_le both.2.2 inY.2
      · ext n
        have covers : n ∈ covered (rest.flatMap AttributedRange.resolve) ↔ n ∈ covered rest := by
          rw [others.covers]
        rw [mem_covered_append, AttributedRange.resolve_covers here, covers, mem_covered_cons]
        exact Iff.rfl
      · intro page mem
        cases List.mem_append.mp mem with
        | inl mem => exact ⟨r, List.mem_cons_self, AttributedRange.resolve_fits here mem⟩
        | inr mem =>
          apply Exists.elim (others.fits page mem)
          intro s fits
          exact ⟨s, List.mem_cons_of_mem r fits.1, fits.2⟩
  exact each m.ranges whole apart

/-- A range around a large page, and one of another attribute at the end of the addresses. -/
theorem resolvePages_tiles_ends :
    let m : MappedRanges := ⟨[⟨0x1ff000, 0x401000, true⟩, ⟨2 ^ 52 - 0x3000, 2 ^ 52 - 0x1000, false⟩]⟩
    m.Tiled (resolvePages m) := by
  apply resolvePages_tiles
  · intro r mem
    cases mem with
    | head => exact ⟨by decide, by decide, by decide, by decide⟩
    | tail _ mem =>
      rw [List.mem_singleton.mp mem]
      exact ⟨by decide, by decide, by decide, by decide⟩
  · rw [List.pairwise_pair]
    intro n both
    have below : n < 0x401000 := both.1.2
    have above : 2 ^ 52 - 0x3000 ≤ n := both.2.1
    omega

end Zaytos.Kernel
