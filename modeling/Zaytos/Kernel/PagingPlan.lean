import Zaytos.Kernel.FrameArray
import Zaytos.Lib.Bytes
import Zaytos.Lib.Exec

set_option autoImplicit false

/-! The memory map the firmware hands over, and the frame allocator that is built from it. -/
namespace Zaytos.Kernel

abbrev frameSize : Nat := 4096

/-- `EFI_MEMORY_TYPE`, with the values that have no name of their own. -/
inductive MemoryType where
  | reserved
  | loaderCode
  | loaderData
  | bootServicesCode
  | bootServicesData
  | runtimeServicesCode
  | runtimeServicesData
  | conventional
  | unusable
  | acpiReclaim
  | acpiNvs
  | mmio
  | mmioPortSpace
  | palCode
  | persistent
  | unaccepted
  | vendorReserved
  | unknown
  deriving DecidableEq, Repr

def MemoryType.ofValue (ty : Nat) : MemoryType :=
  [.reserved, .loaderCode, .loaderData, .bootServicesCode, .bootServicesData, .runtimeServicesCode,
    .runtimeServicesData, .conventional, .unusable, .acpiReclaim, .acpiNvs, .mmio, .mmioPortSpace,
    .palCode, .persistent, .unaccepted].getD ty
    (if 0x70000000 ≤ ty then .vendorReserved else .unknown)

inductive RegionPolicy where
  | free
  | reservedButMapped (cacheable : Bool)
  | unmapped
  deriving DecidableEq, Repr

def classify : MemoryType → RegionPolicy
  | .conventional => .free
  | .loaderCode | .loaderData | .bootServicesCode | .bootServicesData | .runtimeServicesCode
  | .runtimeServicesData | .acpiReclaim | .acpiNvs => .reservedButMapped true
  | .mmio | .mmioPortSpace => .reservedButMapped false
  | .reserved | .unusable | .palCode | .persistent | .unaccepted | .vendorReserved | .unknown =>
    .unmapped

structure MemoryMapEntry where
  memoryType : MemoryType
  physStart : Nat
  pageCount : Nat
  deriving DecidableEq, Repr

abbrev offsetType : Nat := 0
abbrev offsetPhysStart : Nat := 8
abbrev offsetPageCount : Nat := 24
abbrev minDescriptorSize : Nat := offsetPageCount + 8

/-- `u64::from_le_bytes`. -/
def u64At (raw : Bytes) (pos : Nat) : Nat := raw.u32 pos + 2 ^ 32 * raw.u32 (pos + 4)

def entryAt (raw : Bytes) (pos : Nat) : MemoryMapEntry where
  memoryType := .ofValue (raw.u32 (pos + offsetType))
  physStart := u64At raw (pos + offsetPhysStart)
  pageCount := u64At raw (pos + offsetPageCount)

/-- `parse_entries`. What is left behind the last whole descriptor is not read. -/
def parseEntries (raw : Bytes) (descriptorSize : Nat) : Result String (List MemoryMapEntry) := do
  Result.rejectIf (descriptorSize < minDescriptorSize)
    "descriptor_size is smaller than the fields we need to read"
  Result.ok ((List.range (raw.len / descriptorSize)).map fun i => entryAt raw (i * descriptorSize))

namespace MemoryMapEntry

def Inside (e : MemoryMapEntry) (address : Nat) : Prop :=
  e.physStart ≤ address ∧ address < e.physStart + e.pageCount * frameSize

structure Orderly (entries : List MemoryMapEntry) : Prop where
  aligned : ∀ e ∈ entries, e.physStart % frameSize = 0
  ends : ∀ e ∈ entries, e.physStart + e.pageCount * frameSize ≤ 2 ^ 52
  apart : entries.Pairwise fun e e' => ∀ address, ¬(e.Inside address ∧ e'.Inside address)

end MemoryMapEntry

/-- `ExclusionBreakdown`: the pages left out, by type, and those of the null page. -/
structure ExclusionBreakdown where
  pages : MemoryType → Nat
  nullPageExcludedPages : Nat

namespace ExclusionBreakdown

def none : ExclusionBreakdown := ⟨fun _ => 0, 0⟩

def add (x : ExclusionBreakdown) (ty : MemoryType) (pages : Nat) : Option ExclusionBreakdown :=
  if pages = 0 then some x
  else (add64 (x.pages ty) pages).map fun sum => { x with pages := Function.update x.pages ty sum }

end ExclusionBreakdown

structure FrameAllocatorStats where
  freeFrameCount : Nat
  exclusions : ExclusionBreakdown

namespace FrameArray

abbrev defaultCapacity : Nat := 256

def freeFrameCount (a : FrameArray) : Nat :=
  ((a.ranges.take a.rangeCount).map FrameRange.frameCount).sum

/-- The loop body of `build`. -/
def buildEntry (state : FrameArray × ExclusionBreakdown) (e : MemoryMapEntry) :
    Result String (FrameArray × ExclusionBreakdown) :=
  if e.pageCount = 0 then Result.ok state
  else if classify e.memoryType ≠ .free then do
    let exclusions ← state.2.add e.memoryType e.pageCount
    Result.ok (state.1, exclusions)
  else
    let startFrame := e.physStart / frameSize
    -- The page of the null pointer is left out.
    let exclusions := if startFrame = 0 then
      { state.2 with nullPageExcludedPages := state.2.nullPageExcludedPages + 1 } else state.2
    let frameCount := if startFrame = 0 then e.pageCount - 1 else e.pageCount
    let startFrame := if startFrame = 0 then 1 else startFrame
    if frameCount = 0 then Result.ok (state.1, exclusions)
    else do
      let inserted ← state.1.insertFreeRange startFrame frameCount
      Result.rejectIf (inserted.1 = false)
        "frame allocator free-range capacity exceeded while building from the UEFI memory map"
      Result.ok (inserted.2, exclusions)

def build (raw : Bytes) (descriptorSize : Nat) :
    Result String (FrameArray × FrameAllocatorStats) := do
  let entries ← parseEntries raw descriptorSize
  let built ← entries.foldlM buildEntry (new defaultCapacity, ExclusionBreakdown.none)
  Result.ok (built.1, ⟨built.1.freeFrameCount, built.2⟩)

end FrameArray

end Zaytos.Kernel

/-! Which physical addresses are mapped: the ranges of the paging plan. -/
namespace Zaytos.Kernel

open Extent

structure AttributedRange where
  start : Nat
  past : Nat
  cacheable : Bool
  deriving DecidableEq, Repr

instance : Extent AttributedRange := ⟨AttributedRange.start, AttributedRange.past⟩

/-- `PhysAddr::new`: physical addresses have 52 bits. -/
def isValidPhys (raw : Nat) : Bool := decide (raw < 2 ^ 52)

structure MappedRanges where
  ranges : List AttributedRange
  deriving DecidableEq, Repr

namespace MappedRanges

abbrev defaultCapacity : Nat := 256

/-- A descriptor that is mapped becomes a range, without the page of the null pointer. -/
def addEntry (ranges : List AttributedRange) (e : MemoryMapEntry) (cacheable : Bool) :
    Result String (List AttributedRange) := do
  let bytes ← mul64 e.pageCount frameSize
  let past ← add64 e.physStart bytes
  let start := if e.physStart = 0 then frameSize else e.physStart
  if past ≤ start then Result.ok ranges
  else do
    Result.rejectIf (¬(isValidPhys start = true ∧ isValidPhys past = true))
      "a memory map entry does not fit in a physical address"
    Result.rejectIf (defaultCapacity ≤ ranges.length)
      "mapped-range capacity exceeded while building the paging plan"
    Result.ok (ranges ++ [⟨start, past, cacheable⟩])

/-- The loop body of `build` for a descriptor. -/
def buildEntry (ranges : List AttributedRange) (e : MemoryMapEntry) :
    Result String (List AttributedRange) :=
  if e.pageCount = 0 then Result.ok ranges
  else
    match classify e.memoryType with
    | .free => addEntry ranges e true
    | .reservedButMapped cacheable => addEntry ranges e cacheable
    | .unmapped => Result.ok ranges

/-- The loop body of `build` for a range that is not in the memory map. -/
def buildExtra (ranges : List AttributedRange) (x : AttributedRange) :
    Result String (List AttributedRange) :=
  if x.past ≤ x.start then Result.ok ranges
  else do
    Result.rejectIf (¬(isValidPhys x.start = true ∧ isValidPhys x.past = true))
      "an extra range does not fit in a physical address"
    Result.rejectIf (defaultCapacity ≤ ranges.length)
      "mapped-range capacity exceeded while adding extra ranges"
    Result.ok (ranges ++ [x])

/-- The loop that joins ranges: those that are joined, the last one first, and those to go. -/
def join : List AttributedRange → List AttributedRange → List AttributedRange
  | merged, [] => merged.reverse
  | [], r :: rest => join [r] rest
  | prev :: merged, r :: rest =>
    if prev.cacheable = r.cacheable ∧ r.start ≤ prev.past then
      join ({ prev with past := max prev.past r.past } :: merged) rest
    else join (r :: prev :: merged) rest

/-- `build`, with what `sort_unstable_by_key` makes of the ranges. -/
def build (sort : List AttributedRange → List AttributedRange) (raw : Bytes) (descriptorSize : Nat)
    (extra : List AttributedRange) : Result String MappedRanges := do
  let entries ← parseEntries raw descriptorSize
  let ranges ← entries.foldlM buildEntry []
  let ranges ← extra.foldlM buildExtra ranges
  Result.ok ⟨join [] (sort ranges)⟩

/-- The documented behaviour of a sort by `start`: ranges with the same start come in any order. -/
structure SortsByStart (sort : List AttributedRange → List AttributedRange) : Prop where
  perm : ∀ l, (sort l).Perm l
  sorted : ∀ l, (sort l).Pairwise fun r s => r.start ≤ s.start

/-- The loop of `contains_range`. Each round goes on where a range ends. -/
def containsFrom (m : MappedRanges) (cursor past : Nat) : Bool :=
  match found : m.ranges.find? fun r => decide (r.start ≤ cursor) && decide (cursor < r.past) with
  | none => false
  | some r =>
    have advances : cursor < r.past := by
      have inside := List.find?_some found
      rw [Bool.and_eq_true, decide_eq_true_eq, decide_eq_true_eq] at inside
      exact inside.2
    if past ≤ r.past then true else m.containsFrom r.past past
termination_by past - cursor
decreasing_by omega

def containsRange (m : MappedRanges) (start past : Nat) : Bool :=
  if past ≤ start then true else m.containsFrom start past

variable {m : MappedRanges} {ranges after : List AttributedRange} {n : Nat}

theorem inside_of_find {cursor : Nat} {r : AttributedRange}
    (found : (m.ranges.find? fun r => decide (r.start ≤ cursor) && decide (cursor < r.past)) =
      some r) : r ∈ m.ranges ∧ r.start ≤ cursor ∧ cursor < r.past := by
  have inside := List.find?_some found
  rw [Bool.and_eq_true, decide_eq_true_eq, decide_eq_true_eq] at inside
  exact ⟨List.mem_of_find?_eq_some found, inside⟩

theorem containsFrom_iff (m : MappedRanges) (cursor past : Nat) (some : cursor < past) :
    m.containsFrom cursor past = true ↔ ∀ n, cursor ≤ n → n < past → n ∈ covered m.ranges := by
  induction cursor using containsFrom.induct m past with
  | case1 cursor missing =>
    rw [containsFrom]
    split
    · refine iff_of_false Bool.false_ne_true fun all => ?_
      obtain ⟨r, mem, inside⟩ := all cursor le_rfl some
      have := List.find?_eq_none.mp missing r mem
      rw [Bool.and_eq_true, decide_eq_true_eq, decide_eq_true_eq] at this
      exact this inside
    · rename_i r found
      rw [missing] at found
      cases found
  | case2 cursor r found advances reaches =>
    obtain ⟨mem, starts, ends⟩ := inside_of_find found
    rw [containsFrom]
    split
    · rename_i missing
      rw [found] at missing
      cases missing
    · rename_i r' found'
      obtain rfl : r = r' := Option.some.inj (found.symm.trans found')
      dsimp only
      rw [if_pos reaches]
      exact iff_of_true rfl fun n le lt => ⟨r, mem, le_trans starts le, lt_of_lt_of_le lt reaches⟩
  | case3 cursor r found advances short ih =>
    obtain ⟨mem, starts, ends⟩ := inside_of_find found
    rw [containsFrom]
    split
    · rename_i missing
      rw [found] at missing
      cases missing
    · rename_i r' found'
      obtain rfl : r = r' := Option.some.inj (found.symm.trans found')
      dsimp only
      rw [if_neg short, ih (by omega)]
      refine ⟨fun rest n le lt => ?_, fun all n le => all n (by omega)⟩
      -- Up to where the range ends it covers, and from there on the rest does.
      by_cases before : n < r.past
      · exact ⟨r, mem, le_trans starts le, before⟩
      · exact rest n (by omega) lt

theorem containsRange_iff (m : MappedRanges) (start past : Nat) :
    m.containsRange start past = true ↔ ∀ n, start ≤ n → n < past → n ∈ covered m.ranges := by
  rw [containsRange]
  split
  · exact iff_of_true rfl fun n le lt => by omega
  · exact containsFrom_iff m start past (by omega)

theorem covered_perm {l l' : List AttributedRange} (perm : l.Perm l') (n : Nat) :
    n ∈ covered l ↔ n ∈ covered l' :=
  ⟨fun ⟨r, mem, inside⟩ => ⟨r, perm.mem_iff.mp mem, inside⟩,
    fun ⟨r, mem, inside⟩ => ⟨r, perm.mem_iff.mpr mem, inside⟩⟩

theorem covered_join (merged ranges : List AttributedRange)
    (sorted : ranges.Pairwise fun r s => r.start ≤ s.start)
    (above : ∀ prev ∈ merged.head?, ∀ r ∈ ranges, prev.start ≤ r.start) (n : Nat) :
    n ∈ covered (join merged ranges) ↔ n ∈ covered merged ∨ n ∈ covered ranges := by
  induction ranges generalizing merged with
  | nil =>
    rw [join, covered_perm merged.reverse_perm, mem_covered_nil, or_false]
  | cons r rest ih =>
    obtain ⟨first, sortedRest⟩ := List.pairwise_cons.mp sorted
    cases merged with
    | nil =>
      rw [join, ih [r] sortedRest (fun prev mem => by cases mem; exact first), mem_covered_cons,
        mem_covered_cons, mem_covered_nil, or_false, false_or]
    | cons prev merged =>
      have below : prev.start ≤ r.start := above prev rfl r List.mem_cons_self
      rw [join]
      split
      · rename_i joins
        rw [ih _ sortedRest fun prev' mem s mem' => by
          cases mem
          exact above prev rfl s (List.mem_cons_of_mem r mem')]
        have both : lo ({ prev with past := max prev.past r.past } : AttributedRange) ≤ n ∧
            n < hi ({ prev with past := max prev.past r.past } : AttributedRange) ↔
            (lo prev ≤ n ∧ n < hi prev) ∨ (lo r ≤ n ∧ n < hi r) := by
          show prev.start ≤ n ∧ n < max prev.past r.past ↔
            (prev.start ≤ n ∧ n < prev.past) ∨ (r.start ≤ n ∧ n < r.past)
          omega
        rw [mem_covered_cons, mem_covered_cons, mem_covered_cons, both]
        clear * -
        tauto
      · rw [ih _ sortedRest fun prev' mem => by cases mem; exact first, mem_covered_cons,
          mem_covered_cons]
        rw [mem_covered_cons (l := rest)]
        clear * -
        tauto

end MappedRanges

end Zaytos.Kernel
