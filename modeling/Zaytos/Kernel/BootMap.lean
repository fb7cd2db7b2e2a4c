import Mathlib.Data.List.Sort
import Zaytos.Kernel.PagingPlan

set_option autoImplicit false

/-! Every frame that can be handed out is mapped: the two readers of the memory map agree. -/
namespace Zaytos.Kernel

open Extent MemoryMapEntry

theorem MemoryMapEntry.inside_frame {e : MemoryMapEntry} (aligned : e.physStart % frameSize = 0)
    (f : Nat) : e.Inside (f * frameSize) ↔
      e.physStart / frameSize ≤ f ∧ f < e.physStart / frameSize + e.pageCount := by
  rw [Inside]
  dsimp only [frameSize] at aligned ⊢
  omega

theorem MemoryMapEntry.inside_of_frame {e : MemoryMapEntry} (aligned : e.physStart % frameSize = 0)
    {f n : Nat} (inside : e.Inside (f * frameSize)) (le : f * frameSize ≤ n)
    (lt : n < (f + 1) * frameSize) : e.Inside n := by
  rw [Inside] at inside ⊢
  dsimp only [frameSize] at aligned inside le lt ⊢
  omega

/-- The frames that are free are those of the free descriptors so far, without the first. -/
structure FramesOf (done : List MemoryMapEntry) (a : FrameArray) (b : FrameAllocator) : Prop where
  shown : a.Shows b
  sound : b.Sound
  free : ∀ f, f ∈ b.free ↔ f ≠ 0 ∧ ∃ e ∈ done, classify e.memoryType = .free ∧
    e.Inside (f * frameSize)

namespace FramesOf

variable {done rest : List MemoryMapEntry} {e : MemoryMapEntry} {a a' : FrameArray}
  {b : FrameAllocator} {x x' : ExclusionBreakdown}

theorem skip (frames : FramesOf done a b)
    (gives : ∀ f, f ≠ 0 → ¬(classify e.memoryType = .free ∧ e.Inside (f * frameSize))) :
    FramesOf (done ++ [e]) a b := by
  refine ⟨frames.shown, frames.sound, fun f => (frames.free f).trans ?_⟩
  constructor
  · rintro ⟨other, e', mem, ofFree⟩
    exact ⟨other, e', List.mem_append_left _ mem, ofFree⟩
  · rintro ⟨other, e', mem, ofFree⟩
    rcases List.mem_append.mp mem with mem | mem
    · exact ⟨other, e', mem, ofFree⟩
    · obtain rfl := List.mem_singleton.mp mem
      exact absurd ofFree (gives f other)

theorem step (frames : FramesOf done a b) (orderly : Orderly (done ++ e :: rest))
    (built : FrameArray.buildEntry (a, x) e = Result.ok (a', x')) :
    ∃ b', FramesOf (done ++ [e]) a' b' := by
  have mem : e ∈ done ++ e :: rest := List.mem_append_right _ List.mem_cons_self
  have aligned := orderly.aligned e mem
  have ends := orderly.ends e mem
  have frame := inside_frame aligned
  rw [FrameArray.buildEntry] at built
  split at built
  · rename_i empty
    cases built
    exact ⟨b, frames.skip fun f _ ofFree => by rw [frame, empty] at ofFree; omega⟩
  · rename_i some
    split at built
    · rename_i other
      obtain ⟨sum, _, built⟩ := Result.bind_eq_ok.mp built
      cases built
      exact ⟨b, frames.skip fun f _ ofFree => other ofFree.1⟩
    · rename_i free
      rw [not_not] at free
      dsimp only at built
      -- Without the page of the null pointer the descriptor has these frames.
      have range : ∀ f, f ≠ 0 ∧ e.Inside (f * frameSize) ↔
          (if e.physStart / frameSize = 0 then 1 else e.physStart / frameSize) ≤ f ∧
          f < (if e.physStart / frameSize = 0 then 1 else e.physStart / frameSize) +
            (if e.physStart / frameSize = 0 then e.pageCount - 1 else e.pageCount) := by
        intro f
        rw [frame]
        generalize e.physStart / frameSize = first
        split <;> omega
      generalize (if e.physStart / frameSize = 0 then 1 else e.physStart / frameSize) = startFrame
        at range built
      generalize (if e.physStart / frameSize = 0 then e.pageCount - 1 else e.pageCount) = frameCount
        at range built
      split at built
      · rename_i empty
        cases built
        exact ⟨b, frames.skip fun f other ofFree => by
          have := (range f).mp ⟨other, ofFree.2⟩
          omega⟩
      · obtain ⟨inserted, lifted, built⟩ := Result.bind_eq_ok.mp built
        rw [Result.lift_eq_ok] at lifted
        rw [Result.rejectIf_bind_eq_ok, Bool.not_eq_false] at built
        obtain ⟨went, built⟩ := built
        cases built
        obtain ⟨fails, goes⟩ := frames.shown.insertFreeRange
        cases result : b.insertFreeRange startFrame frameCount with
        | none =>
          rw [fails result] at lifted
          cases lifted
          cases went
        | some b' =>
          obtain ⟨c, inserted', shown⟩ := goes b' result
          rw [inserted'] at lifted
          cases lifted
          have clear : ∀ f, startFrame ≤ f → f < startFrame + frameCount → f ∉ b.free := by
            intro f le lt mem'
            obtain ⟨_, inside⟩ := (range f).mpr ⟨le, lt⟩
            obtain ⟨_, e', mem', _, inside'⟩ := (frames.free f).mp mem'
            exact (List.pairwise_append.mp orderly.apart).2.2 e' mem' e List.mem_cons_self _
              ⟨inside', inside⟩
          have leaves := FrameAllocator.insertFreeRange_leaves frames.sound.tidy clear result
          have low : ∀ f ∈ b.free ∪ {f | startFrame ≤ f ∧ f < startFrame + frameCount},
              f < 2 ^ 40 := by
            rintro f (old | new)
            · exact frames.sound.low f old
            · have inside := ((range f).mpr new).2
              rw [Inside] at inside
              dsimp only [frameSize] at inside ends
              omega
          refine ⟨b', shown, leaves.sound frames.sound low, fun f => ?_⟩
          rw [leaves.frames]
          constructor
          · rintro (old | new)
            · obtain ⟨other, e', mem', ofFree⟩ := (frames.free f).mp old
              exact ⟨other, e', List.mem_append_left _ mem', ofFree⟩
            · obtain ⟨other, inside⟩ := (range f).mpr new
              exact ⟨other, e, List.mem_append_right _ List.mem_cons_self, free, inside⟩
          · rintro ⟨other, e', mem', ofFree⟩
            rcases List.mem_append.mp mem' with mem' | mem'
            · exact .inl ((frames.free f).mpr ⟨other, e', mem', ofFree⟩)
            · obtain rfl := List.mem_singleton.mp mem'
              exact .inr ((range f).mp ⟨other, ofFree.2⟩)

end FramesOf

variable {entries : List MemoryMapEntry} {descriptorSize : Nat} {raw : Bytes}
  {ranges ranges' : List AttributedRange}

theorem FrameArray.build_frames (parsed : parseEntries raw descriptorSize = Result.ok entries)
    (orderly : Orderly entries) {a : FrameArray} {stats : FrameAllocatorStats}
    (built : FrameArray.build raw descriptorSize = Result.ok (a, stats)) :
    ∃ b, FramesOf entries a b := by
  obtain ⟨entries', parsed', built⟩ := Result.bind_eq_ok.mp built
  rw [parsed] at parsed'
  cases parsed'
  obtain ⟨⟨a', x⟩, looped, built⟩ := Result.bind_eq_ok.mp built
  cases built
  refine Result.foldlM_ok (fun done state => ∃ b, FramesOf done state.1 b) ?_ ?_ looped
  · exact ⟨.new defaultCapacity, shows_new _, FrameAllocator.sound_new _,
      fun f => iff_of_false (fun ⟨_, mem, _⟩ => absurd mem List.not_mem_nil)
        fun ⟨_, _, mem, _⟩ => absurd mem List.not_mem_nil⟩
  · rintro done e rest ⟨a, x⟩ ⟨a', x'⟩ list ⟨b, frames⟩ body
    exact frames.step (list ▸ orderly) body

namespace MappedRanges

def Maps (e : MemoryMapEntry) (n : Nat) : Prop :=
  classify e.memoryType ≠ .unmapped ∧ e.Inside n ∧ frameSize ≤ n

theorem addEntry_covered {e : MemoryMapEntry}
    {cacheable : Bool} (aligned : e.physStart % frameSize = 0)
    (mapped : classify e.memoryType ≠ .unmapped)
    (added : addEntry ranges e cacheable = Result.ok ranges') (n : Nat) :
    n ∈ covered ranges' ↔ n ∈ covered ranges ∨ Maps e n := by
  obtain ⟨bytes, product, added⟩ := Result.bind_eq_ok.mp added
  obtain ⟨past, sum, added⟩ := Result.bind_eq_ok.mp added
  rw [Result.lift_eq_ok, mul64_eq_some] at product
  rw [Result.lift_eq_ok, add64_eq_some] at sum
  obtain ⟨_, rfl⟩ := product
  obtain ⟨_, rfl⟩ := sum
  have maps : Maps e n ↔ (if e.physStart = 0 then frameSize else e.physStart) ≤ n ∧
      n < e.physStart + e.pageCount * frameSize := by
    rw [Maps, Inside]
    dsimp only [frameSize] at aligned ⊢
    constructor
    · rintro ⟨_, inside, above⟩
      split <;> omega
    · intro inside
      refine ⟨mapped, ?_⟩
      split at inside <;> omega
  dsimp only at added
  generalize (if e.physStart = 0 then frameSize else e.physStart) = start at maps added
  split at added
  · cases added
    rw [maps]
    exact ⟨.inl, fun mem => mem.resolve_right (by omega)⟩
  · obtain ⟨_, added⟩ := Result.rejectIf_bind_eq_ok.mp added
    obtain ⟨_, added⟩ := Result.rejectIf_bind_eq_ok.mp added
    cases added
    rw [mem_covered_append, mem_covered_cons, mem_covered_nil, or_false, maps]
    rfl

theorem buildEntry_covered {e : MemoryMapEntry}
    (aligned : e.physStart % frameSize = 0) (built : buildEntry ranges e = Result.ok ranges')
    (n : Nat) : n ∈ covered ranges' ↔ n ∈ covered ranges ∨ Maps e n := by
  -- A descriptor with no page to map, or that is not mapped.
  have nothing : (¬Maps e n) → (n ∈ covered ranges ↔ n ∈ covered ranges ∨ Maps e n) :=
    fun not => ⟨.inl, fun mem => mem.resolve_right not⟩
  rw [buildEntry] at built
  split at built
  · rename_i empty
    cases built
    refine nothing fun maps => ?_
    have inside := maps.2.1
    rw [Inside, empty] at inside
    omega
  · split at built
    · rename_i policy
      exact addEntry_covered aligned (by rw [policy]; nofun) built n
    · rename_i cacheable policy
      exact addEntry_covered aligned (by rw [policy]; nofun) built n
    · rename_i policy
      cases built
      exact nothing fun maps => maps.1 policy

theorem buildExtra_covered {x : AttributedRange}
    (built : buildExtra ranges x = Result.ok ranges') (n : Nat) :
    n ∈ covered ranges' ↔ n ∈ covered ranges ∨ (x.start ≤ n ∧ n < x.past) := by
  rw [buildExtra] at built
  split at built
  · cases built
    exact ⟨.inl, fun mem => mem.resolve_right (by omega)⟩
  · obtain ⟨_, built⟩ := Result.rejectIf_bind_eq_ok.mp built
    obtain ⟨_, built⟩ := Result.rejectIf_bind_eq_ok.mp built
    cases built
    rw [mem_covered_append, mem_covered_cons, mem_covered_nil, or_false]
    rfl

theorem build_covered {sort : List AttributedRange → List AttributedRange}
    (sorts : SortsByStart sort) {extra : List AttributedRange}
    (parsed : parseEntries raw descriptorSize = Result.ok entries)
    (orderly : Orderly entries) {m : MappedRanges}
    (built : build sort raw descriptorSize extra = Result.ok m) (n : Nat) :
    n ∈ covered m.ranges ↔ (∃ e ∈ entries, Maps e n) ∨ n ∈ covered extra := by
  obtain ⟨entries', parsed', built⟩ := Result.bind_eq_ok.mp built
  rw [parsed] at parsed'
  cases parsed'
  obtain ⟨ranges, looped, built⟩ := Result.bind_eq_ok.mp built
  obtain ⟨ranges', looped', built⟩ := Result.bind_eq_ok.mp built
  cases built
  have first : n ∈ covered ranges ↔ ∃ e ∈ entries, Maps e n := by
    refine Result.foldlM_ok (fun done ranges => n ∈ covered ranges ↔ ∃ e ∈ done, Maps e n) ?_ ?_
      looped
    · simp
    · intro done e rest ranges ranges' list holds body
      have aligned := orderly.aligned e (list ▸ List.mem_append_right _ List.mem_cons_self)
      rw [buildEntry_covered aligned body, holds]
      simp only [List.mem_append, List.mem_singleton, or_and_right, exists_or, exists_eq_left]
  have second : n ∈ covered ranges' ↔ n ∈ covered ranges ∨ n ∈ covered extra := by
    refine Result.foldlM_ok
      (fun done ranges' => n ∈ covered ranges' ↔ n ∈ covered ranges ∨ n ∈ covered done) ?_ ?_
      looped'
    · rw [mem_covered_nil, or_false]
    · intro done x rest b b' list holds body
      rw [buildExtra_covered body, holds, mem_covered_append, mem_covered_cons, mem_covered_nil,
        or_false, or_assoc]
      rfl
  rw [covered_join [] (sort ranges') (sorts.sorted ranges') (fun _ mem => by cases mem),
    mem_covered_nil, false_or, covered_perm (sorts.perm ranges'), second, first]

end MappedRanges

/-- When both readers of the memory map succeed, every free frame is mapped, the first frame is not
free, it is mapped only by ranges that are not in the memory map, and no frame of a descriptor of
another type is free. -/
theorem free_frames_mapped {sort : List AttributedRange → List AttributedRange}
    (sorts : MappedRanges.SortsByStart sort) (raw : Bytes) (descriptorSize : Nat)
    (extra : List AttributedRange) {entries : List MemoryMapEntry}
    (parsed : parseEntries raw descriptorSize = Result.ok entries) (orderly : Orderly entries)
    {a : FrameArray} {stats : FrameAllocatorStats} {m : MappedRanges}
    (frames : FrameArray.build raw descriptorSize = Result.ok (a, stats))
    (mapped : MappedRanges.build sort raw descriptorSize extra = Result.ok m) :
    (∀ f ∈ a.free,
      m.containsRange (f * frameSize) ((f + 1) * frameSize) = true) ∧
    0 ∉ a.free ∧
    (m.containsRange 0 frameSize = true ↔ ∀ n < frameSize, n ∈ covered extra) ∧
    ∀ e ∈ entries, e.memoryType ≠ .conventional → ∀ f, e.Inside (f * frameSize) →
      f ∉ a.free := by
  obtain ⟨b, framesOf⟩ := FrameArray.build_frames parsed orderly frames
  have covers := MappedRanges.build_covered sorts parsed orderly mapped
  rw [framesOf.shown.free_eq]
  refine ⟨fun f free => ?_, fun free => ((framesOf.free 0).mp free).1 rfl, ?_, ?_⟩
  · obtain ⟨other, e, mem, policy, inside⟩ := (framesOf.free f).mp free
    rw [MappedRanges.containsRange_iff]
    intro n le lt
    refine (covers n).mpr (.inl ⟨e, mem, by rw [policy]; nofun, ?_, ?_⟩)
    · exact inside_of_frame (orderly.aligned e mem) inside le lt
    · have : 1 * frameSize ≤ f * frameSize := Nat.mul_le_mul_right _ (by omega)
      omega
  · rw [MappedRanges.containsRange_iff]
    refine ⟨fun all n lt => ?_, fun all n _ lt => (covers n).mpr (.inr (all n lt))⟩
    rcases (covers n).mp (all n (Nat.zero_le n) lt) with ⟨e, _, _, _, above⟩ | mem
    · omega
    · exact mem
  · -- The descriptors have no address in common, so the frame is of no other one.
    intro e mem type f inside free
    obtain ⟨_, e', mem', policy, inside'⟩ := (framesOf.free f).mp free
    have symm : Std.Symm fun e e' : MemoryMapEntry =>
        ∀ address, ¬(e.Inside address ∧ e'.Inside address) :=
      ⟨fun _ _ apart address both => apart address both.symm⟩
    have same : e = e' := by
      by_contra other
      exact orderly.apart.forall mem mem' other _ ⟨inside, inside'⟩
    subst same
    refine type ?_
    cases kind : e.memoryType <;> rw [kind] at policy <;> first | rfl | cases policy

def sortByStart (l : List AttributedRange) : List AttributedRange :=
  l.insertionSort fun r s => r.start ≤ s.start

theorem sortByStart_sorts : MappedRanges.SortsByStart sortByStart := by
  have total : Std.Total fun r s : AttributedRange => r.start ≤ s.start :=
    ⟨fun r s => Nat.le_total r.start s.start⟩
  have trans : IsTrans AttributedRange fun r s => r.start ≤ s.start :=
    ⟨fun _ _ _ => le_trans⟩
  exact ⟨List.perm_insertionSort _, List.pairwise_insertionSort _⟩

/-- A map with memory from address zero on, and the registers of a device before it. -/
def smallMap : Bytes := .ofRuns 96
  [(0, leBytes 4 11), (8, leBytes 8 0x100000), (24, leBytes 8 1),
    (48, leBytes 4 7), (56, leBytes 8 0), (72, leBytes 8 16)]

/-- A frame buffer is not in the map. -/
theorem free_frames_mapped_small : ∃ a stats m,
    FrameArray.build smallMap 48 = Result.ok (a, stats) ∧
    MappedRanges.build sortByStart smallMap 48 [⟨0x80000000, 0x80010000, false⟩] = Result.ok m ∧
    (∀ f ∈ a.free, m.containsRange (f * frameSize) ((f + 1) * frameSize) = true) ∧
    0 ∉ a.free ∧
    (m.containsRange 0 frameSize = true ↔
      ∀ n < frameSize, n ∈ covered [(⟨0x80000000, 0x80010000, false⟩ : AttributedRange)]) ∧
    ∀ e ∈ [(⟨.mmio, 0x100000, 1⟩ : MemoryMapEntry), ⟨.conventional, 0, 16⟩],
      e.memoryType ≠ .conventional → ∀ f, e.Inside (f * frameSize) → f ∉ a.free := by
  have orderly : Orderly [(⟨.mmio, 0x100000, 1⟩ : MemoryMapEntry), ⟨.conventional, 0, 16⟩] := by
    refine ⟨by decide, by decide, ?_⟩
    simp only [List.pairwise_cons, List.mem_singleton, List.not_mem_nil, forall_eq, Inside,
      List.Pairwise.nil, false_implies, implies_true, and_true, frameSize]
    omega
  obtain ⟨⟨a, stats⟩, frames⟩ := Result.isOk_iff.mp
    (show (FrameArray.build smallMap 48).isOk = true by decide +kernel)
  obtain ⟨m, mapped⟩ := Result.isOk_iff.mp
    (show (MappedRanges.build sortByStart smallMap 48
      [⟨0x80000000, 0x80010000, false⟩]).isOk = true by decide)
  exact ⟨a, stats, m, frames, mapped, free_frames_mapped sortByStart_sorts smallMap 48 _
    (by decide) orderly frames mapped⟩

/-- A range that is not in the map can be the first frame, which is then mapped. -/
theorem null_frame_mapped : ¬∀ (sort : List AttributedRange → List AttributedRange),
    MappedRanges.SortsByStart sort → ∀ (raw : Bytes) (descriptorSize : Nat)
    (extra : List AttributedRange) (entries : List MemoryMapEntry),
    parseEntries raw descriptorSize = Result.ok entries → Orderly entries →
    ∀ (a : FrameArray) (stats : FrameAllocatorStats) (m : MappedRanges),
    FrameArray.build raw descriptorSize = Result.ok (a, stats) →
    MappedRanges.build sort raw descriptorSize extra = Result.ok m →
    m.containsRange 0 frameSize = false := by
  intro all
  obtain ⟨⟨a, stats⟩, frames⟩ := Result.isOk_iff.mp
    (show (FrameArray.build (.ofRuns 0 []) 48).isOk = true by decide)
  have mapped : MappedRanges.build sortByStart (.ofRuns 0 []) 48 [⟨0, 4096, true⟩] =
      Result.ok ⟨[⟨0, 4096, true⟩]⟩ := by decide
  have no := all sortByStart sortByStart_sorts _ 48 _ [] (by decide)
    ⟨by decide, by decide, .nil⟩ a stats _ frames mapped
  rw [← Bool.not_eq_true, MappedRanges.containsRange_iff] at no
  exact no fun n _ lt => mem_covered_cons.mpr (.inl ⟨Nat.zero_le n, lt⟩)

end Zaytos.Kernel
