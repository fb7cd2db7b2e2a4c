import Zaytos.Kernel.PageMap

set_option autoImplicit false

/-! A new space among the others, and all operations on the page tables as steps of the partial
functions that the tables stand for. -/
namespace Zaytos.Kernel.Paging

open Exec

variable {s t : Physical} {roots : Set Nat} {root : Nat} {v : VirtAddr}

theorem isSharedKernelIndex_iff (i : Index) : isSharedKernelIndex i = true ↔ kernelPml4FirstIndex ≤ i.val := by
  rw [isSharedKernelIndex, Bool.and_eq_true, decide_eq_true_eq, decide_eq_true_eq]
  exact and_iff_left i.isLt

def Physical.withTop (s : Physical) (a : FrameAllocator) (fresh current : Nat) : Physical :=
  ({ s with allocator := a } : Physical).fill fresh fun i =>
    if isSharedKernelIndex i then s.memory current i else 0

structure Scratches (s t : Physical) (fresh : Nat) : Prop where
  was : fresh ∈ s.allocator.free
  memory : ∀ u, u ≠ fresh → t.memory u = s.memory u

namespace Scratches

variable {fresh : Nat} {path : Path} (scratches : Scratches s t fresh) (wf : WellFormed s roots)
include scratches

theorem edit (i : Index) : Radix.Edit s.memory t.memory fresh i (· = fresh) :=
  ⟨fun u _ _ other => congrFun (scratches.memory u other) _⟩

include wf

theorem comes_iff {k u : Nat} (mem : root ∈ roots) :
    Comes t.memory path root k u ↔ Comes s.memory path root k u := by
  have edit := scratches.edit (path 0)
  constructor
  · intro after
    rcases edit.leads_cases (wf.clear scratches.was mem) after with before | ⟨j, -, through, -⟩
    · exact before
    · exact absurd rfl (wf.clear scratches.was mem _ _ through)
  · intro before
    exact edit.leads (wf.clear scratches.was mem) before fun j _ through =>
      absurd rfl (wf.clear scratches.was mem _ _ through)

theorem sameWalks : SameWalks roots s.memory t.memory := fun _ mem path =>
  (scratches.edit (path 0)).walk (wf.clear scratches.was mem) fun _ through _ =>
    absurd rfl (wf.clear scratches.was mem _ _ through)

theorem reaches {u : Nat} (reaches : Reaches t.memory roots u) : Reaches s.memory roots u := by
  obtain ⟨root, mem, path, k, comes⟩ := reaches
  exact ⟨root, mem, path, k, (scratches.comes_iff wf mem).mp comes⟩

theorem kept (sound : t.allocator.Sound) (fewer : ∀ f ∈ t.allocator.free, f ∈ s.allocator.free) :
    Kept roots s t where
  wellFormed :=
    { sound := sound
      once := fun mem mem' _ _ _ _ _ comes comes' =>
        wf.once mem mem' ((scratches.comes_iff wf mem).mp comes) ((scratches.comes_iff wf mem').mp comes')
      taken := fun reaches isFree => wf.taken (scratches.reaches wf reaches) (fewer _ isFree)
      apart := fun targets => by
        obtain ⟨noTable, notFree⟩ := wf.apart ((scratches.sameWalks wf).targets targets)
        exact ⟨fun reaches => noTable (scratches.reaches wf reaches), fun isFree =>
          notFree (fewer _ isFree)⟩ }
  same := scratches.sameWalks wf
  unused _ unused := ⟨unused.low, fun isFree => unused.taken (fewer _ isFree), fun reaches =>
    unused.noTable (scratches.reaches wf reaches)⟩

end Scratches

theorem withTop_memory (s : Physical) (a : FrameAllocator) (fresh current : Nat) (i : Index) :
    (s.withTop a fresh current).memory fresh i =
      if isSharedKernelIndex i then s.memory current i else 0 := by
  rw [Physical.withTop, Physical.fill_self]

section New

variable {a : FrameAllocator} {fresh current : Nat} {path : Path} (wf : WellFormed s roots)
  (mem : current ∈ roots) (taken : s.allocator.allocateFrame = (some fresh, a))
include wf taken

theorem scratches_withTop (current : Nat) : Scratches s (s.withTop a fresh current) fresh :=
  ⟨(FrameAllocator.allocateFrame_free wf.sound.tidy taken).1, fun _ other =>
    Physical.fill_other _ _ _ other⟩

include mem

theorem withTop_comes_new {k u : Nat} (comes : Comes (s.withTop a fresh current).memory path fresh k u) :
    (k = 3 ∧ u = fresh) ∨ (k < 3 ∧ IsKernel path ∧ Comes s.memory path current k u) := by
  have ne : current ≠ fresh := wf.clear (FrameAllocator.allocateFrame_free wf.sound.tidy taken).1
    mem 3 current (comes_root s.memory path current)
  cases comes with
  | here => exact .inl ⟨rfl, rfl⟩
  | down linked rest =>
    rw [tree_link, withTop_memory] at linked
    split at linked
    · rename_i kernel
      refine .inr ⟨Nat.lt_succ_of_le rest.le, (isSharedKernelIndex_iff _).mp kernel, ?_⟩
      rw [← (scratches_withTop wf taken current).comes_iff wf mem]
      refine .down ?_ rest
      rw [Physical.withTop, Physical.fill_other _ _ _ ne]
      exact linked
    · rw [link_zero] at linked
      cases linked

theorem withTop_walk_kernel (kernel : IsKernel path) :
    walk (s.withTop a fresh current).memory path fresh = walk s.memory path current := by
  have was := (FrameAllocator.allocateFrame_free wf.sound.tidy taken).1
  have first : (s.withTop a fresh current).memory fresh (path 3) = s.memory current (path 3) := by
    rw [withTop_memory, if_pos ((isSharedKernelIndex_iff _).mpr kernel)]
  cases linked : link 3 (s.memory current (path 3)) with
  | none => rw [walk, walk, Radix.walk_none (by rw [first]; exact linked), Radix.walk_none linked, first]
  | some child =>
    have old : walk s.memory path current = _ := Radix.walk_some linked
    rw [walk, Radix.walk_some (by rw [first]; exact linked), old, first]
    refine congrArg _ (Radix.walk_congr fun k u leads => ?_)
    have notFresh := wf.clear was mem k u (.down linked leads)
    rw [Physical.withTop, Physical.fill_other _ _ _ notFresh]

omit wf taken mem in
theorem withTop_walk_user (user : ¬IsKernel path) :
    walk (s.withTop a fresh current).memory path fresh = .error .notPresent := by
  have first : (s.withTop a fresh current).memory fresh (path 3) = 0 := by
    rw [withTop_memory, if_neg fun shared => user ((isSharedKernelIndex_iff _).mp shared)]
  rw [walk, Radix.walk_none (by rw [first]; exact link_zero 3), first]
  exact ends_zero 3

theorem withTop_reaches {u : Nat}
    (reaches : Reaches (s.withTop a fresh current).memory (insert fresh roots) u) :
    u = fresh ∨ Reaches s.memory roots u := by
  obtain ⟨root, memAny, path, k, comes⟩ := reaches
  rcases memAny with rfl | old
  · rcases withTop_comes_new wf mem taken comes with ⟨-, eq⟩ | ⟨-, -, comes⟩
    · exact .inl eq
    · exact .inr ⟨current, mem, path, k, comes⟩
  · exact .inr ⟨root, old, path, k, ((scratches_withTop wf taken _).comes_iff wf old).mp comes⟩

theorem withTop_wellFormed : WellFormed (s.withTop a fresh current) (insert fresh roots) := by
  obtain ⟨was, free⟩ := FrameAllocator.allocateFrame_free wf.sound.tidy taken
  refine ⟨(FrameAllocator.allocateFrame_some wf.sound.tidy taken).1.sound wf.sound, ?_, ?_, ?_⟩
  · intro root root' memAny memAny' path path' k k' u comes comes'
    rcases memAny with rfl | old <;> rcases memAny' with rfl | old'
    · rcases withTop_comes_new wf mem taken comes with ⟨rfl, rfl⟩ | ⟨low, kernel, comes⟩ <;>
        rcases withTop_comes_new wf mem taken comes' with ⟨rfl, eq⟩ | ⟨low', kernel', comes'⟩
      · exact ⟨rfl, fun i above below => absurd below (by omega), .inl rfl⟩
      · exact absurd rfl (wf.clear was mem _ _ comes')
      · exact absurd eq (wf.clear was mem _ _ comes)
      · obtain ⟨height, above, -⟩ := wf.once mem mem comes comes'
        exact ⟨height, above, .inl rfl⟩
    · rw [(scratches_withTop wf taken _).comes_iff wf old'] at comes'
      rcases withTop_comes_new wf mem taken comes with ⟨rfl, rfl⟩ | ⟨low, kernel, comes⟩
      · exact absurd rfl (wf.clear was old' _ _ comes')
      · obtain ⟨height, above, -⟩ := wf.once mem old' comes comes'
        exact ⟨height, above, .inr ⟨low, kernel⟩⟩
    · rw [(scratches_withTop wf taken _).comes_iff wf old] at comes
      rcases withTop_comes_new wf mem taken comes' with ⟨rfl, rfl⟩ | ⟨low, kernel, comes'⟩
      · exact absurd rfl (wf.clear was old _ _ comes)
      · obtain ⟨rfl, above, -⟩ := wf.once old mem comes comes'
        refine ⟨rfl, above, .inr ⟨low, ?_⟩⟩
        rw [IsKernel, above 3 low le_rfl]
        exact kernel
    · exact wf.once old old' (((scratches_withTop wf taken _).comes_iff wf old).mp comes)
        (((scratches_withTop wf taken _).comes_iff wf old').mp comes')
  · intro u reaches isFree
    obtain ⟨wasFree, ne⟩ := (free u).mp isFree
    rcases withTop_reaches wf mem taken reaches with rfl | reaches
    · exact ne rfl
    · exact wf.taken reaches wasFree
  · rintro f ⟨root, memAny, path, user, found, result, covers⟩
    rcases memAny with rfl | old
    · rw [withTop_walk_user user] at result
      cases result
    · rw [(scratches_withTop wf taken _).sameWalks wf root old path] at result
      obtain ⟨noTable, notFree⟩ := wf.apart ⟨root, old, path, user, found, result, covers⟩
      refine ⟨fun reaches => ?_, fun isFree => notFree ((free f).mp isFree).1⟩
      rcases withTop_reaches wf mem taken reaches with rfl | reaches
      · exact notFree was
      · exact noTable reaches

theorem withTop_starts : Starts current fresh s.memory (s.withTop a fresh current).memory where
  user v user := walkPageTable_error (withTop_walk_user user)
  kernel v kernel := by
    have same := withTop_walk_kernel wf mem taken (not_not.mp kernel)
    rw [walkPageTable_eq, walkPageTable_eq, attributes, attributes, same]
    exact ⟨rfl, rfl⟩

end New

theorem new_wp (wf : WellFormed s roots) {current : Nat} (window : DirectMap)
    (frozen : Word) (userWindow : Nat) :
    Wp (AddressSpace.new window current frozen userWindow) s
      (fun space t => space.userPml4Index = userWindow ∧ space.framesTaken = 1 ∧ ∃ a,
        s.allocator.allocateFrame = (some space.pml4, a) ∧ t = s.withTop a space.pml4 current)
      (fun _ t => Kept roots s t) := by
  rw [AddressSpace.new]
  split
  · rw [wp_bind]
    refine wp_allocateFrame wf.sound (fun fresh a taken => ?_) (.refl wf)
    have returned := Spares.returned wf.sound taken
    rw [wp_ite]
    refine ⟨fun _ => returned.kept wf, fun _ => ?_⟩
    rw [wp_bind, wp_read, Result.sat_ok, wp_bind, wp_writeTable, wp_bind, wp_read, Result.sat_ok, wp_ite]
    refine ⟨fun _ => ?_, fun _ => ⟨rfl, rfl, a, taken, rfl⟩⟩
    have scratches : Scratches s _ fresh := scratches_withTop wf taken current
    exact Scratches.kept ⟨scratches.was, scratches.memory⟩ wf returned.sound returned.fewer
  · exact .refl wf

/-- In well-formed spaces each operation on the tables is what it should be for the partial functions
from the pages to the frames, and an operation that fails changes none of them. -/
theorem page_tables_refine (wf : WellFormed s roots) :
    (∀ (space : AddressSpace) (window : DirectMap) (v : VirtAddr) (frame : Nat) (p : PagePermissions),
      space.pml4 ∈ roots → Unused s roots frame →
      Wp (AddressSpace.mapUser4kib window v frame p) ⟨space, s⟩
        (fun _ t => WellFormed t.physical roots ∧
          Maps roots space.pml4 v frame (leafFlags p .small) s.memory t.physical.memory)
        (fun _ t => WellFormed t.physical roots ∧ Unchanged roots s.memory t.physical.memory)) ∧
    (∀ (table : ActivePageTable) (v : VirtAddr) (frame : Nat) (p : PagePermissions),
      table.pml4 ∈ roots → Unused s roots frame →
      Wp (table.map4kib v frame p) s
        (fun _ t => WellFormed t roots ∧
          Maps roots table.pml4 v frame (leafFlags p .small) s.memory t.memory)
        (fun _ t => WellFormed t roots ∧ Unchanged roots s.memory t.memory)) ∧
    (∀ (table : ActivePageTable) (v : VirtAddr), table.pml4 ∈ roots →
      Wp (table.unmap4kib v) s
        (fun page t => WellFormed t roots ∧ Unmaps roots table.pml4 v page s.memory t.memory)
        (fun _ t => WellFormed t roots ∧ Unchanged roots s.memory t.memory)) ∧
    (∀ (table : ActivePageTable) (v : VirtAddr), table.pml4 ∈ roots →
      Wp (table.splitHugePage v) s
        (fun _ t => WellFormed t roots ∧ ∀ root ∈ roots, ∀ w, SameAccess s.memory t.memory root w)
        (fun _ t => WellFormed t roots ∧ Unchanged roots s.memory t.memory)) ∧
    (∀ (window : DirectMap) (current : Nat) (frozen : Word) (userWindow : Nat), current ∈ roots →
      Wp (AddressSpace.new window current frozen userWindow) s
        (fun space t => WellFormed t (insert space.pml4 roots) ∧ Unchanged roots s.memory t.memory ∧
          Starts current space.pml4 s.memory t.memory)
        (fun _ t => WellFormed t roots ∧ Unchanged roots s.memory t.memory)) ∧
    ∀ (root : Nat) (v : VirtAddr), translate s.memory root v =
      match walkPageTable s.memory root v with
      | .ok r => .ok (some ⟨r.phys, if r.huge then .size2MiB else .size4KiB, r.entry⟩)
      | .error .notPresent => .ok none
      | .error .giantPage => .err .unsupportedGiantPage := by
  have nothing : WellFormed s roots ∧ Unchanged roots s.memory s.memory := ⟨wf, .refl _ _⟩
  refine ⟨fun space window v frame p mem unused => ?_, fun table v frame p mem unused => ?_,
    fun table v mem => ?_, fun table v mem => ?_, fun window current frozen userWindow mem => ?_,
    translate_eq s.memory⟩
  · have spec := AddressSpace.mapUser4kib_wp (s := ⟨space, s⟩) (v := v) (p := p) window wf mem frame
    refine spec.mono ?_ ?_
    · rintro - t - ⟨-, n, -, ⟨puts⟩⟩
      exact puts.maps wf mem unused
    · rintro - t - ⟨n, middle, -, builds, spares⟩
      have kept := builds.kept wf mem
      exact (kept.trans (spares.kept kept.wellFormed)).unchanged
  · refine (table.map4kib_wp (v := v) (p := p) wf mem frame).mono ?_ ?_
    · rintro - t - ⟨n, ⟨puts⟩⟩
      exact puts.maps wf mem unused
    · rintro - t - ⟨n, builds⟩
      exact (builds.kept wf mem).unchanged
  · refine (table.unmap4kib_wp (s := s) (v := v)).mono ?_ fun _ t _ same => same ▸ nothing
    rintro page t - ⟨pt, comes, present, rfl, rfl⟩
    exact unmaps wf mem comes present
  · refine (table.splitHugePage_wp (v := v) wf.sound).mono ?_ fun _ t _ same => same ▸ nothing
    rintro out t - ⟨pd, a, comes, entry, present, huge, taken, result⟩
    exact splits wf mem comes entry present huge taken t result
  · refine (new_wp wf window frozen userWindow).mono ?_ fun _ t _ kept => kept.unchanged
    rintro space t - ⟨-, -, a, taken, rfl⟩
    exact ⟨withTop_wellFormed wf mem taken, ((scratches_withTop wf taken current).sameWalks wf).unchanged,
      withTop_starts wf mem taken⟩

theorem wellFormed_blank {a : FrameAllocator} (root : Nat) (sound : a.Sound) (taken : root ∉ a.free) :
    WellFormed ⟨fun _ _ => 0, a⟩ {root} := by
  have only {path : Path} {k u : Nat} (comes : Comes (fun _ _ => 0) path root k u) : k = 3 ∧ u = root := by
    cases comes with
    | here => exact ⟨rfl, rfl⟩
    | down linked _ =>
      rw [tree_link, link_zero] at linked
      cases linked
  refine ⟨sound, ?_, ?_, ?_⟩
  · rintro root' root'' rfl rfl path path' k k' u comes comes'
    obtain ⟨rfl, -⟩ := only comes
    obtain ⟨rfl, -⟩ := only comes'
    exact ⟨rfl, fun i above below => absurd below (by omega), .inl rfl⟩
  · rintro u ⟨root', rfl, path, k, comes⟩
    exact (only comes).2 ▸ taken
  · rintro f ⟨root', rfl, path, -, found, result, -⟩
    rw [walk, walk_zero fun _ => rfl] at result
    cases result

/-- The first page of a program, in an empty space. -/
theorem page_tables_refine_blank :
    let s : Physical := ⟨fun _ _ => 0, ⟨4, [⟨1, 100⟩]⟩⟩
    let space : AddressSpace := ⟨0, 0, rfl, 1⟩
    let v : VirtAddr := ⟨0x400000, by decide⟩
    Wp (AddressSpace.mapUser4kib ⟨2 ^ 30⟩ v 200 .userData) ⟨space, s⟩
      (fun _ t => WellFormed t.physical {0} ∧
        Maps {0} 0 v 200 (leafFlags .userData .small) s.memory t.physical.memory)
      (fun _ t => WellFormed t.physical {0} ∧ Unchanged {0} s.memory t.physical.memory) := by
  have sound : FrameAllocator.Sound ⟨4, [⟨1, 100⟩]⟩ :=
    FrameAllocator.sound_single (by decide) (by decide) (by decide)
  have wf := wellFormed_blank 0 sound (by decide)
  refine (page_tables_refine wf).1 ⟨0, 0, rfl, 1⟩ ⟨2 ^ 30⟩ ⟨0x400000, by decide⟩ 200 .userData rfl
    ⟨by decide, by decide, ?_⟩
  rintro ⟨root, rfl, path, k, comes⟩
  cases comes with
  | down linked _ =>
    rw [tree_link, link_zero] at linked
    cases linked

end Zaytos.Kernel.Paging
