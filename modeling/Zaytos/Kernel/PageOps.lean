import Zaytos.Kernel.PageTableSpec

set_option autoImplicit false

/-! What each operation on the page tables can do: which table it comes to, and what it writes there. -/
namespace Zaytos.Kernel.Paging

open Exec

variable {s : Physical} {roots : Set Nat} {h t : Nat} {v : VirtAddr}

theorem wp_allocateFrame {ε : Type} {refused : ε} {Q : Nat → Physical → Prop}
    {E : ε → Physical → Prop} (sound : s.allocator.Sound)
    (taken : ∀ f a, s.allocator.allocateFrame = (some f, a) → Q f { s with allocator := a })
    (none : E refused s) : Wp (allocateFrame refused) s Q E := by
  unfold Wp allocateFrame
  cases result : s.allocator.allocateFrame with
  | mk frame a =>
    cases frame with
    | none =>
      obtain ⟨rfl, -⟩ := FrameAllocator.allocateFrame_none sound result
      exact none
    | some f => exact taken f a result

/-- A leaf is written where a page was not present, after the tables on the way were put in. -/
structure PutsLeaf (root : Nat) (path : Path) (e : Word) (n : Nat) (s u : Physical) where
  middle : Physical
  pt : Nat
  builds : Builds root path n s middle
  comes : Comes middle.memory path root 0 pt
  absent : isPresent (middle.memory pt (path 0)) = false
  result : u = middle.write pt (path 0) e

namespace ActivePageTable

variable {table : ActivePageTable} {p : PagePermissions}

theorem ensureChild_wp (wf : WellFormed s roots) (mem : table.pml4 ∈ roots)
    (allowed : kernelMappingWriteIsRefused (v.index 3) table.finished = false)
    (comes : Comes s.memory v.index table.pml4 (h + 1) t) :
    Wp (table.ensureChild p t (v.index (h + 1))) s
      (fun child u => ∃ n, Builds table.pml4 v.index n s u ∧ Comes u.memory v.index table.pml4 h child)
      (fun _ u => u = s) := by
  rw [ensureChild, wp_bind, wp_readEntry, wp_ite]
  refine ⟨fun present => ?_, fun absent => ?_⟩
  · rw [wp_bind, wp_rejectIf]
    refine ⟨fun _ => rfl, fun notHuge => ⟨0, .refl s, comes.child ?_⟩⟩
    exact link_eq_some.mpr ⟨present, .inr (eq_false_of_ne_true notHuge), rfl⟩
  · rw [Bool.not_eq_true] at absent
    rw [wp_bind, wp_faultIf]
    refine ⟨?_, ?_⟩
    · -- Only the walk that has just begun is at the top.
      rintro ⟨rfl, refused⟩
      have top : h + 1 = 3 := (wf.once mem mem comes (comes_root s.memory v.index _)).1
      rw [top] at refused
      exact Bool.false_ne_true (allowed.symm.trans refused)
    · rw [wp_bind]
      refine wp_allocateFrame wf.sound (fun fresh a taken => ?_) rfl
      have was := (FrameAllocator.allocateFrame_free wf.sound.tidy taken).1
      have grows := growsBy_of_taken (h := h) (p := p) wf.sound taken (wf.clear was mem _ _ comes)
        absent
      exact ⟨1, .grow (.refl s) comes grows, grows.comes_fresh wf comes mem rfl⟩

theorem map4kib_wp (wf : WellFormed s roots) (mem : table.pml4 ∈ roots) (frame : Nat) :
    Wp (table.map4kib v frame p) s
      (fun _ u => ∃ n, Nonempty (PutsLeaf table.pml4 v.index (leafEntry (frameAddress frame) p .small) n s u))
      (fun _ u => ∃ n, Builds table.pml4 v.index n s u) := by
  have nothing : ∃ n, Builds table.pml4 v.index n s s := ⟨0, .refl s⟩
  rw [map4kib, wp_bind, refuseKernelMappingChangeAfterBoot, wp_rejectIf]
  refine ⟨fun _ => nothing, fun allowed => ?_⟩
  rw [Bool.not_eq_true] at allowed
  rw [wp_bind, wp_rejectIf]
  refine ⟨fun _ => nothing, fun _ => ?_⟩
  rw [wp_bind]
  refine (ensureChild_wp wf mem allowed (comes_root _ _ _)).mono ?_ fun _ u _ eq => eq ▸ nothing
  rintro pdpt s₁ - ⟨n₁, builds₁, comes₁⟩
  have wf₁ := (builds₁.kept wf mem).wellFormed
  rw [wp_bind]
  refine (ensureChild_wp wf₁ mem allowed comes₁).mono ?_ fun _ u _ eq => eq ▸ ⟨n₁, builds₁⟩
  rintro pd s₂ - ⟨n₂, builds₂, comes₂⟩
  have wf₂ := (builds₂.kept wf₁ mem).wellFormed
  rw [wp_bind]
  refine (ensureChild_wp wf₂ mem allowed comes₂).mono ?_ fun _ u _ eq =>
    eq ▸ ⟨_, builds₁.trans builds₂⟩
  rintro pt s₃ - ⟨n₃, builds₃, comes₃⟩
  have builds := (builds₁.trans builds₂).trans builds₃
  rw [wp_bind, wp_readEntry, wp_bind, wp_rejectIf]
  refine ⟨fun _ => ⟨_, builds⟩, fun absent => ?_⟩
  exact ⟨_, ⟨⟨s₃, pt, builds, comes₃, eq_false_of_ne_true absent, rfl⟩⟩⟩

theorem locatePd_wp : Wp (table.locatePd v) s
    (fun found u => u = s ∧ found.2 = v.index 1 ∧ Comes s.memory v.index table.pml4 1 found.1)
    (fun _ u => u = s) := by
  rw [locatePd, wp_bind, wp_readEntry, wp_bind, wp_rejectIf]
  refine ⟨fun _ => rfl, fun present3 => ?_⟩
  rw [wp_bind, wp_readEntry, wp_bind, wp_rejectIf]
  refine ⟨fun _ => rfl, fun present2 => ?_⟩
  rw [wp_bind, wp_rejectIf]
  refine ⟨fun _ => rfl, fun notGiant => ⟨rfl, rfl, ?_⟩⟩
  have comes : Comes s.memory v.index table.pml4 2 _ := (comes_root _ _ _).child
    (link_eq_some.mpr ⟨eq_true_of_ne_false present3, .inl rfl, rfl⟩)
  exact comes.child
    (link_eq_some.mpr ⟨eq_true_of_ne_false present2, .inr (eq_false_of_ne_true notGiant), rfl⟩)

theorem unmap4kib_wp : Wp (table.unmap4kib v) s
    (fun page u => ∃ pt, Comes s.memory v.index table.pml4 0 pt ∧
      isPresent (s.memory pt (v.index 0)) = true ∧
      page = ⟨frameOf (s.memory pt (v.index 0)), s.memory pt (v.index 0)⟩ ∧
      u = s.write pt (v.index 0) 0)
    (fun _ u => u = s) := by
  rw [unmap4kib, wp_bind, refuseKernelMappingChangeAfterBoot, wp_rejectIf]
  refine ⟨fun _ => rfl, fun _ => ?_⟩
  rw [wp_bind]
  refine locatePd_wp.mono ?_ fun _ _ _ => id
  rintro ⟨pd, i⟩ u - ⟨rfl, rfl, comes⟩
  dsimp only at comes ⊢
  rw [wp_bind, wp_readEntry, wp_bind, wp_rejectIf]
  refine ⟨fun _ => rfl, fun present1 => ?_⟩
  rw [wp_bind, wp_rejectIf]
  refine ⟨fun _ => rfl, fun notHuge => ?_⟩
  rw [wp_bind, wp_readEntry, wp_bind, wp_rejectIf]
  refine ⟨fun _ => rfl, fun present0 => ?_⟩
  refine ⟨_, comes.child ?_, eq_true_of_ne_false present0, rfl, rfl⟩
  exact link_eq_some.mpr ⟨eq_true_of_ne_false present1, .inr (eq_false_of_ne_true notHuge), rfl⟩

theorem isCanonical_region (v : VirtAddr) : isCanonical (v.raw &&& ~~~(0x200000 - 1)) = true := by
  have canonical := (isCanonical_iff _).mp v.canonical
  have := v.raw.isLt
  have region : (v.raw &&& ~~~(0x200000 - 1)).toNat = v.raw.toNat / 2097152 * 2097152 := by
    have split : v.raw &&& ~~~(0x200000 - 1 : Word) = (v.raw >>> 21) <<< 21 := by
      ext i within
      interval_cases i <;> simp
    rw [split, BitVec.toNat_shiftLeft, BitVec.toNat_ushiftRight, Nat.shiftRight_eq_div_pow,
      Nat.shiftLeft_eq]
    omega
  rw [isCanonical_iff, region]
  omega

theorem splitHugePage_wp (sound : s.allocator.Sound) : Wp (table.splitHugePage v) s
    (fun out u => ∃ pd a, Comes s.memory v.index table.pml4 1 pd ∧
      s.memory pd (v.index 1) = out.hugeEntry ∧ isPresent out.hugeEntry = true ∧
      isHuge out.hugeEntry = true ∧ s.allocator.allocateFrame = (some out.tablePhys, a) ∧
      u = s.graft a out.tablePhys (fun i => splitChildEntry out.hugeEntry i) pd (v.index 1)
        (tableEntryForSplit out.hugeEntry (frameAddress out.tablePhys)))
    (fun _ u => u = s) := by
  rw [splitHugePage, wp_bind, refuseKernelMappingChangeAfterBoot, wp_rejectIf]
  refine ⟨fun _ => rfl, fun _ => ?_⟩
  rw [wp_bind]
  refine locatePd_wp.mono ?_ fun _ _ _ => id
  rintro ⟨pd, i⟩ u - ⟨rfl, rfl, comes⟩
  dsimp only at comes ⊢
  rw [wp_bind, wp_readEntry, wp_bind, wp_rejectIf]
  refine ⟨fun _ => rfl, fun present => ?_⟩
  rw [wp_bind, wp_rejectIf]
  refine ⟨fun _ => rfl, fun huge => ?_⟩
  rw [wp_bind, wp_rejectIf]
  refine ⟨fun _ => rfl, fun _ => ?_⟩
  rw [wp_bind]
  refine wp_allocateFrame sound (fun fresh a taken => ?_) rfl
  rw [wp_bind, zeroTable, wp_writeTable, wp_bind, wp_writeTable, wp_bind, wp_writeEntry, wp_bind, wp_lift]
  refine ⟨⟨_, isCanonical_region v⟩, dif_pos _, pd, a, comes, rfl, eq_true_of_ne_false present,
    eq_true_of_ne_false huge, taken, ?_⟩
  rw [Physical.fill_fill]
  rfl

end ActivePageTable

structure Spares (s t : Physical) : Prop where
  memory : t.memory = s.memory
  sound : t.allocator.Sound
  fewer : ∀ f ∈ t.allocator.free, f ∈ s.allocator.free

theorem Spares.kept {t : Physical} (spares : Spares s t) (wf : WellFormed s roots) : Kept roots s t := by
  obtain ⟨memory, allocator⟩ := t
  obtain rfl : memory = s.memory := spares.memory
  exact .spare wf spares.sound spares.fewer

theorem Spares.refl (sound : s.allocator.Sound) : Spares s s := ⟨rfl, sound, fun _ => id⟩

theorem Spares.returned {f : Nat} {a : FrameAllocator} (sound : s.allocator.Sound)
    (taken : s.allocator.allocateFrame = (some f, a)) :
    Spares s { s with allocator := a.deallocateFrame f } := by
  obtain ⟨was, free⟩ := FrameAllocator.allocateFrame_free sound.tidy taken
  have sound' := (FrameAllocator.allocateFrame_some sound.tidy taken).1.sound sound
  obtain ⟨after, either⟩ := FrameAllocator.deallocateFrame_free sound' (sound.low f was)
    fun isFree => ((free f).mp isFree).2 rfl
  refine ⟨rfl, after, fun g isFree => ?_⟩
  rcases either g isFree with mem | rfl
  · exact ((free g).mp mem).1
  · exact was

namespace AddressSpace

def taking (space : AddressSpace) (n : Nat) : AddressSpace :=
  { space with framesTaken := space.framesTaken + n }

@[simp] theorem taking_zero (space : AddressSpace) : space.taking 0 = space := rfl

@[simp] theorem taking_taking (space : AddressSpace) (n k : Nat) :
    (space.taking n).taking k = space.taking (n + k) := by
  rw [taking, taking, taking, add_assoc]

variable {p : PagePermissions} {window : DirectMap} {root : Nat}

theorem childTable_wp {s : SpaceIn} (wf : WellFormed s.physical roots) (mem : root ∈ roots)
    (comes : Comes s.physical.memory v.index root (h + 1) t) :
    Wp (childTable window p t (v.index (h + 1))) s
      (fun child u => ∃ n, Builds root v.index n s.physical u.physical ∧
        Comes u.physical.memory v.index root h child ∧ u.space = s.space.taking n)
      (fun _ u => u.space = s.space ∧ Spares s.physical u.physical) := by
  rw [childTable, wp_bind, wp_physically, wp_readEntry, wp_ite]
  refine ⟨fun present => ?_, fun absent => ?_⟩
  · rw [wp_bind, wp_rejectIf]
    refine ⟨fun _ => ⟨rfl, .refl wf.sound⟩, fun notHuge => ⟨0, .refl _, comes.child ?_, rfl⟩⟩
    exact link_eq_some.mpr ⟨present, .inr (eq_false_of_ne_true notHuge), rfl⟩
  · rw [Bool.not_eq_true] at absent
    rw [wp_bind, wp_physically]
    refine wp_allocateFrame wf.sound (fun fresh a taken => ?_) ⟨rfl, .refl wf.sound⟩
    rw [wp_ite]
    refine ⟨fun _ => ?_, fun _ => ⟨rfl, .returned wf.sound taken⟩⟩
    have was := (FrameAllocator.allocateFrame_free wf.sound.tidy taken).1
    have grows := growsBy_of_taken (h := h) (p := p) wf.sound taken (wf.clear was mem _ _ comes) absent
    exact ⟨1, .grow (.refl _) comes grows, grows.comes_fresh wf comes mem rfl, rfl⟩

variable (window) in
theorem mapUser4kib_wp {s : SpaceIn} (wf : WellFormed s.physical roots) (mem : s.space.pml4 ∈ roots)
    (frame : Nat) :
    Wp (mapUser4kib window v frame p) s
      (fun _ u => (v.index 3).val = s.space.userPml4Index ∧ ∃ n, u.space = s.space.taking (n + 1) ∧
        Nonempty (PutsLeaf s.space.pml4 v.index (leafEntry (frameAddress frame) p .small) n
          s.physical u.physical))
      (fun _ u => ∃ n middle, u.space = s.space.taking n ∧
        Builds s.space.pml4 v.index n s.physical middle ∧ Spares middle u.physical) := by
  have nothing : ∃ n middle, s.space = s.space.taking n ∧
      Builds s.space.pml4 v.index n s.physical middle ∧ Spares middle s.physical :=
    ⟨0, s.physical, rfl, .refl _, .refl wf.sound⟩
  rw [mapUser4kib, wp_bind, wp_read, Result.sat_ok, wp_bind, wp_rejectIf]
  refine ⟨fun _ => nothing, fun inside => ?_⟩
  rw [wp_bind, wp_rejectIf]
  refine ⟨fun _ => nothing, fun _ => ?_⟩
  rw [wp_bind, wp_rejectIf]
  refine ⟨fun _ => nothing, fun _ => ?_⟩
  rw [wp_bind, wp_rejectIf]
  refine ⟨fun _ => nothing, fun _ => ?_⟩
  rw [wp_bind]
  refine (childTable_wp wf mem (comes_root _ _ _)).mono ?_ fun _ u _ failed =>
    ⟨0, _, failed.1, .refl _, failed.2⟩
  rintro pdpt s₁ - ⟨n₁, builds₁, comes₁, space₁⟩
  have wf₁ := (builds₁.kept wf mem).wellFormed
  rw [wp_bind]
  refine (childTable_wp wf₁ mem comes₁).mono ?_ fun _ u _ failed =>
    ⟨n₁, _, failed.1.trans space₁, builds₁, failed.2⟩
  rintro pd s₂ - ⟨n₂, builds₂, comes₂, space₂⟩
  have wf₂ := (builds₂.kept wf₁ mem).wellFormed
  rw [space₁, taking_taking] at space₂
  rw [wp_bind]
  refine (childTable_wp wf₂ mem comes₂).mono ?_ fun _ u _ failed =>
    ⟨_, _, failed.1.trans space₂, builds₁.trans builds₂, failed.2⟩
  rintro pt s₃ - ⟨n₃, builds₃, comes₃, space₃⟩
  rw [space₂, taking_taking] at space₃
  have builds := (builds₁.trans builds₂).trans builds₃
  have sound := (builds₃.kept wf₂ mem).wellFormed.sound
  rw [wp_bind, wp_physically, wp_readEntry, wp_bind, wp_rejectIf]
  refine ⟨fun _ => ⟨_, _, space₃, builds, .refl sound⟩, fun absent => ?_⟩
  rw [wp_bind, wp_physically, wp_writeEntry, wp_countFrame]
  refine ⟨not_not.mp inside, _, ?_, ⟨⟨s₃.physical, pt, builds, comes₃, eq_false_of_ne_true absent, rfl⟩⟩⟩
  dsimp only
  rw [space₃]
  rfl

end AddressSpace

end Zaytos.Kernel.Paging
