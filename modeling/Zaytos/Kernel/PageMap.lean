import Zaytos.Kernel.PageOps

set_option autoImplicit false

/-! The page tables as a partial function from the pages to the frames and the flags of the leaves:
what the operations on the tables do to this function. -/
namespace Zaytos.Kernel.Paging

open Exec

variable {s t : Physical} {roots : Set Nat} {root frame n : Nat} {v w : VirtAddr} {m m' : Memory}
  {p : PagePermissions}

def SameAt (m m' : Memory) (root : Nat) (v : VirtAddr) : Prop :=
  walkPageTable m' root v = walkPageTable m root v ∧ attributes m' root v = attributes m root v

def Unchanged (roots : Set Nat) (m m' : Memory) : Prop := ∀ root ∈ roots, ∀ v, SameAt m m' root v

/-- Only the page of `v` is translated in another way: in the space of `root`, or in all spaces when
it is one of the kernel. -/
def OnlyAt (roots : Set Nat) (root : Nat) (v : VirtAddr) (m m' : Memory) : Prop :=
  ∀ root' ∈ roots, ∀ w : VirtAddr, (w.page = v.page → root' ≠ root ∧ v.IsUser) → SameAt m m' root' w

structure Maps (roots : Set Nat) (root : Nat) (v : VirtAddr) (frame : Nat) (flags : Word)
    (m m' : Memory) : Prop where
  unmapped : walkPageTable m root v = .error .notPresent
  mapped : mapping m' root v = some (frame, flags)
  others : OnlyAt roots root v m m'

structure Unmaps (roots : Set Nat) (root : Nat) (v : VirtAddr) (page : UnmappedPage)
    (m m' : Memory) : Prop where
  mapped : mapping m root v = some (page.frame, page.entry &&& ~~~Bits.addr4k)
  unmapped : walkPageTable m' root v = .error .notPresent
  others : OnlyAt roots root v m m'

/-- An address leads to the same byte, and the same accesses are allowed, whatever its page is. -/
def SameAccess (m m' : Memory) (root : Nat) (v : VirtAddr) : Prop :=
  (walkPageTable m' root v).map Resolved.phys = (walkPageTable m root v).map Resolved.phys ∧
    attributes m' root v = attributes m root v

structure Starts (current root : Nat) (m m' : Memory) : Prop where
  user : ∀ v : VirtAddr, v.IsUser → walkPageTable m' root v = .error .notPresent
  kernel : ∀ v : VirtAddr, ¬v.IsUser → walkPageTable m' root v = walkPageTable m current v ∧
    attributes m' root v = attributes m current v

theorem SameAt.of_walk (same : walk m' v.index root = walk m v.index root) : SameAt m m' root v := by
  rw [SameAt, walkPageTable_eq, walkPageTable_eq, attributes, attributes, same]
  exact ⟨rfl, rfl⟩

theorem SameWalks.unchanged (same : SameWalks roots m m') : Unchanged roots m m' :=
  fun root mem v => .of_walk (same root mem v.index)

theorem Unchanged.refl (roots : Set Nat) (m : Memory) : Unchanged roots m m :=
  (SameWalks.refl roots m).unchanged

theorem walkPageTable_error {error : WalkError} (result : walk m v.index root = .error error) :
    walkPageTable m root v = .error error := by
  rw [walkPageTable_eq, result]
  rfl

theorem mapping_of_walk {found : Found} (result : walk m v.index root = .ok found)
    (small : found.huge = false) :
    mapping m root v = some (frameOf found.entry, found.entry &&& ~~~Bits.addr4k) := by
  have resolved : found.resolve v =
      ⟨pageAddress4k found.entry + (v.raw &&& 0xFFF), false, found.entry⟩ := by
    rw [Found.resolve, small, if_neg Bool.false_ne_true]
  have number : frameNumber (pageAddress4k found.entry + (v.raw &&& 0xFFF)) = frameOf found.entry := by
    rw [frameOf_eq, frameNumber, BitVec.toNat_add, toNat_pageAddress4k,
      toNat_offset v 12 0xFFF rfl (by decide)]
    omega
  rw [mapping, walkPageTable_eq, result]
  show some (frameNumber (found.resolve v).phys, _) = _
  rw [resolved, number]
  rfl

section PutsLeaf

variable {e : Word} (puts : PutsLeaf root v.index e n s t) (wf : WellFormed s roots)
  (mem : root ∈ roots)
include puts wf mem

theorem PutsLeaf.unmapped : walkPageTable s.memory root v = .error .notPresent := by
  have kept := puts.builds.kept wf mem
  refine walkPageTable_error ?_
  rw [← kept.same root mem v.index]
  exact walk_error puts.comes (ends_absent puts.absent)

theorem PutsLeaf.walk_here (present : isPresent e = true) :
    ∃ found, walk t.memory v.index root = .ok found ∧ found.huge = false ∧ found.entry = e := by
  have wf' := (puts.builds.kept wf mem).wellFormed
  rw [puts.result]
  have comes := (write_comes_iff (i := v.index 0) wf' puts.comes mem e mem).mpr puts.comes
  exact walk_ok comes ((write_walk_here _ _ e rfl).trans (ends_small present))

theorem PutsLeaf.others : OnlyAt roots root v s.memory t.memory := by
  have kept := puts.builds.kept wf mem
  intro root' mem' w other
  refine .of_walk ?_
  rw [puts.result, write_walk_other kept.wellFormed puts.comes mem e rfl mem' fun same => ?_,
    kept.same root' mem' w.index]
  exact other (page_eq_iff.mpr same)

theorem PutsLeaf.wellFormed (fits : Unused s roots (frameOf e)) : WellFormed t roots := by
  have kept := puts.builds.kept wf mem
  rw [puts.result]
  exact write_wellFormed kept.wellFormed puts.comes mem e fun _ _ => kept.unused _ fits

end PutsLeaf

theorem PutsLeaf.maps (puts : PutsLeaf root v.index (leafEntry (frameAddress frame) p .small) n s t)
    (wf : WellFormed s roots) (mem : root ∈ roots) (unused : Unused s roots frame) :
    WellFormed t roots ∧ Maps roots root v frame (leafFlags p .small) s.memory t.memory := by
  obtain ⟨found, result, small, entry⟩ := puts.walk_here wf mem (isPresent_leafEntry unused.low)
  refine ⟨puts.wellFormed wf mem (by rw [frameOf_leafEntry unused.low]; exact unused),
    puts.unmapped wf mem, ?_, puts.others wf mem⟩
  rw [mapping_of_walk result small, entry, frameOf_leafEntry unused.low, leafEntry_flags unused.low]

theorem Kept.unchanged (kept : Kept roots s t) :
    WellFormed t roots ∧ Unchanged roots s.memory t.memory :=
  ⟨kept.wellFormed, kept.same.unchanged⟩

theorem unmaps {pt : Nat} (wf : WellFormed s roots) (mem : root ∈ roots)
    (comes : Comes s.memory v.index root 0 pt) (present : isPresent (s.memory pt (v.index 0)) = true) :
    WellFormed (s.write pt (v.index 0) 0) roots ∧
      Unmaps roots root v ⟨frameOf (s.memory pt (v.index 0)), s.memory pt (v.index 0)⟩ s.memory
        (s.write pt (v.index 0) 0).memory := by
  obtain ⟨found, result, small, entry⟩ := walk_ok comes (ends_small present)
  rw [Found.leaf_huge] at small
  rw [Found.leaf_entry] at entry
  have after := (write_comes_iff (i := v.index 0) wf comes mem 0 mem).mpr comes
  refine ⟨write_wellFormed wf comes mem 0 fun _ impossible => ?_, ?_, ?_, fun root' mem' w other => ?_⟩
  · exact absurd (isPresent_zero.symm.trans impossible) Bool.false_ne_true
  · rw [mapping_of_walk result small, entry]
  · exact walkPageTable_error (walk_error after ((write_walk_here _ _ 0 rfl).trans (ends_zero 0)))
  · exact .of_walk (write_walk_other wf comes mem 0 rfl mem' fun same =>
      other (page_eq_iff.mpr same))

/-! ## Splitting a page of 2 MiB -/

/-- The outcome of a walk, or the part of it for the index at the lowest height. -/
def SplitFrom (path : Path) (after before : Except WalkError Found) : Prop :=
  after = before ∨ ∃ f' f : Found, after = .ok f' ∧ before = .ok f ∧ f.huge = true ∧ f'.huge = false ∧
    f'.entry = splitChildEntry f.entry (path 0) ∧ f'.write = f.write ∧ f'.user = f.user ∧
    f'.execute = f.execute

theorem SplitFrom.below {path : Path} {r' r : Except WalkError Found} (split : SplitFrom path r' r)
    (e : Word) : SplitFrom path (r'.map (Found.below e)) (r.map (Found.below e)) := by
  rcases split with rfl | ⟨f', f, rfl, rfl, huge, small, entry, write, user, execute⟩
  · exact .inl rfl
  · refine .inr ⟨f'.below e, f.below e, rfl, rfl, huge, small, entry, ?_, ?_, ?_⟩
    · exact congrArg (isWritable e && ·) write
    · exact congrArg (isUser e && ·) user
    · exact congrArg (isExecutable e && ·) execute

section Child

variable (e : Word) (i : Index)

theorem splitChildEntry_flag {b : Nat} (inside : b < 64) (outside : b < 12 ∨ 52 ≤ b)
    (other : b ≠ 5 ∧ b ≠ 6 ∧ b ≠ 7) :
    (splitChildEntry e i &&& BitVec.twoPow 64 b != 0) = (e &&& BitVec.twoPow 64 b != 0) := by
  rw [and_twoPow_ne _ _ inside, and_twoPow_ne _ _ inside, getLsbD_splitChildEntry e i.isLt outside inside,
    if_neg other.2.2, if_neg (by omega)]

theorem splitChildEntry_pat :
    (splitChildEntry e i &&& Bits.pat != 0) = (e &&& Bits.hugePat != 0) := by
  have moved : (splitChildEntry e i &&& BitVec.twoPow 64 7 != 0) = _ :=
    and_twoPow_ne _ _ (by decide)
  rw [getLsbD_splitChildEntry e i.isLt (by decide) (by decide), if_pos rfl] at moved
  exact moved.trans (and_twoPow_ne e 12 (by decide)).symm

theorem isExecutable_splitChildEntry : isExecutable (splitChildEntry e i) = isExecutable e := by
  have flag : (splitChildEntry e i &&& Bits.noExecute != 0) = (e &&& Bits.noExecute != 0) :=
    splitChildEntry_flag e i (b := 63) (by decide) (by decide) (by decide)
  exact Bool.not_inj flag

theorem split_phys (v : VirtAddr) :
    pageAddress4k (splitChildEntry e (v.index 0)) + (v.raw &&& 0xFFF) =
      pageAddress2m e + (v.raw &&& 0x1FFFFF) := by
  rw [pageAddress4k_splitChildEntry e (v.index 0).isLt, BitVec.add_assoc]
  congr 1
  rw [← BitVec.toNat_inj, BitVec.toNat_add, BitVec.toNat_ofNat, toNat_offset v 12 0xFFF rfl (by decide),
    toNat_offset v 21 0x1FFFFF rfl (by decide), index_val]
  have := v.raw.isLt
  omega

end Child

theorem SplitFrom.sameAccess (split : SplitFrom v.index (walk m' v.index root) (walk m v.index root)) :
    SameAccess m m' root v := by
  rw [SameAccess, walkPageTable_eq, walkPageTable_eq, attributes, attributes]
  rcases split with same | ⟨f', f, after, before, huge, small, entry, write, user, execute⟩
  · rw [same]
    exact ⟨rfl, rfl⟩
  · rw [after, before]
    have phys : (f'.resolve v).phys = (f.resolve v).phys := by
      rw [Found.resolve, Found.resolve, small, huge, if_neg Bool.false_ne_true, if_pos rfl, entry]
      exact split_phys f.entry v
    have through : (f'.entry &&& Bits.pwt != 0) = (f.entry &&& Bits.pwt != 0) := by
      rw [entry]
      exact splitChildEntry_flag f.entry _ (b := 3) (by decide) (by decide) (by decide)
    have disabled : (f'.entry &&& Bits.pcd != 0) = (f.entry &&& Bits.pcd != 0) := by
      rw [entry]
      exact splitChildEntry_flag f.entry _ (b := 4) (by decide) (by decide) (by decide)
    have pat : (f'.entry &&& Bits.pat != 0) = (f.entry &&& Bits.hugePat != 0) := by
      rw [entry]
      exact splitChildEntry_pat f.entry _
    refine ⟨congrArg Except.ok phys, congrArg Except.ok ?_⟩
    rw [Found.attributes, Found.attributes, small, huge, if_neg Bool.false_ne_true, if_pos rfl, write,
      user, execute, through, disabled, pat]

theorem SplitFrom.covers {path : Path} {f' : Found} {r : Except WalkError Found} {frame : Nat}
    (split : SplitFrom path (.ok f') r) (covers : f'.Covers frame) :
    ∃ f, r = .ok f ∧ f.Covers frame := by
  rcases split with rfl | ⟨f'', f, eq, rfl, huge, small, entry, -⟩
  · exact ⟨f', rfl, covers⟩
  · obtain rfl := Except.ok.inj eq
    refine ⟨f, rfl, ?_⟩
    rw [Found.Covers, small, if_neg Bool.false_ne_true, entry, frameOf,
      pageAddress4k_splitChildEntry f.entry (path 0).isLt] at covers
    rw [Found.Covers, huge, if_pos rfl, covers, frameNumber, frameNumber, BitVec.toNat_add,
      toNat_pageAddress2m, BitVec.toNat_ofNat]
    have := (path 0).isLt
    omega

theorem tableEntryForSplit_flags (e : Word) {fresh : Nat} (low : fresh < 2 ^ 40) :
    isPresent (tableEntryForSplit e (frameAddress fresh)) = true ∧
    isHuge (tableEntryForSplit e (frameAddress fresh)) = false ∧
    isWritable (tableEntryForSplit e (frameAddress fresh)) = true ∧
    isExecutable (tableEntryForSplit e (frameAddress fresh)) = true ∧
    isUser (tableEntryForSplit e (frameAddress fresh)) = isUser e ∧
    frameOf (tableEntryForSplit e (frameAddress fresh)) = fresh := by
  have aligned := aligned_frameAddress low
  have flagOf {b : Nat} (inside : b < 64) (outside : b < 12 ∨ 52 ≤ b) :
      (tableEntryForSplit e (frameAddress fresh) &&& BitVec.twoPow 64 b != 0) =
        (tableFlagsFor (isUser e)).getLsbD b := by
    rw [and_twoPow_ne _ _ inside, tableEntryForSplit, aligned.address]
    exact getLsbD_or aligned outside
  have bit (user : Bool) : (tableFlagsFor user).getLsbD 0 = true ∧
      (tableFlagsFor user).getLsbD 7 = false ∧ (tableFlagsFor user).getLsbD 1 = true ∧
      (tableFlagsFor user).getLsbD 63 = false ∧ (tableFlagsFor user).getLsbD 2 = user := by
    cases user <;> decide
  obtain ⟨bit0, bit7, bit1, bit63, bit2⟩ := bit (isUser e)
  refine ⟨(flagOf (b := 0) (by decide) (by decide)).trans bit0,
    (flagOf (b := 7) (by decide) (by decide)).trans bit7,
    (flagOf (b := 1) (by decide) (by decide)).trans bit1, ?_,
    (flagOf (b := 2) (by decide) (by decide)).trans bit2, ?_⟩
  · have set := (flagOf (b := 63) (by decide) (by decide)).trans bit63
    exact Bool.not_inj (set.trans rfl)
  · rw [tableEntryForSplit, aligned.address]
    exact frameOf_or low (pageAddress4k_tableFlagsFor _)

theorem splits {pd fresh : Nat} {e : Word} {a : FrameAllocator} (wf : WellFormed s roots)
    (mem : root ∈ roots) (comes : Comes s.memory v.index root 1 pd) (entry : s.memory pd (v.index 1) = e)
    (present : isPresent e = true) (huge : isHuge e = true)
    (taken : s.allocator.allocateFrame = (some fresh, a)) (u : Physical)
    (result : u = s.graft a fresh (fun i => splitChildEntry e i) pd (v.index 1)
      (tableEntryForSplit e (frameAddress fresh))) :
    WellFormed u roots ∧ ∀ root' ∈ roots, ∀ w, SameAccess s.memory u.memory root' w := by
  have was := (FrameAllocator.allocateFrame_free wf.sound.tidy taken).1
  have low := wf.sound.low fresh was
  have ne : pd ≠ fresh := wf.clear was mem _ _ comes
  obtain ⟨presentTable, hugeTable, writeTable, executeTable, userTable, frameTable⟩ :=
    tableEntryForSplit_flags e low
  have leads : link 1 (tableEntryForSplit e (frameAddress fresh)) = some fresh :=
    link_eq_some.mpr ⟨presentTable, .inr hugeTable, frameTable.symm⟩
  have before : link 1 (s.memory pd (v.index 1)) = none := by
    rw [entry]
    exact link_eq_none.mpr (.inr ⟨by decide, huge⟩)
  have grafts : Grafts s u pd (v.index 1) 0 fresh := result ▸
    grafts_of_taken wf.sound taken ne before leads fun k impossible => by cases impossible
  have there : u.memory pd (v.index 1) = tableEntryForSplit e (frameAddress fresh) := by
    rw [result, Physical.graft, Physical.write_self]
  have children (i : Index) : u.memory fresh i = splitChildEntry e i := by
    rw [result, Physical.graft, Physical.write_other _ _ _ _ (.inl ne.symm), Physical.fill_self]
  have split : ∀ root' ∈ roots, ∀ path, SplitFrom path (walk u.memory path root') (walk s.memory path root') := by
    intro root' mem' path
    refine grafts.walk_rel wf comes mem (fun _ => .inl rfl) (fun e _ _ split => split.below e) mem' ?_
    intro _ index
    have presentChild : isPresent (splitChildEntry e (path 0)) = true :=
      (splitChildEntry_flag e (path 0) (b := 0) (by decide) (by decide) (by decide)).trans present
    rw [Radix.walk_some (by rw [index, there]; exact leads), Radix.walk_none (by rw [index]; exact before),
      index, there, entry, tree_walk_zero, children, ends_small presentChild]
    refine .inr ⟨_, _, rfl, ends_huge present, rfl, rfl, rfl, ?_, ?_, ?_⟩
    · show (isWritable (tableEntryForSplit _ _) && isWritable (splitChildEntry _ _)) = isWritable e
      rw [writeTable, Bool.true_and]
      exact splitChildEntry_flag e (path 0) (b := 1) (by decide) (by decide) (by decide)
    · show (isUser (tableEntryForSplit _ _) && isUser (splitChildEntry _ _)) = isUser e
      have same : isUser (splitChildEntry e (path 0)) = isUser e :=
        splitChildEntry_flag e (path 0) (b := 2) (by decide) (by decide) (by decide)
      rw [userTable, same, Bool.and_self]
    · show (isExecutable (tableEntryForSplit _ _) && isExecutable (splitChildEntry _ _)) = isExecutable e
      rw [executeTable, Bool.true_and, isExecutable_splitChildEntry]
  refine ⟨grafts.wellFormed wf comes mem rfl ?_, fun root' mem' w => (split root' mem' w.index).sameAccess⟩
  rintro f ⟨root', mem', path, user, found, result, covers⟩
  have part := split root' mem' path
  rw [result] at part
  obtain ⟨found', result', covers'⟩ := part.covers covers
  exact ⟨root', mem', path, user, found', result', covers'⟩

end Zaytos.Kernel.Paging
