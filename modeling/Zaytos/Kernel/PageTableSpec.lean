import Zaytos.Kernel.PageTree

set_option autoImplicit false

/-! What a single change of the page tables does to the walks of all spaces. A change hangs a table
below an entry that led nowhere, or it writes an entry of the lowest height. -/
namespace Zaytos.Kernel.Paging

variable {s t : Physical} {roots : Set Nat} {root table fresh h : Nat} {i : Index} {path : Path}

def SameWalks (roots : Set Nat) (m m' : Memory) : Prop :=
  ∀ root ∈ roots, ∀ path, walk m' path root = walk m path root

theorem SameWalks.refl (roots : Set Nat) (m : Memory) : SameWalks roots m m := fun _ _ _ => rfl

variable {m m' : Memory} {path' : Path} {root' k u n : Nat}

theorem SameWalks.trans {m'' : Memory} (first : SameWalks roots m m')
    (second : SameWalks roots m' m'') : SameWalks roots m m'' :=
  fun root mem path => (second root mem path).trans (first root mem path)

theorem SameWalks.targets {f : Nat} (same : SameWalks roots m m')
    (targets : Targets m' roots f) : Targets m roots f := by
  obtain ⟨root, mem, path, user, found, result, covers⟩ := targets
  exact ⟨root, mem, path, user, found, (same root mem path) ▸ result, covers⟩

/-- A table that was free hangs below an entry that led nowhere, and no table hangs below it. -/
structure Grafts (s t : Physical) (table : Nat) (i : Index) (h fresh : Nat) : Prop where
  edit : Radix.Edit s.memory t.memory table i (· = fresh)
  before : link (h + 1) (s.memory table i) = none
  after : link (h + 1) (t.memory table i) = some fresh
  lowest : ∀ k, h = k + 1 → ∀ j, link h (t.memory fresh j) = none
  was : fresh ∈ s.allocator.free
  free : ∀ f, f ∈ t.allocator.free ↔ f ∈ s.allocator.free ∧ f ≠ fresh
  sound : t.allocator.Sound

namespace WellFormed

variable (wf : WellFormed s roots)
include wf

theorem clear (was : fresh ∈ s.allocator.free) (mem : root ∈ roots) (k u : Nat)
    (comes : Comes s.memory path root k u) : ¬u = fresh := by
  rintro rfl
  exact wf.taken ⟨root, mem, path, k, comes⟩ was

end WellFormed

namespace Grafts

variable (graft : Grafts s t table i h fresh) (wf : WellFormed s roots)
  (comes : Comes s.memory path root (h + 1) table) (mem : root ∈ roots) (index : path (h + 1) = i)
include graft wf comes mem

theorem comes_cases (mem' : root' ∈ roots) (after : Comes t.memory path' root' k u) :
    Comes s.memory path' root' k u ∨
      u = fresh ∧ k = h ∧ Comes s.memory path' root' (h + 1) table ∧ path' (h + 1) = i := by
  rcases graft.edit.leads_cases (wf.clear graft.was mem') after with
    before | ⟨j, le, through, there, child, linked, rest⟩
  · exact .inl before
  · obtain rfl : h = j := Nat.succ.inj (wf.once mem mem' comes through).1
    obtain rfl := Option.some.inj (graft.after.symm.trans linked)
    refine .inr ?_
    -- No table hangs below the new one.
    cases rest with
    | here => exact ⟨rfl, rfl, through, there⟩
    | down further _ =>
      rw [tree_link, graft.lowest _ rfl] at further
      cases further

include index

theorem comes_fresh : Comes t.memory path root h fresh := by
  have stays : Comes t.memory path root (h + 1) table := by
    refine graft.edit.leads (wf.clear graft.was mem) comes fun j above through => ?_
    have := (wf.once mem mem comes through).1
    omega
  exact stays.child (by rw [index]; exact graft.after)

theorem wellFormed
    (targets : ∀ f, Targets t.memory roots f → Targets s.memory roots f) : WellFormed t roots where
  sound := graft.sound
  once := by
    intro root' root'' mem' mem'' path' path'' k k' u comes' comes''
    rcases graft.comes_cases wf comes mem mem' comes' with old | ⟨rfl, rfl, old, index'⟩
    · rcases graft.comes_cases wf comes mem mem'' comes'' with old' | ⟨rfl, rfl, old', index'⟩
      · exact wf.once mem' mem'' old old'
      · exact absurd rfl (wf.clear graft.was mem' k u old)
    · rcases graft.comes_cases wf comes mem mem'' comes'' with old' | ⟨-, rfl, old', index''⟩
      · exact absurd rfl (wf.clear graft.was mem'' k' u old')
      · obtain ⟨-, above, same⟩ := wf.once mem' mem'' old old'
        refine ⟨rfl, fun j low high => ?_, same.imp_right fun kernel => ⟨by omega, kernel.2⟩⟩
        rcases Nat.eq_or_lt_of_le (Nat.succ_le_of_lt low) with rfl | higher
        · exact index'.trans index''.symm
        · exact above j higher high
  taken := by
    rintro u ⟨root', mem', path', k, comes'⟩ isFree
    obtain ⟨wasFree, ne⟩ := (graft.free u).mp isFree
    rcases graft.comes_cases wf comes mem mem' comes' with old | ⟨eq, -⟩
    · exact wf.taken ⟨root', mem', path', k, old⟩ wasFree
    · exact ne eq
  apart := by
    intro f target
    obtain ⟨noTable, notFree⟩ := wf.apart (targets f target)
    refine ⟨?_, fun isFree => notFree ((graft.free f).mp isFree).1⟩
    rintro ⟨root', mem', path', k, comes'⟩
    rcases graft.comes_cases wf comes mem mem' comes' with old | ⟨rfl, -⟩
    · exact noTable ⟨root', mem', path', k, old⟩
    · exact notFree graft.was

omit index

theorem unused {f : Nat} (unused : Unused s roots f) : Unused t roots f := by
  refine ⟨unused.low, fun isFree => unused.taken ((graft.free f).mp isFree).1, ?_⟩
  rintro ⟨root', mem', path', k, comes'⟩
  rcases graft.comes_cases wf comes mem mem' comes' with old | ⟨rfl, -⟩
  · exact unused.noTable ⟨root', mem', path', k, old⟩
  · exact unused.taken graft.was

theorem walk_rel {rel : Except WalkError Found → Except WalkError Found → Prop}
    (refl : ∀ r, rel r r)
    (up : ∀ e r r', rel r r' → rel (r.map (Found.below e)) (r'.map (Found.below e)))
    {root' : Nat} (mem' : root' ∈ roots) {path' : Path}
    (there : Comes s.memory path' root' (h + 1) table → path' (h + 1) = i →
      rel (tree.walk t.memory path' (h + 1) table) (tree.walk s.memory path' (h + 1) table)) :
    rel (walk t.memory path' root') (walk s.memory path' root') := by
  refine graft.edit.walk_rel refl (fun _ => up) (wf.clear graft.was mem') fun k through index' => ?_
  obtain rfl : h + 1 = k := (wf.once mem mem' comes through).1
  exact there through index'

end Grafts

structure GrowsBy (s t : Physical) (table : Nat) (i : Index) (h fresh : Nat) : Prop
    extends Grafts s t table i h fresh where
  absent : isPresent (s.memory table i) = false
  empty : ∀ j, t.memory fresh j = 0

theorem GrowsBy.sameWalks (grows : GrowsBy s t table i h fresh) (wf : WellFormed s roots)
    (comes : Comes s.memory path root (h + 1) table) (mem : root ∈ roots) :
    SameWalks roots s.memory t.memory := by
  intro root' mem' path'
  refine grows.walk_rel wf comes mem (fun _ => Eq.refl _) (fun e _ _ => congrArg _) mem'
    fun through index' => ?_
  rw [Radix.walk_some (by rw [index']; exact grows.after), walk_zero grows.empty,
    Radix.walk_none (by rw [index']; exact grows.before), index']
  exact (ends_absent grows.absent).symm

def Physical.graft (s : Physical) (a : FrameAllocator) (fresh : Nat) (entries : Index → Word)
    (table : Nat) (i : Index) (e : Word) : Physical :=
  (({ s with allocator := a } : Physical).fill fresh entries).write table i e

section Taken

variable {a : FrameAllocator} {entries : Index → Word} {e : Word} (sound : s.allocator.Sound)
  (taken : s.allocator.allocateFrame = (some fresh, a)) (ne : table ≠ fresh)
include sound taken ne

theorem grafts_of_taken (before : link (h + 1) (s.memory table i) = none)
    (after : link (h + 1) e = some fresh) (lowest : ∀ k, h = k + 1 → ∀ j, link h (entries j) = none) :
    Grafts s (s.graft a fresh entries table i e) table i h fresh := by
  obtain ⟨was, free⟩ := FrameAllocator.allocateFrame_free sound.tidy taken
  have filled (u : Nat) (j : Index) (other : u ≠ table ∨ j ≠ i) :
      (s.graft a fresh entries table i e).memory u j =
        (({ s with allocator := a } : Physical).fill fresh entries).memory u j :=
    Physical.write_other _ _ _ _ other
  refine ⟨⟨fun u j other notFresh => ?_⟩, before, ?_, fun k eq j => ?_, was, free,
    (FrameAllocator.allocateFrame_some sound.tidy taken).1.sound sound⟩
  · rw [filled u j other, Physical.fill_other _ _ _ notFresh]
  · rw [Physical.graft, Physical.write_self]
    exact after
  · rw [filled fresh j (.inl ne.symm), Physical.fill_self]
    exact lowest k eq j

theorem growsBy_of_taken {p : PagePermissions} (absent : isPresent (s.memory table i) = false) :
    GrowsBy s (s.graft a fresh (fun _ => 0) table i (tableEntry (frameAddress fresh) p))
      table i h fresh := by
  have low := sound.low fresh (FrameAllocator.allocateFrame_free sound.tidy taken).1
  have leads : link (h + 1) (tableEntry (frameAddress fresh) p) = some fresh :=
    link_eq_some.mpr ⟨isPresent_tableEntry low, .inr (isHuge_tableEntry low),
      (frameOf_tableEntry low).symm⟩
  refine ⟨grafts_of_taken sound taken ne (link_eq_none.mpr (.inl absent)) leads
    fun k _ _ => link_zero h, absent, fun j => ?_⟩
  rw [Physical.graft, Physical.write_other _ _ _ _ (.inl ne.symm), Physical.fill_self]

end Taken

theorem edit_write (s : Physical) (table : Nat) (i : Index) (e : Word) :
    Radix.Edit s.memory (s.write table i e).memory table i fun _ => False :=
  ⟨fun _ _ other _ => s.write_other table i e other⟩

theorem write_walk_here (s : Physical) (table : Nat) (e : Word) (index : path 0 = i) :
    tree.walk (s.write table i e).memory path 0 table = ends 0 e := by
  rw [tree_walk_zero, index, Physical.write_self]

section Leaf

variable (wf : WellFormed s roots) (comes : Comes s.memory path root 0 table) (mem : root ∈ roots)
  (e : Word)
include wf comes mem

theorem write_comes_iff (mem' : root' ∈ roots) :
    Comes (s.write table i e).memory path' root' k u ↔ Comes s.memory path' root' k u := by
  constructor
  · intro after
    rcases (edit_write s table i e).leads_cases (fun _ _ _ => id) after with
      before | ⟨j, -, through, -⟩
    · exact before
    · have := (wf.once mem mem' comes through).1
      omega
  · intro before
    refine (edit_write s table i e).leads (fun _ _ _ => id) before fun j above through => ?_
    have := (wf.once mem mem' comes through).1
    omega

theorem write_walk_other (index : path 0 = i) (mem' : root' ∈ roots)
    (other : (∀ k, k ≤ 3 → path' k = path k) → root' ≠ root ∧ ¬IsKernel path) :
    walk (s.write table i e).memory path' root' = walk s.memory path' root' := by
  refine (edit_write s table i e).walk (fun _ _ _ => id) fun k through index' => ?_
  obtain ⟨rfl, above, same⟩ := wf.once mem mem' comes through
  obtain ⟨ne, user⟩ := other fun k le => by
    rcases Nat.eq_zero_or_pos k with rfl | positive
    · exact index'.trans index.symm
    · exact (above k positive le).symm
  rcases same with eq | ⟨-, kernel⟩
  · exact absurd eq.symm ne
  · exact absurd kernel user

theorem write_wellFormed
    (fits : ¬IsKernel path → isPresent e = true → Unused s roots (frameOf e)) :
    WellFormed (s.write table i e) roots where
  sound := wf.sound
  once := by
    intro root' root'' mem' mem'' path' path'' k k' u comes' comes''
    exact wf.once mem' mem'' ((write_comes_iff wf comes mem e mem').mp comes')
      ((write_comes_iff wf comes mem e mem'').mp comes'')
  taken := by
    rintro u ⟨root', mem', path', k, comes'⟩
    exact wf.taken ⟨root', mem', path', k, (write_comes_iff wf comes mem e mem').mp comes'⟩
  apart := by
    rintro f ⟨root', mem', path', user, found, result, covers⟩
    have noTable : ¬Reaches s.memory roots f → ¬Reaches (s.write table i e).memory roots f := by
      rintro none ⟨root'', mem'', path'', k, comes''⟩
      exact none ⟨root'', mem'', path'', k, (write_comes_iff wf comes mem e mem'').mp comes''⟩
    by_cases there : Comes s.memory path' root' 0 table ∧ path' 0 = i
    · obtain ⟨through, index'⟩ := there
      have comesAfter := (write_comes_iff wf comes mem e (i := i) mem').mpr through
      have here := write_walk_here s table e index'
      have user' : ¬IsKernel path := by
        rw [IsKernel, (wf.once mem mem' comes through).2.1 3 (by decide) le_rfl]
        exact user
      cases present : isPresent e with
      | false =>
        rw [ends_absent present] at here
        rw [walk_error comesAfter here] at result
        cases result
      | true =>
        rw [ends_small present] at here
        obtain ⟨whole, result', huge, entry⟩ := walk_ok comesAfter here
        obtain rfl := Except.ok.inj (result'.symm.trans result)
        rw [Found.Covers, huge, Found.leaf_huge, if_neg Bool.false_ne_true, entry,
          Found.leaf_entry] at covers
        obtain rfl : f = frameOf e := covers
        have unused := fits user' present
        exact ⟨noTable unused.noTable, unused.taken⟩
    · have same : walk (s.write table i e).memory path' root' = walk s.memory path' root' := by
        refine (edit_write s table i e).walk (fun _ _ _ => id) fun k through index' => ?_
        obtain rfl := (wf.once mem mem' comes through).1
        exact absurd ⟨through, index'⟩ there
      obtain ⟨before, notFree⟩ := wf.apart ⟨root', mem', path', user, found, same ▸ result, covers⟩
      exact ⟨noTable before, notFree⟩

end Leaf

/-- What tables that are put in do to well-formed spaces: nothing that a walk could see. -/
structure Kept (roots : Set Nat) (s t : Physical) : Prop where
  wellFormed : WellFormed t roots
  same : SameWalks roots s.memory t.memory
  unused : ∀ f, Unused s roots f → Unused t roots f

theorem Kept.refl (wf : WellFormed s roots) : Kept roots s s := ⟨wf, .refl _ _, fun _ => id⟩

theorem Kept.trans {u : Physical} (first : Kept roots s t) (second : Kept roots t u) : Kept roots s u :=
  ⟨second.wellFormed, first.same.trans second.same, fun f unused =>
    second.unused f (first.unused f unused)⟩

theorem Kept.spare (wf : WellFormed s roots) {a : FrameAllocator} (sound : a.Sound)
    (fewer : ∀ f ∈ a.free, f ∈ s.allocator.free) : Kept roots s { s with allocator := a } where
  wellFormed :=
    { sound := sound
      once := wf.once
      taken := fun reaches isFree => wf.taken reaches (fewer _ isFree)
      apart := fun targets => ⟨(wf.apart targets).1, fun isFree => (wf.apart targets).2 (fewer _ isFree)⟩ }
  same := .refl _ _
  unused _ unused := ⟨unused.low, fun isFree => unused.taken (fewer _ isFree), unused.noTable⟩

theorem GrowsBy.kept (grows : GrowsBy s t table i h fresh) (wf : WellFormed s roots)
    (comes : Comes s.memory path root (h + 1) table) (mem : root ∈ roots) (index : path (h + 1) = i) :
    Kept roots s t :=
  have same := grows.sameWalks wf comes mem
  ⟨grows.wellFormed wf comes mem index fun _ => same.targets, same, fun _ =>
    grows.toGrafts.unused wf comes mem⟩

/-- Tables are put in on the way of an address, one below the other. The number tells how many. -/
inductive Builds (root : Nat) (path : Path) : Nat → Physical → Physical → Prop
  | refl (s : Physical) : Builds root path 0 s s
  | grow {n table h fresh : Nat} {s t u : Physical} (before : Builds root path n s t)
      (comes : Comes t.memory path root (h + 1) table)
      (grows : GrowsBy t u table (path (h + 1)) h fresh) : Builds root path (n + 1) s u

theorem Builds.trans {u : Physical} (first : Builds root path n s t)
    (second : Builds root path k t u) : Builds root path (n + k) s u := by
  induction second with
  | refl => exact first
  | grow _ comes grows ih => exact (ih first).grow comes grows

theorem Builds.kept (builds : Builds root path n s t) (wf : WellFormed s roots)
    (mem : root ∈ roots) : Kept roots s t := by
  induction builds with
  | refl => exact .refl wf
  | grow _ comes grows ih =>
    have before := ih wf
    exact before.trans (grows.kept before.wellFormed comes mem rfl)

end Zaytos.Kernel.Paging
