import Zaytos.Kernel.FrameSpec
import Zaytos.Kernel.PageTables

set_option autoImplicit false

/-! The tables of the address spaces as trees: what a walk comes to, and what keeps the walks of
different spaces apart. -/
namespace Zaytos.Kernel.Paging

def isWritable (entry : Word) : Bool := entry &&& Bits.writable != 0
def isUser (entry : Word) : Bool := entry &&& Bits.user != 0
def isExecutable (entry : Word) : Bool := entry &&& Bits.noExecute == 0

structure Found where
  huge : Bool
  entry : Word
  write : Bool
  user : Bool
  execute : Bool
  deriving DecidableEq, Repr

namespace Found

def leaf (huge : Bool) (entry : Word) : Found :=
  ⟨huge, entry, isWritable entry, isUser entry, isExecutable entry⟩

@[simp] theorem leaf_huge (huge : Bool) (entry : Word) : (leaf huge entry).huge = huge := rfl
@[simp] theorem leaf_entry (huge : Bool) (entry : Word) : (leaf huge entry).entry = entry := rfl

def below (entry : Word) (f : Found) : Found :=
  { f with
    write := isWritable entry && f.write
    user := isUser entry && f.user
    execute := isExecutable entry && f.execute }

def resolve (v : VirtAddr) (f : Found) : Resolved :=
  if f.huge then ⟨pageAddress2m f.entry + (v.raw &&& 0x1FFFFF), true, f.entry⟩
  else ⟨pageAddress4k f.entry + (v.raw &&& 0xFFF), false, f.entry⟩

def Covers (f : Found) (frame : Nat) : Prop :=
  if f.huge then
    frameNumber (pageAddress2m f.entry) ≤ frame ∧ frame < frameNumber (pageAddress2m f.entry) + 512
  else frame = frameOf f.entry

end Found

structure Attributes where
  write : Bool
  user : Bool
  execute : Bool
  writeThrough : Bool
  cacheDisabled : Bool
  pat : Bool
  deriving DecidableEq, Repr

def Found.attributes (f : Found) : Attributes where
  write := f.write
  user := f.user
  execute := f.execute
  writeThrough := f.entry &&& Bits.pwt != 0
  cacheDisabled := f.entry &&& Bits.pcd != 0
  pat := if f.huge then f.entry &&& Bits.hugePat != 0 else f.entry &&& Bits.pat != 0

/-- The table that an entry leads to. At the top the bit of a huge page has no meaning. -/
def link (height : Nat) (entry : Word) : Option Nat :=
  if isPresent entry = false then none
  else if height ≠ 3 ∧ isHuge entry then none
  else some (frameOf entry)

def ends (height : Nat) (entry : Word) : Except WalkError Found :=
  if isPresent entry = false then .error .notPresent
  else if height = 0 then .ok (.leaf false entry)
  else if height = 1 then .ok (.leaf true entry)
  else .error .giantPage

def tree : Radix Word (Except WalkError Found) where
  link := link
  read := ends
  pass _ entry := Except.map (Found.below entry)

abbrev Path := Nat → Index

abbrev walk (m : Memory) (path : Path) (root : Nat) : Except WalkError Found :=
  tree.walk m path 3 root

abbrev Comes (m : Memory) (path : Path) (root height table : Nat) : Prop :=
  tree.Leads m path 3 root height table

def attributes (m : Memory) (root : Nat) (v : VirtAddr) : Except WalkError Attributes :=
  (walk m v.index root).map Found.attributes

/-- The frame that the page of an address is mapped to, and the flags of the leaf. -/
def mapping (m : Memory) (root : Nat) (v : VirtAddr) : Option (Nat × Word) :=
  match walkPageTable m root v with
  | .error _ => none
  | .ok r => some (frameNumber r.phys,
      r.entry &&& ~~~(if r.huge then Bits.addr2m else Bits.addr4k))

def IsKernel (path : Path) : Prop := kernelPml4FirstIndex ≤ (path 3).val

def Reaches (m : Memory) (roots : Set Nat) (table : Nat) : Prop :=
  ∃ root ∈ roots, ∃ path height, Comes m path root height table

def Targets (m : Memory) (roots : Set Nat) (frame : Nat) : Prop :=
  ∃ root ∈ roots, ∃ path, ¬IsKernel path ∧ ∃ found, walk m path root = .ok found ∧ found.Covers frame

/-- The tables of the spaces of `roots` are trees. -/
structure WellFormed (s : Physical) (roots : Set Nat) : Prop where
  sound : s.allocator.Sound
  once : ∀ {root root' : Nat}, root ∈ roots → root' ∈ roots → ∀ {path path' : Path} {h h' t : Nat},
    Comes s.memory path root h t → Comes s.memory path' root' h' t →
    h = h' ∧ (∀ i, h < i → i ≤ 3 → path i = path' i) ∧ (root = root' ∨ h < 3 ∧ IsKernel path)
  taken : ∀ {t : Nat}, Reaches s.memory roots t → t ∉ s.allocator.free
  apart : ∀ {f : Nat}, Targets s.memory roots f → ¬Reaches s.memory roots f ∧ f ∉ s.allocator.free

structure Unused (s : Physical) (roots : Set Nat) (frame : Nat) : Prop where
  low : frame < 2 ^ 40
  taken : frame ∉ s.allocator.free
  noTable : ¬Reaches s.memory roots frame

section Walk

variable {m : Memory} {root h t u : Nat} {path : Path} {e : Word}

theorem tree_link (h : Nat) (e : Word) : tree.link h e = link h e := rfl

theorem link_eq_some : link h e = some u ↔ isPresent e = true ∧ (h = 3 ∨ isHuge e = false) ∧ u = frameOf e := by
  rw [link]
  cases isPresent e <;> cases isHuge e <;> by_cases top : h = 3 <;> simp [top, eq_comm]

theorem link_eq_none : link h e = none ↔ isPresent e = false ∨ (h ≠ 3 ∧ isHuge e = true) := by
  rw [link]
  cases isPresent e <;> cases isHuge e <;> by_cases top : h = 3 <;> simp [top]

theorem isPresent_zero : isPresent 0 = false := by decide

@[simp] theorem link_zero (h : Nat) : link h 0 = none := link_eq_none.mpr (.inl isPresent_zero)

theorem ends_absent (absent : isPresent e = false) : ends h e = .error .notPresent := if_pos absent

@[simp] theorem ends_zero (h : Nat) : ends h 0 = .error .notPresent := ends_absent isPresent_zero

theorem ends_small (present : isPresent e = true) : ends 0 e = .ok (.leaf false e) := by
  rw [ends, if_neg (by rw [present]; decide), if_pos rfl]

theorem ends_huge (present : isPresent e = true) : ends 1 e = .ok (.leaf true e) := by
  rw [ends, if_neg (by rw [present]; decide), if_neg (by decide), if_pos rfl]

theorem ends_giant (present : isPresent e = true) : ends 2 e = .error .giantPage := by
  rw [ends, if_neg (by rw [present]; decide), if_neg (by decide), if_neg (by decide)]

theorem tree_walk_zero (t : Nat) : tree.walk m path 0 t = ends 0 (m t (path 0)) := rfl

theorem walk_zero (empty : ∀ i, m t i = 0) (h : Nat) :
    tree.walk m path h t = .error .notPresent := by
  cases h with
  | zero =>
    rw [Radix.walk, empty]
    exact ends_zero 0
  | succ h =>
    have last : tree.link (h + 1) (m t (path (h + 1))) = none := by
      rw [empty]
      exact link_zero (h + 1)
    rw [Radix.walk_none last, empty]
    exact ends_zero (h + 1)

theorem comes_root (m : Memory) (path : Path) (root : Nat) : Comes m path root 3 root := .here 3 root

theorem walk_error {error : WalkError} (comes : Comes m path root h t)
    (here : tree.walk m path h t = .error error) : walk m path root = .error error := by
  have kept : (walk m path root).map (fun _ => ()) = _ :=
    comes.walk_view fun _ e r => by cases r <;> rfl
  rw [here] at kept
  cases result : walk m path root with
  | error e =>
    rw [result] at kept
    exact congrArg _ (Except.error.inj kept)
  | ok f =>
    rw [result] at kept
    cases kept

theorem walk_ok {found : Found} (comes : Comes m path root h t)
    (here : tree.walk m path h t = .ok found) :
    ∃ whole, walk m path root = .ok whole ∧ whole.huge = found.huge ∧ whole.entry = found.entry := by
  have kept : (walk m path root).map (fun f => (f.huge, f.entry)) = _ :=
    comes.walk_view fun _ e r => by cases r <;> rfl
  rw [here] at kept
  cases result : walk m path root with
  | error e =>
    rw [result] at kept
    cases kept
  | ok f =>
    rw [result] at kept
    obtain ⟨huge, entry⟩ := Prod.mk.inj (Except.ok.inj kept)
    exact ⟨f, rfl, huge, entry⟩

theorem tree_walk_succ (h t : Nat) : tree.walk m path (h + 1) t =
    if isPresent (m t (path (h + 1))) = false then .error .notPresent
    else if h + 1 ≠ 3 ∧ isHuge (m t (path (h + 1))) then ends (h + 1) (m t (path (h + 1)))
    else (tree.walk m path h (frameOf (m t (path (h + 1))))).map (.below (m t (path (h + 1)))) := by
  split_ifs with absent huge
  · rw [Radix.walk_none (link_eq_none.mpr (.inl absent))]
    exact if_pos absent
  · exact Radix.walk_none (link_eq_none.mpr (.inr huge))
  · exact Radix.walk_some (link_eq_some.mpr ⟨eq_true_of_ne_false absent, by
      rw [not_and_or, not_not, Bool.not_eq_true] at huge
      exact huge, rfl⟩)

theorem map_below (v : VirtAddr) (e : Word) (r : Except WalkError Found) :
    (r.map (Found.below e)).map (Found.resolve v) = r.map (Found.resolve v) := by
  cases r <;> rfl

theorem walkPageTable_eq (m : Memory) (root : Nat) (v : VirtAddr) :
    walkPageTable m root v = (walk m v.index root).map (Found.resolve v) := by
  unfold walkPageTable walk
  simp only [tree_walk_succ, apply_ite (Except.map (Found.resolve v)), map_below, Nat.reduceAdd, ne_eq,
    not_true_eq_false, Nat.reduceEqDiff, not_false_eq_true, false_and, true_and, if_false]
  split_ifs with absent3 absent2 giant absent1 huge absent0
  · rfl
  · rfl
  · rw [ends_giant (eq_true_of_ne_false absent2)]
    rfl
  · rfl
  · rw [ends_huge (eq_true_of_ne_false absent1)]
    rfl
  · rw [tree_walk_zero, ends_absent absent0]
    rfl
  · rw [tree_walk_zero, ends_small (eq_true_of_ne_false absent0)]
    rfl

end Walk

section Address

variable {v w : VirtAddr}

theorem index_val (v : VirtAddr) (h : Nat) : (v.index h).val = v.raw.toNat / 2 ^ (12 + 9 * h) % 512 := by
  rw [VirtAddr.index]
  dsimp only
  rw [BitVec.toNat_and, BitVec.toNat_ushiftRight, Nat.shiftRight_eq_div_pow]
  exact Nat.and_two_pow_sub_one_eq_mod _ 9

def VirtAddr.page (v : VirtAddr) : Word := pageOf v.raw

def VirtAddr.IsUser (v : VirtAddr) : Prop := ¬IsKernel v.index

theorem page_eq_iff : v.page = w.page ↔ ∀ i, i ≤ 3 → v.index i = w.index i := by
  have canonical := (isCanonical_iff _).mp v.canonical
  have canonical' := (isCanonical_iff _).mp w.canonical
  have low := v.raw.isLt
  have low' := w.raw.isLt
  rw [VirtAddr.page, VirtAddr.page, ← BitVec.toNat_inj, toNat_pageOf, toNat_pageOf]
  constructor
  · intro same i le
    rw [Fin.ext_iff, index_val, index_val, Nat.pow_add, ← Nat.div_div_eq_div_mul,
      ← Nat.div_div_eq_div_mul]
    rw [show v.raw.toNat / 2 ^ 12 = w.raw.toNat / 2 ^ 12 by omega]
  · intro same
    have all : ∀ i, i ≤ 3 → v.raw.toNat / 2 ^ (12 + 9 * i) % 512 = w.raw.toNat / 2 ^ (12 + 9 * i) % 512 := by
      intro i le
      rw [← index_val, ← index_val, same i le]
    have top := all 3 le_rfl
    have upper := all 2 (by decide)
    have middle := all 1 (by decide)
    have leaf := all 0 (by decide)
    norm_num at top upper middle leaf
    omega

theorem toNat_offset (v : VirtAddr) (low : Nat) (mask : Word)
    (is : mask = BitVec.ofNat 64 (2 ^ low - 1)) (small : low ≤ 63) :
    (v.raw &&& mask).toNat = v.raw.toNat % 2 ^ low := by
  have : 2 ^ low ≤ 2 ^ 63 := Nat.pow_le_pow_right (by decide) small
  rw [is, BitVec.toNat_and, BitVec.toNat_ofNat, Nat.mod_eq_of_lt (by omega),
    Nat.and_two_pow_sub_one_eq_mod]

theorem checkedAdd_small (e : Word) (v : VirtAddr) :
    checkedAdd (pageAddress4k e) (v.raw &&& 0xFFF) = some (pageAddress4k e + (v.raw &&& 0xFFF)) := by
  refine if_pos ?_
  rw [toNat_pageAddress4k, toNat_offset v 12 0xFFF rfl (by decide)]
  omega

theorem checkedAdd_huge (e : Word) (v : VirtAddr) : checkedAdd (pageAddress2m e)
    (v.raw &&& (0x200000 - 1)) = some (pageAddress2m e + (v.raw &&& 0x1FFFFF)) := by
  refine if_pos ?_
  rw [toNat_pageAddress2m, show (0x200000 - 1 : Word) = 0x1FFFFF from rfl,
    toNat_offset v 21 0x1FFFFF rfl (by decide)]
  omega

theorem translate_eq (m : Memory) (root : Nat) (v : VirtAddr) : translate m root v =
    match walkPageTable m root v with
    | .ok r => .ok (some ⟨r.phys, if r.huge then .size2MiB else .size4KiB, r.entry⟩)
    | .error .notPresent => .ok none
    | .error .giantPage => .err .unsupportedGiantPage := by
  unfold translate walkPageTable
  simp only [checkedAdd_small, checkedAdd_huge, Result.lift_some, Result.ok_bind, Result.pure_eq]
  split_ifs <;> rfl

end Address

end Zaytos.Kernel.Paging
