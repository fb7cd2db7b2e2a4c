import Zaytos.Kernel.PageWalk

set_option autoImplicit false

/-! The bits of the entries of the page tables. The same bit means something else in a leaf of 4 KiB
and in one of 2 MiB. -/
namespace Zaytos.Kernel.Paging

namespace Bits

abbrev pwt : Word := 0x8
abbrev pcd : Word := 0x10
abbrev accessed : Word := 0x20
abbrev dirty : Word := 0x40
abbrev pat : Word := 0x80
abbrev hugePat : Word := 0x1000
abbrev global : Word := 0x100
abbrev shared : Word := 0x200
abbrev noExecute : Word := 0x8000000000000000
abbrev hugeBelowAddress : Word := addr4k &&& ~~~addr2m

end Bits

inductive Cache where
  | cached
  | uncached
  deriving DecidableEq, Repr

structure PagePermissions where
  write : Bool
  execute : Bool
  user : Bool
  cache : Cache
  shared : Bool
  deriving DecidableEq, Repr

namespace PagePermissions

def kernelData : PagePermissions := ⟨true, false, false, .cached, false⟩

/-- `user_program`: what a segment says. -/
def userProgram (writable executable : Bool) : PagePermissions :=
  ⟨writable, executable, true, .cached, false⟩

def userData : PagePermissions := ⟨true, false, true, .cached, false⟩

/-- `user_shared`: the frame belongs to another. -/
def userShared (writable : Bool) : PagePermissions := ⟨writable, false, true, .cached, true⟩

def writableAndExecutable (p : PagePermissions) : Bool := p.write && p.execute

end PagePermissions

inductive LeafSize where
  | small
  | large
  deriving DecidableEq, Repr

def flag (set : Bool) (bit : Word) : Word := if set then bit else 0

def isPresent (entry : Word) : Bool := entry &&& Bits.present != 0
def isShared (entry : Word) : Bool := entry &&& Bits.shared != 0
def isHuge (entry : Word) : Bool := entry &&& Bits.pageSize != 0

/-- `table_address` and `page_address_4k`. -/
def pageAddress4k (entry : Word) : Word := entry &&& Bits.addr4k

def pageAddress2m (entry : Word) : Word := entry &&& Bits.addr2m

def leafFlags (p : PagePermissions) (size : LeafSize) : Word :=
  Bits.present ||| flag p.write Bits.writable ||| flag p.user Bits.user |||
    flag (p.cache = .uncached) Bits.pcd ||| flag p.shared Bits.shared |||
    flag (size = .large) Bits.pageSize ||| flag (!p.execute) Bits.noExecute

def tableFlagsFor (user : Bool) : Word := Bits.present ||| Bits.writable ||| flag user Bits.user

def tableFlags (p : PagePermissions) : Word := tableFlagsFor p.user

def leafEntry (frame : Word) (p : PagePermissions) (size : LeafSize) : Word :=
  (match size with
    | .small => pageAddress4k frame
    | .large => pageAddress2m frame) ||| leafFlags p size

def tableEntry (table : Word) (p : PagePermissions) : Word := pageAddress4k table ||| tableFlags p

/-- What `split_child_entry` keeps of the flags. The bit for the cache moves. -/
def splitFlags (hugeEntry : Word) : Word :=
  let flags := hugeEntry &&&
    ~~~(Bits.pageSize ||| Bits.hugePat ||| Bits.accessed ||| Bits.dirty ||| Bits.addr2m)
  let flags := flags &&& ~~~Bits.hugeBelowAddress
  if hugeEntry &&& Bits.hugePat != 0 then flags ||| Bits.pat else flags

def splitChildEntry (hugeEntry : Word) (index : Nat) : Word :=
  (pageAddress2m hugeEntry + BitVec.ofNat 64 (index * 4096)) ||| splitFlags hugeEntry

def tableEntryForSplit (hugeEntry table : Word) : Word :=
  pageAddress4k table ||| tableFlagsFor (hugeEntry &&& Bits.user != 0)

def frameNumber (phys : Word) : Nat := phys.toNat / 4096

/-- `from_frame_number`. -/
def frameAddress (frame : Nat) : Word := BitVec.ofNat 64 (frame * 4096)

def frameOf (entry : Word) : Nat := frameNumber (pageAddress4k entry)

variable {e x fl : Word} {f : Nat} {p : PagePermissions}

theorem and_twoPow_ne (w : Word) (k : Nat) (within : k < 64) :
    (w &&& BitVec.twoPow 64 k != 0) = w.getLsbD k := by
  rw [BitVec.and_twoPow]
  cases bit : w.getLsbD k with
  | false => rw [if_neg Bool.false_ne_true]; rfl
  | true =>
    have ne : BitVec.twoPow 64 k ≠ 0 := by
      intro eq
      have := congrArg (fun v => v.getLsbD k) eq
      simp [within] at this
    rw [if_pos rfl, bne_iff_ne.mpr ne]

theorem isPresent_eq (e : Word) : isPresent e = e.getLsbD 0 := and_twoPow_ne e 0 (by decide)
theorem isHuge_eq (e : Word) : isHuge e = e.getLsbD 7 := and_twoPow_ne e 7 (by decide)

theorem getLsbD_addr4k (b : Nat) : Bits.addr4k.getLsbD b = (decide (12 ≤ b) && decide (b < 52)) := by
  by_cases within : b < 64
  · have finite : ∀ i : Fin 64,
        Bits.addr4k.getLsbD i.val = (decide (12 ≤ i.val) && decide (i.val < 52)) := by decide
    exact finite ⟨b, within⟩
  · rw [BitVec.getLsbD_of_ge _ _ (not_lt.mp within), decide_eq_false (by omega : ¬b < 52),
      Bool.and_false]

theorem getLsbD_addr2m (b : Nat) : Bits.addr2m.getLsbD b = (decide (21 ≤ b) && decide (b < 52)) := by
  by_cases within : b < 64
  · have finite : ∀ i : Fin 64,
        Bits.addr2m.getLsbD i.val = (decide (21 ≤ i.val) && decide (i.val < 52)) := by decide
    exact finite ⟨b, within⟩
  · rw [BitVec.getLsbD_of_ge _ _ (not_lt.mp within), decide_eq_false (by omega : ¬b < 52),
      Bool.and_false]

theorem toNat_of_mask {mask : Word} {low : Nat}
    (bits : ∀ b, mask.getLsbD b = (decide (low ≤ b) && decide (b < 52))) (e : Word) :
    (e &&& mask).toNat = e.toNat % 2 ^ 52 / 2 ^ low * 2 ^ low := by
  refine Nat.eq_of_testBit_eq fun b => ?_
  rw [BitVec.testBit_toNat, BitVec.getLsbD_and, bits, Nat.testBit_mul_two_pow,
    Nat.testBit_div_two_pow, Nat.testBit_mod_two_pow, BitVec.testBit_toNat]
  by_cases above : low ≤ b
  · rw [Nat.sub_add_cancel above, decide_eq_true above, Bool.true_and, Bool.true_and, Bool.and_comm]
  · rw [decide_eq_false above, Bool.false_and, Bool.and_false, Bool.false_and]

theorem toNat_pageAddress4k (e : Word) : (pageAddress4k e).toNat = e.toNat % 2 ^ 52 / 4096 * 4096 :=
  toNat_of_mask getLsbD_addr4k e

theorem toNat_pageAddress2m (e : Word) :
    (pageAddress2m e).toNat = e.toNat % 2 ^ 52 / 2097152 * 2097152 :=
  toNat_of_mask getLsbD_addr2m e

theorem frameOf_eq (e : Word) : frameOf e = e.toNat % 2 ^ 52 / 4096 := by
  rw [frameOf, frameNumber, toNat_pageAddress4k, Nat.mul_div_cancel _ (by decide)]

theorem toNat_frameAddress (low : f < 2 ^ 40) : (frameAddress f).toNat = f * 4096 := by
  rw [frameAddress, BitVec.toNat_ofNat, Nat.mod_eq_of_lt (by omega)]

structure Aligned (x : Word) : Prop where
  page : x.toNat % 4096 = 0
  low : x.toNat < 2 ^ 52

theorem aligned_frameAddress (low : f < 2 ^ 40) : Aligned (frameAddress f) := by
  constructor <;> rw [toNat_frameAddress low] <;> omega

theorem Aligned.address (aligned : Aligned x) : pageAddress4k x = x := by
  have := aligned.page
  rw [← BitVec.toNat_inj, toNat_pageAddress4k, Nat.mod_eq_of_lt aligned.low]
  omega

theorem Aligned.getLsbD (aligned : Aligned x) {b : Nat} (outside : b < 12 ∨ 52 ≤ b) :
    x.getLsbD b = false := by
  rw [← aligned.address, pageAddress4k, BitVec.getLsbD_and, getLsbD_addr4k]
  rcases outside with below | above
  · rw [decide_eq_false (by omega), Bool.false_and, Bool.and_false]
  · rw [decide_eq_false (by omega : ¬b < 52), Bool.and_false, Bool.and_false]

theorem pageAddress4k_or (aligned : Aligned x) (flags : pageAddress4k fl = 0) :
    pageAddress4k (x ||| fl) = x := by
  have address := aligned.address
  rw [pageAddress4k] at address flags ⊢
  rw [BitVec.and_or_distrib_right, address, flags]
  exact BitVec.or_zero

theorem frameOf_or (low : f < 2 ^ 40) (flags : pageAddress4k fl = 0) :
    frameOf (frameAddress f ||| fl) = f := by
  rw [frameOf, pageAddress4k_or (aligned_frameAddress low) flags, frameNumber,
    toNat_frameAddress low, Nat.mul_div_cancel _ (by decide)]

theorem getLsbD_or (aligned : Aligned x) {b : Nat} (outside : b < 12 ∨ 52 ≤ b) :
    (x ||| fl).getLsbD b = fl.getLsbD b := by
  rw [BitVec.getLsbD_or, aligned.getLsbD outside, Bool.false_or]

theorem pageAddress4k_leafFlags (p : PagePermissions) : pageAddress4k (leafFlags p .small) = 0 := by
  rcases p with ⟨write, execute, user, cache, shared⟩
  cases write <;> cases execute <;> cases user <;> cases cache <;> cases shared <;> decide

theorem pageAddress4k_tableFlagsFor (user : Bool) : pageAddress4k (tableFlagsFor user) = 0 := by
  cases user <;> decide

section Leaf

variable (low : f < 2 ^ 40)
include low

theorem leafEntry_eq : leafEntry (frameAddress f) p .small = frameAddress f ||| leafFlags p .small := by
  rw [leafEntry, (aligned_frameAddress low).address]

theorem frameOf_leafEntry : frameOf (leafEntry (frameAddress f) p .small) = f := by
  rw [leafEntry_eq low, frameOf_or low (pageAddress4k_leafFlags p)]

theorem isPresent_leafEntry : isPresent (leafEntry (frameAddress f) p .small) = true := by
  rw [leafEntry_eq low, isPresent_eq, getLsbD_or (aligned_frameAddress low) (by decide)]
  rcases p with ⟨write, execute, user, cache, shared⟩
  cases write <;> cases execute <;> cases user <;> cases cache <;> cases shared <;> decide

theorem leafEntry_flags :
    leafEntry (frameAddress f) p .small &&& ~~~Bits.addr4k = leafFlags p .small := by
  have address := (aligned_frameAddress low).address
  have flags := pageAddress4k_leafFlags p
  rw [leafEntry_eq low]
  rw [pageAddress4k] at address flags
  refine BitVec.eq_of_getLsbD_eq fun b within => ?_
  have inAddress := congrArg (fun v => v.getLsbD b) address
  have inFlags := congrArg (fun v => v.getLsbD b) flags
  simp only [BitVec.getLsbD_and, BitVec.getLsbD_or, BitVec.getLsbD_not, within, decide_true,
    Bool.true_and] at inAddress inFlags ⊢
  revert inAddress inFlags
  cases (frameAddress f).getLsbD b <;> cases (leafFlags p .small).getLsbD b <;>
    cases Bits.addr4k.getLsbD b <;> simp

theorem tableEntry_eq : tableEntry (frameAddress f) p = frameAddress f ||| tableFlagsFor p.user := by
  rw [tableEntry, tableFlags, (aligned_frameAddress low).address]

theorem frameOf_tableEntry : frameOf (tableEntry (frameAddress f) p) = f := by
  rw [tableEntry_eq low, frameOf_or low (pageAddress4k_tableFlagsFor _)]

theorem isPresent_tableEntry : isPresent (tableEntry (frameAddress f) p) = true := by
  rw [tableEntry_eq low, isPresent_eq, getLsbD_or (aligned_frameAddress low) (by decide)]
  cases p.user <;> decide

theorem isHuge_tableEntry : isHuge (tableEntry (frameAddress f) p) = false := by
  rw [tableEntry_eq low, isHuge_eq, getLsbD_or (aligned_frameAddress low) (by decide)]
  cases p.user <;> decide

end Leaf

section Split

theorem getLsbD_splitFlags (e : Word) {b : Nat} (within : b < 64) : (splitFlags e).getLsbD b =
    if b = 7 then e.getLsbD 12
    else if b = 5 ∨ b = 6 ∨ (12 ≤ b ∧ b < 52) then false else e.getLsbD b := by
  have cleared : (~~~(Bits.pageSize ||| Bits.hugePat ||| Bits.accessed ||| Bits.dirty |||
      Bits.addr2m) &&& ~~~Bits.hugeBelowAddress).getLsbD b =
      !decide (b = 5 ∨ b = 6 ∨ b = 7 ∨ (12 ≤ b ∧ b < 52)) := by
    have finite : ∀ i : Fin 64, (~~~(Bits.pageSize ||| Bits.hugePat ||| Bits.accessed |||
        Bits.dirty ||| Bits.addr2m) &&& ~~~Bits.hugeBelowAddress).getLsbD i.val =
        !decide (i.val = 5 ∨ i.val = 6 ∨ i.val = 7 ∨ (12 ≤ i.val ∧ i.val < 52)) := by decide
    exact finite ⟨b, within⟩
  have pat : Bits.pat.getLsbD b = decide (b = 7) := by
    have finite : ∀ i : Fin 64, Bits.pat.getLsbD i.val = decide (i.val = 7) := by decide
    exact finite ⟨b, within⟩
  rw [splitFlags, BitVec.and_assoc]
  have moved : (e &&& Bits.hugePat != 0) = e.getLsbD 12 := and_twoPow_ne e 12 (by decide)
  rw [moved]
  cases bit : e.getLsbD 12 with
  | false =>
    rw [if_neg Bool.false_ne_true, BitVec.getLsbD_and, cleared]
    grind
  | true =>
    rw [if_pos rfl, BitVec.getLsbD_or, BitVec.getLsbD_and, cleared, pat]
    grind

theorem pageAddress4k_splitFlags (e : Word) : pageAddress4k (splitFlags e) = 0 := by
  refine BitVec.eq_of_getLsbD_eq fun b within => ?_
  rw [pageAddress4k, BitVec.getLsbD_and, getLsbD_addr4k, getLsbD_splitFlags e within]
  have zero : (0 : Word).getLsbD b = false := BitVec.getLsbD_zero
  rw [zero]
  grind

theorem aligned_splitAddress (e : Word) {index : Nat} (within : index < 512) :
    Aligned (pageAddress2m e + BitVec.ofNat 64 (index * 4096)) := by
  constructor <;>
    rw [BitVec.toNat_add, toNat_pageAddress2m, BitVec.toNat_ofNat] <;> omega

theorem pageAddress4k_splitChildEntry (e : Word) {index : Nat} (within : index < 512) :
    pageAddress4k (splitChildEntry e index) = pageAddress2m e + BitVec.ofNat 64 (index * 4096) :=
  pageAddress4k_or (aligned_splitAddress e within) (pageAddress4k_splitFlags e)

theorem getLsbD_splitChildEntry (e : Word) {index b : Nat} (within : index < 512)
    (outside : b < 12 ∨ 52 ≤ b) (inside : b < 64) : (splitChildEntry e index).getLsbD b =
    if b = 7 then e.getLsbD 12 else if b = 5 ∨ b = 6 then false else e.getLsbD b := by
  rw [splitChildEntry, getLsbD_or (aligned_splitAddress e within) outside, getLsbD_splitFlags e inside]
  have : ¬(12 ≤ b ∧ b < 52) := by omega
  grind

end Split

end Zaytos.Kernel.Paging
