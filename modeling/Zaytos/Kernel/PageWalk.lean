import Zaytos.Lib.Checked
import Mathlib.Data.BitVec
import Mathlib.Tactic.IntervalCases

set_option autoImplicit false

/-! The walk through the page tables that the processor reads, and what a user may touch. -/
namespace Zaytos.Kernel.Paging

abbrev Word := BitVec 64

/-- What stands in memory at the index of a table, given the physical address of the table. -/
abbrev Tables := Word → Nat → Word

namespace Bits

abbrev present : Word := 0x1
abbrev writable : Word := 0x2
abbrev user : Word := 0x4
abbrev pageSize : Word := 0x80
abbrev addr4k : Word := 0x000FFFFFFFFFF000
abbrev addr2m : Word := 0x000FFFFFFFE00000

end Bits

def isCanonical (raw : Word) : Bool := (raw <<< 16).sshiftRight 16 == raw

def topIndex (virt : Word) : Nat := ((virt >>> 39) &&& 0x1FF).toNat
def upperIndex (virt : Word) : Nat := ((virt >>> 30) &&& 0x1FF).toNat
def middleIndex (virt : Word) : Nat := ((virt >>> 21) &&& 0x1FF).toNat
def leafIndex (virt : Word) : Nat := ((virt >>> 12) &&& 0x1FF).toNat

inductive UserAccess where
  | read
  | write
  deriving DecidableEq, Repr

inductive UserAccessError where
  | notPresent
  | supervisorOnly
  | readOnly
  | giantPage
  | hugePage
  deriving DecidableEq, Repr

def levelAllows (entry : Word) (access : UserAccess) : Except UserAccessError Unit :=
  if entry &&& Bits.present = 0 then .error .notPresent
  else if entry &&& Bits.user = 0 then .error .supervisorOnly
  else if access = .write ∧ entry &&& Bits.writable = 0 then .error .readOnly
  else .ok ()

/-- `walk_page_table_user_accessible`. -/
def walkUserAccessible (tables : Tables) (pml4 virt : Word) (access : UserAccess) :
    Except UserAccessError Unit := do
  let pml4e := tables pml4 (topIndex virt)
  levelAllows pml4e access
  let pdpt := pml4e &&& Bits.addr4k
  let pdpte := tables pdpt (upperIndex virt)
  levelAllows pdpte access
  if pdpte &&& Bits.pageSize ≠ 0 then .error .giantPage else
  let pd := pdpte &&& Bits.addr4k
  let pde := tables pd (middleIndex virt)
  levelAllows pde access
  if pde &&& Bits.pageSize ≠ 0 then .error .hugePage else
  let pt := pde &&& Bits.addr4k
  let pte := tables pt (leafIndex virt)
  levelAllows pte access

section

variable (tables : Tables) (pml4 virt : Word)

/-! The entries on the way to an address, each in the table that the one above it points to. -/

def pml4eOf : Word := tables pml4 (topIndex virt)
def pdpteOf : Word := tables (pml4eOf tables pml4 virt &&& Bits.addr4k) (upperIndex virt)
def pdeOf : Word := tables (pdpteOf tables pml4 virt &&& Bits.addr4k) (middleIndex virt)
def pteOf : Word := tables (pdeOf tables pml4 virt &&& Bits.addr4k) (leafIndex virt)

end

def Allows (access : UserAccess) (entry : Word) : Prop :=
  entry &&& Bits.present ≠ 0 ∧ entry &&& Bits.user ≠ 0 ∧
  (access = .write → entry &&& Bits.writable ≠ 0)

structure Accessible (tables : Tables) (pml4 virt : Word) (access : UserAccess) : Prop where
  top : Allows access (pml4eOf tables pml4 virt)
  upper : Allows access (pdpteOf tables pml4 virt)
  notGiant : pdpteOf tables pml4 virt &&& Bits.pageSize = 0
  middle : Allows access (pdeOf tables pml4 virt)
  notHuge : pdeOf tables pml4 virt &&& Bits.pageSize = 0
  leaf : Allows access (pteOf tables pml4 virt)

theorem levelAllows_ok (entry : Word) (access : UserAccess) :
    levelAllows entry access = .ok () ↔ Allows access entry := by
  rw [levelAllows, Allows]
  split_ifs with absent supervisor readOnly
  · exact iff_of_false (by nofun) fun allows => allows.1 absent
  · exact iff_of_false (by nofun) fun allows => allows.2.1 supervisor
  · exact iff_of_false (by nofun) fun allows => allows.2.2 readOnly.1 readOnly.2
  · exact iff_of_true rfl ⟨absent, supervisor, fun write zero => readOnly ⟨write, zero⟩⟩

theorem bind_ok_unit {r : Except UserAccessError Unit} {f : Unit → Except UserAccessError Unit} :
    (r >>= f) = .ok () ↔ r = .ok () ∧ f () = .ok () := by
  cases r with
  | error e => exact iff_of_false (by nofun) (by nofun)
  | ok u => exact ⟨fun rest => ⟨rfl, rest⟩, And.right⟩

theorem ite_error_ok {c : Prop} [Decidable c] {e : UserAccessError}
    {r : Except UserAccessError Unit} : (if c then .error e else r) = .ok () ↔ ¬c ∧ r = .ok () := by
  split
  · exact iff_of_false (by nofun) fun ok => ok.1 ‹_›
  · exact ⟨fun ok => ⟨‹_›, ok⟩, And.right⟩

theorem walkUserAccessible_ok (tables : Tables) (pml4 virt : Word) (access : UserAccess) :
    walkUserAccessible tables pml4 virt access = .ok () ↔ Accessible tables pml4 virt access := by
  unfold walkUserAccessible
  simp only [bind_ok_unit, ite_error_ok, levelAllows_ok, not_not]
  exact ⟨fun ⟨top, upper, notGiant, middle, notHuge, leaf⟩ =>
      ⟨top, upper, notGiant, middle, notHuge, leaf⟩,
    fun ⟨top, upper, notGiant, middle, notHuge, leaf⟩ =>
      ⟨top, upper, notGiant, middle, notHuge, leaf⟩⟩

def pageOf (address : Word) : Word := address &&& ~~~(0xFFF : Word)

theorem pageOf_eq (address : Word) : pageOf address = (address >>> 12) <<< 12 := by
  ext i within
  rw [pageOf]
  interval_cases i <;> simp

theorem toNat_pageOf (address : Word) : (pageOf address).toNat = address.toNat / 4096 * 4096 := by
  have := address.isLt
  rw [pageOf_eq, BitVec.toNat_shiftLeft, BitVec.toNat_ushiftRight, Nat.shiftRight_eq_div_pow,
    Nat.shiftLeft_eq]
  omega

theorem isCanonical_iff (raw : Word) :
    isCanonical raw = true ↔ raw.toNat < 2 ^ 47 ∨ 2 ^ 64 - 2 ^ 47 ≤ raw.toNat := by
  have := raw.isLt
  rw [isCanonical, beq_iff_eq, ← BitVec.toInt_inj, BitVec.toInt_sshiftRight,
    BitVec.toInt_shiftLeft, Int.shiftRight_eq_div_pow, BitVec.toInt_eq_toNat_bmod, Nat.shiftLeft_eq]
  simp only [Int.bmod_def]
  omega

theorem isCanonical_pageOf (address : Word) : isCanonical (pageOf address) = isCanonical address := by
  rw [Bool.eq_iff_iff, isCanonical_iff, isCanonical_iff, toNat_pageOf]
  omega

end Zaytos.Kernel.Paging
