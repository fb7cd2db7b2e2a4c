import Zaytos.Kernel.PageWalk

set_option autoImplicit false

/-! Physical and virtual addresses, and the window that shows physical memory at virtual addresses.
Where a function stops the program the outer `Option` is `none`. -/
namespace Zaytos.Common

open Kernel.Paging (Word isCanonical isCanonical_iff)

def checkedAdd64 (a b : Word) : Option Word :=
  if a.toNat + b.toNat < 2 ^ 64 then some (a + b) else none

def checkedSub64 (a b : Word) : Option Word := if b ≤ a then some (a - b) else none

def checkedMul64 (a b : Word) : Option Word :=
  if a.toNat * b.toNat < 2 ^ 64 then some (a * b) else none

def isPowerOfTwo (w : Word) : Bool := (List.range 64).any fun k => w == 1#64 <<< k

theorem one_le_of_isPowerOfTwo {w : Word} (power : isPowerOfTwo w = true) : 1 ≤ w := by
  obtain ⟨k, small, eq⟩ := List.any_eq_true.mp power
  have small := List.mem_range.mp small
  have lt : 2 ^ k < 2 ^ 64 := Nat.pow_lt_pow_right (by decide) small
  rw [beq_iff_eq] at eq
  rw [eq, BitVec.le_def, BitVec.toNat_shiftLeft]
  simp only [BitVec.toNat_ofNat, Nat.shiftLeft_eq, Nat.one_mod, one_mul]
  rw [Nat.mod_eq_of_lt lt]
  exact Nat.one_le_two_pow

section

variable {α : Type} (new : Word → Option α)

/-- `align_up` of a type that `new` builds. -/
def alignUpWith (raw align : Word) : Option (Option α) := do
  guard (isPowerOfTwo align)
  let low ← checkedSub64 align 1
  pure ((checkedAdd64 raw low).bind fun sum => new (sum &&& ~~~low))

/-- `align_down`. -/
def alignDownWith (raw align : Word) : Option (Option α) := do
  guard (isPowerOfTwo align)
  let low ← checkedSub64 align 1
  pure (new (raw &&& ~~~low))

/-- `checked_add`. -/
def checkedAddWith (raw offset : Word) : Option α := (checkedAdd64 raw offset).bind new

/-- `checked_sub`. -/
def checkedSubWith (raw offset : Word) : Option α := (checkedSub64 raw offset).bind new

end

def isValidPhys (raw : Word) : Bool := raw >>> 52 == 0

theorem isValidPhys_iff (raw : Word) : isValidPhys raw = true ↔ raw.toNat < 2 ^ 52 := by
  rw [isValidPhys, beq_iff_eq, ← BitVec.toNat_inj, BitVec.toNat_ushiftRight,
    Nat.shiftRight_eq_div_pow]
  show raw.toNat / 2 ^ 52 = 0 ↔ _
  omega

/-- A physical address. Every one of them has passed `new`. -/
structure PhysAddr where
  raw : Word
  valid : isValidPhys raw = true
  deriving DecidableEq

namespace PhysAddr

def new (raw : Word) : Option PhysAddr :=
  if valid : isValidPhys raw = true then some ⟨raw, valid⟩ else none

theorem new_raw (p : PhysAddr) : new p.raw = some p := dif_pos p.valid

theorem raw_of_new {raw : Word} {p : PhysAddr} (accepted : new raw = some p) : p.raw = raw := by
  unfold new at accepted
  split at accepted
  · cases accepted
    rfl
  · cases accepted

theorem raw_lt (p : PhysAddr) : p.raw.toNat < 2 ^ 52 := (isValidPhys_iff p.raw).mp p.valid

def fromFrameNumber (frame : Word) : Option PhysAddr := (checkedMul64 frame 4096).bind new

def alignUp (p : PhysAddr) (align : Word) : Option (Option PhysAddr) := alignUpWith new p.raw align

def alignDown (p : PhysAddr) (align : Word) : Option (Option PhysAddr) :=
  alignDownWith new p.raw align

def checkedAdd (p : PhysAddr) (offset : Word) : Option PhysAddr := checkedAddWith new p.raw offset

def checkedSub (p : PhysAddr) (offset : Word) : Option PhysAddr := checkedSubWith new p.raw offset

end PhysAddr

/-- A virtual address. `phys_to_virt` builds one without `new`. -/
structure VirtAddr where
  raw : Word
  deriving DecidableEq

namespace VirtAddr

def new (raw : Word) : Option VirtAddr := if isCanonical raw then some ⟨raw⟩ else none

theorem canonical_of_new {raw : Word} {v : VirtAddr} (accepted : new raw = some v) :
    isCanonical v.raw = true := by
  unfold new at accepted
  split at accepted
  · cases accepted
    assumption
  · cases accepted

def alignUp (v : VirtAddr) (align : Word) : Option (Option VirtAddr) := alignUpWith new v.raw align

def alignDown (v : VirtAddr) (align : Word) : Option (Option VirtAddr) :=
  alignDownWith new v.raw align

def checkedAdd (v : VirtAddr) (offset : Word) : Option VirtAddr := checkedAddWith new v.raw offset

def checkedSub (v : VirtAddr) (offset : Word) : Option VirtAddr := checkedSubWith new v.raw offset

end VirtAddr

/-- A window on physical memory, from `base` on. Its end is an address. -/
structure DirectMap where
  base : VirtAddr
  length : Word
  top : (base.checkedAdd length).isSome = true
  deriving DecidableEq

namespace DirectMap

/-- `DirectMap::new`. A window from address zero on stops the program once the identity mapping is
gone. -/
def new (identityRemoved : Bool) (base : VirtAddr) (length : Word) : Option (Option DirectMap) := do
  guard (¬ (base.raw = 0 ∧ identityRemoved = true))
  pure (if top : (base.checkedAdd length).isSome = true then some ⟨base, length, top⟩ else none)

def covers (m : DirectMap) (p : PhysAddr) : Bool := p.raw < m.length

def physToVirt (m : DirectMap) (p : PhysAddr) : VirtAddr := ⟨m.base.raw + p.raw⟩

def virtToPhys (m : DirectMap) (v : VirtAddr) : Option (Option PhysAddr) :=
  if v.raw < m.base.raw then some none
  else do
    let offset ← checkedSub64 v.raw m.base.raw
    pure (if offset ≥ m.length then none else PhysAddr.new offset)

theorem base_add_length_lt (m : DirectMap) : m.base.raw.toNat + m.length.toNat < 2 ^ 64 := by
  have top := m.top
  by_contra large
  unfold VirtAddr.checkedAdd checkedAddWith checkedAdd64 at top
  rw [if_neg large] at top
  cases top

theorem new_of_permitted {identityRemoved : Bool} {base : VirtAddr} (length : Word)
    (permitted : ¬ (base.raw = 0 ∧ identityRemoved = true)) :
    new identityRemoved base length =
      some (if top : (base.checkedAdd length).isSome = true then some ⟨base, length, top⟩
        else none) := by
  unfold new
  simp only [permitted, not_false_eq_true, guard, if_true]
  rfl

theorem virtToPhys_of_lt {m : DirectMap} {v : VirtAddr} (before : v.raw < m.base.raw) :
    m.virtToPhys v = some none := if_pos before

theorem virtToPhys_of_le {m : DirectMap} {v : VirtAddr} (past : m.base.raw ≤ v.raw) :
    m.virtToPhys v = some (if v.raw - m.base.raw ≥ m.length then none
      else PhysAddr.new (v.raw - m.base.raw)) := by
  unfold virtToPhys checkedSub64
  rw [if_neg (BitVec.not_lt.mpr past), if_pos past]
  rfl

theorem virtToPhys_physToVirt {m : DirectMap} {p : PhysAddr} (covered : m.covers p = true) :
    m.virtToPhys (m.physToVirt p) = some (some p) := by
  have inside : p.raw < m.length := of_decide_eq_true covered
  have end' := m.base_add_length_lt
  have sum : (m.base.raw + p.raw).toNat = m.base.raw.toNat + p.raw.toNat := by
    rw [BitVec.toNat_add, Nat.mod_eq_of_lt]
    rw [BitVec.lt_def] at inside
    omega
  have past : m.base.raw ≤ (m.physToVirt p).raw := by
    rw [BitVec.le_def]
    show _ ≤ (m.base.raw + p.raw).toNat
    omega
  have back : (m.physToVirt p).raw - m.base.raw = p.raw := by
    show m.base.raw + p.raw - m.base.raw = p.raw
    rw [BitVec.add_comm, BitVec.add_sub_cancel]
  rw [virtToPhys_of_le past, back, if_neg (BitVec.not_le.mpr inside), p.new_raw]

theorem physToVirt_of_virtToPhys {m : DirectMap} {v : VirtAddr} {p : PhysAddr}
    (shown : m.virtToPhys v = some (some p)) : m.physToVirt p = v := by
  by_cases past : m.base.raw ≤ v.raw
  · rw [virtToPhys_of_le past] at shown
    by_cases outside : v.raw - m.base.raw ≥ m.length
    · rw [if_pos outside] at shown
      cases shown
    · rw [if_neg outside] at shown
      have raw := PhysAddr.raw_of_new (Option.some.inj shown)
      unfold physToVirt
      rw [raw, BitVec.add_comm, BitVec.sub_add_cancel]
  · rw [virtToPhys_of_lt (BitVec.not_le.mp past)] at shown
    cases shown

end DirectMap

end Zaytos.Common

/-! Runs of calls on addresses and windows: which invariants all of the values keep, and where a
virtual address comes out that is not canonical. -/
namespace Zaytos.Common

open Kernel.Paging (Word isCanonical isCanonical_iff)

inductive AddrValue where
  | phys (p : PhysAddr)
  | virt (v : VirtAddr)
  | window (m : DirectMap)
  deriving DecidableEq

inductive AddrCall where
  | physNew (raw : Word)
  | virtNew (raw : Word)
  | windowNew (base : VirtAddr) (length : Word)
  | fromFrameNumber (frame : Word)
  | physAlignUp (p : PhysAddr) (align : Word)
  | physAlignDown (p : PhysAddr) (align : Word)
  | physCheckedAdd (p : PhysAddr) (offset : Word)
  | physCheckedSub (p : PhysAddr) (offset : Word)
  | virtAlignUp (v : VirtAddr) (align : Word)
  | virtAlignDown (v : VirtAddr) (align : Word)
  | virtCheckedAdd (v : VirtAddr) (offset : Word)
  | virtCheckedSub (v : VirtAddr) (offset : Word)
  | physToVirt (m : DirectMap) (p : PhysAddr)
  | virtToPhys (m : DirectMap) (v : VirtAddr)
  | markIdentityRemoved
  deriving DecidableEq

namespace AddrCall

def operands : AddrCall → List AddrValue
  | physAlignUp p _ | physAlignDown p _ | physCheckedAdd p _ | physCheckedSub p _ => [.phys p]
  | windowNew v _ | virtAlignUp v _ | virtAlignDown v _ | virtCheckedAdd v _ | virtCheckedSub v _ =>
    [.virt v]
  | physToVirt m p => [.window m, .phys p]
  | virtToPhys m v => [.window m, .virt v]
  | physNew _ | virtNew _ | fromFrameNumber _ | markIdentityRemoved => []

/-- Alignments are powers of two, and no window from address zero on is asked for once the identity
mapping is gone. -/
def Permitted (identityRemoved : Bool) : AddrCall → Prop
  | physAlignUp _ align | physAlignDown _ align | virtAlignUp _ align | virtAlignDown _ align =>
    isPowerOfTwo align = true
  | windowNew base _ => ¬ (base.raw = 0 ∧ identityRemoved = true)
  | _ => True

instance (identityRemoved : Bool) : DecidablePred (Permitted identityRemoved) := fun c => by
  cases c <;> unfold Permitted <;> infer_instance

def result (identityRemoved : Bool) : AddrCall → Option (Option AddrValue)
  | physNew raw => some ((PhysAddr.new raw).map .phys)
  | virtNew raw => some ((VirtAddr.new raw).map .virt)
  | windowNew base length => (DirectMap.new identityRemoved base length).map (Option.map .window)
  | fromFrameNumber frame => some ((PhysAddr.fromFrameNumber frame).map .phys)
  | physAlignUp p align => (p.alignUp align).map (Option.map .phys)
  | physAlignDown p align => (p.alignDown align).map (Option.map .phys)
  | physCheckedAdd p offset => some ((p.checkedAdd offset).map .phys)
  | physCheckedSub p offset => some ((p.checkedSub offset).map .phys)
  | virtAlignUp v align => (v.alignUp align).map (Option.map .virt)
  | virtAlignDown v align => (v.alignDown align).map (Option.map .virt)
  | virtCheckedAdd v offset => some ((v.checkedAdd offset).map .virt)
  | virtCheckedSub v offset => some ((v.checkedSub offset).map .virt)
  | physToVirt m p => some (some (.virt (m.physToVirt p)))
  | virtToPhys m v => (m.virtToPhys v).map (Option.map .phys)
  | markIdentityRemoved => some none

end AddrCall

structure Addresses where
  values : List AddrValue
  identityRemoved : Bool

namespace Addresses

def empty : Addresses := ⟨[], false⟩

def Takes (s : Addresses) (c : AddrCall) : Prop :=
  c.Permitted s.identityRemoved ∧ ∀ value ∈ c.operands, value ∈ s.values

instance (s : Addresses) : DecidablePred s.Takes := fun _ => inferInstanceAs (Decidable (_ ∧ _))

def step (s : Addresses) (c : AddrCall) : Option Addresses :=
  (c.result s.identityRemoved).map fun value =>
    ⟨s.values ++ value.toList, s.identityRemoved || c == .markIdentityRemoved⟩

def run (s : Addresses) : List AddrCall → Option Addresses
  | [] => some s
  | c :: rest => (s.step c).bind fun next => next.run rest

def TakesAll (s : Addresses) : List AddrCall → Prop
  | [] => True
  | c :: rest => s.Takes c ∧ ∀ next ∈ s.step c, next.TakesAll rest

instance decidableTakesAll : ∀ (cs : List AddrCall) (s : Addresses), Decidable (s.TakesAll cs)
  | [], _ => isTrue trivial
  | c :: rest, s =>
    have := fun next => decidableTakesAll rest next
    inferInstanceAs (Decidable (s.Takes c ∧ ∀ next ∈ s.step c, next.TakesAll rest))

def Based (s : Addresses) : Prop := ∀ m, .window m ∈ s.values → .virt m.base ∈ s.values

def Canonical (s : Addresses) : Prop := ∀ v, .virt v ∈ s.values → isCanonical v.raw = true

end Addresses

/-- The sum of the base of a window and a physical address lies above the lower half of the address
space and below the upper one, or gets there around the end. -/
def DirectMap.ReachesHole (m : DirectMap) (p : PhysAddr) : Prop :=
  (m.base.raw.toNat < 2 ^ 47 ∧ 2 ^ 47 ≤ m.base.raw.toNat + p.raw.toNat) ∨
    2 ^ 64 + 2 ^ 47 ≤ m.base.raw.toNat + p.raw.toNat

theorem DirectMap.isCanonical_physToVirt_iff {m : DirectMap} (p : PhysAddr)
    (base : isCanonical m.base.raw = true) :
    isCanonical (m.physToVirt p).raw = true ↔ ¬ m.ReachesHole p := by
  have small := p.raw_lt
  have word := m.base.raw.isLt
  rw [isCanonical_iff] at base
  rw [isCanonical_iff]
  show (m.base.raw + p.raw).toNat < 2 ^ 47 ∨ 2 ^ 64 - 2 ^ 47 ≤ (m.base.raw + p.raw).toNat ↔ _
  rw [BitVec.toNat_add]
  unfold ReachesHole
  omega

section

variable {α : Type} (new : Word → Option α)

theorem alignUpWith_ok {align : Word} (raw : Word) (power : isPowerOfTwo align = true) :
    ∃ out, alignUpWith new raw align = some out ∧ ∀ a ∈ out, ∃ raw', new raw' = some a := by
  refine ⟨(checkedAdd64 raw (align - 1)).bind fun sum => new (sum &&& ~~~(align - 1)), ?_, ?_⟩
  · unfold alignUpWith checkedSub64
    rw [power, if_pos (one_le_of_isPowerOfTwo power)]
    rfl
  · intro a mem
    obtain ⟨sum, -, made⟩ := Option.bind_eq_some_iff.mp mem
    exact ⟨_, made⟩

theorem alignDownWith_ok {align : Word} (raw : Word) (power : isPowerOfTwo align = true) :
    alignDownWith new raw align = some (new (raw &&& ~~~(align - 1))) := by
  unfold alignDownWith checkedSub64
  rw [power, if_pos (one_le_of_isPowerOfTwo power)]
  rfl

theorem exists_new_of_checkedAddWith {raw offset : Word} {a : α}
    (made : checkedAddWith new raw offset = some a) : ∃ raw', new raw' = some a := by
  obtain ⟨sum, -, made⟩ := Option.bind_eq_some_iff.mp made
  exact ⟨sum, made⟩

theorem exists_new_of_checkedSubWith {raw offset : Word} {a : α}
    (made : checkedSubWith new raw offset = some a) : ∃ raw', new raw' = some a := by
  obtain ⟨difference, -, made⟩ := Option.bind_eq_some_iff.mp made
  exact ⟨difference, made⟩

end

namespace AddrCall

/-- Of what a call returns, a virtual address has passed `new` or comes from a window, and a window
stands on an operand. -/
def Made (c : AddrCall) : AddrValue → Prop
  | .phys _ => True
  | .virt v => isCanonical v.raw = true ∨ ∃ m p, c = .physToVirt m p ∧ v = m.physToVirt p
  | .window m => .virt m.base ∈ c.operands

theorem made_phys (c : AddrCall) (out : Option PhysAddr) :
    ∀ value ∈ out.map .phys, c.Made value := by
  cases out with
  | none => simp
  | some p => simp [Made]

theorem made_virt (c : AddrCall) {out : Option VirtAddr}
    (new : ∀ v ∈ out, ∃ raw, VirtAddr.new raw = some v) :
    ∀ value ∈ out.map .virt, c.Made value := by
  cases out with
  | none => simp
  | some v =>
    obtain ⟨raw, accepted⟩ := new v rfl
    simp [Made, VirtAddr.canonical_of_new accepted]

theorem result_ok {removed : Bool} {c : AddrCall} (permitted : c.Permitted removed) :
    ∃ out, c.result removed = some out ∧ ∀ value ∈ out, c.Made value := by
  cases c with
  | physNew raw => exact ⟨_, rfl, made_phys _ _⟩
  | fromFrameNumber frame => exact ⟨_, rfl, made_phys _ _⟩
  | physCheckedAdd p offset => exact ⟨_, rfl, made_phys _ _⟩
  | physCheckedSub p offset => exact ⟨_, rfl, made_phys _ _⟩
  | physAlignUp p align =>
    obtain ⟨out, eq, -⟩ := alignUpWith_ok PhysAddr.new p.raw permitted
    exact ⟨_, congrArg (Option.map _) eq, made_phys _ _⟩
  | physAlignDown p align =>
    exact ⟨_, congrArg (Option.map _) (alignDownWith_ok PhysAddr.new p.raw permitted),
      made_phys _ _⟩
  | virtNew raw => exact ⟨_, rfl, made_virt _ fun _ mem => ⟨raw, mem⟩⟩
  | virtCheckedAdd v offset =>
    exact ⟨_, rfl, made_virt _ fun _ mem => exists_new_of_checkedAddWith VirtAddr.new mem⟩
  | virtCheckedSub v offset =>
    exact ⟨_, rfl, made_virt _ fun _ mem => exists_new_of_checkedSubWith VirtAddr.new mem⟩
  | virtAlignUp v align =>
    obtain ⟨out, eq, new⟩ := alignUpWith_ok VirtAddr.new v.raw permitted
    exact ⟨_, congrArg (Option.map _) eq, made_virt _ new⟩
  | virtAlignDown v align =>
    exact ⟨_, congrArg (Option.map _) (alignDownWith_ok VirtAddr.new v.raw permitted),
      made_virt _ fun _ mem => ⟨_, mem⟩⟩
  | windowNew base length =>
    refine ⟨_, congrArg (Option.map _) (DirectMap.new_of_permitted length permitted), ?_⟩
    split
    · simp [Made, operands]
    · simp
  | physToVirt m p =>
    refine ⟨_, rfl, fun value mem => ?_⟩
    rw [← Option.some.inj mem]
    exact Or.inr ⟨m, p, rfl, rfl⟩
  | virtToPhys m v =>
    by_cases past : m.base.raw ≤ v.raw
    · exact ⟨_, congrArg (Option.map _) (DirectMap.virtToPhys_of_le past), made_phys _ _⟩
    · have before := BitVec.not_le.mp past
      exact ⟨_, congrArg (Option.map _) (DirectMap.virtToPhys_of_lt before), made_phys _ _⟩
  | markIdentityRemoved => exact ⟨none, rfl, by simp⟩

end AddrCall

namespace Addresses

variable {s t : Addresses}

theorem step_ok {c : AddrCall} (takes : s.Takes c) :
    ∃ out removed, s.step c = some ⟨s.values ++ out.toList, removed⟩ ∧
      c.result s.identityRemoved = some out ∧ ∀ value ∈ out, c.Made value := by
  obtain ⟨out, eq, made⟩ := AddrCall.result_ok takes.1
  exact ⟨out, _, congrArg (Option.map _) eq, eq, made⟩

theorem run_ok {cs : List AddrCall} (takes : s.TakesAll cs) :
    ∃ t, s.run cs = some t ∧ s.values ⊆ t.values := by
  induction cs generalizing s with
  | nil => exact ⟨s, rfl, List.Subset.refl _⟩
  | cons c rest ih =>
    obtain ⟨out, removed, eq, -, -⟩ := step_ok takes.1
    obtain ⟨t, run, more⟩ := ih (takes.2 _ eq)
    refine ⟨t, ?_, List.Subset.trans (List.subset_append_left _ _) more⟩
    rw [Addresses.run, eq]
    exact run

theorem run_keeps {P : Addresses → Prop} {cs : List AddrCall}
    (keeps : ∀ (s : Addresses) (c : AddrCall) (t : Addresses), c ∈ cs → s.Takes c →
      s.step c = some t → P s → P t)
    (takes : s.TakesAll cs) (start : P s) (run : s.run cs = some t) : P t := by
  induction cs generalizing s with
  | nil =>
    cases run
    exact start
  | cons c rest ih =>
    obtain ⟨next, eq, run⟩ := Option.bind_eq_some_iff.mp run
    apply ih _ (takes.2 next eq) (keeps s c next (List.mem_cons_self ..) takes.1 eq start) run
    intro s c t mem
    exact keeps s c t (List.mem_cons_of_mem _ mem)

theorem Based.step {c : AddrCall} (based : s.Based) (takes : s.Takes c) (eq : s.step c = some t) :
    t.Based := by
  obtain ⟨out, removed, eq', -, made⟩ := step_ok takes
  rw [eq] at eq'
  cases eq'
  intro m mem
  rcases List.mem_append.mp mem with old | new
  · exact List.mem_append_left _ (based m old)
  · have operand := made _ (Option.mem_toList.mp new)
    exact List.mem_append_left _ (takes.2 _ operand)

theorem Canonical.step {c : AddrCall} (canonical : s.Canonical) (based : s.Based)
    (takes : s.Takes c) (apart : ∀ m p, c = .physToVirt m p → ¬ m.ReachesHole p)
    (eq : s.step c = some t) :
    t.Canonical := by
  obtain ⟨out, removed, eq', -, made⟩ := step_ok takes
  rw [eq] at eq'
  cases eq'
  intro v mem
  rcases List.mem_append.mp mem with old | new
  · exact canonical v old
  · rcases made _ (Option.mem_toList.mp new) with checked | ⟨m, p, call, from'⟩
    · exact checked
    · subst call from'
      have window : .window m ∈ s.values := takes.2 _ (by simp [AddrCall.operands])
      rw [DirectMap.isCanonical_physToVirt_iff p (canonical _ (based m window))]
      exact apart m p rfl

theorem Canonical.apart {cs : List AddrCall} (canonical : t.Canonical) (takes : s.TakesAll cs)
    (based : s.Based) (run : s.run cs = some t) {m : DirectMap} {p : PhysAddr}
    (mem : .physToVirt m p ∈ cs) : ¬ m.ReachesHole p := by
  induction cs generalizing s with
  | nil => cases mem
  | cons c rest ih =>
    obtain ⟨next, eq, rest'⟩ := Option.bind_eq_some_iff.mp run
    rcases List.mem_cons.mp mem with here | later
    · subst here
      obtain ⟨t', run', more⟩ := run_ok (takes.2 next eq)
      rw [rest'] at run'
      cases run'
      have window : .window m ∈ s.values := takes.1.2 _ (by simp [AddrCall.operands])
      cases eq
      have base := canonical m.base (more (List.mem_append_left _ (based m window)))
      rw [← DirectMap.isCanonical_physToVirt_iff p base]
      exact canonical _ (more (List.mem_append_right _ (by simp)))
    · exact ih (takes.2 next eq) (based.step takes.1 eq) rest' later

/-- No run stops the program, every physical address is below `2 ^ 52` and every window goes there
and back; the virtual addresses are all canonical unless a window is used to reach the hole. -/
theorem keeps_invariants (cs : List AddrCall) (takes : empty.TakesAll cs) :
    ∃ s, empty.run cs = some s ∧ (∀ p, .phys p ∈ s.values → p.raw.toNat < 2 ^ 52) ∧
      (∀ m, .window m ∈ s.values →
        (∀ p, m.covers p = true → m.virtToPhys (m.physToVirt p) = some (some p)) ∧
          ∀ v p, m.virtToPhys v = some (some p) → m.physToVirt p = v) ∧
      ((∀ v, .virt v ∈ s.values → isCanonical v.raw = true) ↔
        ∀ m p, .physToVirt m p ∈ cs → ¬ m.ReachesHole p) := by
  have based : empty.Based := fun m mem => by cases mem
  have canonical : empty.Canonical := fun v mem => by cases mem
  obtain ⟨s, run, -⟩ := run_ok takes
  refine ⟨s, run, fun p _ => p.raw_lt, fun m _ => ⟨?_, ?_⟩, ?_, ?_⟩
  · intro p covered
    exact DirectMap.virtToPhys_physToVirt covered
  · intro v p shown
    exact DirectMap.physToVirt_of_virtToPhys shown
  · intro all m p mem
    exact Canonical.apart all takes based run mem
  · intro apart
    apply (run_keeps (P := fun s => s.Based ∧ s.Canonical) _ takes ⟨based, canonical⟩ run).2
    intro s c t mem takes eq holds
    apply And.intro (holds.1.step takes eq)
    apply holds.2.step holds.1 takes _ eq
    intro m p call
    subst call
    exact apart m p mem

/-- The direct map in the upper half, used for a page and back. -/
theorem keeps_invariants_upper :
    let upper : DirectMap := ⟨⟨0xFFFF800000000000⟩, 0x100000000, by decide⟩
    let page : PhysAddr := ⟨0x10000, by decide⟩
    let cs := [.virtNew upper.base.raw, .windowNew upper.base upper.length, .fromFrameNumber 16,
      .physToVirt upper page, .virtToPhys upper (upper.physToVirt page)]
    ∃ s, empty.run cs = some s ∧ ∀ v, .virt v ∈ s.values → isCanonical v.raw = true := by
  intro upper page cs
  obtain ⟨s, run, -, -, canonical⟩ := keeps_invariants cs (by decide)
  refine ⟨s, run, canonical.mpr ?_⟩
  intro m p mem
  simp only [cs, List.mem_cons, reduceCtorEq, false_or, AddrCall.physToVirt.injEq,
    List.not_mem_nil, or_false] at mem
  rw [mem.1, mem.2, ← DirectMap.isCanonical_physToVirt_iff page (by decide)]
  decide

/-- A physical address that the identity window does not cover is shown at an address that is not
canonical. -/
theorem physToVirt_in_hole :
    ∃ cs, empty.TakesAll cs ∧ ∃ s, empty.run cs = some s ∧
      ∃ v, .virt v ∈ s.values ∧ isCanonical v.raw = false := by
  refine ⟨[.virtNew 0, .windowNew ⟨0⟩ 0x00007FFFFFFFF000, .physNew 0x0000800000000000,
    .physToVirt ⟨⟨0⟩, 0x00007FFFFFFFF000, by decide⟩ ⟨0x0000800000000000, by decide⟩],
    by decide, ?_⟩
  exact ⟨_, rfl, ⟨0x0000800000000000⟩, by decide, by decide⟩

end Addresses

end Zaytos.Common
