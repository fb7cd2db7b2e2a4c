import Zaytos.Acpi.Madt
import Zaytos.Common.Addr

set_option autoImplicit false

/-! What is kept of a MADT (`machine/pc/acpi/mod.rs`). The lines that are logged are left out, and
the reading of the table, which has been verified. -/
namespace Zaytos.Acpi

open Common (PhysAddr)

abbrev maxIoApics : Nat := 4

abbrev maxInterruptSourceOverrides : Nat := 16

abbrev maxLocalApicIds : Nat := 8

abbrev entryActiveLowBit : Nat := 1 <<< 13

abbrev entryLevelTriggeredBit : Nat := 1 <<< 15

structure IoApicLocation where
  id : UInt8
  phys : PhysAddr
  globalSystemInterruptBase : Nat
  deriving DecidableEq

structure MadtSurvey where
  localApic : Option PhysAddr
  ioApics : List (Option IoApicLocation)
  ioApicsFound : Nat
  bspCandidateApicId : Option UInt8
  interruptSourceOverrides : List (Option InterruptSourceOverride)
  interruptSourceOverridesFound : Nat
  localApicIds : List (Option UInt8)
  localApicIdsDropped : Nat
  usableLocalApics : Nat
  deriving DecidableEq

namespace MadtSurvey

def empty : MadtSurvey where
  localApic := none
  ioApics := List.replicate maxIoApics none
  ioApicsFound := 0
  bspCandidateApicId := none
  interruptSourceOverrides := List.replicate maxInterruptSourceOverrides none
  interruptSourceOverridesFound := 0
  localApicIds := List.replicate maxLocalApicIds none
  localApicIdsDropped := 0
  usableLocalApics := 0

def processorHardwareIds (m : MadtSurvey) : List UInt8 := m.localApicIds.filterMap id

def usableProcessorCount (m : MadtSurvey) : Nat := m.usableLocalApics

/-- `interrupt_source_overrides`. -/
def overrides (m : MadtSurvey) : List InterruptSourceOverride :=
  m.interruptSourceOverrides.filterMap id

/-- The loop of `gsi_for_irq` over the slots. -/
def gsiFrom (irq : UInt8) : List (Option InterruptSourceOverride) → Nat
  | [] => irq.toNat
  | none :: slots => gsiFrom irq slots
  | some iso :: slots =>
    if iso.source = irq then iso.globalSystemInterrupt else gsiFrom irq slots

def gsiForIrq (m : MadtSurvey) (irq : UInt8) : Nat := gsiFrom irq m.interruptSourceOverrides

def hasOverrideForIrq (m : MadtSurvey) (irq : UInt8) : Bool :=
  m.overrides.any fun iso => iso.source == irq

/-- The bits that the body of the loop of `redirection_flags_for_irq` sets. -/
def redirectionFlags (iso : InterruptSourceOverride) : Nat :=
  let flags := if iso.activeLow then 0 ||| entryActiveLowBit else 0
  if iso.levelTriggered then flags ||| entryLevelTriggeredBit else flags

/-- The loop of `redirection_flags_for_irq`, which one override ends. -/
def flagsFrom (irq : UInt8) : List InterruptSourceOverride → Nat
  | [] => 0
  | iso :: rest => if iso.source ≠ irq then flagsFrom irq rest else redirectionFlags iso

def redirectionFlagsForIrq (m : MadtSurvey) (irq : UInt8) : Nat := flagsFrom irq m.overrides

/-- `io_apics`. -/
def ioApicLocations (m : MadtSurvey) : List IoApicLocation := m.ioApics.filterMap id

def ioApicsDropped (m : MadtSurvey) : Nat := m.ioApicsFound - maxIoApics

def bootProcessorCandidateId (m : MadtSurvey) : Option UInt8 := m.bspCandidateApicId

end MadtSurvey

def putFirst {α : Type} (a : α) : List (Option α) → Option (List (Option α))
  | [] => none
  | none :: slots => some (some a :: slots)
  | some b :: slots => (putFirst a slots).map (some b :: ·)

/-- The variables of the loop of `walk_madt`. -/
structure Walk where
  mmio : MadtSurvey
  usableLocalApicCount : Nat
  ioApicCount : Nat
  interruptSourceOverrideCount : Nat

namespace Walk

def takeLocalApic (w : Walk) (apic : LocalApic) : Walk :=
  if apic.usable then
    let mmio := { w.mmio with
      bspCandidateApicId := w.mmio.bspCandidateApicId.or (some apic.apicId) }
    { w with
      usableLocalApicCount := w.usableLocalApicCount + 1
      mmio := match putFirst apic.apicId mmio.localApicIds with
        | some ids => { mmio with localApicIds := ids }
        | none => { mmio with localApicIdsDropped := mmio.localApicIdsDropped + 1 } }
  else w

def takeLocalX2Apic (w : Walk) (x2 : LocalX2Apic) : Walk :=
  if x2.flags &&& usableFlags ≠ 0 then
    { w with usableLocalApicCount := w.usableLocalApicCount + 1 }
  else w

def locate (io : IoApic) : Option IoApicLocation :=
  (PhysAddr.new (BitVec.ofNat 64 io.address)).map fun phys =>
    ⟨io.id, phys, io.globalSystemInterruptBase⟩

def takeIoApic (w : Walk) (io : IoApic) : Walk :=
  { w with
    ioApicCount := w.ioApicCount + 1
    mmio.ioApics := w.mmio.ioApics.set w.ioApicCount (locate io) }

def takeOverride (w : Walk) (iso : InterruptSourceOverride) : Walk :=
  { w with
    interruptSourceOverrideCount := w.interruptSourceOverrideCount + 1
    mmio.interruptSourceOverrides :=
      w.mmio.interruptSourceOverrides.set w.interruptSourceOverrideCount (some iso) }

def takeAddress (w : Walk) (address : Nat) : Walk :=
  { w with mmio.localApic := PhysAddr.new (BitVec.ofNat 64 address) }

def take {α : Type} (w : Walk) (found : Option (Option α)) (use : Walk → α → Walk) : Option Walk :=
  found.map fun found => found.elim w (use w)

/-- The body of the loop of `walk_madt` for an entry. -/
def step (w : Walk) (entry : Entry) : Option Walk :=
  if entry.entryType = typeLocalApic then w.take (parseLocalApic entry) takeLocalApic
  else if entry.entryType = typeLocalX2Apic then w.take (parseLocalX2Apic entry) takeLocalX2Apic
  else if entry.entryType = typeIoApic then w.take (parseIoApic entry) takeIoApic
  else if entry.entryType = typeInterruptSourceOverride then
    w.take (parseInterruptSourceOverride entry) takeOverride
  else if entry.entryType = typeLocalApicAddressOverride then
    w.take (parseLocalApicAddressOverride entry) takeAddress
  else some w

/-- The loop of `walk_madt`: whether it stopped early, and its variables. -/
def run (w : Walk) : List Item → Option (Bool × Walk)
  | [] => some (false, w)
  | .error _ :: _ => some (true, w)
  | .ok entry :: items => (w.step entry).bind fun w => run w items

end Walk

/-- `walk_madt`, of a table that has been read and verified. -/
def walkMadt (table : Bytes) : Option MadtSurvey := do
  match ← parseHeader table with
  | .error _ => some .empty
  | .ok fixed =>
    let mmio := { MadtSurvey.empty with
      localApic := PhysAddr.new (BitVec.ofNat 64 fixed.localApicAddress) }
    let body ← table.slice fixedLength table.len
    let items ← Entries.items (body.len / 2 + 2) (.new body)
    let (stoppedEarly, w) ← Walk.run ⟨mmio, 0, 0, 0⟩ items
    if stoppedEarly then some .empty
    else
      some { w.mmio with
        ioApicsFound := w.ioApicCount
        interruptSourceOverridesFound := w.interruptSourceOverrideCount
        usableLocalApics := w.usableLocalApicCount }

end Zaytos.Acpi

/-! The survey of a MADT has the first of what the table names, and counts all of it. -/
namespace Zaytos.Acpi

open Common (PhysAddr)

/-! Slots. -/

section Slots

variable {α : Type}

def slots (n : Nat) (xs : List (Option α)) : List (Option α) :=
  xs.take n ++ List.replicate (n - xs.length) none

theorem slots_set (n : Nat) (xs : List (Option α)) (a : Option α) :
    (slots n xs).set xs.length a = slots n (xs ++ [a]) := by
  unfold slots
  by_cases room : xs.length < n
  · obtain ⟨k, left⟩ : ∃ k, n - xs.length = k + 1 := ⟨n - xs.length - 1, by omega⟩
    rw [List.take_of_length_le (Nat.le_of_lt room), List.take_of_length_le (by simp; omega), left,
      List.set_append_right _ _ (Nat.le_refl _), Nat.sub_self, List.replicate_succ,
      List.set_cons_zero, List.length_append, List.length_singleton, List.append_assoc]
    have rest : n - (xs.length + 1) = k := by omega
    rw [rest]
    rfl
  · have none' : n - xs.length = 0 := by omega
    have none'' : n - (xs ++ [a]).length = 0 := by
      rw [List.length_append]
      omega
    rw [none', none'', List.replicate_zero, List.append_nil, List.append_nil,
      List.take_append_of_le_length (by omega), List.set_eq_of_length_le]
    rw [List.length_take]
    omega

theorem putFirst_some (a : α) (xs : List α) (rest : List (Option α)) :
    putFirst a (xs.map some ++ rest) = (putFirst a rest).map (xs.map some ++ ·) := by
  induction xs with
  | nil => simp
  | cons x xs ih =>
    rw [List.map_cons, List.cons_append, putFirst, ih, Option.map_map]
    rfl

theorem putFirst_slots (n : Nat) (xs : List α) (a : α) :
    putFirst a (slots n (xs.map some)) =
      if xs.length < n then some (slots n ((xs ++ [a]).map some)) else none := by
  unfold slots
  rw [← List.map_take, putFirst_some, List.length_map]
  by_cases room : xs.length < n
  · obtain ⟨k, left⟩ : ∃ k, n - xs.length = k + 1 := ⟨n - xs.length - 1, by omega⟩
    rw [if_pos room, left, List.replicate_succ, putFirst, List.take_of_length_le (by omega),
      List.take_of_length_le (by simp; omega), List.map_append, List.length_append, List.length_map,
      List.map_singleton, List.length_singleton, List.append_assoc]
    have rest : n - (xs.length + 1) = k := by omega
    rw [rest]
    rfl
  · have none' : n - xs.length = 0 := by omega
    rw [if_neg room, none']
    rfl

theorem filterMap_slots (n : Nat) (xs : List α) :
    (slots n (xs.map some)).filterMap id = xs.take n := by
  unfold slots
  rw [List.filterMap_append, ← List.map_take, List.filterMap_map]
  simp [List.filterMap_replicate_of_none]

end Slots

/-! What a table names. -/

def readAs {α : Type} (parse : Entry → Option (Option α)) (entries : List Entry) : List α :=
  entries.filterMap fun entry => (parse entry).join

section

variable {α : Type} {parse : Entry → Option (Option α)} {entries : List Entry} {entry : Entry}

theorem readAs_concat {found : Option α} (read : parse entry = some found) :
    readAs parse (entries ++ [entry]) = readAs parse entries ++ found.toList := by
  rw [readAs, List.filterMap_append, List.filterMap_cons, read]
  cases found <;> rfl

end

def usableIds (apics : List LocalApic) : List UInt8 :=
  (apics.filter LocalApic.usable).map LocalApic.apicId

def usableX2s (x2s : List LocalX2Apic) : List LocalX2Apic :=
  x2s.filter fun x2 => x2.flags &&& usableFlags != 0

/-- Where the local APIC is: at the last address that overrides the fixed one. -/
def addressOf (fixed : Nat) (overrides : List Nat) : Option PhysAddr :=
  PhysAddr.new (BitVec.ofNat 64 (overrides.getLast?.getD fixed))

namespace Walk

structure At (fixed : Nat) (apics : List LocalApic) (x2s : List LocalX2Apic) (ios : List IoApic)
    (isos : List InterruptSourceOverride) (overrides : List Nat) (w : Walk) : Prop where
  usable : w.usableLocalApicCount = (usableIds apics).length + (usableX2s x2s).length
  ids : w.mmio.localApicIds = slots maxLocalApicIds ((usableIds apics).map some)
  dropped : w.mmio.localApicIdsDropped = (usableIds apics).length - maxLocalApicIds
  boot : w.mmio.bspCandidateApicId = (usableIds apics).head?
  ioApicCount : w.ioApicCount = ios.length
  ioApics : w.mmio.ioApics = slots maxIoApics (ios.map locate)
  isoCount : w.interruptSourceOverrideCount = isos.length
  isos : w.mmio.interruptSourceOverrides = slots maxInterruptSourceOverrides (isos.map some)
  address : w.mmio.localApic = addressOf fixed overrides

variable {fixed : Nat} {apics : List LocalApic} {x2s : List LocalX2Apic} {ios : List IoApic}
  {isos : List InterruptSourceOverride} {overrides : List Nat} {w : Walk}

theorem At.takeLocalApic (at' : At fixed apics x2s ios isos overrides w) (apic : LocalApic) :
    At fixed (apics ++ [apic]) x2s ios isos overrides (w.takeLocalApic apic) := by
  have ids : usableIds (apics ++ [apic]) =
      usableIds apics ++ if apic.usable then [apic.apicId] else [] := by
    unfold usableIds
    cases usable : apic.usable <;> simp [usable]
  unfold Walk.takeLocalApic
  by_cases usable : apic.usable = true
  · rw [if_pos usable] at ids ⊢
    have put := putFirst_slots maxLocalApicIds (usableIds apics) apic.apicId
    have boot : w.mmio.bspCandidateApicId.or (some apic.apicId) =
        (usableIds apics ++ [apic.apicId]).head? := by
      rw [at'.boot]
      cases usableIds apics <;> rfl
    have count := at'.usable
    have dropped := at'.dropped
    dsimp only
    rw [at'.ids, put]
    by_cases room : (usableIds apics).length < maxLocalApicIds
    · rw [if_pos room]
      refine { at' with usable := ?usable, ids := ?ids, dropped := ?dropped, boot := ?boot }
      case usable =>
        rw [ids, List.length_append, List.length_singleton]
        dsimp only
        omega
      case ids => rw [ids]
      case dropped =>
        rw [ids, List.length_append, List.length_singleton]
        dsimp only
        omega
      case boot =>
        rw [ids]
        exact boot
    · have full : slots maxLocalApicIds ((usableIds apics).map some) =
          slots maxLocalApicIds ((usableIds apics ++ [apic.apicId]).map some) := by
        rw [List.map_append, List.map_singleton, ← slots_set, List.set_eq_of_length_le]
        unfold slots
        rw [List.length_append, List.length_take, List.length_map, List.length_replicate]
        omega
      rw [if_neg room]
      refine { at' with usable := ?usable, ids := ?ids, dropped := ?dropped, boot := ?boot }
      case usable =>
        rw [ids, List.length_append, List.length_singleton]
        dsimp only
        omega
      case ids =>
        rw [ids]
        exact full
      case dropped =>
        rw [ids, List.length_append, List.length_singleton]
        dsimp only
        omega
      case boot =>
        rw [ids]
        exact boot
  · rw [if_neg usable] at ids ⊢
    rw [List.append_nil] at ids
    exact { at' with
      usable := by rw [ids]; exact at'.usable
      ids := by rw [ids]; exact at'.ids
      dropped := by rw [ids]; exact at'.dropped
      boot := by rw [ids]; exact at'.boot }

theorem At.takeLocalX2Apic (at' : At fixed apics x2s ios isos overrides w) (x2 : LocalX2Apic) :
    At fixed apics (x2s ++ [x2]) ios isos overrides (w.takeLocalX2Apic x2) := by
  unfold Walk.takeLocalX2Apic
  have count := at'.usable
  by_cases usable : x2.flags &&& usableFlags ≠ 0
  · have more : usableX2s (x2s ++ [x2]) = usableX2s x2s ++ [x2] := by
      simp [usableX2s, usable]
    rw [if_pos usable]
    refine { at' with usable := ?_ }
    rw [more, List.length_append, List.length_singleton]
    dsimp only
    omega
  · have same : usableX2s (x2s ++ [x2]) = usableX2s x2s := by
      simp only [ne_eq, Decidable.not_not] at usable
      simp [usableX2s, usable]
    rw [if_neg usable]
    exact { at' with usable := by rw [same]; exact count }

theorem At.takeIoApic (at' : At fixed apics x2s ios isos overrides w) (io : IoApic) :
    At fixed apics x2s (ios ++ [io]) isos overrides (w.takeIoApic io) := by
  refine { at' with ioApicCount := ?_, ioApics := ?_ }
  · rw [List.length_append, ← at'.ioApicCount]
    rfl
  · rw [List.map_append, List.map_singleton, ← slots_set, List.length_map, ← at'.ioApicCount,
      ← at'.ioApics]
    rfl

theorem At.takeOverride (at' : At fixed apics x2s ios isos overrides w)
    (iso : InterruptSourceOverride) :
    At fixed apics x2s ios (isos ++ [iso]) overrides (w.takeOverride iso) := by
  refine { at' with isoCount := ?_, isos := ?_ }
  · rw [List.length_append, ← at'.isoCount]
    rfl
  · rw [List.map_append, List.map_singleton, ← slots_set, List.length_map, ← at'.isoCount,
      ← at'.isos]
    rfl

theorem At.takeAddress (at' : At fixed apics x2s ios isos overrides w) (address : Nat) :
    At fixed apics x2s ios isos (overrides ++ [address]) (w.takeAddress address) := by
  refine { at' with address := ?_ }
  rw [addressOf, List.getLast?_concat]
  rfl

def AtEntries (fixed : Nat) (entries : List Entry) (w : Walk) : Prop :=
  At fixed (readAs parseLocalApic entries) (readAs parseLocalX2Apic entries)
    (readAs parseIoApic entries) (readAs parseInterruptSourceOverride entries)
    (readAs parseLocalApicAddressOverride entries) w

variable {entries : List Entry}

theorem AtEntries.step (at' : AtEntries fixed entries w) (entry : Entry) :
    ∃ w', w.step entry = some w' ∧ AtEntries fixed (entries ++ [entry]) w' := by
  obtain ⟨apic, apic_eq⟩ := parseLocalApic_total entry
  obtain ⟨x2, x2_eq⟩ := parseLocalX2Apic_total entry
  obtain ⟨io, io_eq⟩ := parseIoApic_total entry
  obtain ⟨iso, iso_eq⟩ := parseInterruptSourceOverride_total entry
  obtain ⟨address, address_eq⟩ := parseLocalApicAddressOverride_total entry
  have other : ∀ {α : Type} {type : UInt8} {size : Nat} {read : Bytes → Option α}
      {found : Option α}, parse type size read entry = some found → entry.entryType ≠ type →
        found = none := by
    intro α type size read found eq ne
    rw [parse_of_ne ne, Option.some.injEq] at eq
    exact eq.symm
  unfold AtEntries at at' ⊢
  rw [readAs_concat apic_eq, readAs_concat x2_eq, readAs_concat io_eq, readAs_concat iso_eq,
    readAs_concat address_eq]
  unfold Walk.step
  by_cases first : entry.entryType = typeLocalApic
  · rw [other x2_eq (by rw [first]; decide), other io_eq (by rw [first]; decide),
      other iso_eq (by rw [first]; decide), other address_eq (by rw [first]; decide), if_pos first,
      apic_eq]
    simp only [Option.toList_none, List.append_nil]
    cases apic with
    | none => exact ⟨w, rfl, by simpa using at'⟩
    | some apic => exact ⟨_, rfl, at'.takeLocalApic apic⟩
  rw [other apic_eq first, if_neg first]
  simp only [Option.toList_none, List.append_nil]
  by_cases second : entry.entryType = typeLocalX2Apic
  · rw [other io_eq (by rw [second]; decide), other iso_eq (by rw [second]; decide),
      other address_eq (by rw [second]; decide), if_pos second, x2_eq]
    simp only [Option.toList_none, List.append_nil]
    cases x2 with
    | none => exact ⟨w, rfl, by simpa using at'⟩
    | some x2 => exact ⟨_, rfl, at'.takeLocalX2Apic x2⟩
  rw [other x2_eq second, if_neg second]
  simp only [Option.toList_none, List.append_nil]
  by_cases third : entry.entryType = typeIoApic
  · rw [other iso_eq (by rw [third]; decide), other address_eq (by rw [third]; decide),
      if_pos third, io_eq]
    simp only [Option.toList_none, List.append_nil]
    cases io with
    | none => exact ⟨w, rfl, by simpa using at'⟩
    | some io => exact ⟨_, rfl, at'.takeIoApic io⟩
  rw [other io_eq third, if_neg third]
  simp only [Option.toList_none, List.append_nil]
  by_cases fourth : entry.entryType = typeInterruptSourceOverride
  · rw [other address_eq (by rw [fourth]; decide), if_pos fourth, iso_eq]
    simp only [Option.toList_none, List.append_nil]
    cases iso with
    | none => exact ⟨w, rfl, by simpa using at'⟩
    | some iso => exact ⟨_, rfl, at'.takeOverride iso⟩
  rw [other iso_eq fourth, if_neg fourth]
  simp only [Option.toList_none, List.append_nil]
  by_cases fifth : entry.entryType = typeLocalApicAddressOverride
  · rw [if_pos fifth, address_eq]
    cases address with
    | none => exact ⟨w, rfl, by simpa using at'⟩
    | some address => exact ⟨_, rfl, at'.takeAddress address⟩
  · rw [other address_eq fifth, if_neg fifth]
    exact ⟨w, rfl, by simpa using at'⟩

theorem AtEntries.run (at' : AtEntries fixed entries w) (more : List Entry)
    (last : Option EntryError) :
    ∃ w', w.run (itemsOf more last) = some (last.isSome, w') ∧
      AtEntries fixed (entries ++ more) w' := by
  induction more generalizing w entries with
  | nil =>
    refine ⟨w, ?_, by simpa using at'⟩
    cases last <;> rfl
  | cons entry more ih =>
    obtain ⟨next, stepped, atNext⟩ := at'.step entry
    obtain ⟨w', ran, atEnd⟩ := ih atNext
    refine ⟨w', ?_, by simpa using atEnd⟩
    rw [itemsOf, List.map_cons, List.cons_append, Walk.run, stepped]
    exact ran

end Walk

end Zaytos.Acpi
