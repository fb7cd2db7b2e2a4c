import Zaytos.Acpi.Survey

set_option autoImplicit false

/-! The survey of any table: its walk comes to an end, and what it reports is of the whole table. -/
namespace Zaytos.Acpi

open Common (PhysAddr)

/-- The override that counts for an interrupt: the first one for it of those that are kept. -/
def overrideFor (isos : List InterruptSourceOverride) (irq : UInt8) :
    Option InterruptSourceOverride :=
  (isos.take maxInterruptSourceOverrides).find? fun iso => iso.source == irq

section Overrides

variable {irq : UInt8}

theorem gsiFrom_eq (irq : UInt8) (slots : List (Option InterruptSourceOverride)) :
    MadtSurvey.gsiFrom irq slots = ((slots.filterMap id).find? fun iso => iso.source == irq).elim
      irq.toNat InterruptSourceOverride.globalSystemInterrupt := by
  induction slots with
  | nil => rfl
  | cons slot slots ih =>
    cases slot with
    | none => exact ih
    | some iso =>
      rw [MadtSurvey.gsiFrom, List.filterMap_cons_some (f := id) (a := some iso) rfl,
        List.find?_cons]
      by_cases same : iso.source = irq
      · rw [if_pos same, beq_iff_eq.mpr same]
        rfl
      · rw [if_neg same, beq_eq_false_iff_ne.mpr same]
        exact ih

theorem flagsFrom_eq (irq : UInt8) (isos : List InterruptSourceOverride) :
    MadtSurvey.flagsFrom irq isos =
      (isos.find? fun iso => iso.source == irq).elim 0 MadtSurvey.redirectionFlags := by
  induction isos with
  | nil => rfl
  | cons iso isos ih =>
    rw [MadtSurvey.flagsFrom, List.find?_cons]
    by_cases same : iso.source = irq
    · rw [if_neg (not_not.mpr same), beq_iff_eq.mpr same]
      rfl
    · rw [if_pos same, beq_eq_false_iff_ne.mpr same]
      exact ih

end Overrides

structure Accounts (fixed : Nat) (entries : List Entry) (m : MadtSurvey) : Prop where
  usable : m.usableProcessorCount = (usableIds (readAs parseLocalApic entries)).length +
    (usableX2s (readAs parseLocalX2Apic entries)).length
  boot : usableX2s (readAs parseLocalX2Apic entries) = [] →
    m.bootProcessorCandidateId = (usableIds (readAs parseLocalApic entries)).head?
  ids : usableX2s (readAs parseLocalX2Apic entries) = [] →
    m.processorHardwareIds = (usableIds (readAs parseLocalApic entries)).take maxLocalApicIds
  recorded : usableX2s (readAs parseLocalX2Apic entries) = [] →
    m.usableProcessorCount = m.processorHardwareIds.length + m.localApicIdsDropped
  ioApics : m.ioApicLocations.length + m.ioApicsDropped = (readAs parseIoApic entries).length
  gsi : ∀ irq, m.gsiForIrq irq =
    (overrideFor (readAs parseInterruptSourceOverride entries) irq).elim irq.toNat
      InterruptSourceOverride.globalSystemInterrupt
  has : ∀ irq, m.hasOverrideForIrq irq =
    (overrideFor (readAs parseInterruptSourceOverride entries) irq).isSome
  flags : ∀ irq, m.redirectionFlagsForIrq irq =
    (overrideFor (readAs parseInterruptSourceOverride entries) irq).elim 0
      MadtSurvey.redirectionFlags
  address : m.localApic = addressOf fixed (readAs parseLocalApicAddressOverride entries)

theorem locate_isSome {entries : List Entry} {io : IoApic} (mem : io ∈ readAs parseIoApic entries) :
    ∃ location, Walk.locate io = some location := by
  obtain ⟨entry, -, read⟩ := List.mem_filterMap.mp mem
  have small : io.address < 2 ^ 32 := by
    unfold parseIoApic parse at read
    split at read
    · cases read
    case isFalse fits =>
      rw [not_or, not_lt] at fits
      dsimp only at read
      rw [Bytes.readU8_of_lt (by omega), Bytes.readU32_of_le (by omega),
        Bytes.readU32_of_le (by omega)] at read
      cases read
      exact Bytes.u32_lt _ _
  have valid : Common.isValidPhys (BitVec.ofNat 64 io.address) = true := by
    rw [Common.isValidPhys_iff, BitVec.toNat_ofNat]
    omega
  unfold Walk.locate PhysAddr.new
  rw [dif_pos valid]
  exact ⟨_, rfl⟩

theorem length_located {n : Nat} {ios : List IoApic}
    (located : ∀ io ∈ ios, ∃ location, Walk.locate io = some location) :
    ((slots n (ios.map Walk.locate)).filterMap id).length = min n ios.length := by
  have every : ((ios.take n).filterMap Walk.locate).length = (ios.take n).length := by
    have sub : ∀ io ∈ ios.take n, ∃ location, Walk.locate io = some location :=
      fun io mem => located io (List.mem_of_mem_take mem)
    generalize ios.take n = some' at sub
    induction some' with
    | nil => rfl
    | cons io rest ih =>
      simp only [List.forall_mem_cons] at sub
      obtain ⟨location, eq⟩ := sub.1
      rw [List.filterMap_cons_some eq, List.length_cons, List.length_cons, ih sub.2]
  unfold slots
  rw [List.filterMap_append, ← List.map_take, List.filterMap_map,
    List.filterMap_replicate_of_none rfl, List.append_nil]
  exact every.trans List.length_take

variable {fixed : Nat} {entries : List Entry} {w : Walk}

theorem Walk.AtEntries.accounts (at' : AtEntries fixed entries w) :
    Accounts fixed entries { w.mmio with
      ioApicsFound := w.ioApicCount
      interruptSourceOverridesFound := w.interruptSourceOverrideCount
      usableLocalApics := w.usableLocalApicCount } := by
  have kept : w.mmio.interruptSourceOverrides.filterMap id =
      (readAs parseInterruptSourceOverride entries).take maxInterruptSourceOverrides := by
    rw [at'.isos, filterMap_slots]
  have ids : w.mmio.localApicIds.filterMap id =
      (usableIds (readAs parseLocalApic entries)).take maxLocalApicIds := by
    rw [at'.ids, filterMap_slots]
  constructor
  case usable => exact at'.usable
  case boot => exact fun _ => at'.boot
  case ids => exact fun _ => ids
  case recorded =>
    intro none'
    have usable := at'.usable
    have dropped := at'.dropped
    rw [none', List.length_nil] at usable
    unfold MadtSurvey.usableProcessorCount MadtSurvey.processorHardwareIds
    dsimp only
    rw [ids, List.length_take]
    omega
  case ioApics =>
    unfold MadtSurvey.ioApicLocations MadtSurvey.ioApicsDropped
    dsimp only
    rw [at'.ioApics, length_located fun io mem => locate_isSome mem, at'.ioApicCount]
    omega
  case gsi =>
    intro irq
    unfold MadtSurvey.gsiForIrq overrideFor
    rw [gsiFrom_eq]
    dsimp only
    rw [kept]
  case has =>
    intro irq
    unfold MadtSurvey.hasOverrideForIrq MadtSurvey.overrides overrideFor
    dsimp only
    rw [kept, List.isSome_find?]
  case flags =>
    intro irq
    unfold MadtSurvey.redirectionFlagsForIrq MadtSurvey.overrides overrideFor
    dsimp only
    rw [kept, flagsFrom_eq]
  case address => exact at'.address

def bodyOf (table : Bytes) : Bytes :=
  ⟨table.len - fixedLength, fun k => table.get (fixedLength + k)⟩

/-- The iterator gives all entries of any table and comes to an end. If something in the table is
wrong, the survey is the empty one, and otherwise it accounts for every entry. -/
theorem survey_accounts (table : Bytes) (enough : fixedLength ≤ table.len) :
    ∃ entries last,
      Entries.items ((bodyOf table).len / 2 + 2) (.new (bodyOf table)) =
        some (itemsOf entries last) ∧
      (itemsOf entries last).length ≤ (bodyOf table).len / 2 + 1 ∧
      Walked (bodyOf table) entries last ∧
      (last ≠ none → walkMadt table = some .empty) ∧
      (last = none → ∃ m, walkMadt table = some m ∧
        Accounts (table.u32 offsetLocalApicAddress) entries m) := by
  obtain ⟨entries, last, walk, walked, few⟩ :=
    Entries.items_walked (bodyOf table) (le_rfl)
  have header : parseHeader table =
      some (.ok ⟨table.u32 offsetLocalApicAddress, table.u32 offsetFlags⟩) := by
    have address : offsetLocalApicAddress + 4 ≤ table.len := le_trans (by decide) enough
    have flags : offsetFlags + 4 ≤ table.len := le_trans (by decide) enough
    rw [parseHeader, if_neg (not_lt.mpr enough), Bytes.readU32_of_le address,
      Bytes.readU32_of_le flags]
    rfl
  have body : table.slice fixedLength table.len = some (bodyOf table) :=
    Bytes.slice_of_le enough (le_rfl)
  have start : Walk.AtEntries (table.u32 offsetLocalApicAddress) []
      ⟨{ MadtSurvey.empty with
          localApic := PhysAddr.new (BitVec.ofNat 64 (table.u32 offsetLocalApicAddress)) },
        0, 0, 0⟩ :=
    ⟨rfl, rfl, rfl, rfl, rfl, rfl, rfl, rfl, rfl⟩
  obtain ⟨w, ran, atEnd⟩ := start.run entries last
  refine ⟨entries, last, walk, ?_, walked, ?_, ?_⟩
  · rw [itemsOf, List.length_append, List.length_map, List.length_map]
    cases last with
    | none => simp; omega
    | some error => simp; omega
  · intro wrong
    cases last with
    | none => exact absurd rfl wrong
    | some error =>
      unfold walkMadt
      simp only [header, body, walk, ran, Option.bind_eq_bind, Option.bind_some]
      rfl
  · intro right
    rw [right] at ran walk
    refine ⟨_, ?_, atEnd.accounts⟩
    unfold walkMadt
    simp only [header, body, walk, ran, Option.bind_eq_bind, Option.bind_some]
    rfl

section Small

def tableOf (entries : List UInt8) : Bytes :=
  ⟨fixedLength + entries.length, fun k => if k < fixedLength then 0 else entries.getD (k - 44) 0⟩

def smallTable : Bytes := tableOf ([0, 8, 0, 5, 1, 0, 0, 0] ++
  [1, 12, 1, 0, 0, 0, 0xC0, 0xFE, 0, 0, 0, 0] ++ [2, 10, 0, 0, 2, 0, 0, 0, 0, 0])

def manyOverrides : Bytes := tableOf
  ((List.replicate 16 [2, 10, 0, 0, 2, 0, 0, 0, 0, 0]).flatten ++ [2, 10, 0, 1, 9, 0, 0, 0, 0, 0])

def wideProcessor : Bytes := tableOf [9, 16, 0, 0, 3, 0, 0, 0, 1, 0, 0, 0, 0, 0, 0, 0]

def entriesOf (items : List Item) : List Entry := items.filterMap Except.toOption

theorem survey_accounts_small : ∃ entries m,
    Entries.items ((bodyOf smallTable).len / 2 + 2) (.new (bodyOf smallTable)) =
      some (itemsOf entries none) ∧
    walkMadt smallTable = some m ∧ Accounts 0 entries m := by
  obtain ⟨entries, last, walk, -, walked, wrong, right⟩ := survey_accounts smallTable (by decide)
  have none' : last = none := by
    by_contra other
    have lost := wrong other
    have known : (walkMadt smallTable).map MadtSurvey.usableProcessorCount = some 1 := by
      decide +kernel
    rw [lost] at known
    cases known
  obtain ⟨m, made, accounts⟩ := right none'
  rw [none'] at walk
  exact ⟨entries, m, walk, made, accounts⟩

/-- The first override for an interrupt can be one too many, and a processor can be counted without
being recorded or dropped. -/
theorem survey_misses :
    ((walkMadt manyOverrides).map fun m => (m.gsiForIrq 1, m.hasOverrideForIrq 1)) =
        some (1, false) ∧
      ((Entries.items ((bodyOf manyOverrides).len / 2 + 2) (.new (bodyOf manyOverrides))).map
        fun items =>
        ((readAs parseInterruptSourceOverride (entriesOf items)).find? fun iso =>
          iso.source == 1).map InterruptSourceOverride.globalSystemInterrupt) = some (some 9) ∧
    (walkMadt wideProcessor).map (fun m =>
      (m.usableProcessorCount, m.processorHardwareIds.length, m.localApicIdsDropped)) =
        some (1, 0, 0) := by
  decide +kernel

end Small

end Zaytos.Acpi
