import Zaytos.Lib.Bytes

set_option autoImplicit false

/-! The entries of a MADT (`machine/pc/acpi/madt.rs`): each says how long it is, and the walk stops
where one of them cannot be right. An index or a slice that leaves the bytes has no outcome. -/
namespace Zaytos.Acpi

abbrev fixedLength : Nat := 44

abbrev offsetLocalApicAddress : Nat := 36

abbrev offsetFlags : Nat := 40

abbrev minEntryLength : Nat := 2

abbrev typeLocalApic : UInt8 := 0
abbrev typeIoApic : UInt8 := 1
abbrev typeInterruptSourceOverride : UInt8 := 2
abbrev typeNmiSource : UInt8 := 3
abbrev typeLocalApicNmi : UInt8 := 4
abbrev typeLocalApicAddressOverride : UInt8 := 5
abbrev typeLocalX2Apic : UInt8 := 9
abbrev typeLocalX2ApicNmi : UInt8 := 10

def minimumLength (entryType : UInt8) : UInt8 :=
  if entryType = typeLocalApic then 8
  else if entryType = typeIoApic then 12
  else if entryType = typeInterruptSourceOverride then 10
  else if entryType = typeNmiSource then 8
  else if entryType = typeLocalApicNmi then 6
  else if entryType = typeLocalApicAddressOverride then 12
  else if entryType = typeLocalX2Apic then 16
  else if entryType = typeLocalX2ApicNmi then 12
  else UInt8.ofNat minEntryLength

inductive MadtError where
  | tooShort (need got : Nat)
  deriving DecidableEq

structure MadtHeader where
  localApicAddress : Nat
  flags : Nat

def parseHeader (bytes : Bytes) : Option (Except MadtError MadtHeader) :=
  if bytes.len < fixedLength then some (.error (.tooShort fixedLength bytes.len))
  else do
    let localApicAddress ← bytes.readU32 offsetLocalApicAddress
    let flags ← bytes.readU32 offsetFlags
    some (.ok ⟨localApicAddress, flags⟩)

inductive EntryError where
  | truncatedHeader (remaining : Nat)
  | zeroLength
  | lengthBelowMinimum (entryType length minimum : UInt8)
  | lengthExceedsRemaining (entryType length : UInt8) (remaining : Nat)
  deriving DecidableEq

/-- `Entry`: `bytes` has the type and the length too. -/
structure Entry where
  entryType : UInt8
  length : UInt8
  bytes : Bytes

/-- `Entries`: what is left of the table, and whether something in it was wrong. -/
structure Entries where
  rest : Bytes
  stopped : Bool

abbrev Item := Except EntryError Entry

namespace Entries

def new (body : Bytes) : Entries := ⟨body, false⟩

def next (e : Entries) : Option (Option Item × Entries) :=
  if e.stopped ∨ e.rest.len = 0 then some (none, e)
  else if e.rest.len < minEntryLength then
    some (some (.error (.truncatedHeader e.rest.len)), { e with stopped := true })
  else do
    let entryType ← e.rest.readU8 0
    let length ← e.rest.readU8 1
    if length = 0 then some (some (.error .zeroLength), { e with stopped := true })
    else if length < minimumLength entryType then
      some (some (.error (.lengthBelowMinimum entryType length (minimumLength entryType))),
        { e with stopped := true })
    else if e.rest.len < length.toNat then
      some (some (.error (.lengthExceedsRemaining entryType length e.rest.len)),
        { e with stopped := true })
    else do
      let entry ← e.rest.slice 0 length.toNat
      let rest ← e.rest.slice length.toNat e.rest.len
      some (some (.ok ⟨entryType, length, entry⟩), { e with rest })

/-- What the iterator gives in so many calls, if the last of them says that this is all. -/
def items : (calls : Nat) → Entries → Option (List Item)
  | 0, _ => none
  | calls + 1, e => do
    let step ← e.next
    match step.1 with
    | none => some []
    | some item => (items calls step.2).map (item :: ·)

end Entries

structure LocalApic where
  processorUid : UInt8
  apicId : UInt8
  flags : Nat

/-- `FLAG_ENABLED | FLAG_ONLINE_CAPABLE`. -/
abbrev usableFlags : Nat := 1 <<< 0 ||| 1 <<< 1

def LocalApic.usable (a : LocalApic) : Bool := a.flags &&& usableFlags != 0

def parse {α : Type} (entryType : UInt8) (size : Nat) (read : Bytes → Option α) (entry : Entry) :
    Option (Option α) :=
  if entry.entryType ≠ entryType ∨ entry.bytes.len < size then some none
  else (read entry.bytes).map some

def parseLocalApic : Entry → Option (Option LocalApic) :=
  parse typeLocalApic 8 fun bytes => do
    let processorUid ← bytes.readU8 2
    let apicId ← bytes.readU8 3
    let flags ← bytes.readU32 4
    some ⟨processorUid, apicId, flags⟩

structure LocalX2Apic where
  apicId : Nat
  flags : Nat
  processorUid : Nat

def parseLocalX2Apic : Entry → Option (Option LocalX2Apic) :=
  parse typeLocalX2Apic 16 fun bytes => do
    let apicId ← bytes.readU32 4
    let flags ← bytes.readU32 8
    let processorUid ← bytes.readU32 12
    some ⟨apicId, flags, processorUid⟩

structure IoApic where
  id : UInt8
  address : Nat
  globalSystemInterruptBase : Nat

def parseIoApic : Entry → Option (Option IoApic) :=
  parse typeIoApic 12 fun bytes => do
    let id ← bytes.readU8 2
    let address ← bytes.readU32 4
    let globalSystemInterruptBase ← bytes.readU32 8
    some ⟨id, address, globalSystemInterruptBase⟩

structure InterruptSourceOverride where
  bus : UInt8
  source : UInt8
  globalSystemInterrupt : Nat
  flags : Nat
  deriving DecidableEq

namespace InterruptSourceOverride

/-- `active_low`: both bits of `INTI_POLARITY_MASK`. -/
def activeLow (iso : InterruptSourceOverride) : Bool := iso.flags &&& 0b11 == 0b11

/-- `level_triggered`: both bits of `INTI_TRIGGER_MASK`. -/
def levelTriggered (iso : InterruptSourceOverride) : Bool :=
  iso.flags &&& 0b11 <<< 2 == 0b11 <<< 2

end InterruptSourceOverride

def parseInterruptSourceOverride : Entry → Option (Option InterruptSourceOverride) :=
  parse typeInterruptSourceOverride 10 fun bytes => do
    let bus ← bytes.readU8 2
    let source ← bytes.readU8 3
    let globalSystemInterrupt ← bytes.readU32 4
    let flags ← bytes.readU16 8
    some ⟨bus, source, globalSystemInterrupt, flags⟩

def parseLocalApicAddressOverride : Entry → Option (Option Nat) :=
  parse typeLocalApicAddressOverride 12 fun bytes => bytes.readU64 4

section

variable {α : Type} {entryType : UInt8} {size : Nat} {read : Bytes → Option α} {entry : Entry}

theorem parse_total (reads : ∀ bytes : Bytes, size ≤ bytes.len → ∃ a, read bytes = some a)
    (entry : Entry) : ∃ found, parse entryType size read entry = some found := by
  unfold parse
  split
  · exact ⟨none, rfl⟩
  case isFalse fits =>
    rw [not_or, not_lt] at fits
    obtain ⟨a, eq⟩ := reads entry.bytes fits.2
    rw [eq]
    exact ⟨some a, rfl⟩

theorem parse_of_ne (other : entry.entryType ≠ entryType) :
    parse entryType size read entry = some none := if_pos (.inl other)

end

theorem parseLocalApic_total (entry : Entry) : ∃ found, parseLocalApic entry = some found := by
  apply parse_total
  intro bytes fits
  rw [Bytes.readU8_of_lt (by omega), Bytes.readU8_of_lt (by omega), Bytes.readU32_of_le (by omega)]
  exact ⟨_, rfl⟩

theorem parseLocalX2Apic_total (entry : Entry) :
    ∃ found, parseLocalX2Apic entry = some found := by
  apply parse_total
  intro bytes fits
  rw [Bytes.readU32_of_le (by omega), Bytes.readU32_of_le (by omega),
    Bytes.readU32_of_le (by omega)]
  exact ⟨_, rfl⟩

theorem parseIoApic_total (entry : Entry) : ∃ found, parseIoApic entry = some found := by
  apply parse_total
  intro bytes fits
  rw [Bytes.readU8_of_lt (by omega), Bytes.readU32_of_le (by omega),
    Bytes.readU32_of_le (by omega)]
  exact ⟨_, rfl⟩

theorem parseInterruptSourceOverride_total (entry : Entry) :
    ∃ found, parseInterruptSourceOverride entry = some found := by
  apply parse_total
  intro bytes fits
  rw [Bytes.readU8_of_lt (by omega), Bytes.readU8_of_lt (by omega),
    Bytes.readU32_of_le (by omega), Bytes.readU16_of_le (by omega)]
  exact ⟨_, rfl⟩

theorem parseLocalApicAddressOverride_total (entry : Entry) :
    ∃ found, parseLocalApicAddressOverride entry = some found := by
  apply parse_total
  intro bytes fits
  rw [Bytes.readU64_of_le (by omega)]
  exact ⟨_, rfl⟩

/-! The walk. -/

def bytesOf (entries : List Entry) : List UInt8 :=
  entries.flatMap fun entry => entry.bytes.view 0 entry.bytes.len

structure Entry.Sound (entry : Entry) : Prop where
  length : entry.bytes.len = entry.length.toNat
  minimum : minimumLength entry.entryType ≤ entry.length
  two : minEntryLength ≤ entry.bytes.len

/-- The entries of a table: one after the other from its start, and either up to its end or up to
where something is wrong. -/
structure Walked (body : Bytes) (entries : List Entry) (last : Option EntryError) : Prop where
  sound : ∀ entry ∈ entries, entry.Sound
  front : ∃ n, n ≤ body.len ∧ bytesOf entries = body.view 0 n ∧ (last = none ↔ n = body.len)

theorem Walked.nil (body : Bytes) {last : Option EntryError} (ends : last = none ↔ 0 = body.len) :
    Walked body [] last where
  sound := by simp
  front := ⟨0, Nat.zero_le _, rfl, ends⟩

theorem Walked.cons {body : Bytes} {entries : List Entry} {last : Option EntryError} {entry : Entry}
    {n : Nat} (walked : Walked ⟨body.len - n, fun k => body.get (n + k)⟩ entries last)
    (sound : entry.Sound) (fits : n ≤ body.len)
    (first : entry.bytes.view 0 entry.bytes.len = body.view 0 n) :
    Walked body (entry :: entries) last where
  sound := List.forall_mem_cons.mpr ⟨sound, walked.sound⟩
  front := by
    obtain ⟨m, inside, whole, ends⟩ := walked.front
    have shifted :
        (⟨body.len - n, fun k => body.get (n + k)⟩ : Bytes).view 0 m = body.view n m := by
      simp [Bytes.view]
    dsimp only at inside ends
    refine ⟨n + m, by omega, ?_, ?_⟩
    · rw [bytesOf, List.flatMap_cons, first, Bytes.view_add, zero_add, ← shifted, ← whole]
      rfl
    · rw [ends]
      omega

theorem minEntryLength_le (entryType : UInt8) :
    minEntryLength ≤ (minimumLength entryType).toNat := by
  unfold minimumLength
  repeat' split
  all_goals decide

theorem Entries.next_cases (body : Bytes) (nonempty : 0 < body.len) :
    (∃ error, (Entries.new body).next = some (some (.error error), ⟨body, true⟩)) ∨
    ∃ entry n, (Entries.new body).next =
        some (some (.ok entry), .new ⟨body.len - n, fun k => body.get (n + k)⟩) ∧
      entry.Sound ∧ n = entry.bytes.len ∧ n ≤ body.len ∧
        entry.bytes.view 0 entry.bytes.len = body.view 0 n := by
  unfold Entries.next Entries.new
  dsimp only
  have least : minEntryLength = 2 := rfl
  rw [if_neg (by simp; omega)]
  by_cases header : body.len < minEntryLength
  · rw [if_pos header]
    exact .inl ⟨_, rfl⟩
  rw [if_neg header, Bytes.readU8_of_lt (by omega), Bytes.readU8_of_lt (by omega)]
  simp only [Option.bind_eq_bind, Option.bind_some]
  by_cases zero : body.get 1 = 0
  · rw [if_pos zero]
    exact .inl ⟨_, rfl⟩
  rw [if_neg zero]
  by_cases short : body.get 1 < minimumLength (body.get 0)
  · rw [if_pos short]
    exact .inl ⟨_, rfl⟩
  rw [if_neg short]
  by_cases long : body.len < (body.get 1).toNat
  · rw [if_pos long]
    exact .inl ⟨_, rfl⟩
  rw [if_neg long, Bytes.slice_of_le (Nat.zero_le _) (by omega), Option.bind_some,
    Bytes.slice_of_le (by omega) (le_rfl), Option.bind_some]
  have minimum : minimumLength (body.get 0) ≤ body.get 1 := UInt8.not_lt.mp short
  have two := le_trans (minEntryLength_le (body.get 0)) (UInt8.le_iff_toNat_le.mp minimum)
  refine .inr ⟨_, (body.get 1).toNat, rfl, ⟨Nat.sub_zero _, minimum, ?_⟩, ?_, ?_, ?_⟩
  · dsimp only
    omega
  · dsimp only
    omega
  · omega
  · dsimp only
    rw [Nat.sub_zero]
    simp [Bytes.view]

theorem Entries.items_stopped (body : Bytes) (calls : Nat) :
    items (calls + 1) ⟨body, true⟩ = some [] := by
  rw [items]
  simp [next]

theorem Entries.items_empty {body : Bytes} (empty : body.len = 0) (calls : Nat) :
    items (calls + 1) (.new body) = some [] := by
  rw [items]
  simp [next, new, empty]

def itemsOf (entries : List Entry) (last : Option EntryError) : List Item :=
  entries.map .ok ++ last.toList.map .error

theorem Entries.items_walked (body : Bytes) {calls : Nat} (enough : body.len / 2 + 2 ≤ calls) :
    ∃ entries last, items calls (.new body) = some (itemsOf entries last) ∧
      Walked body entries last ∧ 2 * entries.length ≤ body.len := by
  have least : minEntryLength = 2 := rfl
  induction calls generalizing body with
  | zero => omega
  | succ calls ih =>
    by_cases empty : body.len = 0
    · exact ⟨[], none, items_empty empty calls, Walked.nil body (by simp [empty]), Nat.zero_le _⟩
    have nonempty := Nat.pos_of_ne_zero empty
    rw [items]
    rcases next_cases body nonempty with ⟨error, stops⟩ | ⟨entry, n, goes, sound, size, fits, front⟩
    · obtain ⟨more, calls_eq⟩ : ∃ more, calls = more + 1 := ⟨calls - 1, by omega⟩
      rw [stops, calls_eq]
      simp only [Option.bind_eq_bind, Option.bind_some, items_stopped, Option.map_some]
      refine ⟨[], some error, rfl, Walked.nil body ?_, Nat.zero_le _⟩
      simp
      omega
    · have two := sound.two
      obtain ⟨entries, last, walk, walked, few⟩ :=
        ih ⟨body.len - n, fun k => body.get (n + k)⟩ (by dsimp only; omega)
      rw [goes]
      simp only [Option.bind_eq_bind, Option.bind_some, walk, Option.map_some]
      refine ⟨entry :: entries, last, rfl, walked.cons sound fits front, ?_⟩
      dsimp only at few
      rw [List.length_cons]
      omega

end Zaytos.Acpi
