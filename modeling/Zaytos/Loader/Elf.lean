import Mathlib.Data.List.Chain
import Zaytos.Lib.Bytes
import Zaytos.Lib.Checked
import Zaytos.Lib.Exec

set_option autoImplicit false

/-! The parser of ELF files, and the check of the segments that are to be loaded. -/
namespace Zaytos.Loader

abbrev eiClassOffset : Nat := 4
abbrev eiDataOffset : Nat := 5
def elfMagic : List UInt8 := [0x7F, 0x45, 0x4C, 0x46]
abbrev elfClass64 : UInt8 := 2
abbrev elfData2Lsb : UInt8 := 1
abbrev etExec : Nat := 2
abbrev emX86_64 : Nat := 62
abbrev ptLoad : Nat := 1
abbrev pfX : Nat := 1
abbrev pfW : Nat := 2
abbrev pfR : Nat := 4
abbrev pfPermissions : Nat := pfX ||| pfW ||| pfR
abbrev loadPageSize : Nat := 4096
abbrev ehdrSize : Nat := 64
abbrev eType : Nat := 16
abbrev eMachine : Nat := 18
abbrev eEntry : Nat := 24
abbrev ePhoff : Nat := 32
abbrev ePhentsize : Nat := 54
abbrev ePhnum : Nat := 56
abbrev phdrSize : Nat := 56

inductive ElfError where
  | tooShort
  | badMagic
  | notElf64
  | notLittleEndian
  | notExecutable
  | notX86_64
  | programHeaderOutOfBounds
  | badProgramHeaderEntrySize
  | segmentFileRangeOutOfBounds
  | segmentMemorySmallerThanFile
  | segmentAddressOverflow
  deriving DecidableEq, Repr

inductive LayoutError where
  | emptySegment (index : Nat)
  | addressOverflow (index : Nat)
  | outOfOrder (index : Nat)
  | overlap (index : Nat)
  | mixedPermissionsInPage (index page : Nat)
  | fileDataInSharedPage (index page : Nat)
  | writableAndExecutable (index : Nat)
  deriving DecidableEq, Repr

structure ProgramHeader where
  pType : Nat
  pFlags : Nat
  pOffset : Nat
  pVaddr : Nat
  pPaddr : Nat
  pFilesz : Nat
  pMemsz : Nat
  pAlign : Nat
  deriving DecidableEq, Repr

structure Elf where
  data : Bytes
  entryPoint : Nat
  phOff : Nat
  phNum : Nat

/-- `file_range`: where the bytes of a segment start and end in the file. -/
def fileRange (dataLen : Nat) (ph : ProgramHeader) : Result ElfError (Nat × Nat) :=
  match add64 ph.pOffset ph.pFilesz with
  | none => .err .segmentFileRangeOutOfBounds
  | some past =>
    if dataLen < past then .err .segmentFileRangeOutOfBounds else .ok (ph.pOffset, past)

namespace Elf

/-- One of `program_headers`. -/
def programHeader (elf : Elf) (i : Nat) : Result ElfError ProgramHeader := do
  let skipped ← liftM (mul64 i phdrSize)
  let base ← liftM (add64 elf.phOff skipped)
  let past ← liftM (add64 base phdrSize)
  let ph ← liftM (elf.data.slice base past)
  let pType ← liftM (ph.readU32 0)
  let pFlags ← liftM (ph.readU32 4)
  let pOffset ← liftM (ph.readU64 8)
  let pVaddr ← liftM (ph.readU64 16)
  let pPaddr ← liftM (ph.readU64 24)
  let pFilesz ← liftM (ph.readU64 32)
  let pMemsz ← liftM (ph.readU64 40)
  let pAlign ← liftM (ph.readU64 48)
  return { pType, pFlags, pOffset, pVaddr, pPaddr, pFilesz, pMemsz, pAlign }

def headersOf (elf : Elf) : List Nat → Result ElfError (List ProgramHeader)
  | [] => return []
  | i :: rest => do
    let ph ← elf.programHeader i
    let others ← elf.headersOf rest
    return ph :: others

def programHeaders (elf : Elf) : Result ElfError (List ProgramHeader) :=
  elf.headersOf (List.range elf.phNum)

/-- What `validate_program_headers` looks at in each header. -/
def validateHeader (elf : Elf) (ph : ProgramHeader) : Result ElfError Unit := do
  let _ ← fileRange elf.data.len ph
  Result.rejectIf (ph.pMemsz < ph.pFilesz) .segmentMemorySmallerThanFile
  match add64 ph.pVaddr ph.pMemsz with
  | none => .err .segmentAddressOverflow
  | some _ => return

/-- The loop of `validate_program_headers`. A header is cut out when the loop comes to it. -/
def validateHeaders (elf : Elf) : List Nat → Result ElfError Unit
  | [] => return
  | i :: rest => do
    let ph ← elf.programHeader i
    elf.validateHeader ph
    elf.validateHeaders rest

def validateProgramHeaders (elf : Elf) : Result ElfError Unit :=
  elf.validateHeaders (List.range elf.phNum)

def parse (data : Bytes) : Result ElfError Elf := do
  Result.rejectIf (data.len < ehdrSize) .tooShort
  let magic ← liftM (data.slice 0 4)
  Result.rejectIf (magic.toList ≠ elfMagic) .badMagic
  let elfClass ← liftM (data.readU8 eiClassOffset)
  Result.rejectIf (elfClass ≠ elfClass64) .notElf64
  let encoding ← liftM (data.readU8 eiDataOffset)
  Result.rejectIf (encoding ≠ elfData2Lsb) .notLittleEndian
  let fileType ← liftM (data.readU16 eType)
  Result.rejectIf (fileType ≠ etExec) .notExecutable
  let machine ← liftM (data.readU16 eMachine)
  Result.rejectIf (machine ≠ emX86_64) .notX86_64
  let entryPoint ← liftM (data.readU64 eEntry)
  let phOff ← liftM (data.readU64 ePhoff)
  let phentsize ← liftM (data.readU16 ePhentsize)
  let phNum ← liftM (data.readU16 ePhnum)
  Result.rejectIf (phentsize ≠ phdrSize) .badProgramHeaderEntrySize
  match mul64 phdrSize phNum with
  | none => .err .programHeaderOutOfBounds
  | some tableLen =>
    match add64 phOff tableLen with
    | none => .err .programHeaderOutOfBounds
    | some tableEnd =>
      Result.rejectIf (data.len < tableEnd) .programHeaderOutOfBounds
      let elf : Elf := { data, entryPoint, phOff, phNum }
      elf.validateProgramHeaders
      return elf

def segmentData (elf : Elf) (ph : ProgramHeader) : Result ElfError Bytes := do
  let range ← fileRange elf.data.len ph
  liftM (elf.data.slice range.1 range.2)

def loadSegments (elf : Elf) : Result ElfError (List ProgramHeader) := do
  let headers ← elf.programHeaders
  return headers.filter fun ph => ph.pType == ptLoad

end Elf

def pageStart (address : Nat) : Nat := address - address % loadPageSize

def ProgramHeader.permissions (ph : ProgramHeader) : Nat := ph.pFlags &&& pfPermissions

/-- What `check_load_layout` looks at in a segment and the one before it, given by its start, its
end and its permissions. -/
def checkAfter (index : Nat) (ph : ProgramHeader) :
    Option (Nat × Nat × Nat) → Result LayoutError Unit
  | none => return
  | some (previousStart, previousEnd, previousPermissions) => do
    Result.rejectIf (ph.pVaddr < previousStart) (.outOfOrder index)
    Result.rejectIf (ph.pVaddr < previousEnd) (.overlap index)
    let last ← liftM (sub previousEnd 1)
    let page := pageStart ph.pVaddr
    Result.rejectIf (pageStart last = page ∧ ph.permissions ≠ previousPermissions)
      (.mixedPermissionsInPage index page)
    Result.rejectIf (pageStart last = page ∧ ph.pFilesz ≠ 0) (.fileDataInSharedPage index page)

/-- What `check_load_layout` looks at in a segment by itself. It gives the end of the segment. -/
def checkSegment (index : Nat) (ph : ProgramHeader) : Result LayoutError Nat := do
  Result.rejectIf (ph.pMemsz = 0) (.emptySegment index)
  match add64 ph.pVaddr ph.pMemsz with
  | none => .err (.addressOverflow index)
  | some past =>
    match add64 past (loadPageSize - 1) with
    | none => .err (.addressOverflow index)
    | some _ =>
      Result.rejectIf (ph.permissions &&& pfW ≠ 0 ∧ ph.permissions &&& pfX ≠ 0)
        (.writableAndExecutable index)
      return past

/-- The loop of `check_load_layout`. -/
def checkLoadLayoutFrom (previous : Option (Nat × Nat × Nat)) (index : Nat) :
    List ProgramHeader → Result LayoutError Unit
  | [] => return
  | ph :: rest => do
    let past ← checkSegment index ph
    checkAfter index ph previous
    checkLoadLayoutFrom (some (ph.pVaddr, past, ph.permissions)) (index + 1) rest

def checkLoadLayout (segments : List ProgramHeader) : Result LayoutError Unit :=
  checkLoadLayoutFrom none 0 segments

def headerAt (d : Bytes) (pos : Nat) : ProgramHeader where
  pType := d.u32 pos
  pFlags := d.u32 (pos + 4)
  pOffset := d.u64 (pos + 8)
  pVaddr := d.u64 (pos + 16)
  pPaddr := d.u64 (pos + 24)
  pFilesz := d.u64 (pos + 32)
  pMemsz := d.u64 (pos + 40)
  pAlign := d.u64 (pos + 48)

theorem fileRange_sat (dataLen : Nat) (ph : ProgramHeader) :
    (fileRange dataLen ph).Sat
      (fun range => range = (ph.pOffset, ph.pOffset + ph.pFilesz) ∧
        ph.pOffset + ph.pFilesz < 2 ^ 64 ∧ ph.pOffset + ph.pFilesz ≤ dataLen)
      (fun _ => True) := by
  rw [fileRange]
  cases sum : add64 ph.pOffset ph.pFilesz with
  | none => trivial
  | some past =>
    dsimp only
    split
    · trivial
    · have total := add64_eq_some.mp sum
      have same : past = ph.pOffset + ph.pFilesz := total.2
      exact ⟨congrArg (ph.pOffset, ·) same, total.1, by omega⟩

namespace Elf

structure Table (elf : Elf) : Prop where
  inside : elf.phOff + phdrSize * elf.phNum ≤ elf.data.len
  small : elf.phOff + phdrSize * elf.phNum < 2 ^ 64

structure Accepts (elf : Elf) (ph : ProgramHeader) : Prop where
  range : ph.pOffset + ph.pFilesz < 2 ^ 64
  file : ph.pOffset + ph.pFilesz ≤ elf.data.len
  memory : ph.pFilesz ≤ ph.pMemsz
  address : ph.pVaddr + ph.pMemsz < 2 ^ 64

/-- What the type documents: the table is in the file, and every header is accepted. -/
structure Valid (elf : Elf) : Prop where
  table : elf.Table
  accepts : ∀ i < elf.phNum, elf.Accepts (headerAt elf.data (elf.phOff + i * phdrSize))

variable {elf : Elf}

theorem programHeader_eq (table : elf.Table) {i : Nat} (entry : i < elf.phNum) :
    elf.programHeader i = .ok (headerAt elf.data (elf.phOff + i * phdrSize)) := by
  have inside := table.inside
  have small := table.small
  have within : i * phdrSize + phdrSize ≤ phdrSize * elf.phNum := by
    show i * 56 + 56 ≤ 56 * elf.phNum
    omega
  have product : mul64 i phdrSize = some (i * phdrSize) := mul64_of_lt (by omega)
  have sum : add64 elf.phOff (i * phdrSize) = some (elf.phOff + i * phdrSize) :=
    add64_of_lt (by omega)
  have past : add64 (elf.phOff + i * phdrSize) phdrSize =
      some (elf.phOff + i * phdrSize + phdrSize) := add64_of_lt (by omega)
  have cut := Bytes.slice_of_le
    (show elf.phOff + i * phdrSize ≤ elf.phOff + i * phdrSize + phdrSize by omega)
    (show elf.phOff + i * phdrSize + phdrSize ≤ elf.data.len by omega)
  rw [Nat.add_sub_cancel_left] at cut
  simp only [programHeader, product, sum, past, cut, Result.lift_some, Result.ok_bind,
    Bytes.readU32, Bytes.readU64]
  rfl

theorem programHeaders_eq (table : elf.Table) : elf.programHeaders = .ok
    ((List.range elf.phNum).map fun i => headerAt elf.data (elf.phOff + i * phdrSize)) := by
  have each : ∀ l : List Nat, (∀ i ∈ l, i < elf.phNum) → elf.headersOf l =
      .ok (l.map fun i => headerAt elf.data (elf.phOff + i * phdrSize)) := by
    intro l
    induction l with
    | nil => intro _; rfl
    | cons i rest ih =>
      intro entries
      rw [headersOf, programHeader_eq table (entries i List.mem_cons_self), Result.ok_bind,
        ih fun j mem => entries j (List.mem_cons_of_mem _ mem)]
      rfl
  exact each _ fun i mem => List.mem_range.mp mem

theorem validateHeader_sat (elf : Elf) (ph : ProgramHeader) :
    (elf.validateHeader ph).Sat (fun _ => elf.Accepts ph) (fun _ => True) := by
  rw [validateHeader, Result.sat_bind]
  apply (fileRange_sat elf.data.len ph).mono
  · intro range _ holds
    rw [Result.sat_bind, Result.sat_rejectIf]
    apply And.intro (fun _ => trivial)
    intro enough
    cases sum : add64 ph.pVaddr ph.pMemsz with
    | none => trivial
    | some past => exact ⟨holds.2.1, holds.2.2, by omega, (add64_eq_some.mp sum).1⟩
  · intro _ _ _
    trivial

theorem validateProgramHeaders_sat (table : elf.Table) :
    elf.validateProgramHeaders.Sat (fun _ => elf.Valid) (fun _ => True) := by
  have each : ∀ l : List Nat, (∀ i ∈ l, i < elf.phNum) →
      (elf.validateHeaders l).Sat
        (fun _ => ∀ i ∈ l, elf.Accepts (headerAt elf.data (elf.phOff + i * phdrSize)))
        (fun _ => True) := by
    intro l
    induction l with
    | nil =>
      intro _ i mem
      cases mem
    | cons i rest ih =>
      intro entries
      rw [validateHeaders, programHeader_eq table (entries i List.mem_cons_self), Result.ok_bind,
        Result.sat_bind]
      apply (validateHeader_sat elf _).mono
      · intro _ _ accepts
        apply (ih fun j mem => entries j (List.mem_cons_of_mem _ mem)).mono
        · intro _ _ others j mem
          cases mem with
          | head => exact accepts
          | tail _ mem => exact others j mem
        · intro _ _ _
          trivial
      · intro _ _ _
        trivial
  apply (each _ fun i mem => List.mem_range.mp mem).mono
  · intro _ _ accepts
    exact ⟨table, fun i entry => accepts i (List.mem_range.mpr entry)⟩
  · intro _ _ _
    trivial

theorem parse_sat (data : Bytes) :
    (parse data).Sat (fun elf => elf.data = data ∧ elf.Valid) (fun _ => True) := by
  rw [parse, Result.sat_bind, Result.sat_rejectIf]
  apply And.intro (fun _ => trivial)
  intro long
  have len : 64 ≤ data.len := by
    have : ehdrSize = 64 := rfl
    omega
  simp only [Bytes.slice_of_le (Nat.zero_le 4) (show 4 ≤ data.len by omega),
    Bytes.readU8_of_lt (show eiClassOffset < data.len by show 4 < _; omega),
    Bytes.readU8_of_lt (show eiDataOffset < data.len by show 5 < _; omega),
    Bytes.readU16_of_le (show eType + 2 ≤ data.len by show 18 ≤ _; omega),
    Bytes.readU16_of_le (show eMachine + 2 ≤ data.len by show 20 ≤ _; omega),
    Bytes.readU16_of_le (show ePhentsize + 2 ≤ data.len by show 56 ≤ _; omega),
    Bytes.readU16_of_le (show ePhnum + 2 ≤ data.len by show 58 ≤ _; omega),
    Bytes.readU64_of_le (show eEntry + 8 ≤ data.len by show 32 ≤ _; omega),
    Bytes.readU64_of_le (show ePhoff + 8 ≤ data.len by show 40 ≤ _; omega),
    Result.lift_some, Result.ok_bind, Result.sat_bind, Result.sat_rejectIf]
  -- The checks of the first fields refuse or go on.
  refine ⟨fun _ => trivial, fun _ => ⟨fun _ => trivial, fun _ => ⟨fun _ => trivial, fun _ =>
    ⟨fun _ => trivial, fun _ => ⟨fun _ => trivial, fun _ => ⟨fun _ => trivial, fun _ => ?_⟩⟩⟩⟩⟩⟩
  cases product : mul64 phdrSize (data.u16 ePhnum) with
  | none => trivial
  | some tableLen =>
    dsimp only
    cases sum : add64 (data.u64 ePhoff) tableLen with
    | none => trivial
    | some tableEnd =>
      dsimp only
      rw [Result.sat_bind, Result.sat_rejectIf]
      apply And.intro (fun _ => trivial)
      intro inside
      have size := (mul64_eq_some.mp product).2
      have past := add64_eq_some.mp sum
      rw [size] at past
      rw [Result.sat_bind]
      apply (validateProgramHeaders_sat ⟨?_, past.1⟩).mono
      · intro _ _ valid
        exact ⟨rfl, valid⟩
      · intro _ _ _
        trivial
      · show data.u64 ePhoff + phdrSize * data.u16 ePhnum ≤ data.len
        omega

theorem Accepts.segmentData {ph : ProgramHeader} (accepts : elf.Accepts ph) :
    elf.segmentData ph =
      .ok ⟨ph.pFilesz, fun k => elf.data.get (ph.pOffset + k)⟩ := by
  have range : fileRange elf.data.len ph = .ok (ph.pOffset, ph.pOffset + ph.pFilesz) := by
    rw [fileRange, add64_of_lt accepts.range]
    exact if_neg (not_lt.mpr accepts.file)
  have cut := Bytes.slice_of_le (Nat.le_add_right ph.pOffset ph.pFilesz) accepts.file
  rw [Nat.add_sub_cancel_left] at cut
  simp only [Elf.segmentData, range, Result.ok_bind, cut, Result.lift_some]

end Elf

/-! The layout of the segments. -/

def pageUp (address : Nat) : Nat := (address + (loadPageSize - 1)) / loadPageSize * loadPageSize

namespace ProgramHeader

def past (ph : ProgramHeader) : Nat := ph.pVaddr + ph.pMemsz

structure Loadable (ph : ProgramHeader) : Prop where
  filled : 0 < ph.pMemsz
  fits : pageUp ph.past < 2 ^ 64
  strict : ¬ (ph.pFlags.testBit 1 = true ∧ ph.pFlags.testBit 0 = true)

/-- A segment may come after another: behind it, and in its last page only with the same
permissions and nothing of its own from the file. -/
structure Follows (first next : ProgramHeader) : Prop where
  behind : first.past ≤ next.pVaddr
  shares : next.pVaddr / loadPageSize = (first.past - 1) / loadPageSize →
    next.permissions = first.permissions ∧ next.pFilesz = 0

def Touches (ph : ProgramHeader) (page : Nat) : Prop :=
  ∃ address, ph.pVaddr ≤ address ∧ address < ph.past ∧ address / loadPageSize = page

variable {ph first next last : ProgramHeader}

theorem permissions_and (ph : ProgramHeader) (bit : Nat) (small : bit < 2) :
    ph.permissions &&& 2 ^ bit ≠ 0 ↔ ph.pFlags.testBit bit = true := by
  have kept : pfPermissions &&& 2 ^ bit = 2 ^ bit := by
    revert bit
    decide
  rw [permissions, Nat.and_assoc, kept, Nat.and_two_pow]
  cases ph.pFlags.testBit bit <;> simp

theorem writableExecutable_iff (ph : ProgramHeader) :
    (ph.permissions &&& pfW ≠ 0 ∧ ph.permissions &&& pfX ≠ 0) ↔
      (ph.pFlags.testBit 1 = true ∧ ph.pFlags.testBit 0 = true) :=
  and_congr (ph.permissions_and 1 (by decide)) (ph.permissions_and 0 (by decide))

theorem fits_iff (address : Nat) :
    pageUp address < 2 ^ 64 ↔ address + (loadPageSize - 1) < 2 ^ 64 := by
  unfold pageUp
  simp only [loadPageSize]
  omega

theorem pageStart_eq_iff (a b : Nat) :
    pageStart a = pageStart b ↔ a / loadPageSize = b / loadPageSize := by
  simp only [pageStart, loadPageSize]
  omega

theorem Follows.trans (before : Follows first ph) (after : Follows ph next)
    (filled : 0 < ph.pMemsz) (begun : 0 < first.pMemsz) : Follows first next := by
  have behind := before.behind
  have behind' := after.behind
  have length : ph.past = ph.pVaddr + ph.pMemsz := rfl
  have length' : first.past = first.pVaddr + first.pMemsz := rfl
  constructor
  · omega
  · intro same
    have page : ph.pVaddr / loadPageSize = (first.past - 1) / loadPageSize := by
      simp only [loadPageSize] at same ⊢
      omega
    have page' : next.pVaddr / loadPageSize = (ph.past - 1) / loadPageSize := by
      simp only [loadPageSize] at same ⊢
      omega
    have shared := before.shares page
    have shared' := after.shares page'
    exact ⟨shared'.1.trans shared.1, shared'.2⟩

theorem Follows.shared (follows : Follows first next) {page : Nat} (one : first.Touches page)
    (other : next.Touches page) : next.permissions = first.permissions ∧ next.pFilesz = 0 := by
  apply follows.shares
  have behind := follows.behind
  apply Exists.elim one
  intro a before
  apply Exists.elim other
  intro b after
  simp only [loadPageSize] at before after ⊢
  omega

def remembered (ph : ProgramHeader) : Nat × Nat × Nat := (ph.pVaddr, ph.past, ph.permissions)

end ProgramHeader

open ProgramHeader

variable {ph first : ProgramHeader}

def Accepted (first : ProgramHeader) (segments : List ProgramHeader) : Prop :=
  (∀ ph ∈ segments, ph.Loadable) ∧ (first :: segments).IsChain Follows

theorem accepted_cons {rest : List ProgramHeader} :
    Accepted first (ph :: rest) ↔ ph.Loadable ∧ Follows first ph ∧ Accepted ph rest := by
  unfold Accepted
  rw [List.forall_mem_cons, List.isChain_cons_cons]
  constructor
  · intro all
    exact ⟨all.1.1, all.2.1, all.1.2, all.2.2⟩
  · intro all
    exact ⟨⟨all.1, all.2.2.1⟩, all.2.1, all.2.2.2⟩

theorem checkSegment_sat (index : Nat) (ph : ProgramHeader) :
    (checkSegment index ph).Sat (fun past => past = ph.past ∧ ph.Loadable)
      (fun _ => ¬ ph.Loadable) := by
  rw [checkSegment, Result.sat_bind, Result.sat_rejectIf]
  constructor
  · intro empty loadable
    exact absurd empty (ne_of_gt loadable.filled)
  intro filled
  cases sum : add64 ph.pVaddr ph.pMemsz with
  | none =>
    intro loadable
    have fits := (fits_iff ph.past).mp loadable.fits
    have := add64_of_lt (lt_of_le_of_lt (Nat.le_add_right _ _) fits)
    exact absurd (sum.symm.trans this) nofun
  | some past =>
    have same : past = ph.past := (add64_eq_some.mp sum).2
    dsimp only
    cases up : add64 past (loadPageSize - 1) with
    | none =>
      intro loadable
      have fits := (fits_iff ph.past).mp loadable.fits
      rw [same, add64_of_lt fits] at up
      exact absurd up nofun
    | some _ =>
      have fits := (add64_eq_some.mp up).1
      dsimp only
      rw [Result.sat_bind, Result.sat_rejectIf, ph.writableExecutable_iff]
      constructor
      · intro both loadable
        exact loadable.strict both
      · intro strict
        rw [same] at fits
        exact ⟨same, Nat.pos_of_ne_zero filled, (fits_iff ph.past).mpr fits, strict⟩

theorem checkAfter_sat (index : Nat) (begun : 0 < first.pMemsz) :
    (checkAfter index ph (some first.remembered)).Sat (fun _ => Follows first ph)
      (fun _ => ¬ Follows first ph) := by
  have length : first.past = first.pVaddr + first.pMemsz := rfl
  have last : sub first.past 1 = some (first.past - 1) := sub_of_le (by omega)
  rw [remembered, checkAfter, Result.sat_bind, Result.sat_rejectIf]
  constructor
  · intro before follows
    have := follows.behind
    omega
  intro _
  rw [Result.sat_bind, Result.sat_rejectIf]
  constructor
  · intro before follows
    have := follows.behind
    omega
  intro behind
  rw [last, Result.lift_some, Result.ok_bind, Result.sat_bind, Result.sat_rejectIf]
  constructor
  · intro mixed follows
    exact mixed.2 (follows.shares ((pageStart_eq_iff _ _).mp mixed.1.symm)).1
  intro same
  rw [Result.sat_rejectIf]
  constructor
  · intro data follows
    exact data.2 (follows.shares ((pageStart_eq_iff _ _).mp data.1.symm)).2
  intro clean
  constructor
  · exact not_lt.mp behind
  · intro shares
    have page := ((pageStart_eq_iff _ _).mpr shares).symm
    exact ⟨not_not.mp fun differ => same ⟨page, differ⟩, not_not.mp fun data => clean ⟨page, data⟩⟩

theorem checkLoadLayoutFrom_some (begun : 0 < first.pMemsz) (index : Nat)
    (segments : List ProgramHeader) :
    (checkLoadLayoutFrom (some first.remembered) index segments).Sat
      (fun _ => Accepted first segments) (fun _ => ¬ Accepted first segments) := by
  induction segments generalizing first index with
  | nil =>
    rw [checkLoadLayoutFrom]
    exact ⟨fun ph mem => absurd mem List.not_mem_nil, List.isChain_singleton first⟩
  | cons ph rest ih =>
    rw [accepted_cons, checkLoadLayoutFrom, Result.sat_bind]
    apply (checkSegment_sat index ph).mono
    · intro past _ checked
      rw [checked.1, Result.sat_bind]
      apply (checkAfter_sat index begun).mono
      · intro _ _ follows
        apply (ih checked.2.filled (index + 1)).mono
        · intro _ _ accepted
          exact ⟨checked.2, follows, accepted⟩
        · intro _ _ refused all
          exact refused all.2.2
      · intro _ _ apart all
        exact apart all.2.1
    · intro _ _ refused all
      exact refused all.1

theorem checkLoadLayout_sat (segments : List ProgramHeader) :
    (checkLoadLayout segments).Sat
      (fun _ => (∀ ph ∈ segments, ph.Loadable) ∧ segments.IsChain Follows)
      (fun _ => ¬ ((∀ ph ∈ segments, ph.Loadable) ∧ segments.IsChain Follows)) := by
  rw [checkLoadLayout]
  cases segments with
  | nil =>
    rw [checkLoadLayoutFrom]
    exact ⟨fun ph mem => absurd mem List.not_mem_nil, List.isChain_nil⟩
  | cons ph rest =>
    rw [checkLoadLayoutFrom, Result.sat_bind]
    apply (checkSegment_sat 0 ph).mono
    · intro past _ checked
      rw [checked.1]
      apply (checkLoadLayoutFrom_some checked.2.filled 1 rest).mono
      · intro _ _ accepted
        exact ⟨List.forall_mem_cons.mpr ⟨checked.2, accepted.1⟩, accepted.2⟩
      · intro _ _ refused all
        exact refused ⟨(List.forall_mem_cons.mp all.1).2, all.2⟩
    · intro _ _ refused all
      exact refused (all.1 ph List.mem_cons_self)

theorem follows_pairwise {segments : List ProgramHeader} (loadable : ∀ ph ∈ segments, ph.Loadable)
    (chain : segments.IsChain Follows) : segments.Pairwise Follows := by
  induction segments with
  | nil => exact List.Pairwise.nil
  | cons ph rest ih =>
    have others := List.forall_mem_cons.mp loadable
    have pairs := ih others.2 chain.tail
    apply List.Pairwise.cons _ pairs
    cases rest with
    | nil =>
      intro last mem
      cases mem
    | cons next more =>
      have follows := (List.isChain_cons_cons.mp chain).1
      intro last mem
      cases mem with
      | head => exact follows
      | tail _ mem =>
        exact follows.trans ((List.pairwise_cons.mp pairs).1 last mem)
          (others.2 next List.mem_cons_self).filled others.1.filled

/-- The parser answers to every file; what it accepts has every header, and the bytes of every
header, inside the file. The check of the layout accepts exactly the segments that can be loaded
page by page, and of two that have a page in common, neighbours or not, the permissions agree and
at most the first has bytes from the file. -/
theorem elf_sound :
    (∀ data, Elf.parse data ≠ .fault) ∧
    (∀ data elf, Elf.parse data = .ok elf → elf.data = data ∧
      elf.phOff + phdrSize * elf.phNum ≤ data.len ∧
      ∃ headers, elf.programHeaders = .ok headers ∧ headers.length = elf.phNum ∧
        ∀ ph ∈ headers, ph.pOffset + ph.pFilesz ≤ data.len ∧
          (∃ bytes, elf.segmentData ph = .ok bytes) ∧ ph.pFilesz ≤ ph.pMemsz ∧
          ph.pVaddr + ph.pMemsz < 2 ^ 64) ∧
    ∀ segments, checkLoadLayout segments ≠ .fault ∧
      (checkLoadLayout segments = .ok () ↔
        (∀ ph ∈ segments, ph.Loadable) ∧ segments.IsChain Follows) ∧
      (checkLoadLayout segments = .ok () → segments.Pairwise fun first next =>
        ∀ page, first.Touches page → next.Touches page →
          next.permissions = first.permissions ∧ next.pFilesz = 0) := by
  have accepted : ∀ segments, checkLoadLayout segments = .ok () ↔
      (∀ ph ∈ segments, ph.Loadable) ∧ segments.IsChain Follows := by
    intro segments
    have sat := checkLoadLayout_sat segments
    cases checked : checkLoadLayout segments with
    | fault => exact absurd checked sat.ne_fault
    | err e =>
      rw [checked] at sat
      exact iff_of_false nofun sat
    | ok _ =>
      rw [checked] at sat
      exact iff_of_true rfl sat
  refine ⟨fun data => (Elf.parse_sat data).ne_fault, ?_, fun segments =>
    ⟨(checkLoadLayout_sat segments).ne_fault, accepted segments, ?_⟩⟩
  · intro data elf parsed
    have valid := Elf.parse_sat data
    rw [parsed] at valid
    apply And.intro valid.1
    rw [← valid.1]
    apply And.intro valid.2.table.inside
    refine ⟨_, Elf.programHeaders_eq valid.2.table, by simp, ?_⟩
    intro ph mem
    apply Exists.elim (List.mem_map.mp mem)
    intro i entry
    have accepts := valid.2.accepts i (List.mem_range.mp entry.1)
    rw [entry.2] at accepts
    exact ⟨accepts.file, ⟨_, accepts.segmentData⟩, accepts.memory, accepts.address⟩
  · intro checked
    have all := (accepted segments).mp checked
    apply (follows_pairwise all.1 all.2).imp
    intro first next follows page one other
    exact follows.shared one other

end Zaytos.Loader
