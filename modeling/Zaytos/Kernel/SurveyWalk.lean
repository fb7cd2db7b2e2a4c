import Zaytos.Kernel.PageWalk
import Zaytos.Lib.Coalesce

set_option autoImplicit false

/-! The walk over all page tables that lists what is mapped, by ranges of equal permissions. -/
namespace Zaytos.Kernel.PageSurvey

open Paging (Word Tables)

namespace Bits

abbrev present : Word := 0x1
abbrev writable : Word := 0x2
abbrev user : Word := 0x4
abbrev writeThrough : Word := 0x8
abbrev cacheDisable : Word := 0x10
abbrev pageSizeOrSmallPat : Word := 0x80
abbrev global : Word := 0x100
abbrev shared : Word := 0x200
abbrev largePat : Word := 0x1000
abbrev noExecute : Word := 0x8000000000000000
abbrev tableAddress : Word := 0x000FFFFFFFFFF000

end Bits

abbrev entries : Nat := 512

inductive MappingSize where
  | small
  | large
  | giant
  deriving DecidableEq, Repr

def MappingSize.bytes : MappingSize → Nat
  | small => 2 ^ 12
  | large => 2 ^ 21
  | giant => 2 ^ 30

structure MappingPermissions where
  writable : Bool
  user : Bool
  executable : Bool
  cache : UInt8
  global : Bool
  shared : Bool
  tablesWritable : Bool
  tablesUser : Bool
  tablesExecutable : Bool
  deriving DecidableEq, Repr

structure MappedRange where
  start : Word
  pages : Nat
  size : MappingSize
  permissions : MappingPermissions
  deriving DecidableEq, Repr

def MappedRange.bytes (range : MappedRange) : Option Nat := mul64 range.pages range.size.bytes

structure Path where
  writable : Bool
  user : Bool
  executable : Bool

namespace Path

def start : Path := ⟨true, true, true⟩

def through (path : Path) (entry : Word) : Path where
  writable := path.writable && entry &&& Bits.writable != 0
  user := path.user && entry &&& Bits.user != 0
  executable := path.executable && entry &&& Bits.noExecute == 0

end Path

def permissionsOf (leaf : Word) (size : MappingSize) (path : Path) : MappingPermissions :=
  let pat := match size with
    | .small => Bits.pageSizeOrSmallPat
    | .large | .giant => Bits.largePat
  { writable := leaf &&& Bits.writable != 0
    user := leaf &&& Bits.user != 0
    executable := leaf &&& Bits.noExecute == 0
    cache := (leaf &&& Bits.writeThrough != 0).toUInt8 |||
      (leaf &&& Bits.cacheDisable != 0).toUInt8 <<< 1 ||| (leaf &&& pat != 0).toUInt8 <<< 2
    global := leaf &&& Bits.global != 0
    shared := leaf &&& Bits.shared != 0
    tablesWritable := path.writable
    tablesUser := path.user
    tablesExecutable := path.executable }

def addressOf (top upper middle leaf : Nat) : Word :=
  let low := BitVec.ofNat 64 top <<< 39 ||| BitVec.ofNat 64 upper <<< 30 |||
    BitVec.ofNat 64 middle <<< 21 ||| BitVec.ofNat 64 leaf <<< 12
  if top ≥ entries / 2 then low ||| 0xFFFF000000000000 else low

structure Joiner where
  pending : Option MappedRange
  visited : List MappedRange

namespace Joiner

def flush (j : Joiner) : Joiner :=
  match j.pending with
  | none => j
  | some range => ⟨none, j.visited ++ [range]⟩

/-- `Joiner::leaf`, `none` where it would overflow. -/
def leaf (j : Joiner) (start : Word) (size : MappingSize) (permissions : MappingPermissions) :
    Option Joiner :=
  match j.pending with
  | none => some { j.flush with pending := some ⟨start, 1, size, permissions⟩ }
  | some pending => do
    let bytes ← pending.bytes
    if add64 pending.start.toNat bytes = some start.toNat ∧ pending.size = size ∧
        pending.permissions = permissions then
      let pages ← add64 pending.pages 1
      return { j with pending := some { pending with pages } }
    else
      return { j.flush with pending := some ⟨start, 1, size, permissions⟩ }

end Joiner

section

variable (read : Tables)

def walkSmall (top upper middle : Nat) (table : Word) (path : Path) (joiner : Joiner) :
    Option Joiner :=
  (List.range entries).foldlM (fun joiner leafIndex =>
    let leafEntry := read table leafIndex
    if leafEntry &&& Bits.present = 0 then some joiner
    else joiner.leaf (addressOf top upper middle leafIndex) .small
      (permissionsOf leafEntry .small path)) joiner

def walkMiddle (top upper : Nat) (table : Word) (path : Path) (joiner : Joiner) : Option Joiner :=
  (List.range entries).foldlM (fun joiner middleIndex =>
    let middleEntry := read table middleIndex
    if middleEntry &&& Bits.present = 0 then some joiner
    else if middleEntry &&& Bits.pageSizeOrSmallPat ≠ 0 then
      joiner.leaf (addressOf top upper middleIndex 0) .large (permissionsOf middleEntry .large path)
    else walkSmall read top upper middleIndex (middleEntry &&& Bits.tableAddress)
      (path.through middleEntry) joiner) joiner

def walkUpper (top : Nat) (table : Word) (path : Path) (joiner : Joiner) : Option Joiner :=
  (List.range entries).foldlM (fun joiner upperIndex =>
    let upperEntry := read table upperIndex
    if upperEntry &&& Bits.present = 0 then some joiner
    else if upperEntry &&& Bits.pageSizeOrSmallPat ≠ 0 then
      joiner.leaf (addressOf top upperIndex 0 0) .giant (permissionsOf upperEntry .giant path)
    else walkMiddle read top upperIndex (upperEntry &&& Bits.tableAddress)
      (path.through upperEntry) joiner) joiner

/-- `walk` over the indices of the root from `start` up to `stop`: the ranges that it visits. -/
def walk (root : Word) (start stop : Nat) : Option (List MappedRange) := do
  let joiner ← (List.range' start (min stop entries - start)).foldlM (fun joiner topIndex =>
    let topEntry := read root topIndex
    if topEntry &&& Bits.present = 0 then some joiner
    else walkUpper read topIndex (topEntry &&& Bits.tableAddress) (Path.start.through topEntry)
      joiner) ⟨none, []⟩
  return joiner.flush.visited

end

end Zaytos.Kernel.PageSurvey
