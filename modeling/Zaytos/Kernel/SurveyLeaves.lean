import Zaytos.Kernel.SurveyWalk

set_option autoImplicit false

/-! The leaves that the walk comes to, and where they stand. -/
namespace Zaytos.Kernel.PageSurvey

open Paging (Word Tables)
open Coalesce

structure Leaf where
  start : Word
  size : MappingSize
  permissions : MappingPermissions

def pathOf (way : List Word) : Path where
  writable := way.all fun entry => entry &&& Bits.writable != 0
  user := way.all fun entry => entry &&& Bits.user != 0
  executable := way.all fun entry => entry &&& Bits.noExecute == 0

theorem start_through (entry : Word) : Path.start.through entry = pathOf [entry] := by
  simp [Path.start, Path.through, pathOf]

theorem pathOf_through (way : List Word) (entry : Word) :
    (pathOf way).through entry = pathOf (way ++ [entry]) := by
  simp [Path.through, pathOf]

section

variable (read : Tables) (root : Word) (top upper middle leaf : Nat)

/-! The entries that the indices lead to, each in the table that the one above it points to. -/

def topEntry : Word := read root top
def upperEntry : Word := read (topEntry read root top &&& Bits.tableAddress) upper
def middleEntry : Word := read (upperEntry read root top upper &&& Bits.tableAddress) middle
def leafEntry : Word := read (middleEntry read root top upper middle &&& Bits.tableAddress) leaf

end

/-- The leaves that are present and reached through tables that are, from some indices of the
root. -/
inductive Reached (read : Tables) (root : Word) (indices : Nat → Prop) : Leaf → Prop
  | giant (top upper : Nat) (inTop : indices top) (inUpper : upper < entries)
      (hasTop : topEntry read root top &&& Bits.present ≠ 0)
      (hasUpper : upperEntry read root top upper &&& Bits.present ≠ 0)
      (page : upperEntry read root top upper &&& Bits.pageSizeOrSmallPat ≠ 0) :
      Reached read root indices ⟨addressOf top upper 0 0, .giant,
        permissionsOf (upperEntry read root top upper) .giant (pathOf [topEntry read root top])⟩
  | large (top upper middle : Nat) (inTop : indices top) (inUpper : upper < entries)
      (inMiddle : middle < entries) (hasTop : topEntry read root top &&& Bits.present ≠ 0)
      (hasUpper : upperEntry read root top upper &&& Bits.present ≠ 0)
      (table : upperEntry read root top upper &&& Bits.pageSizeOrSmallPat = 0)
      (hasMiddle : middleEntry read root top upper middle &&& Bits.present ≠ 0)
      (page : middleEntry read root top upper middle &&& Bits.pageSizeOrSmallPat ≠ 0) :
      Reached read root indices ⟨addressOf top upper middle 0, .large,
        permissionsOf (middleEntry read root top upper middle) .large
          (pathOf [topEntry read root top, upperEntry read root top upper])⟩
  | small (top upper middle leaf : Nat) (inTop : indices top) (inUpper : upper < entries)
      (inMiddle : middle < entries) (inLeaf : leaf < entries)
      (hasTop : topEntry read root top &&& Bits.present ≠ 0)
      (hasUpper : upperEntry read root top upper &&& Bits.present ≠ 0)
      (table : upperEntry read root top upper &&& Bits.pageSizeOrSmallPat = 0)
      (hasMiddle : middleEntry read root top upper middle &&& Bits.present ≠ 0)
      (table' : middleEntry read root top upper middle &&& Bits.pageSizeOrSmallPat = 0)
      (hasLeaf : leafEntry read root top upper middle leaf &&& Bits.present ≠ 0) :
      Reached read root indices ⟨addressOf top upper middle leaf, .small,
        permissionsOf (leafEntry read root top upper middle leaf) .small
          (pathOf [topEntry read root top, upperEntry read root top upper,
            middleEntry read root top upper middle])⟩

section

variable (read : Tables)

/-! The leaves in the order of the walk. -/

def smallLeaves (top upper middle : Nat) (table : Word) (way : List Word) : List Leaf :=
  (List.range entries).flatMap fun leafIndex =>
    let entry := read table leafIndex
    if entry &&& Bits.present = 0 then []
    else [⟨addressOf top upper middle leafIndex, .small, permissionsOf entry .small (pathOf way)⟩]

def middleLeaves (top upper : Nat) (table : Word) (way : List Word) : List Leaf :=
  (List.range entries).flatMap fun middleIndex =>
    let entry := read table middleIndex
    if entry &&& Bits.present = 0 then []
    else if entry &&& Bits.pageSizeOrSmallPat ≠ 0 then
      [⟨addressOf top upper middleIndex 0, .large, permissionsOf entry .large (pathOf way)⟩]
    else smallLeaves read top upper middleIndex (entry &&& Bits.tableAddress) (way ++ [entry])

def upperLeaves (top : Nat) (table : Word) (way : List Word) : List Leaf :=
  (List.range entries).flatMap fun upperIndex =>
    let entry := read table upperIndex
    if entry &&& Bits.present = 0 then []
    else if entry &&& Bits.pageSizeOrSmallPat ≠ 0 then
      [⟨addressOf top upperIndex 0 0, .giant, permissionsOf entry .giant (pathOf way)⟩]
    else middleLeaves read top upperIndex (entry &&& Bits.tableAddress) (way ++ [entry])

def leaves (root : Word) (start stop : Nat) : List Leaf :=
  (List.range' start (min stop entries - start)).flatMap fun topIndex =>
    let entry := read root topIndex
    if entry &&& Bits.present = 0 then []
    else upperLeaves read topIndex (entry &&& Bits.tableAddress) [entry]

end

def Joiner.take (j : Joiner) (found : Leaf) : Option Joiner :=
  j.leaf found.start found.size found.permissions

theorem foldlM_flatMap {α β σ : Type} (f : σ → β → Option σ) (group : α → List β) (l : List α)
    (s : σ) : (l.flatMap group).foldlM f s = l.foldlM (fun s a => (group a).foldlM f s) s := by
  induction l generalizing s with
  | nil => rfl
  | cons a rest ih =>
    rw [List.flatMap_cons, List.foldlM_append, List.foldlM_cons]
    congr
    funext next
    exact ih next

variable {absent : Prop} {found : Leaf}

section

variable {read : Tables} {root : Word} {way : List Word} {joiner : Joiner} {start stop : Nat}

theorem foldlM_single (found : Leaf) : [found].foldlM Joiner.take joiner = joiner.take found := by
  rw [List.foldlM_cons]
  exact bind_pure _

theorem walkSmall_eq (top upper middle : Nat) (table : Word) :
    walkSmall read top upper middle table (pathOf way) joiner =
      (smallLeaves read top upper middle table way).foldlM Joiner.take joiner := by
  rw [walkSmall, smallLeaves, foldlM_flatMap]
  congr
  funext j index
  dsimp only
  split
  · rfl
  · rw [foldlM_single]
    rfl

theorem walkMiddle_eq (top upper : Nat) (table : Word) :
    walkMiddle read top upper table (pathOf way) joiner =
      (middleLeaves read top upper table way).foldlM Joiner.take joiner := by
  rw [walkMiddle, middleLeaves, foldlM_flatMap]
  congr
  funext j index
  dsimp only
  split
  · rfl
  · split
    · rw [foldlM_single]
      rfl
    · rw [pathOf_through, walkSmall_eq]

theorem walkUpper_eq (top : Nat) (table : Word) :
    walkUpper read top table (pathOf way) joiner =
      (upperLeaves read top table way).foldlM Joiner.take joiner := by
  rw [walkUpper, upperLeaves, foldlM_flatMap]
  congr
  funext j index
  dsimp only
  split
  · rfl
  · split
    · rw [foldlM_single]
      rfl
    · rw [pathOf_through, walkMiddle_eq]

theorem walk_eq : walk read root start stop =
    ((leaves read root start stop).foldlM Joiner.take ⟨none, []⟩).map fun joiner =>
      joiner.flush.visited := by
  have steps : (fun joiner topIndex =>
      let entry := read root topIndex
      if entry &&& Bits.present = 0 then some joiner
      else walkUpper read topIndex (entry &&& Bits.tableAddress) (Path.start.through entry)
        joiner) =
      fun joiner topIndex => (let entry := read root topIndex
        if entry &&& Bits.present = 0 then []
        else upperLeaves read topIndex (entry &&& Bits.tableAddress) [entry]).foldlM
          Joiner.take joiner := by
    funext j index
    dsimp only
    split
    · rfl
    · rw [start_through, walkUpper_eq]
  rw [walk, leaves, foldlM_flatMap, steps, Option.map_eq_bind]
  rfl

theorem mem_present {page : Prop} [Decidable absent] [Decidable page] {single below : List Leaf} :
    found ∈ (if absent then [] else if page then single else below) ↔
      ¬ absent ∧ (page ∧ found ∈ single ∨ ¬ page ∧ found ∈ below) := by
  split
  · simp [*]
  · split <;> simp [*]

theorem mem_smallLeaves {top upper middle : Nat} {table : Word} :
    found ∈ smallLeaves read top upper middle table way ↔ ∃ index < entries,
      read table index &&& Bits.present ≠ 0 ∧ found = ⟨addressOf top upper middle index, .small,
        permissionsOf (read table index) .small (pathOf way)⟩ := by
  simp only [smallLeaves, List.mem_flatMap, List.mem_range, List.mem_ite_nil_left,
    List.mem_singleton]

theorem mem_middleLeaves {top upper : Nat} {table : Word} :
    found ∈ middleLeaves read top upper table way ↔ ∃ index < entries,
      read table index &&& Bits.present ≠ 0 ∧ (read table index &&& Bits.pageSizeOrSmallPat ≠ 0 ∧
        found = ⟨addressOf top upper index 0, .large,
          permissionsOf (read table index) .large (pathOf way)⟩ ∨
      ¬ read table index &&& Bits.pageSizeOrSmallPat ≠ 0 ∧
        found ∈ smallLeaves read top upper index (read table index &&& Bits.tableAddress)
          (way ++ [read table index])) := by
  simp only [middleLeaves, List.mem_flatMap, List.mem_range, mem_present, List.mem_singleton]

theorem mem_upperLeaves {top : Nat} {table : Word} :
    found ∈ upperLeaves read top table way ↔ ∃ index < entries,
      read table index &&& Bits.present ≠ 0 ∧ (read table index &&& Bits.pageSizeOrSmallPat ≠ 0 ∧
        found = ⟨addressOf top index 0 0, .giant,
          permissionsOf (read table index) .giant (pathOf way)⟩ ∨
      ¬ read table index &&& Bits.pageSizeOrSmallPat ≠ 0 ∧
        found ∈ middleLeaves read top index (read table index &&& Bits.tableAddress)
          (way ++ [read table index])) := by
  simp only [upperLeaves, List.mem_flatMap, List.mem_range, mem_present, List.mem_singleton]

theorem mem_leaves :
    found ∈ leaves read root start stop ↔ ∃ index, (start ≤ index ∧ index < min stop entries) ∧
      read root index &&& Bits.present ≠ 0 ∧
      found ∈ upperLeaves read index (read root index &&& Bits.tableAddress) [read root index] := by
  have inside : ∀ index, index ∈ List.range' start (min stop entries - start) ↔
      start ≤ index ∧ index < min stop entries := by
    intro index
    rw [List.mem_range'_1]
    omega
  simp only [leaves, List.mem_flatMap, inside, List.mem_ite_nil_left]

theorem mem_leaves_iff : found ∈ leaves read root start stop ↔
    Reached read root (fun top => start ≤ top ∧ top < min stop entries) found := by
  rw [mem_leaves]
  constructor
  · intro ofTop
    obtain ⟨top, inTop, hasTop, ofUpper⟩ := ofTop
    obtain ⟨upper, inUpper, hasUpper, ofUpper⟩ := mem_upperLeaves.mp ofUpper
    rcases ofUpper with ⟨page, rfl⟩ | ⟨table, ofMiddle⟩
    · exact .giant top upper inTop inUpper hasTop hasUpper page
    · obtain ⟨middle, inMiddle, hasMiddle, ofMiddle⟩ := mem_middleLeaves.mp ofMiddle
      rcases ofMiddle with ⟨page, rfl⟩ | ⟨table', ofLeaf⟩
      · exact .large top upper middle inTop inUpper inMiddle hasTop hasUpper (not_not.mp table)
          hasMiddle page
      · obtain ⟨leaf, inLeaf, hasLeaf, rfl⟩ := mem_smallLeaves.mp ofLeaf
        exact .small top upper middle leaf inTop inUpper inMiddle inLeaf hasTop hasUpper
          (not_not.mp table) hasMiddle (not_not.mp table') hasLeaf
  · intro reached
    cases reached with
    | giant top upper inTop inUpper hasTop hasUpper page =>
      apply Exists.intro top
      apply And.intro inTop
      apply And.intro hasTop
      exact mem_upperLeaves.mpr ⟨upper, inUpper, hasUpper, .inl ⟨page, rfl⟩⟩
    | large top upper middle inTop inUpper inMiddle hasTop hasUpper table hasMiddle page =>
      apply Exists.intro top
      apply And.intro inTop
      apply And.intro hasTop
      apply mem_upperLeaves.mpr
      apply Exists.intro upper
      apply And.intro inUpper
      apply And.intro hasUpper
      apply Or.inr
      apply And.intro (not_not.mpr table)
      exact mem_middleLeaves.mpr ⟨middle, inMiddle, hasMiddle, .inl ⟨page, rfl⟩⟩
    | small top upper middle leaf inTop inUpper inMiddle inLeaf hasTop hasUpper table hasMiddle
        table' hasLeaf =>
      apply Exists.intro top
      apply And.intro inTop
      apply And.intro hasTop
      apply mem_upperLeaves.mpr
      apply Exists.intro upper
      apply And.intro inUpper
      apply And.intro hasUpper
      apply Or.inr
      apply And.intro (not_not.mpr table)
      apply mem_middleLeaves.mpr
      apply Exists.intro middle
      apply And.intro inMiddle
      apply And.intro hasMiddle
      apply Or.inr
      apply And.intro (not_not.mpr table')
      exact mem_smallLeaves.mpr ⟨leaf, inLeaf, hasLeaf, rfl⟩

end

/-! The places of the leaves. -/

/-- Where the addresses of an index of the root begin: those of the upper half of the indices are at
the end of the address space. -/
def base (top : Nat) : Nat := top * 2 ^ 39 + if top < entries / 2 then 0 else 2 ^ 64 - 2 ^ 48

theorem or_eq_add {x y n : Nat} (multiple : 2 ^ n ∣ x) (small : y < 2 ^ n) : x ||| y = x + y := by
  obtain ⟨k, rfl⟩ := multiple
  rw [mul_comm, ← Nat.shiftLeft_eq, Nat.shiftLeft_add_eq_or_of_lt small]

theorem toNat_addressOf {top upper middle leaf : Nat} (inTop : top < entries)
    (inUpper : upper < entries) (inMiddle : middle < entries) (inLeaf : leaf < entries) :
    (addressOf top upper middle leaf).toNat =
      base top + upper * 2 ^ 30 + middle * 2 ^ 21 + leaf * 2 ^ 12 := by
  have count : entries = 512 := rfl
  have low : (BitVec.ofNat 64 top <<< 39 ||| BitVec.ofNat 64 upper <<< 30 |||
      BitVec.ofNat 64 middle <<< 21 ||| BitVec.ofNat 64 leaf <<< 12).toNat =
      top * 2 ^ 39 + upper * 2 ^ 30 + middle * 2 ^ 21 + leaf * 2 ^ 12 := by
    simp only [BitVec.toNat_or, BitVec.toNat_shiftLeft, BitVec.toNat_ofNat, Nat.shiftLeft_eq]
    rw [Nat.mod_eq_of_lt (show top % 2 ^ 64 * 2 ^ 39 < 2 ^ 64 by omega),
      Nat.mod_eq_of_lt (show upper % 2 ^ 64 * 2 ^ 30 < 2 ^ 64 by omega),
      Nat.mod_eq_of_lt (show middle % 2 ^ 64 * 2 ^ 21 < 2 ^ 64 by omega),
      Nat.mod_eq_of_lt (show leaf % 2 ^ 64 * 2 ^ 12 < 2 ^ 64 by omega),
      Nat.mod_eq_of_lt (show top < 2 ^ 64 by omega),
      Nat.mod_eq_of_lt (show upper < 2 ^ 64 by omega),
      Nat.mod_eq_of_lt (show middle < 2 ^ 64 by omega),
      Nat.mod_eq_of_lt (show leaf < 2 ^ 64 by omega),
      @or_eq_add (top * 2 ^ 39) (upper * 2 ^ 30) 39 (by omega) (by omega),
      @or_eq_add (top * 2 ^ 39 + upper * 2 ^ 30) (middle * 2 ^ 21) 30 (by omega) (by omega),
      @or_eq_add (top * 2 ^ 39 + upper * 2 ^ 30 + middle * 2 ^ 21) (leaf * 2 ^ 12) 21 (by omega)
        (by omega)]
  have high : (0xFFFF000000000000 : Word).toNat = 2 ^ 64 - 2 ^ 48 := rfl
  rw [addressOf, base]
  split
  · rw [BitVec.toNat_or, low, high, Nat.or_comm, @or_eq_add (2 ^ 64 - 2 ^ 48) _ 48 (by decide)
      (by omega), if_neg (by omega)]
    omega
  · rw [low, if_pos (by omega)]
    omega

abbrev Tag := MappingSize × MappingPermissions

def width (tag : Tag) : Nat := tag.1.bytes

def Leaf.cell (found : Leaf) : Nat × Tag := (found.start.toNat, (found.size, found.permissions))

section

variable {read : Tables} {way : List Word} {top upper middle : Nat} (table : Word)

theorem within_entry {absent page : Prop} [Decidable absent] [Decidable page] {found : Leaf}
    {below : List Leaf} {place span : Nat} (size : found.size.bytes = span)
    (start : found.start.toNat = place)
    (inside : Within width place (place + span) (below.map Leaf.cell)) :
    Within width place (place + span)
      ((if absent then [] else if page then [found] else below).map Leaf.cell) := by
  subst size
  split
  · exact Within.nil _ _
  · split
    · apply Within.single
      · exact le_of_eq start.symm
      · exact le_of_eq (congrArg (· + found.size.bytes) start)
    · exact inside

theorem within_leaf [Decidable absent] {place span : Nat}
    (size : found.size.bytes = span) (start : found.start.toNat = place) :
    Within width place (place + span) ((if absent then [] else [found]).map Leaf.cell) := by
  have entry := @within_entry absent True _ _ found [] place span size start (Within.nil _ _)
  rwa [if_pos trivial] at entry

theorem add_zeros (x a b : Nat) : x + 0 * a + 0 * b = x := by
  simp

theorem within_small (inTop : top < entries) (inUpper : upper < entries)
    (inMiddle : middle < entries) :
    Within width (base top + upper * 2 ^ 30 + middle * 2 ^ 21)
      (base top + upper * 2 ^ 30 + middle * 2 ^ 21 + 2 ^ 21)
      ((smallLeaves read top upper middle table way).map Leaf.cell) := by
  rw [smallLeaves, List.map_flatMap]
  apply Within.table (show entries * 2 ^ 12 = 2 ^ 21 from rfl)
  intro leaf inLeaf
  exact within_leaf rfl (toNat_addressOf inTop inUpper inMiddle inLeaf)

theorem within_middle (inTop : top < entries) (inUpper : upper < entries) :
    Within width (base top + upper * 2 ^ 30) (base top + upper * 2 ^ 30 + 2 ^ 30)
      ((middleLeaves read top upper table way).map Leaf.cell) := by
  rw [middleLeaves, List.map_flatMap]
  apply Within.table (show entries * 2 ^ 21 = 2 ^ 30 from rfl)
  intro middle inMiddle
  have start := toNat_addressOf inTop inUpper inMiddle (show 0 < entries by decide)
  rw [zero_mul, add_zero] at start
  exact within_entry rfl start (within_small _ inTop inUpper inMiddle)

theorem within_upper (inTop : top < entries) :
    Within width (base top) (base top + 2 ^ 39)
      ((upperLeaves read top table way).map Leaf.cell) := by
  have some : 0 < entries := by decide
  rw [upperLeaves, List.map_flatMap]
  apply Within.table (show entries * 2 ^ 30 = 2 ^ 39 from rfl)
  intro upper inUpper
  have start := toNat_addressOf inTop inUpper some some
  rw [add_zeros] at start
  exact within_entry rfl start (within_middle _ inTop inUpper)

theorem within_leaves (root : Word) (start stop : Nat) :
    Within width 0 (2 ^ 64) ((leaves read root start stop).map Leaf.cell) := by
  have count : entries = 512 := rfl
  have inside : ∀ top ∈ List.range' start (min stop entries - start), top < entries := by
    intro top mem
    have := List.mem_range'_1.mp mem
    omega
  rw [leaves, List.map_flatMap]
  apply Within.flatMap List.pairwise_lt_range' base (2 ^ 39)
  · intro top mem
    dsimp only
    split
    · exact Within.nil _ _
    · exact within_upper _ (inside top mem)
  · intro i memI j memJ less
    have bound := inside j memJ
    rw [base, base]
    split_ifs <;> omega
  · intro top mem
    have bound := inside top mem
    rw [base]
    split_ifs <;> omega

end

end Zaytos.Kernel.PageSurvey
