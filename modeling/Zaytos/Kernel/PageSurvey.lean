import Mathlib.Data.List.MinMax
import Zaytos.Kernel.SurveyWalk

set_option autoImplicit false

/-! The rows of what is mapped, by named regions. -/
namespace Zaytos.Kernel.PageSurvey

open Paging (Word Tables)

abbrev unit : Nat := 4096

abbrev unnamed : String := "(unnamed)"

inductive Expectation where
  | mapped
  | absent
  deriving DecidableEq, Repr

/-- A range of addresses with a name; `stop` is not in it. -/
structure Region where
  name : String
  start : Word
  stop : Word
  expectation : Expectation
  counted : Bool
  deriving DecidableEq, Repr

namespace Region

def bounds (r : Region) : Nat × Nat :=
  (r.start.toNat / unit * unit, divCeil r.stop.toNat unit * unit)

def contains (r : Region) (address : Nat) : Prop := r.bounds.1 ≤ address ∧ address < r.bounds.2

instance (r : Region) (address : Nat) : Decidable (r.contains address) := instDecidableAnd

def length (r : Region) : Nat := r.bounds.2 - r.bounds.1

end Region

structure Row where
  name : String
  expectation : Expectation
  counted : Bool
  size : MappingSize
  permissions : MappingPermissions
  pages : Nat
  first : Word
  deriving DecidableEq, Repr

/-- The rows, not more of them than fit, and how often something did not fit. -/
structure Survey (capacity : Nat) where
  rows : List Row
  fits : rows.length ≤ capacity
  dropped : Nat

/-- The narrowest of the regions that contain an address, the earliest of several. -/
def narrowest (regions : List Region) (address : Nat) : Option Region :=
  (regions.filter fun region => region.contains address).argmin Region.length

/-- The nearest border behind an address: the end of its region, or where another one starts. -/
def nextBorder (regions : List Region) (address stop : Nat) : Nat :=
  regions.foldl (fun next other =>
      if other.bounds.1 > address then min next other.bounds.1 else next)
    (match narrowest regions address with
      | some region => min stop region.bounds.2
      | none => stop)

namespace Survey

variable {capacity : Nat}

def empty (capacity : Nat) : Survey capacity := ⟨[], Nat.zero_le _, 0⟩

/-- `put`: `none` where a count would overflow. -/
def put (survey : Survey capacity) (name : String) (expectation : Expectation) (counted : Bool)
    (range : MappedRange) (pages : Nat) (first : Word) : Option (Survey capacity) :=
  match survey.rows.findIdx? fun row => row.name = name ∧ row.expectation = expectation ∧
      row.size = range.size ∧ row.permissions = range.permissions with
  | some index => do
    let row ← survey.rows[index]?
    let total ← add64 row.pages pages
    return { survey with
      rows := survey.rows.set index { row with pages := total, counted := row.counted || counted }
      fits := by rw [List.length_set]; exact survey.fits }
  | none =>
    if room : survey.rows.length < capacity then
      some { survey with
        rows := survey.rows ++
          [⟨name, expectation, counted, range.size, range.permissions, pages, first⟩]
        fits := by rw [List.length_append]; exact room }
    else (add64 survey.dropped 1).map fun dropped => { survey with dropped }

end Survey

theorem foldl_borders (regions : List Region) {address next : Nat} (ahead : address < next) :
    address < regions.foldl (fun next other =>
      if other.bounds.1 > address then min next other.bounds.1 else next) next := by
  induction regions generalizing next with
  | nil => exact ahead
  | cons other rest ih =>
    rw [List.foldl_cons]
    apply ih
    split
    · exact Nat.lt_min.mpr ⟨ahead, ‹_›⟩
    · exact ahead

theorem narrowest_contains {regions : List Region} {address : Nat} {region : Region}
    (found : narrowest regions address = some region) :
    region ∈ regions ∧ region.contains address := by
  have mem := List.argmin_mem (Option.mem_def.mpr found)
  rw [List.mem_filter, decide_eq_true_iff] at mem
  exact mem

theorem lt_nextBorder (regions : List Region) {address stop : Nat} (inside : address < stop) :
    address < nextBorder regions address stop := by
  apply foldl_borders
  split
  · exact Nat.lt_min.mpr ⟨inside, (narrowest_contains ‹_›).2.2⟩
  · exact inside

namespace Survey

variable {capacity : Nat}

def place (regions : List Region) (survey : Survey capacity) (range : MappedRange)
    (address pages : Nat) : Option (Survey capacity) :=
  let first := BitVec.ofNat 64 address
  match narrowest regions address with
  | some region => survey.put region.name region.expectation region.counted range pages first
  | none => survey.put unnamed .mapped true range pages first

/-- The loop of `add` from an address up to the end of the range. -/
def addFrom (regions : List Region) (range : MappedRange) (survey : Survey capacity)
    (address stop : Nat) : Option (Survey capacity) :=
  if inside : address < stop then
    let next := nextBorder regions address stop
    let pages := (next - address) / unit % 2 ^ 64
    (survey.place regions range address pages).bind fun survey =>
      addFrom regions range survey next stop
  else some survey
termination_by stop - address
decreasing_by
  have progress := lt_nextBorder regions inside
  omega

def add (regions : List Region) (survey : Survey capacity) (range : MappedRange) :
    Option (Survey capacity) := do
  let bytes ← range.bytes
  addFrom regions range survey range.start.toNat (range.start.toNat + bytes)

def addAll (regions : List Region) (survey : Survey capacity) (ranges : List MappedRange) :
    Option (Survey capacity) :=
  ranges.foldlM (Survey.add regions) survey

end Survey

/-- The region at an index is the narrowest that contains an address, the earliest of several. -/
structure Narrowest (regions : List Region) (address index : Nat) (region : Region) : Prop where
  there : regions[index]? = some region
  contains : region.contains address
  least : ∀ (j : Nat) (other : Region), regions[j]? = some other → other.contains address →
    region.length ≤ other.length ∧ (j < index → region.length < other.length)

section

variable {regions : List Region} {address index : Nat} {region : Region}

theorem Narrowest.unique (one : Narrowest regions address index region) {index' : Nat}
    {region' : Region} (two : Narrowest regions address index' region') : region = region' := by
  have first := one.least index' region' two.there two.contains
  have second := two.least index region one.there one.contains
  have same : index = index' := by
    rcases Nat.lt_trichotomy index index' with less | same | more
    · have := second.2 less
      omega
    · exact same
    · have := first.2 more
      omega
  have there := one.there
  rw [same, two.there] at there
  exact (Option.some.inj there).symm

theorem narrowest_concat (last : Region) : narrowest (regions ++ [last]) address =
    if last.contains address then
      (narrowest regions address).elim (some last) fun region =>
        if last.length < region.length then some last else some region
    else narrowest regions address := by
  rw [narrowest, List.filter_append]
  split
  case isTrue inside =>
    rw [List.filter_singleton, decide_eq_true inside, Bool.cond_true, List.argmin_concat, narrowest]
    cases List.argmin Region.length (regions.filter fun region => region.contains address) <;> rfl
  case isFalse outside =>
    rw [List.filter_singleton, decide_eq_false outside, Bool.cond_false, List.append_nil, narrowest]

theorem narrowest_eq_none :
    narrowest regions address = none ↔ ∀ region ∈ regions, ¬ region.contains address := by
  simp [narrowest, List.filter_eq_nil_iff]

theorem getElem?_concat {front : List Region} {last other : Region} {j : Nat}
    (there : (front ++ [last])[j]? = some other) :
    front[j]? = some other ∨ j = front.length ∧ other = last := by
  rw [List.getElem?_append] at there
  split at there
  · exact .inl there
  · have bound := (List.getElem?_eq_some_iff.mp there).1
    have place : j - front.length = 0 := by simpa using bound
    rw [place] at there
    exact .inr ⟨by omega, (Option.some.inj there).symm⟩

theorem Narrowest.append (narrow : Narrowest regions address index region) {last : Region}
    (wider : last.contains address → region.length ≤ last.length) :
    Narrowest (regions ++ [last]) address index region := by
  have bound := (List.getElem?_eq_some_iff.mp narrow.there).1
  constructor
  · rw [List.getElem?_append_left bound]
    exact narrow.there
  · exact narrow.contains
  · intro j other there inside
    rcases getElem?_concat there with early | late
    · exact narrow.least j other early inside
    · rw [late.2] at inside ⊢
      apply And.intro (wider inside)
      omega

theorem Narrowest.last {last : Region} (inside : last.contains address)
    (shorter : ∀ other ∈ regions, other.contains address → last.length < other.length) :
    Narrowest (regions ++ [last]) address regions.length last := by
  constructor
  · exact List.getElem?_concat_length
  · exact inside
  · intro j other there inside'
    rcases getElem?_concat there with early | late
    · have less := shorter other (List.mem_of_getElem? early) inside'
      exact ⟨le_of_lt less, fun _ => less⟩
    · rw [late.1, late.2]
      exact ⟨le_rfl, fun less => absurd less (lt_irrefl _)⟩

theorem narrowest_spec (found : narrowest regions address = some region) :
    ∃ index, Narrowest regions address index region := by
  induction regions using List.reverseRecOn generalizing region with
  | nil => exact absurd found (by simp [narrowest])
  | append_singleton front last ih =>
    rw [narrowest_concat] at found
    split at found
    case isTrue inside =>
      cases before : narrowest front address with
      | none =>
        rw [before] at found
        cases found
        apply Exists.intro front.length
        apply Narrowest.last inside
        intro other mem inside'
        exact absurd inside' (narrowest_eq_none.mp before other mem)
      | some old =>
        rw [before, Option.elim_some] at found
        obtain ⟨index, narrow⟩ := ih before
        split at found
        case isTrue less =>
          cases found
          apply Exists.intro front.length
          apply Narrowest.last inside
          intro other mem inside'
          obtain ⟨j, there⟩ := List.getElem?_of_mem mem
          exact lt_of_lt_of_le less (narrow.least j other there inside').1
        case isFalse more =>
          cases found
          exact ⟨index, narrow.append fun _ => Nat.le_of_not_lt more⟩
    case isFalse outside =>
      obtain ⟨index, narrow⟩ := ih found
      exact ⟨index, narrow.append fun inside => absurd inside outside⟩

theorem narrowest_iff :
    narrowest regions address = some region ↔ ∃ index, Narrowest regions address index region := by
  constructor
  · exact narrowest_spec
  · intro narrow
    obtain ⟨index, narrow⟩ := narrow
    cases found : narrowest regions address with
    | none =>
      have mem := List.mem_of_getElem? narrow.there
      exact absurd narrow.contains (narrowest_eq_none.mp found region mem)
    | some other =>
      obtain ⟨index', narrow'⟩ := narrowest_spec found
      rw [narrow'.unique narrow]

/-! The next border. -/

theorem foldl_borders_le (next : Nat) :
    (regions.foldl (fun next other =>
      if other.bounds.1 > address then min next other.bounds.1 else next) next) ≤ next ∧
    ∀ other ∈ regions, address < other.bounds.1 →
      (regions.foldl (fun next other =>
        if other.bounds.1 > address then min next other.bounds.1 else next) next) ≤
        other.bounds.1 := by
  induction regions generalizing next with
  | nil => simp
  | cons first rest ih =>
    rw [List.foldl_cons]
    have step := ih (if first.bounds.1 > address then min next first.bounds.1 else next)
    have down : (if first.bounds.1 > address then min next first.bounds.1 else next) ≤ next := by
      split
      · exact min_le_left _ _
      · exact le_rfl
    apply And.intro (le_trans step.1 down)
    intro other mem ahead
    rcases List.mem_cons.mp mem with rfl | later
    · rw [if_pos ahead] at step ⊢
      exact le_trans step.1 (min_le_right _ _)
    · exact step.2 other later ahead

theorem foldl_borders_dvd {next : Nat} (aligned : unit ∣ next) :
    unit ∣ regions.foldl (fun next other =>
      if other.bounds.1 > address then min next other.bounds.1 else next) next := by
  induction regions generalizing next with
  | nil => exact aligned
  | cons first rest ih =>
    rw [List.foldl_cons]
    apply ih
    split
    · rcases min_choice next first.bounds.1 with old | new
      · rwa [old]
      · rw [new]
        exact Nat.dvd_mul_left _ _
    · exact aligned

variable {stop : Nat}

theorem nextBorder_le : nextBorder regions address stop ≤ stop := by
  apply le_trans (foldl_borders_le _).1
  split
  · exact min_le_left _ _
  · exact le_rfl

theorem nextBorder_le_stop (found : narrowest regions address = some region) :
    nextBorder regions address stop ≤ region.bounds.2 := by
  apply le_trans (foldl_borders_le _).1
  rw [found]
  exact min_le_right _ _

theorem nextBorder_le_start (mem : region ∈ regions) (ahead : address < region.bounds.1) :
    nextBorder regions address stop ≤ region.bounds.1 :=
  (foldl_borders_le _).2 region mem ahead

theorem dvd_nextBorder (aligned : unit ∣ stop) : unit ∣ nextBorder regions address stop := by
  apply foldl_borders_dvd
  split
  case h_1 region found =>
    rcases min_choice stop region.bounds.2 with old | new
    · rwa [old]
    · rw [new]
      exact Nat.dvd_mul_left _ _
  case h_2 => exact aligned

theorem narrowest_stable {place : Nat} (behind : address ≤ place)
    (before : place < nextBorder regions address stop) :
    narrowest regions place = narrowest regions address := by
  have still : ∀ region ∈ regions, region.contains place → region.contains address := by
    intro region mem inside
    constructor
    · by_contra ahead
      have border := @nextBorder_le_start regions address region stop mem (by omega)
      have := inside.1
      omega
    · have := inside.2
      omega
  cases found : narrowest regions address with
  | none =>
    apply narrowest_eq_none.mpr
    intro region mem inside
    exact narrowest_eq_none.mp found region mem (still region mem inside)
  | some region =>
    obtain ⟨index, narrow⟩ := narrowest_spec found
    apply narrowest_iff.mpr
    apply Exists.intro index
    constructor
    · exact narrow.there
    · have border := @nextBorder_le_stop regions address region stop found
      have := narrow.contains.1
      constructor <;> omega
    · intro j other there inside
      exact narrow.least j other there (still other (List.mem_of_getElem? there) inside)

end

end Zaytos.Kernel.PageSurvey
