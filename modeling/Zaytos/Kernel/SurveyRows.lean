import Zaytos.Kernel.PageSurvey
import Zaytos.Kernel.SurveyRanges
import Mathlib.Data.Set.Card

set_option autoImplicit false

/-! Every page that is mapped is counted in one row. -/
namespace Zaytos.Kernel.PageSurvey

open Paging
open Coalesce

structure Heading where
  name : String
  expectation : Expectation
  size : MappingSize
  permissions : MappingPermissions
  deriving DecidableEq, Repr

def Row.heading (row : Row) : Heading := ⟨row.name, row.expectation, row.size, row.permissions⟩

/-- The name that the regions give an address, and whether something should be mapped there. -/
def Named (regions : List Region) (address : Nat) (name : String) (expectation : Expectation) :
    Prop :=
  (∃ index region, Narrowest regions address index region ∧ region.name = name ∧
    region.expectation = expectation) ∨
  ((∀ region ∈ regions, ¬ region.contains address) ∧ name = unnamed ∧ expectation = .mapped)

def headingAt (regions : List Region) (tag : Tag) (address : Nat) : Heading :=
  match narrowest regions address with
  | some region => ⟨region.name, region.expectation, tag.1, tag.2⟩
  | none => ⟨unnamed, .mapped, tag.1, tag.2⟩

variable {heading : Heading} {address pages n : Nat} {regions : List Region} {range : MappedRange}

theorem headingAt_eq {tag : Tag} : headingAt regions tag address = heading ↔
      (tag.1 = heading.size ∧ tag.2 = heading.permissions) ∧
        Named regions address heading.name heading.expectation := by
  obtain ⟨name, expectation, size, permissions⟩ := heading
  rw [headingAt, Named]
  cases found : narrowest regions address with
  | none =>
    have nothing := narrowest_eq_none.mp found
    constructor
    · intro same
      cases same
      exact ⟨⟨rfl, rfl⟩, .inr ⟨nothing, rfl, rfl⟩⟩
    · intro both
      obtain ⟨⟨rfl, rfl⟩, named⟩ := both
      rcases named with ⟨index, region, narrow, -⟩ | ⟨-, rfl, rfl⟩
      · exact absurd (narrowest_iff.mpr ⟨index, narrow⟩) (by rw [found]; simp)
      · rfl
  | some region =>
    obtain ⟨index, narrow⟩ := narrowest_spec found
    constructor
    · intro same
      cases same
      exact ⟨⟨rfl, rfl⟩, .inl ⟨index, region, narrow, rfl, rfl⟩⟩
    · intro both
      obtain ⟨⟨rfl, rfl⟩, named⟩ := both
      rcases named with ⟨index', region', narrow', rfl, rfl⟩ | ⟨nothing, -⟩
      · rw [narrow.unique narrow']
      · exact absurd narrow.contains (nothing region (List.mem_of_getElem? narrow.there))

structure Tallies {capacity : Nat} (survey : Survey capacity) (placed : List Heading) : Prop where
  distinct : (survey.rows.map Row.heading).Nodup
  pages : ∀ row ∈ survey.rows, row.pages = placed.count row.heading
  complete : ∀ heading ∈ placed, heading ∈ survey.rows.map Row.heading ∨
    0 < survey.dropped ∧ survey.rows.length = capacity
  dropped : survey.dropped ≤ placed.length

namespace Tallies

variable {capacity : Nat} {survey : Survey capacity} {placed : List Heading}

theorem empty : Tallies (Survey.empty capacity) [] := by
  constructor
  · exact List.nodup_nil
  · intro row mem
    exact absurd mem List.not_mem_nil
  · intro heading mem
    exact absurd mem List.not_mem_nil
  · exact Nat.le_refl _

theorem pages_le (tallies : Tallies survey placed) {row : Row} (mem : row ∈ survey.rows) :
    row.pages ≤ placed.length := by
  rw [tallies.pages row mem]
  exact List.count_le_length

theorem count_append (heading heading' : Heading) (pages : Nat) :
    (placed ++ List.replicate pages heading).count heading' =
      placed.count heading' + if heading = heading' then pages else 0 := by
  rw [List.count_append, List.count_replicate]
  congr 1
  simp only [beq_iff_eq]

theorem credit (tallies : Tallies survey placed) {index : Nat} (inside : index < survey.rows.length)
    {after : Survey capacity} {counted : Bool} (rows : after.rows = survey.rows.set index
      { survey.rows[index] with pages := survey.rows[index].pages + pages, counted := counted })
    (dropped : after.dropped = survey.dropped) :
    Tallies after (placed ++ List.replicate pages survey.rows[index].heading) := by
  have inside' : index < (survey.rows.map Row.heading).length := by rwa [List.length_map]
  have headings : after.rows.map Row.heading = survey.rows.map Row.heading := by
    have same : survey.rows[index].heading = (survey.rows.map Row.heading)[index] :=
      (List.getElem_map Row.heading).symm
    rw [rows, List.map_set, Row.heading]
    exact (congrArg _ same).trans (List.set_getElem_self inside')
  constructor
  · exact headings ▸ tallies.distinct
  · intro row mem
    rw [rows] at mem
    obtain ⟨j, bound, rfl⟩ := List.getElem_of_mem mem
    rw [count_append, List.getElem_set]
    rw [List.length_set] at bound
    split
    case isTrue same =>
      dsimp only
      rw [tallies.pages survey.rows[index] (List.getElem_mem inside)]
      exact congrArg _ (if_pos rfl).symm
    case isFalse other =>
      have unlike : survey.rows[index].heading ≠ survey.rows[j].heading := by
        intro same
        have inside'' : j < (survey.rows.map Row.heading).length := by rwa [List.length_map]
        apply other
        apply (@List.Nodup.getElem_inj_iff _ _ tallies.distinct _ inside' _ inside'').mp
        rwa [List.getElem_map, List.getElem_map]
      rw [if_neg unlike]
      exact tallies.pages _ (List.getElem_mem bound)
  · intro heading mem
    have length : after.rows.length = survey.rows.length := by rw [rows, List.length_set]
    rw [headings, dropped, length]
    rcases List.mem_append.mp mem with old | new
    · exact tallies.complete heading old
    · rw [List.eq_of_mem_replicate new]
      exact .inl (List.mem_map_of_mem (List.getElem_mem inside))
  · rw [dropped, List.length_append]
    exact Nat.le_trans tallies.dropped (Nat.le_add_right _ _)

theorem open_row (tallies : Tallies survey placed) {after : Survey capacity} {row : Row}
    (isNew : row.heading ∉ survey.rows.map Row.heading) (room : survey.rows.length < capacity)
    (rows : after.rows = survey.rows ++ [row]) (dropped : after.dropped = survey.dropped) :
    Tallies after (placed ++ List.replicate row.pages row.heading) := by
  have unseen : row.heading ∉ placed := by
    intro seen
    rcases tallies.complete _ seen with there | full
    · exact isNew there
    · omega
  constructor
  · rw [rows, List.map_append]
    apply List.Nodup.append tallies.distinct (List.nodup_singleton _)
    intro heading old new
    rw [List.mem_singleton.mp new] at old
    exact isNew old
  · intro row' mem
    rw [rows] at mem
    rw [count_append]
    rcases List.mem_append.mp mem with old | new
    · rw [if_neg]
      · exact tallies.pages row' old
      · intro same
        exact isNew (same ▸ List.mem_map_of_mem old)
    · rw [List.mem_singleton.mp new, List.count_eq_zero_of_not_mem unseen, if_pos rfl,
        Nat.zero_add]
  · intro heading mem
    apply Or.inl
    rw [rows, List.map_append, List.mem_append]
    rcases List.mem_append.mp mem with old | new
    · rcases tallies.complete heading old with there | full
      · exact .inl there
      · omega
    · rw [List.eq_of_mem_replicate new]
      exact .inr List.mem_cons_self
  · rw [dropped, List.length_append]
    exact Nat.le_trans tallies.dropped (Nat.le_add_right _ _)

theorem drop (tallies : Tallies survey placed) {after : Survey capacity} (pos : 0 < pages)
    (isNew : heading ∉ survey.rows.map Row.heading)
    (full : survey.rows.length = capacity) (rows : after.rows = survey.rows)
    (dropped : after.dropped = survey.dropped + 1) :
    Tallies after (placed ++ List.replicate pages heading) := by
  constructor
  · rw [rows]
    exact tallies.distinct
  · intro row mem
    rw [rows] at mem
    rw [count_append, if_neg]
    · exact tallies.pages row mem
    · intro same
      exact isNew (same ▸ List.mem_map_of_mem mem)
  · intro heading' _
    rw [rows, dropped]
    exact .inr ⟨Nat.succ_pos _, full⟩
  · have old := tallies.dropped
    rw [dropped, List.length_append, List.length_replicate]
    omega

theorem put (tallies : Tallies survey placed) (name : String) (expectation : Expectation)
    (counted : Bool) (range : MappedRange) {pages : Nat} (first : Word) (pos : 0 < pages)
    (bound : placed.length + pages < 2 ^ 64) :
    ∃ after, survey.put name expectation counted range pages first = some after ∧
      Tallies after (placed ++
        List.replicate pages ⟨name, expectation, range.size, range.permissions⟩) := by
  have isHeading : ∀ row : Row, row.heading = ⟨name, expectation, range.size, range.permissions⟩ ↔
      row.name = name ∧ row.expectation = expectation ∧ row.size = range.size ∧
        row.permissions = range.permissions := by
    intro row
    rw [Row.heading, Heading.mk.injEq]
  rw [Survey.put]
  split
  case h_1 index found =>
    obtain ⟨inside, matches', -⟩ := List.findIdx?_eq_some_iff_getElem.mp found
    have same := (isHeading survey.rows[index]).mpr (of_decide_eq_true matches')
    have small := tallies.pages_le (List.getElem_mem inside)
    have total : add64 survey.rows[index].pages pages = some (survey.rows[index].pages + pages) :=
      add64_of_lt (by omega)
    rw [List.getElem?_eq_getElem inside]
    simp only [Option.bind_eq_bind, Option.bind_some, total]
    rw [← same]
    exact ⟨_, rfl, tallies.credit inside rfl rfl⟩
  case h_2 found =>
    have isNew : (⟨name, expectation, range.size, range.permissions⟩ : Heading) ∉
        survey.rows.map Row.heading := by
      intro there
      obtain ⟨row, mem, same⟩ := List.mem_map.mp there
      have unlike := List.findIdx?_eq_none_iff.mp found row mem
      exact of_decide_eq_false unlike ((isHeading row).mp same)
    split
    case isTrue room => 
      exact ⟨_, rfl, @open_row _ _ _ tallies _
        ⟨name, expectation, counted, range.size, range.permissions, pages, first⟩ isNew room rfl
        rfl⟩
    case isFalse full =>
      have fits := survey.fits
      have old := tallies.dropped
      rw [add64_of_lt (show survey.dropped + 1 < 2 ^ 64 by omega)]
      exact ⟨_, rfl, tallies.drop pos isNew (by omega) rfl rfl⟩

theorem place (tallies : Tallies survey placed) (regions : List Region) (range : MappedRange)
    (address : Nat) {pages : Nat} (pos : 0 < pages) (bound : placed.length + pages < 2 ^ 64) :
    ∃ after, survey.place regions range address pages = some after ∧
      Tallies after (placed ++
        List.replicate pages (headingAt regions (range.size, range.permissions) address)) := by
  rw [Survey.place, headingAt]
  cases narrowest regions address with
  | none => exact tallies.put _ _ _ range _ pos bound
  | some region => exact tallies.put _ _ _ range _ pos bound

end Tallies

theorem unit_inside {next : Nat} (aligned : unit ∣ address) (low : address / unit ≤ n)
    (high : n < address / unit + (next - address) / unit) :
    address ≤ n * unit ∧ n * unit < next := by
  rw [show unit = 4096 from rfl] at aligned low high ⊢
  omega

def headingsFrom (regions : List Region) (tag : Tag) (first count : Nat) : List Heading :=
  (List.range' first count).map fun n => headingAt regions tag (n * unit)

theorem headingsFrom_append (regions : List Region) (tag : Tag) (first m n : Nat) :
    headingsFrom regions tag first m ++ headingsFrom regions tag (first + m) n =
      headingsFrom regions tag first (m + n) := by
  rw [headingsFrom, headingsFrom, headingsFrom, ← List.map_append, List.range'_append_1]

theorem headingsFrom_border (regions : List Region) (tag : Tag) {address stop : Nat}
    (aligned : unit ∣ address) :
    headingsFrom regions tag (address / unit) ((nextBorder regions address stop - address) / unit) =
      List.replicate ((nextBorder regions address stop - address) / unit)
        (headingAt regions tag address) := by
  rw [headingsFrom, List.map_eq_replicate_iff.mpr]
  · rw [List.length_range']
  · intro n mem
    obtain ⟨low, high⟩ := List.mem_range'_1.mp mem
    have inside := unit_inside aligned low high
    rw [headingAt, headingAt, narrowest_stable inside.1 inside.2]

theorem parts {address next stop : Nat} (aligned : unit ∣ address) (aligned' : unit ∣ next)
    (aligned'' : unit ∣ stop) (less : address < next) (le : next ≤ stop) :
    0 < (next - address) / unit ∧ next / unit = address / unit + (next - address) / unit ∧
      (stop - address) / unit = (next - address) / unit + (stop - next) / unit := by
  rw [show unit = 4096 from rfl] at *
  omega

theorem addFrom_tallies {capacity : Nat} (regions : List Region) (range : MappedRange)
    {survey : Survey capacity} {placed : List Heading} {address stop : Nat}
    (tallies : Tallies survey placed) (aligned : unit ∣ address) (aligned' : unit ∣ stop)
    (bound : placed.length + (stop - address) / unit < 2 ^ 64) :
    ∃ after, Survey.addFrom regions range survey address stop = some after ∧
      Tallies after (placed ++ headingsFrom regions (range.size, range.permissions)
        (address / unit) ((stop - address) / unit)) := by
  have size : unit = 4096 := rfl
  induction gap : stop - address using Nat.strongRecOn generalizing survey placed address with
  | ind n ih =>
    subst gap
    rw [Survey.addFrom]
    split
    case isFalse past =>
      have none : (stop - address) / unit = 0 := by
        rw [Nat.sub_eq_zero_of_le (Nat.le_of_not_lt past), Nat.zero_div]
      rw [none]
      apply Exists.intro survey
      apply And.intro rfl
      rwa [headingsFrom, List.range'_zero, List.map_nil, List.append_nil]
    case isTrue inside =>
      have progress := lt_nextBorder regions inside
      have within := @nextBorder_le regions address stop
      have border : unit ∣ nextBorder regions address stop := dvd_nextBorder aligned'
      have segment := @headingsFrom_border regions (range.size, range.permissions) address stop
        aligned
      have split := headingsFrom_append regions (range.size, range.permissions) (address / unit)
        ((nextBorder regions address stop - address) / unit)
        ((stop - nextBorder regions address stop) / unit)
      generalize nextBorder regions address stop = next at *
      obtain ⟨first, next', whole⟩ := parts aligned border aligned' progress within
      have rest : placed.length + (next - address) / unit + (stop - next) / unit < 2 ^ 64 := by
        rwa [Nat.add_assoc, ← whole]
      have bound' := Nat.lt_of_le_of_lt (Nat.le_add_right _ _) rest
      have small := Nat.mod_eq_of_lt (Nat.lt_of_le_of_lt (Nat.le_add_left _ _) bound')
      obtain ⟨after, step, tallies'⟩ := tallies.place regions range address first bound'
      obtain ⟨last, run, tallies''⟩ := ih (stop - next) (by omega) tallies' border
        (by rwa [List.length_append, List.length_replicate]) rfl
      apply Exists.intro last
      constructor
      · dsimp only
        rw [small, step]
        exact run
      · rw [← segment, List.append_assoc, next', split, ← whole] at tallies''
        exact tallies''

def headingsOf (regions : List Region) (range : MappedRange) : List Heading :=
  headingsFrom regions (range.size, range.permissions) (range.start.toNat / unit)
    (range.pages * range.size.bytes / unit)

theorem unit_dvd_bytes (size : MappingSize) : unit ∣ size.bytes := by
  cases size <;> decide

theorem add_tallies {capacity : Nat} (regions : List Region)
    (sound : range.Sound) {survey : Survey capacity} {placed : List Heading}
    (tallies : Tallies survey placed)
    (bound : placed.length + range.pages * range.size.bytes / unit < 2 ^ 64) :
    ∃ after, survey.add regions range = some after ∧
      Tallies after (placed ++ headingsOf regions range) := by
  have whole := Nat.dvd_mul_left_of_dvd (unit_dvd_bytes range.size) range.pages
  have gap : range.start.toNat + range.pages * range.size.bytes - range.start.toNat =
      range.pages * range.size.bytes := Nat.add_sub_cancel_left _ _
  obtain ⟨after, run, tallies'⟩ := addFrom_tallies regions range tallies sound.aligned
    (Nat.dvd_add sound.aligned whole) (by rwa [gap])
  rw [gap] at tallies'
  apply Exists.intro after
  constructor
  · rw [Survey.add, MappedRange.bytes, mul64_of_lt sound.small]
    exact run
  · exact tallies'

theorem addAll_tallies {capacity : Nat} (regions : List Region) {ranges : List MappedRange}
    (sound : ∀ range ∈ ranges, range.Sound)
    (ordered : ranges.Pairwise fun r s => r.stop ≤ s.start.toNat) {survey : Survey capacity}
    {placed : List Heading} (tallies : Tallies survey placed)
    (front : ∀ range ∈ ranges, placed.length ≤ range.start.toNat / unit) :
    ∃ after, survey.addAll regions ranges = some after ∧
      Tallies after (placed ++ ranges.flatMap (headingsOf regions)) := by
  induction ranges generalizing survey placed with
  | nil =>
    apply Exists.intro survey
    apply And.intro rfl
    rwa [List.flatMap_nil, List.append_nil]
  | cons first rest ih =>
    have sound' := sound first List.mem_cons_self
    have front' := front first List.mem_cons_self
    have ends : placed.length + first.pages * first.size.bytes / unit ≤ first.stop / unit := by
      rw [MappedRange.stop, Nat.add_div_of_dvd_right sound'.aligned]
      exact Nat.add_le_add_right front' _
    have fits : first.stop / unit ≤ 2 ^ 64 / unit := Nat.div_le_div_right sound'.fits
    obtain ⟨next, step, tallies'⟩ := add_tallies regions sound' tallies
      (Nat.lt_of_le_of_lt (Nat.le_trans ends fits) (by decide))
    have length : (placed ++ headingsOf regions first).length =
        placed.length + first.pages * first.size.bytes / unit := by
      rw [List.length_append, headingsOf, headingsFrom, List.length_map, List.length_range']
    have order := List.pairwise_cons.mp ordered
    obtain ⟨after, run, tallies''⟩ := ih (fun r mem => sound r (List.mem_cons_of_mem _ mem)) order.2
      tallies' (by
        intro r mem
        rw [length]
        exact Nat.le_trans ends (Nat.div_le_div_right (order.1 r mem)))
    apply Exists.intro after
    constructor
    · rw [Survey.addAll, List.foldlM_cons, step]
      exact run
    · rwa [List.flatMap_cons, ← List.append_assoc]

/-! The rows and what is mapped. -/

theorem count_map_snd {κ : Type} [DecidableEq κ] {pairs : List (Nat × κ)}
    (distinct : (pairs.map Prod.fst).Nodup) (k : κ) :
    {n | (n, k) ∈ pairs}.Finite ∧ (pairs.map Prod.snd).count k = {n | (n, k) ∈ pairs}.ncard := by
  have kept : {n | (n, k) ∈ pairs} =
      (((pairs.filter fun p => p.2 = k).map Prod.fst).toFinset : Set Nat) := by
    ext n
    simp
  have nodup : ((pairs.filter fun p => p.2 = k).map Prod.fst).Nodup :=
    distinct.sublist (List.filter_sublist.map Prod.fst)
  rw [kept]
  constructor
  · exact Finset.finite_toSet _
  · rw [Set.ncard_coe_finset, List.toFinset_card_of_nodup nodup, List.length_map,
      ← List.countP_eq_length_filter, List.count, List.countP_map]
    congr 1

def pairsOf (regions : List Region) (range : MappedRange) : List (Nat × Heading) :=
  (List.range' (range.start.toNat / unit) (range.pages * range.size.bytes / unit)).map fun n =>
    (n, headingAt regions (range.size, range.permissions) (n * unit))

theorem mem_pairsOf (sound : range.Sound) : (n, heading) ∈ pairsOf regions range ↔
      (range.start.toNat ≤ n * unit ∧ n * unit < range.stop) ∧
        headingAt regions (range.size, range.permissions) (n * unit) = heading := by
  have inside : n ∈ List.range' (range.start.toNat / unit)
      (range.pages * range.size.bytes / unit) ↔
      range.start.toNat ≤ n * unit ∧ n * unit < range.stop := by
    have aligned := sound.aligned
    have whole := Nat.dvd_mul_left_of_dvd (unit_dvd_bytes range.size) range.pages
    rw [List.mem_range'_1, MappedRange.stop]
    rw [show unit = 4096 from rfl] at whole ⊢
    omega
  rw [pairsOf, List.mem_map, ← inside]
  constructor
  · intro found
    obtain ⟨m, mem, same⟩ := found
    cases same
    exact ⟨mem, rfl⟩
  · intro both
    exact ⟨n, both.1, congrArg _ both.2⟩

theorem nodup_units (regions : List Region) {ranges : List MappedRange}
    (sound : ∀ range ∈ ranges, range.Sound)
    (ordered : ranges.Pairwise fun r s => r.stop ≤ s.start.toNat) :
    ((ranges.flatMap (pairsOf regions)).map Prod.fst).Nodup := by
  have sorted : ((ranges.flatMap (pairsOf regions)).map Prod.fst).Pairwise (· < ·) := by
    rw [List.map_flatMap, List.pairwise_flatMap]
    constructor
    · intro range _
      rw [pairsOf, List.map_map]
      exact (List.map_id _).symm ▸ List.pairwise_lt_range'
    · apply ordered.imp_of_mem
      intro r s memR memS before m memM n memN
      obtain ⟨p, inR, rfl⟩ := List.mem_map.mp memM
      obtain ⟨q, inS, rfl⟩ := List.mem_map.mp memN
      have first := ((mem_pairsOf (sound r memR)).mp inR).1
      have second := ((mem_pairsOf (sound s memS)).mp inS).1
      have less : p.1 * unit < q.1 * unit := by omega
      exact Nat.lt_of_mul_lt_mul_right less
  exact sorted.imp Nat.ne_of_lt

/-- The units of 4 KiB that are mapped with the size and the permissions of a heading and have its
name. -/
def Units (read : Tables) (root : Word) (indices : Nat → Prop) (regions : List Region)
    (heading : Heading) : Set Nat :=
  {n | ∃ found, Reached read root indices found ∧
    (found.start.toNat ≤ n * unit ∧ n * unit < found.start.toNat + found.size.bytes) ∧
    (found.size = heading.size ∧ found.permissions = heading.permissions) ∧
    Named regions (n * unit) heading.name heading.expectation}

/-- The ranges of a walk: in order, with just the leaves that are reached as their pages, and none
that could have been longer. -/
structure Lists (read : Tables) (root : Word) (indices : Nat → Prop) (ranges : List MappedRange) :
    Prop where
  some : ∀ range ∈ ranges, 0 < range.pages ∧ range.stop ≤ 2 ^ 64
  order : ranges.Pairwise fun r s => r.start.toNat < s.start.toNat ∧ r.stop ≤ s.start.toNat
  pages : ∀ found, Reached read root indices found ↔ ∃ range ∈ ranges, ∃ i < range.pages,
    found.start.toNat = range.start.toNat + i * range.size.bytes ∧
    found.size = range.size ∧ found.permissions = range.permissions
  maximal : ∀ range ∈ ranges, ∀ found, Reached read root indices found →
    found.size = range.size → found.permissions = range.permissions →
      found.start.toNat ≠ range.stop ∧
      found.start.toNat + found.size.bytes ≠ range.start.toNat

structure Counts (read : Tables) (root : Word) (indices : Nat → Prop) (regions : List Region)
    (rows : List Row) : Prop where
  distinct : (rows.map Row.heading).Nodup
  finite : ∀ heading, (Units read root indices regions heading).Finite
  pages : ∀ row ∈ rows, row.pages = (Units read root indices regions row.heading).ncard
  complete : ∀ heading, (Units read root indices regions heading).Nonempty →
    ∃ row ∈ rows, row.heading = heading

section

variable {read : Tables} {root : Word} {start stop : Nat} {ranges : List MappedRange}
  (covers : Covers width (ranges.map MappedRange.run)
    ((leaves read root start stop).map Leaf.cell))

include covers

theorem ordered_of_covers : ranges.Pairwise fun r s => r.stop ≤ s.start.toNat := by
  apply (List.pairwise_map.mp covers.apart).imp
  intro r s apart
  exact apart.1

theorem lists_of_covers :
    Lists read root (fun top => start ≤ top ∧ top < min stop entries) ranges := by
  constructor
  · intro range mem
    have sound := sound_ranges covers mem
    exact ⟨sound.some, sound.fits⟩
  · apply (ordered_of_covers covers).imp_of_mem
    intro r s memR _ before
    have some := Nat.mul_pos (sound_ranges covers memR).some
      (Nat.lt_of_lt_of_le (by decide) (bytes_pos r.size))
    have ends : r.stop = r.start.toNat + r.pages * r.size.bytes := rfl
    omega
  · intro found
    have injective : Function.Injective Leaf.cell := by
      intro one two same
      cases one
      cases two
      simp only [Leaf.cell, Prod.mk.injEq, BitVec.toNat_inj] at same
      obtain ⟨rfl, rfl, rfl⟩ := same
      rfl
    rw [← mem_leaves_iff, ← List.mem_map_of_injective injective, covers.mem_iff]
    constructor
    · intro inside
      obtain ⟨r, mem, inside⟩ := inside
      obtain ⟨range, there, rfl⟩ := List.mem_map.mp mem
      obtain ⟨tag, i, small, place⟩ := mem_cells.mp inside
      exact ⟨range, there, i, small, place, Prod.mk.inj tag⟩
    · intro page
      obtain ⟨range, there, i, small, place, tag⟩ := page
      apply Exists.intro range.run
      apply And.intro (List.mem_map_of_mem there)
      exact mem_cells.mpr ⟨Prod.ext tag.1 tag.2, i, small, place⟩
  · intro range mem found reached size permissions
    exact covers.maximal width_pos (List.mem_map_of_mem mem)
      (List.mem_map_of_mem (mem_leaves_iff.mpr reached)) (Prod.ext size permissions)

theorem units_of_covers (regions : List Region) (heading : Heading) :
    {n | (n, heading) ∈ ranges.flatMap (pairsOf regions)} =
      Units read root (fun top => start ≤ top ∧ top < min stop entries) regions heading := by
  ext n
  have cells := covers.exists_iff width_pos (n := n * unit)
    (P := fun tag => headingAt regions tag (n * unit) = heading)
  have inRuns : (n, heading) ∈ ranges.flatMap (pairsOf regions) ↔
      ∃ r ∈ ranges.map MappedRange.run, (r.start ≤ n * unit ∧ n * unit < r.stop width) ∧
        headingAt regions r.tag (n * unit) = heading := by
    rw [List.mem_flatMap]
    constructor
    · intro placed
      obtain ⟨range, mem, inside⟩ := placed
      exact ⟨range.run, List.mem_map_of_mem mem, (mem_pairsOf (sound_ranges covers mem)).mp inside⟩
    · intro placed
      obtain ⟨r, mem, inside⟩ := placed
      obtain ⟨range, there, rfl⟩ := List.mem_map.mp mem
      exact ⟨range, there, (mem_pairsOf (sound_ranges covers there)).mpr inside⟩
  change (n, heading) ∈ ranges.flatMap (pairsOf regions) ↔ _
  rw [inRuns, cells]
  constructor
  · intro placed
    obtain ⟨c, mem, inside, same⟩ := placed
    obtain ⟨found, there, rfl⟩ := List.mem_map.mp mem
    exact ⟨found, mem_leaves_iff.mp there, inside, headingAt_eq.mp same⟩
  · intro mapped
    obtain ⟨found, reached, inside, same⟩ := mapped
    exact ⟨found.cell, List.mem_map_of_mem (mem_leaves_iff.mpr reached), inside,
      headingAt_eq.mpr same⟩

theorem counts_of_covers (regions : List Region) {capacity : Nat} {survey : Survey capacity}
    (tallies : Tallies survey (ranges.flatMap (headingsOf regions))) (all : survey.dropped = 0) :
    Counts read root (fun top => start ≤ top ∧ top < min stop entries) regions survey.rows := by
  have placed : ranges.flatMap (headingsOf regions) =
      (ranges.flatMap (pairsOf regions)).map Prod.snd := by
    rw [List.map_flatMap]
    congr
    funext range
    rw [headingsOf, headingsFrom, pairsOf, List.map_map]
    rfl
  have counted : ∀ heading, _ := fun heading => count_map_snd
    (nodup_units regions (fun range mem => sound_ranges covers mem) (ordered_of_covers covers))
    heading
  simp only [units_of_covers covers, ← placed] at counted
  constructor
  · exact tallies.distinct
  · intro heading
    exact (counted heading).1
  · intro row mem
    rw [tallies.pages row mem]
    exact (counted row.heading).2
  · intro heading some
    have pos := (Set.ncard_pos (counted heading).1).mpr some
    rw [← (counted heading).2] at pos
    rcases tallies.complete heading (List.count_pos_iff.mp pos) with there | full
    · exact List.mem_map.mp there
    · omega

end

/-- The survey accounts for every page that is mapped exactly once: the walk lists just the leaves,
says of a page what the walk of a user's pointer says, and every unit is counted in one row. -/
theorem pages_accounted (read : Tables) (root : Word) (start stop capacity : Nat)
    (regions : List Region) : ∃ ranges survey, walk read root start stop = some ranges ∧
      (Survey.empty capacity).addAll regions ranges = some survey ∧
      Lists read root (fun top => start ≤ top ∧ top < min stop entries) ranges ∧
      (∀ virt access, Paging.isCanonical virt = true → (Reported ranges virt access ↔
        (start ≤ topIndex virt ∧ topIndex virt < stop) ∧
          walkUserAccessible read root virt access = .ok ())) ∧
      (survey.dropped = 0 →
        Counts read root (fun top => start ≤ top ∧ top < min stop entries) regions
          survey.rows) := by
  obtain ⟨ranges, run, covers⟩ := walk_covers read root start stop
  obtain ⟨survey, added, tallies⟩ := addAll_tallies regions
    (fun range mem => sound_ranges covers mem) (ordered_of_covers covers)
    (@Tallies.empty capacity) fun range _ => Nat.zero_le _
  apply Exists.intro ranges
  apply Exists.intro survey
  apply And.intro run
  apply And.intro added
  apply And.intro (lists_of_covers covers)
  constructor
  · intro virt access canonical
    exact reported_iff covers canonical access
  · intro all
    exact counts_of_covers covers regions tallies all

end Zaytos.Kernel.PageSurvey
