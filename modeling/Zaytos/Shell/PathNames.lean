import Zaytos.Shell.Candidates

set_option autoImplicit false

/-! The walk along the directories of `PATH` comes to each of their names once, and so the names
that are found for a word are its candidates, but for those in a directory whose path is too long.
A built-in that has the name of an entry is found twice. -/
namespace Zaytos.Shell

open Common (blank directoryPart lastWord namePart onlyWord slash splitPath splitPath_eq startsWith
  startsWith_iff)
open Terminated (linesOf linesOf_append_mark linesOf_of_free text text_append text_cons text_nil)
open Surroundings

variable {w : Surroundings} {name part path : List UInt8} {done : List (List UInt8)}

/-- A name in one of some directories, but one without a name or with one that is too long. -/
def Among (w : Surroundings) (dirs : List (List UInt8)) (name : List UInt8) : Prop :=
  ∃ dir ∈ dirs, dir ≠ [] ∧ inReach dir = true ∧ name ∈ w.namesIn dir

theorem not_among_nil : ¬ Among w [] name := by
  intro among
  obtain ⟨dir, mem, -⟩ := among
  exact absurd mem List.not_mem_nil

theorem among_cons {dir : List UInt8} {dirs : List (List UInt8)} :
    Among w (dir :: dirs) name ↔
      (dir ≠ [] ∧ inReach dir = true ∧ name ∈ w.namesIn dir) ∨ Among w dirs name := by
  simp only [Among, List.exists_mem_cons_iff]

theorem among_append {dirs more : List (List UInt8)} :
    Among w (dirs ++ more) name ↔ Among w dirs name ∨ Among w more name := by
  induction dirs with
  | nil => simp [not_among_nil]
  | cons dir dirs ih => rw [List.cons_append, among_cons, among_cons, ih, or_assoc]

theorem takeWhile_element {element : List UInt8} (free : pathSeparator ∉ element)
    (more : List UInt8) :
    (element ++ more).takeWhile (· != pathSeparator) =
      element ++ more.takeWhile (· != pathSeparator) := by
  apply List.takeWhile_append_of_pos
  intro byte mem
  rw [bne_iff_ne]
  intro same
  exact free (same ▸ mem)

theorem elementAt_text {element : List UInt8} (free : pathSeparator ∉ element)
    (more : List UInt8) :
    elementAt (text pathSeparator done ++ (element ++ pathSeparator :: more))
      (text pathSeparator done).length = element := by
  rw [elementAt, List.drop_left, takeWhile_element free, List.takeWhile_cons]
  simp

theorem elementAt_last {element : List UInt8} (free : pathSeparator ∉ element) :
    elementAt (text pathSeparator done ++ element) (text pathSeparator done).length = element := by
  rw [elementAt, List.drop_left]
  have whole := takeWhile_element free []
  rw [List.append_nil, List.takeWhile_nil, List.append_nil] at whole
  exact whole

theorem walk_any : (decide (part.length > 0) && (w.walkDirectory part name).any (· == name)) = true ↔
    part ≠ [] ∧ inReach part = true ∧ name ∈ w.namesIn part := by
  have self : startsWith name name = true := startsWith_iff.mpr (List.prefix_refl name)
  rw [Bool.and_eq_true, decide_eq_true_eq, gt_iff_lt, List.length_pos_iff, List.any_eq_true]
  apply and_congr_right
  intro _
  constructor
  · intro found
    obtain ⟨other, mem, same⟩ := found
    rw [beq_iff_eq.mp same] at mem
    have parts := mem_walkDirectory.mp mem
    exact ⟨parts.1, parts.2.1⟩
  · intro both
    exact ⟨name, mem_walkDirectory.mpr ⟨both.1, both.2, self⟩, beq_self_eq_true name⟩

theorem earlierElementHas_iff (before : List (List UInt8)) (rest : List UInt8)
    (free : ∀ element ∈ done, pathSeparator ∉ element) :
    w.earlierElementHas (text pathSeparator (before ++ done) ++ rest) name done.length
      (text pathSeparator before).length = true ↔ Among w done name := by
  induction done generalizing before with
  | nil =>
    rw [List.length_nil, earlierElementHas]
    exact iff_of_false Bool.false_ne_true not_among_nil
  | cons element done ih =>
    simp only [List.forall_mem_cons] at free
    have whole : text pathSeparator (before ++ element :: done) ++ rest =
        text pathSeparator before ++
          (element ++ pathSeparator :: (text pathSeparator done ++ rest)) := by
      simp
    have here : elementAt (text pathSeparator (before ++ element :: done) ++ rest)
        (text pathSeparator before).length = element := by
      rw [whole]
      exact elementAt_text free.1 _
    have next : (text pathSeparator (before ++ [element])).length =
        (text pathSeparator before).length + element.length + 1 := by
      rw [text_append, List.length_append, text_cons, text_nil, List.length_append]
      rfl
    have further := ih (before ++ [element]) free.2
    rw [List.append_assoc, List.singleton_append, next] at further
    rw [List.length_cons, earlierElementHas, here, among_cons]
    by_cases found : (decide (element.length > 0) &&
        (w.walkDirectory element name).any (· == name)) = true
    · rw [if_pos found]
      exact iff_of_true rfl (Or.inl (walk_any.mp found))
    · rw [if_neg found, if_neg (by rw [whole]; simp), further]
      constructor
      · intro among
        exact Or.inr among
      · intro either
        exact either.resolve_left fun same => found (walk_any.mpr same)

theorem walkDirectoryDeduped_spec (rest element : List UInt8)
    (free : ∀ element ∈ done, pathSeparator ∉ element) :
    (if element.length > 0 then w.walkDirectoryDeduped (text pathSeparator done ++ rest)
      done.length element part else []).Nodup ∧
    ∀ name, name ∈ (if element.length > 0 then
      w.walkDirectoryDeduped (text pathSeparator done ++ rest) done.length element part else []) ↔
      startsWith name part = true ∧ Among w [element] name ∧ ¬ Among w done name := by
  have earlier : ∀ name, w.earlierElementHas (text pathSeparator done ++ rest) name done.length 0 =
      true ↔ Among w done name := fun name => earlierElementHas_iff [] rest free
  by_cases some : element.length > 0
  · rw [if_pos some, walkDirectoryDeduped]
    constructor
    · exact (nodup_walkDirectory w element part).filter _
    · intro name
      rw [List.mem_filter, mem_walkDirectory, Bool.not_eq_true', ← Bool.not_eq_true, earlier,
        among_cons]
      have nonempty : element ≠ [] := List.ne_nil_of_length_pos some
      simp only [ne_eq, nonempty, not_false_eq_true, true_and, not_among_nil, or_false]
      tauto
  · have empty : element = [] := List.length_eq_zero_iff.mp (Nat.eq_zero_of_not_pos some)
    rw [if_neg some]
    refine ⟨List.nodup_nil, ?_⟩
    intro name
    apply iff_of_false List.not_mem_nil
    intro all
    obtain ⟨dir, mem, nonempty, -⟩ := all.2.1
    rw [List.mem_singleton.mp mem] at nonempty
    exact nonempty empty

theorem walkElementsFrom_spec (rest : List UInt8)
    (free : ∀ element ∈ done, pathSeparator ∉ element) :
    (w.walkElementsFrom (text pathSeparator done ++ rest) part (text pathSeparator done).length
      done.length).Nodup ∧
    ∀ name, name ∈ w.walkElementsFrom (text pathSeparator done ++ rest) part
        (text pathSeparator done).length done.length ↔
      startsWith name part = true ∧ Among w (linesOf pathSeparator rest) name ∧
        ¬ Among w done name := by
  induction size : rest.length using Nat.strongRecOn generalizing rest done with
  | ind size ih =>
    rw [walkElementsFrom]
    by_cases last : pathSeparator ∈ rest
    · obtain ⟨element, more, rfl, alone⟩ := List.eq_append_cons_of_mem last
      have here := @walkDirectoryDeduped_spec w part done (element ++ pathSeparator :: more) element
        free
      have freeNext : ∀ e ∈ done ++ [element], pathSeparator ∉ e := by
        intro e mem
        rw [List.mem_append, List.mem_singleton] at mem
        cases mem with
        | inl mem => exact free e mem
        | inr same => exact same ▸ alone
      have next := @ih more.length (by rw [← size]; simp; omega) (done ++ [element]) more freeNext
        rfl
      have whole : text pathSeparator (done ++ [element]) ++ more =
          text pathSeparator done ++ (element ++ pathSeparator :: more) := by simp
      have place : (text pathSeparator (done ++ [element])).length =
          (text pathSeparator done).length + element.length + 1 := by
        rw [text_append, List.length_append, text_cons, text_nil, List.length_append]
        rfl
      rw [whole, place, List.length_append, List.length_singleton] at next
      rw [elementAt_text alone, linesOf_append_mark alone, if_neg (by simp)]
      constructor
      · apply here.1.append next.1
        intro name inHere inNext
        have before := ((next.2 name).mp inNext).2.2
        rw [among_append] at before
        exact before (Or.inr ((here.2 name).mp inHere).2.1)
      · intro name
        have split := @among_cons w name element (linesOf pathSeparator more)
        have one := @among_cons w name element []
        rw [List.mem_append, here.2, next.2, split, one, among_append, one]
        have none := @not_among_nil w name
        tauto
    · have here := @walkDirectoryDeduped_spec w part done rest rest free
      rw [elementAt_last last, if_pos (by simp)]
      refine ⟨here.1, ?_⟩
      intro name
      rw [here.2]
      by_cases empty : rest = []
      · rw [empty, linesOf, among_cons]
        simp [not_among_nil]
      · rw [linesOf_of_free last empty]

theorem mem_flatMap_reach {dirs : List (List UInt8)} :
    name ∈ ((dirs.filter fun dir => !dir.isEmpty).filter inReach).flatMap w.namesIn ↔
      Among w dirs name := by
  rw [List.mem_flatMap, Among]
  constructor
  · intro found
    obtain ⟨dir, mem, there⟩ := found
    rw [List.mem_filter, List.mem_filter] at mem
    exact ⟨dir, mem.1.1, by simpa using mem.1.2, mem.2, there⟩
  · intro among
    obtain ⟨dir, mem, some, reach, there⟩ := among
    exact ⟨dir, List.mem_filter.mpr ⟨List.mem_filter.mpr ⟨mem, by simpa using some⟩, reach⟩, there⟩

namespace Surroundings

/-- The names in the directories of `PATH` whose paths the shell has room for. -/
def reached (w : Surroundings) : List (List UInt8) := (w.searched.filter inReach).flatMap w.namesIn

def twice (w : Surroundings) (typed : List UInt8) : List (List UInt8) :=
  (builtins.filter (startsWith · typed)).filter fun name => decide (name ∈ w.reached)

theorem walkPathElements_spec (w : Surroundings) (typed : List UInt8) :
    (w.walkPathElements typed).Nodup ∧ ∀ name, name ∈ w.walkPathElements typed ↔
      startsWith name typed = true ∧ name ∈ w.reached := by
  rw [walkPathElements, reached, searched]
  cases w.environmentValue pathName with
  | none => simp
  | some path =>
    have free : ∀ element ∈ ([] : List (List UInt8)), pathSeparator ∉ element :=
      fun element mem => absurd mem List.not_mem_nil
    have walked := @walkElementsFrom_spec w typed [] path free
    refine ⟨walked.1, ?_⟩
    intro name
    have found := walked.2 name
    rw [and_iff_left not_among_nil, ← mem_flatMap_reach] at found
    exact found

theorem mem_commands (w : Surroundings) (typed name : List UInt8) :
    name ∈ builtins.filter (startsWith · typed) ++ w.walkPathElements typed ↔
      name ∈ w.commandsIn (w.searched.filter inReach) typed := by
  rw [commandsIn, List.mem_dedup, List.mem_append, List.mem_filter, List.mem_filter,
    List.mem_append, (w.walkPathElements_spec typed).2, reached]
  tauto

theorem nodup_builtins : builtins.Nodup := by decide

theorem length_commands (w : Surroundings) (typed : List UInt8) :
    (builtins.filter (startsWith · typed) ++ w.walkPathElements typed).length =
      (w.commandsIn (w.searched.filter inReach) typed).length + (w.twice typed).length := by
  have walked := w.walkPathElements_spec typed
  have once := nodup_builtins.filter (startsWith · typed)
  generalize shown : builtins.filter (startsWith · typed) = built at once
  have again : (w.twice typed).Perm ((w.walkPathElements typed).filter (built.contains ·)) := by
    rw [twice, shown]
    apply (List.perm_ext_iff_of_nodup (once.filter _) (walked.1.filter _)).mpr
    intro name
    have starts : name ∈ built → startsWith name typed = true := by
      rw [← shown, List.mem_filter]
      exact And.right
    rw [List.mem_filter, List.mem_filter, walked.2, List.contains_iff_mem, decide_eq_true_eq]
    tauto
  have all : (w.commandsIn (w.searched.filter inReach) typed).Perm
      (built ++ (w.walkPathElements typed).filter fun name => !built.contains name) := by
    have apart : (built ++ (w.walkPathElements typed).filter fun name => !built.contains name).Nodup
        := by
      apply once.append (walked.1.filter _)
      intro name inBuilt inWalk
      have outside := (List.mem_filter.mp inWalk).2
      rw [Bool.not_eq_true', ← Bool.not_eq_true, List.contains_iff_mem] at outside
      exact outside inBuilt
    apply (List.perm_ext_iff_of_nodup (List.nodup_dedup _) apart).mpr
    intro name
    have found := w.mem_commands typed name
    rw [shown, List.mem_append, commandsIn] at found
    rw [← found, List.mem_append, List.mem_filter, Bool.not_eq_true', ← Bool.not_eq_true,
      List.contains_iff_mem]
    tauto
  have parts := List.length_eq_length_filter_add (l := w.walkPathElements typed)
    (built.contains ·)
  rw [all.length_eq, again.length_eq, List.length_append, List.length_append, parts]
  omega

end Surroundings

end Zaytos.Shell
