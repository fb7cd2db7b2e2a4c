import Zaytos.Shell.Completion

set_option autoImplicit false

/-! What Tab is for: the word at the cursor grows to the longest common prefix of its candidates.
When it does. -/
namespace Zaytos.Shell

open Common (directoryPart directoryPart_append_namePart lastWord namePart onlyWord slash splitPath
  splitPath_eq wordAtCursor wordAtCursor_eq)
open CommonPrefix (ofAll ofAll_congr ofAll_prefix_ofAll)
open Slices
open Surroundings

def isCommand (before : List UInt8) : Bool := onlyWord before && !(lastWord before).contains slash

def typedPart (before : List UInt8) : List UInt8 :=
  if isCommand before = true then lastWord before else namePart (lastWord before)

namespace Surroundings

/-- The candidates of the word at the cursor. A word that is neither has none. -/
def candidates (w : Surroundings) (before : List UInt8) : List (List UInt8) :=
  if isCommand before = true then w.commandsIn w.searched (lastWord before)
  else if (directoryPart (lastWord before)).isEmpty then []
  else w.pathsIn (directoryPart (lastWord before)) (namePart (lastWord before))

/-- The candidates but those in a directory whose path the shell has no room for. -/
def seen (w : Surroundings) (before : List UInt8) : List (List UInt8) :=
  if isCommand before = true then w.commandsIn (w.searched.filter inReach) (lastWord before)
  else if (w.resolveDirectory (directoryPart (lastWord before))).isSome then w.candidates before
  else []

/-- How many these are, with a built-in that has the name of an entry as two. -/
def timesSeen (w : Surroundings) (before : List UInt8) : Nat :=
  (w.seen before).length +
    if isCommand before = true then (w.twice (lastWord before)).length else 0

end Surroundings

/-- What names have in common behind so many bytes, with a blank behind a name that is the only
one. -/
def missingPart (names : List (List UInt8)) (count typed : Nat) : List UInt8 :=
  (ofAll names).drop typed ++ blankIf (count == 1)

def RoomFor (before behind : List UInt8) (n : Nat) : Prop :=
  before.length + behind.length + n < lineMax

instance (before behind : List UInt8) (n : Nat) : Decidable (RoomFor before behind n) :=
  inferInstanceAs (Decidable (_ < _))

/-- What Tab is to do: put in what is missing of the longest common prefix of the candidates. If
nothing is missing or there is no room the line stays as it is, and a number that is reported is
that of the candidates; one is reported if nothing is missing, unless it is the second Tab. -/
def Completes (w : Surroundings) (before behind : List UInt8) (again : Bool) (c : Completed) :
    Prop :=
  let names := w.candidates before
  let typed := (typedPart before).length
  let part := missingPart names names.length typed
  (typed < (ofAll names).length ∧ RoomFor before behind part.length →
    c.shell.OnLine (before ++ part) behind) ∧
  (¬ (typed < (ofAll names).length ∧ RoomFor before behind part.length) →
    c.shell.OnLine before behind ∧ (∀ n, c.answer.number = some n → n = names.length) ∧
      ((ofAll names).length ≤ typed → again = false → c.answer.number = some names.length))

/-- The shell compares the length of the whole word, of a path with its directory, with that of
names alone, and goes by the candidates that it sees as often as it sees them; the number that it
writes has three digits. These differences do not show: where there is something to put in, if
there is no directory in the word and the candidates that are seen have the same in common and are
one or more as all are; elsewhere, if what the shell would put in has no room, or it has nothing to
put in and the number is right or is not written. -/
def Meets (w : Surroundings) (before behind : List UInt8) (again : Bool) : Prop :=
  let names := w.candidates before
  let typed := (typedPart before).length
  let whole := (lastWord before).length
  (typed < (ofAll names).length ∧
      RoomFor before behind (missingPart names names.length typed).length →
    whole = typed ∧ w.seen before ≠ [] ∧ ofAll (w.seen before) = ofAll names ∧
      (w.timesSeen before = 1 ↔ names.length = 1)) ∧
  (¬ (typed < (ofAll names).length ∧
      RoomFor before behind (missingPart names names.length typed).length) →
    (0 < w.timesSeen before ∧ whole < (ofAll (w.seen before)).length →
      ¬ RoomFor before behind (missingPart (w.seen before) (w.timesSeen before) whole).length ∧
        (typed < (ofAll names).length ∨ again = true)) ∧
    (¬ (0 < w.timesSeen before ∧ whole < (ofAll (w.seen before)).length) →
      (again = true ∧ 0 < w.timesSeen before ∧ w.timesSeen before ≤ listMax) ∨
        w.timesSeen before % 1000 = names.length))

section

variable {s : Shell} {w : Surroundings} {before behind : List UInt8}

theorem resolveDirectory_some {dir resolved : List UInt8}
    (found : w.resolveDirectory dir = some resolved) :
    ∃ path, w.directoryPath dir = some path ∧ resolved = path ++ [0] ∧
      path.length + 1 ≤ profilePathMax := by
  rw [resolveDirectory] at found
  rw [directoryPath]
  cases parts : w.homeAndRest dir with
  | none =>
    rw [parts] at found
    cases found
  | some parts' =>
    rw [parts, Option.bind_eq_bind, Option.bind_some] at found
    dsimp only at found
    split at found
    · cases found
    · split at found
      · cases found
      case isFalse fits =>
        refine ⟨trimSlashes (parts'.1 ++ parts'.2), rfl, (Option.some.inj found).symm, ?_⟩
        have short : (trimSlashes (parts'.1 ++ parts'.2)).length ≤
            (parts'.1 ++ parts'.2).length := by
          rw [trimSlashes, List.length_take]
          exact min_le_right _ _
        rw [List.length_append] at short
        omega

theorem forEachCandidate_path (other : ¬ isCommand before = true) :
    w.forEachCandidate (lastWord before) (onlyWord before) = w.seen before := by
  have command : (onlyWord before && !(lastWord before).contains slash) = false :=
    Bool.eq_false_iff.mpr other
  rw [forEachCandidate, command, if_neg Bool.false_ne_true, splitPath_eq, seen, if_neg other,
    candidates, if_neg other]
  dsimp only
  by_cases empty : (directoryPart (lastWord before)).isEmpty = true
  · rw [if_pos empty, if_pos empty, ite_self]
  · rw [if_neg empty, if_neg empty, pathsIn]
    cases found : w.resolveDirectory (directoryPart (lastWord before)) with
    | none => rfl
    | some resolved =>
      obtain ⟨path, eq, rfl, short⟩ := resolveDirectory_some found
      have reach : inReach (path ++ [0]) = true := by
        rw [inReach, openablePath, if_pos (by simp), if_neg (by simp; omega)]
        rfl
      have same : w.namesIn (path ++ [0]) = w.namesIn path := by
        rw [namesIn, namesIn, takeWhile_nul]
      rw [eq, Option.isSome_some, if_pos rfl]
      dsimp only
      rw [walkDirectory_eq, if_pos reach, same]

theorem forEachCandidate_spec (w : Surroundings) (before : List UInt8) :
    (∀ name, name ∈ w.forEachCandidate (lastWord before) (onlyWord before) ↔
      name ∈ w.seen before) ∧
    (w.forEachCandidate (lastWord before) (onlyWord before)).length = w.timesSeen before := by
  by_cases command : isCommand before = true
  · have found : w.forEachCandidate (lastWord before) (onlyWord before) =
        builtins.filter (Common.startsWith · (lastWord before)) ++
          w.walkPathElements (lastWord before) := if_pos command
    rw [found, seen, timesSeen, seen, if_pos command, if_pos command]
    exact ⟨w.mem_commands _, w.length_commands _⟩
  · rw [forEachCandidate_path command, timesSeen, if_neg command]
    exact ⟨fun name => Iff.rfl, rfl⟩

theorem timesSeen_pos : 0 < w.timesSeen before ↔ w.seen before ≠ [] := by
  rw [← (forEachCandidate_spec w before).2, List.length_pos_iff]
  apply not_congr
  rw [List.eq_nil_iff_forall_not_mem, List.eq_nil_iff_forall_not_mem]
  exact forall_congr' fun name => not_congr ((forEachCandidate_spec w before).1 name)

theorem seen_subset {name : List UInt8} (mem : name ∈ w.seen before) :
    name ∈ w.candidates before := by
  rw [seen] at mem
  by_cases command : isCommand before = true
  · rw [if_pos command, commandsIn, List.mem_dedup, List.mem_filter, List.mem_append,
      List.mem_flatMap] at mem
    rw [candidates, if_pos command, commandsIn, List.mem_dedup, List.mem_filter, List.mem_append,
      List.mem_flatMap]
    refine ⟨mem.1.imp_right ?_, mem.2⟩
    intro found
    obtain ⟨dir, there, inDir⟩ := found
    exact ⟨dir, (List.mem_filter.mp there).1, inDir⟩
  · rw [if_neg command] at mem
    split at mem
    · exact mem
    · exact absurd mem List.not_mem_nil

theorem typed_or_seen (w : Surroundings) (before : List UInt8) :
    (lastWord before).length = (typedPart before).length ∨
      (w.seen before = w.candidates before ∨ w.seen before = []) ∧
        w.timesSeen before = (w.seen before).length := by
  rw [typedPart, timesSeen]
  by_cases command : isCommand before = true
  · rw [if_pos command]
    exact Or.inl rfl
  · rw [if_neg command, if_neg command, add_zero]
    refine Or.inr ⟨?_, rfl⟩
    rw [seen, if_neg command]
    split
    · exact Or.inl rfl
    · exact Or.inr rfl

theorem typed_le (before : List UInt8) :
    (typedPart before).length ≤ (lastWord before).length := by
  rw [typedPart]
  split
  · exact le_rfl
  · have parts := congrArg List.length (directoryPart_append_namePart (lastWord before))
    rw [List.length_append] at parts
    omega

theorem length_missingPart (names : List (List UInt8)) (count typed : Nat) :
    (missingPart names count typed).length =
      (ofAll names).length - typed + if count = 1 then 1 else 0 := by
  rw [missingPart, List.length_append, List.length_drop, blankIf]
  by_cases single : count = 1
  · rw [if_pos single, if_pos (beq_iff_eq.mpr single)]
    rfl
  · rw [if_neg single, if_neg (fun same => single (beq_iff_eq.mp same))]
    rfl

theorem missingPart_eq_iff {names some : List (List UInt8)} {count typed whole : Nat}
    (fewer : ∀ name ∈ some, name ∈ names) (nonempty : some ≠ [])
    (either : whole = typed ∨ some = names ∧ count = names.length) (order : typed ≤ whole)
    (more : whole < (ofAll some).length) :
    missingPart some count whole = missingPart names names.length typed ↔
      whole = typed ∧ ofAll some = ofAll names ∧ (count = 1 ↔ names.length = 1) := by
  have longer := ofAll_prefix_ofAll nonempty fewer
  have lengths := length_missingPart some count whole
  have lengths' := length_missingPart names names.length typed
  constructor
  · intro same
    have total := congrArg List.length same
    rw [lengths, lengths'] at total
    have long := longer.length_le
    cases either with
    | inr all =>
      rw [all.1, all.2] at total
      rw [all.1] at more
      exact ⟨by omega, by rw [all.1], by rw [all.2]⟩
    | inl eq =>
      have one : names.length = 1 → ofAll some = ofAll names := by
        intro single
        obtain ⟨name, rfl⟩ := List.length_eq_one_iff.mp single
        apply ofAll_congr
        intro other
        constructor
        · exact fewer other
        · intro mem
          obtain ⟨first, there⟩ := List.exists_mem_of_ne_nil some nonempty
          have first_eq := List.mem_singleton.mp (fewer first there)
          rw [List.mem_singleton.mp mem, ← first_eq]
          exact there
      have both : count = 1 ↔ names.length = 1 := by
        by_cases single : names.length = 1
        · rw [one single, if_pos single] at total
          split at total
          case isTrue count_eq => exact iff_of_true count_eq single
          case isFalse => omega
        · rw [if_neg single] at total
          split at total
          case isTrue => omega
          case isFalse count_ne => exact iff_of_false count_ne single
      have full : (ofAll some).length ≤ (ofAll names).length := by
        simp only [both] at total
        omega
      exact ⟨eq, (longer.eq_of_length_le full).symm, both⟩
  · intro all
    have single : (count == 1) = (names.length == 1) := by
      rw [Bool.eq_iff_iff, beq_iff_eq, beq_iff_eq]
      exact all.2.2
    rw [missingPart, missingPart, all.1, all.2.1, single]

theorem completeWord_spec (on : s.OnLine before behind) (w : Surroundings) (again : Bool) :
    ∃ c, s.completeWord w again = some c ∧
      let count := w.timesSeen before
      let part := missingPart (w.seen before) count (lastWord before).length
      (0 < count ∧ (lastWord before).length < (ofAll (w.seen before)).length →
        (RoomFor before behind part.length → c.shell.OnLine (before ++ part) behind) ∧
        (¬ RoomFor before behind part.length → c.shell = s ∧ c.answer.number = none)) ∧
      (¬ (0 < count ∧ (lastWord before).length < (ofAll (w.seen before)).length) →
        c.shell = s ∧ c.answer.number =
          if again = true ∧ 0 < count ∧ count ≤ listMax then none else some (count % 1000)) := by
  have found := forEachCandidate_spec w before
  have common := ofAll_congr found.1
  have part : (lastWord before).length ≤ before.length :=
    (List.rtakeWhile_suffix _ _).length_le
  have typed : slice s.line (before.length - (lastWord before).length) before.length =
      some (lastWord before) := by
    obtain ⟨junk, eq⟩ := on.line
    have cut := slice_append (before.rdropWhile (· != Common.blank)) (lastWord before)
      (behind ++ junk)
    have whole : before.rdropWhile (· != Common.blank) ++ lastWord before = before :=
      List.rdropWhile_append_rtakeWhile
    have lengths := congrArg List.length whole
    rw [List.length_append] at lengths
    rw [← List.append_assoc, whole, ← eq] at cut
    rw [show before.length - (lastWord before).length =
      (before.rdropWhile (· != Common.blank)).length by omega, ← lengths]
    exact cut
  rw [completeWord, on.slice_text, Option.bind_eq_bind, Option.bind_some, on.cursor,
    wordAtCursor_eq]
  dsimp only
  rw [typed, Option.bind_some, foldl_countName, common, found.2,
    Nat.sub_sub_self part]
  by_cases grows : 0 < w.timesSeen before ∧
      (lastWord before).length < (ofAll (w.seen before)).length
  · rw [if_pos grows]
    by_cases room : RoomFor before behind
        (missingPart (w.seen before) (w.timesSeen before) (lastWord before).length).length
    · obtain ⟨c, inserted, after⟩ := insertCompletion_fits on (show Common.Word.stop
        ⟨before.length - (lastWord before).length, before.length, onlyWord before⟩ = before.length
        from rfl) room
      exact ⟨c, inserted, fun _ => ⟨fun _ => after, fun full => absurd room full⟩,
        fun none => absurd grows none⟩
    · obtain ⟨c, refused, same, silent⟩ := insertCompletion_full on room
      exact ⟨c, refused, fun _ => ⟨fun fits => absurd fits room, fun _ => ⟨same, silent⟩⟩,
        fun none => absurd grows none⟩
  · rw [if_neg grows]
    by_cases second : 0 < w.timesSeen before ∧ again = true
    · obtain ⟨c, listed, same, number⟩ := listCandidates_spec on
        (w.forEachCandidate (lastWord before) (onlyWord before))
      rw [found.2] at listed number
      rw [if_pos second]
      refine ⟨c, listed, fun some => absurd some grows, fun _ => ⟨same, ?_⟩⟩
      rw [number]
      by_cases few : w.timesSeen before ≤ listMax
      · rw [if_pos few, if_pos ⟨second.2, second.1, few⟩]
      · rw [if_neg few, if_neg fun all => few all.2.2]
    · obtain ⟨c, counted, same, number⟩ := announceCount_spec on (w.timesSeen before)
      rw [if_neg second]
      refine ⟨c, counted, fun some => absurd some grows, fun _ => ⟨same, ?_⟩⟩
      rw [number, if_neg fun all => second ⟨all.2.1, all.1⟩]

/-- Tab always comes to an end, and does what it is for in just these cases. -/
theorem tab_completes_iff (on : s.OnLine before behind) (w : Surroundings) (again : Bool) :
    ∃ c, s.completeWord w again = some c ∧
      (Completes w before behind again c ↔ Meets w before behind again) := by
  obtain ⟨c, done, grown, stays⟩ := completeWord_spec on w again
  refine ⟨c, done, ?_⟩
  rw [Completes, Meets]
  apply and_congr
  · apply imp_congr_right
    intro missing
    have some : missingPart (w.candidates before) (w.candidates before).length
        (typedPart before).length ≠ [] := by
      apply List.ne_nil_of_length_pos
      rw [length_missingPart]
      omega
    have kept : ¬ s.OnLine (before ++ missingPart (w.candidates before)
        (w.candidates before).length (typedPart before).length) behind := by
      intro other
      exact some (List.self_eq_append_right.mp (on.unique other))
    by_cases grows : 0 < w.timesSeen before ∧
        (lastWord before).length < (ofAll (w.seen before)).length
    · have nonempty := timesSeen_pos.mp grows.1
      have either : (lastWord before).length = (typedPart before).length ∨
          w.seen before = w.candidates before ∧
            w.timesSeen before = (w.candidates before).length := by
        apply (typed_or_seen w before).imp_right
        intro seen
        have all := seen.1.resolve_right nonempty
        exact ⟨all, seen.2.trans (congrArg List.length all)⟩
      have same := missingPart_eq_iff (fun name => seen_subset) nonempty either (typed_le before)
        grows.2
      by_cases room : RoomFor before behind
          (missingPart (w.seen before) (w.timesSeen before) (lastWord before).length).length
      · have after := (grown grows).1 room
        constructor
        · intro completes
          have parts := same.mp (List.append_cancel_left (after.unique completes))
          exact ⟨parts.1, nonempty, parts.2.1, parts.2.2⟩
        · intro meets
          rw [same.mpr ⟨meets.1, meets.2.2.1, meets.2.2.2⟩] at after
          exact after
      · rw [((grown grows).2 room).1]
        apply iff_of_false kept
        intro meets
        rw [same.mpr ⟨meets.1, meets.2.2.1, meets.2.2.2⟩] at room
        exact room missing.2
    · rw [(stays grows).1]
      apply iff_of_false kept
      intro meets
      apply grows
      exact ⟨timesSeen_pos.mpr meets.2.1, by rw [meets.1, meets.2.2.1]; exact missing.1⟩
  · apply imp_congr_right
    intro unmissed
    by_cases grows : 0 < w.timesSeen before ∧
        (lastWord before).length < (ofAll (w.seen before)).length
    · have longer : ∀ part, missingPart (w.seen before) (w.timesSeen before)
          (lastWord before).length = part → part ≠ [] := by
        intro part eq
        apply List.ne_nil_of_length_pos
        rw [← eq, length_missingPart]
        omega
      by_cases room : RoomFor before behind
          (missingPart (w.seen before) (w.timesSeen before) (lastWord before).length).length
      · have after := (grown grows).1 room
        apply iff_of_false
        · intro completes
          have same := (after.unique completes.1).symm
          exact longer _ rfl (List.self_eq_append_right.mp same)
        · intro meets
          exact (meets.1 grows).1 room
      · have kept := (grown grows).2 room
        rw [kept.1, kept.2]
        constructor
        · intro completes
          refine ⟨fun _ => ⟨room, ?_⟩, fun none => absurd grows none⟩
          by_cases first : again = false
          · by_cases whole : (ofAll (w.candidates before)).length ≤ (typedPart before).length
            · cases completes.2.2 whole first
            · exact Or.inl (not_le.mp whole)
          · exact Or.inr (Bool.eq_true_of_not_eq_false first)
        · intro meets
          refine ⟨on, (fun n same => by cases same), fun whole first => ?_⟩
          cases (meets.1 grows).2 with
          | inl missing => exact absurd missing (not_lt.mpr whole)
          | inr second => cases first.symm.trans second
    · have kept := stays grows
      rw [kept.1, kept.2]
      by_cases silent : again = true ∧ 0 < w.timesSeen before ∧ w.timesSeen before ≤ listMax
      · rw [if_pos silent]
        apply iff_of_true
        · refine ⟨on, (fun n same => by cases same), fun _ first => ?_⟩
          cases first.symm.trans silent.1
        · exact ⟨fun some => absurd some grows, fun _ => Or.inl silent⟩
      · rw [if_neg silent]
        constructor
        · intro completes
          exact ⟨fun some => absurd some grows, fun _ => Or.inr (completes.2.1 _ rfl)⟩
        · intro meets
          have right := (meets.2 grows).resolve_left silent
          refine ⟨on, fun n same => ?_, fun _ _ => congrArg Option.some right⟩
          exact (Option.some.inj same).symm.trans right

theorem meets_command (command : isCommand before = true)
    (reach : ∀ dir ∈ w.searched, inReach dir = true) (once : w.twice (lastWord before) = [])
    (few : (w.candidates before).length < 1000) (behind : List UInt8) (again : Bool) :
    Meets w before behind again := by
  have all : w.seen before = w.candidates before := by
    rw [seen, if_pos command, List.filter_eq_self.mpr reach, candidates, if_pos command]
  have times : w.timesSeen before = (w.candidates before).length := by
    rw [timesSeen, all, if_pos command, once, List.length_nil, add_zero]
  have typed : typedPart before = lastWord before := if_pos command
  rw [Meets, all, times, typed]
  constructor
  · intro missing
    refine ⟨rfl, ?_, rfl, Iff.rfl⟩
    intro none
    rw [none] at missing
    exact absurd missing.1 (Nat.not_lt_zero _)
  · intro unmissed
    constructor
    · intro grows
      exact ⟨fun room => unmissed ⟨grows.2, room⟩, Or.inl grows.2⟩
    · intro _
      exact Or.inr (Nat.mod_eq_of_lt few)

end

def typedLine (before : List UInt8) : Shell where
  line := before ++ List.replicate (lineMax - before.length) 0
  length := before.length
  cursor := before.length
  overflowed := false
  escape := .idle
  historyBack := 0
  saved := List.replicate lineMax 0
  savedLength := 0
  history := List.replicate historyMax ⟨List.replicate lineMax 0, 0⟩
  historyCount := 0
  colored := false

theorem typedLine_on {before : List UInt8} (short : before.length ≤ lineMax) :
    (typedLine before).OnLine before [] where
  size := by
    rw [typedLine, List.length_append, List.length_replicate]
    omega
  line := ⟨_, rfl⟩
  length := rfl
  cursor := rfl

/-- No environment, and a root directory with a file `hello`. -/
def helloAround : Surroundings where
  environmentValue _ := none
  directory path := if path = [slash] then
    some {
      entries := [⟨12, 1, bytesOf ['h', 'e', 'l', 'l', 'o'], 16⟩]
      named := by
        simp only [List.mem_singleton, forall_eq]
        exact ⟨by decide, by decide, by decide, by decide, by decide⟩
      short := by decide
      distinct := by decide } else none

/-- `expo` becomes `export`, with a blank. -/
theorem tab_completes_export : ∃ c,
    (typedLine (bytesOf ['e', 'x', 'p', 'o'])).completeWord helloAround false = some c ∧
      c.shell.OnLine (bytesOf ['e', 'x', 'p', 'o', 'r', 't', ' ']) [] := by
  obtain ⟨c, done, exactly⟩ := tab_completes_iff
    (@typedLine_on (bytesOf ['e', 'x', 'p', 'o']) (by decide)) helloAround false
  have meets : Meets helloAround (bytesOf ['e', 'x', 'p', 'o']) [] false :=
    meets_command (by decide) (fun dir mem => absurd mem List.not_mem_nil) (by decide) (by decide)
      [] false
  exact ⟨c, done, (exactly.mpr meets).1 (by decide)⟩

/-- With `/h` typed, the file `hello` is completed to `/hllo`. -/
theorem path_loses_letter : ¬ ∀ (s : Shell) (before behind : List UInt8),
    s.OnLine before behind → ∀ (w : Surroundings) (again : Bool),
      ∃ c, s.completeWord w again = some c ∧ Completes w before behind again c := by
  intro claim
  have on := @typedLine_on (bytesOf ['/', 'h']) (by decide)
  obtain ⟨c, done, completes⟩ := claim _ _ _ on helloAround false
  obtain ⟨c', done', grown, -⟩ := completeWord_spec on helloAround false
  cases done.symm.trans done'
  have right := completes.1 (by decide)
  have wrong := (grown (by decide)).1 (by decide)
  exact absurd (right.unique wrong) (by decide)

end Zaytos.Shell
