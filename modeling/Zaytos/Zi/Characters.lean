import Zaytos.Zi.Steps

set_option autoImplicit false

/-! The editor in a valid text: the cursor is where a character begins, and in normal mode on a
character, as long as it does not come up or down into the middle of one. -/
namespace Zaytos.Zi

open Terminal (GoesOn IsUtf8 WalkPosition charLength firstNonblank lineEnd nextBoundary
  prevBoundary)

variable {line : List UInt8} {lines lines' : List (List UInt8)} {pos col row : Nat} {byte : UInt8}

section Columns

def ToLast (line : List UInt8) (col : Nat) : Prop := ∃ last, lineEnd line = some last ∧ col ≤ last

/-- The column is behind the second byte of a character that is not the last one, or further on
in it. -/
def Deep (line : List UInt8) (col : Nat) : Prop :=
  ToLast line col ∧ isBoundary line col = false ∧ isBoundary line (col - 1) = false

theorem toLast_zero (line : List UInt8) : ToLast line 0 := by
  obtain ⟨last, ends, -⟩ := Terminal.lineEnd_last line
  exact ⟨last, ends, Nat.zero_le _⟩

theorem toLast_of_lt (walk : WalkPosition line col) (inside : col < line.length) :
    ToLast line col := by
  obtain ⟨last, ends, character⟩ := Terminal.lineEnd_last line
  exact ⟨last, ends, character.last col walk inside⟩

theorem isBoundary_eq_false :
    isBoundary line col = false ↔ GoesOn line col ∨ line.length < col := by
  unfold isBoundary GoesOn
  cases found : (line)[col]? with
  | none =>
    have past := List.getElem?_eq_none_iff.mp found
    simp
    omega
  | some byte =>
    have inside := (List.getElem?_eq_some_iff.mp found).1
    simp
    omega

theorem isBoundary_iff (valid : IsUtf8 line) (inside : col ≤ line.length) :
    isBoundary line col = true ↔ WalkPosition line col := by
  rw [valid.walk_iff inside, ← Bool.not_eq_false, isBoundary_eq_false]
  simp [Nat.not_lt.mpr inside]

theorem clampColumn_walk (valid : IsUtf8 line) (fair : ¬ Deep line col) :
    ∃ c, clampColumn line col = some c ∧ WalkPosition line c ∧ ToLast line c := by
  obtain ⟨last, ends, character⟩ := Terminal.lineEnd_last line
  have last_le := character.walk.le_length
  have ends' : prevBoundary line line.length = some last := ends
  unfold clampColumn
  rw [ends', Option.bind_eq_bind, Option.bind_some]
  by_cases past : last < col
  · rw [if_pos past]
    exact ⟨last, rfl, character.walk, last, ends, Nat.le_refl _⟩
  · have le : col ≤ last := Nat.le_of_not_lt past
    rw [if_neg past]
    cases boundary : isBoundary line col with
    | true =>
      have walk := (isBoundary_iff valid (by omega)).mp boundary
      exact ⟨col, rfl, walk, last, ends, le⟩
    | false =>
      have walk : WalkPosition line (col - 1) := by
        rw [← isBoundary_iff valid (by omega), ← Bool.not_eq_false]
        intro again
        exact fair ⟨⟨last, ends, le⟩, boundary, again⟩
      have back : prevBoundary line col = some (col - 1) := by
        rcases Terminal.walk_or_inside (show col ≤ line.length by omega) with whole | inside
        · have other := (isBoundary_iff valid (by omega)).mpr whole
          rw [boundary] at other
          cases other
        · obtain ⟨p, n, -, here, after, before⟩ := inside
          exact Terminal.prevBoundary_inside here after before
      rw [back]
      exact ⟨col - 1, rfl, walk, last, ends, by omega⟩

theorem firstNonblank_last (line : List UInt8) :
    ∃ p, firstNonblank line = some p ∧ WalkPosition line p ∧ ToLast line p := by
  obtain ⟨p, found, walk⟩ := Terminal.firstNonblank_walk line
  refine ⟨p, found, walk, ?_⟩
  unfold firstNonblank at found
  cases first : line.findIdx? fun byte => !Terminal.isBlank byte with
  | some q =>
    rw [first] at found
    cases found
    rw [List.findIdx?_eq_some_iff_getElem] at first
    obtain ⟨inside, -⟩ := first
    exact toLast_of_lt walk inside
  | none =>
    rw [first] at found
    exact ⟨p, found, Nat.le_refl _⟩

end Columns

section Edits

/-- Lines that are valid, and a place in one of them where a character begins. -/
def Lands (lines : List (List UInt8)) (row col : Nat) : Prop :=
  (∀ line ∈ lines, IsUtf8 line) ∧ ∃ line, lines[row]? = some line ∧ WalkPosition line col

variable (valid : ∀ line ∈ lines, IsUtf8 line) (here : lines[row]? = some line)
  (walk : WalkPosition line col)
include valid here walk

omit walk in
theorem lands_set {new : List UInt8} (valid' : IsUtf8 new) {col' : Nat}
    (walk' : WalkPosition new col') : Lands (lines.set row new) row col' := by
  have inside := (List.getElem?_eq_some_iff.mp here).1
  constructor
  · intro other mem
    rcases List.mem_or_eq_of_mem_set mem with old | same
    · exact valid other old
    · rw [same]
      exact valid'
  · exact ⟨new, List.getElem?_set_self inside, walk'⟩

theorem insert_lands (small : byte < 0x80)
    (applied : Edit.apply lines (.insert row col byte) = some lines') :
    Lands lines' row (col + 1) := by
  have parts := (valid line (List.mem_of_getElem? here)).cut walk
  have le := walk.le_length
  have front := parts.1.append (Terminal.isUtf8_ascii small)
  have length : (line.take col ++ [byte]).length = col + 1 := by
    rw [List.length_append, List.length_take, Nat.min_eq_left le, List.length_singleton]
  simp only [Edit.apply, here, Option.bind_some, if_pos le] at applied
  cases applied
  have split : line.take col ++ byte :: line.drop col =
      line.take col ++ [byte] ++ line.drop col := by simp
  apply lands_set valid here
  · rw [split]
    exact front.append parts.2
  · have next := Terminal.walkPosition_append front (line.drop col)
    rw [length, ← split] at next
    exact next

theorem splitLine_lands (applied : Edit.apply lines (.splitLine row col) = some lines') :
    Lands lines' (row + 1) 0 := by
  have parts := (valid line (List.mem_of_getElem? here)).cut walk
  obtain ⟨line', found⟩ := Edit.apply_splitLine here applied
  simp only [Edit.apply, here, Option.bind_some, if_pos walk.le_length] at applied
  cases applied
  refine ⟨?_, line', found, WalkPosition.start⟩
  intro other mem
  simp only [List.mem_append, List.mem_cons] at mem
  rcases mem with before | first | second | after
  · exact valid other (List.mem_of_mem_take before)
  · rw [first]
    exact parts.1
  · rw [second]
    exact parts.2
  · exact valid other (List.mem_of_mem_drop after)

omit walk in
theorem joinWithNext_lands (applied : Edit.apply lines (.joinWithNext row) = some lines') :
    Lands lines' row line.length := by
  have inside := (List.getElem?_eq_some_iff.mp here).1
  have first := valid line (List.mem_of_getElem? here)
  simp only [Edit.apply, here, Option.bind_some, Option.map_eq_some_iff] at applied
  obtain ⟨second, found, rfl⟩ := applied
  have whole := first.append (valid second (List.mem_of_getElem? found))
  refine ⟨?_, line ++ second, ?_, Terminal.walkPosition_append first second⟩
  · intro other mem
    simp only [List.mem_append, List.mem_cons] at mem
    rcases mem with before | same | after
    · exact valid other (List.mem_of_mem_take before)
    · rw [same]
      exact whole
    · exact valid other (List.mem_of_mem_drop after)
  · rw [List.getElem?_append_right (by rw [List.length_take]; omega), List.length_take,
      Nat.min_eq_left (Nat.le_of_lt inside), Nat.sub_self]
    rfl

theorem remove_lands (applied : Edit.apply lines (.remove row col) = some lines') :
    Lands lines' row col ∧ ∃ line', lines'[row]? = some line' ∧
      (nextBoundary line col < line.length → col < line'.length) := by
  have inside := (List.getElem?_eq_some_iff.mp here).1
  have whole := valid line (List.mem_of_getElem? here)
  have parts := whole.cut walk
  have le := walk.le_length
  have next := walk.next
  simp only [Edit.apply, here, Option.bind_some, Option.map_eq_some_iff] at applied
  obtain ⟨⟨c, width⟩, found, rfl⟩ := applied
  have place : nextBoundary line col = col + width := by
    rw [nextBoundary, found]
  rw [place] at next ⊢
  have rest := (whole.cut next).2
  have length : (line.take col).length = col := by
    rw [List.length_take, Nat.min_eq_left le]
  constructor
  · apply lands_set valid here (parts.1.append rest)
    have reached := Terminal.walkPosition_append parts.1 (line.drop (col + width))
    rw [length] at reached
    exact reached
  · refine ⟨_, List.getElem?_set_self inside, ?_⟩
    intro more
    rw [List.length_append, length, List.length_drop]
    omega

end Edits

section Lines

theorem isUtf8_split {rest : List UInt8} (valid : IsUtf8 (line ++ newline :: rest)) :
    IsUtf8 line ∧ IsUtf8 rest := by
  have found : (line ++ newline :: rest)[line.length]? = some newline := by simp
  have begins : ¬ GoesOn (line ++ newline :: rest) line.length := by
    intro continues
    obtain ⟨byte, there, continuation⟩ := continues
    cases found.symm.trans there
    cases continuation
  have walk := (valid.walk_iff (by simp)).mpr begins
  have parts := valid.cut walk
  rw [List.take_left, List.drop_left] at parts
  obtain ⟨c, head, tail, others, eq, encoded, valid'⟩ := parts.2.front (List.cons_ne_nil _ _)
  rw [List.cons_append, List.cons.injEq] at eq
  obtain ⟨rfl, eq⟩ := eq
  have one : charLength newline = some 1 := rfl
  have none' : tail = [] := by
    have length := one.symm.trans encoded.length
    rw [Option.some.injEq] at length
    exact List.length_eq_zero_iff.mp (by omega)
  rw [none', List.nil_append] at eq
  exact ⟨parts.1, eq ▸ valid'⟩

theorem isUtf8_text_iff :
    IsUtf8 (Terminated.text newline lines) ↔ ∀ line ∈ lines, IsUtf8 line := by
  induction lines with
  | nil => simp [Terminal.isUtf8_nil]
  | cons line lines ih =>
    rw [Terminated.text_cons, List.forall_mem_cons, ← ih]
    constructor
    · exact isUtf8_split
    · intro both
      exact both.1.append ((Terminal.isUtf8_ascii (by decide)).append both.2)

theorem isUtf8_ended {content : List UInt8} (valid : IsUtf8 content) : IsUtf8 (ended content) := by
  unfold ended
  split
  · exact valid
  · exact valid.append (Terminal.isUtf8_ascii (by decide))

end Lines

end Zaytos.Zi
