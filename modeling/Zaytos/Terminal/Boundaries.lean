import Zaytos.Terminal.Utf8

set_option autoImplicit false

/-! Motion by characters (`common/src/text.rs`): `prev_boundary` guesses where the character
before a position begins, and comes back to where `next_boundary` left from. -/
namespace Zaytos.Terminal

variable {bytes : List UInt8} {c : Char} {n p q floor pos : Nat}

/-- The loop of `prev_boundary`: back over bytes that go on with a character, no further than
`floor`. It is `none` if a byte past the end is read. -/
def scanBack (bytes : List UInt8) (floor : Nat) : (back : Nat) → Option Nat
  | 0 => some 0
  | back + 1 =>
    if floor < back + 1 then
      match bytes[back + 1]? with
      | none => none
      | some byte => if isContinuation byte then scanBack bytes floor back else some (back + 1)
    else some (back + 1)

def prevBoundary (bytes : List UInt8) (pos : Nat) : Option Nat :=
  if pos = 0 then some 0
  else
    match scanBack bytes (pos - 4) (pos - 1) with
    | none => none
    | some back =>
      match charAt bytes back with
      | some (_, length) => some (if back + length = pos then back else pos - 1)
      | none => some (pos - 1)

def lineEnd (line : List UInt8) : Option Nat := prevBoundary line line.length

/-- A blank of `first_nonblank`. -/
def isBlank (byte : UInt8) : Bool := byte == 0x20 || byte == 0x09

def firstNonblank (line : List UInt8) : Option Nat :=
  match line.findIdx? fun byte => !isBlank byte with
  | some pos => some pos
  | none => lineEnd line

/-- The positions that `prev_boundary` comes to from the end. -/
inductive BackPosition (bytes : List UInt8) : Nat → Prop
  | stop : BackPosition bytes bytes.length
  | prev {pos back : Nat} (after : BackPosition bytes pos)
    (moves : prevBoundary bytes pos = some back) : BackPosition bytes back

section Characters

def GoesOn (bytes : List UInt8) (pos : Nat) : Prop :=
  ∃ byte, bytes[pos]? = some byte ∧ isContinuation byte = true

structure CharacterAt (bytes : List UInt8) (pos n : Nat) : Prop where
  found : ∃ c, charAt bytes pos = some (c, n)
  positive : 0 < n
  short : n ≤ 4
  inside : pos + n ≤ bytes.length
  goesOn : ∀ i, pos < i → i < pos + n → GoesOn bytes i
  lead : 1 < n → ¬ GoesOn bytes pos

theorem exists_characterAt (inside : pos < bytes.length) : ∃ n, CharacterAt bytes pos n := by
  have split : bytes.drop pos = bytes[pos] :: bytes.drop (pos + 1) :=
    List.drop_eq_getElem_cons inside
  have here := charAt_drop bytes pos
  rw [split] at here
  cases charAt_cases bytes[pos] (bytes.drop (pos + 1)) with
  | inl broken =>
    rw [broken] at here
    apply Exists.intro 1
    constructor
    · exact Exists.intro _ here
    · omega
    · omega
    · omega
    · intro i after before
      omega
    · intro more
      omega
  | inr whole =>
    obtain ⟨c, tail, more, rest, encoded, found⟩ := whole
    rw [found] at here
    have total := congrArg List.length rest
    rw [List.length_drop, List.length_append] at total
    apply Exists.intro (tail.length + 1)
    constructor
    · exact Exists.intro _ here
    · omega
    · exact Utf8Decoder.charLength_le encoded.length
    · omega
    · intro i after before
      have inTail : i - (pos + 1) < tail.length := by omega
      have there : bytes[i]? = some tail[i - (pos + 1)] := by
        have moved : (bytes.drop (pos + 1))[i - (pos + 1)]? = bytes[i]? := by
          rw [List.getElem?_drop]
          congr 1
          omega
        rw [← moved, rest, List.getElem?_append_left inTail, List.getElem?_eq_getElem inTail]
      exact ⟨_, there, encoded.goesOn _ (List.getElem_mem inTail)⟩
    · intro _ continues
      obtain ⟨byte, at_pos, continuation⟩ := continues
      rw [List.getElem?_eq_getElem inside, Option.some.injEq] at at_pos
      have begins := encoded.length
      rw [at_pos, charLength_of_continuation continuation] at begins
      cases begins

theorem CharacterAt.nextBoundary (here : CharacterAt bytes pos n) :
    nextBoundary bytes pos = pos + n := by
  obtain ⟨c, found⟩ := here.found
  simp [Terminal.nextBoundary, found]

theorem nextBoundary_past (past : bytes.length ≤ pos) : nextBoundary bytes pos = pos := by
  simp [nextBoundary, charAt, List.getElem?_eq_none past]

end Characters

section Walking

theorem WalkPosition.le_length (position : WalkPosition bytes p) : p ≤ bytes.length := by
  induction position with
  | start => exact Nat.zero_le _
  | @next pos before ih =>
    by_cases inside : pos < bytes.length
    · obtain ⟨n, here⟩ := exists_characterAt inside
      rw [here.nextBoundary]
      exact here.inside
    · rw [nextBoundary_past (by omega)]
      exact ih

theorem WalkPosition.ends (position : WalkPosition bytes p) :
    p = 0 ∨ ∃ pos n, WalkPosition bytes pos ∧ CharacterAt bytes pos n ∧ p = pos + n := by
  induction position with
  | start => exact .inl rfl
  | @next pos before ih =>
    by_cases inside : pos < bytes.length
    · obtain ⟨n, here⟩ := exists_characterAt inside
      exact .inr ⟨pos, n, before, here, here.nextBoundary⟩
    · rw [nextBoundary_past (by omega)]
      exact ih

theorem WalkPosition.end_of (position : WalkPosition bytes p) :
    WalkPosition bytes bytes.length := by
  induction left : bytes.length - p using Nat.strongRecOn generalizing p with
  | _ left ih =>
    have le := position.le_length
    by_cases inside : p < bytes.length
    · obtain ⟨n, here⟩ := exists_characterAt inside
      have positive := here.positive
      have next := position.next
      rw [here.nextBoundary] at next
      exact ih _ (by omega) next rfl
    · have same : p = bytes.length := by omega
      rwa [same] at position

theorem WalkPosition.not_inside (position : WalkPosition bytes p) (here : CharacterAt bytes q n)
    (many : 1 < n) : ¬ (q < p ∧ p < q + n) := by
  induction position with
  | start => omega
  | @next pos before ih =>
    by_cases inside : pos < bytes.length
    · obtain ⟨m, there⟩ := exists_characterAt inside
      rw [there.nextBoundary]
      intro within
      have same : pos ≠ q := by
        intro same
        subst same
        obtain ⟨c, found⟩ := here.found
        obtain ⟨d, found'⟩ := there.found
        rw [found, Option.some.injEq, Prod.mk.injEq] at found'
        omega
      apply here.lead many
      apply there.goesOn
      · omega
      · omega
    · rw [nextBoundary_past (by omega)]
      exact ih

end Walking

section Back

theorem scanBack_stops {back : Nat} (above : floor ≤ back) (inside : back < bytes.length) :
    ∃ stop, scanBack bytes floor back = some stop ∧ floor ≤ stop ∧ stop ≤ back ∧
      (∀ i, stop < i → i ≤ back → GoesOn bytes i) ∧ (stop = floor ∨ ¬ GoesOn bytes stop) := by
  induction back with
  | zero =>
    refine ⟨0, rfl, above, Nat.le_refl 0, ?_, .inl (by omega)⟩
    intro i after before
    omega
  | succ back ih =>
    rw [scanBack]
    by_cases low : floor < back + 1
    · rw [if_pos low, List.getElem?_eq_getElem inside]
      dsimp only
      have here : bytes[back + 1]? = some bytes[back + 1] := List.getElem?_eq_getElem inside
      by_cases continuation : isContinuation bytes[back + 1] = true
      · rw [if_pos continuation]
        obtain ⟨stop, scanned, least, most, goesOn, stopped⟩ := ih (by omega) (by omega)
        refine ⟨stop, scanned, least, by omega, ?_, stopped⟩
        intro i after before
        by_cases last : i = back + 1
        · rw [last]
          exact ⟨_, here, continuation⟩
        · exact goesOn i after (by omega)
      · rw [if_neg continuation]
        refine ⟨back + 1, rfl, above, Nat.le_refl _, ?_, .inr ?_⟩
        · intro i after before
          omega
        · intro continues
          obtain ⟨byte, found, continues⟩ := continues
          rw [here, Option.some.injEq] at found
          rw [found] at continuation
          exact continuation continues
    · rw [if_neg low]
      refine ⟨back + 1, rfl, above, Nat.le_refl _, ?_, .inl (by omega)⟩
      intro i after before
      omega

theorem prevBoundary_end (position : WalkPosition bytes p) (here : CharacterAt bytes p n) :
    prevBoundary bytes (p + n) = some p := by
  have positive := here.positive
  have short := here.short
  have inside := here.inside
  obtain ⟨stop, scanned, least, most, goesOn, stopped⟩ :=
    @scanBack_stops bytes (p + n - 4) (p + n - 1) (by omega) (by omega)
  rw [prevBoundary, if_neg (by omega), scanned]
  dsimp only
  by_cases same : stop = p
  · obtain ⟨c, found⟩ := here.found
    rw [same, found]
    simp
  · -- The scan left the character, so the character is one byte that is not understood.
    have before : stop < p := by
      by_contra after
      cases stopped with
      | inl low => omega
      | inr lead => exact lead (here.goesOn stop (by omega) (by omega))
    have one : n = 1 := by
      by_contra many
      exact here.lead (by omega) (goesOn p before (by omega))
    obtain ⟨m, there⟩ := @exists_characterAt bytes stop (by omega)
    obtain ⟨c, found⟩ := there.found
    rw [found]
    dsimp only
    have misses : stop + m ≠ p + n := by
      intro meets
      apply position.not_inside there
      · omega
      · omega
    rw [if_neg misses, one]
    rfl

theorem prevBoundary_nextBoundary (position : WalkPosition bytes p) (inside : p < bytes.length) :
    prevBoundary bytes (nextBoundary bytes p) = some p := by
  obtain ⟨n, here⟩ := exists_characterAt inside
  rw [here.nextBoundary]
  exact prevBoundary_end position here

theorem WalkPosition.prev (position : WalkPosition bytes p)
    (moves : prevBoundary bytes p = some q) : WalkPosition bytes q := by
  cases position.ends with
  | inl zero =>
    rw [zero, prevBoundary, if_pos rfl, Option.some.injEq] at moves
    rw [← moves]
    exact WalkPosition.start
  | inr ended =>
    obtain ⟨pos, n, before, here, rfl⟩ := ended
    rw [prevBoundary_end before here, Option.some.injEq] at moves
    rwa [← moves]

theorem BackPosition.walk (position : BackPosition bytes p) : WalkPosition bytes p := by
  induction position with
  | stop => exact WalkPosition.start.end_of
  | prev after moves ih => exact ih.prev moves

theorem WalkPosition.back (position : WalkPosition bytes p) : BackPosition bytes p := by
  induction left : bytes.length - p using Nat.strongRecOn generalizing p with
  | _ left ih =>
    have le := position.le_length
    by_cases inside : p < bytes.length
    · obtain ⟨n, here⟩ := exists_characterAt inside
      have positive := here.positive
      have next := position.next
      rw [here.nextBoundary] at next
      apply BackPosition.prev
      · exact ih _ (by omega) next rfl
      · exact prevBoundary_end position here
    · have same : p = bytes.length := by omega
      rw [same]
      exact BackPosition.stop

end Back

section Lines

structure LastCharacter (line : List UInt8) (p : Nat) : Prop where
  walk : WalkPosition line p
  empty : line = [] → p = 0
  inside : line ≠ [] → p < line.length
  last : ∀ q, WalkPosition line q → q < line.length → q ≤ p

theorem lineEnd_last (line : List UInt8) : ∃ p, lineEnd line = some p ∧ LastCharacter line p := by
  cases (@WalkPosition.start line).end_of.ends with
  | inl nothing =>
    refine ⟨0, by simp [lineEnd, prevBoundary, nothing], WalkPosition.start, ?_, ?_, ?_⟩
    · intro _
      rfl
    · intro character
      exact absurd (List.length_eq_zero_iff.mp nothing) character
    · intro q _ inside
      omega
  | inr ended =>
    obtain ⟨p, n, position, here, whole⟩ := ended
    have positive := here.positive
    refine ⟨p, by rw [lineEnd, whole]; exact prevBoundary_end position here, position, ?_, ?_, ?_⟩
    · intro empty
      rw [empty, List.length_nil] at whole
      omega
    · intro _
      omega
    · intro q other inside
      by_contra after
      by_cases many : 1 < n
      · exact other.not_inside here many ⟨by omega, by omega⟩
      · omega

theorem walkPosition_blanks
    (blanks : ∀ i (inside : i < bytes.length), i < p → isBlank bytes[i] = true)
    (le : p ≤ bytes.length) : WalkPosition bytes p := by
  induction p with
  | zero => exact WalkPosition.start
  | succ p ih =>
    have before : WalkPosition bytes p := by
      apply ih
      · intro i inside lt
        exact blanks i inside (by omega)
      · omega
    have blank := blanks p (by omega) (by omega)
    have one : charLength bytes[p] = some 1 := by
      simp only [isBlank, Bool.or_eq_true, beq_iff_eq] at blank
      cases blank with
      | inl space => rw [space]; rfl
      | inr tab => rw [tab]; rfl
    have ascii := charAt_encoded (encoded_ascii one) (bytes.drop (p + 1))
    rw [List.cons_append, List.nil_append, ← List.drop_eq_getElem_cons, ← charAt_drop] at ascii
    have next := before.next
    rwa [nextBoundary, ascii] at next

theorem firstNonblank_walk (line : List UInt8) :
    ∃ p, firstNonblank line = some p ∧ WalkPosition line p := by
  rw [firstNonblank]
  cases found : line.findIdx? fun byte => !isBlank byte with
  | none =>
    obtain ⟨p, ended, last⟩ := lineEnd_last line
    exact ⟨p, ended, last.walk⟩
  | some p =>
    refine ⟨p, rfl, ?_⟩
    rw [List.findIdx?_eq_some_iff_getElem] at found
    obtain ⟨inside, -, blanks⟩ := found
    apply walkPosition_blanks
    · intro i _ before
      simpa using blanks i before
    · omega

end Lines

/-- Motion to the right and then to the left comes back to the same character, in any bytes. So the
positions met from the end backwards are those of the walk, `line_end` is the last of them before
the end, and `first_nonblank` one of them. -/
theorem prevBoundary_inverts (bytes : List UInt8) :
    (∀ p, WalkPosition bytes p → p < bytes.length →
      prevBoundary bytes (nextBoundary bytes p) = some p) ∧
    (∀ p, BackPosition bytes p ↔ WalkPosition bytes p) ∧
    (∃ p, lineEnd bytes = some p ∧ LastCharacter bytes p) ∧
    ∃ p, firstNonblank bytes = some p ∧ WalkPosition bytes p := by
  refine ⟨?_, ?_, lineEnd_last bytes, firstNonblank_walk bytes⟩
  · intro p position inside
    exact prevBoundary_nextBoundary position inside
  · intro p
    exact ⟨BackPosition.walk, WalkPosition.back⟩

/-- A lead without its continuation, stray continuations and a character of three bytes. -/
example : prevBoundary [0xE3, 0x81, 0x41, 0x80, 0xE3, 0x81, 0x82] 7 = some 4 ∧
    prevBoundary [0xE3, 0x81, 0x41, 0x80, 0xE3, 0x81, 0x82] 2 = some 1 := by decide

end Zaytos.Terminal

/-! Texts that are valid UTF-8: in them the characters begin where no byte goes on with one, and
between two characters they can be cut. -/
namespace Zaytos.Terminal

variable {bytes first second : List UInt8} {byte : UInt8} {c : Char} {n p pos : Nat}

/-- `core::str::from_utf8` takes the bytes. -/
def IsUtf8 (bytes : List UInt8) : Prop := ∃ cs, fromUtf8 bytes = some cs

section Valid

theorem isUtf8_encode (cs : List Char) : IsUtf8 (cs.flatMap String.utf8EncodeChar) :=
  ⟨cs, fromUtf8_encode cs⟩

theorem isUtf8_nil : IsUtf8 [] := isUtf8_encode []

theorem IsUtf8.append (one : IsUtf8 first) (two : IsUtf8 second) : IsUtf8 (first ++ second) := by
  obtain ⟨cs, decoded⟩ := one
  obtain ⟨ds, decoded'⟩ := two
  rw [eq_of_fromUtf8 decoded, eq_of_fromUtf8 decoded', ← List.flatMap_append]
  exact isUtf8_encode (cs ++ ds)

theorem Encoded.isUtf8 {head : UInt8} {tail : List UInt8} (encoded : Encoded c head tail) :
    IsUtf8 (head :: tail) := ⟨[c], encoded.decoded⟩

theorem isUtf8_ascii (small : byte < 0x80) : IsUtf8 [byte] := by
  apply (@encoded_ascii byte _).isUtf8
  have few : byte ≤ 0x7F := by
    rw [UInt8.le_iff_toNat_le]
    rw [UInt8.lt_iff_toNat_lt] at small
    simp at small ⊢
    omega
  rw [charLength, if_pos few]

theorem IsUtf8.front (valid : IsUtf8 bytes) (some : bytes ≠ []) :
    ∃ c head tail rest, bytes = head :: tail ++ rest ∧ Encoded c head tail ∧ IsUtf8 rest := by
  obtain ⟨cs, decoded⟩ := valid
  have whole := eq_of_fromUtf8 decoded
  cases cs with
  | nil => exact absurd whole some
  | cons c cs =>
    obtain ⟨head, tail, encoded⟩ := exists_encoded c
    refine ⟨c, head, tail, cs.flatMap String.utf8EncodeChar, ?_, encoded, isUtf8_encode cs⟩
    rw [whole, List.flatMap_cons, encoded.bytes]

end Valid

section Positions

theorem IsUtf8.cut (valid : IsUtf8 bytes) (position : WalkPosition bytes p) :
    IsUtf8 (bytes.take p) ∧ IsUtf8 (bytes.drop p) := by
  induction position with
  | start => exact ⟨isUtf8_nil, valid⟩
  | @next pos before ih =>
    by_cases past : bytes.length ≤ pos
    · rw [nextBoundary_past past]
      exact ih
    · have nonempty : bytes.drop pos ≠ [] := by
        simpa using past
      obtain ⟨c, head, tail, rest, eq, encoded, valid'⟩ := ih.2.front nonempty
      have found : charAt bytes pos = some (c, tail.length + 1) := by
        rw [charAt_drop, eq]
        exact charAt_encoded encoded rest
      have next : nextBoundary bytes pos = pos + (head :: tail).length := by
        rw [nextBoundary, found]
        rfl
      rw [next, List.take_add, ← List.drop_drop, eq, List.take_left, List.drop_left]
      exact ⟨ih.1.append encoded.isUtf8, valid'⟩

theorem walkPosition_append (valid : IsUtf8 first) (second : List UInt8) :
    WalkPosition (first ++ second) first.length := by
  obtain ⟨cs, decoded⟩ := valid
  have whole := eq_of_fromUtf8 decoded
  have reached : ∀ (cs : List Char) (before : List UInt8),
      WalkPosition (before ++ (cs.flatMap String.utf8EncodeChar ++ second)) before.length →
        WalkPosition (before ++ (cs.flatMap String.utf8EncodeChar ++ second))
          (before.length + (cs.flatMap String.utf8EncodeChar).length) := by
    intro cs
    induction cs with
    | nil =>
      intro before position
      exact position
    | cons c cs ih =>
      intro before position
      obtain ⟨head, tail, encoded⟩ := exists_encoded c
      rw [List.flatMap_cons, encoded.bytes, List.append_assoc, ← List.append_assoc before]
        at position ⊢
      have next := position.next
      have found : charAt (before ++ head :: tail ++
          (cs.flatMap String.utf8EncodeChar ++ second)) before.length =
            some (c, tail.length + 1) := by
        rw [charAt_drop, List.append_assoc, List.drop_left]
        exact charAt_encoded encoded _
      rw [nextBoundary, found] at next
      have length : (before ++ head :: tail).length = before.length + (tail.length + 1) := by
        rw [List.length_append, List.length_cons]
      have rest := ih (before ++ head :: tail) (length ▸ next)
      rw [length] at rest
      rw [List.length_append, List.length_cons, ← Nat.add_assoc]
      exact rest
  have reach := reached cs [] WalkPosition.start
  rw [← whole, List.nil_append, List.length_nil, Nat.zero_add] at reach
  exact reach

theorem walk_or_inside (inside : pos ≤ bytes.length) : WalkPosition bytes pos ∨
    ∃ p n, WalkPosition bytes p ∧ CharacterAt bytes p n ∧ p < pos ∧ pos < p + n := by
  induction pos with
  | zero => exact .inl WalkPosition.start
  | succ pos ih =>
    rcases ih (by omega) with walk | ⟨p, n, walk, here, after, before⟩
    · obtain ⟨n, here⟩ := exists_characterAt (show pos < bytes.length by omega)
      have positive := here.positive
      have next := walk.next
      rw [here.nextBoundary] at next
      by_cases one : n = 1
      · rw [one] at next
        exact .inl next
      · exact .inr ⟨pos, n, walk, here, by omega, by omega⟩
    · have next := walk.next
      rw [here.nextBoundary] at next
      by_cases last : p + n = pos + 1
      · rw [last] at next
        exact .inl next
      · exact .inr ⟨p, n, walk, here, by omega, by omega⟩

theorem IsUtf8.walk_iff (valid : IsUtf8 bytes) (inside : pos ≤ bytes.length) :
    WalkPosition bytes pos ↔ ¬ GoesOn bytes pos := by
  constructor
  · intro walk continues
    obtain ⟨byte, found, continuation⟩ := continues
    have small := (List.getElem?_eq_some_iff.mp found).1
    obtain ⟨c, head, tail, rest, eq, encoded, -⟩ :=
      (valid.cut walk).2.front (by simpa using small)
    have same : bytes[pos]? = some head := by
      rw [← Nat.add_zero pos, ← List.getElem?_drop, eq]
      rfl
    rw [Option.some.inj (found.symm.trans same)] at continuation
    cases (charLength_of_continuation continuation).symm.trans encoded.length
  · intro begins
    rcases walk_or_inside inside with walk | ⟨p, n, -, here, after, before⟩
    · exact walk
    · exact absurd (here.goesOn pos after before) begins

theorem prevBoundary_inside (here : CharacterAt bytes p n) (after : p < pos)
    (before : pos < p + n) :
    prevBoundary bytes pos = some (pos - 1) := by
  have short := here.short
  have inside := here.inside
  obtain ⟨stop, scanned, least, most, goesOn, stopped⟩ :=
    @scanBack_stops bytes (pos - 4) (pos - 1) (by omega) (by omega)
  have lead := here.lead (by omega)
  have same : stop = p := by
    by_contra other
    rcases Nat.lt_or_gt_of_ne other with low | high
    · exact lead (goesOn p low (by omega))
    · rcases stopped with floor | begins
      · omega
      · exact begins (here.goesOn stop high (by omega))
  obtain ⟨c, found⟩ := here.found
  rw [prevBoundary, if_neg (by omega), scanned, same]
  dsimp only
  rw [found]
  dsimp only
  rw [if_neg (by omega)]

end Positions

end Zaytos.Terminal
