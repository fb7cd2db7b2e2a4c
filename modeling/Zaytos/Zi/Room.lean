import Zaytos.Terminal.Boundaries
import Zaytos.Zi.BufferSpec

set_option autoImplicit false

/-! What an edit leaves where it was made, and when the buffer can make it: a character can be
removed where there is one, and a line broken where there is room for one more. -/
namespace Zaytos.Zi

open Kernel (heapLimit)

variable {line : List UInt8} {lines lines' : List (List UInt8)} {pos row : Nat}

namespace Edit

theorem apply_insert {byte : UInt8} (here : lines[row]? = some line)
    (applied : apply lines (.insert row pos byte) = some lines') :
    ∃ line', lines'[row]? = some line' ∧ pos + 1 ≤ line'.length := by
  have inside := (List.getElem?_eq_some_iff.mp here).1
  simp only [apply, here, Option.bind_some] at applied
  split at applied
  · cases applied
    refine ⟨_, List.getElem?_set_self inside, ?_⟩
    simp only [List.length_append, List.length_cons, List.length_take]
    omega
  · cases applied

theorem apply_splitLine (here : lines[row]? = some line)
    (applied : apply lines (.splitLine row pos) = some lines') :
    ∃ line', lines'[row + 1]? = some line' := by
  have inside := (List.getElem?_eq_some_iff.mp here).1
  simp only [apply, here, Option.bind_some] at applied
  split at applied
  · cases applied
    apply Exists.intro (line.drop pos)
    rw [List.getElem?_append_right (by rw [List.length_take]; omega), List.length_take,
      Nat.min_eq_left (Nat.le_of_lt inside), Nat.add_sub_cancel_left]
    rfl
  · cases applied

theorem apply_joinWithNext (here : lines[row]? = some line)
    (applied : apply lines (.joinWithNext row) = some lines') :
    ∃ line', lines'[row]? = some line' ∧ line.length ≤ line'.length := by
  have inside := (List.getElem?_eq_some_iff.mp here).1
  simp only [apply, here, Option.bind_some, Option.map_eq_some_iff] at applied
  obtain ⟨second, _, rfl⟩ := applied
  refine ⟨line ++ second, ?_, ?_⟩
  · rw [List.getElem?_append_right (by rw [List.length_take]; omega), List.length_take,
      Nat.min_eq_left (Nat.le_of_lt inside), Nat.sub_self]
    rfl
  · rw [List.length_append]
    exact Nat.le_add_right _ _

theorem apply_remove (here : lines[row]? = some line)
    (applied : apply lines (.remove row pos) = some lines') :
    ∃ line', lines'[row]? = some line' ∧ pos ≤ line'.length := by
  have inside := (List.getElem?_eq_some_iff.mp here).1
  simp only [apply, here, Option.bind_some, Option.map_eq_some_iff] at applied
  obtain ⟨⟨c, width⟩, found, rfl⟩ := applied
  obtain ⟨before, fits⟩ := Buffer.charAt_inside found
  refine ⟨_, List.getElem?_set_self inside, ?_⟩
  simp only [List.length_append, List.length_take, List.length_drop]
  omega

end Edit

namespace Buffer

variable {b b' : Buffer} {reaches : Reaches} {ok : Bool}

def canGrow (reaches : Reaches) (len bytes : Nat) : Bool :=
  len < bytes && bytes ≤ heapLimit && reaches bytes

def nextTextCap (b : Buffer) : Nat :=
  if b.used < b.textCap then b.textCap else roundUpWord (b.textCap + textStep)

/-- There is room for one more line: for the byte at its end and for its start, or the heap grows
by a step for each that there is none for. -/
def roomForLine (reaches : Reaches) (b : Buffer) : Bool :=
  let len := if b.used < b.textCap then b.region.len else b.nextTextCap + b.indexCap * word
  (b.used < b.textCap || canGrow reaches b.region.len (b.nextTextCap + b.indexCap * word)) &&
    (b.count + 1 < b.indexCap ||
      canGrow reaches len (b.nextTextCap + (b.indexCap + indexStep) * word))

theorem copyWithin_len {d d' : Bytes} {cap start stop dest : Nat}
    (copied : copyWithin d cap start stop dest = some d') : d'.len = d.len := by
  unfold copyWithin at copied
  split at copied
  · cases copied
    rfl
  · cases copied

theorem regrow_ok {textCap indexCap : Nat}
    (done : b.regrow reaches textCap indexCap = some (ok, b')) :
    ok = canGrow reaches b.region.len (textCap + indexCap * word) ∧
      (ok = true → b'.region.len = textCap + indexCap * word ∧ b'.textCap = textCap ∧
        b'.indexCap = indexCap) := by
  unfold regrow growTo at done
  unfold canGrow
  by_cases few : textCap + indexCap * word ≤ b.region.len
  · rw [if_pos few] at done
    cases done
    simp [Nat.not_lt.mpr few]
  rw [if_neg few] at done
  by_cases granted : textCap + indexCap * word ≤ heapLimit ∧
      reaches (textCap + indexCap * word) = true
  · rw [if_pos granted] at done
    have allowed : (decide (b.region.len < textCap + indexCap * word) &&
        decide (textCap + indexCap * word ≤ heapLimit) &&
          reaches (textCap + indexCap * word)) = true := by
      simp [Nat.lt_of_not_le few, granted.1, granted.2]
    rw [allowed]
    dsimp only at done
    split at done
    · obtain ⟨region, copied, done⟩ := Option.bind_eq_some_iff.mp done
      cases done
      exact ⟨rfl, fun _ => ⟨copyWithin_len copied, rfl, rfl⟩⟩
    · cases done
      exact ⟨rfl, fun _ => ⟨rfl, rfl, rfl⟩⟩
  · rw [if_neg granted] at done
    cases done
    refine ⟨?_, nofun⟩
    rw [eq_comm, Bool.and_assoc, Bool.and_eq_false_iff]
    apply Or.inr
    simpa using granted

theorem ensureText_ok (room : b.used ≤ b.textCap)
    (done : b.ensureText reaches (b.used + 1) = some (ok, b')) :
    ok = (b.used < b.textCap ||
      canGrow reaches b.region.len (b.nextTextCap + b.indexCap * word)) ∧
      (ok = true → b'.textCap = b.nextTextCap ∧ b'.indexCap = b.indexCap ∧
        b'.region.len = if b.used < b.textCap then b.region.len
          else b.nextTextCap + b.indexCap * word) := by
  unfold ensureText at done
  unfold nextTextCap
  by_cases enough : b.used + 1 ≤ b.textCap
  · have free : b.used < b.textCap := enough
    rw [if_pos enough] at done
    cases done
    simp [free]
  · have full : ¬ b.used < b.textCap := enough
    have step : textStep = 4096 := rfl
    rw [if_neg enough, if_neg (by omega)] at done
    rw [if_neg full, if_neg full, decide_eq_false full, Bool.false_or]
    obtain ⟨same, grown⟩ := regrow_ok done
    refine ⟨same, ?_⟩
    intro granted
    obtain ⟨len, textCap, indexCap⟩ := grown granted
    exact ⟨textCap, indexCap, len⟩

theorem ensureIndex_ok (slots : b.count < b.indexCap)
    (done : b.ensureIndex reaches (b.count + 2) = some (ok, b')) :
    ok = (b.count + 1 < b.indexCap ||
      canGrow reaches b.region.len (b.textCap + (b.indexCap + indexStep) * word)) := by
  unfold ensureIndex at done
  by_cases enough : b.count + 2 ≤ b.indexCap
  · have free : b.count + 1 < b.indexCap := enough
    rw [if_pos enough] at done
    cases done
    simp [free]
  · have full : ¬ b.count + 1 < b.indexCap := enough
    have step : indexStep = 64 := rfl
    rw [if_neg enough, if_neg (by omega)] at done
    rw [decide_eq_false full, Bool.false_or]
    exact (regrow_ok done).1

theorem splitLine_ok (holds : b.Holds lines) (inside : row < lines.length)
    (within : pos ≤ lines[row].length)
    (done : b.splitLine reaches row pos = some (ok, b')) : ok = b.roomForLine reaches := by
  unfold splitLine at done
  unfold roomForLine
  rw [if_neg (by rw [holds.count]; omega), holds.length_eq inside] at done
  simp only [Option.bind_eq_bind, Option.bind_some] at done
  rw [if_neg (Nat.not_lt.mpr within)] at done
  obtain ⟨⟨ok₁, b₁⟩, ensured₁, done⟩ := Option.bind_eq_some_iff.mp done
  obtain ⟨first, caps₁⟩ := ensureText_ok holds.room ensured₁
  rw [← first]
  cases ok₁ with
  | false =>
    cases done
    rfl
  | true =>
    obtain ⟨textCap, indexCap, len⟩ := caps₁ rfl
    obtain ⟨same, b₁', ensured', grown, -⟩ :=
      holds.shaped.ensureText_spec reaches (b.used + 1)
    cases ensured₁.symm.trans ensured'
    simp only [Bool.not_true, Bool.false_eq_true, if_false] at done
    obtain ⟨⟨ok₂, b₂⟩, ensured₂, done⟩ := Option.bind_eq_some_iff.mp done
    have slots : b₁.count < b₁.indexCap := (holds.grown grown).slots
    have second := ensureIndex_ok slots ensured₂
    rw [grown.count, indexCap, textCap, len] at second
    rw [Bool.true_and, ← second]
    cases ok₂ with
    | false =>
      cases done
      rfl
    | true =>
      simp only [Bool.not_true, Bool.false_eq_true, if_false, Option.bind_eq_some_iff] at done
      obtain ⟨_, _, _, _, _, _, _, _, _, _, same⟩ := done
      cases same
      rfl

theorem remove_ok (holds : b.Holds lines) (inside : row < lines.length)
    (done : b.remove row pos = some (ok, b')) : ok = decide (pos < lines[row].length) := by
  unfold remove at done
  rw [holds.length_eq inside, holds.line_eq inside] at done
  simp only [Option.bind_eq_bind, Option.bind_some] at done
  by_cases past : lines[row].length ≤ pos
  · rw [if_pos past] at done
    cases done
    simp [past]
  · rw [if_neg past] at done
    obtain ⟨n, character⟩ := Terminal.exists_characterAt (Nat.lt_of_not_le past)
    obtain ⟨c, found⟩ := character.found
    rw [found] at done
    simp only [Option.bind_eq_some_iff] at done
    obtain ⟨_, _, _, _, _, _, _, _, same⟩ := done
    cases same
    simp [Nat.lt_of_not_le past]

end Buffer

end Zaytos.Zi
