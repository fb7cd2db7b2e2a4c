import Mathlib.Data.List.Basic

set_option autoImplicit false

/-! Texts in which every line is followed by a mark: where each line starts, and how an edit of the
lines is an edit of the text. -/
namespace Zaytos.Terminated

variable {α : Type} (mark : α)

def text (lines : List (List α)) : List α := lines.flatMap fun line => line ++ [mark]

def offset : (lines : List (List α)) → (row : Nat) → Nat
  | [], _ => 0
  | _ :: _, 0 => 0
  | line :: lines, row + 1 => line.length + 1 + offset lines row

def linesOf [DecidableEq α] : List α → List (List α)
  | [] => []
  | c :: cs =>
    if c = mark then [] :: linesOf cs
    else match linesOf cs with
      | [] => [[c]]
      | line :: lines => (c :: line) :: lines

variable {mark} {lines before after : List (List α)} {line first second : List α} {row i : Nat}

@[simp] theorem text_nil : text mark ([] : List (List α)) = [] := rfl

@[simp] theorem text_cons (line : List α) (lines : List (List α)) :
    text mark (line :: lines) = line ++ mark :: text mark lines := by
  simp [text]

@[simp] theorem text_append (before after : List (List α)) :
    text mark (before ++ after) = text mark before ++ text mark after :=
  List.flatMap_append

@[simp] theorem offset_zero (lines : List (List α)) : offset lines 0 = 0 := by
  cases lines <;> rfl

@[simp] theorem offset_cons_succ (line : List α) (lines : List (List α)) (row : Nat) :
    offset (line :: lines) (row + 1) = line.length + 1 + offset lines row := rfl

theorem offset_length (mark : α) (lines : List (List α)) :
    offset lines lines.length = (text mark lines).length := by
  induction lines with
  | nil => rfl
  | cons line lines ih =>
    rw [List.length_cons, offset_cons_succ, ih, text_cons]
    simp
    omega

theorem offset_append_left (before after : List (List α)) (early : i ≤ before.length) :
    offset (before ++ after) i = offset before i := by
  induction before generalizing i with
  | nil =>
    have zero : i = 0 := Nat.le_zero.mp early
    rw [zero, offset_zero, offset_zero]
  | cons line before ih =>
    cases i with
    | zero => simp
    | succ i =>
      rw [List.cons_append, offset_cons_succ, offset_cons_succ, ih (Nat.le_of_succ_le_succ early)]

theorem offset_append_right (before after : List (List α)) (i : Nat) :
    offset (before ++ after) (before.length + i) =
      offset before before.length + offset after i := by
  induction before with
  | nil => simp
  | cons line before ih =>
    have place : before.length + 1 + i = before.length + i + 1 := by omega
    rw [List.cons_append, List.length_cons, place, offset_cons_succ, offset_cons_succ, ih]
    omega

theorem offset_succ (lines : List (List α)) (inside : row < lines.length) :
    offset lines (row + 1) = offset lines row + lines[row].length + 1 := by
  induction lines generalizing row with
  | nil => cases inside
  | cons line lines ih =>
    cases row with
    | zero => simp
    | succ row =>
      have within : row < lines.length := Nat.lt_of_succ_lt_succ inside
      rw [offset_cons_succ, offset_cons_succ, ih within, List.getElem_cons_succ]
      omega

theorem offset_strictMono (lines : List (List α)) {j : Nat} (order : i < j)
    (inside : j ≤ lines.length) : offset lines i < offset lines j := by
  induction j with
  | zero => omega
  | succ j ih =>
    have next : offset lines (j + 1) = offset lines j + lines[j].length + 1 :=
      offset_succ lines inside
    by_cases last : i = j
    · rw [last]
      omega
    · have earlier := ih (by omega) (by omega)
      omega

theorem offset_le (lines : List (List α)) (inside : i ≤ lines.length) :
    offset lines i ≤ offset lines lines.length := by
  rcases Nat.eq_or_lt_of_le inside with last | before
  · exact Nat.le_of_eq (congrArg (offset lines) last)
  · exact Nat.le_of_lt (offset_strictMono lines before (Nat.le_refl _))

section Edits

theorem offset_changed (before after : List (List α)) (line line' : List α) :
    (i ≤ before.length → offset (before ++ line' :: after) i = offset (before ++ line :: after) i) ∧
      (before.length < i → offset (before ++ line' :: after) i + line.length =
        offset (before ++ line :: after) i + line'.length) := by
  constructor
  · intro early
    rw [offset_append_left _ _ early, offset_append_left _ _ early]
  · intro late
    obtain ⟨k, rfl⟩ : ∃ k, i = before.length + (k + 1) := ⟨i - before.length - 1, by omega⟩
    rw [offset_append_right, offset_append_right, offset_cons_succ, offset_cons_succ]
    omega

theorem offset_split (before after : List (List α)) (first second : List α) :
    (i ≤ before.length → offset (before ++ first :: second :: after) i =
        offset (before ++ (first ++ second) :: after) i) ∧
      offset (before ++ first :: second :: after) (before.length + 1) =
        offset before before.length + first.length + 1 ∧
      (before.length < i → offset (before ++ first :: second :: after) (i + 1) =
        offset (before ++ (first ++ second) :: after) i + 1) := by
  refine ⟨?_, ?_, ?_⟩
  · intro early
    rw [offset_append_left _ _ early, offset_append_left _ _ early]
  · rw [offset_append_right, offset_cons_succ, offset_zero]
    omega
  · intro late
    obtain ⟨k, rfl⟩ : ∃ k, i = before.length + (k + 1) := ⟨i - before.length - 1, by omega⟩
    rw [show before.length + (k + 1) + 1 = before.length + (k + 2) by omega, offset_append_right,
      offset_append_right, offset_cons_succ, offset_cons_succ, offset_cons_succ, List.length_append]
    omega

theorem text_at (mark : α) (before after : List (List α)) (first second : List α) :
    text mark (before ++ (first ++ second) :: after) =
        (text mark before ++ first) ++ (second ++ mark :: text mark after) ∧
      (text mark before ++ first).length = offset before before.length + first.length := by
  constructor
  · simp
  · rw [List.length_append, offset_length]

theorem exists_around (inside : row < lines.length) :
    ∃ before line after, lines = before ++ line :: after ∧ before.length = row ∧
      lines[row] = line := by
  refine ⟨lines.take row, lines[row], lines.drop (row + 1), ?_, ?_, rfl⟩
  · rw [List.getElem_cons_drop, List.take_append_drop]
  · rw [List.length_take, Nat.min_eq_left (Nat.le_of_lt inside)]

theorem mark_iff (free : ∀ line ∈ lines, mark ∉ line) (inside : row < lines.length) {pos : Nat}
    (lower : offset lines row ≤ pos) (upper : pos < offset lines (row + 1)) :
    (text mark lines)[pos]? = some mark ↔ pos + 1 = offset lines (row + 1) := by
  have next := offset_succ lines inside
  obtain ⟨before, line, after, rfl, rfl, here⟩ := exists_around inside
  obtain ⟨around, length⟩ := text_at mark before after [] line
  rw [List.nil_append, List.append_nil] at around
  rw [List.append_nil, List.length_nil, Nat.add_zero] at length
  have start : offset (before ++ line :: after) before.length = (text mark before).length := by
    rw [offset_append_left _ _ (Nat.le_refl _), length]
  rw [here, start] at next
  rw [start] at lower
  rw [around, List.getElem?_append_right lower]
  by_cases last : pos - (text mark before).length < line.length
  · rw [List.getElem?_append_left last]
    constructor
    · intro marked
      exact absurd (List.mem_of_getElem? marked) (free line (by simp))
    · intro same
      omega
  · have place : pos - (text mark before).length = line.length := by omega
    rw [List.getElem?_append_right (by omega), place, Nat.sub_self]
    constructor
    · intro _
      omega
    · intro _
      rfl

end Edits

section Splits

variable [DecidableEq α]

theorem linesOf_free (mark : α) (cs : List α) : ∀ line ∈ linesOf mark cs, mark ∉ line := by
  induction cs with
  | nil => simp [linesOf]
  | cons c cs ih =>
    unfold linesOf
    split
    · simpa using ih
    case isFalse other =>
      split
      · simpa using fun same => other same.symm
      case h_2 line lines rest =>
        rw [rest] at ih
        simp only [List.mem_cons, forall_eq_or_imp] at ih ⊢
        refine ⟨?_, ih.2⟩
        intro mem
        cases mem with
        | inl same => exact other same.symm
        | inr mem => exact ih.1 mem

theorem linesOf_ne_nil {cs : List α} (some : cs ≠ []) : linesOf mark cs ≠ [] := by
  cases cs with
  | nil => exact absurd rfl some
  | cons c cs =>
    unfold linesOf
    split
    · simp
    · split <;> simp

theorem text_linesOf (mark : α) (cs : List α) (ended : cs.getLast? = some mark) :
    text mark (linesOf mark cs) = cs := by
  induction cs with
  | nil => cases ended
  | cons c cs ih =>
    cases cs with
    | nil =>
      have same : c = mark := by simpa using ended
      simp [linesOf, same]
    | cons d cs =>
      have rest := ih (by simpa using ended)
      rw [linesOf]
      split
      case isTrue same => rw [text_cons, rest, same, List.nil_append]
      case isFalse =>
        cases lines : linesOf mark (d :: cs) with
        | nil => exact absurd lines (linesOf_ne_nil (by simp))
        | cons line lines' =>
          rw [lines] at rest
          dsimp only
          rw [text_cons, List.cons_append, ← text_cons, rest]

theorem linesOf_append_mark (free : mark ∉ line) (cs : List α) :
    linesOf mark (line ++ mark :: cs) = line :: linesOf mark cs := by
  induction line with
  | nil => simp [linesOf]
  | cons c line ih =>
    rw [List.mem_cons, not_or] at free
    rw [List.cons_append, linesOf, if_neg fun same => free.1 same.symm, ih free.2]

theorem linesOf_of_free (free : mark ∉ line) (nonempty : line ≠ []) : linesOf mark line = [line] := by
  induction line with
  | nil => exact absurd rfl nonempty
  | cons c line ih =>
    rw [List.mem_cons, not_or] at free
    rw [linesOf, if_neg fun same => free.1 same.symm]
    cases line with
    | nil => rfl
    | cons d line => rw [ih free.2 (List.cons_ne_nil d line)]

theorem linesOf_text_append (free : ∀ line ∈ lines, mark ∉ line) (cs : List α) :
    linesOf mark (text mark lines ++ cs) = lines ++ linesOf mark cs := by
  induction lines with
  | nil => rfl
  | cons line lines ih =>
    simp only [List.forall_mem_cons] at free
    rw [text_cons, List.append_assoc, List.cons_append, linesOf_append_mark free.1, ih free.2]
    rfl

theorem count_text (free : ∀ line ∈ lines, mark ∉ line) :
    (text mark lines).count mark = lines.length := by
  induction lines with
  | nil => rfl
  | cons line lines ih =>
    have here : line.count mark = 0 := List.count_eq_zero.mpr (free line (by simp))
    have rest := ih fun line mem => free line (by simp [mem])
    rw [text_cons, List.count_append, List.count_cons_self, rest, here, List.length_cons]
    omega

end Splits

end Zaytos.Terminated
