import Zaytos.Zi.BufferSpec

set_option autoImplicit false

/-! A file that is opened in the editor: its text in the buffer, with the index of its lines. From
there on the buffer is a list of lines, whatever is called and whenever the heap stops growing. -/
namespace Zaytos.Zi

open Zaytos.Kernel (heapLimit)
open Terminated (text offset linesOf)

def ended (content : List UInt8) : List UInt8 :=
  if content.getLast? = some newline then content else content ++ [newline]

theorem ended_getLast (content : List UInt8) : (ended content).getLast? = some newline := by
  unfold ended
  split
  case isTrue last => exact last
  case isFalse => simp

namespace Buffer

variable {b b' : Buffer} {lines : List (List UInt8)} {content : List UInt8}

theorem Shaped.take_spec (shaped : b.Shaped) (reaches : Reaches) {total : Nat}
    (chunk : List UInt8) (few : total ≤ b.textCap) (view : b.region.view 0 total = content) :
    ∃ ok b', b.take reaches total chunk = some (ok, b') ∧ (ok = true → b'.Shaped ∧
      total + chunk.length ≤ b'.textCap ∧
      b'.region.view 0 (total + chunk.length) = content ++ chunk) := by
  unfold take
  obtain ⟨ok, b₁, done, grown, enough⟩ :=
    shaped.ensureText_spec reaches (total + chunk.length + 1)
  simp only [Option.bind_eq_bind]
  rw [done, Option.bind_some]
  cases ok with
  | false => exact ⟨false, b₁, rfl, fun granted => by cases granted⟩
  | true =>
    have enough := enough rfl
    have room : total + chunk.length ≤ b₁.textCap := by omega
    simp only [Bool.not_true, Bool.false_eq_true, if_false]
    rw [if_pos ⟨room, grown.shaped.cap_le⟩]
    refine ⟨true, _, rfl, fun _ => ⟨⟨grown.shaped.split, grown.shaped.small⟩, room, ?_⟩⟩
    exact view_put ((grown.view few).trans view) fun _ _ => rfl

theorem Shaped.terminate_spec (shaped : b.Shaped) (reaches : Reaches) {total : Nat}
    (few : total ≤ b.textCap) (view : b.region.view 0 total = content) :
    ∃ r b', b.terminate reaches total = some (r, b') ∧ b'.Shaped ∧ ∀ used, r = some used →
      used ≤ b'.textCap ∧ b'.region.view 0 used = ended content := by
  have size : content.length = total := by
    rw [← view]
    simp [Bytes.view]
  have put : ∀ b₁ : Buffer, Grown b b₁ → total + 1 ≤ b₁.textCap →
      content.getLast? ≠ some newline → ∃ b', b₁.setByte total newline = some b' ∧ b'.Shaped ∧
        total + 1 ≤ b'.textCap ∧ b'.region.view 0 (total + 1) = ended content := by
    intro b₁ grown room open'
    obtain ⟨b', set, retyped, region⟩ := grown.shaped.setByte_spec (i := total) newline (by omega)
    refine ⟨b', set, retyped.shaped grown.shaped, ?_, ?_⟩
    · rw [retyped.textCap]
      exact room
    · have both := @view_put b₁.region (fun _ => newline) total content [newline]
        ((grown.view few).trans view) (fun k few => by
          have zero : k = 0 := by simpa using few
          rw [zero]
          rfl)
      rw [region, ended, if_neg open']
      exact both
  unfold terminate
  by_cases empty : total = 0
  · rw [if_pos empty]
    have none' : content = [] := List.length_eq_zero_iff.mp (size.trans empty)
    obtain ⟨ok, b₁, done, grown, enough⟩ := shaped.ensureText_spec reaches 1
    simp only [Option.bind_eq_bind]
    rw [done, Option.bind_some]
    cases ok with
    | false => exact ⟨none, b₁, rfl, grown.shaped, fun used same => by cases same⟩
    | true =>
      obtain ⟨b', set, shaped', room, text⟩ := put b₁ grown (by rw [empty]; exact enough rfl)
        (by simp [none'])
      rw [empty] at set room text
      simp only [Bool.not_true, Bool.false_eq_true, if_false]
      rw [set]
      refine ⟨some 1, b', rfl, shaped', ?_⟩
      intro used same
      cases same
      exact ⟨room, text⟩
  · rw [if_neg empty]
    have last : b.region.get (total - 1) = newline ↔ content.getLast? = some newline := by
      rw [List.getLast?_eq_getElem?, size, ← view, getElem?_view, if_pos (by omega), zero_add]
      simp
    simp only [Option.bind_eq_bind]
    rw [shaped.byteAt_eq (by omega), Option.bind_some]
    by_cases closed : b.region.get (total - 1) = newline
    · rw [if_pos closed]
      refine ⟨some total, b, rfl, shaped, ?_⟩
      intro used same
      cases same
      refine ⟨few, ?_⟩
      rw [ended, if_pos (last.mp closed)]
      exact view
    · rw [if_neg closed]
      obtain ⟨ok, b₁, done, grown, enough⟩ := shaped.ensureText_spec reaches (total + 1)
      rw [done, Option.bind_some]
      cases ok with
      | false => exact ⟨none, b₁, rfl, grown.shaped, fun used same => by cases same⟩
      | true =>
        obtain ⟨b', set, shaped', room, text⟩ := put b₁ grown (enough rfl) (mt last.mpr closed)
        simp only [Bool.not_true, Bool.false_eq_true, if_false]
        rw [set]
        refine ⟨some (total + 1), b', rfl, shaped', ?_⟩
        intro used same
        cases same
        exact ⟨room, text⟩

def Stands (lines : List (List UInt8)) (count position : Nat) : Prop :=
  (count = lines.length ∧ position = offset lines lines.length) ∨
    (count < lines.length ∧ offset lines count ≤ position ∧ position < offset lines (count + 1))

theorem Stands.start (lines : List (List UInt8)) : Stands lines 0 0 := by
  cases lines with
  | nil => exact .inl ⟨rfl, rfl⟩
  | cons line lines =>
    right
    simp

theorem Shaped.indexFrom_spec (shaped : b.Shaped) {used count position n : Nat}
    (view : b.region.view 0 used = text newline lines) (room : used ≤ b.textCap)
    (free : ∀ line ∈ lines, newline ∉ line) (slots : lines.length < b.indexCap)
    (stands : Stands lines count position) (rest : position + n = used)
    (starts : ∀ i, i ≤ count → b.entry i = offset lines i) :
    ∃ b', b.indexFrom count position n = some (lines.length, b') ∧ Reindexed b b' ∧
      ∀ i, i ≤ lines.length → b'.entry i = offset lines i := by
  have size : used = offset lines lines.length := by
    rw [Terminated.offset_length newline, ← view]
    simp [Bytes.view]
  have limit : used < 2 ^ 64 := by
    have cap := shaped.cap_le
    have small := shaped.small
    have limit : heapLimit = 0x7FF000 := rfl
    omega
  induction n generalizing b count position with
  | zero =>
    have here : count = lines.length := by
      rcases stands with ⟨same, _⟩ | ⟨inside, _, upper⟩
      · exact same
      · have last := Terminated.offset_le lines (i := count + 1) inside
        omega
    rw [here] at starts
    exact ⟨b, by rw [here]; rfl, .refl b, starts⟩
  | succ n ih =>
    rcases stands with ⟨_, past⟩ | ⟨inside, lower, upper⟩
    · omega
    have byte : (text newline lines)[position]? = some (b.region.get position) := by
      rw [← view, getElem?_view, if_pos (by omega), zero_add]
    have marks := Terminated.mark_iff free inside lower upper
    rw [byte, Option.some.injEq] at marks
    unfold indexFrom
    simp only [Option.bind_eq_bind]
    rw [shaped.byteAt_eq (by omega), Option.bind_some]
    by_cases ends : b.region.get position = newline
    · have next := marks.mp ends
      rw [if_neg (fun differs => differs ends), if_neg (by omega)]
      obtain ⟨b₁, set, reindexed, entries⟩ := shaped.setStart_spec (count + 1)
        (position + 1) (by omega) (by omega)
      rw [set, Option.bind_some]
      have stands₁ : Stands lines (count + 1) (position + 1) := by
        by_cases last : count + 1 = lines.length
        · exact .inl ⟨last, by rw [next, last]⟩
        · have order := Terminated.offset_strictMono lines (i := count + 1)
            (j := count + 1 + 1) (by omega) (by omega)
          exact .inr ⟨by omega, le_of_eq next.symm, by omega⟩
      obtain ⟨b', done, reindexed', all⟩ := ih (reindexed.shaped shaped)
        ((reindexed.view room).trans view) (by rw [reindexed.textCap]; exact room)
        (by rw [reindexed.indexCap]; exact slots) stands₁ (by omega) (by
          intro i early
          rw [entries]
          by_cases new : i = count + 1
          · rw [if_pos new, new, next]
          · rw [if_neg new]
            exact starts i (by omega))
      exact ⟨b', done, reindexed.trans reindexed', all⟩
    · have more : position + 1 < offset lines (count + 1) := by
        have other := mt marks.mpr ends
        omega
      rw [if_pos ends]
      exact ih shaped view room slots (.inr ⟨inside, by omega, more⟩) (by omega) starts

theorem Shaped.indexLines_spec (shaped : b.Shaped) (reaches : Reaches) {total : Nat}
    (few : total ≤ b.textCap) (view : b.region.view 0 total = content) :
    ∃ ok b', b.indexLines reaches total = some (ok, b') ∧
      (ok = true → b'.Holds (linesOf newline (ended content))) := by
  unfold indexLines
  obtain ⟨r, b₁, terminated, shaped₁, text₁⟩ := shaped.terminate_spec reaches few view
  simp only [Option.bind_eq_bind]
  rw [terminated, Option.bind_some]
  cases r with
  | none => exact ⟨false, b₁, rfl, fun granted => by cases granted⟩
  | some used =>
    obtain ⟨room, view₁⟩ := text₁ used rfl
    have free := Terminated.linesOf_free newline (ended content)
    have whole := Terminated.text_linesOf newline (ended content) (ended_getLast content)
    have nonempty : linesOf newline (ended content) ≠ [] := by
      apply Terminated.linesOf_ne_nil
      intro none'
      have last := ended_getLast content
      rw [none'] at last
      cases last
    generalize linesOf newline (ended content) = lines at free whole nonempty
    rw [← whole] at view₁
    have many : (b₁.region.view 0 used).count newline = lines.length := by
      rw [view₁]
      exact Terminated.count_text free
    have cap := shaped₁.cap_le
    dsimp only
    rw [if_neg (by omega), many]
    obtain ⟨ok, b₂, ensured, grown, enough⟩ :=
      shaped₁.ensureIndex_spec reaches (lines.length + 1 + indexStep)
    rw [ensured, Option.bind_some]
    cases ok with
    | false => exact ⟨false, b₂, rfl, fun granted => by cases granted⟩
    | true =>
      have enough := (enough rfl).1
      have room₂ : used ≤ b₂.textCap := room.trans grown.textCap
      obtain ⟨b₃, set, reindexed, entries⟩ := grown.shaped.setStart_spec 0 0
        (by omega) (by omega)
      have view₃ : b₃.region.view 0 used = text newline lines := by
        rw [reindexed.view room₂, grown.view room]
        exact view₁
      obtain ⟨b₄, indexed, reindexed', all⟩ := (reindexed.shaped grown.shaped).indexFrom_spec view₃
        (by rw [reindexed.textCap]; exact room₂) free (by rw [reindexed.indexCap]; omega)
        (Stands.start lines) (zero_add used) (by
          intro i first
          have zero : i = 0 := Nat.le_zero.mp first
          rw [entries, if_pos zero, zero, Terminated.offset_zero])
      have whole' := reindexed.trans reindexed'
      have shaped₄ := whole'.shaped grown.shaped
      have slots : lines.length < b₄.indexCap := by
        rw [whole'.indexCap]
        omega
      have size : used = (text newline lines).length := by
        rw [← view₁]
        simp [Bytes.view]
      have last : b₄.startOf lines.length = some used := by
        rw [shaped₄.startOf_eq slots, all _ (le_rfl), Terminated.offset_length newline, size]
      refine ⟨true, { b₄ with count := lines.length, used := used }, ?_, ?_⟩
      · simp only [Bool.not_true, Bool.false_eq_true, if_false]
        rw [set, Option.bind_some, indexed, Option.bind_some]
        dsimp only
        rw [last]
        rfl
      · intro _
        refine ⟨⟨shaped₄.split, shaped₄.small⟩, rfl, List.length_pos_iff.mpr nonempty, ?_, slots,
          size, ?_, all, free⟩
        · change used ≤ b₄.textCap
          rw [whole'.textCap]
          exact room₂
        · change b₄.region.view 0 used = _
          rw [reindexed'.view (by rw [reindexed.textCap]; exact room₂)]
          exact view₃

theorem Shaped.load_spec (shaped : b.Shaped) (reaches : Nat → Reaches) {total : Nat}
    (chunks : List (List UInt8)) (few : total ≤ b.textCap)
    (view : b.region.view 0 total = content) :
    ∃ ok b', b.load reaches total chunks = some (ok, b') ∧
      (ok = true → b'.Holds (linesOf newline (ended (content ++ chunks.flatten)))) := by
  induction chunks generalizing b total content with
  | nil =>
    rw [List.flatten_nil, List.append_nil]
    exact shaped.indexLines_spec (reaches 0) few view
  | cons chunk chunks ih =>
    obtain ⟨ok, b₁, taken, more⟩ :=
      shaped.take_spec (reaches (chunks.length + 1)) chunk few view
    unfold load
    simp only [Option.bind_eq_bind]
    rw [taken, Option.bind_some]
    cases ok with
    | false => exact ⟨false, b₁, rfl, fun granted => by cases granted⟩
    | true =>
      obtain ⟨shaped₁, few₁, view₁⟩ := more rfl
      rw [List.flatten_cons, ← List.append_assoc]
      exact ih shaped₁ few₁ view₁

theorem perform_spec (holds : b.Holds lines) (reaches : Reaches) {e : Edit}
    (proper : e.Proper b.count) : Edits lines e (b.perform reaches e) := by
  obtain ⟨inside, typed⟩ := proper
  rw [holds.count] at inside
  cases e with
  | insert row at' byte => exact insert_spec holds reaches inside at' (typed row at' byte rfl)
  | splitLine row at' => exact splitLine_spec holds reaches inside at'
  | joinWithNext row => exact joinWithNext_spec holds inside
  | remove row at' => exact remove_spec holds inside at'

theorem new_spec {region : Bytes} {textCap indexCap : Nat} (small : region.len ≤ heapLimit)
    (aligned : textCap % word = 0) :
    ∃ made, new region textCap indexCap = some made ∧ ∀ b, made = some b → b.Shaped := by
  unfold new
  split
  case isTrue => exact ⟨none, rfl, fun b same => by cases same⟩
  case isFalse enough =>
    have shaped : Shaped ⟨region, textCap, indexCap, 1, 1⟩ := by
      refine ⟨⟨?_, aligned⟩, small⟩
      dsimp only
      omega
    obtain ⟨b₁, set₁, retyped, _⟩ := shaped.setByte_spec (i := 0) newline (by
      dsimp only
      omega)
    have shaped₁ := retyped.shaped shaped
    have slots : b₁.indexCap = indexCap := retyped.indexCap
    obtain ⟨b₂, set₂, reindexed₂, _⟩ := shaped₁.setStart_spec 0 0 (by omega)
      (by omega)
    have shaped₂ := reindexed₂.shaped shaped₁
    obtain ⟨b₃, set₃, reindexed₃, _⟩ := shaped₂.setStart_spec 1 1 (by
      rw [reindexed₂.indexCap]
      omega) (by omega)
    refine ⟨some b₃, ?_, ?_⟩
    · simp only [Option.bind_eq_bind]
      rw [set₁, Option.bind_some, set₂, Option.bind_some, set₃]
      rfl
    · intro b same
      cases same
      exact reindexed₃.shaped shaped₂

theorem openFor_spec (reaches : Reaches) (size : Nat) :
    ∃ made, openFor reaches size = some made ∧ ∀ b, made = some b → b.Shaped := by
  unfold openFor reserve
  split
  case h_1 => exact ⟨none, rfl, fun b same => by cases same⟩
  case h_2 region reserved =>
    split at reserved
    case isFalse => cases reserved
    case isTrue allowed =>
      cases reserved
      exact new_spec allowed.2.1 (roundUpWord_spec _).2

/-- The text that is used is the lines, each with a newline behind it and none in it; the starts
begin at zero, go up, and end where the text does. -/
structure Tidy (b : Buffer) (lines : List (List UInt8)) : Prop where
  count : b.count = lines.length
  text : b.asBytes = some (lines.flatMap fun line => line ++ [newline])
  free : ∀ line ∈ lines, newline ∉ line
  first : b.startOf 0 = some 0
  last : b.startOf b.count = some b.used
  increasing : ∀ row, row < b.count → ∃ start next, b.startOf row = some start ∧
    b.startOf (row + 1) = some next ∧ start < next
  line : ∀ row, row < b.count → b.line row = lines[row]?

theorem Holds.tidy (holds : b.Holds lines) : b.Tidy lines where
  count := holds.count
  text := holds.asBytes_eq
  free := holds.free
  first := by rw [holds.startOf_eq 0 (Nat.zero_le _), Terminated.offset_zero]
  last := by
    rw [holds.startOf_eq _ (le_rfl), holds.count, Terminated.offset_length newline,
      holds.used]
  increasing := by
    intro row inside
    refine ⟨_, _, holds.startOf_eq _ (le_of_lt inside), holds.startOf_eq _ inside, ?_⟩
    apply Terminated.offset_strictMono lines (Nat.lt_succ_self row)
    rw [← holds.count]
    exact inside
  line := by
    intro row inside
    rw [holds.count] at inside
    rw [holds.line_eq inside, List.getElem?_eq_getElem inside]

structure Call where
  edit : Edit
  reaches : Reaches

/-- The buffer goes on as a list of lines: it has them now, and every call that is proper goes
through, and either edits the list or is refused and leaves it. -/
def Refines (b : Buffer) (lines : List (List UInt8)) : List Call → Prop
  | [] => b.Tidy lines
  | call :: calls => b.Tidy lines ∧ (call.edit.Proper b.count →
      ∃ ok b', b.perform call.reaches call.edit = some (ok, b') ∧
        if ok then ∃ lines', call.edit.apply lines = some lines' ∧ b'.Refines lines' calls
        else b'.Refines lines calls)

theorem Holds.refines (holds : b.Holds lines) (calls : List Call) : b.Refines lines calls := by
  induction calls generalizing b lines with
  | nil => exact holds.tidy
  | cons call calls ih =>
    refine ⟨holds.tidy, ?_⟩
    intro proper
    obtain ⟨ok, b', done, after⟩ := perform_spec holds call.reaches proper
    refine ⟨ok, b', done, ?_⟩
    cases ok with
    | false => exact ih after
    | true =>
      obtain ⟨lines', edited, holds'⟩ := after
      exact ⟨lines', edited, ih holds'⟩

end Buffer

end Zaytos.Zi
