import Zaytos.Lib.Recent
import Zaytos.Lib.Terminated
import Zaytos.Shell.LineSpec

set_option autoImplicit false

/-! The lines that the shell remembers, and the file in which they outlast it
(`kernel/userland/zash.rs`). -/
namespace Zaytos.Shell

open Slices
open Recent (kept newest)
open Terminated (linesOf)

abbrev historyReadMax : Nat := 8192

/-- The size of the buffer for one `read`. -/
abbrev historyChunk : Nat := 256

def Remembered.text (entry : Remembered) : List UInt8 := entry.line.take entry.length

def repeatsLast (s : Shell) (text : List UInt8) : Option Bool :=
  if 0 < s.historyCount then do
    let entry ← s.history[(s.historyCount - 1) % historyMax]?
    if entry.length = text.length then (slice entry.line 0 entry.length).map (· == text)
    else some false
  else some false

def storeLine (s : Shell) (text : List UInt8) : Option Shell := do
  let slot ← s.history[s.historyCount % historyMax]?
  let line ← write slot.line 0 text
  some { s with
    history := s.history.set (s.historyCount % historyMax) ⟨line, text.length⟩
    historyCount := s.historyCount + 1 }

/-- `remember_line`: whether the line was put in the ring. -/
def rememberLine (s : Shell) (text : List UInt8) : Option (Bool × Shell) :=
  if text.isEmpty then some (false, s)
  else do
    let repeated ← s.repeatsLast text
    if repeated then some (false, s) else (s.storeLine text).map (true, ·)

def rememberAll (s : Shell) : List (List UInt8) → Option Shell
  | [] => some s
  | text :: rest => do
    let out ← s.rememberLine text
    rememberAll out.2 rest

/-- The loop of `save_history`, for so many lines from an index on. -/
def saveFrom (s : Shell) : Nat → Nat → Option (List UInt8)
  | 0, _ => some []
  | left + 1, index => do
    let entry ← s.history[index % historyMax]?
    let text ← slice entry.line 0 entry.length
    let rest ← saveFrom s left (index + 1)
    some (text ++ newline :: rest)

/-- `save_history`, with all writes succeeding: what the file has then. -/
def saveHistory (s : Shell) : Option (List UInt8) :=
  s.saveFrom (min s.historyCount historyMax) (s.historyCount - min s.historyCount historyMax)

/-- What `load_history` says. -/
inductive Notice where
  | tooLong
  | unreadable
  | tooBig
  deriving DecidableEq

def Notice.text : Notice → String
  | tooLong => "zash: line too long\n"
  | unreadable => "zash: cannot read the history\n"
  | tooBig => "zash: the history file is too long; only the newest lines were read\n"

/-- The variables of `load_history`. -/
structure Loading where
  shell : Shell
  line : List UInt8
  lineLen : Nat
  overflowed : Bool
  notices : List Notice

namespace Loading

def start (s : Shell) : Loading := ⟨s, List.replicate lineMax 0, 0, false, []⟩

def remember (l : Loading) : Option Loading :=
  if 0 < l.lineLen then do
    let text ← slice l.line 0 l.lineLen
    let out ← l.shell.rememberLine text
    some { l with shell := out.2 }
  else some l

def endLine (l : Loading) : Option Loading :=
  (if l.overflowed then some { l with notices := l.notices ++ [.tooLong] } else l.remember).map
    fun l => { l with lineLen := 0, overflowed := false }

def takeByte (l : Loading) (byte : UInt8) : Option Loading :=
  if byte = newline then l.endLine
  else if l.lineLen < l.line.length then do
    let line ← write l.line l.lineLen [byte]
    some { l with line, lineLen := l.lineLen + 1 }
  else some { l with overflowed := true }

def takeAll (l : Loading) : List UInt8 → Option Loading
  | [] => some l
  | byte :: rest => (l.takeByte byte).bind fun l => takeAll l rest

/-- The loop over the reads, until one of them gives nothing more or an error, or too much has been
read. -/
def readAll (l : Loading) (readTotal : Nat) :
    List (Option (List UInt8)) → Option (Loading × List Notice)
  | [] => some (l, if historyReadMax ≤ readTotal then [.tooBig] else [])
  | chunk :: rest =>
    if historyReadMax ≤ readTotal then some (l, [.tooBig])
    else
      match chunk with
      | none => some (l, [.unreadable])
      | some bytes => (l.takeAll bytes).bind fun l => readAll l (readTotal + bytes.length) rest

def finish (l : Loading) : Option Loading := if l.overflowed then some l else l.remember

end Loading

/-- `load_history`, given what the reads of the file return, if there is a file. -/
def loadHistory (s : Shell) (reads : Option (List (Option (List UInt8)))) :
    Option (Shell × List Notice) :=
  match reads with
  | none => some (s, [])
  | some reads => do
    let (l, notices) ← (Loading.start s).readAll 0 reads
    let l ← l.finish
    some (l.shell, l.notices ++ notices)

end Zaytos.Shell

/-! The ring has the newest of the lines that were remembered, and the file brings them back. -/
namespace Zaytos.Shell

open Slices
open Recent (asked_of_mem_kept kept kept_concat kept_drop_kept newest newest_drop)
open Terminated (linesOf)

/-- Lines that the ring keeps: those with any bytes, up to the size of a slot. -/
def fits (line : List UInt8) : Bool := !line.isEmpty && line.length ≤ lineMax

/-- `history_at` finds these lines, the latest first, and none beyond. -/
def Remembers (s : Shell) (lines : List (List UInt8)) : Prop :=
  s.historyAt 0 = none ∧ ∀ k, (s.historyAt (k + 1)).map Remembered.text = lines[k]?

/-- Lines have been put in the ring one after the other, and the slots have the last of them. -/
structure Keeps (s : Shell) (lines : List (List UInt8)) : Prop where
  sized : s.Sized
  count : s.historyCount = lines.length
  recent : ∀ (i : Nat) (line : List UInt8), lines[i]? = some line →
    lines.length ≤ i + historyMax → ∃ entry, s.history[i % historyMax]? = some entry ∧
      slice entry.line 0 entry.length = some line

structure Unused (s : Shell) : Prop where
  sized : s.Sized
  count : s.historyCount = 0

variable {s : Shell} {lines : List (List UInt8)} {text : List UInt8}

theorem Unused.keeps (unused : s.Unused) : s.Keeps [] where
  sized := unused.sized
  count := unused.count
  recent := by
    intro i line found
    simp at found

theorem text_of_slice {entry : Remembered} {line : List UInt8}
    (sliced : slice entry.line 0 entry.length = some line) : entry.text = line := by
  unfold slice at sliced
  split at sliced
  · exact Option.some.inj sliced
  · cases sliced

theorem Keeps.remembers (keeps : s.Keeps lines) : s.Remembers (newest historyMax lines) := by
  refine ⟨if_pos (Or.inl rfl), ?_⟩
  intro k
  have count := keeps.count
  rw [Shell.historyAt, newest]
  by_cases past : k + 1 = 0 ∨ s.historyCount < k + 1 ∨ historyMax < k + 1
  · rw [if_pos past, List.getElem?_eq_none (by simp; omega)]
    rfl
  · have small : k < lines.length := by omega
    have place : lines.length - 1 - k = s.historyCount - (k + 1) := by omega
    rw [if_neg past, List.getElem?_take_of_lt (by omega), List.getElem?_reverse small, place]
    have inside : s.historyCount - (k + 1) < lines.length := by omega
    obtain ⟨entry, found, sliced⟩ := keeps.recent _ _ (List.getElem?_eq_getElem inside) (by omega)
    rw [found, List.getElem?_eq_getElem inside, Option.map_some, text_of_slice sliced]

theorem Keeps.repeatsLast (keeps : s.Keeps lines) (text : List UInt8) :
    s.repeatsLast text = some (lines.getLast? == some text) := by
  have count := keeps.count
  unfold Shell.repeatsLast
  by_cases some : 0 < s.historyCount
  · have inside : s.historyCount - 1 < lines.length := by omega
    obtain ⟨entry, found, sliced⟩ := keeps.recent _ _ (List.getElem?_eq_getElem inside)
      (show _ ≤ s.historyCount - 1 + 16 by omega)
    have length : entry.length = lines[s.historyCount - 1].length := by
      have bounds := sliced
      unfold slice at bounds
      split at bounds
      · rw [← Option.some.inj bounds, List.drop_zero, List.length_take]
        omega
      · cases bounds
    have last : lines.getLast? = Option.some lines[s.historyCount - 1] := by
      rw [List.getLast?_eq_getElem?, ← count, List.getElem?_eq_getElem inside]
    rw [if_pos some, found, last, Option.bind_eq_bind, Option.bind_some, sliced]
    by_cases same : entry.length = text.length
    · rw [if_pos same]
      rfl
    · have other : lines[s.historyCount - 1] ≠ text := by
        intro eq
        rw [eq] at length
        exact same length
      rw [if_neg same]
      simp [other]
  · have empty : lines = [] := List.length_eq_zero_iff.mp (by omega)
    rw [if_neg some, empty]
    rfl

theorem Keeps.storeLine (keeps : s.Keeps lines) (short : text.length ≤ lineMax) :
    ∃ t, s.storeLine text = some t ∧ t.Keeps (lines ++ [text]) := by
  have count := keeps.count
  have slot : s.historyCount % historyMax < s.history.length := by
    rw [keeps.sized.history]
    exact Nat.mod_lt _ (by decide)
  have entry := keeps.sized.entries _ (List.getElem_mem slot)
  have room : text.length ≤ s.history[s.historyCount % historyMax].line.length := by omega
  have written := write_start room
  have length := length_write written
  unfold Shell.storeLine
  rw [List.getElem?_eq_getElem slot, Option.bind_eq_bind, Option.bind_some, written]
  refine ⟨_, rfl, ?_, ?_, ?_⟩
  · refine ⟨keeps.sized.line, keeps.sized.saved, ?_, ?_⟩
    · rw [List.length_set, keeps.sized.history]
    · intro stored mem
      rcases List.mem_or_eq_of_mem_set mem with old | new
      · exact keeps.sized.entries stored old
      · rw [new]
        exact ⟨length.trans entry.1, short⟩
  · rw [List.length_append, ← count]
    rfl
  · intro i line found recent
    rw [List.length_append, List.length_singleton] at recent
    dsimp only
    by_cases new : i = lines.length
    · subst new
      rw [List.getElem?_concat_length] at found
      rw [← count, List.getElem?_set_self slot]
      refine ⟨_, rfl, ?_⟩
      have bound : text.length ≤ (text ++ s.history[s.historyCount % historyMax].line.drop
          text.length).length := by
        rw [List.length_append]
        omega
      rw [← Option.some.inj found, slice, if_pos ⟨Nat.zero_le _, bound⟩, List.take_left,
        List.drop_zero]
    · have old : i < lines.length := by
        have small := (List.getElem?_eq_some_iff.mp found).1
        rw [List.length_append, List.length_singleton] at small
        omega
      have ring : historyMax = 16 := rfl
      have apart : s.historyCount % 16 ≠ i % 16 := by omega
      rw [List.getElem?_append_left old] at found
      rw [List.getElem?_set_ne apart]
      exact keeps.recent i line found (by omega)

theorem Keeps.rememberLine {asked : List UInt8 → Bool} {before : List (List UInt8)}
    (keeps : s.Keeps (kept asked before)) (short : text.length ≤ lineMax)
    (same : asked text = !text.isEmpty) :
    ∃ stored t, s.rememberLine text = some (stored, t) ∧
      t.Keeps (kept asked (before ++ [text])) := by
  unfold Shell.rememberLine
  rw [kept_concat, same]
  cases empty : text.isEmpty with
  | true => exact ⟨false, s, rfl, by simpa using keeps⟩
  | false =>
    rw [keeps.repeatsLast, if_neg Bool.false_ne_true, Option.bind_eq_bind, Option.bind_some]
    by_cases repeated : (kept asked before).getLast? = some text
    · rw [if_pos (beq_iff_eq.mpr repeated)]
      exact ⟨false, s, rfl, by simpa [repeated] using keeps⟩
    · obtain ⟨t, stored, keepsT⟩ := keeps.storeLine short
      rw [if_neg (fun eq => repeated (beq_iff_eq.mp eq)), stored]
      exact ⟨true, t, rfl, by simpa [repeated] using keepsT⟩

theorem Keeps.rememberAll {asked : List UInt8 → Bool} {before : List (List UInt8)}
    (keeps : s.Keeps (kept asked before)) {texts : List (List UInt8)}
    (short : ∀ text ∈ texts, text.length ≤ lineMax)
    (same : ∀ text ∈ texts, asked text = !text.isEmpty) :
    ∃ t, s.rememberAll texts = some t ∧ t.Keeps (kept asked (before ++ texts)) := by
  induction texts generalizing s before with
  | nil => exact ⟨s, rfl, by simpa using keeps⟩
  | cons text rest ih =>
    simp only [List.forall_mem_cons] at short same
    obtain ⟨stored, t, first, keepsT⟩ := keeps.rememberLine short.1 same.1
    obtain ⟨u, run, keepsU⟩ := ih keepsT short.2 same.2
    refine ⟨u, ?_, by simpa using keepsU⟩
    rw [Shell.rememberAll, first]
    exact run

theorem Keeps.saveFrom (keeps : s.Keeps lines) {left index : Nat}
    (whole : index + left = lines.length) (recent : left ≤ historyMax) :
    s.saveFrom left index = some (Terminated.text newline (lines.drop index)) := by
  induction left generalizing index with
  | zero =>
    rw [Shell.saveFrom, List.drop_of_length_le (by omega)]
    rfl
  | succ left ih =>
    have inside : index < lines.length := by omega
    obtain ⟨entry, found, sliced⟩ :=
      keeps.recent _ _ (List.getElem?_eq_getElem inside) (by omega)
    rw [Shell.saveFrom, found, ih (by omega) (by omega), List.drop_eq_getElem_cons inside,
      Terminated.text_cons]
    simp only [Option.bind_eq_bind, Option.bind_some, sliced]

theorem Keeps.saveHistory (keeps : s.Keeps lines) : s.saveHistory =
    some (Terminated.text newline (lines.drop (lines.length - historyMax))) := by
  have count := keeps.count
  have start : s.historyCount - min s.historyCount historyMax = lines.length - historyMax := by
    omega
  rw [Shell.saveHistory, start]
  exact keeps.saveFrom (by omega) (by omega)

/-! Loading. -/

namespace Loading

variable {l : Loading} {done : List (List UInt8)} {current read : List UInt8}

/-- The lines before a newline have been taken, and of the one that is being read the part that
fits. -/
structure Loads (l : Loading) (done : List (List UInt8)) (current : List UInt8) : Prop where
  keeps : l.shell.Keeps (kept fits done)
  width : l.line.length = lineMax
  lineLen : l.lineLen = min current.length lineMax
  text : l.line.take l.lineLen = current.take lineMax
  overflowed : l.overflowed = decide (lineMax < current.length)

def At (l : Loading) (read : List UInt8) : Prop :=
  ∃ done current, read = Terminated.text newline done ++ current ∧ newline ∉ current ∧
    (∀ line ∈ done, newline ∉ line) ∧ l.Loads done current

theorem fits_of_le (short : current.length ≤ lineMax) : fits current = !current.isEmpty := by
  simp [fits, short]

theorem fits_of_gt (long : lineMax < current.length) : fits current = false := by
  simp [fits, Nat.not_le_of_gt long]

theorem kept_of_not_fits (out : fits current = false) :
    kept fits (done ++ [current]) = kept fits done := by
  rw [kept_concat, out]
  rfl

theorem start_loads (unused : s.Unused) : (start s).Loads [] [] where
  keeps := unused.keeps
  width := List.length_replicate
  lineLen := rfl
  text := rfl
  overflowed := rfl

theorem Loads.remember (loads : l.Loads done current) (short : current.length ≤ lineMax) :
    ∃ after, l.remember = some after ∧ after.shell.Keeps (kept fits (done ++ [current])) ∧
      after.line = l.line := by
  have lineLen := loads.lineLen
  have width := loads.width
  unfold Loading.remember
  by_cases some : 0 < l.lineLen
  · have text : slice l.line 0 l.lineLen = Option.some current := by
      rw [slice, if_pos ⟨Nat.zero_le _, by omega⟩, List.drop_zero, loads.text,
        List.take_of_length_le short]
    obtain ⟨stored, t, remembered, keeps⟩ := loads.keeps.rememberLine short (fits_of_le short)
    rw [if_pos some, text, Option.bind_eq_bind, Option.bind_some, remembered]
    exact ⟨_, rfl, keeps, rfl⟩
  · have empty : current = [] := List.length_eq_zero_iff.mp (by simp only [lineMax] at *; omega)
    rw [if_neg some, kept_of_not_fits (by rw [empty]; rfl)]
    exact ⟨l, rfl, loads.keeps, rfl⟩

theorem Loads.endLine (loads : l.Loads done current) :
    ∃ after, l.endLine = some after ∧ after.Loads (done ++ [current]) [] := by
  unfold Loading.endLine
  by_cases long : lineMax < current.length
  · rw [if_pos (by rw [loads.overflowed, decide_eq_true long])]
    refine ⟨_, rfl, ?_, loads.width, rfl, rfl, rfl⟩
    rw [kept_of_not_fits (fits_of_gt long)]
    exact loads.keeps
  · obtain ⟨after, remembered, keeps, line⟩ := loads.remember (Nat.le_of_not_lt long)
    rw [if_neg (by rw [loads.overflowed, decide_eq_false long]; exact Bool.false_ne_true),
      remembered]
    exact ⟨_, rfl, keeps, line ▸ loads.width, rfl, rfl, rfl⟩

theorem Loads.other (loads : l.Loads done current) {byte : UInt8} (other : byte ≠ newline) :
    ∃ after, l.takeByte byte = some after ∧ after.Loads done (current ++ [byte]) := by
  have lineLen := loads.lineLen
  have width := loads.width
  have overflowed := loads.overflowed
  unfold takeByte
  rw [if_neg other]
  by_cases room : l.lineLen < l.line.length
  · have short : current.length < lineMax := by omega
    have same : l.lineLen = current.length := by omega
    rw [if_pos room, write_singleton room]
    refine ⟨_, rfl, loads.keeps, ?_, ?_, ?_, ?_⟩
    · rw [List.length_set, width]
    · rw [List.length_append, List.length_singleton]
      dsimp only
      omega
    · have text := loads.text
      rw [List.take_of_length_le (le_of_lt short)] at text
      have whole : (current ++ [byte]).take lineMax = current ++ [byte] :=
        List.take_of_length_le (by rw [List.length_append]; exact short)
      dsimp only
      rw [whole, List.take_add_one, List.take_set_of_le (le_rfl), text,
        List.getElem?_set_self room]
      rfl
    · rw [List.length_append, List.length_singleton]
      dsimp only
      rw [overflowed, decide_eq_false (by omega), decide_eq_false (by omega)]
  · rw [if_neg room]
    refine ⟨_, rfl, loads.keeps, width, ?_, ?_, ?_⟩
    · rw [List.length_append, List.length_singleton]
      dsimp only
      omega
    · dsimp only
      rw [loads.text, List.take_append_of_le_length (by omega)]
    · rw [List.length_append, List.length_singleton]
      exact (decide_eq_true (by omega)).symm

theorem At.takeByte (at' : l.At read) (byte : UInt8) :
    ∃ after, l.takeByte byte = some after ∧ after.At (read ++ [byte]) := by
  obtain ⟨done, current, eq, plain, free, loads⟩ := at'
  by_cases ends : byte = newline
  · obtain ⟨after, run, loads'⟩ := loads.endLine
    refine ⟨after, (if_pos ends).trans run, done ++ [current], [], ?_, by simp, ?_, loads'⟩
    · rw [eq, ends]
      simp
    · intro line mem
      rcases List.mem_append.mp mem with old | new
      · exact free line old
      · rw [List.mem_singleton.mp new]
        exact plain
  · obtain ⟨after, run, loads'⟩ := loads.other ends
    refine ⟨after, run, done, current ++ [byte], ?_, ?_, free, loads'⟩
    · rw [eq, List.append_assoc]
    · rw [List.mem_append, List.mem_singleton, not_or]
      exact ⟨plain, fun same => ends same.symm⟩

theorem At.takeAll (at' : l.At read) (bytes : List UInt8) :
    ∃ after, l.takeAll bytes = some after ∧ after.At (read ++ bytes) := by
  induction bytes generalizing l read with
  | nil => exact ⟨l, rfl, by simpa using at'⟩
  | cons byte rest ih =>
    obtain ⟨next, first, atNext⟩ := at'.takeByte byte
    obtain ⟨after, run, atEnd⟩ := ih atNext
    refine ⟨after, ?_, by simpa using atEnd⟩
    rw [Loading.takeAll, first]
    exact run

theorem At.finish (at' : l.At read) :
    ∃ after, l.finish = some after ∧ after.shell.Keeps (kept fits (linesOf newline read)) := by
  obtain ⟨done, current, eq, plain, free, loads⟩ := at'
  have lines : kept fits (linesOf newline read) = kept fits (done ++ [current]) := by
    rw [eq, Terminated.linesOf_text_append free]
    by_cases empty : current = []
    · rw [empty, kept_of_not_fits rfl, linesOf, List.append_nil]
    · rw [Terminated.linesOf_of_free plain empty]
  unfold Loading.finish
  rw [lines]
  by_cases long : lineMax < current.length
  · rw [if_pos (by rw [loads.overflowed, decide_eq_true long]), kept_of_not_fits (fits_of_gt long)]
    exact ⟨l, rfl, loads.keeps⟩
  · obtain ⟨after, remembered, keeps, -⟩ := loads.remember (Nat.le_of_not_lt long)
    rw [if_neg (by rw [loads.overflowed, decide_eq_false long]; exact Bool.false_ne_true)]
    exact ⟨after, remembered, keeps⟩

def readPart (readTotal : Nat) : List (List UInt8) → List UInt8
  | [] => []
  | chunk :: rest =>
    if historyReadMax ≤ readTotal then [] else chunk ++ readPart (readTotal + chunk.length) rest

theorem readPart_all {readTotal : Nat} {chunks : List (List UInt8)}
    (nonempty : ∀ chunk ∈ chunks, chunk ≠ [])
    (few : readTotal + chunks.flatten.length ≤ historyReadMax) :
    readPart readTotal chunks = chunks.flatten := by
  induction chunks generalizing readTotal with
  | nil => rfl
  | cons chunk rest ih =>
    simp only [List.forall_mem_cons] at nonempty
    rw [List.flatten_cons, List.length_append] at few
    have pos := List.length_pos_iff.mpr nonempty.1
    rw [readPart, if_neg (by omega), ih nonempty.2 (by omega), List.flatten_cons]

theorem At.readAll (at' : l.At read) (readTotal : Nat) (chunks : List (List UInt8)) :
    ∃ after notices, l.readAll readTotal (chunks.map some) = some (after, notices) ∧
      after.At (read ++ readPart readTotal chunks) := by
  induction chunks generalizing l read readTotal with
  | nil => exact ⟨l, _, rfl, by simpa [readPart] using at'⟩
  | cons chunk rest ih =>
    rw [List.map_cons, Loading.readAll, readPart]
    by_cases enough : historyReadMax ≤ readTotal
    · rw [if_pos enough, if_pos enough]
      exact ⟨l, _, rfl, by simpa using at'⟩
    · obtain ⟨next, taken, atNext⟩ := at'.takeAll chunk
      obtain ⟨after, notices, run, atEnd⟩ := ih atNext (readTotal + chunk.length)
      rw [if_neg enough, if_neg enough, taken]
      exact ⟨after, notices, run, by simpa using atEnd⟩

end Loading

theorem Unused.loadHistory (unused : s.Unused) (chunks : List (List UInt8)) :
    ∃ t notices, s.loadHistory (some (chunks.map some)) = some (t, notices) ∧
      t.Keeps (kept fits (linesOf newline (Loading.readPart 0 chunks))) := by
  have start : (Loading.start s).At [] :=
    ⟨[], [], rfl, by simp, by simp, Loading.start_loads unused⟩
  obtain ⟨l, notices, run, atEnd⟩ := start.readAll 0 chunks
  obtain ⟨after, finished, keeps⟩ := atEnd.finish
  refine ⟨after.shell, after.notices ++ notices, ?_, keeps⟩
  unfold Shell.loadHistory
  simp only [run, Option.bind_eq_bind, Option.bind_some, finished]

end Zaytos.Shell
